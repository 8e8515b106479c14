import SimCme.Engine.LinkedLevel
import SimCme.Engine.BookRuns
import SimCme.Library.Image
import SimCme.Library.Simulation

/-!
# The order book by intrusive links

The operations of {lit}`SimCme.Engine.OrderBook` once more, on the levels the source
keeps: a head and a tail in the map, and the queue in the links of the orders.
The inner matching loop follows the head of the level while there is one, so it
need not end; it takes a bound on its turns and fails when they are used up.

Main results:

- Theorem {lit}`OrderHeap.orders_modifyFields` and
  {lit}`OrderHeap.links_modifyFields`: an update of the fields of an order changes
  no link.
- Theorem {lit}`LinkedPriceLevel.Implements.eq_ends`: the ends of a level are
  determined by its queue.
-/

namespace SimCme

open Library

namespace OrderHeap

variable (h : OrderHeap) (order r : OrderRef) (f : Order → Order)

/-- Update the fields of an order other than its links. -/
def modifyFields : OrderHeap :=
  h.modify order fun o => { o with toOrder := f o.toOrder }

/-- A new order is in no queue. -/
def allocOrder (o : Order) : OrderHeap :=
  h.alloc { toOrder := o }

@[simp]
theorem orders_modifyFields : orders (modifyFields h order f) = (orders h).modify order f := by
  apply Heap.ext_read
  · intro r
    by_cases heq : r = order
    · subst heq
      rw [read_orders, modifyFields, Heap.read_modify_self, Heap.read_modify_self, read_orders]
    · rw [read_orders, modifyFields, Heap.read_modify_of_ne _ _ heq,
        Heap.read_modify_of_ne _ _ heq, read_orders]
  · rfl

@[simp]
theorem links_modifyFields : links (modifyFields h order f) = links h := by
  let g : LinkedOrder → LinkedOrder := fun o => { o with toOrder := f o.toOrder }
  apply congrArg₂ Links.mk
  · funext r
    exact Heap.read_modify_field (f := g) LinkedOrder.prevInLevel (fun _ => rfl) h order r
  · funext r
    exact Heap.read_modify_field (f := g) LinkedOrder.nextInLevel (fun _ => rfl) h order r

@[simp]
theorem orders_allocOrder (o : Order) : orders (allocOrder h o) = (orders h).alloc o := by
  apply Heap.ext_read
  · intro r
    by_cases heq : r = h.next
    · subst heq
      rw [read_orders, allocOrder, h.read_alloc_next]
      exact ((orders h).read_alloc_next o).symm
    · rw [read_orders, allocOrder, h.read_alloc_of_ne _ heq]
      exact ((orders h).read_alloc_of_ne o heq).symm
  · rfl

@[simp]
theorem next_orders : (orders h).next = h.next :=
  rfl

end OrderHeap

/-! ## The ends of a level -/

/-- The level that keeps the ends of a listed queue. -/
def PriceLevel.ends (level : PriceLevel) : LinkedPriceLevel where
  price := level.price
  totalQuantity := level.totalQuantity
  orderCount := level.orderCount
  head := level.queue.head?
  tail := level.queue.getLast?

@[simp]
theorem PriceLevel.empty_ends (level : PriceLevel) : level.ends.empty = level.empty := by
  cases hqueue : level.queue with
  | nil => simp [LinkedPriceLevel.empty, PriceLevel.ends, PriceLevel.empty, hqueue]
  | cons first rest => simp [LinkedPriceLevel.empty, PriceLevel.ends, PriceLevel.empty, hqueue]

namespace LinkedPriceLevel

variable {level : LinkedPriceLevel} {h : OrderHeap} {listed : PriceLevel}

/-- The ends of a level are determined by its queue. -/
theorem Implements.eq_ends (himpl : level.Implements h listed) : level = listed.ends := by
  rcases himpl with ⟨hprice, htotal, hcount, hhead, htail, -, -⟩
  cases level
  simp only at hprice htotal hcount hhead htail
  rw [hprice, htotal, hcount, hhead, htail]
  rfl

theorem implements_ends (hlinked : (OrderHeap.links h).Linked listed.queue)
    (hnodup : listed.queue.Nodup) : listed.ends.Implements h listed where
  price_eq := rfl
  totalQuantity_eq := rfl
  orderCount_eq := rfl
  head_eq := rfl
  tail_eq := rfl
  linked := hlinked
  nodup := hnodup

end LinkedPriceLevel

/-! ## The book -/

/-- The price levels of one half of a book, by their ends. -/
abbrev LinkedLevelMap (s : BookSide) :=
  OrderedMap Price LinkedPriceLevel s.Better

structure LinkedOrderBook where
  securityId : SecurityId
  bidLevels : LinkedLevelMap .bid := .empty
  askLevels : LinkedLevelMap .ask := .empty
  ordersById : OrderId → Option OrderRef := fun _ => none
  nextTradeId : Nat := 1
  rptSeq : UInt32 := 1

namespace LinkedOrderBook

open OrderHeap

/-- The levels of one half. -/
def levels (b : LinkedOrderBook) : (s : BookSide) → LinkedLevelMap s
  | .bid => b.bidLevels
  | .ask => b.askLevels

/-- Replace the levels of one half. -/
def withLevels (b : LinkedOrderBook) : (s : BookSide) → LinkedLevelMap s → LinkedOrderBook
  | .bid, m => { b with bidLevels := m }
  | .ask, m => { b with askLevels := m }

/-- Erase one id from the id index. -/
def eraseId (b : LinkedOrderBook) (id : OrderId) : LinkedOrderBook :=
  { b with ordersById := fun i => if i = id then none else b.ordersById i }

/-- Set one entry of the id index. -/
def setId (b : LinkedOrderBook) (id : OrderId) (order : OrderRef) : LinkedOrderBook :=
  { b with ordersById := fun i => if i = id then some order else b.ordersById i }

/-- The 1-based position of a price on a half: its own when the level exists,
else the one it would take. -/
def priceLevelIndex (b : LinkedOrderBook) (s : BookSide) (price : Price) : Nat :=
  if price ∈ (b.levels s).keys then
    (b.levels s).keys.findIdx (fun p => p = price) + 1
  else
    (b.levels s).keys.findIdx (fun p => s.Better price p) + 1

/-- Emit one book update under the next report sequence number. -/
def generateBookUpdate (b : LinkedOrderBook) (s : BookSide) (price : Price)
    (newQty newCount : Int) (action : MDUpdateAction) (levelIdx : Nat) :
    LinkedOrderBook × EngineEvent :=
  ({ b with rptSeq := b.rptSeq + 1 },
    .bookUpdate
      { securityId := b.securityId
        side := s.side
        price := price
        newQty := newQty
        newOrderCount := newCount
        updateAction := action
        priceLevelIndex := levelIdx
        rptSeq := b.rptSeq })

/-- Report a level that lost quantity: deleted when it has no head. -/
def reportLevel (b : LinkedOrderBook) (s : BookSide) (price : Price)
    (level : LinkedPriceLevel) (levelIdx : Nat) : LinkedOrderBook × EngineEvent :=
  if level.empty then
    b.generateBookUpdate s price 0 0 .delete levelIdx
  else
    b.generateBookUpdate s price level.totalQuantity level.orderCount .change levelIdx

/-- Erase the level of a price from its map when it has no head. -/
def eraseIfEmpty (b : LinkedOrderBook) (s : BookSide) (price : Price)
    (level : LinkedPriceLevel) : LinkedOrderBook :=
  if level.empty then b.withLevels s ((b.levels s).erase price) else b

/-! ### Matching -/

/-- What an operation leaves behind. -/
structure Outcome where
  heap : OrderHeap
  book : LinkedOrderBook
  events : List EngineEvent

/-- What {lit}`executeTrade` leaves behind. -/
structure Executed where
  heap : OrderHeap
  book : LinkedOrderBook
  trade : Trade

def executeTrade (b : LinkedOrderBook) (h : OrderHeap) (maker taker : OrderRef)
    (tradePrice : Price) (tradeQty : Int) : Executed :=
  let h := modifyFields h maker fun o => { o with filledQty := o.filledQty + tradeQty }
  let h := modifyFields h taker fun o => { o with filledQty := o.filledQty + tradeQty }
  { heap := h
    book := { b with nextTradeId := b.nextTradeId + 1 }
    trade :=
      { tradeId := b.nextTradeId
        securityId := b.securityId
        price := tradePrice
        quantity := tradeQty
        aggressorSide := (h.read taker).side
        makerOrderId := (h.read maker).orderId
        takerOrderId := (h.read taker).orderId
        makerSessionUuid := (h.read maker).sessionUuid
        takerSessionUuid := (h.read taker).sessionUuid
        timestamp := (h.read taker).timestamp } }

/-- What the body of the inner matching loop leaves behind. -/
structure MatchResult extends Outcome where
  level : LinkedPriceLevel

/-- The level, the orders and the book once the maker has its status. -/
structure MakerUpdate where
  level : LinkedPriceLevel
  heap : OrderHeap
  book : LinkedOrderBook

/-- A completed maker leaves its level and the id index. -/
def updateMaker (b : LinkedOrderBook) (h : OrderHeap) (level : LinkedPriceLevel)
    (maker : OrderRef) : MakerUpdate :=
  if (h.read maker).isFullyFilled then
    let h := modifyFields h maker fun o => { o with status := .filled }
    let removed := level.removeOrder h maker
    { level := removed.1
      heap := removed.2
      book := b.eraseId (removed.2.read maker).orderId }
  else
    { level := level
      heap := modifyFields h maker fun o => { o with status := .partiallyFilled }
      book := b }

/-- The body of the inner matching loop.  The level is a reference into the level
map, so its changes are written through to the map. -/
def matchFront (s : BookSide) (tradePrice : Price) (taker maker : OrderRef)
    (level : LinkedPriceLevel) (h : OrderHeap) (b : LinkedOrderBook) : MatchResult :=
  let tradeQty := min (h.read taker).remainingQty (h.read maker).remainingQty
  let executed := b.executeTrade h maker taker tradePrice tradeQty
  let level := { level with totalQuantity := level.totalQuantity - tradeQty }
  -- Update maker status
  let updated := executed.book.updateMaker executed.heap level maker
  let level := updated.level
  let b := updated.book.withLevels s ((updated.book.levels s).update tradePrice fun _ => level)
  -- Update taker status
  let h := modifyFields updated.heap taker fun o =>
    { o with status := if o.isFullyFilled then .filled else .partiallyFilled }
  let fill := OrderBook.fillReport executed.trade (h.read maker).toOrder (h.read taker).toOrder
  let reported := b.reportLevel s tradePrice level (b.priceLevelIndex s tradePrice)
  { heap := h
    book := reported.1
    level := level
    events := [.orderFilled fill, reported.2] }

/-- The inner loop, in at most so many turns: while the level has a head and the
taker wants quantity, run the body. -/
def matchQueue (s : BookSide) (tradePrice : Price) (taker : OrderRef) :
    Nat → LinkedPriceLevel → OrderHeap → LinkedOrderBook → Option MatchResult
  | 0, _, _, _ => none
  | turns + 1, level, h, b =>
      match level.front with
      | none => some { heap := h, book := b, level := level, events := [] }
      | some maker =>
          if (h.read taker).remainingQty > 0 then
            let r := matchFront s tradePrice taker maker level h b
            (matchQueue s tradePrice taker turns r.level r.heap r.book).map fun rest =>
              { rest with events := r.events ++ rest.events }
          else some { heap := h, book := b, level := level, events := [] }

/-- The outer loop, over the levels from the iterator on. -/
def matchLevels (s : BookSide) (stop : Price → Bool) (taker : OrderRef) (turns : Nat) :
    List (Price × LinkedPriceLevel) → OrderHeap → LinkedOrderBook → Option Outcome
  | [], h, b => some { heap := h, book := b, events := [] }
  | (tradePrice, level) :: rest, h, b =>
      if (h.read taker).remainingQty > 0 then
        if stop tradePrice then some { heap := h, book := b, events := [] }
        else
          (matchQueue s tradePrice taker turns level h b).bind fun r =>
            (matchLevels s stop taker turns rest r.heap
              (r.book.eraseIfEmpty s tradePrice r.level)).map fun next =>
                { next with events := r.events ++ next.events }
      else some { heap := h, book := b, events := [] }

def matchLimit (b : LinkedOrderBook) (turns : Nat) (h : OrderHeap) (order : OrderRef) :
    Option Outcome :=
  let s := (h.read order).side.bookSide.opposite
  matchLevels s (OrderBook.limitStop s (h.read order).price) order turns (b.levels s).entries h b

def matchMarket (b : LinkedOrderBook) (turns : Nat) (h : OrderHeap) (order : OrderRef) :
    Option Outcome :=
  let s := (h.read order).side.bookSide.opposite
  matchLevels s (fun _ => false) order turns (b.levels s).entries h b

def matchOrder (b : LinkedOrderBook) (turns : Nat) (h : OrderHeap) (order : OrderRef) :
    Option Outcome :=
  if (h.read order).orderType = .market then b.matchMarket turns h order
  else b.matchLimit turns h order

/-- The loop of the fill-or-kill check over the levels of the opposite half. -/
def canFillLevels (stop : Price → Bool) : Int → List (Price × LinkedPriceLevel) → Bool
  | needed, [] => needed ≤ 0
  | needed, (price, level) :: rest =>
      if stop price then needed ≤ 0
      else if needed - level.totalQuantity ≤ 0 then true
      else canFillLevels stop (needed - level.totalQuantity) rest

def canFillFOK (b : LinkedOrderBook) (order : Order) : Bool :=
  let s := order.side.bookSide.opposite
  canFillLevels
    (fun price => order.orderType = .limit && OrderBook.limitStop s order.price price)
    order.quantity (b.levels s).entries

/-! ### Book manipulation -/

def insertResting (b : LinkedOrderBook) (h : OrderHeap) (order : OrderRef) : Outcome :=
  let o := (h.read order).toOrder
  let s := o.side.bookSide
  let b := b.setId o.orderId order
  let inserted := ((b.levels s).find? o.price).isNone
  let m := (b.levels s).tryEmplace o.price {}
  let level := (m.find? o.price).getD {}
  let level := if inserted then { level with price := o.price } else level
  let added := level.addOrder h order
  let b := b.withLevels s (m.update o.price fun _ => added.1)
  let reported := b.generateBookUpdate s o.price added.1.totalQuantity added.1.orderCount
    (if inserted then .new else .change) (b.priceLevelIndex s o.price)
  { heap := added.2, book := reported.1, events := [reported.2] }

def removeFromBook (b : LinkedOrderBook) (h : OrderHeap) (order : OrderRef) : Outcome :=
  let o := (h.read order).toOrder
  let s := o.side.bookSide
  let b := b.eraseId o.orderId
  match (b.levels s).find? o.price with
  | none => { heap := h, book := b, events := [] }
  | some level =>
      let levelIdx := b.priceLevelIndex s o.price
      let removed := level.removeOrder h order
      let b := b.withLevels s ((b.levels s).update o.price fun _ => removed.1)
      let b := b.eraseIfEmpty s o.price removed.1
      let reported := b.reportLevel s o.price removed.1 levelIdx
      { heap := removed.2, book := reported.1, events := [reported.2] }

/-! ### Public interface -/

/-- Cancel what is left of an order that is in no level. -/
def cancelRest (b : LinkedOrderBook) (h : OrderHeap) (order : OrderRef) : Outcome :=
  let h := modifyFields h order fun o => { o with status := .canceled }
  { heap := h, book := b, events := [OrderBook.cancelledEvent (h.read order).toOrder] }

/-- What {lit}`addOrder` does with an order after matching. -/
def restOrder (b : LinkedOrderBook) (h : OrderHeap) (order : OrderRef) : Outcome :=
  let o := (h.read order).toOrder
  if o.isFullyFilled then { heap := h, book := b, events := [] }
  else if o.timeInForce = .ioc ∨ o.timeInForce = .fok then b.cancelRest h order
  else if o.orderType = .limit then b.insertResting h order
  else if o.orderType = .market then b.cancelRest h order
  else { heap := h, book := b, events := [] }

def addOrder (b : LinkedOrderBook) (turns : Nat) (h : OrderHeap) (order : OrderRef) :
    Option Outcome :=
  let o := (h.read order).toOrder
  if o.timeInForce = .fok ∧ b.canFillFOK o = false then
    some
      { heap := h
        book := b
        events := [.orderRejected
          { clOrdId := o.clOrdId
            sessionUuid := o.sessionUuid
            reason := "FOK order cannot be fully filled"
            rejectReasonCode := 0 }] }
  else
    (b.matchOrder turns h order).map fun matched =>
      let rested := matched.book.restOrder matched.heap order
      { rested with
        events := OrderBook.acceptedEvent o :: matched.events ++ rested.events }

def cancelOrder (b : LinkedOrderBook) (h : OrderHeap) (orderId : OrderId) : Outcome :=
  match b.ordersById orderId with
  | none =>
      { heap := h
        book := b
        events := [.orderCancelRejected
          { orderId := orderId
            clOrdId := []
            sessionUuid := 0
            rejectReasonCode := 0
            reason := "Order not found" }] }
  | some order =>
      let removed := b.removeFromBook h order
      let cancelled := removed.book.cancelRest removed.heap order
      { cancelled with events := removed.events ++ cancelled.events }

/-- What {lit}`modifyOrder` does with an order after matching. -/
def reinsertOrder (b : LinkedOrderBook) (h : OrderHeap) (order : OrderRef) : Outcome :=
  let o := (h.read order).toOrder
  if o.isFullyFilled = false ∧ o.orderType = .limit then b.insertResting h order
  else { heap := h, book := b, events := [] }

def modifyOrder (b : LinkedOrderBook) (turns : Nat) (h : OrderHeap) (orderId : OrderId)
    (newPrice : Price) (newQty : Int) (newClOrdId : ClOrdId) : Option Outcome :=
  match b.ordersById orderId with
  | none =>
      some
        { heap := h
          book := b
          events := [.orderCancelRejected
            { orderId := orderId
              clOrdId := newClOrdId
              sessionUuid := 0
              rejectReasonCode := 0
              reason := "Order not found" }] }
  | some order =>
      -- Remove from current position
      let removed := b.removeFromBook h order
      -- Update fields
      let h := OrderHeap.modifyFields removed.heap order fun o =>
        OrderBook.modifiedOrder o newPrice newQty newClOrdId
      -- Re-match at new price
      (removed.book.matchOrder turns h order).map fun matched =>
        -- If not fully filled, re-insert as resting
        let rested := matched.book.reinsertOrder matched.heap order
        { rested with
          events := removed.events ++
            OrderBook.modifiedEvent (h.read order).toOrder newPrice newQty ::
              matched.events ++ rested.events }

end LinkedOrderBook

/-! ## Runs -/

/-- A book together with the orders whose links it keeps. -/
structure LinkedBookState where
  heap : OrderHeap
  book : LinkedOrderBook

namespace LinkedBookState

/-- A book that no order has reached yet. -/
def empty (securityId : SecurityId) : LinkedBookState where
  heap := .empty
  book := { securityId := securityId }

/-- The turns granted to an inner loop: one for every order there is, and one to
find the level empty. -/
def turns (h : OrderHeap) : Nat :=
  h.next + 1

/-- What one call leaves behind and emits, if its loops end in time. -/
def outcome (s : LinkedBookState) : BookOp → Option LinkedOrderBook.Outcome
  | .add o =>
      let h := OrderHeap.allocOrder s.heap o
      s.book.addOrder (turns h) h s.heap.next
  | .cancel orderId => some (s.book.cancelOrder s.heap orderId)
  | .modify orderId newPrice newQty newClOrdId =>
      s.book.modifyOrder (turns s.heap) s.heap orderId newPrice newQty newClOrdId

/-- The machine whose inputs are calls and whose outputs are events; it fails when a
loop has not ended in time. -/
def machine : PartialMachine LinkedBookState BookOp EngineEvent where
  step s op := (s.outcome op).map fun r => (⟨r.heap, r.book⟩, r.events)

end LinkedBookState

end SimCme
