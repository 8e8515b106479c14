import SimCme.Engine.Order
import SimCme.Library.OrderedMap

/-!
# The order book

Each operation takes the heap of orders and the book, and returns both together
with the events it emits, in order.  The buy and sell loops of the source differ
in the level map they walk and in the price at which they break, and the limit
and market loops differ in whether they break at all; one pair of loops carries
both as parameters, and {lit}`matchLimit` and {lit}`matchMarket` instantiate it.
-/

namespace SimCme

open Library

/-- The price levels of one half of a book. -/
abbrev LevelMap (s : BookSide) :=
  OrderedMap Price PriceLevel s.Better

structure OrderBook where
  securityId : SecurityId
  bidLevels : LevelMap .bid := .empty
  askLevels : LevelMap .ask := .empty
  ordersById : OrderId → Option OrderRef := fun _ => none
  nextTradeId : Nat := 1
  rptSeq : UInt32 := 1

namespace OrderBook

/-- The levels of one half. -/
def levels (b : OrderBook) : (s : BookSide) → LevelMap s
  | .bid => b.bidLevels
  | .ask => b.askLevels

/-- Replace the levels of one half. -/
def withLevels (b : OrderBook) : (s : BookSide) → LevelMap s → OrderBook
  | .bid, m => { b with bidLevels := m }
  | .ask, m => { b with askLevels := m }

@[simp]
theorem levels_withLevels_self (b : OrderBook) (s : BookSide) (m : LevelMap s) :
    (b.withLevels s m).levels s = m := by
  cases s <;> rfl

@[simp]
theorem levels_withLevels_opposite (b : OrderBook) (s : BookSide) (m : LevelMap s) :
    (b.withLevels s m).levels s.opposite = b.levels s.opposite := by
  cases s <;> rfl

@[simp]
theorem ordersById_withLevels (b : OrderBook) (s : BookSide) (m : LevelMap s) :
    (b.withLevels s m).ordersById = b.ordersById := by
  cases s <;> rfl

@[simp]
theorem rptSeq_withLevels (b : OrderBook) (s : BookSide) (m : LevelMap s) :
    (b.withLevels s m).rptSeq = b.rptSeq := by
  cases s <;> rfl

@[simp]
theorem securityId_withLevels (b : OrderBook) (s : BookSide) (m : LevelMap s) :
    (b.withLevels s m).securityId = b.securityId := by
  cases s <;> rfl

/-- Erase one id from the id index. -/
def eraseId (b : OrderBook) (id : OrderId) : OrderBook :=
  { b with ordersById := fun i => if i = id then none else b.ordersById i }

/-- Set one entry of the id index. -/
def setId (b : OrderBook) (id : OrderId) (order : OrderRef) : OrderBook :=
  { b with ordersById := fun i => if i = id then some order else b.ordersById i }

@[simp]
theorem ordersById_eraseId (b : OrderBook) (id i : OrderId) :
    (b.eraseId id).ordersById i = if i = id then none else b.ordersById i :=
  rfl

@[simp]
theorem ordersById_setId (b : OrderBook) (id i : OrderId) (order : OrderRef) :
    (b.setId id order).ordersById i = if i = id then some order else b.ordersById i :=
  rfl

/-- Advance the trade counter. -/
def nextTrade (b : OrderBook) : OrderBook :=
  { b with nextTradeId := b.nextTradeId + 1 }

/-- Advance the report sequence number, modulo {lit}`2^32`. -/
def nextReport (b : OrderBook) : OrderBook :=
  { b with rptSeq := b.rptSeq + 1 }

@[simp]
theorem levels_eraseId (b : OrderBook) (id : OrderId) (s : BookSide) :
    (b.eraseId id).levels s = b.levels s := by
  cases s <;> rfl

@[simp]
theorem levels_setId (b : OrderBook) (id : OrderId) (order : OrderRef) (s : BookSide) :
    (b.setId id order).levels s = b.levels s := by
  cases s <;> rfl

@[simp]
theorem levels_nextTrade (b : OrderBook) (s : BookSide) :
    b.nextTrade.levels s = b.levels s := by
  cases s <;> rfl

@[simp]
theorem levels_nextReport (b : OrderBook) (s : BookSide) :
    b.nextReport.levels s = b.levels s := by
  cases s <;> rfl

@[simp]
theorem rptSeq_eraseId (b : OrderBook) (id : OrderId) :
    (b.eraseId id).rptSeq = b.rptSeq :=
  rfl

@[simp]
theorem securityId_eraseId (b : OrderBook) (id : OrderId) :
    (b.eraseId id).securityId = b.securityId :=
  rfl

@[simp]
theorem rptSeq_setId (b : OrderBook) (id : OrderId) (order : OrderRef) :
    (b.setId id order).rptSeq = b.rptSeq :=
  rfl

@[simp]
theorem securityId_setId (b : OrderBook) (id : OrderId) (order : OrderRef) :
    (b.setId id order).securityId = b.securityId :=
  rfl

@[simp]
theorem ordersById_nextTrade (b : OrderBook) : b.nextTrade.ordersById = b.ordersById :=
  rfl

@[simp]
theorem rptSeq_nextTrade (b : OrderBook) : b.nextTrade.rptSeq = b.rptSeq :=
  rfl

@[simp]
theorem securityId_nextTrade (b : OrderBook) : b.nextTrade.securityId = b.securityId :=
  rfl

@[simp]
theorem ordersById_nextReport (b : OrderBook) : b.nextReport.ordersById = b.ordersById :=
  rfl

@[simp]
theorem rptSeq_nextReport (b : OrderBook) : b.nextReport.rptSeq = b.rptSeq + 1 :=
  rfl

@[simp]
theorem securityId_nextReport (b : OrderBook) : b.nextReport.securityId = b.securityId :=
  rfl

/-! ## Book queries -/

def bestBid (b : OrderBook) : Price :=
  match b.bidLevels.entries with
  | [] => Price.null
  | (price, _) :: _ => price

def bestAsk (b : OrderBook) : Price :=
  match b.askLevels.entries with
  | [] => Price.null
  | (price, _) :: _ => price

/-- The 1-based position of a price on a half: its own when the level exists,
else the one it would take. -/
def priceLevelIndex (b : OrderBook) (s : BookSide) (price : Price) : Nat :=
  if price ∈ (b.levels s).keys then
    (b.levels s).keys.findIdx (fun p => p = price) + 1
  else
    (b.levels s).keys.findIdx (fun p => s.Better price p) + 1

/-- Emit one book update under the next report sequence number. -/
def generateBookUpdate (b : OrderBook) (s : BookSide) (price : Price)
    (newQty newCount : Int) (action : MDUpdateAction) (levelIdx : Nat) :
    OrderBook × EngineEvent :=
  (b.nextReport,
    .bookUpdate
      { securityId := b.securityId
        side := s.side
        price := price
        newQty := newQty
        newOrderCount := newCount
        updateAction := action
        priceLevelIndex := levelIdx
        rptSeq := b.rptSeq })

/-! ## Matching -/

/-- What an operation leaves behind: the orders, the book and the events it
emitted, in order. -/
structure Outcome where
  heap : Heap Order
  book : OrderBook
  events : List EngineEvent

/-- What {lit}`executeTrade` leaves behind. -/
structure Executed where
  heap : Heap Order
  book : OrderBook
  trade : Trade

def executeTrade (b : OrderBook) (h : Heap Order) (maker taker : OrderRef)
    (tradePrice : Price) (tradeQty : Int) : Executed :=
  let h := h.modify maker fun o => { o with filledQty := o.filledQty + tradeQty }
  let h := h.modify taker fun o => { o with filledQty := o.filledQty + tradeQty }
  { heap := h
    book := b.nextTrade
    trade :=
      { tradeId := b.nextTradeId
        securityId := b.securityId
        price := tradePrice
        quantity := tradeQty
        aggressorSide := (h.read taker).side
        makerOrderId := (h.read maker).orderId
        takerOrderId := (h.read taker).orderId
        makerSessionUuid := (h.read maker).sessionUuid
        takerSessionUuid := (h.read taker).sessionUuid
        timestamp := (h.read taker).timestamp } }

/-- What the body of the inner matching loop leaves behind. -/
structure MatchResult extends Outcome where
  level : PriceLevel

/-- The fill report of a trade, from both orders as the trade left them. -/
def fillReport (trade : Trade) (maker taker : Order) : OrderFilled :=
  { tradeId := trade.tradeId
    securityId := trade.securityId
    tradePrice := trade.price
    tradeQty := trade.quantity
    aggressorSide := trade.aggressorSide
    makerOrderId := maker.orderId
    makerClOrdId := maker.clOrdId
    makerSessionUuid := maker.sessionUuid
    makerCumQty := maker.filledQty
    makerLeavesQty := maker.remainingQty
    makerOrdStatus := maker.status
    takerOrderId := taker.orderId
    takerClOrdId := taker.clOrdId
    takerSessionUuid := taker.sessionUuid
    takerCumQty := taker.filledQty
    takerLeavesQty := taker.remainingQty
    takerOrdStatus := taker.status }

/-- Report a level that lost quantity: deleted when its queue is empty. -/
def reportLevel (b : OrderBook) (s : BookSide) (price : Price) (level : PriceLevel)
    (levelIdx : Nat) : OrderBook × EngineEvent :=
  if level.empty then
    b.generateBookUpdate s price 0 0 .delete levelIdx
  else
    b.generateBookUpdate s price level.totalQuantity level.orderCount .change levelIdx

/-- The body of the inner matching loop: trade the taker against the front of
the level's queue.  The level is a reference into the level map of the half
{lit}`s`, so its changes are written through to the map. -/
def matchFront (s : BookSide) (tradePrice : Price) (taker maker : OrderRef)
    (level : PriceLevel) (h : Heap Order) (b : OrderBook) : MatchResult :=
  let tradeQty := min (h.read taker).remainingQty (h.read maker).remainingQty
  let executed := b.executeTrade h maker taker tradePrice tradeQty
  let level := { level with totalQuantity := level.totalQuantity - tradeQty }
  -- Update maker status
  let full := (executed.heap.read maker).isFullyFilled
  let h := executed.heap.modify maker fun o =>
    { o with status := if full then .filled else .partiallyFilled }
  let level := if full then level.removeOrder h maker else level
  let b := if full then executed.book.eraseId (h.read maker).orderId else executed.book
  let b := b.withLevels s ((b.levels s).update tradePrice fun _ => level)
  -- Update taker status
  let h := h.modify taker fun o =>
    { o with status := if o.isFullyFilled then .filled else .partiallyFilled }
  let fill := fillReport executed.trade (h.read maker) (h.read taker)
  let reported := b.reportLevel s tradePrice level (b.priceLevelIndex s tradePrice)
  { heap := h
    book := reported.1
    level := level
    events := [.orderFilled fill, reported.2] }

/-- The inner loop, over the queue of the level.  When the front order is not
filled by a trade the taker is, so the loop ends there. -/
def matchQueue (s : BookSide) (tradePrice : Price) (taker : OrderRef) :
    List OrderRef → PriceLevel → Heap Order → OrderBook → MatchResult
  | [], level, h, b => { heap := h, book := b, level := level, events := [] }
  | maker :: queue, level, h, b =>
      if (h.read taker).remainingQty > 0 then
        let r := matchFront s tradePrice taker maker level h b
        if (r.heap.read maker).isFullyFilled then
          let rest := matchQueue s tradePrice taker queue r.level r.heap r.book
          { rest with events := r.events ++ rest.events }
        else r
      else { heap := h, book := b, level := level, events := [] }

/-- Erase the level of a price from its map when its queue is empty. -/
def eraseIfEmpty (b : OrderBook) (s : BookSide) (price : Price) (level : PriceLevel) :
    OrderBook :=
  if level.empty then b.withLevels s ((b.levels s).erase price) else b

/-- The outer loop, over the levels from the iterator on.  The levels ahead of
the iterator are still as they were when the loop started. -/
def matchLevels (s : BookSide) (stop : Price → Bool) (taker : OrderRef) :
    List (Price × PriceLevel) → Heap Order → OrderBook → Outcome
  | [], h, b => { heap := h, book := b, events := [] }
  | (tradePrice, level) :: rest, h, b =>
      if (h.read taker).remainingQty > 0 then
        if stop tradePrice then { heap := h, book := b, events := [] }
        else
          let r := matchQueue s tradePrice taker level.queue level h b
          let next := matchLevels s stop taker rest r.heap
            (r.book.eraseIfEmpty s tradePrice r.level)
          { next with events := r.events ++ next.events }
      else { heap := h, book := b, events := [] }

/-- The price at which a limit order's loop breaks: an ask above a buy's price,
a bid below a sell's. -/
def limitStop (s : BookSide) (limit : Price) : Price → Bool :=
  match s with
  | .ask => fun price => price > limit
  | .bid => fun price => price < limit

def matchLimit (b : OrderBook) (h : Heap Order) (order : OrderRef) : Outcome :=
  let s := (h.read order).side.bookSide.opposite
  matchLevels s (limitStop s (h.read order).price) order (b.levels s).entries h b

def matchMarket (b : OrderBook) (h : Heap Order) (order : OrderRef) : Outcome :=
  let s := (h.read order).side.bookSide.opposite
  matchLevels s (fun _ => false) order (b.levels s).entries h b

def matchOrder (b : OrderBook) (h : Heap Order) (order : OrderRef) : Outcome :=
  if (h.read order).orderType = .market then b.matchMarket h order
  else b.matchLimit h order

/-- The loop of the fill-or-kill check over the levels of the opposite half. -/
def canFillLevels (stop : Price → Bool) :
    Int → List (Price × PriceLevel) → Bool
  | needed, [] => needed ≤ 0
  | needed, (price, level) :: rest =>
      if stop price then needed ≤ 0
      else if needed - level.totalQuantity ≤ 0 then true
      else canFillLevels stop (needed - level.totalQuantity) rest

def canFillFOK (b : OrderBook) (order : Order) : Bool :=
  let s := order.side.bookSide.opposite
  canFillLevels
    (fun price => order.orderType = .limit && limitStop s order.price price)
    order.quantity (b.levels s).entries

/-! ## Book manipulation -/

def insertResting (b : OrderBook) (h : Heap Order) (order : OrderRef) :
    OrderBook × List EngineEvent :=
  let o := h.read order
  let s := o.side.bookSide
  let b := b.setId o.orderId order
  let inserted := ((b.levels s).find? o.price).isNone
  let m := (b.levels s).tryEmplace o.price {}
  let m := m.update o.price fun level =>
    (if inserted then { level with price := o.price } else level).addOrder h order
  let b := b.withLevels s m
  let level := (m.find? o.price).getD {}
  let reported := b.generateBookUpdate s o.price level.totalQuantity level.orderCount
    (if inserted then .new else .change) (b.priceLevelIndex s o.price)
  (reported.1, [reported.2])

def removeFromBook (b : OrderBook) (h : Heap Order) (order : OrderRef) :
    OrderBook × List EngineEvent :=
  let o := h.read order
  let s := o.side.bookSide
  let b := b.eraseId o.orderId
  match (b.levels s).find? o.price with
  | none => (b, [])
  | some level =>
      let levelIdx := b.priceLevelIndex s o.price
      let level := level.removeOrder h order
      let b := b.withLevels s ((b.levels s).update o.price fun _ => level)
      let b := b.eraseIfEmpty s o.price level
      let reported := b.reportLevel s o.price level levelIdx
      (reported.1, [reported.2])

/-! ## Public interface -/

/-- The cancel report of an order as it stands. -/
def cancelledEvent (o : Order) : EngineEvent :=
  .orderCancelled
    { orderId := o.orderId
      clOrdId := o.clOrdId
      sessionUuid := o.sessionUuid
      securityId := o.securityId
      cumQty := o.filledQty
      ordStatus := o.status }

/-- The acceptance report of an order. -/
def acceptedEvent (o : Order) : EngineEvent :=
  .orderAccepted
    { orderId := o.orderId
      clOrdId := o.clOrdId
      sessionUuid := o.sessionUuid
      securityId := o.securityId
      side := o.side
      price := o.price
      quantity := o.quantity
      orderType := o.orderType
      timeInForce := o.timeInForce }

/-- Cancel what is left of an order that is in no level. -/
def cancelRest (b : OrderBook) (h : Heap Order) (order : OrderRef) : Outcome :=
  let h := h.modify order fun o => { o with status := .canceled }
  { heap := h, book := b, events := [cancelledEvent (h.read order)] }

/-- What {lit}`addOrder` does with an order after matching. -/
def restOrder (b : OrderBook) (h : Heap Order) (order : OrderRef) : Outcome :=
  let o := h.read order
  if o.isFullyFilled then { heap := h, book := b, events := [] }
  else if o.timeInForce = .ioc ∨ o.timeInForce = .fok then b.cancelRest h order
  else if o.orderType = .limit then
    let rested := b.insertResting h order
    { heap := h, book := rested.1, events := rested.2 }
  else if o.orderType = .market then b.cancelRest h order
  else { heap := h, book := b, events := [] }

def addOrder (b : OrderBook) (h : Heap Order) (order : OrderRef) : Outcome :=
  if (h.read order).timeInForce = .fok ∧ b.canFillFOK (h.read order) = false then
    { heap := h
      book := b
      events := [.orderRejected
        { clOrdId := (h.read order).clOrdId
          sessionUuid := (h.read order).sessionUuid
          reason := "FOK order cannot be fully filled"
          rejectReasonCode := 0 }] }
  else
    let matched := b.matchOrder h order
    let rested := matched.book.restOrder matched.heap order
    { rested with
      events := acceptedEvent (h.read order) :: matched.events ++ rested.events }

def cancelOrder (b : OrderBook) (h : Heap Order) (orderId : OrderId) : Outcome :=
  match b.ordersById orderId with
  | none =>
      { heap := h
        book := b
        events := [.orderCancelRejected
          { orderId := orderId
            clOrdId := []
            sessionUuid := 0
            rejectReasonCode := 0
            reason := "Order not found" }] }
  | some order =>
      let removed := b.removeFromBook h order
      let cancelled := removed.1.cancelRest h order
      { cancelled with events := removed.2 ++ cancelled.events }

/-- The fields {lit}`modifyOrder` rewrites. -/
def modifiedOrder (o : Order) (newPrice : Price) (newQty : Int)
    (newClOrdId : ClOrdId) : Order :=
  { o with
    price := newPrice
    quantity := newQty
    clOrdId := if newClOrdId.isEmpty then o.clOrdId else newClOrdId
    status := .replaced }

/-- The modification report of an order that has just been rewritten. -/
def modifiedEvent (o : Order) (newPrice : Price) (newQty : Int) : EngineEvent :=
  .orderModified
    { orderId := o.orderId
      clOrdId := o.clOrdId
      sessionUuid := o.sessionUuid
      securityId := o.securityId
      newPrice := newPrice
      newQty := newQty
      cumQty := o.filledQty
      leavesQty := o.remainingQty }

/-- What {lit}`modifyOrder` does with an order after matching. -/
def reinsertOrder (b : OrderBook) (h : Heap Order) (order : OrderRef) : Outcome :=
  let o := h.read order
  if o.isFullyFilled = false ∧ o.orderType = .limit then
    let rested := b.insertResting h order
    { heap := h, book := rested.1, events := rested.2 }
  else { heap := h, book := b, events := [] }

def modifyOrder (b : OrderBook) (h : Heap Order) (orderId : OrderId)
    (newPrice : Price) (newQty : Int) (newClOrdId : ClOrdId) : Outcome :=
  match b.ordersById orderId with
  | none =>
      { heap := h
        book := b
        events := [.orderCancelRejected
          { orderId := orderId
            clOrdId := newClOrdId
            sessionUuid := 0
            rejectReasonCode := 0
            reason := "Order not found" }] }
  | some order =>
      -- Remove from current position
      let removed := b.removeFromBook h order
      -- Update fields
      let h := h.modify order fun o => modifiedOrder o newPrice newQty newClOrdId
      -- Re-match at new price
      let matched := removed.1.matchOrder h order
      -- If not fully filled, re-insert as resting
      let rested := matched.book.reinsertOrder matched.heap order
      { rested with
        events := removed.2 ++
          modifiedEvent (h.read order) newPrice newQty :: matched.events ++ rested.events }

end OrderBook
end SimCme
