import SimCme.Engine.SyntheticEngine

/-!
# The orders of the replay engine

The replay engine fills an order at once when the best prices of its security allow it, and
lets the other ones rest.  A replayed trade fills the resting orders whose limit it meets.
A resting order is filed twice: by its id, and under its security in the order of arrival.

The generator of the fill probability is read as a sequence of numbers, one for each call of
{lit}`shouldFill`.  A call that needs no number leaves its own unread.

Main results:

- Theorem {lit}`TradeLoop.turn_cases`: what one turn of the loop over the resting orders may
  do.
- Theorem {lit}`ReplayEngine.foldl_removeFilled`: the filled orders are gone from both
  indexes, and the rest stays as it was.
-/

namespace SimCme

open Library

/-! ## Resting orders -/

/-- The resting orders.  An order is filed under its own id. -/
structure RestingOrderMap where
  find : OrderId → Option Order
  filed : ∀ id o, find id = some o → o.orderId = id

namespace RestingOrderMap

def empty : RestingOrderMap where
  find _ := none
  filed := by simp

/-- File an order under its id, over an earlier one. -/
def write (orders : RestingOrderMap) (order : Order) : RestingOrderMap where
  find := Function.update orders.find order.orderId (some order)
  filed := by
    intro id o hfind
    by_cases hid : id = order.orderId
    · subst hid
      rw [Function.update_self, Option.some.injEq] at hfind
      rw [hfind]
    · rw [Function.update_of_ne hid] at hfind
      exact orders.filed id o hfind

/-- File an order unless its id is taken. -/
def emplace (orders : RestingOrderMap) (order : Order) : RestingOrderMap :=
  match orders.find order.orderId with
  | some _ => orders
  | none => orders.write order

def erase (orders : RestingOrderMap) (id : OrderId) : RestingOrderMap where
  find := Function.update orders.find id none
  filed := by
    intro id' o hfind
    by_cases hid : id' = id
    · simp [hid] at hfind
    · rw [Function.update_of_ne hid] at hfind
      exact orders.filed id' o hfind

theorem find_write (orders : RestingOrderMap) (order : Order) (id : OrderId) :
    (orders.write order).find id = if id = order.orderId then some order else orders.find id :=
  Function.update_apply _ _ _ _

theorem find_erase (orders : RestingOrderMap) (id id' : OrderId) :
    (orders.erase id).find id' = if id' = id then none else orders.find id' :=
  Function.update_apply _ _ _ _

/-- An id that is free is filed. -/
theorem emplace_of_free {orders : RestingOrderMap} {order : Order}
    (hfree : orders.find order.orderId = none) : orders.emplace order = orders.write order := by
  rw [emplace, hfree]

end RestingOrderMap

/-! ## The engine -/

/-- The replay engine with its orders. -/
structure ReplayEngine extends SyntheticEngine where
  fillProbability : Double := .finite 1
  restingOrders : RestingOrderMap := .empty
  ordersBySecurity : SecurityId → List OrderId := fun _ => []
  nextOrderId : OrderId := 1
  nextTradeId : Nat := 1

/-- What a request leaves behind and emits. -/
structure ReplayOutcome where
  engine : ReplayEngine
  events : List EngineEvent

namespace ReplayEngine

/-- Whether an order is filled at once. -/
def isMarketable (order : Order) (bbo : BBO) : Bool :=
  if order.orderType = .market then
    if order.side = .buy then !bbo.bestAsk.isNull && 0 < bbo.askSize
    else !bbo.bestBid.isNull && 0 < bbo.bidSize
  else if order.side = .buy then
    !bbo.bestAsk.isNull && 0 < bbo.askSize && bbo.bestAsk ≤ order.price
  else
    !bbo.bestBid.isNull && 0 < bbo.bidSize && order.price ≤ bbo.bestBid

/-- Fill an order, and report it as the taker of a trade with the replayed market. -/
def generateFill (order : Order) (fillPrice : Price) (fillQty : Int) (tradeId : Nat) :
    Order × OrderFilled :=
  let order := { order with filledQty := order.filledQty + fillQty }
  let order :=
    { order with status := if order.isFullyFilled then .filled else .partiallyFilled }
  (order,
    { tradeId := tradeId
      securityId := order.securityId
      tradePrice := fillPrice
      tradeQty := fillQty
      aggressorSide := order.side
      makerOrderId := 0
      makerClOrdId := "MARKET".toList.map Char.toUInt8
      makerSessionUuid := 0
      makerCumQty := fillQty
      makerLeavesQty := 0
      makerOrdStatus := .filled
      takerOrderId := order.orderId
      takerClOrdId := order.clOrdId
      takerSessionUuid := order.sessionUuid
      takerCumQty := order.filledQty
      takerLeavesQty := order.remainingQty
      takerOrdStatus := order.status })

/-- The order under the id and the time the engine gives it. -/
def stamped (e : ReplayEngine) (order : Order) (now : Timestamp) : Order :=
  { order with orderId := e.nextOrderId, timestamp := now, status := .new }

def accepted (order : Order) : EngineEvent :=
  .orderAccepted
    { orderId := order.orderId
      clOrdId := order.clOrdId
      sessionUuid := order.sessionUuid
      securityId := order.securityId
      side := order.side
      price := order.price
      quantity := order.quantity
      orderType := order.orderType
      timeInForce := order.timeInForce }

def cancelled (order : Order) : EngineEvent :=
  .orderCancelled
    { orderId := order.orderId
      clOrdId := order.clOrdId
      sessionUuid := order.sessionUuid
      securityId := order.securityId
      cumQty := order.filledQty
      ordStatus := .canceled }

def unknownOrder (orderId : OrderId) (sessionUuid : SessionUuid) : EngineEvent :=
  .orderCancelRejected
    { orderId := orderId
      clOrdId := []
      sessionUuid := sessionUuid
      rejectReasonCode := 1
      reason := "Unknown order" }

/-- Submit an order at the system time {lit}`now`. -/
def submitOrder (e : ReplayEngine) (order : Order) (now : Timestamp) : ReplayOutcome :=
  let order := e.stamped order now
  let e := { e with nextOrderId := e.nextOrderId + 1 }
  let bbo := e.getBBO order.securityId
  if isMarketable order bbo then
    let fillPrice := if order.side = .buy then bbo.bestAsk else bbo.bestBid
    let fill := (generateFill order fillPrice order.remainingQty e.nextTradeId).2
    { engine := { e with nextTradeId := e.nextTradeId + 1 }
      events := [accepted order, .orderFilled fill] }
  else if order.timeInForce = .ioc ∨ order.timeInForce = .fok then
    { engine := e
      events := [accepted order, cancelled order] }
  else
    { engine :=
        { e with
          ordersBySecurity := Function.update e.ordersBySecurity order.securityId
            (e.ordersBySecurity order.securityId ++ [order.orderId])
          restingOrders := e.restingOrders.emplace order }
      events := [accepted order] }

/-- Remove an id from the list of a security. -/
def unlist (e : ReplayEngine) (securityId : SecurityId) (orderId : OrderId) :
    SecurityId → List OrderId :=
  Function.update e.ordersBySecurity securityId
    ((e.ordersBySecurity securityId).filter fun id => id ≠ orderId)

/-- The list an order is taken from is the one the request names. -/
def cancelOrder (e : ReplayEngine) (orderId : OrderId) (securityId : SecurityId)
    (sessionUuid : SessionUuid) : ReplayOutcome :=
  match e.restingOrders.find orderId with
  | none => { engine := e, events := [unknownOrder orderId sessionUuid] }
  | some order =>
      { engine :=
          { e with
            ordersBySecurity := e.unlist securityId orderId
            restingOrders := e.restingOrders.erase orderId }
        events := [cancelled order] }

def modifyOrder (e : ReplayEngine) (orderId : OrderId) (_securityId : SecurityId)
    (newPrice : Price) (newQty : Int) (newClOrdId : ClOrdId) : ReplayOutcome :=
  match e.restingOrders.find orderId with
  | none => { engine := e, events := [unknownOrder orderId 0] }
  | some order =>
      let order :=
        { order with
          price := newPrice, quantity := newQty, clOrdId := newClOrdId, status := .replaced }
      { engine := { e with restingOrders := e.restingOrders.write order }
        events := [.orderModified
          { orderId := order.orderId
            clOrdId := order.clOrdId
            sessionUuid := order.sessionUuid
            securityId := order.securityId
            newPrice := newPrice
            newQty := newQty
            cumQty := order.filledQty
            leavesQty := order.remainingQty }] }

end ReplayEngine

/-! ## Replayed trades -/

/-- Whether a trade price meets the limit of a resting order. -/
def Order.crossedBy (order : Order) (tradePrice : Price) : Bool :=
  (order.side == .buy && tradePrice ≤ order.price) ||
    (order.side == .sell && order.price ≤ tradePrice)

/-- The fill probability decides with a number drawn between zero and one. -/
def shouldFill (fillProbability draw : Double) : Bool :=
  if Double.le (.finite 1) fillProbability then true
  else if fillProbability.le (.finite 0) then false
  else draw.lt fillProbability

/-- What the loop over the resting orders changes, with the number of calls of
{lit}`shouldFill` it has made. -/
structure TradeLoop where
  restingOrders : RestingOrderMap
  nextTradeId : Nat
  calls : Nat := 0
  fills : List OrderFilled := []
  filledIds : List OrderId := []

namespace TradeLoop

variable (fillProbability : Double) (draws : Nat → Double) (tradePrice : Price) (tradeQty : Int)

/-- Fill an order in the loop. -/
def fill (loop : TradeLoop) (order : Order) (fillQty : Int) : TradeLoop :=
  let (order, fill) := ReplayEngine.generateFill order tradePrice fillQty loop.nextTradeId
  { loop with
    restingOrders := loop.restingOrders.write order
    nextTradeId := loop.nextTradeId + 1
    fills := loop.fills ++ [fill]
    filledIds :=
      if order.isFullyFilled then loop.filledIds ++ [order.orderId] else loop.filledIds }

/-- One turn of the loop.  The trade quantity is the same in every turn. -/
def turn (loop : TradeLoop) (oid : OrderId) : TradeLoop :=
  match loop.restingOrders.find oid with
  | none => loop
  | some order =>
      if order.crossedBy tradePrice then
        let passes := shouldFill fillProbability (draws loop.calls)
        let loop := { loop with calls := loop.calls + 1 }
        if passes then
          let fillQty := min order.remainingQty tradeQty
          if fillQty ≤ 0 then loop else loop.fill tradePrice order fillQty
        else loop
      else loop

end TradeLoop

/-- Whether there is a resting order whose limit the trade price meets. -/
def RestingOrderMap.crossedAt (orders : RestingOrderMap) (tradePrice : Price)
    (id : OrderId) : Bool :=
  (orders.find id).any fun order => order.crossedBy tradePrice

namespace ReplayEngine

/-- Remove an order from both indexes. -/
def removeFilled (securityId : SecurityId) (e : ReplayEngine) (oid : OrderId) : ReplayEngine :=
  { e with
    restingOrders := e.restingOrders.erase oid
    ordersBySecurity := e.unlist securityId oid }

/-- The loop over the resting orders of a security. -/
def tradeLoop (e : ReplayEngine) (draws : Nat → Double) (securityId : SecurityId)
    (tradePrice : Price) (tradeQty : Int) : TradeLoop :=
  (e.ordersBySecurity securityId).foldl
    (TradeLoop.turn e.fillProbability draws tradePrice tradeQty)
    { restingOrders := e.restingOrders, nextTradeId := e.nextTradeId }

def checkFillsOnTrade (e : ReplayEngine) (draws : Nat → Double) (securityId : SecurityId)
    (tradePrice : Price) (tradeQty : Int) (_aggressorSide : Side) : ReplayOutcome :=
  let loop := e.tradeLoop draws securityId tradePrice tradeQty
  let e := { e with restingOrders := loop.restingOrders, nextTradeId := loop.nextTradeId }
  { engine := loop.filledIds.foldl (removeFilled securityId) e
    events := loop.fills.map .orderFilled }

end ReplayEngine

/-! ## Spec lemmas -/

theorem RestingOrderMap.crossedAt_eq_true_iff {orders : RestingOrderMap} {tradePrice : Price}
    {id : OrderId} :
    orders.crossedAt tradePrice id = true ↔
      ∃ order, orders.find id = some order ∧ order.crossedBy tradePrice = true := by
  unfold crossedAt
  exact Option.any_eq_true _ _

namespace TradeLoop

variable {fillProbability : Double} {draws : Nat → Double} {tradePrice : Price} {tradeQty : Int}

theorem turn_of_not_crossed {loop : TradeLoop} {oid : OrderId}
    (hcrossed : loop.restingOrders.crossedAt tradePrice oid = false) :
    loop.turn fillProbability draws tradePrice tradeQty oid = loop := by
  unfold turn
  cases hfind : loop.restingOrders.find oid with
  | none => rfl
  | some order =>
      have horder : order.crossedBy tradePrice = false := by
        simpa [RestingOrderMap.crossedAt, hfind] using hcrossed
      simp [horder]

theorem turn_of_crossed {loop : TradeLoop} {oid : OrderId} {order : Order}
    (hfind : loop.restingOrders.find oid = some order)
    (hcrossed : order.crossedBy tradePrice = true) :
    loop.turn fillProbability draws tradePrice tradeQty oid =
      let next := { loop with calls := loop.calls + 1 }
      if shouldFill fillProbability (draws loop.calls) ∧ 0 < min order.remainingQty tradeQty then
        next.fill tradePrice order (min order.remainingQty tradeQty)
      else next := by
  unfold turn
  rw [hfind]
  simp only [hcrossed, if_true]
  by_cases hpasses : shouldFill fillProbability (draws loop.calls) = true
  · by_cases hqty : 0 < min order.remainingQty tradeQty
    · rw [if_pos hpasses, if_neg (not_le.mpr hqty), if_pos ⟨hpasses, hqty⟩]
    · rw [if_pos hpasses, if_pos (not_lt.mp hqty), if_neg fun h => hqty h.2]
  · rw [if_neg hpasses, if_neg fun h => hpasses h.1]

/-- What one turn may do: count a call at most, or fill an order that the price meets with a
positive quantity. -/
theorem turn_cases (loop : TradeLoop) (oid : OrderId) :
    (∃ calls, loop.turn fillProbability draws tradePrice tradeQty oid =
      { loop with calls := calls }) ∨
      ∃ order, loop.restingOrders.find oid = some order ∧ order.crossedBy tradePrice = true ∧
        0 < min order.remainingQty tradeQty ∧
        loop.turn fillProbability draws tradePrice tradeQty oid =
          TradeLoop.fill tradePrice { loop with calls := loop.calls + 1 } order
            (min order.remainingQty tradeQty) := by
  cases hcrossed : loop.restingOrders.crossedAt tradePrice oid with
  | false => exact Or.inl ⟨loop.calls, turn_of_not_crossed hcrossed⟩
  | true =>
      obtain ⟨order, hfind, horder⟩ := RestingOrderMap.crossedAt_eq_true_iff.mp hcrossed
      rw [turn_of_crossed hfind horder]
      by_cases hfill : shouldFill fillProbability (draws loop.calls) ∧
          0 < min order.remainingQty tradeQty
      · rw [if_pos hfill]
        exact Or.inr ⟨order, hfind, horder, hfill.2, rfl⟩
      · rw [if_neg hfill]
        exact Or.inl ⟨_, rfl⟩

end TradeLoop

namespace ReplayEngine

/-- A submitted order takes the next id, and comes to rest or leaves the indexes alone. -/
theorem submitOrder_cases (e : ReplayEngine) (order : Order) (now : Timestamp) :
    (e.submitOrder order now).engine.nextOrderId = e.nextOrderId + 1 ∧
      (((e.submitOrder order now).engine.restingOrders = e.restingOrders ∧
          (e.submitOrder order now).engine.ordersBySecurity = e.ordersBySecurity) ∨
        ((e.submitOrder order now).engine.restingOrders =
            e.restingOrders.emplace (e.stamped order now) ∧
          (e.submitOrder order now).engine.ordersBySecurity =
            Function.update e.ordersBySecurity order.securityId
              (e.ordersBySecurity order.securityId ++ [e.nextOrderId]))) := by
  unfold submitOrder
  by_cases hmarketable : isMarketable (e.stamped order now) (e.getBBO order.securityId) = true
  · simp only [stamped] at hmarketable ⊢
    simp [hmarketable]
  · by_cases htif : order.timeInForce = .ioc ∨ order.timeInForce = .fok
    · simp only [stamped] at hmarketable ⊢
      simp [hmarketable, htif]
    · simp only [stamped] at hmarketable ⊢
      simp [hmarketable, htif]

/-- The filled orders are gone from both indexes, and the rest stays as it was. -/
theorem foldl_removeFilled (securityId : SecurityId) (ids : List OrderId) (e : ReplayEngine) :
    (∀ id, (ids.foldl (removeFilled securityId) e).restingOrders.find id =
        if id ∈ ids then none else e.restingOrders.find id) ∧
      (ids.foldl (removeFilled securityId) e).ordersBySecurity =
        Function.update e.ordersBySecurity securityId
          ((e.ordersBySecurity securityId).filter fun id => id ∉ ids) ∧
      (ids.foldl (removeFilled securityId) e).nextOrderId = e.nextOrderId := by
  induction ids generalizing e with
  | nil => simp
  | cons oid ids ih =>
      obtain ⟨hfind, hlists, hnext⟩ := ih (removeFilled securityId e oid)
      refine ⟨?_, ?_, hnext⟩
      · intro id
        rw [List.foldl_cons, hfind]
        simp only [removeFilled, RestingOrderMap.find_erase, List.mem_cons]
        by_cases hid : id = oid <;> by_cases hmem : id ∈ ids <;> simp [hid, hmem]
      · rw [List.foldl_cons, hlists]
        simp only [removeFilled, unlist, Function.update_self, Function.update_idem,
          List.filter_filter]
        congr 1
        apply List.filter_congr
        intro id _
        rw [Bool.eq_iff_iff]
        simp only [Bool.and_eq_true, decide_eq_true_eq, List.mem_cons, not_or, ne_eq]
        exact and_comm

end ReplayEngine

end SimCme
