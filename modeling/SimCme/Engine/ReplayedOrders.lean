import SimCme.Engine.SyntheticIndexes
import SimCme.Library.Observer
import Mathlib.Algebra.Order.Ring.Int
import Mathlib.Order.Lattice

/-!
# What the events of the replay engine tell

A client of the replay engine sees its events and not its orders.  An acceptance opens an
order, a fill takes a part of it or all of it, a modification gives it new terms, and a
cancellation takes it away.  Under a cancellation the engine removes the order from one index
by the security of the request, but the order itself is always removed.

Main results:

- Theorem {lit}`ReplayEngine.follows_step`: the events of a step account for every change of
  the resting orders.
- Theorem {lit}`ReplayEngine.Observed.total_of_follows`: the quantity filled is the sum of the
  fills told.
- Theorem {lit}`ReplayEngine.events_tell_orders`: over every run, the events tell the resting
  orders.
-/

namespace SimCme

open Library

/-! ## The picture of a client -/

/-- An open order as its events tell it. -/
structure OpenOrder where
  clOrdId : ClOrdId
  sessionUuid : SessionUuid
  securityId : SecurityId
  side : Side
  orderType : OrderType
  price : Price
  quantity : Int
  filledQty : Int
deriving DecidableEq, Repr

def Order.opened (order : Order) : OpenOrder where
  clOrdId := order.clOrdId
  sessionUuid := order.sessionUuid
  securityId := order.securityId
  side := order.side
  orderType := order.orderType
  price := order.price
  quantity := order.quantity
  filledQty := order.filledQty

namespace RestingOrderMap

/-- The resting orders as open orders. -/
def opened (orders : RestingOrderMap) (id : OrderId) : Option OpenOrder :=
  (orders.find id).map Order.opened

theorem opened_of_find {orders : RestingOrderMap} {id : OrderId} {order : Order}
    (hfind : orders.find id = some order) : orders.opened id = some order.opened := by
  rw [opened, hfind, Option.map_some]

theorem opened_of_none {orders : RestingOrderMap} {id : OrderId}
    (hfind : orders.find id = none) : orders.opened id = none := by
  rw [opened, hfind, Option.map_none]

theorem opened_write (orders : RestingOrderMap) (order : Order) :
    (orders.write order).opened =
      Function.update orders.opened order.orderId (some order.opened) := by
  ext id o
  simp only [opened, find_write, Function.update_apply]
  split
  · rw [Option.map_some]
  · rfl

theorem opened_erase (orders : RestingOrderMap) (id : OrderId) :
    (orders.erase id).opened = Function.update orders.opened id none := by
  ext id' o
  simp only [opened, find_erase, Function.update_apply]
  split
  · rw [Option.map_none]
  · rfl

end RestingOrderMap

namespace OpenOrder

def leavesQty (order : OpenOrder) : Int :=
  order.quantity - order.filledQty

/-- A limit order is filled at its limit or a better price. -/
def Accepts (order : OpenOrder) (price : Price) : Prop :=
  if order.side = .buy then price ≤ order.price else order.price ≤ price

/-- The fill takes a part of what the order leaves, or all of it. -/
structure FilledBy (order : OpenOrder) (fill : OrderFilled) : Prop where
  securityId : fill.securityId = order.securityId
  sessionUuid : fill.takerSessionUuid = order.sessionUuid
  clOrdId : fill.takerClOrdId = order.clOrdId
  side : fill.aggressorSide = order.side
  limit : order.orderType = .market ∨ order.Accepts fill.tradePrice
  positive : 0 < order.leavesQty → 0 < fill.tradeQty
  cumQty : fill.takerCumQty = order.filledQty + fill.tradeQty
  leavesQty : fill.takerLeavesQty = order.quantity - fill.takerCumQty
  notOverfilled : 0 ≤ fill.takerLeavesQty
  ordStatus : fill.takerOrdStatus =
    if fill.takerLeavesQty = 0 then .filled else .partiallyFilled

/-- The cancellation reports the order as it stands. -/
structure CancelledBy (order : OpenOrder) (cancelled : OrderCancelled) : Prop where
  securityId : cancelled.securityId = order.securityId
  sessionUuid : cancelled.sessionUuid = order.sessionUuid
  clOrdId : cancelled.clOrdId = order.clOrdId
  cumQty : cancelled.cumQty = order.filledQty

/-- The modification leaves what was filled as it is. -/
structure ModifiedBy (order : OpenOrder) (modified : OrderModified) : Prop where
  securityId : modified.securityId = order.securityId
  sessionUuid : modified.sessionUuid = order.sessionUuid
  cumQty : modified.cumQty = order.filledQty
  leavesQty : modified.leavesQty = modified.newQty - modified.cumQty

end OpenOrder

def OrderAccepted.opened (accepted : OrderAccepted) : OpenOrder where
  clOrdId := accepted.clOrdId
  sessionUuid := accepted.sessionUuid
  securityId := accepted.securityId
  side := accepted.side
  orderType := accepted.orderType
  price := accepted.price
  quantity := accepted.quantity
  filledQty := 0

namespace ReplayEngine

/-- The open orders, with the numbers the next order and the next trade take. -/
@[ext]
structure Observed where
  orders : OrderId → Option OpenOrder
  nextOrderId : OrderId
  nextTradeId : Nat

namespace Observed

def start : Observed where
  orders _ := none
  nextOrderId := 1
  nextTradeId := 1

/-- No order is open under an id that has not been given out. -/
def Issued (seen : Observed) : Prop :=
  ∀ id, seen.nextOrderId ≤ id → seen.orders id = none

/-- Open an order under the next id. -/
def accept (seen : Observed) (order : OpenOrder) : Observed :=
  { seen with
    orders := Function.update seen.orders seen.nextOrderId (some order)
    nextOrderId := seen.nextOrderId + 1 }

/-- The event fits the picture. -/
def Expects (seen : Observed) : EngineEvent → Prop
  | .orderAccepted e => e.orderId = seen.nextOrderId ∧ seen.orders e.orderId = none
  | .orderFilled e =>
      e.tradeId = seen.nextTradeId ∧
        ∃ order, seen.orders e.takerOrderId = some order ∧ order.FilledBy e
  | .orderCancelled e => ∃ order, seen.orders e.orderId = some order ∧ order.CancelledBy e
  | .orderModified e => ∃ order, seen.orders e.orderId = some order ∧ order.ModifiedBy e
  | .orderCancelRejected e => seen.orders e.orderId = none
  | .orderRejected _ => False
  | .bookUpdate _ => False

/-- The picture after an event. -/
def see (seen : Observed) : EngineEvent → Observed
  | .orderAccepted e =>
      { seen with
        orders := Function.update seen.orders e.orderId (some e.opened)
        nextOrderId := seen.nextOrderId + 1 }
  | .orderFilled e =>
      { seen with
        orders := Function.update seen.orders e.takerOrderId
          (if e.takerLeavesQty = 0 then none
          else (seen.orders e.takerOrderId).map fun order =>
            { order with filledQty := e.takerCumQty })
        nextTradeId := seen.nextTradeId + 1 }
  | .orderCancelled e =>
      { seen with orders := Function.update seen.orders e.orderId none }
  | .orderModified e =>
      { seen with
        orders := Function.update seen.orders e.orderId
          ((seen.orders e.orderId).map fun order =>
            { order with price := e.newPrice, quantity := e.newQty, clOrdId := e.clOrdId }) }
  | .orderCancelRejected _ | .orderRejected _ | .bookUpdate _ => seen

end Observed

/-- Only an open order changes, so that the ids not given out stay free. -/
theorem Observed.Issued.update {seen : Observed} (hissued : seen.Issued) {id : OrderId}
    {order : OpenOrder} (hopen : seen.orders id = some order) (changed : Option OpenOrder) :
    { seen with orders := Function.update seen.orders id changed }.Issued := by
  intro id' hid'
  have hother : id' ≠ id := by
    intro hsame
    rw [← hsame, hissued id' hid'] at hopen
    contradiction
  exact (Function.update_of_ne hother _ _).trans (hissued id' hid')

/-- Every event that fits gives out the next id at most. -/
theorem Observed.Issued.see {seen : Observed} (hissued : seen.Issued) {event : EngineEvent}
    (hevent : seen.Expects event) : (seen.see event).Issued := by
  cases event with
  | orderAccepted e =>
      intro id hid
      have hother : id ≠ e.orderId := by
        rw [hevent.1]
        exact (Nat.lt_of_succ_le hid).ne'
      exact (Function.update_of_ne hother _ _).trans (hissued id (Nat.le_of_succ_le hid))
  | orderFilled e =>
      rcases hevent with ⟨-, order, hopen, -⟩
      exact hissued.update hopen _
  | orderCancelled e =>
      rcases hevent with ⟨order, hopen, -⟩
      exact hissued.update hopen _
  | orderModified e =>
      rcases hevent with ⟨order, hopen, -⟩
      exact hissued.update hopen _
  | orderCancelRejected e => exact hissued
  | orderRejected e => exact hevent.elim
  | bookUpdate e => exact hevent.elim

/-- A client of the engine. -/
def client : Observer Observed EngineEvent where
  Expects := Observed.Expects
  see := Observed.see

/-- The picture that fits the engine. -/
def observed (e : ReplayEngine) : Observed where
  orders := e.restingOrders.opened
  nextOrderId := e.nextOrderId
  nextTradeId := e.nextTradeId

/-! ## Fills -/

/-- A fill of an open order, up to what it leaves. -/
theorem expects_generateFill {seen : Observed} {order : Order} {fillPrice : Price}
    {fillQty : Int} (hopen : seen.orders order.orderId = some order.opened)
    (hprice : order.orderType = .market ∨ order.opened.Accepts fillPrice)
    (hpositive : 0 < order.remainingQty → 0 < fillQty) (hle : fillQty ≤ order.remainingQty) :
    client.Expects seen
      (.orderFilled (generateFill order fillPrice fillQty seen.nextTradeId).2) := by
  refine ⟨rfl, order.opened, hopen, ?_⟩
  have hleaves : 0 ≤ order.quantity - (order.filledQty + fillQty) := by
    simp only [Order.remainingQty] at hle
    omega
  refine ⟨rfl, rfl, rfl, rfl, hprice, hpositive, rfl, rfl, hleaves, ?_⟩
  simp only [generateFill, Order.isFullyFilled, Order.remainingQty, decide_eq_true_eq]
  by_cases hfilled : order.quantity - (order.filledQty + fillQty) = 0
  · rw [if_pos hfilled, if_pos (by omega)]
  · rw [if_neg hfilled, if_neg (by omega)]

/-- A fill closes an order it fills up, and otherwise leaves it open as it now is. -/
theorem follows_generateFill {seen : Observed} {order : Order} {fillPrice : Price}
    {fillQty : Int} (hopen : seen.orders order.orderId = some order.opened)
    (hprice : order.orderType = .market ∨ order.opened.Accepts fillPrice)
    (hpositive : 0 < order.remainingQty → 0 < fillQty) (hle : fillQty ≤ order.remainingQty) :
    client.Follows seen
      [.orderFilled (generateFill order fillPrice fillQty seen.nextTradeId).2]
      { seen with
        orders := Function.update seen.orders order.orderId
          (if (generateFill order fillPrice fillQty seen.nextTradeId).1.isFullyFilled then none
          else some (generateFill order fillPrice fillQty seen.nextTradeId).1.opened)
        nextTradeId := seen.nextTradeId + 1 } := by
  refine ⟨expects_generateFill hopen hprice hpositive hle, ?_⟩
  have hfull : (order.quantity - (order.filledQty + fillQty) = 0) ↔
      order.quantity ≤ order.filledQty + fillQty := by
    simp only [Order.remainingQty] at hle
    omega
  simp only [client, Observed.see, generateFill, Order.isFullyFilled, Order.remainingQty, hopen,
    Option.map_some, decide_eq_true_eq, hfull]
  rfl

end ReplayEngine

theorem Order.accepts_of_crossedBy {order : Order} {tradePrice : Price}
    (hcrossed : order.crossedBy tradePrice = true) : order.opened.Accepts tradePrice := by
  simp only [Order.crossedBy, Bool.or_eq_true, Bool.and_eq_true, beq_iff_eq,
    decide_eq_true_eq] at hcrossed
  rcases hcrossed with ⟨hside, hle⟩ | ⟨hside, hle⟩
  · simpa [OpenOrder.Accepts, Order.opened, hside] using hle
  · simpa [OpenOrder.Accepts, Order.opened, hside] using hle

/-! ## The loop over the resting orders -/

namespace TradeLoop

open ReplayEngine

variable (fillProbability : Double) (draws : Nat → Double) (tradePrice : Price) (tradeQty : Int)

/-- The picture that fits the loop: the orders it has filled up are gone. -/
def observed (loop : TradeLoop) (nextOrderId : OrderId) : Observed where
  orders id := if id ∈ loop.filledIds then none else loop.restingOrders.opened id
  nextOrderId := nextOrderId
  nextTradeId := loop.nextTradeId

/-- The orders the loop has filled up leave nothing to fill. -/
def FilledUp (loop : TradeLoop) : Prop :=
  ∀ id ∈ loop.filledIds, ∀ order, loop.restingOrders.find id = some order →
    order.remainingQty ≤ 0

/-- An order that leaves something has not been filled up. -/
theorem FilledUp.not_mem {loop : TradeLoop} (hloop : loop.FilledUp) {oid : OrderId}
    {order : Order} (hfind : loop.restingOrders.find oid = some order)
    (hremaining : 0 < order.remainingQty) : oid ∉ loop.filledIds := by
  intro hmem
  have hle := hloop oid hmem order hfind
  omega

/-- A fill changes the picture of its order. -/
theorem observed_fill {loop : TradeLoop} {order : Order} (hnot : order.orderId ∉ loop.filledIds)
    (fillQty : Int) (nextOrderId : OrderId) :
    (loop.fill tradePrice order fillQty).observed nextOrderId =
      { loop.observed nextOrderId with
        orders := Function.update (loop.observed nextOrderId).orders order.orderId
          (if (generateFill order tradePrice fillQty loop.nextTradeId).1.isFullyFilled then none
          else some (generateFill order tradePrice fillQty loop.nextTradeId).1.opened)
        nextTradeId := loop.nextTradeId + 1 } := by
  have hid : (generateFill order tradePrice fillQty loop.nextTradeId).1.orderId =
      order.orderId := rfl
  ext id o
  · simp only [observed, fill, RestingOrderMap.opened_write, hid, Function.update_apply]
    by_cases hsame : id = order.orderId
    · subst hsame
      split <;> simp [hnot]
    · split <;> simp [hsame]
  · rfl
  · rfl

/-- The orders stay filled up over a fill. -/
theorem FilledUp.fill {loop : TradeLoop} (hloop : loop.FilledUp) {order : Order}
    (hnot : order.orderId ∉ loop.filledIds) (fillQty : Int) :
    (loop.fill tradePrice order fillQty).FilledUp := by
  have hid : (generateFill order tradePrice fillQty loop.nextTradeId).1.orderId =
      order.orderId := rfl
  intro id hmem order' hfind
  simp only [TradeLoop.fill, RestingOrderMap.find_write, hid] at hmem hfind
  by_cases hsame : id = order.orderId
  · rw [if_pos hsame, Option.some.injEq] at hfind
    subst hfind
    rw [← Order.isFullyFilled_iff]
    by_contra hopen
    rw [if_neg hopen, hsame] at hmem
    exact hnot hmem
  · rw [if_neg hsame] at hfind
    split at hmem
    · rcases List.mem_append.mp hmem with hmem | hmem
      · exact hloop id hmem order' hfind
      · exact absurd (List.mem_singleton.mp hmem) hsame
    · exact hloop id hmem order' hfind

/-- The client follows a fill of the loop. -/
theorem follows_fill (loop : TradeLoop) (hloop : loop.FilledUp) {before : Observed}
    {nextOrderId : OrderId}
    (hfollows : client.Follows before (loop.fills.map .orderFilled) (loop.observed nextOrderId))
    {oid : OrderId} {order : Order} (hfind : loop.restingOrders.find oid = some order)
    (hcrossed : order.crossedBy tradePrice = true) {fillQty : Int} (hqty : 0 < fillQty)
    (hle : fillQty ≤ order.remainingQty) :
    (loop.fill tradePrice order fillQty).FilledUp ∧
      client.Follows before ((loop.fill tradePrice order fillQty).fills.map .orderFilled)
        ((loop.fill tradePrice order fillQty).observed nextOrderId) := by
  have hid : order.orderId = oid := loop.restingOrders.filed oid order hfind
  have hnot : order.orderId ∉ loop.filledIds := by
    rw [hid]
    exact hloop.not_mem hfind (lt_of_lt_of_le hqty hle)
  have hopen : (loop.observed nextOrderId).orders order.orderId = some order.opened := by
    simp only [observed]
    rw [if_neg hnot, hid, RestingOrderMap.opened_of_find hfind]
  refine ⟨hloop.fill tradePrice hnot fillQty, ?_⟩
  have hfill := follows_generateFill hopen (Or.inr (Order.accepts_of_crossedBy hcrossed))
    (fun _ => hqty) hle
  rw [observed_fill tradePrice hnot]
  simp only [TradeLoop.fill, List.map_append]
  exact hfollows.append hfill

/-- One turn: the client follows the fill it makes, if it makes one. -/
theorem follows_turn {loop : TradeLoop} (hloop : loop.FilledUp) {before : Observed}
    {nextOrderId : OrderId}
    (hfollows : client.Follows before (loop.fills.map .orderFilled) (loop.observed nextOrderId))
    (oid : OrderId) :
    let next := loop.turn fillProbability draws tradePrice tradeQty oid
    next.FilledUp ∧
      client.Follows before (next.fills.map .orderFilled) (next.observed nextOrderId) := by
  intro next
  rcases TradeLoop.turn_cases loop oid with ⟨calls, hnext⟩ | ⟨order, hfind, hcrossed, hqty, hnext⟩
  · rw [show next = { loop with calls := calls } from hnext]
    exact ⟨hloop, hfollows⟩
  · rw [show next = _ from hnext]
    exact follows_fill tradePrice { loop with calls := loop.calls + 1 } hloop hfollows hfind
      hcrossed hqty (min_le_left _ _)

/-- The whole loop: the client follows its fills. -/
theorem follows_foldl_turn (ids : List OrderId) {loop : TradeLoop} (hloop : loop.FilledUp)
    {before : Observed} {nextOrderId : OrderId}
    (hfollows : client.Follows before (loop.fills.map .orderFilled)
      (loop.observed nextOrderId)) :
    let stop := ids.foldl (turn fillProbability draws tradePrice tradeQty) loop
    client.Follows before (stop.fills.map .orderFilled) (stop.observed nextOrderId) := by
  induction ids generalizing loop with
  | nil => exact hfollows
  | cons oid ids ih =>
      obtain ⟨hnext, hturn⟩ :=
        follows_turn fillProbability draws tradePrice tradeQty hloop hfollows oid
      exact ih hnext hturn

end TradeLoop

namespace ReplayEngine

/-! ## One step -/

variable {e : ReplayEngine}

/-- A submitted order has not been filled. -/
def Op.Unfilled : Op → Prop
  | .submitOrder order _ => order.filledQty = 0
  | _ => True

instance decidableUnfilled : DecidablePred Op.Unfilled
  | .submitOrder order _ => inferInstanceAs (Decidable (order.filledQty = 0))
  | .cancelOrder .. | .modifyOrder .. | .checkFillsOnTrade .. | .updateBBO .. =>
      inferInstanceAs (Decidable True)

theorem Observed.Issued.find_nextOrderId (he : e.observed.Issued) :
    e.restingOrders.find e.nextOrderId = none :=
  Option.map_eq_none_iff.mp (he e.nextOrderId le_rfl)

/-- An acceptance opens the order under the next id. -/
theorem follows_accepted (he : e.observed.Issued) {order : Order} (hunfilled : order.filledQty = 0)
    (now : Timestamp) :
    client.Follows e.observed [accepted (e.stamped order now)]
      (e.observed.accept (e.stamped order now).opened) := by
  have hfree : e.observed.orders e.nextOrderId = none :=
    RestingOrderMap.opened_of_none he.find_nextOrderId
  have hopened : (e.stamped order now).opened =
      { clOrdId := order.clOrdId, sessionUuid := order.sessionUuid,
        securityId := order.securityId, side := order.side, orderType := order.orderType,
        price := order.price, quantity := order.quantity, filledQty := 0 } := by
    simp only [Order.opened, stamped, hunfilled]
  rw [hopened]
  exact Observer.follows_singleton ⟨rfl, hfree⟩

/-- A cancellation closes the order. -/
theorem follows_cancelled {seen : Observed} {order : Order}
    (hopen : seen.orders order.orderId = some order.opened) :
    client.Follows seen [cancelled order]
      { seen with orders := Function.update seen.orders order.orderId none } :=
  Observer.follows_singleton ⟨order.opened, hopen, ⟨rfl, rfl, rfl, rfl⟩⟩

/-- A marketable limit order is filled within its limit. -/
theorem accepts_of_isMarketable {order : Order} {bbo : BBO}
    (hmarketable : isMarketable order bbo = true) :
    order.orderType = .market ∨
      order.opened.Accepts (if order.side = .buy then bbo.bestAsk else bbo.bestBid) := by
  by_cases htype : order.orderType = .market
  · exact Or.inl htype
  · right
    unfold isMarketable at hmarketable
    rw [if_neg htype] at hmarketable
    by_cases hside : order.side = .buy
    · simp [hside] at hmarketable
      simpa [OpenOrder.Accepts, Order.opened, hside] using hmarketable.2
    · simp [hside] at hmarketable
      simpa [OpenOrder.Accepts, Order.opened, hside] using hmarketable.2

/-- A submission opens an order, and closes it again if it does not come to rest. -/
theorem follows_submitOrder (he : e.observed.Issued) {order : Order} (hunfilled : order.filledQty = 0)
    (now : Timestamp) :
    client.Follows e.observed (e.submitOrder order now).events
      (e.submitOrder order now).engine.observed := by
  have haccepted := follows_accepted he hunfilled now
  have hfree : Function.update e.observed.orders e.nextOrderId none = e.observed.orders := by
    rw [Function.update_eq_self_iff]
    exact (RestingOrderMap.opened_of_none he.find_nextOrderId).symm
  have hopen : (e.observed.accept (e.stamped order now).opened).orders
      (e.stamped order now).orderId = some (e.stamped order now).opened :=
    Function.update_self _ _ _
  have hclose : Function.update (e.observed.accept (e.stamped order now).opened).orders
      (e.stamped order now).orderId none = e.observed.orders := by
    simp only [Observed.accept]
    rw [show (e.stamped order now).orderId = e.observed.nextOrderId from rfl,
      Function.update_idem]
    exact hfree
  unfold submitOrder
  dsimp only
  by_cases hmarketable : isMarketable (e.stamped order now)
      (e.getBBO (e.stamped order now).securityId) = true
  · have hfill := follows_generateFill hopen (accepts_of_isMarketable hmarketable) id le_rfl
    have hfull : ∀ fillPrice tradeId, (generateFill (e.stamped order now) fillPrice
        (e.stamped order now).remainingQty tradeId).1.isFullyFilled = true := by
      intro fillPrice tradeId
      simp [generateFill, Order.isFullyFilled, Order.remainingQty]
    rw [hfull, if_pos rfl, hclose] at hfill
    rw [if_pos hmarketable]
    exact haccepted.append hfill
  · rw [if_neg hmarketable]
    by_cases htif : (e.stamped order now).timeInForce = .ioc ∨
        (e.stamped order now).timeInForce = .fok
    · have hcancelled := follows_cancelled hopen
      rw [hclose] at hcancelled
      rw [if_pos htif]
      exact haccepted.append hcancelled
    · rw [if_neg htif, RestingOrderMap.emplace_of_free he.find_nextOrderId]
      have hobserved : Observed.accept e.observed (e.stamped order now).opened =
          { e.observed with
            orders := (e.restingOrders.write (e.stamped order now)).opened
            nextOrderId := e.nextOrderId + 1 } := by
        rw [RestingOrderMap.opened_write]
        rfl
      rw [hobserved] at haccepted
      exact haccepted

/-- A cancellation closes a resting order, and an unknown order is not open. -/
theorem follows_cancelOrder (orderId : OrderId) (securityId : SecurityId)
    (sessionUuid : SessionUuid) :
    client.Follows e.observed (e.cancelOrder orderId securityId sessionUuid).events
      (e.cancelOrder orderId securityId sessionUuid).engine.observed := by
  unfold cancelOrder
  cases hfind : e.restingOrders.find orderId with
  | none => exact Observer.follows_singleton (RestingOrderMap.opened_of_none hfind)
  | some order =>
      have hid : order.orderId = orderId := e.restingOrders.filed orderId order hfind
      have hopen : e.observed.orders order.orderId = some order.opened := by
        rw [hid]
        exact RestingOrderMap.opened_of_find hfind
      have hcancelled := follows_cancelled hopen
      have hobserved : { e.observed with
            orders := Function.update e.observed.orders order.orderId none } =
          { e.observed with orders := (e.restingOrders.erase orderId).opened } := by
        rw [RestingOrderMap.opened_erase, hid]
        rfl
      rw [hobserved] at hcancelled
      exact hcancelled

theorem follows_modifyOrder (orderId : OrderId) (securityId : SecurityId) (newPrice : Price)
    (newQty : Int) (newClOrdId : ClOrdId) :
    client.Follows e.observed
      (e.modifyOrder orderId securityId newPrice newQty newClOrdId).events
      (e.modifyOrder orderId securityId newPrice newQty newClOrdId).engine.observed := by
  unfold modifyOrder
  cases hfind : e.restingOrders.find orderId with
  | none => exact Observer.follows_singleton (RestingOrderMap.opened_of_none hfind)
  | some order =>
      have hopen : e.restingOrders.opened order.orderId = some order.opened := by
        rw [e.restingOrders.filed orderId order hfind]
        exact RestingOrderMap.opened_of_find hfind
      refine ⟨⟨order.opened, hopen, ⟨rfl, rfl, rfl, rfl⟩⟩, ?_⟩
      simp only [client, Observed.see, observed, RestingOrderMap.opened_write, hopen,
        Option.map_some]
      rfl

theorem nextTradeId_foldl_removeFilled (securityId : SecurityId) (ids : List OrderId)
    (e : ReplayEngine) :
    (ids.foldl (removeFilled securityId) e).nextTradeId = e.nextTradeId := by
  induction ids generalizing e with
  | nil => rfl
  | cons oid ids ih => exact ih (removeFilled securityId e oid)

/-- The fills of a trade close the orders the trade takes away. -/
theorem follows_checkFillsOnTrade (draws : Nat → Double) (securityId : SecurityId)
    (tradePrice : Price) (tradeQty : Int) (aggressorSide : Side) :
    client.Follows e.observed
      (e.checkFillsOnTrade draws securityId tradePrice tradeQty aggressorSide).events
      (e.checkFillsOnTrade draws securityId tradePrice tradeQty aggressorSide).engine.observed := by
  let loop : TradeLoop := { restingOrders := e.restingOrders, nextTradeId := e.nextTradeId }
  have hloop : loop.FilledUp := by simp [TradeLoop.FilledUp, loop]
  have hbefore : client.Follows e.observed (loop.fills.map .orderFilled)
      (loop.observed e.nextOrderId) := by
    ext id o
    · simp [TradeLoop.observed, observed, loop]
    · rfl
    · rfl
  have hfollows := TradeLoop.follows_foldl_turn e.fillProbability draws tradePrice tradeQty
    (e.ordersBySecurity securityId) hloop hbefore
  unfold checkFillsOnTrade tradeLoop
  dsimp only at hfollows ⊢
  generalize List.foldl _ _ (e.ordersBySecurity securityId) = stop at hfollows ⊢
  obtain ⟨hfind, -, hnext⟩ := foldl_removeFilled securityId stop.filledIds
    { e with restingOrders := stop.restingOrders, nextTradeId := stop.nextTradeId }
  have htrade := nextTradeId_foldl_removeFilled securityId stop.filledIds
    { e with restingOrders := stop.restingOrders, nextTradeId := stop.nextTradeId }
  have hobserved : stop.observed e.nextOrderId = (stop.filledIds.foldl (removeFilled securityId)
      { e with
        restingOrders := stop.restingOrders, nextTradeId := stop.nextTradeId }).observed := by
    ext id o
    · simp only [TradeLoop.observed, observed, RestingOrderMap.opened, hfind]
      split
      · rfl
      · rfl
    · exact hnext.symm
    · exact htrade.symm
  rw [hobserved] at hfollows
  exact hfollows

/-- The events of a step account for every change of the resting orders. -/
theorem follows_step (he : e.observed.Issued) {op : Op} (hop : op.Unfilled) :
    client.Follows e.observed (e.step op).events (e.step op).engine.observed := by
  cases op with
  | submitOrder order now => exact follows_submitOrder he hop now
  | cancelOrder orderId securityId sessionUuid =>
      exact follows_cancelOrder orderId securityId sessionUuid
  | modifyOrder orderId securityId newPrice newQty newClOrdId =>
      exact follows_modifyOrder orderId securityId newPrice newQty newClOrdId
  | checkFillsOnTrade draws securityId tradePrice tradeQty aggressorSide =>
      exact follows_checkFillsOnTrade draws securityId tradePrice tradeQty aggressorSide
  | updateBBO msg => exact Observer.follows_nil _

/-! ## Quantities -/

/-- The quantity an event tells to be filled of an order. -/
def filledOf (id : OrderId) : EngineEvent → Int
  | .orderFilled e => if e.takerOrderId = id then e.tradeQty else 0
  | _ => 0

def totalFilled (id : OrderId) (es : List EngineEvent) : Int :=
  (es.map (filledOf id)).sum

theorem totalFilled_concat (id : OrderId) (es : List EngineEvent) (event : EngineEvent) :
    totalFilled id (es ++ [event]) = totalFilled id es + filledOf id event := by
  simp [totalFilled]

/-- An open order is filled by what the events tell, and they tell nothing of an id that has
not been given out. -/
structure Observed.Totals (es : List EngineEvent) (seen : Observed) : Prop where
  opened : ∀ id order, seen.orders id = some order → order.filledQty = totalFilled id es
  issued : ∀ id, seen.nextOrderId ≤ id → totalFilled id es = 0

/-- An event that fills nothing keeps the totals of the orders it leaves open. -/
theorem Observed.Totals.concat {es : List EngineEvent} {seen seen' : Observed}
    (htotals : seen.Totals es) {event : EngineEvent} (hquiet : ∀ id, filledOf id event = 0)
    (hopened : ∀ id order', seen'.orders id = some order' →
      order'.filledQty = totalFilled id es)
    (hnext : seen.nextOrderId ≤ seen'.nextOrderId) : seen'.Totals (es ++ [event]) where
  opened := by
    intro id order' hopen
    rw [totalFilled_concat, hquiet, add_zero]
    exact hopened id order' hopen
  issued := by
    intro id hid
    rw [totalFilled_concat, hquiet, add_zero]
    exact htotals.issued id (hnext.trans hid)

/-- Every event that fits keeps the totals. -/
theorem Observed.Totals.see {es : List EngineEvent} {seen : Observed} (htotals : seen.Totals es)
    (hissued : seen.Issued) {event : EngineEvent} (hevent : seen.Expects event) :
    (seen.see event).Totals (es ++ [event]) := by
  cases event with
  | orderAccepted e =>
      refine htotals.concat (fun _ => rfl) ?_ (Nat.le_succ _)
      intro id order' hopen
      simp only [Observed.see, Function.update_apply] at hopen
      split at hopen
      · rename_i hid
        rcases Option.some.inj hopen with rfl
        rw [hid, htotals.issued _ hevent.1.ge]
        rfl
      · exact htotals.opened id order' hopen
  | orderFilled e =>
      rcases hevent with ⟨-, order, hopen, hfill⟩
      have hold := htotals.opened _ _ hopen
      refine ⟨?_, ?_⟩
      · intro id order' hopen'
        simp only [Observed.see, Function.update_apply] at hopen'
        rw [totalFilled_concat, filledOf]
        split at hopen'
        · rename_i hid
          rw [if_pos hid.symm]
          split at hopen'
          · contradiction
          · rw [hopen, Option.map_some] at hopen'
            rcases Option.some.inj hopen' with rfl
            rw [hid, ← hold]
            exact hfill.cumQty
        · rename_i hid
          rw [if_neg (Ne.symm hid), add_zero]
          exact htotals.opened id order' hopen'
      · intro id hid
        have hother : e.takerOrderId ≠ id := by
          intro hsame
          rw [hsame, hissued id hid] at hopen
          contradiction
        rw [totalFilled_concat, filledOf, if_neg hother, add_zero]
        exact htotals.issued id hid
  | orderCancelled e =>
      refine htotals.concat (fun _ => rfl) ?_ le_rfl
      intro id order' hopen
      simp only [Observed.see, Function.update_apply] at hopen
      split at hopen
      · contradiction
      · exact htotals.opened id order' hopen
  | orderModified e =>
      rcases hevent with ⟨order, horder, -⟩
      refine htotals.concat (fun _ => rfl) ?_ le_rfl
      intro id order' hopen
      simp only [Observed.see, Function.update_apply] at hopen
      split at hopen
      · rename_i hid
        rw [horder, Option.map_some] at hopen
        rcases Option.some.inj hopen with rfl
        rw [hid]
        exact htotals.opened _ order horder
      · exact htotals.opened id order' hopen
  | orderCancelRejected e => exact htotals.concat (fun _ => rfl) htotals.opened le_rfl
  | orderRejected e => exact hevent.elim
  | bookUpdate e => exact hevent.elim

/-- The quantity filled is the sum of the fills told. -/
theorem Observed.total_of_follows {es : List EngineEvent} {seen : Observed}
    (hes : client.Follows .start es seen) {id : OrderId} {order : OpenOrder}
    (hopen : seen.orders id = some order) : order.filledQty = totalFilled id es := by
  have hboth : seen.Totals es ∧ seen.Issued := by
    refine hes.induction (P := fun es seen => Observed.Totals es seen ∧ seen.Issued) ?_ ?_
    · refine ⟨⟨?_, fun _ _ => rfl⟩, fun _ _ => rfl⟩
      intro id order hopen
      contradiction
    · intro before seen event hkept hevent
      exact ⟨hkept.1.see hkept.2 hevent, hkept.2.see hevent⟩
  exact hboth.1.opened id order hopen

/-! ## Runs -/

/-- Over every run, the events tell the resting orders: the client never sees an event it does
not expect, it knows the resting orders and the numbers that come next, and what is filled of
an order is the sum of its fills. -/
theorem events_tell_orders (replayed : SyntheticEngine) (fillProbability : Double)
    {ops : List Op} (hunfilled : ∀ op ∈ ops, op.Unfilled) :
    let out := machine.run (start replayed fillProbability) ops
    EachAfter (fun before event => (client.seen .start before).Expects event) out.2 ∧
      client.seen .start out.2 = out.1.observed ∧
      ∀ id order, out.1.restingOrders.find id = some order →
        order.filledQty = totalFilled id out.2 := by
  intro out
  have hadmits : machine.Admits (fun _ => Op.Unfilled) (start replayed fillProbability) ops :=
    Machine.admits_of_forall_mem hunfilled _
  have hissued : (start replayed fillProbability).observed.Issued := fun _ _ => rfl
  have hkeep : ∀ e : ReplayEngine, ∀ op : Op, e.observed.Issued → op.Unfilled →
      (e.step op).engine.observed.Issued := by
    intro e op he hop
    exact (follows_step he hop).induction (P := fun _ seen => Observed.Issued seen) he
      fun _ _ _ hseen hevent => hseen.see hevent
  have hstep : ∀ e : ReplayEngine, ∀ op : Op, e.observed.Issued → op.Unfilled →
      client.Follows e.observed (machine.step e op).2 (machine.step e op).1.observed :=
    fun _ _ he hop => follows_step he hop
  have hfollows : client.Follows .start out.2 out.1.observed :=
    Observer.follows_run hkeep hstep hissued hadmits
  refine ⟨hfollows.eachAfter, hfollows.seen_eq, ?_⟩
  intro id order hfind
  exact Observed.total_of_follows hfollows (RestingOrderMap.opened_of_find hfind)

/-- An order is filled in part, modified, and filled in part again. -/
theorem events_tell_orders_twoFills :
    let order : Order := { securityId := 1, price := ⟨100⟩, quantity := 10 }
    let ops : List Op :=
      [.submitOrder order 0, .checkFillsOnTrade (fun _ => .finite 0) 1 ⟨99⟩ 4 .sell,
        .modifyOrder 1 1 ⟨98⟩ 8 [65], .checkFillsOnTrade (fun _ => .finite 0) 1 ⟨98⟩ 3 .sell]
    let out := machine.run (start {} (.finite 1)) ops
    totalFilled 1 out.2 = 7 ∧ out.2.length = 4 ∧
      EachAfter (fun before event => (client.seen .start before).Expects event) out.2 ∧
        client.seen .start out.2 = out.1.observed ∧
        ∀ id order, out.1.restingOrders.find id = some order →
          order.filledQty = totalFilled id out.2 := by
  intro order ops out
  have hunfilled : ∀ op ∈ ops, op.Unfilled := by decide +kernel
  exact ⟨by decide +kernel, by decide +kernel, events_tell_orders {} (.finite 1) hunfilled⟩

end ReplayEngine

end SimCme
