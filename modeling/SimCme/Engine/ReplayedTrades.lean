import SimCme.Engine.SyntheticOrders
import SimCme.Library.Machine
import SimCme.Library.RepeatedTakes

/-!
# The allocation of replayed trades

A replayed trade fills the resting orders whose limit it meets, one after the other.  The
quantity it offers is the same for every order, so that several orders may be filled with
more than was traded.

Main results:

- Theorem {lit}`TradeLoop.Filled.turn`: what one turn keeps about the orders, the fills and
  the filled ids.
- Theorem {lit}`TradeLoop.takes_foldl_turn`: the fills are the takes of a portion that is
  offered again and again.
- Theorem {lit}`ReplayEngine.allocated_iff`: a trade is allocated as it should exactly when
  one order at most is filled, or the orders filled want no more than was traded.
-/

namespace SimCme

open Library

/-! ## Quantities of fills -/

/-- The quantity that fills give to an order. -/
def filledBy (fills : List OrderFilled) (id : OrderId) : Int :=
  ((fills.filter fun fill => fill.takerOrderId = id).map (·.tradeQty)).sum

@[simp]
theorem filledBy_nil (id : OrderId) : filledBy [] id = 0 :=
  rfl

theorem filledBy_concat (fills : List OrderFilled) (fill : OrderFilled) (id : OrderId) :
    filledBy (fills ++ [fill]) id =
      filledBy fills id + if fill.takerOrderId = id then fill.tradeQty else 0 := by
  unfold filledBy
  rw [List.filter_append, List.map_append, List.sum_append]
  by_cases hid : fill.takerOrderId = id
  · simp [hid]
  · simp [hid]

/-- An order after fills of a quantity. -/
def Order.afterFills (order : Order) (qty : Int) : Order :=
  if qty = 0 then order
  else
    { order with
      filledQty := order.filledQty + qty
      status := if order.quantity ≤ order.filledQty + qty then .filled else .partiallyFilled }

theorem Order.remainingQty_afterFills (order : Order) (qty : Int) :
    (order.afterFills qty).remainingQty = order.remainingQty - qty := by
  unfold afterFills remainingQty
  split
  · omega
  · simp only
    omega

@[simp]
theorem Order.orderId_afterFills (order : Order) (qty : Int) :
    (order.afterFills qty).orderId = order.orderId := by
  unfold afterFills
  split <;> rfl

theorem Order.crossedBy_afterFills (order : Order) (qty : Int) (tradePrice : Price) :
    (order.afterFills qty).crossedBy tradePrice = order.crossedBy tradePrice := by
  unfold afterFills
  split <;> rfl

/-- A fill after other fills. -/
theorem generateFill_afterFills (order : Order) {before qty : Int} (hbefore : 0 ≤ before)
    (hqty : 0 < qty) (fillPrice : Price) (tradeId : Nat) :
    (ReplayEngine.generateFill (order.afterFills before) fillPrice qty tradeId).1 =
      order.afterFills (before + qty) := by
  have hne : before + qty ≠ 0 := by omega
  unfold ReplayEngine.generateFill Order.afterFills Order.isFullyFilled
  rw [if_neg hne]
  by_cases hzero : before = 0
  · simp [hzero]
  · simp [hzero, Int.add_assoc]

/-- An order becomes filled when fills give it all that remained. -/
def BecomesFilled (order : Order) (qty : Int) : Prop :=
  0 < qty ∧ order.remainingQty ≤ qty

instance (order : Order) (qty : Int) : Decidable (BecomesFilled order qty) :=
  inferInstanceAs (Decidable (_ ∧ _))

/-! ## The loop -/

/-- A fill goes to a resting order of the list whose limit the price meets, and gives it no
more than the earlier fills left. -/
def FitsOrder (orders : RestingOrderMap) (ids : List OrderId) (tradePrice : Price)
    (earlier : List OrderFilled) (fill : OrderFilled) : Prop :=
  ∃ order, orders.find fill.takerOrderId = some order ∧ fill.takerOrderId ∈ ids ∧
    order.crossedBy tradePrice = true ∧ fill.tradePrice = tradePrice ∧ 0 < fill.tradeQty ∧
    fill.tradeQty ≤ order.remainingQty - filledBy earlier fill.takerOrderId

namespace TradeLoop

/-- What the loop has done to the orders it started with. -/
structure Filled (orders : RestingOrderMap) (ids : List OrderId) (tradePrice : Price)
    (loop : TradeLoop) : Prop where
  find_eq : ∀ id, loop.restingOrders.find id =
    (orders.find id).map fun order => order.afterFills (filledBy loop.fills id)
  fits : EachAfter (FitsOrder orders ids tradePrice) loop.fills
  filled_iff : ∀ id, id ∈ loop.filledIds ↔
    ∃ order, orders.find id = some order ∧ BecomesFilled order (filledBy loop.fills id)

variable {fillProbability : Double} {draws : Nat → Double} {tradePrice : Price} {tradeQty : Int}
  {orders : RestingOrderMap} {ids : List OrderId} {loop : TradeLoop}

theorem Filled.tradeQty_pos (hloop : loop.Filled orders ids tradePrice) :
    ∀ fill ∈ loop.fills, 0 < fill.tradeQty := by
  intro fill hfill
  obtain ⟨before, after, hsplit⟩ := List.append_of_mem hfill
  obtain ⟨order, -, -, -, -, hpos, -⟩ := hloop.fits before fill after hsplit
  exact hpos

theorem Filled.filledBy_nonneg (hloop : loop.Filled orders ids tradePrice) (id : OrderId) :
    0 ≤ filledBy loop.fills id := by
  refine List.sum_nonneg ?_
  intro qty hqty
  obtain ⟨fill, hfill, rfl⟩ := List.mem_map.mp hqty
  exact (hloop.tradeQty_pos fill (List.mem_of_mem_filter hfill)).le

/-- A fill of no more than an order has left keeps the account. -/
theorem Filled.fill (hloop : loop.Filled orders ids tradePrice) {oid : OrderId}
    (hoid : oid ∈ ids) {order : Order} (horder : orders.find oid = some order)
    (hcrossed : order.crossedBy tradePrice = true) {share : Int} (hpos : 0 < share)
    (hshare : share ≤ order.remainingQty - filledBy loop.fills oid) :
    (TradeLoop.fill tradePrice loop (order.afterFills (filledBy loop.fills oid))
      share).Filled orders ids tradePrice := by
  have hid : order.orderId = oid := orders.filed oid order horder
  have hnonneg := hloop.filledBy_nonneg oid
  have hfilled := generateFill_afterFills order hnonneg hpos tradePrice loop.nextTradeId
  generalize hgenerate : ReplayEngine.generateFill (order.afterFills (filledBy loop.fills oid))
    tradePrice share loop.nextTradeId = generated at hfilled
  have htaker : generated.2.takerOrderId = oid := by
    rw [← hgenerate]
    simpa [ReplayEngine.generateFill] using hid
  have hqty : generated.2.tradeQty = share := by rw [← hgenerate]; rfl
  have hprice : generated.2.tradePrice = tradePrice := by rw [← hgenerate]; rfl
  have hstep : ∀ id, filledBy (loop.fills ++ [generated.2]) id =
      filledBy loop.fills id + if oid = id then share else 0 := by
    intro id
    rw [filledBy_concat, htaker, hqty]
  simp only [TradeLoop.fill, hgenerate, hfilled]
  refine { find_eq := ?_, fits := ?_, filled_iff := ?_ }
  · intro id
    rw [RestingOrderMap.find_write, Order.orderId_afterFills, hid, hstep]
    by_cases hsame : oid = id
    · subst hsame
      rw [if_pos rfl, if_pos rfl, horder, Option.map_some]
    · rw [if_neg (Ne.symm hsame), if_neg hsame, Int.add_zero]
      exact hloop.find_eq id
  · refine hloop.fits.concat ⟨order, ?_⟩
    rw [htaker, hqty]
    exact ⟨horder, hoid, hcrossed, hprice, hpos, hshare⟩
  · intro id
    rw [hstep]
    have hfull : (order.afterFills (filledBy loop.fills oid + share)).isFullyFilled = true ↔
        BecomesFilled order (filledBy loop.fills oid + share) := by
      rw [Order.isFullyFilled_iff, Order.remainingQty_afterFills, BecomesFilled]
      omega
    by_cases hsame : oid = id
    · subst hsame
      rw [if_pos rfl, horder]
      by_cases hbecomes : BecomesFilled order (filledBy loop.fills oid + share)
      · rw [if_pos (hfull.mpr hbecomes)]
        simp [hid, hbecomes]
      · -- it was not filled before, since something was left for this fill
        have hopen : oid ∉ loop.filledIds := by
          rw [hloop.filled_iff oid]
          rintro ⟨order', horder', -, hle⟩
          rw [horder, Option.some.injEq] at horder'
          subst horder'
          omega
        rw [if_neg fun h => hbecomes (hfull.mp h)]
        simp [hopen, hbecomes]
    · rw [if_neg hsame, Int.add_zero, ← hloop.filled_iff id]
      split
      · simp [hid, Ne.symm hsame]
      · rfl

/-- A turn keeps the account of the orders, the fills and the filled ids. -/
theorem Filled.turn (hloop : loop.Filled orders ids tradePrice) {oid : OrderId}
    (hoid : oid ∈ ids) :
    (loop.turn fillProbability draws tradePrice tradeQty oid).Filled orders ids tradePrice := by
  rcases turn_cases loop oid with ⟨calls, hnext⟩ | ⟨current, hfind, hcrossed, hqty, hnext⟩
  · rw [hnext]
    exact ⟨hloop.find_eq, hloop.fits, hloop.filled_iff⟩
  · -- the order as the loop found it at its start
    have hcurrent := hloop.find_eq oid
    rw [hfind, eq_comm, Option.map_eq_some_iff] at hcurrent
    obtain ⟨order, horder, rfl⟩ := hcurrent
    rw [Order.remainingQty_afterFills] at hqty hnext
    rw [Order.crossedBy_afterFills] at hcrossed
    have hcounted : TradeLoop.Filled orders ids tradePrice { loop with calls := loop.calls + 1 } :=
      ⟨hloop.find_eq, hloop.fits, hloop.filled_iff⟩
    rw [hnext]
    exact hcounted.fill hoid horder hcrossed hqty (min_le_left _ _)

/-- The loop keeps the account of the orders, the fills and the filled ids. -/
theorem Filled.foldl_turn (hloop : loop.Filled orders ids tradePrice) {oids : List OrderId}
    (hoids : ∀ oid ∈ oids, oid ∈ ids) :
    (oids.foldl (TradeLoop.turn fillProbability draws tradePrice tradeQty) loop).Filled orders ids
      tradePrice := by
  induction oids generalizing loop with
  | nil => exact hloop
  | cons oid oids ih =>
      rw [List.forall_mem_cons] at hoids
      exact ih (hloop.turn hoids.1) hoids.2

end TradeLoop

/-! ## The fills as takes -/

/-- What an order has left; an id that is not filed has nothing. -/
def RestingOrderMap.remaining (orders : RestingOrderMap) (id : OrderId) : Int :=
  ((orders.find id).map Order.remainingQty).getD 0

/-- The turns of a list that the price and the draws let through.  The draws are numbered by
the orders whose limit the price meets. -/
def RestingOrderMap.passing (orders : RestingOrderMap) (fillProbability : Double)
    (draws : Nat → Double) (tradePrice : Price) (calls : Nat) (ids : List OrderId) :
    List OrderId :=
  (((ids.filter (orders.crossedAt tradePrice)).zipIdx calls).filter
    fun turn => shouldFill fillProbability (draws turn.2)).map Prod.fst

theorem RestingOrderMap.passing_cons_of_not_crossed {orders : RestingOrderMap}
    {fillProbability : Double} {draws : Nat → Double} {tradePrice : Price} {calls : Nat}
    {id : OrderId} (hcrossed : orders.crossedAt tradePrice id = false) (ids : List OrderId) :
    orders.passing fillProbability draws tradePrice calls (id :: ids) =
      orders.passing fillProbability draws tradePrice calls ids := by
  simp [passing, hcrossed]

theorem RestingOrderMap.passing_cons_of_crossed {orders : RestingOrderMap}
    {fillProbability : Double} {draws : Nat → Double} {tradePrice : Price} {calls : Nat}
    {id : OrderId} (hcrossed : orders.crossedAt tradePrice id = true) (ids : List OrderId) :
    orders.passing fillProbability draws tradePrice calls (id :: ids) =
      if shouldFill fillProbability (draws calls) then
        id :: orders.passing fillProbability draws tradePrice (calls + 1) ids
      else orders.passing fillProbability draws tradePrice (calls + 1) ids := by
  unfold passing
  rw [List.filter_cons_of_pos hcrossed, List.zipIdx_cons]
  by_cases hpasses : shouldFill fillProbability (draws calls) = true
  · simp [hpasses]
  · simp [hpasses]

namespace TradeLoop

variable {fillProbability : Double} {draws : Nat → Double} {tradePrice : Price} {tradeQty : Int}

/-- A fill takes its quantity from what the order has left. -/
theorem remaining_fill (tradePrice : Price) {loop : TradeLoop} {oid : OrderId} {order : Order}
    (hfind : loop.restingOrders.find oid = some order) (share : Int) :
    (TradeLoop.fill tradePrice loop order share).restingOrders.remaining =
      Function.update loop.restingOrders.remaining oid
        (loop.restingOrders.remaining oid - share) := by
  have hid : order.orderId = oid := loop.restingOrders.filed oid order hfind
  ext id
  simp only [RestingOrderMap.remaining, TradeLoop.fill, ReplayEngine.generateFill,
    RestingOrderMap.find_write, hid, Function.update_apply]
  by_cases hsame : id = oid
  · simp only [hsame, if_true, hfind, Option.map_some, Option.getD_some, Order.remainingQty]
    omega
  · simp only [hsame, if_false]

/-- A fill leaves the limits as they are. -/
theorem crossedAt_fill (tradePrice : Price) {loop : TradeLoop} {oid : OrderId} {order : Order}
    (hfind : loop.restingOrders.find oid = some order) (share : Int) :
    (TradeLoop.fill tradePrice loop order share).restingOrders.crossedAt tradePrice =
      loop.restingOrders.crossedAt tradePrice := by
  have hid : order.orderId = oid := loop.restingOrders.filed oid order hfind
  ext id
  simp only [RestingOrderMap.crossedAt, TradeLoop.fill, ReplayEngine.generateFill,
    RestingOrderMap.find_write, hid]
  by_cases hsame : id = oid
  · simp only [hsame, if_true, hfind, Option.any_some]
    rfl
  · simp only [hsame, if_false]

/-- The fills of the loop are the takes of the trade quantity, offered again and again. -/
theorem takes_foldl_turn (ids : List OrderId) (loop : TradeLoop) :
    (ids.foldl (TradeLoop.turn fillProbability draws tradePrice tradeQty) loop).fills.map
        (fun fill => (fill.takerOrderId, fill.tradeQty)) =
      loop.fills.map (fun fill => (fill.takerOrderId, fill.tradeQty)) ++
        takes tradeQty loop.restingOrders.remaining
          (loop.restingOrders.passing fillProbability draws tradePrice loop.calls ids) := by
  induction ids generalizing loop with
  | nil => simp [RestingOrderMap.passing, takes]
  | cons oid ids ih =>
      rw [List.foldl_cons, ih]
      cases hcrossed : loop.restingOrders.crossedAt tradePrice oid with
      | false =>
          rw [turn_of_not_crossed hcrossed, RestingOrderMap.passing_cons_of_not_crossed hcrossed]
      | true =>
          obtain ⟨order, hfind, horder⟩ := RestingOrderMap.crossedAt_eq_true_iff.mp hcrossed
          rw [turn_of_crossed hfind horder]
          have hhas : loop.restingOrders.remaining oid = order.remainingQty := by
            rw [RestingOrderMap.remaining, hfind]
            rfl
          rw [RestingOrderMap.passing_cons_of_crossed hcrossed]
          by_cases hpasses : shouldFill fillProbability (draws loop.calls) = true
          · by_cases hqty : 0 < min order.remainingQty tradeQty
            · let next := { loop with calls := loop.calls + 1 }
              have hnext : next.restingOrders.find oid = some order := hfind
              have hremaining := remaining_fill tradePrice hnext (min order.remainingQty tradeQty)
              have hsame := crossedAt_fill tradePrice hnext (min order.remainingQty tradeQty)
              have hid : order.orderId = oid := loop.restingOrders.filed oid order hfind
              rw [if_pos ⟨hpasses, hqty⟩, if_pos hpasses, takes, hhas, if_neg (not_le.mpr hqty),
                RestingOrderMap.passing, hsame, hremaining]
              simp [TradeLoop.fill, ReplayEngine.generateFill, next, hid, hhas,
                RestingOrderMap.passing]
            · simp [hpasses, hqty, takes, hhas, not_lt.mp hqty]
          · simp [hpasses]

end TradeLoop

namespace ReplayEngine

/-- The turns of a trade that the price and the draws let through, at orders that have
something left. -/
def eligible (e : ReplayEngine) (draws : Nat → Double) (securityId : SecurityId)
    (tradePrice : Price) : List OrderId :=
  (e.restingOrders.passing e.fillProbability draws tradePrice 0
    (e.ordersBySecurity securityId)).filter fun id => 0 < e.restingOrders.remaining id

/-- A trade is allocated as it should: its fills add up to no more than was traded, each goes
to a resting order whose limit the price meets and gives it no more than it has left, and
exactly the orders that become filled leave. -/
structure Allocated (e : ReplayEngine) (securityId : SecurityId) (tradePrice : Price)
    (tradeQty : Int) (r : ReplayOutcome) : Prop where
  total_le : ((orderFills r.events).map (·.tradeQty)).sum ≤ tradeQty
  fits : EachAfter (FitsOrder e.restingOrders (e.ordersBySecurity securityId) tradePrice)
    (orderFills r.events)
  removed : ∀ id order, e.restingOrders.find id = some order →
    (r.engine.restingOrders.find id = none ↔
      BecomesFilled order (filledBy (orderFills r.events) id))
  kept : ∀ id order', r.engine.restingOrders.find id = some order' →
    ∃ order, e.restingOrders.find id = some order ∧
      order' = order.afterFills (filledBy (orderFills r.events) id)
  listed : ∀ s id, id ∈ r.engine.ordersBySecurity s ↔
    id ∈ e.ordersBySecurity s ∧ ¬(s = securityId ∧ ∃ order,
      e.restingOrders.find id = some order ∧
        BecomesFilled order (filledBy (orderFills r.events) id))

theorem orderFills_map_orderFilled (fills : List OrderFilled) :
    orderFills (fills.map .orderFilled) = fills := by
  induction fills with
  | nil => rfl
  | cons fill fills ih => exact congrArg (fill :: ·) ih

/-- The loop accounts for the orders the engine had. -/
theorem filled_tradeLoop (e : ReplayEngine) (draws : Nat → Double) (securityId : SecurityId)
    (tradePrice : Price) (tradeQty : Int) :
    (e.tradeLoop draws securityId tradePrice tradeQty).Filled e.restingOrders
      (e.ordersBySecurity securityId) tradePrice := by
  refine TradeLoop.Filled.foldl_turn ?_ fun _ hoid => hoid
  refine { find_eq := ?_, fits := eachAfter_nil, filled_iff := ?_ }
  · intro id
    simp [Order.afterFills]
  · intro id
    simp [BecomesFilled]

/-- The fills of a trade are the takes of its quantity from the eligible orders. -/
theorem sum_tradeQty_tradeLoop (e : ReplayEngine) (draws : Nat → Double)
    (securityId : SecurityId) (tradePrice : Price) (tradeQty : Int) :
    ((e.tradeLoop draws securityId tradePrice tradeQty).fills.map (·.tradeQty)).sum =
      total tradeQty e.restingOrders.remaining (e.eligible draws securityId tradePrice) := by
  have htakes : (e.tradeLoop draws securityId tradePrice tradeQty).fills.map
      (fun fill => (fill.takerOrderId, fill.tradeQty)) =
        takes tradeQty e.restingOrders.remaining (e.eligible draws securityId tradePrice) := by
    unfold eligible
    rw [takes_filter (by simp)]
    exact TradeLoop.takes_foldl_turn _ _
  unfold total
  rw [← htakes, List.map_map]
  rfl

/-- A trade is allocated as it should exactly when one turn at most is eligible, or the
eligible orders want no more than was traded. -/
theorem allocated_iff (e : ReplayEngine) (draws : Nat → Double) (securityId : SecurityId)
    (tradePrice : Price) {tradeQty : Int} (hqty : 0 < tradeQty) (aggressorSide : Side) :
    e.Allocated securityId tradePrice tradeQty
        (e.checkFillsOnTrade draws securityId tradePrice tradeQty aggressorSide) ↔
      (e.eligible draws securityId tradePrice).length ≤ 1 ∨
        ∑ id ∈ (e.eligible draws securityId tradePrice).toFinset,
          e.restingOrders.remaining id ≤ tradeQty := by
  have hpos : ∀ id ∈ e.eligible draws securityId tradePrice, 0 < e.restingOrders.remaining id := by
    intro id hid
    simpa using (List.mem_filter.mp hid).2
  rw [← total_le_iff hqty hpos, ← sum_tradeQty_tradeLoop]
  have hloop := e.filled_tradeLoop draws securityId tradePrice tradeQty
  unfold checkFillsOnTrade
  generalize e.tradeLoop draws securityId tradePrice tradeQty = loop at hloop ⊢
  obtain ⟨hfind, hlists, -⟩ := foldl_removeFilled securityId loop.filledIds
    { e with restingOrders := loop.restingOrders, nextTradeId := loop.nextTradeId }
  constructor
  · intro hallocated
    simpa [orderFills_map_orderFilled] using hallocated.total_le
  · intro htotal
    refine
      { total_le := ?_, fits := ?_, removed := ?_, kept := ?_, listed := ?_ }
    · simpa [orderFills_map_orderFilled] using htotal
    · simpa [orderFills_map_orderFilled] using hloop.fits
    · intro id order horder
      have hfilled : id ∈ loop.filledIds ↔ BecomesFilled order (filledBy loop.fills id) := by
        rw [hloop.filled_iff, horder]
        simp
      rw [orderFills_map_orderFilled, hfind, ← hfilled, hloop.find_eq, horder]
      by_cases hid : id ∈ loop.filledIds <;> simp [hid]
    · intro id order' horder'
      rw [hfind, hloop.find_eq] at horder'
      rw [orderFills_map_orderFilled]
      split at horder'
      · contradiction
      · obtain ⟨order, horder, heq⟩ := Option.map_eq_some_iff.mp horder'
        exact ⟨order, horder, heq.symm⟩
    · intro s id
      rw [hlists, orderFills_map_orderFilled, ← hloop.filled_iff id, Function.update_apply]
      by_cases hs : s = securityId <;> simp [hs]

/-- Two orders of five rest at a price. -/
def twoResting : ReplayEngine :=
  let order : Order := { securityId := 1, price := ⟨100⟩, quantity := 5 }
  (((({} : ReplayEngine).submitOrder order 0).engine).submitOrder order 0).engine

/-- Ten are enough for both orders. -/
theorem allocated_of_ten :
    twoResting.Allocated 1 ⟨100⟩ 10
      (twoResting.checkFillsOnTrade (fun _ => .finite 0) 1 ⟨100⟩ 10 .sell) := by
  refine (allocated_iff twoResting _ 1 ⟨100⟩ (by decide) .sell).mpr (Or.inr ?_)
  decide +kernel

/-- A trade of five fills both orders of five. -/
theorem not_allocated_of_five :
    let r := twoResting.checkFillsOnTrade (fun _ => .finite 0) 1 ⟨100⟩ 5 .sell
    (orderFills r.events).map (·.tradeQty) = [5, 5] ∧ ¬twoResting.Allocated 1 ⟨100⟩ 5 r := by
  intro r
  have hfills : (orderFills r.events).map (·.tradeQty) = [5, 5] := by decide +kernel
  refine ⟨hfills, ?_⟩
  intro hallocated
  have htotal := hallocated.total_le
  rw [hfills] at htotal
  exact absurd htotal (by decide)

end ReplayEngine

end SimCme
