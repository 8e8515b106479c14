import SimCme.Engine.SyntheticOrders
import SimCme.Library.Machine
import SimCme.Library.SecondaryIndex

/-!
# The two order indexes of the replay engine

A resting order is filed by its id and listed under its security.  A fill takes it out of
both indexes under its own security.  A cancellation takes it out of the list of the security
that the request names, which need not be the order's.

Main results:

- Theorem {lit}`ReplayEngine.Indexed.step`: a step keeps the indexes in agreement unless it
  cancels an order under another security.
- Theorem {lit}`ReplayEngine.not_indexesAgree_cancelOrder`: such a cancellation leaves a stale
  id behind.
- Theorem {lit}`ReplayEngine.indexes_agree_iff`: the indexes agree all along a run exactly
  when every cancellation of a resting order names its security.
-/

namespace SimCme

open Library

namespace ReplayEngine

/-- The lists hold the ids of the resting orders, each under its security, and each once. -/
structure IndexesAgree (e : ReplayEngine) : Prop where
  listed : ∀ s id, id ∈ e.ordersBySecurity s ↔
    ∃ order, e.restingOrders.find id = some order ∧ order.securityId = s
  once : ∀ s id, id ∈ e.ordersBySecurity s →
    (e.ordersBySecurity s).count id = 1 ∧ ∀ s', id ∈ e.ordersBySecurity s' → s' = s

/-- The lists index the resting orders by their securities, and the ids given so far are
below the next one. -/
structure Indexed (e : ReplayEngine) : Prop where
  lists : Lists Order.securityId e.restingOrders.find e.ordersBySecurity
  fresh : ∀ id order, e.restingOrders.find id = some order → id < e.nextOrderId

theorem indexesAgree_iff_lists {e : ReplayEngine} :
    e.IndexesAgree ↔ Lists Order.securityId e.restingOrders.find e.ordersBySecurity := by
  constructor
  · intro hagree
    exact .of_once hagree.listed fun s id hid => (hagree.once s id hid).1
  · intro hlists
    exact { listed := hlists.listed, once := fun s id hid => hlists.once hid }

/-! ## Steps -/

/-- What the environment may ask of the engine: requests, replayed trades with the numbers
drawn for them, and replayed book messages. -/
inductive Op where
  | submitOrder (order : Order) (now : Timestamp)
  | cancelOrder (orderId : OrderId) (securityId : SecurityId) (sessionUuid : SessionUuid)
  | modifyOrder (orderId : OrderId) (securityId : SecurityId) (newPrice : Price) (newQty : Int)
      (newClOrdId : ClOrdId)
  | checkFillsOnTrade (draws : Nat → Double) (securityId : SecurityId) (tradePrice : Price)
      (tradeQty : Int) (aggressorSide : Side)
  | updateBBO (msg : MDIncrementalRefreshBook46)

def step (e : ReplayEngine) : Op → ReplayOutcome
  | .submitOrder order now => e.submitOrder order now
  | .cancelOrder orderId securityId sessionUuid => e.cancelOrder orderId securityId sessionUuid
  | .modifyOrder orderId securityId newPrice newQty newClOrdId =>
      e.modifyOrder orderId securityId newPrice newQty newClOrdId
  | .checkFillsOnTrade draws securityId tradePrice tradeQty aggressorSide =>
      e.checkFillsOnTrade draws securityId tradePrice tradeQty aggressorSide
  | .updateBBO msg =>
      { engine := { e with toSyntheticEngine := e.toSyntheticEngine.updateBBO msg }
        events := [] }

def machine : Machine ReplayEngine Op EngineEvent where
  step e op := ((e.step op).engine, (e.step op).events)

/-- A cancellation of a resting order names the order's security. -/
def NamesSecurity (e : ReplayEngine) : Op → Prop
  | .cancelOrder orderId securityId _ =>
      ∀ order, e.restingOrders.find orderId = some order → order.securityId = securityId
  | _ => True

/-! ## Orders keep their security -/

/-- The same ids are filed, with orders of the same securities. -/
def SameSecurities (orders orders' : RestingOrderMap) : Prop :=
  ∀ id, (orders'.find id).map Order.securityId = (orders.find id).map Order.securityId

theorem SameSecurities.trans {orders orders' orders'' : RestingOrderMap}
    (h : SameSecurities orders orders') (h' : SameSecurities orders' orders'') :
    SameSecurities orders orders'' :=
  fun id => (h' id).trans (h id)

theorem SameSecurities.write {orders : RestingOrderMap} {order order' : Order} {id : OrderId}
    (hfind : orders.find id = some order) (hid : order'.orderId = order.orderId)
    (hsecurity : order'.securityId = order.securityId) :
    SameSecurities orders (orders.write order') := by
  intro id'
  rw [RestingOrderMap.find_write, hid, orders.filed id order hfind]
  by_cases hsame : id' = id
  · rw [if_pos hsame, hsame, hfind, Option.map_some, Option.map_some, hsecurity]
  · rw [if_neg hsame]

/-- An id that is filed was filed before. -/
theorem SameSecurities.exists_of_find {orders orders' : RestingOrderMap}
    (h : SameSecurities orders orders') {id : OrderId} {order' : Order}
    (hfind : orders'.find id = some order') : ∃ order, orders.find id = some order := by
  have hmap := h id
  rw [hfind, Option.map_some, eq_comm, Option.map_eq_some_iff] at hmap
  obtain ⟨order, horder, -⟩ := hmap
  exact ⟨order, horder⟩

section Loop

variable (fillProbability : Double) (draws : Nat → Double) (tradePrice : Price) (tradeQty : Int)

/-- A turn keeps the securities, and fills no order but its own. -/
theorem turn_frame (loop : TradeLoop) (oid : OrderId) :
    let next := loop.turn fillProbability draws tradePrice tradeQty oid
    SameSecurities loop.restingOrders next.restingOrders ∧
      ∀ id ∈ next.filledIds, id ∈ loop.filledIds ∨ id = oid := by
  intro next
  rcases TradeLoop.turn_cases loop oid with ⟨calls, hnext⟩ | ⟨order, hfind, -, -, hnext⟩
  · rw [show next = { loop with calls := calls } from hnext]
    exact ⟨fun _ => rfl, fun id hid => Or.inl hid⟩
  · have hid : order.orderId = oid := loop.restingOrders.filed oid order hfind
    rw [show next = _ from hnext]
    refine ⟨SameSecurities.write hfind rfl rfl, ?_⟩
    intro id hmem
    simp only [TradeLoop.fill] at hmem
    split at hmem
    · rcases List.mem_append.mp hmem with hold | hnew
      · exact Or.inl hold
      · exact Or.inr ((List.mem_singleton.mp hnew).trans hid)
    · exact Or.inl hmem

/-- The loop keeps the securities, and fills only orders of its list. -/
theorem foldl_turn_frame (ids : List OrderId) (loop : TradeLoop) :
    let stop := ids.foldl (TradeLoop.turn fillProbability draws tradePrice tradeQty) loop
    SameSecurities loop.restingOrders stop.restingOrders ∧
      ∀ id ∈ stop.filledIds, id ∈ loop.filledIds ∨ id ∈ ids := by
  induction ids generalizing loop with
  | nil => exact ⟨fun _ => rfl, fun id hid => Or.inl hid⟩
  | cons oid ids ih =>
      obtain ⟨hfirst, hfirst_filled⟩ :=
        turn_frame fillProbability draws tradePrice tradeQty loop oid
      obtain ⟨hrest, hrest_filled⟩ :=
        ih (loop.turn fillProbability draws tradePrice tradeQty oid)
      refine ⟨hfirst.trans hrest, ?_⟩
      intro id hid
      rw [List.mem_cons]
      rcases hrest_filled id hid with hturn | hlater
      · rcases hfirst_filled id hturn with hold | hown
        · exact Or.inl hold
        · exact Or.inr (Or.inl hown)
      · exact Or.inr (Or.inr hlater)

end Loop

/-! ## One step -/

variable {e : ReplayEngine}

/-- An order that comes to rest has a new id, and is listed under its security. -/
theorem Indexed.submitOrder (he : e.Indexed) (order : Order) (now : Timestamp) :
    (e.submitOrder order now).engine.Indexed := by
  have hfree : e.restingOrders.find e.nextOrderId = none := by
    rw [Option.eq_none_iff_forall_ne_some]
    intro o hfind
    exact Nat.lt_irrefl _ (he.fresh _ o hfind)
  obtain ⟨hnext, ⟨horders, hlists⟩ | ⟨horders, hlists⟩⟩ := submitOrder_cases e order now
  · refine ⟨?_, ?_⟩
    · rw [horders, hlists]
      exact he.lists
    · intro id o hfind
      rw [horders] at hfind
      rw [hnext]
      exact Nat.lt_succ_of_lt (he.fresh id o hfind)
  · rw [RestingOrderMap.emplace_of_free hfree] at horders
    refine ⟨?_, ?_⟩
    · rw [horders, hlists]
      exact he.lists.insert hfree (e.stamped order now)
    · intro id o hfind
      rw [horders, RestingOrderMap.find_write] at hfind
      rw [hnext]
      split at hfind
      · rename_i hid
        rw [hid]
        exact Nat.lt_succ_self e.nextOrderId
      · exact Nat.lt_succ_of_lt (he.fresh id o hfind)

/-- A cancellation that names the order's security takes it out of both indexes. -/
theorem Indexed.cancelOrder (he : e.Indexed) {orderId : OrderId} {securityId : SecurityId}
    (hnames : ∀ order, e.restingOrders.find orderId = some order →
      order.securityId = securityId) (sessionUuid : SessionUuid) :
    (e.cancelOrder orderId securityId sessionUuid).engine.Indexed := by
  unfold ReplayEngine.cancelOrder
  cases hfind : e.restingOrders.find orderId with
  | none => exact he
  | some order =>
      have hlisted : orderId ∈ e.ordersBySecurity securityId :=
        (he.lists.listed _ _).mpr ⟨order, hfind, hnames order hfind⟩
      refine ⟨?_, ?_⟩
      · have herase : ∀ id, (e.restingOrders.erase orderId).find id =
            if id ∈ [orderId] then none else e.restingOrders.find id := by
          intro id
          rw [RestingOrderMap.find_erase]
          simp only [List.mem_singleton]
        have hremove := he.lists.remove (by simpa using hlisted) herase
        simpa [unlist] using hremove
      · intro id o ho
        rw [RestingOrderMap.find_erase] at ho
        split at ho
        · contradiction
        · exact he.fresh id o ho

theorem Indexed.modifyOrder (he : e.Indexed) (orderId : OrderId) (securityId : SecurityId)
    (newPrice : Price) (newQty : Int) (newClOrdId : ClOrdId) :
    (e.modifyOrder orderId securityId newPrice newQty newClOrdId).engine.Indexed := by
  unfold ReplayEngine.modifyOrder
  cases hfind : e.restingOrders.find orderId with
  | none => exact he
  | some order =>
      have hsame : SameSecurities e.restingOrders (e.restingOrders.write { order with
          price := newPrice, quantity := newQty, clOrdId := newClOrdId, status := .replaced }) :=
        .write hfind rfl rfl
      refine ⟨he.lists.congr hsame, ?_⟩
      intro id o ho
      obtain ⟨order', horder'⟩ := hsame.exists_of_find ho
      exact he.fresh id order' horder'

/-- A trade takes the orders it fills out of both indexes. -/
theorem Indexed.checkFillsOnTrade (he : e.Indexed) (draws : Nat → Double)
    (securityId : SecurityId) (tradePrice : Price) (tradeQty : Int) (aggressorSide : Side) :
    (e.checkFillsOnTrade draws securityId tradePrice tradeQty aggressorSide).engine.Indexed := by
  obtain ⟨hsame, hfilled⟩ := foldl_turn_frame e.fillProbability draws tradePrice tradeQty
    (e.ordersBySecurity securityId)
    { restingOrders := e.restingOrders, nextTradeId := e.nextTradeId }
  unfold ReplayEngine.checkFillsOnTrade tradeLoop
  generalize List.foldl _ _ (e.ordersBySecurity securityId) = loop at hsame hfilled ⊢
  obtain ⟨hfind, hlists, hnext⟩ := foldl_removeFilled securityId loop.filledIds
    { e with restingOrders := loop.restingOrders, nextTradeId := loop.nextTradeId }
  refine ⟨?_, ?_⟩
  · rw [hlists]
    refine (he.lists.congr hsame).remove ?_ hfind
    intro id hid
    rcases hfilled id hid with hnone | hmem
    · simp at hnone
    · exact hmem
  · intro id o ho
    rw [hfind] at ho
    rw [hnext]
    split at ho
    · contradiction
    · obtain ⟨order, horder⟩ := hsame.exists_of_find ho
      exact he.fresh id order horder

/-- A step keeps the indexes in agreement unless it cancels an order under another
security. -/
theorem Indexed.step (he : e.Indexed) {op : Op} (hop : e.NamesSecurity op) :
    (e.step op).engine.Indexed := by
  cases op with
  | submitOrder order now => exact he.submitOrder order now
  | cancelOrder orderId securityId sessionUuid => exact he.cancelOrder hop sessionUuid
  | modifyOrder orderId securityId newPrice newQty newClOrdId =>
      exact he.modifyOrder orderId securityId newPrice newQty newClOrdId
  | checkFillsOnTrade draws securityId tradePrice tradeQty aggressorSide =>
      exact he.checkFillsOnTrade draws securityId tradePrice tradeQty aggressorSide
  | updateBBO msg => exact ⟨he.lists, he.fresh⟩

/-- A cancellation under another security leaves a stale id behind. -/
theorem not_indexesAgree_cancelOrder (hagree : e.IndexesAgree) {orderId : OrderId}
    {order : Order} (hfind : e.restingOrders.find orderId = some order)
    {securityId : SecurityId} (hother : order.securityId ≠ securityId)
    (sessionUuid : SessionUuid) :
    ¬(e.cancelOrder orderId securityId sessionUuid).engine.IndexesAgree := by
  intro hafter
  have hlisted : orderId ∈ e.ordersBySecurity order.securityId :=
    (hagree.listed _ _).mpr ⟨order, hfind, rfl⟩
  have hnone : (e.cancelOrder orderId securityId sessionUuid).engine.restingOrders.find orderId =
      none := by
    simp [ReplayEngine.cancelOrder, hfind, RestingOrderMap.find_erase]
  have hstale : orderId ∈ (e.cancelOrder orderId securityId
      sessionUuid).engine.ordersBySecurity order.securityId := by
    simp [ReplayEngine.cancelOrder, hfind, unlist, hother, hlisted]
  obtain ⟨order', hfind', -⟩ := (hafter.listed _ _).mp hstale
  rw [hnone] at hfind'
  contradiction

/-! ## Runs -/

/-- An engine without orders, with any best prices and any fill probability. -/
def start (replayed : SyntheticEngine) (fillProbability : Double) : ReplayEngine :=
  { toSyntheticEngine := replayed, fillProbability := fillProbability }

theorem indexed_start (replayed : SyntheticEngine) (fillProbability : Double) :
    (start replayed fillProbability).Indexed where
  lists := .empty _
  fresh := by simp [start, RestingOrderMap.empty]

theorem indexed_run (he : e.Indexed) {ops : List Op}
    (hnames : machine.Admits NamesSecurity e ops) : (machine.run e ops).1.Indexed :=
  Machine.state_invariant he (fun _ _ he' hop => he'.step hop) ops hnames

/-- The indexes agree all along a run exactly when every cancellation of a resting order
names its security. -/
theorem indexes_agree_iff (replayed : SyntheticEngine) (fillProbability : Double)
    (ops : List Op) :
    (∀ before after, ops = before ++ after →
      (machine.run (start replayed fillProbability) before).1.IndexesAgree) ↔
      machine.Admits NamesSecurity (start replayed fillProbability) ops := by
  constructor
  · intro hagree
    induction ops using List.reverseRecOn with
    | nil => trivial
    | append_singleton ops op ih =>
        rw [Machine.admits_concat]
        have hearlier := ih fun before after hsplit =>
          hagree before (after ++ [op]) (by rw [hsplit, List.append_assoc])
        refine ⟨hearlier, ?_⟩
        have hlast := hagree (ops ++ [op]) [] (by simp)
        rw [Machine.run_concat] at hlast
        have hops := indexed_run (indexed_start replayed fillProbability) hearlier
        cases op with
        | cancelOrder orderId securityId sessionUuid =>
            intro order hfind
            by_contra hother
            exact not_indexesAgree_cancelOrder (indexesAgree_iff_lists.mpr hops.lists) hfind
              hother sessionUuid hlast
        | _ => trivial
  · rintro hnames before after rfl
    have hbefore := indexed_run (indexed_start replayed fillProbability) hnames.of_append
    exact indexesAgree_iff_lists.mpr hbefore.lists

/-- An order rests for one security and is cancelled under another. -/
theorem not_indexes_agree_of_other_security :
    let order : Order := { securityId := 1, price := ⟨100⟩, quantity := 5 }
    let ops : List Op := [.submitOrder order 0, .cancelOrder 1 2 0]
    let e := (machine.run (start {} (.finite 1)) ops).1
    1 ∈ e.ordersBySecurity 1 ∧ e.restingOrders.find 1 = none ∧ ¬e.IndexesAgree := by
  intro order ops e
  have hlisted : 1 ∈ e.ordersBySecurity 1 := by decide
  have hnone : e.restingOrders.find 1 = none := by decide
  refine ⟨hlisted, hnone, ?_⟩
  intro hagree
  obtain ⟨order, hfind, -⟩ := (hagree.listed 1 1).mp hlisted
  rw [hnone] at hfind
  contradiction

end ReplayEngine

end SimCme
