import SimCme.Engine.Arithmetic
import SimCme.Gateway.PreTradeChecks

/-!
# Quantities along runs of the exchange

The wire carries unsigned quantities that the gateway casts to 32-bit integers, and
the engine adds and subtracts them without looking for overflow.  New orders are
checked to be positive; a modification may carry any quantity, and nothing limits what
adds up at one price.  A run whose commands stay clear of these two cases never
computes a quantity out of range.

Main results:

- Theorem {lit}`quantities_in_range`: along every run of commands that fit, every
  result of the quantity arithmetic of the engine is within 32 bits.
- Theorem {lit}`modified_bid_underflows`: a modification of a partially filled order
  leaves that range.
-/

namespace SimCme

open Library

/-- The results of the quantity arithmetic of one step. -/
def Exchange.ints (x : Exchange) (op : ExchangeOp) : List Int :=
  match x.request op with
  | none => []
  | some eop => x.engine.ints eop

/-- The exchange, seen through its quantity arithmetic. -/
def Exchange.arithmetic : Machine Exchange ExchangeOp Int where
  step x op := ((x.outcome op).exchange, x.ints op)

/-! ## Commands that fit -/

/-- What a new order brings to rest fits into its level. -/
abbrev Exchange.FitsNew (x : Exchange) (order : Order) : Prop :=
  order.status = .rejected ∨ ∀ book ∈ x.engine.orderBooks order.securityId,
    order.Restable →
      order.quantity - book.crossingQty x.engine.heap order + book.joinedQty order ≤ 2 ^ 31 - 1

/-- A resting order is modified to a quantity that is not too far below what it has
been filled by, and what it brings to rest fits into its new level. -/
abbrev Exchange.FitsModify (x : Exchange) (orderId : OrderId) (securityId : SecurityId)
    (newPrice : Price) (newQty : Int) (newClOrdId : ClOrdId) : Prop :=
  ∀ book ∈ x.engine.orderBooks (x.engine.routeSecurity orderId securityId),
    ∀ r ∈ book.ordersById orderId,
      -2 ^ 31 ≤ newQty - (x.engine.heap.read r).filledQty ∧
        newQty - (x.engine.heap.read r).filledQty -
          book.crossingQty x.engine.heap
            (OrderBook.modifiedOrder (x.engine.heap.read r) newPrice newQty newClOrdId) +
          (book.joinedQty
            (OrderBook.modifiedOrder (x.engine.heap.read r) newPrice newQty newClOrdId) -
            if newPrice = (x.engine.heap.read r).price then
              (x.engine.heap.read r).remainingQty
            else 0) ≤ 2 ^ 31 - 1

def CommandType.Fits (x : Exchange) (orderId : OrderId) (securityId : SecurityId) :
    CommandType → Prop
  | .newOrder order => x.FitsNew order
  | .cancelOrder => True
  | .modifyOrder newPrice newQty newClOrdId =>
      x.FitsModify orderId securityId newPrice newQty newClOrdId

instance (x : Exchange) (orderId : OrderId) (securityId : SecurityId) :
    (type : CommandType) → Decidable (type.Fits x orderId securityId)
  | .newOrder order => inferInstanceAs (Decidable (x.FitsNew order))
  | .cancelOrder => .isTrue trivial
  | .modifyOrder newPrice newQty newClOrdId =>
      inferInstanceAs (Decidable (x.FitsModify orderId securityId newPrice newQty newClOrdId))

/-- Every step processes a command that fits. -/
def ExchangeOp.Fits (x : Exchange) : ExchangeOp → Prop
  | .processNext _ =>
      ∀ cmd ∈ x.gateway.commandQueue.head?, cmd.type.Fits x cmd.cancelOrderId cmd.securityId
  | _ => True

instance (x : Exchange) : (op : ExchangeOp) → Decidable (op.Fits x)
  | .addInstrument _ => .isTrue trivial
  | .setTradingStatus _ _ => .isTrue trivial
  | .message _ _ _ => .isTrue trivial
  | .processNext _ =>
      inferInstanceAs (Decidable (∀ cmd ∈ x.gateway.commandQueue.head?,
        cmd.type.Fits x cmd.cancelOrderId cmd.securityId))

/-! ## What the wire and the checks make sure of -/

/-- The cast yields a 32-bit quantity. -/
theorem decodeQty_le (qty : UInt32) : decodeQty qty ≤ 2 ^ 31 - 1 := by
  have hlt := qty.toInt32.toInt_lt
  unfold decodeQty
  omega

/-- A queued quantity is a 32-bit integer, and positive for a new order that the checks
let through. -/
def OrderCommand.Sized (cmd : OrderCommand) : Prop :=
  match cmd.type with
  | .newOrder order =>
      order.status = .rejected ∨ 0 < order.quantity ∧ order.quantity ≤ 2 ^ 31 - 1
  | .cancelOrder => True
  | .modifyOrder _ newQty _ => newQty ≤ 2 ^ 31 - 1

namespace OrderEntryGateway

theorem checked_quantity (passed : Bool) (order : Order) :
    (checked passed order).quantity = order.quantity := by
  cases passed <;> rfl

/-- A new order that is not marked has a positive quantity. -/
theorem checkedOrder_sized (g : OrderEntryGateway) (sessionUuid : SessionUuid)
    (msg : NewOrderSingle514) (now : Int) :
    (OrderCommand.ofOrder (g.checkedOrder sessionUuid msg now)).Sized := by
  have hquantity : (g.checkedOrder sessionUuid msg now).quantity = decodeQty msg.orderQty := by
    simp only [checkedOrder, checked_quantity]
    rfl
  have hle := decodeQty_le msg.orderQty
  simp only [OrderCommand.Sized, OrderCommand.ofOrder, hquantity]
  rcases checked_cases (g.instrumentMgr.validateNewOrder
    (decodeNewOrderSingle sessionUuid msg)).valid (decodeNewOrderSingle sessionUuid msg) with
    ⟨hvalid, -⟩ | heq
  · rcases (validateNewOrder_valid_iff _ _).mp hvalid with ⟨instr, -, hvalid⟩
    exact Or.inr ⟨hvalid.quantity_pos, hle⟩
  · left
    have hmarked : ∀ passed, checked passed
        { decodeNewOrderSingle sessionUuid msg with status := .rejected } =
        { decodeNewOrderSingle sessionUuid msg with status := .rejected } :=
      checked_of_rejected rfl
    simp only [checkedOrder, heq, hmarked]

end OrderEntryGateway

/-- Every queued quantity is in order. -/
def Exchange.QueueSized (x : Exchange) : Prop :=
  ∀ cmd ∈ x.gateway.commandQueue, cmd.Sized

theorem Exchange.queueSized_step {x : Exchange} (hsized : x.QueueSized) (op : ExchangeOp) :
    (x.outcome op).exchange.QueueSized := by
  cases op with
  | addInstrument securityId => exact hsized
  | setTradingStatus securityId status => exact hsized
  | message sessionUuid now msg =>
      intro cmd hcmd
      cases msg with
      | newOrderSingle msg =>
          rcases List.mem_append.mp hcmd with hcmd | hcmd
          · exact hsized cmd hcmd
          · rw [List.mem_singleton.mp hcmd]
            exact x.gateway.checkedOrder_sized sessionUuid msg now
      | orderCancelReplaceRequest msg =>
          rcases List.mem_append.mp hcmd with hcmd | hcmd
          · exact hsized cmd hcmd
          · rw [List.mem_singleton.mp hcmd, ite_self]
            exact decodeQty_le msg.orderQty
      | orderCancelRequest msg =>
          rcases List.mem_append.mp hcmd with hcmd | hcmd
          · exact hsized cmd hcmd
          · rw [List.mem_singleton.mp hcmd]
            split <;> trivial
      | other templateId => exact hsized cmd hcmd
  | processNext clock =>
      intro cmd hcmd
      simp only [Exchange.outcome] at hcmd
      rw [x.commandQueue_processNext] at hcmd
      exact hsized cmd (List.mem_of_mem_tail hcmd)

/-! ## Runs -/

/-- A command that fits makes a request that fits. -/
theorem OrderCommand.fits_of_request {x : Exchange} {cmd : OrderCommand} {clock : Clock}
    {eop : EngineOp} (hsized : cmd.Sized)
    (hfits : cmd.type.Fits x cmd.cancelOrderId cmd.securityId) (hfresh : eop.Fresh)
    (hrequest : cmd.request clock x.engine = some eop) :
    EngineLaw.Admitted (fun _ s op => op.Fits s) x.engine eop := by
  intro s bop hroute
  rcases FullMatchingEngine.routed_of_route hroute with ⟨book, hrouted⟩
  cases OrderCommand.requests_of_request hrequest with
  | @newOrder order htype hnot =>
      cases hrouted with | submit hbook
      simp only [OrderCommand.Sized, htype] at hsized
      rw [htype] at hfits
      rcases hsized.resolve_left hnot with ⟨hpos, hle⟩
      refine ⟨hpos, hle, ?_⟩
      intro hrestable
      have hroom := hfits.resolve_left hnot book hbook hrestable
      have hremaining : (x.engine.stamped order
          (clock.order x.engine.nextOrderId)).remainingQty = order.quantity := by
        have hfilled : order.filledQty = 0 := hfresh.2
        simp [FullMatchingEngine.stamped, Order.remainingQty, hfilled]
      rw [hremaining, FullMatchingEngine.bookState, FullMatchingEngine.bookAt_of_some hbook]
      exact hroom
  | cancelOrder htype =>
      cases hrouted with | cancel hbook
      trivial
  | modifyOrder htype =>
      cases hrouted with | modify hbook
      simp only [OrderCommand.Sized, htype] at hsized
      rw [htype] at hfits
      intro r hr
      rw [FullMatchingEngine.bookState, FullMatchingEngine.bookAt_of_some hbook] at hr ⊢
      exact ⟨hsized, hfits book hbook r hr⟩

/-- What holds of the quantities of an exchange. -/
structure Exchange.QuantityInv (x : Exchange) : Prop where
  exchange_inv : ExchangeInv x
  queue_sized : x.QueueSized
  contained : ∀ s, Contained none [] x.engine.heap (x.engine.bookAt s)

namespace Exchange.QuantityInv

variable {x : Exchange} {op : ExchangeOp}

theorem init (mgr : InstrumentManager) (config : RiskConfig) :
    QuantityInv (.init mgr config) where
  exchange_inv := ExchangeInv.init mgr config
  queue_sized := by simp [QueueSized, Exchange.init]
  contained s := by
    refine ⟨?_, ?_, by simp⟩
    · intro r hr
      exact (BookInv.not_resting_empty s r (hr.resolve_right (by simp))).elim
    · intro side e he
      cases side <;> cases he

/-- The request of a step that fits. -/
theorem admitted (hinv : QuantityInv x) (hfits : op.Fits x) (eop : EngineOp)
    (hrequest : x.request op = some eop) :
    EngineLaw.Admitted (fun _ s op => op.Fits s) x.engine eop := by
  refine ExchangeInv.admitted_of_command ?_ eop hrequest
  rintro clock cmd eop rfl hcmd hrequest
  have hmem := List.mem_of_head? hcmd
  exact OrderCommand.fits_of_request (hinv.queue_sized cmd hmem) (hfits cmd hcmd)
    ((hinv.exchange_inv.queue_sound cmd hmem).fresh hrequest) hrequest

/-- One step that fits computes nothing out of range. -/
theorem inRange (hinv : QuantityInv x) (hfits : op.Fits x) :
    ∀ i ∈ x.ints op, InRange i := by
  unfold Exchange.ints
  cases hrequest : x.request op with
  | none => simp
  | some eop =>
      exact FullMatchingEngine.inRange_ints hinv.exchange_inv.engine_inv
        (hinv.exchange_inv.request_fresh hrequest) (hinv.admitted hfits eop hrequest)
        hinv.contained

/-- One step that fits keeps the quantities in order. -/
theorem step (hinv : QuantityInv x) (hfits : op.Fits x) :
    QuantityInv (x.outcome op).exchange where
  exchange_inv := hinv.exchange_inv.step op
  queue_sized := Exchange.queueSized_step hinv.queue_sized op
  contained s := by
    have hstep := ExchangeInv.law_outcome contained_engineLaw hinv.exchange_inv
      (hinv.admitted hfits) hinv.contained s
    exact ⟨hstep.held, hstep.total_le, hstep.room⟩

end Exchange.QuantityInv

/-- Along every run of commands that fit, every result of the quantity arithmetic of
the engine is a 32-bit integer. -/
theorem quantities_in_range (mgr : InstrumentManager) (config : RiskConfig)
    (ops : List ExchangeOp)
    (hadmits : Exchange.arithmetic.Admits (fun x op => op.Fits x) (.init mgr config) ops) :
    ∀ i ∈ (Exchange.arithmetic.run (.init mgr config) ops).2, InRange i := by
  have hrun := Machine.history_invariant
    (P := fun _ x ints => Exchange.QuantityInv x ∧ ∀ i ∈ ints, InRange i)
    ⟨Exchange.QuantityInv.init mgr config, by simp⟩ ?_ ops hadmits
  · exact hrun.2
  · intro _ x ints op hx hfits
    refine ⟨hx.1.step hfits, ?_⟩
    intro i hi
    rcases List.mem_append.mp hi with hi | hi
    · exact hx.2 i hi
    · exact hx.1.inRange hfits i hi

/-- A bid is filled in part, moved and raised. -/
theorem quantities_in_range_of_raised_bid :
    let mgr : InstrumentManager := .single { securityId := 7, tickMantissa := 25 }
    let clock : Clock := { order := fun _ => 0, report := fun _ => 0 }
    let ops : List ExchangeOp :=
      [.addInstrument 7,
        .message 1 2000000000 (.newOrderSingle
          { price := 100, orderQty := 5, securityID := 7, side := 1, ordType := 2 }),
        .message 2 2000000000 (.newOrderSingle
          { price := 100, orderQty := 2, securityID := 7, side := 2, ordType := 2 }),
        .message 1 2000000001 (.orderCancelReplaceRequest
          { price := 125, orderQty := 7, securityID := 7, orderID := 1 }),
        .processNext clock, .processNext clock, .processNext clock]
    ∀ i ∈ (Exchange.arithmetic.run (.init mgr {}) ops).2, InRange i :=
  quantities_in_range _ _ _ (by decide)

/-- A bid that has been filled in part is modified to the least 32-bit quantity. -/
theorem modified_bid_underflows :
    let mgr : InstrumentManager := .single { securityId := 7, tickMantissa := 25 }
    let clock : Clock := { order := fun _ => 0, report := fun _ => 0 }
    let ops : List ExchangeOp :=
      [.addInstrument 7,
        .message 1 2000000000 (.newOrderSingle
          { price := 100, orderQty := 5, securityID := 7, side := 1, ordType := 2 }),
        .message 2 2000000000 (.newOrderSingle
          { price := 100, orderQty := 2, securityID := 7, side := 2, ordType := 2 }),
        .message 1 2000000001 (.orderCancelReplaceRequest
          { price := 100, orderQty := 0x80000000, securityID := 7, orderID := 1 }),
        .processNext clock, .processNext clock, .processNext clock]
    ¬∀ i ∈ (Exchange.arithmetic.run (.init mgr {}) ops).2, InRange i := by
  decide

end SimCme
