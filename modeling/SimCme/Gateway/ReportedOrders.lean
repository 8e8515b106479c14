import SimCme.Gateway.ReportReading

/-!
# The orders a session is told of

A session sees its execution reports and nothing else of the exchange.  This file reads them
the way a trader keeps a list of working orders: a new order is added under its id, a fill
changes its filled quantity or takes it off the list, a modification changes its price and
quantity, a cancellation takes it off.  The list is right for every order of the session that
is in a book.

Main results:

- Theorem {lit}`UpToDate.respond`: the responses to an event keep a session's list in step with
  the blotter.
- Theorem {lit}`reports_tell_orders`: along every run each session's list has its orders in the
  books, and no order that has ended.
-/

namespace SimCme

open Library

/-! ## Lists of orders -/

/-- An order in the fields of the reports. -/
structure ReportedOrder where
  securityID : Int32
  price : Int64
  orderQty : UInt32
  cumQty : UInt32
deriving DecidableEq, Repr

def Line.reported (line : Line) : ReportedOrder where
  securityID := .ofInt line.securityId
  price := line.price.mantissa
  orderQty := wireQty line.quantity
  cumQty := wireQty line.filledQty

abbrev ReportedOrders :=
  UInt64 → Option ReportedOrder

namespace ReportedOrders

/-- Bring the list up to date with a report. -/
def see (orders : ReportedOrders) : SbeMessage → ReportedOrders
  | .executionReportNew msg =>
      Function.update orders msg.orderID
        (some ⟨msg.securityID, msg.price, msg.orderQty, 0⟩)
  | .executionReportTradeOutright msg =>
      Function.update orders msg.orderID
        (if msg.ordStatus = ordStatusToChar .filled then none
        else (orders msg.orderID).map fun order => { order with cumQty := msg.cumQty })
  | .executionReportModify msg =>
      Function.update orders msg.orderID ((orders msg.orderID).map fun order =>
        { order with price := msg.price, orderQty := msg.orderQty })
  | .executionReportCancel msg => Function.update orders msg.orderID none
  | _ => orders

/-- A session hears the responses that go to it. -/
def hear (sessionUuid : SessionUuid) (orders : ReportedOrders) (response : OrderResponse) :
    ReportedOrders :=
  if response.sessionUuid = sessionUuid then orders.see response.sbeMessage else orders

end ReportedOrders

/-- The list of a session after the responses of an exchange. -/
def reportedTo (sessionUuid : SessionUuid) (responses : List OrderResponse) : ReportedOrders :=
  responses.foldl (ReportedOrders.hear sessionUuid) fun _ => none

/-! ## The blotter as a session sees it -/

/-- A line of the session, in the fields of the reports. -/
def shownTo (sessionUuid : SessionUuid) (line : Option Line) : Option ReportedOrder :=
  (line.filter fun line => line.sessionUuid = sessionUuid).map Line.reported

theorem shownTo_self (line : Line) : shownTo line.sessionUuid (some line) = some line.reported := by
  simp [shownTo]

theorem shownTo_of_ne {u : SessionUuid} {line : Option Line}
    (hline : ∀ l ∈ line, l.sessionUuid ≠ u) : shownTo u line = none := by
  cases line with
  | none => rfl
  | some l => simp [shownTo, hline l rfl]

/-- The list has the session's lines of the blotter and no others. -/
def UpToDate (u : SessionUuid) (lines : Blotter) (orders : ReportedOrders) : Prop :=
  ∀ id < 2 ^ 64, orders (.ofNat id) = shownTo u (lines id)

namespace UpToDate

variable {u : SessionUuid} {lines : Blotter} {orders orders' : ReportedOrders} {id : OrderId}

/-- A change at one id. -/
theorem update (htold : UpToDate u lines orders) (hid : id < 2 ^ 64) {l : Option Line}
    (hself : orders' (.ofNat id) = shownTo u l)
    (hother : ∀ key, key ≠ .ofNat id → orders' key = orders key) :
    UpToDate u (Function.update lines id l) orders' := by
  intro id' hid'
  by_cases hsame : id' = id
  · rw [hsame, Function.update_self, hself]
  · rw [Function.update_of_ne hsame, hother _ (orderID_ne hid' hid hsame)]
    exact htold id' hid'

/-- A report that changes no list. -/
theorem quiet (htold : UpToDate u lines orders) {response : OrderResponse}
    (hquiet : orders.see response.sbeMessage = orders) :
    UpToDate u lines (orders.hear u response) := by
  rwa [ReportedOrders.hear, hquiet, ite_self]

/-- A report to the session of a line that changes that line. -/
theorem hear (htold : UpToDate u lines orders) (hid : id < 2 ^ 64) {session : SessionUuid}
    {l : Option Line} {msg : SbeMessage} {new : Option ReportedOrder}
    (hsee : orders.see msg = Function.update orders (.ofNat id) new)
    (hmine : session = u → new = shownTo u l)
    (hothers : session ≠ u → shownTo u (lines id) = shownTo u l) :
    UpToDate u (Function.update lines id l) (orders.hear u ⟨session, msg⟩) := by
  by_cases hsession : session = u
  · rw [ReportedOrders.hear, if_pos hsession, hsee]
    refine htold.update hid ?_ ?_
    · rw [Function.update_self]
      exact hmine hsession
    · intro key hkey
      exact Function.update_of_ne hkey _ _
  · rw [ReportedOrders.hear, if_neg hsession]
    exact htold.update hid ((htold id hid).trans (hothers hsession)) fun _ _ => rfl

/-- A report that changes an open line and leaves it to its session. -/
theorem rewrite (htold : UpToDate u lines orders) (hid : id < 2 ^ 64) {line : Line}
    (hline : lines id = some line) {l : Option Line}
    (hl : ∀ l' ∈ l, l'.sessionUuid = line.sessionUuid) {msg : SbeMessage}
    {new : Option ReportedOrder}
    (hsee : orders.see msg = Function.update orders (.ofNat id) new)
    (hnew : orders (.ofNat id) = some line.reported → new = l.map Line.reported) :
    UpToDate u (Function.update lines id l) (orders.hear u ⟨line.sessionUuid, msg⟩) := by
  refine htold.hear hid hsee ?_ ?_
  · rintro rfl
    have hshown := htold id hid
    rw [hline, shownTo_self] at hshown
    rw [hnew hshown]
    cases l with
    | none => rfl
    | some l' => simp [shownTo, hl l' rfl]
  · intro hsession
    have hold : ∀ l' ∈ lines id, l'.sessionUuid ≠ u := by
      intro l' hl'
      rw [hline] at hl'
      cases hl'
      exact hsession
    rw [shownTo_of_ne hold, shownTo_of_ne]
    intro l' hl' heq
    exact hsession ((hl l' hl').symm.trans heq)

/-- The report of one side of a fill. -/
theorem book (htold : UpToDate u lines orders) {fill : OrderFilled} {side : FillSide}
    (hid : side.orderId < 2 ^ 64) {line : Line} (hline : lines side.orderId = some line)
    (hfilled : line.FilledBy fill side) {msg : ExecutionReportTradeOutright525}
    (horder : msg.orderID = .ofNat side.orderId) (hcum : msg.cumQty = wireQty side.cumQty)
    (hstatus : msg.ordStatus = ordStatusToChar side.ordStatus) :
    UpToDate u (lines.book side)
      (orders.hear u ⟨side.sessionUuid, .executionReportTradeOutright msg⟩) := by
  have hsee : orders.see (.executionReportTradeOutright msg) =
      Function.update orders (.ofNat side.orderId)
        (if msg.ordStatus = ordStatusToChar .filled then none
        else (orders (.ofNat side.orderId)).map fun order =>
          { order with cumQty := msg.cumQty }) := by
    rw [← horder]
    rfl
  rw [hfilled.sessionUuid]
  refine htold.rewrite hid hline ?_ hsee ?_
  · intro l' hl'
    split at hl'
    · contradiction
    · rw [hline] at hl'
      cases hl'
      rfl
  · intro hshown
    rw [hstatus, hfilled.ordStatus, hshown, hline]
    by_cases hleaves : side.leavesQty = 0
    · rw [if_pos hleaves, if_pos hleaves, if_pos rfl]
      rfl
    · have hopen : ordStatusToChar .partiallyFilled ≠ ordStatusToChar .filled := by
        decide
      rw [if_neg hleaves, if_neg hleaves, if_neg hopen, hcum]
      rfl

/-- The responses to an event that fits the blotter. -/
theorem respond (htold : UpToDate u lines orders) {e : EngineEvent} (hexpects : lines.Expects e)
    (hids : ∀ id, e.Mentions id → id < 2 ^ 64) (g : OrderEntryGateway) (clock : Clock) :
    UpToDate u (lines.see e) ((g.respond clock e).2.foldl (ReportedOrders.hear u) orders) := by
  cases e with
  | orderAccepted e =>
      have hnone : lines e.orderId = none := hexpects
      refine htold.hear (hids _ rfl) rfl ?_ ?_
      · rintro rfl
        exact (shownTo_self e.line).symm
      · intro hsession
        have hshown : shownTo u (some e.line) = none := by
          apply shownTo_of_ne
          intro l hl
          cases hl
          exact hsession
        rw [hnone, hshown]
        rfl
  | orderRejected e =>
      exact htold.quiet rfl
  | orderFilled e =>
      rcases hexpects with ⟨-, hne, ⟨maker, hmaker, hmakerFilled, -⟩, taker, htaker, htakerFilled⟩
      have htaker' : (lines.book e.makerSide) e.takerSide.orderId = some taker :=
        (Blotter.book_of_ne lines hne.symm).trans htaker
      exact (htold.book (hids _ (.inl rfl)) hmaker hmakerFilled rfl rfl rfl).book
        (hids _ (.inr rfl)) htaker' htakerFilled rfl rfl rfl
  | orderCancelled e =>
      rcases hexpects with ⟨line, hline, hcancelled⟩
      simp only [OrderEntryGateway.respond, OrderEntryGateway.respondWith, List.foldl_cons,
        List.foldl_nil]
      rw [hcancelled.sessionUuid]
      exact htold.rewrite (hids _ rfl) hline (by simp) rfl fun _ => rfl
  | orderModified e =>
      rcases hexpects with ⟨line, hline, hmodified⟩
      simp only [OrderEntryGateway.respond, OrderEntryGateway.respondWith, List.foldl_cons,
        List.foldl_nil]
      rw [hmodified.sessionUuid]
      refine htold.rewrite (hids _ rfl) hline ?_ rfl ?_
      · intro l hl
        rw [Option.mem_def.mp hline] at hl
        cases hl
        rfl
      · intro hshown
        rw [Option.mem_def.mp hline, hshown]
        rfl
  | orderCancelRejected e =>
      exact htold.quiet rfl
  | bookUpdate e => exact htold

end UpToDate

/-- A session's list reads the reports. -/
theorem upToDate_reading (u : SessionUuid) :
    Reading (fun es => UpToDate u (blotter es)) (ReportedOrders.hear u) where
  respond := by
    intro es orders e g clock htold hexpects hids
    rw [blotter_append]
    exact htold.respond hexpects hids g clock
  skip := by
    intro es orders e htold hsilent
    rw [blotter_append, (follows_of_silent _ (List.forall_mem_singleton.mpr hsilent)).seen_eq]
    exact htold
  reject _ _ htold := htold.quiet rfl

/-- Along every run each session's list has the session's orders in the books, as they stand,
and no order that has ended. -/
theorem reports_tell_orders (mgr : InstrumentManager) (config : RiskConfig)
    (ops : List ExchangeOp)
    (hids : (Exchange.machine.run (.init mgr config) ops).1.engine.nextOrderId ≤ 2 ^ 64) :
    let r := Exchange.machine.run (.init mgr config) ops
    let rs := (Exchange.reporter.run (.init mgr config) ops).2
    (∀ s book o, r.1.engine.orderBooks s = some book → book.Resting o →
      let order := r.1.engine.heap.read o
      ∀ u, reportedTo u rs (.ofNat order.orderId) =
        if order.sessionUuid = u then some order.line.reported else none) ∧
      ∀ id < 2 ^ 64, (∃ y ∈ r.2, y.Terminal id) → ∀ u, reportedTo u rs (.ofNat id) = none := by
  intro r rs
  have hinformed : ∀ u, Informed (fun es => UpToDate u (blotter es)) (reportedTo u rs) r.1 r.2 :=
    fun u => (upToDate_reading u).run (fun _ _ => rfl) mgr config ops
  constructor
  · intro s book o hbook ho order u
    rcases (hinformed u).resting hids hbook ho with ⟨hlt, hline⟩
    refine ((hinformed u).told hids order.orderId hlt).trans ?_
    rw [hline]
    split
    · rename_i hsession
      subst hsession
      exact shownTo_self order.line
    · rename_i hsession
      apply shownTo_of_ne
      intro l hl
      cases hl
      exact hsession
  · rintro id hid ⟨y, hy, hterminal⟩ u
    have hclosed := line_of_ended ((hinformed u).blotted 0).follows ((hinformed u).final 0).final hy
      hterminal
    refine ((hinformed u).told hids id hid).trans ?_
    rw [hclosed]
    rfl

/-- A session's bid is filled in part by another session, and reduced. -/
theorem reports_tell_orders_of_reduced_bid :
    let mgr : InstrumentManager := .single { securityId := 7, tickMantissa := 25 }
    let clock : Clock := { order := fun _ => 0, report := fun _ => 0 }
    let ops : List ExchangeOp :=
      [.addInstrument 7,
        .message 3 2000000000 (.newOrderSingle
          { price := 100, orderQty := 5, securityID := 7, side := 1, ordType := 2 }),
        .message 4 2000000001 (.newOrderSingle
          { price := 100, orderQty := 2, securityID := 7, side := 2, ordType := 2 }),
        .message 3 2000000002 (.orderCancelReplaceRequest
          { price := 75, orderQty := 4, securityID := 7, orderID := 1 }),
        .processNext clock, .processNext clock, .processNext clock]
    let r := Exchange.machine.run (.init mgr {}) ops
    let rs := (Exchange.reporter.run (.init mgr {}) ops).2
    (∀ s book o, r.1.engine.orderBooks s = some book → book.Resting o →
      let order := r.1.engine.heap.read o
      ∀ u, reportedTo u rs (.ofNat order.orderId) =
        if order.sessionUuid = u then some order.line.reported else none) ∧
      ∀ id < 2 ^ 64, (∃ y ∈ r.2, y.Terminal id) → ∀ u, reportedTo u rs (.ofNat id) = none :=
  reports_tell_orders _ _ _ (by decide +kernel)

end SimCme
