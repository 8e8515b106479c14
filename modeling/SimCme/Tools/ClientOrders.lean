import SimCme.Gateway.ReportReading
import SimCme.Tools.ILink3Client

/-!
# The orders a client tracks

The client names the orders it has been told of: a new order enters its map, and a cancelled
one leaves it.  A fill changes nothing there, so the map keeps orders that have been filled.
Read against the exchange it names every order of the session that is in a book.

Main results:

- Theorem {lit}`ClientSession.readMessage_toBytes`: what the client does with a report.
- Theorem {lit}`client_tracks_orders`: the client's map along every run of the exchange.
-/

namespace SimCme

open Library

/-! ## The client's map -/

abbrev OrderMap :=
  UInt64 → Option (List UInt8)

namespace OrderMap

/-- What a report does to the map. -/
def track (orderMap : OrderMap) : SbeMessage → OrderMap
  | .executionReportNew er =>
      Function.update orderMap er.orderID (some (readFixedString er.clOrdID))
  | .executionReportCancel er => Function.update orderMap er.orderID none
  | _ => orderMap

/-- A session hears the responses that go to it. -/
def hear (sessionUuid : SessionUuid) (orderMap : OrderMap) (response : OrderResponse) : OrderMap :=
  if response.sessionUuid = sessionUuid then orderMap.track response.sbeMessage else orderMap

end OrderMap

/-- The bytes of the responses that go to a session. -/
def payloadsTo (sessionUuid : SessionUuid) (responses : List OrderResponse) :
    List (List UInt8) :=
  (responses.filter fun response => response.sessionUuid = sessionUuid).map fun response =>
    response.sbeMessage.toBytes

namespace ClientSession

/-- The reader thread reads payloads one after the other. -/
def readAll (session : ClientSession) (payload : ReaderBuffer) :
    List (List UInt8) → ClientSession × ReaderBuffer
  | [] => (session, payload)
  | data :: rest =>
      let read := session.readMessage payload data
      read.1.readAll read.2 rest

section

variable {σ : Type} (format : MessageFormat σ) (buf : List UInt8) (msg : σ)

theorem decodeTemplateId_readInto :
    MessageHeader.decodeTemplateId (readInto buf (format.toBytes msg)) = some format.templateId :=
  format.decodeTemplateId_append msg _

theorem decode_readInto (old : σ) :
    format.decode old (readInto buf (format.toBytes msg)) 0 = some msg :=
  format.decode_append msg old [] _

theorem not_toBytes_lt_header : ¬(format.toBytes msg).length < MessageHeader.layout.size := by
  rw [format.length_toBytes, not_lt]
  exact Nat.le_add_right _ _

end

/-- A report changes the client's map, whatever the buffer held. -/
theorem processMessage_toBytes (session : ClientSession) (buf : List UInt8) (msg : SbeMessage) :
    ∃ session', session.processMessage (readInto buf msg.toBytes) msg.toBytes.length =
      some session' ∧ session'.orderMap = OrderMap.track session.orderMap msg := by
  cases msg <;>
    simp only [processMessage, SbeMessage.toBytes, not_toBytes_lt_header, if_false,
      decodeTemplateId_readInto, decode_readInto, Option.bind_eq_bind, Option.bind_some, if_true]
  -- the earlier branches are those of other templates
  all_goals repeat rw [if_neg (by decide)]
  case executionReportNew er =>
    refine ⟨_, rfl, ?_⟩
    funext id
    exact (Function.update_apply _ _ _ _).symm
  case executionReportCancel er =>
    refine ⟨_, rfl, ?_⟩
    funext id
    exact (Function.update_apply _ _ _ _).symm
  all_goals exact ⟨_, rfl, rfl⟩

/-- The reader thread reads a report. -/
theorem readMessage_toBytes (session : ClientSession) (payload : ReaderBuffer)
    (msg : SbeMessage) :
    (session.readMessage payload msg.toBytes).1.orderMap = OrderMap.track session.orderMap msg := by
  rcases session.processMessage_toBytes payload.1 msg with ⟨session', hprocessed, htrack⟩
  rw [← htrack]
  exact congrArg ClientSession.orderMap (Option.get_of_eq_some _ hprocessed)

theorem readAll_payloadsTo (session : ClientSession) (payload : ReaderBuffer) (u : SessionUuid)
    (responses : List OrderResponse) :
    (session.readAll payload (payloadsTo u responses)).1.orderMap =
      responses.foldl (OrderMap.hear u) session.orderMap := by
  induction responses generalizing session payload with
  | nil => rfl
  | cons response responses ih =>
      rw [List.foldl_cons, OrderMap.hear]
      by_cases hsession : response.sessionUuid = u
      · have hpayloads : payloadsTo u (response :: responses) =
            response.sbeMessage.toBytes :: payloadsTo u responses := by
          simp [payloadsTo, hsession]
        rw [hpayloads, if_pos hsession, readAll, ih, readMessage_toBytes]
      · have hpayloads : payloadsTo u (response :: responses) = payloadsTo u responses := by
          simp [payloadsTo, hsession]
        rw [hpayloads, if_neg hsession]
        exact ih session payload

end ClientSession

/-! ## The map against the events -/

/-- The name a report gives an order. -/
def reportedName (clOrdId : ClOrdId) : List UInt8 :=
  readFixedString (writeFixedString 20 clOrdId)

/-- The map after the responses to an event. -/
def OrderMap.after (u : SessionUuid) (orderMap : OrderMap) : EngineEvent → OrderMap
  | .orderAccepted e =>
      if e.sessionUuid = u then
        Function.update orderMap (.ofNat e.orderId) (some (reportedName e.clOrdId))
      else orderMap
  | .orderCancelled e =>
      if e.sessionUuid = u then Function.update orderMap (.ofNat e.orderId) none else orderMap
  | _ => orderMap

theorem OrderMap.foldl_respond (u : SessionUuid) (orderMap : OrderMap) (g : OrderEntryGateway)
    (clock : Clock) (e : EngineEvent) :
    (g.respond clock e).2.foldl (OrderMap.hear u) orderMap = orderMap.after u e := by
  cases e with
  | orderAccepted e => rfl
  | orderRejected e => exact ite_self orderMap
  | orderFilled e =>
      have hquiet : ∀ (session : SessionUuid) (msg : ExecutionReportTradeOutright525),
          orderMap.hear u ⟨session, .executionReportTradeOutright msg⟩ = orderMap :=
        fun _ _ => ite_self orderMap
      simp only [OrderEntryGateway.respond, OrderEntryGateway.respondWith,
        ExecReportBuilder.buildExecutionReportFill, ExecReportBuilder.built,
        List.singleton_append, List.foldl_cons, List.foldl_nil, hquiet]
      rfl
  | orderCancelled e => rfl
  | orderModified e => exact ite_self orderMap
  | orderCancelRejected e => exact ite_self orderMap
  | bookUpdate e => rfl

/-- The responses to an event change the map at the id of that event only. -/
theorem OrderMap.after_of_not_mentions (u : SessionUuid) (orderMap : OrderMap) {e : EngineEvent}
    {id : OrderId} (hid : id < 2 ^ 64) (hids : ∀ id, e.Mentions id → id < 2 ^ 64)
    (hmentions : ¬e.Mentions id) : orderMap.after u e (.ofNat id) = orderMap (.ofNat id) := by
  cases e with
  | orderAccepted e =>
      have hkey := orderID_ne hid (hids _ rfl) (Ne.symm hmentions)
      rw [OrderMap.after]
      split
      · exact Function.update_of_ne hkey _ _
      · rfl
  | orderCancelled e =>
      have hkey := orderID_ne hid (hids _ rfl) (Ne.symm hmentions)
      rw [OrderMap.after]
      split
      · exact Function.update_of_ne hkey _ _
      · rfl
  | _ => rfl

/-- A line that a fill leaves open was open before, for the same session. -/
theorem Blotter.book_cases {lines : Blotter} {side : FillSide} {id : OrderId} {line : Line}
    (hline : lines.book side id = some line) :
    ∃ old, lines id = some old ∧ old.sessionUuid = line.sessionUuid := by
  by_cases hid : id = side.orderId
  · subst hid
    rw [Blotter.book, Function.update_self] at hline
    split at hline
    · contradiction
    · rcases Option.map_eq_some_iff.mp hline with ⟨old, hold, rfl⟩
      exact ⟨old, hold, rfl⟩
  · rw [Blotter.book_of_ne lines hid] at hline
    exact ⟨line, hline, rfl⟩

/-- An open line was open before, for the same session, or has just been opened. -/
theorem Blotter.see_cases {lines : Blotter} {e : EngineEvent} {id : OrderId} {line : Line}
    (hline : lines.see e id = some line) :
    (∃ a, e = .orderAccepted a ∧ a.orderId = id ∧ a.sessionUuid = line.sessionUuid) ∨
      (∀ c, e = .orderCancelled c → c.orderId ≠ id) ∧
        ∃ old, lines id = some old ∧ old.sessionUuid = line.sessionUuid := by
  cases e with
  | orderAccepted e =>
      by_cases hid : id = e.orderId
      · subst hid
        rw [Blotter.see, Function.update_self] at hline
        cases hline
        exact .inl ⟨e, rfl, rfl, rfl⟩
      · rw [Blotter.see, Function.update_of_ne hid] at hline
        exact .inr ⟨by simp, line, hline, rfl⟩
  | orderFilled e =>
      rcases Blotter.book_cases hline with ⟨middle, hmiddle, hsame⟩
      rcases Blotter.book_cases hmiddle with ⟨old, hold, hsame'⟩
      exact .inr ⟨by simp, old, hold, hsame'.trans hsame⟩
  | orderCancelled e =>
      by_cases hid : id = e.orderId
      · rw [Blotter.see, hid, Function.update_self] at hline
        contradiction
      · rw [Blotter.see, Function.update_of_ne hid] at hline
        refine .inr ⟨?_, line, hline, rfl⟩
        intro c hc
        cases hc
        exact Ne.symm hid
  | orderModified e =>
      by_cases hid : id = e.orderId
      · rw [Blotter.see, hid, Function.update_self] at hline
        rcases Option.map_eq_some_iff.mp hline with ⟨old, hold, rfl⟩
        exact .inr ⟨by simp, old, hid ▸ hold, rfl⟩
      · rw [Blotter.see, Function.update_of_ne hid] at hline
        exact .inr ⟨by simp, line, hline, rfl⟩
  | orderRejected e => exact .inr ⟨by simp, line, hline, rfl⟩
  | orderCancelRejected e => exact .inr ⟨by simp, line, hline, rfl⟩
  | bookUpdate e => exact .inr ⟨by simp, line, hline, rfl⟩

/-- A silent event speaks of no order. -/
theorem EngineEvent.Silent.not_mentions {e : EngineEvent} (hsilent : e.Silent) {id : OrderId} :
    ¬e.Mentions id := by
  have hempty := (hsilent fun _ => none).1
  cases e with
  | orderAccepted e =>
      have hopen := (hsilent fun _ => some e.line).1
      simp [Blotter.Expects] at hopen
  | orderFilled e => simp [Blotter.Expects] at hempty
  | orderCancelled e => simp [Blotter.Expects] at hempty
  | orderModified e => simp [Blotter.Expects] at hempty
  | _ => exact not_false

/-- What the client's map says of the history. -/
structure NamesOrders (u : SessionUuid) (es : List EngineEvent) (orderMap : OrderMap) : Prop where
  covers : ∀ id < 2 ^ 64, ∀ line, blotter es id = some line → line.sessionUuid = u →
    (orderMap (.ofNat id)).isSome
  own : ∀ id < 2 ^ 64, ∀ name, orderMap (.ofNat id) = some name →
    ∃ a, .orderAccepted a ∈ es ∧ a.orderId = id ∧ a.sessionUuid = u ∧
      name = reportedName a.clOrdId
  dropped : es.Pairwise Respects → ∀ c, .orderCancelled c ∈ es → c.sessionUuid = u →
    c.orderId < 2 ^ 64 → orderMap (.ofNat c.orderId) = none

namespace NamesOrders

variable {u : SessionUuid} {es : List EngineEvent} {orderMap : OrderMap} {e : EngineEvent}

theorem empty (u : SessionUuid) : NamesOrders u [] fun _ => none where
  covers := by
    intro id _ line hline
    cases hline
  own := by
    intro id _ name hname
    cases hname
  dropped := by simp

/-- An event and the responses to it. -/
theorem after (hnames : NamesOrders u es orderMap) (hids : ∀ id, e.Mentions id → id < 2 ^ 64) :
    NamesOrders u (es ++ [e]) (orderMap.after u e) where
  covers := by
    intro id hid line hline hsession
    rw [blotter_append] at hline
    rcases Blotter.see_cases hline with ⟨a, rfl, rfl, hsame⟩ | ⟨hopen, old, hold, hsame⟩
    · rw [OrderMap.after, if_pos (hsame.trans hsession), Function.update_self]
      rfl
    · have hcovered := hnames.covers id hid old hold (hsame.trans hsession)
      by_cases hmentions : e.Mentions id
      · cases e with
        | orderAccepted e =>
            cases hmentions
            rw [OrderMap.after]
            split
            · rw [Function.update_self]
              rfl
            · exact hcovered
        | orderCancelled e => exact (hopen e rfl hmentions).elim
        | _ => exact hcovered
      · rwa [OrderMap.after_of_not_mentions u orderMap hid hids hmentions]
  own := by
    intro id hid name hname
    by_cases hold : orderMap (.ofNat id) = some name
    · rcases hnames.own id hid name hold with ⟨a, ha, hown⟩
      exact ⟨a, List.mem_append_left _ ha, hown⟩
    · -- The name is new, so the event is an acceptance of the session.
      have hmentions : e.Mentions id := by
        by_contra hnot
        rw [OrderMap.after_of_not_mentions u orderMap hid hids hnot] at hname
        exact hold hname
      cases e with
      | orderAccepted e =>
          cases hmentions
          rw [OrderMap.after] at hname
          split at hname
          · rename_i hsession
            rw [Function.update_self, Option.some.injEq] at hname
            exact ⟨e, List.mem_append_right _ List.mem_cons_self, rfl, hsession, hname.symm⟩
          · exact (hold hname).elim
      | orderCancelled e =>
          cases hmentions
          rw [OrderMap.after] at hname
          split at hname
          · rw [Function.update_self] at hname
            contradiction
          · exact (hold hname).elim
      | _ => exact (hold hname).elim
  dropped := by
    intro hpairwise c hc hsession hid
    rw [List.pairwise_append] at hpairwise
    rcases List.mem_append.mp hc with hc | hc
    · have hmentions : ¬e.Mentions c.orderId :=
        hpairwise.2.2 _ hc e List.mem_cons_self c.orderId rfl
      rw [OrderMap.after_of_not_mentions u orderMap hid hids hmentions]
      exact hnames.dropped hpairwise.1 c hc hsession hid
    · rw [← List.mem_singleton.mp hc, OrderMap.after, if_pos hsession, Function.update_self]

end NamesOrders

/-- The client's map reads the reports. -/
theorem namesOrders_reading (u : SessionUuid) : Reading (NamesOrders u) (OrderMap.hear u) where
  respond := by
    intro es orderMap e g clock hnames _ hids
    rw [OrderMap.foldl_respond]
    exact hnames.after hids
  skip := by
    intro es orderMap e hnames hsilent
    have hafter := hnames.after (e := e) fun _ hmentions => (hsilent.not_mentions hmentions).elim
    cases e with
    | orderAccepted e => exact (hsilent.not_mentions rfl).elim
    | orderCancelled e => exact (hsilent.not_mentions rfl).elim
    | _ => exact hafter
  reject := by
    intro es orderMap sessionUuid msg hnames
    have hquiet : orderMap.hear u ⟨sessionUuid, .executionReportReject msg⟩ = orderMap :=
      ite_self orderMap
    rwa [hquiet]

/-- Along every run of the exchange, a client that reads the reports to its session names every
order of the session in a book, no order whose cancellation went to the session, and only orders
accepted for the session, under the names they were entered with. -/
theorem client_tracks_orders (mgr : InstrumentManager) (config : RiskConfig)
    (ops : List ExchangeOp)
    (hids : (Exchange.machine.run (.init mgr config) ops).1.engine.nextOrderId ≤ 2 ^ 64)
    (u : SessionUuid) (session : ClientSession) (hsession : session.orderMap = fun _ => none)
    (payload : ReaderBuffer) :
    let r := Exchange.machine.run (.init mgr config) ops
    let rs := (Exchange.reporter.run (.init mgr config) ops).2
    let client := (session.readAll payload (payloadsTo u rs)).1
    (∀ s book o, r.1.engine.orderBooks s = some book → book.Resting o →
      (r.1.engine.heap.read o).sessionUuid = u →
      (client.orderMap (.ofNat (r.1.engine.heap.read o).orderId)).isSome) ∧
      (∀ c, .orderCancelled c ∈ r.2 → c.sessionUuid = u →
        client.orderMap (.ofNat c.orderId) = none) ∧
      ∀ id < 2 ^ 64, ∀ name, client.orderMap (.ofNat id) = some name →
        ∃ a, .orderAccepted a ∈ r.2 ∧ a.orderId = id ∧ a.sessionUuid = u ∧
          name = reportedName a.clOrdId := by
  intro r rs client
  have hinformed : Informed (NamesOrders u) client.orderMap r.1 r.2 := by
    have hrun := (namesOrders_reading u).run (.empty u) mgr config ops
    rwa [← hsession, ← session.readAll_payloadsTo payload] at hrun
  have hnames := hinformed.told hids
  refine ⟨?_, ?_, hnames.own⟩
  · intro s book o hbook ho hu
    rcases hinformed.resting hids hbook ho with ⟨hlt, hline⟩
    exact hnames.covers _ hlt _ hline hu
  · intro c hc hu
    exact hnames.dropped (hinformed.final 0).final c hc hu
      (hinformed.lt_of_mentions hids hc rfl)

/-- A client enters a bid that is filled in part and an ask, and cancels the bid. -/
theorem client_tracks_orders_of_cancelled_bid :
    let mgr : InstrumentManager := .single { securityId := 7, tickMantissa := 25 }
    let clock : Clock := { order := fun _ => 0, report := fun _ => 0 }
    let ops : List ExchangeOp :=
      [.addInstrument 7,
        .message 3 2000000000 (.newOrderSingle
          { price := 100, orderQty := 5, securityID := 7, side := 1, ordType := 2 }),
        .message 4 2000000001 (.newOrderSingle
          { price := 100, orderQty := 2, securityID := 7, side := 2, ordType := 2 }),
        .message 3 2000000002 (.newOrderSingle
          { price := 125, orderQty := 4, securityID := 7, side := 2, ordType := 2 }),
        .message 3 2000000003 (.orderCancelRequest { orderID := 1, securityID := 7 }),
        .processNext clock, .processNext clock, .processNext clock, .processNext clock]
    let payload : ReaderBuffer := ⟨List.replicate 65536 0, List.length_replicate.ge⟩
    let r := Exchange.machine.run (.init mgr {}) ops
    let rs := (Exchange.reporter.run (.init mgr {}) ops).2
    let client := (({} : ClientSession).readAll payload (payloadsTo 3 rs)).1
    (∀ s book o, r.1.engine.orderBooks s = some book → book.Resting o →
      (r.1.engine.heap.read o).sessionUuid = 3 →
      (client.orderMap (.ofNat (r.1.engine.heap.read o).orderId)).isSome) ∧
      (∀ c, .orderCancelled c ∈ r.2 → c.sessionUuid = 3 →
        client.orderMap (.ofNat c.orderId) = none) ∧
      ∀ id < 2 ^ 64, ∀ name, client.orderMap (.ofNat id) = some name →
        ∃ a, .orderAccepted a ∈ r.2 ∧ a.orderId = id ∧ a.sessionUuid = 3 ∧
          name = reportedName a.clOrdId :=
  client_tracks_orders _ _ _ (by decide +kernel) 3 {} rfl _

end SimCme
