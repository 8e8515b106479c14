import SimCme.Engine.Recipients
import SimCme.Fixp.SessionCalls
import SimCme.Gateway.ClientOrderIds
import SimCme.Server.ExchangeServer

/-!
# Where reports go

A report leaves the engine with the id of the session that submitted the order, waits
among the responses, and is routed to whatever session then has that id.  It is kept
there, and sent again when the client asks.  Session ids are not given twice, so that a
report reaches the connection its order came in on or nobody.

Main results:

- Theorem {lit}`Exchange.advances_processNext`: the responses to a command are for the
  owners of the orders they report on.
- Theorem {lit}`ExchangeServer.Private.step`: what every step of the threads keeps.
- Theorem {lit}`reports_stay_private`: over every run of the server, all reports on an
  order go to one session, which has handed in an order before.
-/

open Library

namespace SimCme

/-! ## Addresses -/

/-- The bytes are a report on the order of an id. -/
def ReportsOn (sbeData : List UInt8) (orderID : UInt64) : Prop :=
  ∃ msg report, SbeMessage.ofBytes sbeData = some msg ∧ msg.orderReport = some report ∧
    report.orderID = orderID

/-- What a message reports on belongs to the session. -/
def Addressed (h : Heap Order) (uuid : UInt64) (sbeData : List UInt8) : Prop :=
  ∀ orderID, ReportsOn sbeData orderID →
    ∃ id owner, OwnedBy h (id, owner) ∧ orderID = .ofNat id ∧ uuid = .ofNat owner

theorem Addressed.of_identity {h h' : Heap Order} {uuid : UInt64} {sbeData : List UInt8}
    (haddressed : Addressed h uuid sbeData) (hnext : h.next ≤ h'.next)
    (hidentity : ∀ r < h.next, (h'.read r).identity = (h.read r).identity) :
    Addressed h' uuid sbeData := by
  intro orderID hreports
  rcases haddressed orderID hreports with ⟨id, owner, howned, hid, huuid⟩
  exact ⟨id, owner, howned.of_identity hnext hidentity, hid, huuid⟩

/-- The order a response reports on belongs to its session. -/
def OrderResponse.ForOwner (h : Heap Order) (resp : OrderResponse) : Prop :=
  ∀ report, resp.sbeMessage.orderReport = some report →
    ∃ id, OwnedBy h (id, resp.sessionUuid) ∧ report.orderID = .ofNat id

theorem OrderResponse.ForOwner.of_identity {h h' : Heap Order} {resp : OrderResponse}
    (hresp : resp.ForOwner h) (hnext : h.next ≤ h'.next)
    (hidentity : ∀ r < h.next, (h'.read r).identity = (h.read r).identity) :
    resp.ForOwner h' := by
  intro report hreport
  rcases hresp report hreport with ⟨id, howned, hid⟩
  exact ⟨id, howned.of_identity hnext hidentity, hid⟩

theorem OrderResponse.ForOwner.addressed {h : Heap Order} {resp : OrderResponse}
    (hresp : resp.ForOwner h) :
    Addressed h (.ofNat resp.sessionUuid) resp.sbeMessage.toBytes := by
  rintro orderID ⟨msg, report, hbytes, hreport, rfl⟩
  rw [SbeMessage.ofBytes_toBytes] at hbytes
  cases hbytes
  rcases hresp report hreport with ⟨id, howned, hid⟩
  exact ⟨id, _, howned, hid, rfl⟩

/-- The reports of an event are for the owners of its orders. -/
theorem OrderEntryGateway.forOwner_of_respond {g : OrderEntryGateway} {clock : Clock}
    {h : Heap Order} {e : EngineEvent} (he : ∀ p ∈ e.parties, OwnedBy h p) :
    ∀ resp ∈ (g.respond clock e).2, resp.ForOwner h := by
  intro resp hresp report hreport
  cases e with
  | orderAccepted e | orderCancelled e | orderModified e =>
      cases List.mem_singleton.mp hresp
      cases hreport
      exact ⟨_, he _ (List.mem_singleton.mpr rfl), rfl⟩
  | orderRejected e | orderCancelRejected e =>
      cases List.mem_singleton.mp hresp
      contradiction
  | orderFilled e =>
      rcases List.mem_append.mp hresp with hresp | hresp
      · cases List.mem_singleton.mp hresp
        cases hreport
        exact ⟨_, he _ List.mem_cons_self, rfl⟩
      · cases List.mem_singleton.mp hresp
        cases hreport
        exact ⟨_, he _ (List.mem_cons_of_mem _ List.mem_cons_self), rfl⟩
  | bookUpdate u => simp [respond] at hresp

theorem OrderEntryGateway.forOwner_of_responder {handles : EngineEvent → Bool} {clock : Clock}
    {h : Heap Order} {es : List EngineEvent} (hes : Told es h) (g : OrderEntryGateway) :
    ∀ resp ∈ ((responder handles clock).run g es).2, resp.ForOwner h := by
  refine Machine.forall_run_output (fun g e he resp hresp => ?_) g
  by_cases hhandles : handles e
  · simp only [responder, hhandles, if_true] at hresp
    exact forOwner_of_respond (hes e he) resp hresp
  · simp [responder, hhandles] at hresp

/-! ## Commands -/

/-- A new order comes in a message of its template. -/
theorem templateId_of_newOrderSingle {templateId : UInt16} {data : List UInt8}
    {single : NewOrderSingle514}
    (hdecode : decodeApplicationMessage templateId data = some (.newOrderSingle single)) :
    templateId = NewOrderSingle514.format.templateId := by
  unfold decodeApplicationMessage at hdecode
  split at hdecode
  · assumption
  split at hdecode
  · simp at hdecode
  split at hdecode
  · simp at hdecode
  · cases hdecode

/-- The checks of the gateway leave the session of an order alone. -/
theorem OrderEntryGateway.sessionUuid_checkedOrder (g : OrderEntryGateway)
    (sessionUuid : SessionUuid) (msg : NewOrderSingle514) (now : Int) :
    (g.checkedOrder sessionUuid msg now).sessionUuid = sessionUuid := by
  have hchecked : ∀ passed order, (checked passed order).sessionUuid = order.sessionUuid := by
    intro passed order
    cases passed <;> rfl
  simp only [checkedOrder, hchecked]
  rfl

namespace Exchange

variable {x : Exchange}

/-- A command that is taken off the queue: its responses are for the owners, and the order
it may add belongs to its session. -/
structure Advances (x : Exchange) (p : Processed) : Prop where
  for_owner : ∀ resp ∈ p.responses, resp.ForOwner p.exchange.engine.heap
  next_le : x.engine.heap.next ≤ p.exchange.engine.heap.next
  identity_eq : ∀ r < x.engine.heap.next,
    (p.exchange.engine.heap.read r).identity = (x.engine.heap.read r).identity
  created : ∀ r, x.engine.heap.next ≤ r → r < p.exchange.engine.heap.next →
    ∃ cmd ∈ x.gateway.commandQueue, ∃ order, cmd.type = .newOrder order ∧
      (p.exchange.engine.heap.read r).sessionUuid = order.sessionUuid
  nextOrderId_le : p.exchange.engine.nextOrderId ≤ x.engine.nextOrderId + 1

/-- Nothing happens to the engine. -/
theorem Advances.of_idle {p : Processed} (hengine : p.exchange.engine = x.engine)
    (hnone : ∀ resp ∈ p.responses, resp.sbeMessage.orderReport = none) : Advances x p where
  for_owner resp hresp report hreport := by simp [hnone resp hresp] at hreport
  next_le := by rw [hengine]
  identity_eq _ _ := by rw [hengine]
  created r hle hlt := by
    rw [hengine] at hlt
    exact absurd hlt (Nat.not_lt_of_le hle)
  nextOrderId_le := by
    rw [hengine]
    exact Nat.le_succ _

theorem advances_processNext (hinv : ExchangeInv x) (clock : Clock) :
    Advances x (x.processNext clock) := by
  unfold processNext
  cases hqueue : x.gateway.commandQueue with
  | nil => exact .of_idle rfl (by simp)
  | cons cmd rest =>
      have hmem : cmd ∈ x.gateway.commandQueue := by simp [hqueue]
      simp only
      cases hrequest : cmd.request clock x.engine with
      | none =>
          exact .of_idle (processCommand_of_no_request (x := x.popped rest) hrequest).1
            (orderReport_of_no_request (x := x.popped rest) hrequest)
      | some op =>
          rw [processCommand_of_request (x := x.popped rest) hrequest]
          have hfresh := (hinv.queue_sound cmd hmem).fresh hrequest
          have hgrows := FullMatchingEngine.grows_outcome hinv.engine_inv hfresh
          have htold := FullMatchingEngine.told_outcome hinv.engine_inv hfresh
          refine
            { for_owner := OrderEntryGateway.forOwner_of_responder htold _
              next_le := hgrows.next_le
              identity_eq := hgrows.identity_eq
              created := fun r hle hlt => ?_
              nextOrderId_le := x.engine.nextOrderId_le_succ op }
          rcases hgrows.created r hle hlt with ⟨order, now, rfl, hsession⟩
          cases OrderCommand.requests_of_request hrequest with
          | newOrder htype => exact ⟨cmd, hmem, order, htype, hsession⟩

end Exchange

/-! ## What sessions keep -/

/-- What a session keeps to send again is its own. -/
def Session.Owns (h : Heap Order) (s : Session) : Prop :=
  ∀ seqNum sbeData, s.retransmitBuffer.retrieve seqNum = some sbeData →
    Addressed h s.uuid sbeData

/-- A fresh session keeps nothing. -/
theorem Session.owns_of_empty {h : Heap Order} {s : Session} (hempty : s.retransmitBuffer = {}) :
    s.Owns h := by
  intro seqNum sbeData hkept
  simp [hempty, RetransmitBuffer.retrieve] at hkept

namespace Session.Passes

variable {h : Heap Order} {s t : Session} {new : Option (List UInt8)}
  {effects : List SessionEffect}

theorem owns (hpasses : Passes s new t effects) (howns : s.Owns h)
    (hnew : ∀ sbeData ∈ new, Addressed h s.uuid sbeData) : t.Owns h := by
  intro seqNum sbeData hkept
  rw [hpasses.uuid_eq]
  rcases hpasses.kept seqNum sbeData hkept with hgiven | hkept
  · exact hnew sbeData hgiven
  · exact howns seqNum sbeData hkept

theorem addressed (hpasses : Passes s new t effects) (howns : s.Owns h)
    (hnew : ∀ sbeData ∈ new, Addressed h s.uuid sbeData) :
    ∀ e ∈ effects, ∀ sbeData ∈ e.carries?, Addressed h s.uuid sbeData := by
  intro e he sbeData hcarries
  rcases hpasses.carried e he sbeData hcarries with hgiven | ⟨seqNum, hkept⟩
  · exact hnew sbeData hgiven
  · exact howns seqNum sbeData hkept

end Session.Passes

/-! ## The invariant -/

namespace ExchangeServer

/-- A session has handed an order to the gateway. -/
def Submitted (os : List (UInt64 × SessionEffect)) (uuid : UInt64) : Prop :=
  ∃ data, (uuid, .forward uuid NewOrderSingle514.format.templateId data) ∈ os

theorem Submitted.append {os : List (UInt64 × SessionEffect)} {uuid : UInt64}
    (hsubmitted : Submitted os uuid) (new : List (UInt64 × SessionEffect)) :
    Submitted (os ++ new) uuid := by
  rcases hsubmitted with ⟨data, hmem⟩
  exact ⟨data, List.mem_append_left _ hmem⟩

/-- The orders of the exchange and those on their way to it come from sessions that
submitted them. -/
structure FromSessions (x : Exchange) (os : List (UInt64 × SessionEffect)) : Prop where
  exchange_inv : ExchangeInv x
  queued : ∀ cmd ∈ x.gateway.commandQueue, ∀ order, cmd.type = .newOrder order →
    Submitted os (.ofNat order.sessionUuid)
  created : ∀ r < x.engine.heap.next, Submitted os (.ofNat (x.engine.heap.read r).sessionUuid)

/-- An order that is reported on has been submitted before. -/
def SubmittedFirst (before : List (UInt64 × SessionEffect)) (o : UInt64 × SessionEffect) : Prop :=
  ∀ sbeData ∈ o.2.carries?, ∀ orderID, ReportsOn sbeData orderID → Submitted before o.1

/-- What the sessions have carried and still keep is theirs, and their ids are taken. -/
structure Sessions (h : Heap Order) (m : SessionManager) (os : List (UInt64 × SessionEffect)) :
    Prop where
  owns : ∀ session ∈ m.sessions, session.Owns h
  carried : ∀ o ∈ os, ∀ sbeData ∈ o.2.carries?, Addressed h o.1 sbeData
  session_lt : ∀ session ∈ m.sessions, session.uuid < m.nextUuid
  used_lt : ∀ o ∈ os, o.1 < m.nextUuid

/-- The invariant of the server, after a number of steps. -/
structure Private (server : ExchangeServer) (steps : Nat)
    (os : List (UInt64 × SessionEffect)) : Prop where
  from_sessions : FromSessions server.exchange os
  sessions : Sessions server.exchange.engine.heap server.sessionMgr os
  pending : ∀ resp ∈ server.engineThread.pending, resp.ForOwner server.exchange.engine.heap
  submitted : EachAfter SubmittedFirst os
  nextUuid_le : server.sessionMgr.nextUuid.toNat ≤ steps + 1
  nextOrderId_le : server.exchange.engine.nextOrderId ≤ steps + 1

variable {auth : HmacAuthenticator} {server : ExchangeServer} {steps : Nat}
  {os new : List (UInt64 × SessionEffect)}

/-! ## Orders on their way -/

namespace FromSessions

variable {x : Exchange}

theorem append (hfrom : FromSessions x os) (new : List (UInt64 × SessionEffect)) :
    FromSessions x (os ++ new) where
  exchange_inv := hfrom.exchange_inv
  queued cmd hcmd order horder := (hfrom.queued cmd hcmd order horder).append new
  created r hr := (hfrom.created r hr).append new

/-- A message queues an order of its session at most. -/
theorem message (hfrom : FromSessions x os) {uuid : UInt64} {msg : ApplicationMessage} (now : Int)
    (hmsg : ∀ single, msg = .newOrderSingle single → Submitted os uuid) :
    FromSessions { x with gateway := x.gateway.onApplicationMessage uuid.toNat now msg } os where
  exchange_inv := hfrom.exchange_inv.step (.message uuid.toNat now msg)
  queued := by
    intro cmd hcmd order horder
    cases msg with
    | newOrderSingle single =>
        rcases List.mem_append.mp hcmd with hcmd | hcmd
        · exact hfrom.queued cmd hcmd order horder
        · rcases List.mem_singleton.mp hcmd with rfl
          cases horder
          rw [x.gateway.sessionUuid_checkedOrder, UInt64.ofNat_toNat]
          exact hmsg single rfl
    | orderCancelRequest msg =>
        rcases List.mem_append.mp hcmd with hcmd | hcmd
        · exact hfrom.queued cmd hcmd order horder
        · rw [List.mem_singleton.mp hcmd] at horder
          split at horder <;> cases horder
    | orderCancelReplaceRequest msg =>
        rcases List.mem_append.mp hcmd with hcmd | hcmd
        · exact hfrom.queued cmd hcmd order horder
        · rw [List.mem_singleton.mp hcmd, ite_self] at horder
          cases horder
    | other templateId => exact hfrom.queued cmd hcmd order horder
  created := hfrom.created

/-- What a session forwards has been noted before the gateway handles it. -/
theorem onEffects (hfrom : FromSessions x os) {effects : List SessionEffect} {now : Int}
    {g : OrderEntryGateway} (hhandled : x.gateway.onEffects now effects = some g)
    (hnoted : ∀ uuid templateId data, .forward uuid templateId data ∈ effects →
      (uuid, .forward uuid templateId data) ∈ os) :
    FromSessions { x with gateway := g } os := by
  induction effects generalizing x with
  | nil =>
      cases hhandled
      exact hfrom
  | cons e effects ih =>
      have hrest : ∀ uuid templateId data, .forward uuid templateId data ∈ effects →
          (uuid, .forward uuid templateId data) ∈ os :=
        fun uuid templateId data hmem =>
          hnoted uuid templateId data (List.mem_cons_of_mem _ hmem)
      cases e with
      | send msg => exact ih hfrom hhandled hrest
      | forward uuid templateId data =>
          simp only [OrderEntryGateway.onEffects, Option.bind_eq_bind,
            Option.bind_eq_some_iff] at hhandled
          rcases hhandled with ⟨msg, hdecode, hhandled⟩
          have hqueued : FromSessions
              { x with gateway := x.gateway.onApplicationMessage uuid.toNat now msg } os := by
            refine hfrom.message now fun single hsingle => ?_
            subst hsingle
            have hmem := hnoted uuid templateId data List.mem_cons_self
            rw [templateId_of_newOrderSingle hdecode] at hmem
            exact ⟨data, hmem⟩
          have hall := ih hqueued hhandled hrest
          exact hall

/-- The order that a command adds was queued before. -/
theorem processNext (hfrom : FromSessions x os) (clock : Clock) :
    FromSessions (x.processNext clock).exchange os where
  exchange_inv := hfrom.exchange_inv.step (.processNext clock)
  queued := by
    intro cmd hcmd order horder
    rw [x.commandQueue_processNext] at hcmd
    exact hfrom.queued cmd (List.mem_of_mem_tail hcmd) order horder
  created := by
    intro r hr
    have hadvances := x.advances_processNext hfrom.exchange_inv clock
    by_cases hold : r < x.engine.heap.next
    · rw [Order.field_of_identity Order.sessionUuid (hadvances.identity_eq r hold) fun _ => rfl]
      exact hfrom.created r hold
    · obtain ⟨cmd, hcmd, order, horder, hsession⟩ :=
        hadvances.created r (Nat.le_of_not_lt hold) hr
      rw [hsession]
      exact hfrom.queued cmd hcmd order horder

end FromSessions

/-- A report that is addressed to a session is on an order it has submitted. -/
theorem FromSessions.submitted_of_addressed {x : Exchange} (hfrom : FromSessions x os)
    {uuid : UInt64} {sbeData : List UInt8} (haddressed : Addressed x.engine.heap uuid sbeData)
    {orderID : UInt64} (hreports : ReportsOn sbeData orderID) : Submitted os uuid := by
  rcases haddressed orderID hreports with ⟨id, owner, ⟨r, hr, -, rfl⟩, -, rfl⟩
  exact hfrom.created r hr

/-! ## Calls on the sessions -/

namespace Sessions

variable {h h' : Heap Order} {m m' : SessionManager} {msg : Option (List UInt8)}

theorem of_identity (hsessions : Sessions h m os) (hnext : h.next ≤ h'.next)
    (hidentity : ∀ r < h.next, (h'.read r).identity = (h.read r).identity) :
    Sessions h' m os where
  owns session hsession seqNum sbeData hkept :=
    (hsessions.owns session hsession seqNum sbeData hkept).of_identity hnext hidentity
  carried o ho sbeData hcarries :=
    (hsessions.carried o ho sbeData hcarries).of_identity hnext hidentity
  session_lt := hsessions.session_lt
  used_lt := hsessions.used_lt

theorem nil (hsessions : Sessions h m os) : Sessions h m [] where
  owns := hsessions.owns
  carried := by simp
  session_lt := hsessions.session_lt
  used_lt := by simp

/-- What calls on the sessions do is added to the history. -/
theorem append (hsessions : Sessions h m os) (hcalls : Sessions h m' new)
    (hnext : m'.nextUuid = m.nextUuid) : Sessions h m' (os ++ new) where
  owns := hcalls.owns
  carried := List.forall_mem_append.mpr ⟨hsessions.carried, hcalls.carried⟩
  session_lt := hcalls.session_lt
  used_lt := List.forall_mem_append.mpr ⟨hnext ▸ hsessions.used_lt, hcalls.used_lt⟩

/-- A call on one session. -/
theorem store (hsessions : Sessions h m os) {s t : Session} {effects : List SessionEffect}
    (hs : s ∈ m.sessions) (hpasses : s.Passes msg t effects)
    (hmsg : ∀ sbeData ∈ msg, Addressed h s.uuid sbeData) :
    Sessions h (m.store t) (effects.map fun e => (s.uuid, e)) where
  owns := by
    intro session hsession
    rcases List.mem_cons.mp hsession with rfl | hsession
    · exact hpasses.owns (hsessions.owns s hs) hmsg
    · exact hsessions.owns session (List.mem_filter.mp hsession).1
  carried := List.forall_mem_map.mpr (hpasses.addressed (hsessions.owns s hs) hmsg)
  session_lt := by
    intro session hsession
    rcases List.mem_cons.mp hsession with rfl | hsession
    · rw [hpasses.uuid_eq]
      exact hsessions.session_lt s hs
    · exact hsessions.session_lt session (List.mem_filter.mp hsession).1
  used_lt := List.forall_mem_map.mpr fun _ _ => hsessions.session_lt s hs

theorem onSession (hsessions : Sessions h server.sessionMgr os) {uuid : UInt64}
    {call : Session → Session.Outcome}
    (hcall : ∀ session, Session.Passes session msg (call session).1 (call session).2)
    (hmsg : ∀ sbeData ∈ msg, Addressed h uuid sbeData) :
    Sessions h (server.onSession uuid call).1.sessionMgr (server.onSession uuid call).2 := by
  unfold ExchangeServer.onSession
  cases hfind : server.sessionMgr.findSession uuid with
  | none => exact hsessions.nil
  | some session =>
      have huuid : session.uuid = uuid := by simpa using List.find?_some hfind
      subst huuid
      exact hsessions.store (List.mem_of_find?_eq_some hfind) (hcall session) hmsg

theorem removeSession (hsessions : Sessions h m os) (uuid : UInt64) :
    Sessions h (m.removeSession uuid) os where
  owns session hsession := hsessions.owns session (List.mem_filter.mp hsession).1
  carried := hsessions.carried
  session_lt session hsession := hsessions.session_lt session (List.mem_filter.mp hsession).1
  used_lt := hsessions.used_lt

/-- Every session is called by the timer. -/
theorem onTimerTick (hsessions : Sessions h m os) (clock : UInt64 → SessionClock) :
    Sessions h (m.onTimerTick clock).1 (m.onTimerTick clock).2 where
  owns := by
    intro t ht
    simp only [SessionManager.onTimerTick, List.map_map, List.mem_filter, List.mem_map] at ht
    rcases ht with ⟨⟨s, hs, rfl⟩, -⟩
    exact (s.passes_onTimer (clock s.uuid)).owns (hsessions.owns s hs) (by simp)
  carried := by
    intro o ho
    simp only [SessionManager.onTimerTick, List.mem_flatMap, List.mem_map] at ho
    rcases ho with ⟨_, ⟨s, hs, rfl⟩, e, he, rfl⟩
    have hpasses := s.passes_onTimer (clock s.uuid)
    rw [hpasses.uuid_eq]
    exact hpasses.addressed (hsessions.owns s hs) (by simp) e he
  session_lt := by
    intro t ht
    simp only [SessionManager.onTimerTick, List.map_map, List.mem_filter, List.mem_map] at ht
    rcases ht with ⟨⟨s, hs, rfl⟩, -⟩
    rw [Function.comp_apply, (s.passes_onTimer (clock s.uuid)).uuid_eq]
    exact hsessions.session_lt s hs
  used_lt := by
    intro o ho
    simp only [SessionManager.onTimerTick, List.mem_flatMap, List.mem_map] at ho
    rcases ho with ⟨_, ⟨s, hs, rfl⟩, e, he, rfl⟩
    rw [(s.passes_onTimer (clock s.uuid)).uuid_eq]
    exact hsessions.session_lt s hs

/-- A new session, stored when it is created and again with its key, takes the next id and
keeps nothing yet. -/
theorem create (hsessions : Sessions h m os) {first s : Session}
    (hfirst : first.uuid = m.nextUuid) (huuid : s.uuid = m.nextUuid)
    (hempty : s.retransmitBuffer = {}) (hbound : m.nextUuid.toNat + 1 < 2 ^ 64) :
    Sessions h (({ m with nextUuid := m.nextUuid + 1 }.store first).store s) os := by
  have hgrows : ∀ uuid ≤ m.nextUuid, uuid < m.nextUuid + 1 := by
    intro uuid hle
    have hone : (1 : UInt64).toNat = 1 := rfl
    rw [UInt64.le_iff_toNat_le] at hle
    rw [UInt64.lt_iff_toNat_lt, UInt64.toNat_add]
    omega
  have hstored : ∀ t ∈ (({ m with nextUuid := m.nextUuid + 1 }.store first).store s).sessions,
      t = s ∨ t ∈ m.sessions := by
    intro t ht
    rcases List.mem_cons.mp ht with rfl | ht
    · exact Or.inl rfl
    · rcases List.mem_filter.mp ht with ⟨ht, hother⟩
      rcases List.mem_cons.mp ht with rfl | ht
      · simp [hfirst, huuid] at hother
      · exact Or.inr (List.mem_filter.mp ht).1
  constructor
  case owns =>
    intro t ht
    rcases hstored t ht with rfl | ht
    · exact Session.owns_of_empty hempty
    · exact hsessions.owns t ht
  case carried => exact hsessions.carried
  case session_lt =>
    intro t ht
    rcases hstored t ht with rfl | ht
    · exact hgrows _ (UInt64.le_of_eq huuid)
    · exact hgrows _ (UInt64.le_of_lt (hsessions.session_lt t ht))
  case used_lt =>
    intro o ho
    exact hgrows _ (UInt64.le_of_lt (hsessions.used_lt o ho))

theorem connect (hsessions : Sessions h server.sessionMgr os) (now : Int)
    (hbound : server.sessionMgr.nextUuid.toNat + 1 < 2 ^ 64) :
    Sessions h (server.connect now).sessionMgr os := by
  unfold ExchangeServer.connect SessionManager.createSession
  by_cases hfull : server.sessionMgr.sessions.length ≥ server.sessionMgr.maxSessions
  · simpa only [hfull, if_true] using hsessions
  · simp only [hfull, if_false]
    cases server.hmacKey with
    | none => exact hsessions.create rfl rfl rfl hbound
    | some key => exact hsessions.create rfl rfl rfl hbound

end Sessions

/-! ## The steps of the threads -/

theorem nextUuid_connect (hbound : server.sessionMgr.nextUuid.toNat + 1 < 2 ^ 64) (now : Int) :
    (server.connect now).sessionMgr.nextUuid.toNat ≤ server.sessionMgr.nextUuid.toNat + 1 := by
  unfold connect SessionManager.createSession
  by_cases hfull : server.sessionMgr.sessions.length ≥ server.sessionMgr.maxSessions
  · simp [hfull]
  · have hone : (1 : UInt64).toNat = 1 := rfl
    simp only [hfull, if_false, SessionManager.store, UInt64.toNat_add]
    omega

namespace Private

variable {t : ExchangeServer}

/-- A step that leaves the engine alone. -/
theorem other (hprivate : Private server steps os)
    (hengine : t.exchange.engine = server.exchange.engine)
    (hfrom : FromSessions t.exchange (os ++ new))
    (hsessions : Sessions server.exchange.engine.heap t.sessionMgr (os ++ new))
    (hpending : ∀ resp ∈ t.engineThread.pending, resp ∈ server.engineThread.pending)
    (hnext : t.sessionMgr.nextUuid.toNat ≤ server.sessionMgr.nextUuid.toNat + 1) :
    Private t (steps + 1) (os ++ new) where
  from_sessions := hfrom
  sessions := by rwa [hengine]
  pending := by
    intro resp hresp
    rw [hengine]
    exact hprivate.pending resp (hpending resp hresp)
  submitted := by
    refine hprivate.submitted.append fun o ho more sbeData hcarries orderID hreports => ?_
    have haddressed := hsessions.carried o (List.mem_append_right _ ho) sbeData hcarries
    exact (hprivate.from_sessions.submitted_of_addressed haddressed hreports).append more
  nextUuid_le := by
    have hle := hprivate.nextUuid_le
    omega
  nextOrderId_le := by
    rw [hengine]
    exact hprivate.nextOrderId_le.trans (Nat.le_succ _)

/-- A call on one session, after which the engine thread goes on. -/
theorem onSession (hprivate : Private server steps os) (uuid : UInt64)
    (msg : Option (List UInt8)) {call : Session → Session.Outcome}
    (hcall : ∀ session, Session.Passes session msg (call session).1 (call session).2)
    (hmsg : ∀ sbeData ∈ msg, Addressed server.exchange.engine.heap uuid sbeData) :
    Private (server.onSession uuid call).1 (steps + 1) (os ++ (server.onSession uuid call).2) := by
  rcases server.frame_onSession uuid call with ⟨hexchange, hnext⟩
  have hcalls := hprivate.sessions.onSession hcall hmsg
  refine hprivate.other (by rw [hexchange]) ?_ (hprivate.sessions.append hcalls hnext) ?_ ?_
  · rw [hexchange]
    exact hprivate.from_sessions.append _
  · rw [engineThread_onSession]
    exact fun _ hresp => hresp
  · rw [hnext]
    exact Nat.le_succ _

/-- A step that does nothing. -/
theorem idle (hprivate : Private server steps os) : Private server (steps + 1) (os ++ []) :=
  hprivate.other rfl (hprivate.from_sessions.append [])
    (hprivate.sessions.append hprivate.sessions.nil rfl) (fun _ hresp => hresp) (Nat.le_succ _)

theorem onFrame (hprivate : Private server steps os) (uuid : UInt64) (clock : SessionClock)
    (now : Int) (data : List UInt8) :
    Private (server.onFrame auth uuid clock now data).1 (steps + 1)
      (os ++ (server.onFrame auth uuid clock now data).2) := by
  rcases server.onFrame_cases auth uuid clock now data with
    hidle | ⟨session, s, gateway, effects, hmem, rfl, hhandled, hforwarded, hframe⟩
  · rw [hidle]
    exact hprivate.idle
  · have hcalls := hprivate.sessions.store hmem (Session.passes_onMessage hhandled) (by simp)
    rw [hframe]
    refine hprivate.other rfl ?_ (hprivate.sessions.append hcalls rfl) (fun _ hresp => hresp)
      (Nat.le_succ _)
    refine (hprivate.from_sessions.append _).onEffects hforwarded ?_
    intro uuid templateId data' hsent
    have hforwards := (Session.onMessage_does hhandled).forwards hsent trivial
    rcases hforwards.received with ⟨_, _, _, -, -, -, heq⟩
    rcases SessionEffect.forward.inj heq with ⟨rfl, -, -⟩
    exact List.mem_append_right _ (List.mem_map_of_mem hsent)

theorem onDisconnect (hprivate : Private server steps os) (uuid : UInt64) (clock : SessionClock) :
    Private (server.onDisconnect uuid clock).1 (steps + 1)
      (os ++ (server.onDisconnect uuid clock).2) := by
  have hcall : ∀ session : Session, Session.Passes session none
      (if session.state ≠ .terminated then session.terminate clock 0 else (session, [])).1
      (if session.state ≠ .terminated then session.terminate clock 0 else (session, [])).2 := by
    intro session
    split
    · exact session.passes_terminate clock 0
    · exact ⟨rfl, by simp, fun _ _ hkept => Or.inr hkept⟩
  have hclosed := hprivate.onSession uuid none hcall (by simp)
  exact
    { hclosed with
      sessions := hclosed.sessions.removeSession uuid }

/-- A turn of the engine thread: it adds responses, or sends one away. -/
theorem engineStep (hprivate : Private server steps os) (clock : Clock) (sending : SessionClock) :
    Private (server.engineStep clock sending).1 (steps + 1)
      (os ++ (server.engineStep clock sending).2) := by
  have hidle := hprivate.idle
  have hpending := hprivate.pending
  unfold ExchangeServer.engineStep
  cases hthread : server.engineThread with
  | processing responses =>
      rw [hthread] at hpending
      by_cases hempty : server.exchange.gateway.commandQueue = []
      · simp only [hempty, if_true]
        exact { hidle with pending := hpending }
      · have hadvances :=
          server.exchange.advances_processNext hprivate.from_sessions.exchange_inv clock
        simp only [hempty, if_false, List.append_nil]
        constructor
        case from_sessions => exact hprivate.from_sessions.processNext clock
        case sessions =>
          exact hprivate.sessions.of_identity hadvances.next_le hadvances.identity_eq
        case pending =>
          refine List.forall_mem_append.mpr ⟨fun resp hresp => ?_, hadvances.for_owner⟩
          exact (hpending resp hresp).of_identity hadvances.next_le hadvances.identity_eq
        case submitted => exact hprivate.submitted
        case nextUuid_le => exact hidle.nextUuid_le
        case nextOrderId_le =>
          exact hadvances.nextOrderId_le.trans (Nat.succ_le_succ hprivate.nextOrderId_le)
  | routing responses =>
      rw [hthread] at hpending
      cases responses with
      | nil => exact { hidle with pending := hpending }
      | cons resp rest =>
          rcases List.forall_mem_cons.mp hpending with ⟨hresp, hrest⟩
          have hrouted : Private { server with engineThread := .routing rest } steps os :=
            { hprivate with pending := hrest }
          refine hrouted.onSession _ (some resp.sbeMessage.toBytes)
            (fun session => session.passes_report sending _) ?_
          intro sbeData hmsg
          cases hmsg
          exact hresp.addressed

/-- Every step of every thread. -/
theorem step (hprivate : Private server steps os) (hbound : steps + 2 < 2 ^ 64) (op : ServerOp) :
    Private ((machine auth).step server op).1 (steps + 1)
      (os ++ ((machine auth).step server op).2) := by
  have hnext := hprivate.nextUuid_le
  cases op with
  | connect now =>
      have hroom : server.sessionMgr.nextUuid.toNat + 1 < 2 ^ 64 := by omega
      have hconnected : Private (server.connect now) (steps + 1) (os ++ []) := by
        refine hprivate.other ?_ ?_ ?_ ?_ (nextUuid_connect hroom now)
        · rw [exchange_connect]
        · rw [exchange_connect]
          exact hprivate.from_sessions.append []
        · rw [List.append_nil]
          exact hprivate.sessions.connect now hroom
        · rw [engineThread_connect]
          exact fun _ hresp => hresp
      exact hconnected
  | message uuid clock now data => exact hprivate.onFrame uuid clock now data
  | disconnect uuid clock => exact hprivate.onDisconnect uuid clock
  | timerTick clock =>
      have hcalls := hprivate.sessions.onTimerTick clock
      exact hprivate.other rfl (hprivate.from_sessions.append _)
        (hprivate.sessions.append hcalls rfl) (fun _ hresp => hresp) (Nat.le_succ _)
  | engine clock sending => exact hprivate.engineStep clock sending

end Private

/-! ## Whole runs -/

/-- An exchange in which nothing has been ordered. -/
structure Quiet (x : Exchange) : Prop where
  exchange_inv : ExchangeInv x
  queue_eq : x.gateway.commandQueue = []
  next_eq : x.engine.heap.next = 0
  nextOrderId_eq : x.engine.nextOrderId = 1

/-- The exchange of a server that is started with its instruments. -/
def listing (mgr : InstrumentManager) (config : RiskConfig) (securityIds : List SecurityId) :
    Exchange :=
  (Exchange.machine.run (.init mgr config) (securityIds.map .addInstrument)).1

theorem Quiet.addInstruments {x : Exchange} (hquiet : Quiet x) (securityIds : List SecurityId) :
    Quiet (Exchange.machine.run x (securityIds.map .addInstrument)).1 := by
  induction securityIds generalizing x with
  | nil => exact hquiet
  | cons securityId securityIds ih =>
      apply ih
      have hengine : (x.engine.addInstrument securityId).heap = x.engine.heap ∧
          (x.engine.addInstrument securityId).nextOrderId = x.engine.nextOrderId := by
        unfold FullMatchingEngine.addInstrument
        split <;> exact ⟨rfl, rfl⟩
      exact
        { exchange_inv := hquiet.exchange_inv.step (.addInstrument securityId)
          queue_eq := hquiet.queue_eq
          next_eq := (congrArg Heap.next hengine.1).trans hquiet.next_eq
          nextOrderId_eq := hengine.2.trans hquiet.nextOrderId_eq }

theorem private_init (mgr : InstrumentManager) (config : RiskConfig)
    (securityIds : List SecurityId) (maxSessions : Nat) (hmacKey : Option (List UInt8)) :
    Private (init (listing mgr config securityIds) maxSessions hmacKey) 0 [] := by
  have hquiet : Quiet (listing mgr config securityIds) :=
    Quiet.addInstruments ⟨ExchangeInv.init mgr config, rfl, rfl, rfl⟩ securityIds
  have hfrom : FromSessions (listing mgr config securityIds) [] := by
    refine ⟨hquiet.exchange_inv, ?_, ?_⟩
    · simp [hquiet.queue_eq]
    · simp [hquiet.next_eq]
  exact
    { from_sessions := hfrom
      sessions := ⟨by simp [init], by simp, by simp [init], by simp⟩
      pending := by simp [init, EngineThread.pending]
      submitted := eachAfter_nil
      nextUuid_le := le_rfl
      nextOrderId_le := hquiet.nextOrderId_eq.le }

/-- All reports on an order go to one session, which has handed in an order before, and the
next connection gets an id that no session has had. -/
structure ReportsPrivate (server : ExchangeServer) (os : List (UInt64 × SessionEffect)) :
    Prop where
  one_session : ∀ o ∈ os, ∀ o' ∈ os, ∀ sbeData ∈ o.2.carries?, ∀ sbeData' ∈ o'.2.carries?,
    ∀ orderID, ReportsOn sbeData orderID → ReportsOn sbeData' orderID → o.1 = o'.1
  submitted : EachAfter SubmittedFirst os
  unused : ∀ o ∈ os, o.1 ≠ server.sessionMgr.nextUuid

theorem Private.reportsPrivate (hprivate : Private server steps os) (hbound : steps < 2 ^ 64) :
    ReportsPrivate server os where
  one_session := by
    intro o ho o' ho' sbeData hcarries sbeData' hcarries' orderID hreports hreports'
    obtain ⟨id, owner, howned, hid, huuid⟩ :=
      hprivate.sessions.carried o ho sbeData hcarries orderID hreports
    obtain ⟨id', owner', howned', hid', huuid'⟩ :=
      hprivate.sessions.carried o' ho' sbeData' hcarries' orderID hreports'
    have hinv := hprivate.from_sessions.exchange_inv.engine_inv
    -- no more ids have been given than there were steps
    have hsmall : ∀ p, OwnedBy server.exchange.engine.heap p → p.1 < 2 ^ 64 := by
      rintro p ⟨r, hr, heq, -⟩
      rw [← heq]
      exact lt_of_lt_of_le (hinv.ids_lt r hr) (hprivate.nextOrderId_le.trans hbound)
    have hids : id = id' := by
      have heq := congrArg UInt64.toNat (hid.symm.trans hid')
      rwa [UInt64.toNat_ofNat_of_lt' (hsmall _ howned),
        UInt64.toNat_ofNat_of_lt' (hsmall _ howned')] at heq
    subst hids
    rw [huuid, huuid', howned.session_unique howned' hinv.ids_unique]
  submitted := hprivate.submitted
  unused := by
    intro o ho heq
    have hlt := hprivate.sessions.used_lt o ho
    rw [heq] at hlt
    exact absurd hlt (UInt64.lt_irrefl _)

/-- Over every run of the threads, from the start of the server with its instruments. -/
theorem reports_stay_private (auth : HmacAuthenticator) (mgr : InstrumentManager)
    (config : RiskConfig) (securityIds : List SecurityId) (maxSessions : Nat)
    (hmacKey : Option (List UInt8)) (ops : List ServerOp) (hbound : ops.length + 1 < 2 ^ 64) :
    let run := (machine auth).run (init (listing mgr config securityIds) maxSessions hmacKey) ops
    ReportsPrivate run.1 run.2 := by
  have hadmits : (machine auth).Admits (fun _ _ => True)
      (init (listing mgr config securityIds) maxSessions hmacKey) ops :=
    Machine.admits_of_forall (fun _ _ => trivial) _ ops
  have hrun := Machine.history_invariant
    (P := fun ops server os => ops.length + 1 < 2 ^ 64 → Private server ops.length os)
    (fun _ => private_init mgr config securityIds maxSessions hmacKey) ?_ ops hadmits
  · exact (hrun hbound).reportsPrivate (Nat.lt_of_succ_lt hbound)
  · intro ops server os op hprivate _ hbound
    rw [List.length_append, List.length_singleton] at hbound ⊢
    exact (hprivate (Nat.lt_of_succ_lt hbound)).step hbound op

/-- Two clients trade with each other, and the first asks for a report again. -/
def twoTraders : List ServerOp :=
  let clock : SessionClock := ⟨0, 0, 0, 0⟩
  let engine : ServerOp := .engine ⟨fun _ => 0, fun _ => 0⟩ clock
  let now : Int := 2000000000
  let enter (uuid : UInt64) : List ServerOp :=
    [ .connect 0
    , .message uuid clock now (Negotiate500.format.toBytes { uuid := uuid })
    , .message uuid clock now (Establish503.format.toBytes { uuid := uuid, nextSeqNo := 1 }) ]
  let order (side : UInt8) : NewOrderSingle514 :=
    { price := 100, orderQty := 5, securityID := 7, side := side, seqNum := 1, ordType := 2 }
  let request : RetransmitRequest508 := { uuid := 1, fromSeqNo := 1, msgCount := 1 }
  enter 1 ++ enter 2 ++
    [ .message 1 clock now (NewOrderSingle514.format.toBytes (order 1))
    , .message 2 clock now (NewOrderSingle514.format.toBytes (order 2))
    , engine, engine, engine, engine, engine, engine, engine
    , .message 1 clock now (RetransmitRequest508.format.toBytes request) ]

theorem reports_stay_private_twoTraders :
    let mgr : InstrumentManager := .single { securityId := 7, tickMantissa := 25 }
    let run := (machine Session.withoutOpenssl).run (init (listing mgr {} [7]) 100 none) twoTraders
    (run.2.filter fun o => o.2.carries?.isSome).map Prod.fst = [1, 2, 1, 2, 1] ∧
      ReportsPrivate run.1 run.2 := by
  intro mgr run
  exact ⟨by decide +kernel, reports_stay_private _ mgr {} [7] 100 none twoTraders (by decide)⟩

end ExchangeServer

end SimCme
