import SimCme.Fixp.SessionManager
import SimCme.Gateway.FrameReads

/-!
# The exchange server

The threads of the program take turns.  The network threads open and close
connections and hand on frames, the timer thread ticks, and the engine thread
processes commands and then routes the responses back to their sessions.  Between
two steps of the engine thread any of the others may act.

Main results:

- Theorem {lit}`ExchangeServer.run_processing`: undisturbed, the steps of the engine
  thread are the loop of the gateway.
- Theorem {lit}`ExchangeServer.unnumbered_of_run`: what the engine thread sends is a
  report whose sequence number is left at zero.
- Theorem {lit}`ExchangeServer.not_carriesNumber_of_run`: no application message ever
  carries the number it is sent under.
-/

open Library

namespace SimCme

/-! ## The threads -/

/-- The engine thread fills a list of responses until the queue is empty, and then
routes them one by one. -/
inductive EngineThread where
  | processing (responses : List OrderResponse)
  | routing (responses : List OrderResponse)

/-- The responses not yet routed. -/
def EngineThread.pending : EngineThread → List OrderResponse
  | .processing responses => responses
  | .routing responses => responses

structure ExchangeServer where
  exchange : Exchange
  sessionMgr : SessionManager
  /-- The key of the signatures, where they are enabled. -/
  hmacKey : Option (List UInt8)
  engineThread : EngineThread := .processing []

/-- The steps of the threads. -/
inductive ServerOp where
  | connect (now : Int)
  | message (uuid : UInt64) (clock : SessionClock) (now : Int) (data : List UInt8)
  | disconnect (uuid : UInt64) (clock : SessionClock)
  | timerTick (clock : UInt64 → SessionClock)
  | engine (clock : Clock) (sending : SessionClock)

namespace ExchangeServer

/-- The result of a step: the server it leaves and the effects of its sessions. -/
abbrev Outcome := ExchangeServer × List (UInt64 × SessionEffect)

def connect (server : ExchangeServer) (now : Int) : ExchangeServer :=
  match server.sessionMgr.createSession now with
  | none => server
  | some (session, sessionMgr) =>
      let session :=
        match server.hmacKey with
        | none => session
        | some key => (session.setHmacEnabled true).setHmacKey key
      { server with sessionMgr := sessionMgr.store session }

/-- Make a call on a session, if it is still there. -/
def onSession (server : ExchangeServer) (uuid : UInt64) (call : Session → Session.Outcome) :
    Outcome :=
  match server.sessionMgr.findSession uuid with
  | none => (server, [])
  | some session =>
      let (session, effects) := call session
      ({ server with sessionMgr := server.sessionMgr.store session },
        effects.map fun e => (uuid, e))

/-- A frame of a connection.  One that would be read past its end is left out. -/
def onFrame (auth : HmacAuthenticator) (server : ExchangeServer) (uuid : UInt64)
    (clock : SessionClock) (now : Int) (data : List UInt8) : Outcome :=
  match server.sessionMgr.findSession uuid with
  | none => (server, [])
  | some session =>
      match receiveFrame auth session server.exchange.gateway clock now data with
      | none => (server, [])
      | some (session, gateway, effects) =>
          ({ server with
              exchange := { server.exchange with gateway := gateway }
              sessionMgr := server.sessionMgr.store session },
            effects.map fun e => (uuid, e))

def onDisconnect (server : ExchangeServer) (uuid : UInt64) (clock : SessionClock) : Outcome :=
  let closed := server.onSession uuid fun session =>
    if session.state ≠ .terminated then session.terminate clock 0 else (session, [])
  ({ closed.1 with sessionMgr := closed.1.sessionMgr.removeSession uuid }, closed.2)

/-- The engine thread takes a command off the queue, finds the queue empty and turns
to routing, or routes a response. -/
def engineStep (server : ExchangeServer) (clock : Clock) (sending : SessionClock) : Outcome :=
  match server.engineThread with
  | .processing responses =>
      if server.exchange.gateway.commandQueue = [] then
        ({ server with engineThread := .routing responses }, [])
      else
        let processed := server.exchange.processNext clock
        ({ server with
            exchange := processed.exchange
            engineThread := .processing (responses ++ processed.responses) }, [])
  | .routing [] => ({ server with engineThread := .processing [] }, [])
  | .routing (resp :: rest) =>
      { server with engineThread := .routing rest }.onSession (.ofNat resp.sessionUuid)
        fun session => session.sendApplicationMessage sending resp.sbeMessage.toBytes

def machine (auth : HmacAuthenticator) :
    Machine ExchangeServer ServerOp (UInt64 × SessionEffect) where
  step server
    | .connect now => (server.connect now, [])
    | .message uuid clock now data => server.onFrame auth uuid clock now data
    | .disconnect uuid clock => server.onDisconnect uuid clock
    | .timerTick clock =>
        let (sessionMgr, effects) := server.sessionMgr.onTimerTick clock
        ({ server with sessionMgr := sessionMgr }, effects)
    | .engine clock sending => server.engineStep clock sending

/-- A server that no connection has reached. -/
def init (exchange : Exchange) (maxSessions : Nat) (hmacKey : Option (List UInt8)) :
    ExchangeServer where
  exchange := exchange
  sessionMgr := { maxSessions := maxSessions }
  hmacKey := hmacKey

/-- Undisturbed, the engine thread routes what {lit}`processCommands` returns. -/
theorem run_processing (auth : HmacAuthenticator) (clock : Clock) (sending : SessionClock)
    (n : Nat) (server : ExchangeServer) (responses : List OrderResponse)
    (hthread : server.engineThread = .processing responses)
    (hlength : server.exchange.gateway.commandQueue.length = n) :
    (machine auth).run server (List.replicate (n + 1) (.engine clock sending)) =
      ({ server with
          exchange := (server.exchange.processCommands clock).exchange
          engineThread := .routing
            (responses ++ (server.exchange.processCommands clock).responses) }, []) := by
  induction n generalizing server responses with
  | zero =>
      have hempty : server.exchange.gateway.commandQueue = [] := List.length_eq_zero_iff.mp hlength
      simp [Machine.run, machine, engineStep, hthread, hempty, Exchange.processCommands,
        Exchange.drain]
  | succ n ih =>
      have hqueue : server.exchange.gateway.commandQueue ≠ [] := by
        intro hempty
        simp [hempty] at hlength
      have hrest :
          (server.exchange.processNext clock).exchange.gateway.commandQueue.length = n := by
        rw [Exchange.commandQueue_processNext, List.length_tail, hlength]
        rfl
      have hstep : (machine auth).step server (.engine clock sending) =
          ({ server with
              exchange := (server.exchange.processNext clock).exchange
              engineThread := .processing
                (responses ++ (server.exchange.processNext clock).responses) }, []) := by
        simp [machine, engineStep, hthread, hqueue]
      rw [List.replicate_succ, Machine.run, hstep]
      simp only
      rw [ih _ _ rfl hrest]
      simp [Exchange.processCommands, hlength, hrest, Exchange.drain]

end ExchangeServer

/-! ## Sequence numbers -/

/-- A report whose sequence number is left at zero. -/
def OrderResponse.Unnumbered (resp : OrderResponse) : Prop :=
  resp.sbeMessage.seqNum = 0

theorem OrderEntryGateway.unnumbered_respond (g : OrderEntryGateway) (clock : Clock)
    (e : EngineEvent) : ∀ resp ∈ (g.respond clock e).2, resp.Unnumbered := by
  intro resp hresp
  cases e with
  | orderFilled e =>
      -- one report for the maker and one for the taker
      simp only [respond, respondWith, List.mem_append, List.mem_singleton] at hresp
      rcases hresp with rfl | rfl <;> rfl
  | bookUpdate e => simp [respond] at hresp
  | _ =>
      simp only [respond, respondWith, List.mem_singleton] at hresp
      rw [hresp]
      rfl

namespace Exchange

variable {x : Exchange} {clock : Clock}

theorem unnumbered_answer (handles : EngineEvent → Bool) (r : EngineOutcome) :
    ∀ resp ∈ (x.answer clock handles r).responses, resp.Unnumbered := by
  refine Machine.forall_run_output (fun g e _ resp hresp => ?_) x.gateway
  by_cases hhandles : handles e
  · simp only [OrderEntryGateway.responder, hhandles, if_true] at hresp
    exact g.unnumbered_respond clock e resp hresp
  · simp [OrderEntryGateway.responder, hhandles] at hresp

theorem unnumbered_processCommand (cmd : OrderCommand) :
    ∀ resp ∈ (x.processCommand clock cmd).responses, resp.Unnumbered := by
  unfold processCommand
  cases cmd.type with
  | newOrder order =>
      simp only
      split
      · intro resp hresp
        rw [List.mem_singleton.mp hresp]
        rfl
      · exact unnumbered_answer _ _
  | cancelOrder => exact unnumbered_answer _ _
  | modifyOrder newPrice newQty newClOrdId => exact unnumbered_answer _ _

theorem unnumbered_processNext (x : Exchange) (clock : Clock) :
    ∀ resp ∈ (x.processNext clock).responses, resp.Unnumbered := by
  unfold processNext
  cases x.gateway.commandQueue with
  | nil => simp
  | cons cmd rest => exact unnumbered_processCommand cmd

end Exchange

/-- If the effect sends an application message, it is a report whose sequence number
is left at zero. -/
def SessionEffect.SendsUnnumbered (e : SessionEffect) : Prop :=
  ∀ seqNum sbeData, e = .send (.application seqNum sbeData) →
    ∃ msg : SbeMessage, sbeData = msg.toBytes ∧ msg.seqNum = 0

theorem SessionEffect.sendsUnnumbered_of_not_application {e : SessionEffect}
    (hnot : ¬e.IsApplication) : e.SendsUnnumbered := by
  rintro seqNum sbeData rfl
  exact absurd trivial hnot

namespace ExchangeServer

variable {auth : HmacAuthenticator} {server : ExchangeServer}

/-- A call on a session leaves the engine thread where it is. -/
theorem engineThread_onSession (uuid : UInt64) (call : Session → Session.Outcome) :
    (server.onSession uuid call).1.engineThread = server.engineThread := by
  unfold onSession
  cases server.sessionMgr.findSession uuid <;> rfl

/-- The effects of a call on a session are those of the call. -/
theorem forall_onSession {P : SessionEffect → Prop} {uuid : UInt64}
    {call : Session → Session.Outcome} (hcall : ∀ session, ∀ e ∈ (call session).2, P e) :
    ∀ o ∈ (server.onSession uuid call).2, P o.2 := by
  unfold onSession
  cases server.sessionMgr.findSession uuid with
  | none => simp
  | some session =>
      simp only [List.forall_mem_map]
      exact hcall session

theorem engineThread_onFrame (uuid : UInt64) (clock : SessionClock) (now : Int)
    (data : List UInt8) :
    (server.onFrame auth uuid clock now data).1.engineThread = server.engineThread := by
  unfold onFrame
  split
  · rfl
  · split <;> rfl

/-- No frame makes its session send an application message. -/
theorem not_application_onFrame (uuid : UInt64) (clock : SessionClock) (now : Int)
    (data : List UInt8) :
    ∀ o ∈ (server.onFrame auth uuid clock now data).2, ¬o.2.IsApplication := by
  unfold onFrame
  cases server.sessionMgr.findSession uuid with
  | none => simp
  | some session =>
      cases hreceived : receiveFrame auth session server.exchange.gateway clock now data with
      | none => simp [hreceived]
      | some received =>
          simp only [hreceived, List.forall_mem_map]
          simp only [receiveFrame, Option.bind_eq_bind, Option.bind_eq_some_iff] at hreceived
          obtain ⟨⟨t, effects⟩, hhandled, gateway, -, hreturn⟩ := hreceived
          obtain rfl := Option.some.inj hreturn
          exact (Session.onMessage_does hhandled).not_application (by simp)

theorem engineThread_connect (now : Int) :
    (server.connect now).engineThread = server.engineThread := by
  unfold connect
  split <;> rfl

theorem exchange_connect (now : Int) : (server.connect now).exchange = server.exchange := by
  unfold connect
  split <;> rfl

/-- A call on a session leaves the exchange alone and gives no id. -/
theorem frame_onSession (uuid : UInt64) (call : Session → Session.Outcome) :
    (server.onSession uuid call).1.exchange = server.exchange ∧
      (server.onSession uuid call).1.sessionMgr.nextUuid = server.sessionMgr.nextUuid := by
  unfold onSession
  cases server.sessionMgr.findSession uuid with
  | none => exact ⟨rfl, rfl⟩
  | some session => exact ⟨rfl, rfl⟩

/-- A frame is left out, or its session handles it and the gateway what is forwarded. -/
theorem onFrame_cases (server : ExchangeServer) (auth : HmacAuthenticator) (uuid : UInt64)
    (clock : SessionClock) (now : Int) (data : List UInt8) :
    server.onFrame auth uuid clock now data = (server, []) ∨
      ∃ session s gateway effects, session ∈ server.sessionMgr.sessions ∧ session.uuid = uuid ∧
        session.onMessage auth clock data = some (s, effects) ∧
        server.exchange.gateway.onEffects now effects = some gateway ∧
        server.onFrame auth uuid clock now data =
          ({ server with
              exchange := { server.exchange with gateway := gateway }
              sessionMgr := server.sessionMgr.store s },
            effects.map fun e => (uuid, e)) := by
  unfold onFrame
  cases hfind : server.sessionMgr.findSession uuid with
  | none => exact Or.inl rfl
  | some session =>
      cases hreceived : receiveFrame auth session server.exchange.gateway clock now data with
      | none => exact Or.inl (by simp only [hreceived])
      | some received =>
          have hparts := hreceived
          simp only [receiveFrame, Option.bind_eq_bind, Option.bind_eq_some_iff] at hparts
          obtain ⟨⟨s, effects⟩, hhandled, gateway, hforwarded, hreturn⟩ := hparts
          cases hreturn
          have huuid : session.uuid = uuid := by simpa using List.find?_some hfind
          exact Or.inr ⟨session, s, gateway, effects, List.mem_of_find?_eq_some hfind, huuid,
            hhandled, hforwarded, by simp only [hreceived]⟩

theorem not_application_onDisconnect (uuid : UInt64) (clock : SessionClock) :
    ∀ o ∈ (server.onDisconnect uuid clock).2, ¬o.2.IsApplication := by
  refine forall_onSession (P := fun e => ¬e.IsApplication) ?_
  intro session e he
  split at he
  · exact (Session.terminate_does Session.withoutOpenssl session (.terminate clock 0) clock
      0).not_application (by simp) e he
  · simp at he

theorem not_application_onTimerTick (m : SessionManager) (clock : UInt64 → SessionClock) :
    ∀ o ∈ (m.onTimerTick clock).2, ¬o.2.IsApplication := by
  intro o ho
  simp only [SessionManager.onTimerTick, List.mem_flatMap, List.mem_map] at ho
  obtain ⟨_, ⟨session, -, rfl⟩, e, he, rfl⟩ := ho
  exact (Session.onTimer_does Session.withoutOpenssl session (.onTimer (clock session.uuid))
    (clock session.uuid)).not_application (by simp) e he

/-- What is sent so far and what is still to be routed is unnumbered. -/
structure AllUnnumbered (server : ExchangeServer) (os : List (UInt64 × SessionEffect)) :
    Prop where
  pending : ∀ resp ∈ server.engineThread.pending, resp.Unnumbered
  sent : ∀ o ∈ os, o.2.SendsUnnumbered

/-- A step that leaves the engine thread where it is sends no application message. -/
theorem AllUnnumbered.of_other {t : ExchangeServer} {os os' : List (UInt64 × SessionEffect)}
    (hall : server.AllUnnumbered os) (hthread : t.engineThread = server.engineThread)
    (hnot : ∀ o ∈ os', ¬o.2.IsApplication) : t.AllUnnumbered (os ++ os') where
  pending := hthread ▸ hall.pending
  sent := by
    simp only [List.forall_mem_append]
    exact ⟨hall.sent, fun o ho => SessionEffect.sendsUnnumbered_of_not_application (hnot o ho)⟩

theorem sendsUnnumbered_sendApplicationMessage {resp : OrderResponse} (hresp : resp.Unnumbered)
    (session : Session) (clock : SessionClock) :
    ∀ e ∈ (session.sendApplicationMessage clock resp.sbeMessage.toBytes).2,
      e.SendsUnnumbered := by
  unfold Session.sendApplicationMessage
  split
  · simp
  · intro e he seqNum sbeData hsends
    rw [List.mem_singleton.mp he] at hsends
    cases hsends
    exact ⟨resp.sbeMessage, rfl, hresp⟩

theorem AllUnnumbered.engineStep {os : List (UInt64 × SessionEffect)}
    (hall : server.AllUnnumbered os) (clock : Clock) (sending : SessionClock) :
    (server.engineStep clock sending).1.AllUnnumbered
      (os ++ (server.engineStep clock sending).2) := by
  have hpending := hall.pending
  unfold ExchangeServer.engineStep
  cases hthread : server.engineThread with
  | processing responses =>
      rw [hthread] at hpending
      simp only
      split
      · exact ⟨hpending, by simpa using hall.sent⟩
      · refine ⟨?_, by simpa using hall.sent⟩
        simp only [EngineThread.pending, List.forall_mem_append]
        exact ⟨hpending, server.exchange.unnumbered_processNext clock⟩
  | routing responses =>
      rw [hthread] at hpending
      cases responses with
      | nil => exact ⟨by simp [EngineThread.pending], by simpa using hall.sent⟩
      | cons resp rest =>
          obtain ⟨hresp, hrest⟩ := List.forall_mem_cons.mp hpending
          constructor
          · rw [engineThread_onSession]
            exact hrest
          · rw [List.forall_mem_append]
            exact ⟨hall.sent, forall_onSession fun session =>
              sendsUnnumbered_sendApplicationMessage hresp session sending⟩

/-- Every step of every thread. -/
theorem AllUnnumbered.step {os : List (UInt64 × SessionEffect)}
    (hall : server.AllUnnumbered os) (op : ServerOp) :
    ((machine auth).step server op).1.AllUnnumbered
      (os ++ ((machine auth).step server op).2) := by
  cases op with
  | connect now => exact hall.of_other (engineThread_connect now) (by simp [machine])
  | message uuid clock now data =>
      exact hall.of_other (engineThread_onFrame uuid clock now data)
        (not_application_onFrame uuid clock now data)
  | disconnect uuid clock =>
      exact hall.of_other (engineThread_onSession uuid _) (not_application_onDisconnect uuid clock)
  | timerTick clock => exact hall.of_other rfl (not_application_onTimerTick _ clock)
  | engine clock sending => exact hall.engineStep clock sending

/-- What the engine thread sends is a report whose sequence number is left at zero. -/
theorem unnumbered_of_run (auth : HmacAuthenticator) (exchange : Exchange) (maxSessions : Nat)
    (hmacKey : Option (List UInt8)) (ops : List ServerOp) :
    ∀ o ∈ ((machine auth).run (init exchange maxSessions hmacKey) ops).2,
      o.2.SendsUnnumbered := by
  have hinit : (init exchange maxSessions hmacKey).AllUnnumbered [] :=
    ⟨by simp [init, EngineThread.pending], by simp⟩
  have hadmits : (machine auth).Admits (fun _ _ => True) (init exchange maxSessions hmacKey) ops :=
    Machine.admits_of_forall (fun _ _ => trivial) _ ops
  have hrun := Machine.history_invariant (P := fun _ server os => server.AllUnnumbered os) hinit
    (fun _ _ _ op hall _ => hall.step op) ops hadmits
  exact hrun.sent

/-- The application messages sent on a session, each with the number it is kept
under. -/
def applicationsOn (uuid : UInt64) (os : List (UInt64 × SessionEffect)) :
    List (UInt32 × List UInt8) :=
  os.filterMap fun
    | (id, .send (.application seqNum sbeData)) =>
        if id = uuid then some (seqNum, sbeData) else none
    | _ => none

theorem mem_applicationsOn {uuid : UInt64} {os : List (UInt64 × SessionEffect)}
    {sent : UInt32 × List UInt8} (hsent : sent ∈ applicationsOn uuid os) :
    (uuid, .send (.application sent.1 sent.2)) ∈ os := by
  obtain ⟨⟨id, e⟩, hmem, heq⟩ := List.mem_filterMap.mp hsent
  split at heq
  · rename_i hsend
    cases hsend
    split at heq
    · rename_i hid
      cases heq
      exact hid ▸ hmem
    · contradiction
  · contradiction

/-- A message decodes to an execution report or a cancel reject with a number in its
SeqNum field. -/
def CarriesNumber (k : Nat) (sbeData : List UInt8) : Prop :=
  ∃ msg, SbeMessage.ofBytes sbeData = some msg ∧ msg.seqNum.toNat = k

theorem not_carriesNumber_of_mem {auth : HmacAuthenticator} {exchange : Exchange}
    {maxSessions : Nat} {hmacKey : Option (List UInt8)} {ops : List ServerOp} {uuid : UInt64}
    {sent : UInt32 × List UInt8}
    (hsent : sent ∈ applicationsOn uuid
      ((machine auth).run (init exchange maxSessions hmacKey) ops).2) (k : Nat) :
    ¬CarriesNumber (k + 1) sent.2 := by
  obtain ⟨msg, hbytes, hzero⟩ := unnumbered_of_run auth exchange maxSessions hmacKey ops _
    (mem_applicationsOn hsent) sent.1 sent.2 rfl
  rintro ⟨decoded, hdecoded, hnumber⟩
  rw [hbytes, SbeMessage.ofBytes_toBytes] at hdecoded
  cases hdecoded
  rw [hzero] at hnumber
  exact absurd hnumber (Nat.succ_ne_zero k).symm

/-- In every run of the server, no application message of a session carries its
number among those of the session, counted from one. -/
theorem not_carriesNumber_of_run (auth : HmacAuthenticator) (exchange : Exchange)
    (maxSessions : Nat) (hmacKey : Option (List UInt8)) (ops : List ServerOp) (uuid : UInt64)
    (i : Nat) (sent : UInt32 × List UInt8)
    (hsent : (applicationsOn uuid
      ((machine auth).run (init exchange maxSessions hmacKey) ops).2)[i]? = some sent) :
    ¬CarriesNumber (i + 1) sent.2 :=
  not_carriesNumber_of_mem (List.mem_of_getElem? hsent) i

/-- A client that shakes hands, cancels an order that does not exist and is told
so. -/
def oneReject : List ServerOp :=
  let clock : SessionClock := ⟨0, 0, 0, 0⟩
  let engine : ServerOp := .engine ⟨fun _ => 0, fun _ => 0⟩ clock
  [ .connect 0
  , .message 1 clock 0 (Negotiate500.format.toBytes { uuid := 1 })
  , .message 1 clock 0 (Establish503.format.toBytes { uuid := 1, nextSeqNo := 1 })
  , .message 1 clock 0 (OrderCancelRequest516.format.toBytes { orderID := 7, seqNum := 1 })
  , engine, engine, engine ]

/-- The reject is sent under the number one. -/
theorem oneReject_sent :
    ∃ sbeData, (applicationsOn 1 ((machine Session.withoutOpenssl).run (init {} 100 none)
      oneReject).2)[0]? = some (1, sbeData) := by
  have hfirst : ((applicationsOn 1 ((machine Session.withoutOpenssl).run (init {} 100 none)
      oneReject).2)[0]?).map Prod.fst = some 1 := by
    decide +kernel
  obtain ⟨⟨seqNum, sbeData⟩, hsent, rfl⟩ := Option.map_eq_some_iff.mp hfirst
  exact ⟨sbeData, hsent⟩

theorem not_carriesNumber_oneReject :
    ∃ sbeData, (applicationsOn 1 ((machine Session.withoutOpenssl).run (init {} 100 none)
        oneReject).2)[0]? = some (1, sbeData) ∧ ¬CarriesNumber 1 sbeData := by
  obtain ⟨sbeData, hsent⟩ := oneReject_sent
  exact ⟨sbeData, hsent, not_carriesNumber_of_run _ _ _ _ _ 1 0 _ hsent⟩

/-- The first message is kept under the number one and does not carry it. -/
theorem oneReject_unnumbered :
    ¬∀ uuid k sent, 0 < k → k < 2 ^ 32 →
      (applicationsOn uuid ((machine Session.withoutOpenssl).run (init {} 100 none)
        oneReject).2)[k - 1]? = some sent →
      sent.1.toNat = k ∧ CarriesNumber k sent.2 := by
  intro hnumbered
  obtain ⟨sbeData, hsent⟩ := oneReject_sent
  have hcarries := (hnumbered 1 1 (1, sbeData) (by decide) (by decide) hsent).2
  exact not_carriesNumber_of_mem (List.mem_of_getElem? hsent) 0 hcarries

end ExchangeServer

end SimCme
