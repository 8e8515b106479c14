import Mathlib.Data.List.TakeWhile
import SimCme.Fixp.Retransmission
import SimCme.Library.Arrivals
import SimCme.Library.Decimal
import SimCme.Server.ExchangeServer

/-!
# Execution ids

The gateway gives every report it builds the next number, printed in decimal.  The reports
wait among the responses and leave in order, and one whose session is gone is lost.

Main results:

- Theorem {lit}`Exchange.issues_processNext`: the responses to a command carry the numbers
  from the next one up.
- Theorem {lit}`execution_ids_ascend`: over every run of the server, the reports sent to all
  sessions together carry ascending numbers, and no two the same id.
-/

open Library

namespace SimCme

/-! ## Ids -/

def SbeMessage.execID : SbeMessage → FixedString 40
  | .executionReportNew msg => msg.execID
  | .executionReportReject msg => msg.execID
  | .executionReportTradeOutright msg => msg.execID
  | .executionReportModify msg => msg.execID
  | .executionReportCancel msg => msg.execID
  | .orderCancelReject msg => msg.execID

/-- The id of a message in its bytes. -/
def execIdOf (sbeData : List UInt8) : Option (FixedString 40) :=
  (SbeMessage.ofBytes sbeData).map SbeMessage.execID

/-- The id of the report with a number. -/
def execStamp (n : Nat) : Option (FixedString 40) :=
  some (writeFixedString 40 (decimalBytes n))

/-- A string without a zero fits its field and is found in it again. -/
theorem readFixedString_writeFixedString {len : Nat} {src : List UInt8} (hzero : 0 ∉ src)
    (hlen : src.length ≤ len) : readFixedString (writeFixedString len src) = src := by
  have hpos : ∀ byte ∈ src, decide (byte ≠ 0) = true := by
    intro byte hbyte
    rw [decide_eq_true_eq]
    rintro rfl
    exact hzero hbyte
  have hpadded : (writeFixedString len src).toList =
      src ++ List.replicate (len - src.length) 0 := by
    rw [writeFixedString, List.takeWhile_eq_self_iff.mpr hpos]
    apply List.ext_getElem
    · simp [hlen]
    · intro i hi hi'
      by_cases hlt : i < src.length
      · simp [hlt]
      · simp [List.getElem_append, hlt]
  rw [readFixedString, hpadded, List.takeWhile_append_of_pos hpos]
  cases len - src.length with
  | zero => simp
  | succ padding => simp [List.replicate_succ]

/-- Numbers of up to 64 bits have different ids. -/
theorem execStamp_injOn : ∀ m < 2 ^ 64, ∀ n < 2 ^ 64, execStamp m = execStamp n → m = n := by
  have hread : ∀ n < 2 ^ 64, readFixedString (writeFixedString 40 (decimalBytes n)) =
      decimalBytes n := by
    intro n hn
    apply readFixedString_writeFixedString (zero_not_mem_decimalBytes n)
    rw [length_decimalBytes_le_iff (by decide)]
    exact hn.trans (by decide)
  intro m hm n hn hstamp
  have hfields := congrArg readFixedString (Option.some.inj hstamp)
  rw [hread m hm, hread n hn] at hfields
  exact decimalBytes_injective hfields

/-! ## Responses -/

def OrderResponse.execId (resp : OrderResponse) : Option (FixedString 40) :=
  execIdOf resp.sbeMessage.toBytes

theorem OrderResponse.execId_eq (resp : OrderResponse) :
    resp.execId = some resp.sbeMessage.execID := by
  rw [execId, execIdOf, SbeMessage.ofBytes_toBytes]
  rfl

/-- Responses carry consecutive numbers, from the first up to the one before the next. -/
structure Issues (first : Nat) (responses : List OrderResponse) (next : Nat) : Prop where
  ids_eq : responses.map OrderResponse.execId =
    (List.range' first responses.length).map execStamp
  next_eq : next = first + responses.length

namespace Issues

variable {first middle next : Nat} {responses more : List OrderResponse}

theorem nil (first : Nat) : Issues first [] first :=
  ⟨rfl, rfl⟩

theorem append (hresponses : Issues first responses middle) (hmore : Issues middle more next) :
    Issues first (responses ++ more) next where
  ids_eq := by
    rw [List.map_append, hresponses.ids_eq, hmore.ids_eq, hresponses.next_eq, List.length_append,
      ← List.map_append, List.range'_append_1]
  next_eq := by
    rw [hmore.next_eq, hresponses.next_eq, List.length_append, Nat.add_assoc]

end Issues

/-- A report that is built takes the next number. -/
structure ExecReportBuilder.Built.Takes (built : Built) (n : Nat) : Prop where
  id_eq : built.message.execID = writeFixedString 40 (decimalBytes n)
  next_eq : built.builder.nextExecId = n + 1

namespace OrderEntryGateway

variable {g : OrderEntryGateway} {clock : Clock}

theorem issues_respondWith (sessionUuid : SessionUuid) {built : ExecReportBuilder.Built}
    (hbuilt : built.Takes g.execBuilder.nextExecId) :
    Issues g.execBuilder.nextExecId (g.respondWith sessionUuid built).2
      (g.respondWith sessionUuid built).1.execBuilder.nextExecId where
  ids_eq := by simp [respondWith, OrderResponse.execId_eq, execStamp, hbuilt.id_eq]
  next_eq := hbuilt.next_eq

theorem issues_respond (g : OrderEntryGateway) (e : EngineEvent) :
    Issues g.execBuilder.nextExecId (g.respond clock e).2
      (g.respond clock e).1.execBuilder.nextExecId := by
  cases e with
  | orderAccepted e => exact issues_respondWith _ ⟨rfl, rfl⟩
  | orderRejected e => exact issues_respondWith _ ⟨rfl, rfl⟩
  | orderFilled e =>
      -- one report for the maker and one for the taker
      have hfill : ∀ (builder : ExecReportBuilder) (now : Timestamp) (uuid : SessionUuid)
          (isMaker : Bool),
          (builder.buildExecutionReportFill now e uuid isMaker).Takes builder.nextExecId := by
        intro builder now uuid isMaker
        cases isMaker <;> exact ⟨rfl, rfl⟩
      exact (issues_respondWith (g := g) _ (hfill _ _ _ true)).append
        (issues_respondWith _ (hfill _ _ _ false))
  | orderCancelled e => exact issues_respondWith _ ⟨rfl, rfl⟩
  | orderModified e => exact issues_respondWith _ ⟨rfl, rfl⟩
  | orderCancelRejected e => exact issues_respondWith _ ⟨rfl, rfl⟩
  | bookUpdate u => exact .nil _

theorem issues_responder (handles : EngineEvent → Bool) (es : List EngineEvent) :
    Issues g.execBuilder.nextExecId ((responder handles clock).run g es).2
      ((responder handles clock).run g es).1.execBuilder.nextExecId := by
  induction es generalizing g with
  | nil => exact .nil _
  | cons e es ih =>
      have hfirst : Issues g.execBuilder.nextExecId ((responder handles clock).step g e).2
          ((responder handles clock).step g e).1.execBuilder.nextExecId := by
        by_cases hhandles : handles e = true
        · simp only [responder, hhandles, if_true]
          exact issues_respond g e
        · simp only [responder, hhandles]
          exact .nil _
      exact hfirst.append ih

end OrderEntryGateway

/-- The responses to a command carry the numbers from the next one up. -/
theorem Exchange.issues_processNext (x : Exchange) (clock : Clock) :
    Issues x.gateway.execBuilder.nextExecId (x.processNext clock).responses
      (x.processNext clock).exchange.gateway.execBuilder.nextExecId := by
  unfold processNext
  cases hqueue : x.gateway.commandQueue with
  | nil => exact .nil _
  | cons cmd rest =>
      simp only
      unfold processCommand
      cases cmd.type with
      | newOrder order =>
          simp only
          split
          · exact OrderEntryGateway.issues_respondWith (g := (x.popped rest).gateway) _ ⟨rfl, rfl⟩
          · exact OrderEntryGateway.issues_responder (g := (x.popped rest).gateway) _ _
      | cancelOrder => exact OrderEntryGateway.issues_responder (g := (x.popped rest).gateway) _ _
      | modifyOrder newPrice newQty newClOrdId =>
          exact OrderEntryGateway.issues_responder (g := (x.popped rest).gateway) _ _

/-! ## Whole runs -/

/-- What a session forwards takes no number. -/
theorem OrderEntryGateway.execBuilder_onEffects {g gateway : OrderEntryGateway} {now : Int}
    {effects : List SessionEffect} (hhandled : g.onEffects now effects = some gateway) :
    gateway.execBuilder = g.execBuilder := by
  induction effects generalizing g with
  | nil =>
      cases hhandled
      rfl
  | cons e effects ih =>
      cases e with
      | send msg => exact ih hhandled
      | forward uuid templateId data =>
          simp only [onEffects, Option.bind_eq_bind, Option.bind_eq_some_iff] at hhandled
          rcases hhandled with ⟨msg, -, hhandled⟩
          rw [ih hhandled]
          cases msg <;> rfl

namespace ExchangeServer

variable {auth : HmacAuthenticator} {server t : ExchangeServer}
  {os new : List (UInt64 × SessionEffect)}

/-- The ids of the reports that were sent and of those that wait to be routed. -/
def execIds (server : ExchangeServer) (os : List (UInt64 × SessionEffect)) :
    List (Option (FixedString 40)) :=
  (Session.sentOf (os.map Prod.snd)).map execIdOf ++
    server.engineThread.pending.map OrderResponse.execId

/-- The ids are those of ascending numbers that have been given out. -/
def Ascending (server : ExchangeServer) (os : List (UInt64 × SessionEffect)) : Prop :=
  Stamped execStamp (server.execIds os) server.exchange.gateway.execBuilder.nextExecId

/-- A step that sends no application message and builds no report. -/
theorem Ascending.other (hascending : Ascending server os)
    (hbuilder : t.exchange.gateway.execBuilder = server.exchange.gateway.execBuilder)
    (hpending : t.engineThread.pending = server.engineThread.pending)
    (hnot : ∀ o ∈ new, ¬o.2.IsApplication) : Ascending t (os ++ new) := by
  have hnone : Session.sentOf (new.map Prod.snd) = [] :=
    Session.sentOf_eq_nil (List.forall_mem_map.mpr hnot)
  unfold Ascending execIds
  rw [hbuilder, hpending, List.map_append, Session.sentOf_append, hnone, List.append_nil]
  exact hascending

/-- A report that is routed is sent or lost. -/
theorem sentOf_route (server : ExchangeServer) (uuid : UInt64) (sending : SessionClock)
    (sbeData : List UInt8) :
    (Session.sentOf ((server.onSession uuid fun session =>
      session.sendApplicationMessage sending sbeData).2.map Prod.snd)).Sublist [sbeData] := by
  unfold onSession
  cases server.sessionMgr.findSession uuid with
  | none => exact List.nil_sublist _
  | some session =>
      simp only [List.map_map, Session.sendApplicationMessage]
      split
      · exact List.nil_sublist _
      · exact List.Sublist.refl _

theorem Ascending.engineStep (hascending : Ascending server os) (clock : Clock)
    (sending : SessionClock) :
    Ascending (server.engineStep clock sending).1 (os ++ (server.engineStep clock sending).2) := by
  unfold Ascending execIds at hascending ⊢
  unfold ExchangeServer.engineStep
  cases hthread : server.engineThread with
  | processing responses =>
      rw [hthread] at hascending
      by_cases hempty : server.exchange.gateway.commandQueue = []
      · simpa only [hempty, if_true, List.append_nil, EngineThread.pending] using hascending
      · have hissues := server.exchange.issues_processNext clock
        simp only [hempty, if_false, List.append_nil, EngineThread.pending, List.map_append]
        rw [← List.append_assoc, hissues.ids_eq, hissues.next_eq]
        exact hascending.append_range' _
  | routing responses =>
      rw [hthread] at hascending
      cases responses with
      | nil => simpa only [List.append_nil, EngineThread.pending] using hascending
      | cons resp rest =>
          simp only [frame_onSession, engineThread_onSession, List.map_append,
            Session.sentOf_append]
          refine hascending.sublist ?_
          rw [EngineThread.pending, EngineThread.pending, List.map_cons, List.append_assoc]
          have hrouted := (sentOf_route { server with engineThread := .routing rest }
            (.ofNat resp.sessionUuid) sending resp.sbeMessage.toBytes).map execIdOf
          exact (hrouted.append_right (rest.map OrderResponse.execId)).append_left _

/-- Every step of every thread. -/
theorem Ascending.step (hascending : Ascending server os) (op : ServerOp) :
    Ascending ((machine auth).step server op).1 (os ++ ((machine auth).step server op).2) := by
  cases op with
  | connect now =>
      refine hascending.other ?_ (congrArg _ (engineThread_connect now)) (by simp [machine])
      simp only [machine, exchange_connect]
  | message uuid clock now data =>
      refine hascending.other ?_ (congrArg _ (engineThread_onFrame uuid clock now data))
        (not_application_onFrame uuid clock now data)
      simp only [machine]
      rcases server.onFrame_cases auth uuid clock now data with
        hidle | ⟨session, s, gateway, effects, -, -, -, hforwarded, hframe⟩
      · rw [hidle]
      · rw [hframe]
        exact OrderEntryGateway.execBuilder_onEffects hforwarded
  | disconnect uuid clock =>
      refine hascending.other ?_ (congrArg _ (engineThread_onSession uuid _))
        (not_application_onDisconnect uuid clock)
      simp only [machine, onDisconnect, frame_onSession]
  | timerTick clock => exact hascending.other rfl rfl (not_application_onTimerTick _ clock)
  | engine clock sending => exact hascending.engineStep clock sending

/-- Over every run of the threads, from any exchange, the reports sent to all sessions carry
the ids of ascending numbers, and no id twice. -/
theorem execution_ids_ascend (auth : HmacAuthenticator) (exchange : Exchange) (maxSessions : Nat)
    (hmacKey : Option (List UInt8)) (ops : List ServerOp) :
    let run := (machine auth).run (init exchange maxSessions hmacKey) ops
    let ids := (Session.sentOf (run.2.map Prod.snd)).map execIdOf
    let next := run.1.exchange.gateway.execBuilder.nextExecId
    Stamped execStamp ids next ∧ (next ≤ 2 ^ 64 → ids.Nodup) := by
  intro run ids next
  have hadmits : (machine auth).Admits (fun _ _ => True) (init exchange maxSessions hmacKey) ops :=
    Machine.admits_of_forall (fun _ _ => trivial) _ ops
  have hinit : Ascending (init exchange maxSessions hmacKey) [] := stamped_nil _ _
  have hascending := Machine.history_invariant (P := fun _ server os => Ascending server os)
    hinit (fun _ _ _ op hascending _ => hascending.step op) ops hadmits
  have hids : Stamped execStamp ids next := hascending.sublist (List.sublist_append_left _ _)
  refine ⟨hids, fun hnext => hids.nodup fun m hm n hn => ?_⟩
  exact execStamp_injOn m (hm.trans_le hnext) n (hn.trans_le hnext)

theorem execution_ids_ascend_oneReject :
    let run := (machine Session.withoutOpenssl).run (init {} 100 none) oneReject
    let ids := (Session.sentOf (run.2.map Prod.snd)).map execIdOf
    ids = [execStamp 1] ∧ ids.Nodup := by
  intro run ids
  refine ⟨by decide +kernel, ?_⟩
  exact (execution_ids_ascend _ {} 100 none oneReject).2 (by decide +kernel)

end ExchangeServer

end SimCme
