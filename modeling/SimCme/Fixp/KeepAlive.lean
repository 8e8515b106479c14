import SimCme.Fixp.SessionRuns

/-!
# Keeping a session alive

An established session is called by a timer.  The call sends a heartbeat when nothing was
sent for an interval, and ends the session when nothing was received for two.  The interval
is the client's, within limits.

Main results:

- Theorem {lit}`Session.dated_step`: what a call does to the times a session notes.
- Theorem {lit}`keepAlive_of_run`: in a run whose timer calls are never further apart than
  a period, an established session has received a frame within two intervals and a period,
  has sent a message within an interval and a period, and is spared by the timer as long as
  frames come in.
-/

open Library

namespace SimCme

/-! ## Readings of the clock -/

/-- The readings that a call takes of the monotonic clock, in order. -/
def SessionOp.readings : SessionOp → List Int
  | .onMessage clock _ => [clock.now, clock.established, clock.sent]
  | .onTimer clock => [clock.now, clock.sent]
  | .sendApplicationMessage clock _ => [clock.sent]
  | .terminate clock _ => [clock.sent]

/-- The reading after the last message that a call sends. -/
def SessionOp.sent : SessionOp → Int
  | .onMessage clock _ => clock.sent
  | .onTimer clock => clock.sent
  | .sendApplicationMessage clock _ => clock.sent
  | .terminate clock _ => clock.sent

theorem SessionOp.sent_mem_readings (op : SessionOp) : op.sent ∈ op.readings := by
  cases op <;> simp [sent, readings]

/-- The times of the calls of the timer. -/
def ticksOf (ops : List SessionOp) : List Int :=
  ops.filterMap fun
    | .onTimer clock => some clock.now
    | _ => none

/-- A call whose readings follow those before it, within a period of the start or of a call
of the timer. -/
structure Timely (start period : Int) (before : List SessionOp) (op : SessionOp) : Prop where
  in_order : op.readings.Pairwise (· ≤ ·)
  from_start : ∀ r ∈ op.readings, start ≤ r
  follows : ∀ earlier ∈ before, ∀ r ∈ earlier.readings, ∀ r' ∈ op.readings, r ≤ r'
  ticked : ∃ tick ∈ start :: ticksOf before, ∀ r ∈ op.readings, r ≤ tick + period

instance decidableTimely (start period : Int) (before : List SessionOp) (op : SessionOp) :
    Decidable (Timely start period before op) :=
  decidable_of_iff
    (op.readings.Pairwise (· ≤ ·) ∧ (∀ r ∈ op.readings, start ≤ r) ∧
      (∀ earlier ∈ before, ∀ r ∈ earlier.readings, ∀ r' ∈ op.readings, r ≤ r') ∧
      ∃ tick ∈ start :: ticksOf before, ∀ r ∈ op.readings, r ≤ tick + period)
    ⟨fun ⟨horder, hstart, hfollows, hticked⟩ => ⟨horder, hstart, hfollows, hticked⟩,
      fun htimely => ⟨htimely.1, htimely.2, htimely.3, htimely.4⟩⟩

theorem mem_ticksOf {ops : List SessionOp} {tick : Int} (htick : tick ∈ ticksOf ops) :
    ∃ op ∈ ops, tick ∈ op.readings := by
  rcases List.mem_filterMap.mp htick with ⟨op, hop, heq⟩
  cases op with
  | onTimer clock =>
      cases heq
      exact ⟨_, hop, List.mem_cons_self⟩
  | _ => cases heq

theorem mem_ticksOf_concat {start tick : Int} {ops : List SessionOp} {op : SessionOp}
    (htick : tick ∈ start :: ticksOf (ops ++ [op])) :
    tick ∈ start :: ticksOf ops ∨ ∃ clock, op = .onTimer clock ∧ tick = clock.now := by
  rw [ticksOf, List.filterMap_append, ← List.cons_append, List.mem_append] at htick
  refine htick.imp_right fun htick => ?_
  cases op with
  | onTimer clock => exact ⟨clock, rfl, by simpa using htick⟩
  | _ => simp at htick

/-- The timer has not called later than a reading of a call. -/
theorem Timely.tick_le {start period : Int} {before : List SessionOp} {op : SessionOp}
    (htimely : Timely start period before op) {r : Int} (hr : r ∈ op.readings) :
    ∀ tick ∈ start :: ticksOf before, tick ≤ r := by
  intro tick htick
  rcases List.mem_cons.mp htick with rfl | htick
  · exact htimely.from_start r hr
  · rcases mem_ticksOf htick with ⟨earlier, hearlier, hmem⟩
    exact htimely.follows earlier hearlier tick hmem r hr

/-- A call takes note of a frame at a time. -/
def SessionOp.Hears (op : SessionOp) (time : Int) : Prop :=
  ∃ clock data, op = .onMessage clock data ∧ MessageHeader.layout.size ≤ data.length ∧
    (time = clock.now ∨ time = clock.established)

theorem SessionOp.Hears.mem_readings {op : SessionOp} {time : Int} (hhears : op.Hears time) :
    time ∈ op.readings := by
  rcases hhears with ⟨clock, data, rfl, -, rfl | rfl⟩ <;> simp [readings]

/-- A call sends a message, and what is noted is the time after it. -/
structure SessionOp.Speaks (op : SessionOp) (effects : List SessionEffect) (time : Int) :
    Prop where
  time_eq : time = op.sent
  sends : ∃ msg, .send msg ∈ effects

theorem SessionOp.Speaks.mem_readings {op : SessionOp} {effects : List SessionEffect}
    {time : Int} (hspeaks : op.Speaks effects time) : time ∈ op.readings := by
  rw [hspeaks.time_eq]
  exact op.sent_mem_readings

namespace Session

variable {auth : HmacAuthenticator} {s t : Session} {clock : SessionClock} {op : SessionOp}
  {data : List UInt8} {effects : List SessionEffect}

/-- Fewer than some milliseconds have passed. -/
theorem millisecondsSince_lt_iff {earlier now n : Int} (hpos : 0 < n) :
    millisecondsSince earlier now < n ↔ now - earlier < n * 1000000 := by
  unfold millisecondsSince
  by_cases hnonneg : 0 ≤ now - earlier
  · rw [Int.tdiv_eq_ediv_of_nonneg hnonneg, Int.ediv_lt_iff_lt_mul (by decide)]
  · -- a clock that has run backwards has passed less than nothing
    have hback : 0 ≤ (-(now - earlier)).tdiv 1000000 := Int.tdiv_nonneg (by omega) (by decide)
    rw [Int.neg_tdiv] at hback
    omega

/-! ## What a call notes -/

/-- What a call that leaves the session established does to its interval and its times. -/
structure Dated (s : Session) (op : SessionOp) (t : Session) (effects : List SessionEffect) :
    Prop where
  interval : s.state = .established ∧ t.keepAliveIntervalMs = s.keepAliveIntervalMs ∨
    1000 ≤ t.keepAliveIntervalMs ∧ t.keepAliveIntervalMs ≤ 60000 ∧
      op.Hears t.lastReceived ∧ op.Speaks effects t.lastSent
  received : t.lastReceived = s.lastReceived ∨ op.Hears t.lastReceived
  sent : t.lastSent = s.lastSent ∨ op.Speaks effects t.lastSent
  ticked : ∀ clock, op = .onTimer clock →
    millisecondsSince t.lastReceived clock.now < t.keepAliveIntervalMs.toNat * 2 ∧
      (millisecondsSince t.lastSent clock.now < t.keepAliveIntervalMs.toNat ∨
        t.lastSent = clock.sent)
  noted : ∀ clock data, op = .onMessage clock data →
    MessageHeader.layout.size ≤ data.length → op.LongEnough → op.Hears t.lastReceived

/-- A time that the call does not note is that of a session established before. -/
theorem Dated.received_cases (hdated : Dated s op t effects) :
    (s.state = .established ∧ t.keepAliveIntervalMs = s.keepAliveIntervalMs ∧
        t.lastReceived = s.lastReceived) ∨ op.Hears t.lastReceived := by
  rcases hdated.interval with ⟨hestablished, hinterval⟩ | ⟨-, -, hhears, -⟩
  · exact hdated.received.imp_left fun heq => ⟨hestablished, hinterval, heq⟩
  · exact Or.inr hhears

theorem Dated.sent_cases (hdated : Dated s op t effects) :
    (s.state = .established ∧ t.keepAliveIntervalMs = s.keepAliveIntervalMs ∧
        t.lastSent = s.lastSent) ∨ op.Speaks effects t.lastSent := by
  rcases hdated.interval with ⟨hestablished, hinterval⟩ | ⟨-, -, -, hspeaks⟩
  · exact hdated.sent.imp_left fun heq => ⟨hestablished, hinterval, heq⟩
  · exact Or.inr hspeaks

theorem clampKeepAlive_range (interval : UInt32) :
    1000 ≤ clampKeepAlive interval ∧ clampKeepAlive interval ≤ 60000 := by
  unfold clampKeepAlive
  simp only [UInt32.le_iff_toNat_le, UInt32.lt_iff_toNat_lt, gt_iff_lt]
  split <;> split <;> simp_all

/-- A handler that leaves an established session as it is, up to a message it sends. -/
structure Stays (s : Session) (clock : SessionClock) (t : Session)
    (effects : List SessionEffect) : Prop where
  established : s.state = .established
  interval_eq : t.keepAliveIntervalMs = s.keepAliveIntervalMs
  received_eq : t.lastReceived = s.lastReceived
  sent : t.lastSent = s.lastSent ∨ t.lastSent = clock.sent ∧ ∃ msg, .send msg ∈ effects

theorem Stays.refl (hs : s.state = .established) (clock : SessionClock)
    (effects : List SessionEffect) : Stays s clock s effects :=
  ⟨hs, rfl, rfl, Or.inl rfl⟩

theorem not_established_terminate (s : Session) (clock : SessionClock) (errorCode : UInt16) :
    (s.terminate clock errorCode).1.state ≠ .established := by
  unfold terminate
  split
  · simp_all
  · simp

theorem stays_handleNegotiate (hhandled : s.handleNegotiate auth clock data = some (t, effects))
    (hestablished : t.state = .established) : Stays s clock t effects := by
  unfold handleNegotiate at hhandled
  split at hhandled
  · cases hhandled
    exact .refl hestablished clock _
  · simp only [Option.bind_eq_bind, Option.bind_eq_some_iff] at hhandled
    rcases hhandled with ⟨neg, -, accepted, -, hanswer⟩
    exfalso
    split at hanswer
    · cases hanswer
      simp at hestablished
    · have hterminated := s.not_established_terminate clock 8
      rw [Option.some.inj hanswer] at hterminated
      exact hterminated hestablished

theorem stays_handleRetransmitRequest
    (hhandled : s.handleRetransmitRequest clock data = some (t, effects))
    (hestablished : t.state = .established) : Stays s clock t effects := by
  unfold handleRetransmitRequest at hhandled
  split at hhandled
  · cases hhandled
    exact .refl hestablished clock _
  · rename_i hs
    simp only [Option.bind_eq_bind, Option.bind_eq_some_iff] at hhandled
    rcases hhandled with ⟨req, -, hanswer⟩
    split at hanswer
    · cases hanswer
      exact ⟨not_not.mp hs, rfl, rfl, Or.inr ⟨rfl, _, List.mem_cons_self⟩⟩
    · cases hanswer
      exact ⟨not_not.mp hs, rfl, rfl, Or.inr ⟨rfl, _, List.mem_cons_self⟩⟩

theorem stays_handleApplicationMessage {templateId : UInt16}
    (hhandled : s.handleApplicationMessage clock templateId data = some (t, effects))
    (hestablished : t.state = .established) : Stays s clock t effects := by
  unfold handleApplicationMessage at hhandled
  split at hhandled
  · cases hhandled
    exact .refl hestablished clock _
  · rename_i hs
    simp only [Option.bind_eq_bind, Option.bind_eq_some_iff] at hhandled
    rcases hhandled with ⟨seq, -, hanswer⟩
    cases hanswer
    refine ⟨not_not.mp hs, ?_, ?_, ?_⟩
    · split <;> split <;> rfl
    · split <;> split <;> rfl
    · by_cases hgap : seq > s.nextInSeq
      · right
        constructor
        · simp only [if_pos hgap]
          split <;> rfl
        · simp only [if_pos hgap]
          exact ⟨_, List.mem_cons_self⟩
      · left
        simp only [if_neg hgap]
        split <;> rfl

theorem stays_handleSequence (hhandled : s.handleSequence data = some (t, effects))
    (hestablished : t.state = .established) (clock : SessionClock) :
    Stays s clock t effects := by
  unfold handleSequence at hhandled
  split at hhandled
  · cases hhandled
    exact .refl hestablished clock _
  · rcases Option.bind_eq_some_iff.mp hhandled with ⟨seq, -, hanswer⟩
    cases hanswer
    exact .refl hestablished clock _

theorem dated_onTimer (hestablished : (s.onTimer clock).1.state = .established) :
    Dated s (.onTimer clock) (s.onTimer clock).1 (s.onTimer clock).2 := by
  by_cases hs : s.state = .established
  · simp only [onTimer, hs, ne_eq, not_true_eq_false, if_false] at hestablished ⊢
    generalize hheartbeat :
      (if millisecondsSince s.lastSent clock.now ≥ s.keepAliveIntervalMs.toNat then
        s.sendSequenceHeartbeat clock else (s, [])) = beat at hestablished ⊢
    have hbeat : beat.1.keepAliveIntervalMs = s.keepAliveIntervalMs ∧
        beat.1.lastReceived = s.lastReceived ∧
        (beat.1.lastSent = s.lastSent ∧
            millisecondsSince s.lastSent clock.now < s.keepAliveIntervalMs.toNat ∨
          SessionOp.Speaks (.onTimer clock) beat.2 beat.1.lastSent) := by
      subst hheartbeat
      split
      · exact ⟨rfl, rfl, Or.inr ⟨rfl, _, List.mem_cons_self⟩⟩
      · rename_i hrecent
        exact ⟨rfl, rfl, Or.inl ⟨rfl, lt_of_not_ge hrecent⟩⟩
    rcases hbeat with ⟨hinterval, hreceived, hsent⟩
    split at hestablished
    · exact absurd hestablished (not_established_terminate _ clock 1)
    · rename_i hheard
      rw [if_neg hheard, List.append_nil]
      refine ⟨Or.inl ⟨hs, hinterval⟩, Or.inl hreceived, hsent.imp_left And.left, ?_, by simp⟩
      intro clock' hop
      cases hop
      constructor
      · rw [hreceived]
        exact lt_of_not_ge hheard
      · rcases hsent with ⟨hsent, hrecent⟩ | hspeaks
        · exact Or.inl (by rwa [hsent, hinterval])
        · exact Or.inr hspeaks.time_eq
  · rw [onTimer, if_pos hs] at hestablished
    exact absurd hestablished hs

/-- The timer spares a session that has received something. -/
theorem established_onTimer (hs : s.state = .established)
    (hrecent : millisecondsSince s.lastReceived clock.now < s.keepAliveIntervalMs.toNat * 2) :
    (s.onTimer clock).1.state = .established := by
  simp only [onTimer, hs, ne_eq, not_true_eq_false, if_false]
  by_cases hsilent : millisecondsSince s.lastSent clock.now ≥ s.keepAliveIntervalMs.toNat
  · have hinterval : (s.sendSequenceHeartbeat clock).1.keepAliveIntervalMs =
        s.keepAliveIntervalMs := rfl
    simp only [if_pos hsilent]
    rw [hinterval, if_neg (not_le_of_gt hrecent)]
    exact hs
  · simp only [if_neg hsilent, if_neg (not_le_of_gt hrecent)]
    exact hs

/-- What a frame does to the times, once it is noted. -/
theorem Stays.dated (hstays : Stays { s with lastReceived := clock.now } clock t effects)
    (hlen : MessageHeader.layout.size ≤ data.length) :
    Dated s (.onMessage clock data) t effects where
  interval := Or.inl ⟨hstays.established, hstays.interval_eq⟩
  received := Or.inr ⟨clock, data, rfl, hlen, Or.inl hstays.received_eq⟩
  sent := hstays.sent.imp id fun hsent => ⟨hsent.1, hsent.2⟩
  ticked := by simp
  noted _ _ _ _ _ := ⟨clock, data, rfl, hlen, Or.inl hstays.received_eq⟩

theorem dated_handleEstablish
    (hhandled : { s with lastReceived := clock.now }.handleEstablish auth clock data =
      some (t, effects)) (hestablished : t.state = .established)
    (hlen : MessageHeader.layout.size ≤ data.length) :
    Dated s (.onMessage clock data) t effects := by
  unfold handleEstablish at hhandled
  split at hhandled
  · cases hhandled
    exact (Stays.refl hestablished clock _).dated hlen
  · simp only [Option.bind_eq_bind, Option.bind_eq_some_iff] at hhandled
    rcases hhandled with ⟨est, -, accepted, -, hanswer⟩
    split at hanswer
    · cases hanswer
      have hrange := clampKeepAlive_range est.keepAliveInterval.toUInt32
      have hhears : SessionOp.Hears (.onMessage clock data) clock.established :=
        ⟨clock, data, rfl, hlen, Or.inr rfl⟩
      exact
        { interval := Or.inr ⟨hrange.1, hrange.2, hhears, rfl, _, List.mem_cons_self⟩
          received := Or.inr hhears
          sent := Or.inr ⟨rfl, _, List.mem_cons_self⟩
          ticked := by simp
          noted := fun _ _ _ _ _ => hhears }
    · have hterminated := { s with lastReceived := clock.now }.not_established_terminate clock 8
      rw [Option.some.inj hanswer] at hterminated
      exact absurd hestablished hterminated

theorem dated_onMessage (hhandled : s.onMessage auth clock data = some (t, effects))
    (hestablished : t.state = .established) : Dated s (.onMessage clock data) t effects := by
  unfold onMessage at hhandled
  split at hhandled
  · rename_i hshort
    cases hhandled
    refine ⟨Or.inl ⟨hestablished, rfl⟩, Or.inl rfl, Or.inl rfl, by simp, ?_⟩
    intro clock' data' hop hlen
    cases hop
    exact absurd hlen (Nat.not_le_of_lt hshort)
  · rename_i hlen
    have hlen := Nat.le_of_not_lt hlen
    rcases Option.bind_eq_some_iff.mp hhandled with ⟨templateId, -, hhandled⟩
    split at hhandled
    · exact (stays_handleNegotiate hhandled hestablished).dated hlen
    · exact dated_handleEstablish hhandled hestablished hlen
    · exact (stays_handleSequence hhandled hestablished clock).dated hlen
    · rcases Option.bind_eq_some_iff.mp hhandled with ⟨term, -, hanswer⟩
      have hterminated := { s with lastReceived := clock.now }.not_established_terminate clock 0
      rw [Option.some.inj hanswer] at hterminated
      exact absurd hestablished hterminated
    · exact (stays_handleRetransmitRequest hhandled hestablished).dated hlen
    · exact (stays_handleApplicationMessage hhandled hestablished).dated hlen
    · cases hhandled
      exact (Stays.refl hestablished clock _).dated hlen

/-- What a call does to the times a session notes. -/
theorem dated_step (auth : HmacAuthenticator) (s : Session) (op : SessionOp)
    (hestablished : ((machine auth).step s op).1.state = .established) :
    Dated s op ((machine auth).step s op).1 ((machine auth).step s op).2 := by
  cases op with
  | onMessage clock data =>
      cases hhandled : s.onMessage auth clock data with
      | none =>
          simp only [machine, apply, hhandled, Option.getD_none] at hestablished ⊢
          refine ⟨Or.inl ⟨hestablished, rfl⟩, Or.inl rfl, Or.inl rfl, by simp, ?_⟩
          intro clock' data' hop hlen hlong
          have hsome := apply_isSome auth s hlong
          rw [apply, hhandled] at hsome
          contradiction
      | some outcome =>
          simp only [machine, apply, hhandled, Option.getD_some] at hestablished ⊢
          exact dated_onMessage hhandled hestablished
  | onTimer clock => exact dated_onTimer hestablished
  | sendApplicationMessage clock sbeData =>
      simp only [machine, apply, Option.getD_some] at hestablished ⊢
      by_cases hs : s.state = .established
      · rw [sendApplicationMessage, if_neg (not_not.mpr hs)]
        refine ⟨Or.inl ⟨hs, rfl⟩, Or.inl rfl, ?_, by simp, by simp⟩
        exact Or.inr ⟨rfl, _, List.mem_cons_self⟩
      · rw [sendApplicationMessage, if_pos hs] at hestablished
        exact absurd hestablished hs
  | terminate clock errorCode =>
      exact absurd hestablished (not_established_terminate s clock errorCode)

/-! ## Whole runs -/

/-- A run sends a message and notes the time after it. -/
def SpokeAt (auth : HmacAuthenticator) (s : Session) (ops : List SessionOp) (time : Int) :
    Prop :=
  ∃ before op after, ops = before ++ op :: after ∧
    op.Speaks ((machine auth).step (s.after auth before) op).2 time

theorem SpokeAt.concat {ops : List SessionOp} {time : Int} (hspoke : SpokeAt auth s ops time)
    (op : SessionOp) : SpokeAt auth s (ops ++ [op]) time := by
  rcases hspoke with ⟨before, op', after, rfl, hspeaks⟩
  exact ⟨before, op', after ++ [op], by simp, hspeaks⟩

/-- The nanoseconds of an interval. -/
def intervalNanos (s : Session) : Int :=
  s.keepAliveIntervalMs.toNat * 1000000

/-- What is known of the times of an established session after some calls. -/
structure Kept (auth : HmacAuthenticator) (start : Int) (s : Session) (ops : List SessionOp)
    (t : Session) : Prop where
  interval_ge : 1000 ≤ t.keepAliveIntervalMs
  interval_le : t.keepAliveIntervalMs ≤ 60000
  heard : ∃ op ∈ ops, op.Hears t.lastReceived
  spoke : SpokeAt auth s ops t.lastSent
  frames : ∀ clock data, .onMessage clock data ∈ ops →
    MessageHeader.layout.size ≤ data.length →
    SessionOp.LongEnough (.onMessage clock data) → clock.now ≤ t.lastReceived
  received_tick : ∀ tick ∈ start :: ticksOf ops, tick - t.lastReceived < 2 * t.intervalNanos
  sent_tick : ∀ tick ∈ start :: ticksOf ops, tick - t.lastSent < t.intervalNanos

theorem intervalNanos_pos (hge : 1000 ≤ s.keepAliveIntervalMs) : 0 < s.intervalNanos := by
  rw [UInt32.le_iff_toNat_le] at hge
  have hthousand : (1000 : UInt32).toNat = 1000 := rfl
  unfold intervalNanos
  omega

/-- A call that leaves the session established. -/
theorem Kept.concat {start period : Int} {ops : List SessionOp}
    (hkept : (s.after auth ops).state = .established →
      Kept auth start s ops (s.after auth ops))
    (htimely : Timely start period ops op)
    (hestablished : (s.after auth (ops ++ [op])).state = .established) :
    Kept auth start s (ops ++ [op]) (s.after auth (ops ++ [op])) := by
  rw [after_concat] at hestablished ⊢
  have hdated := dated_step auth (s.after auth ops) op hestablished
  generalize ((machine auth).step (s.after auth ops) op).1 = u at hestablished hdated ⊢
  have hrange : 1000 ≤ u.keepAliveIntervalMs ∧ u.keepAliveIntervalMs ≤ 60000 := by
    rcases hdated.interval with ⟨hearlier, hinterval⟩ | ⟨hge, hle, -⟩
    · rw [hinterval]
      exact ⟨(hkept hearlier).interval_ge, (hkept hearlier).interval_le⟩
    · exact ⟨hge, hle⟩
  have hpos := intervalNanos_pos hrange.1
  have hnat : 0 < u.keepAliveIntervalMs.toNat := by
    rw [intervalNanos] at hpos
    omega
  constructor
  case interval_ge => exact hrange.1
  case interval_le => exact hrange.2
  case heard =>
    rcases hdated.received_cases with ⟨hearlier, -, heq⟩ | hhears
    · rcases (hkept hearlier).heard with ⟨op', hop', hhears⟩
      exact ⟨op', List.mem_append_left _ hop', heq ▸ hhears⟩
    · exact ⟨op, by simp, hhears⟩
  case spoke =>
    rcases hdated.sent_cases with ⟨hearlier, -, heq⟩ | hspeaks
    · rw [heq]
      exact (hkept hearlier).spoke.concat op
    · exact ⟨ops, op, [], rfl, hspeaks⟩
  case frames =>
    intro clock data hmem hlen hlong
    rcases List.mem_append.mp hmem with hmem | hmem
    · rcases hdated.received_cases with ⟨hearlier, -, heq⟩ | hhears
      · rw [heq]
        exact (hkept hearlier).frames clock data hmem hlen hlong
      · exact htimely.follows _ hmem _ List.mem_cons_self _ hhears.mem_readings
    · rcases List.mem_singleton.mp hmem with rfl
      rcases hdated.noted clock data rfl hlen hlong with ⟨clock', data', hop, -, htime⟩
      cases hop
      have horder := htimely.in_order
      simp only [SessionOp.readings, List.pairwise_cons, List.mem_cons] at horder
      rcases htime with htime | htime
      · exact htime.ge
      · rw [htime]
        exact horder.1 _ (Or.inl rfl)
  case received_tick =>
    intro tick htick
    rcases mem_ticksOf_concat htick with htick | ⟨clock, hop, rfl⟩
    · rcases hdated.received_cases with ⟨hearlier, hinterval, heq⟩ | hhears
      · have hbound := (hkept hearlier).received_tick tick htick
        rwa [heq, intervalNanos, hinterval]
      · have hle := htimely.tick_le hhears.mem_readings tick htick
        omega
    · have hrecent := (millisecondsSince_lt_iff (by omega)).mp (hdated.ticked clock hop).1
      rw [intervalNanos]
      omega
  case sent_tick =>
    intro tick htick
    rcases mem_ticksOf_concat htick with htick | ⟨clock, hop, rfl⟩
    · rcases hdated.sent_cases with ⟨hearlier, hinterval, heq⟩ | hspeaks
      · have hbound := (hkept hearlier).sent_tick tick htick
        rwa [heq, intervalNanos, hinterval]
      · have hle := htimely.tick_le hspeaks.mem_readings tick htick
        omega
    · rcases (hdated.ticked clock hop).2 with hrecent | hbeat
      · exact (millisecondsSince_lt_iff (by omega)).mp hrecent
      · -- the heartbeat is sent after the timer has looked at the clock
        subst hop
        have horder : clock.now ≤ clock.sent := by simpa [SessionOp.readings] using htimely.in_order
        rw [hbeat]
        omega

theorem kept_of_run {start period : Int} (hconnected : s.state = .connected)
    (ops : List SessionOp) (htimely : EachAfter (Timely start period) ops)
    (hestablished : (s.after auth ops).state = .established) :
    Kept auth start s ops (s.after auth ops) := by
  induction ops using List.reverseRecOn with
  | nil =>
      rw [after, Machine.run_nil, hconnected] at hestablished
      contradiction
  | append_singleton ops op ih =>
      exact Kept.concat (fun hearlier => ih htimely.of_append hearlier) htimely.last hestablished

end Session

/-- What a maintainer may rely on at a call on an established session. -/
structure KeepsAlive (auth : HmacAuthenticator) (period : Int) (s : Session)
    (ops : List SessionOp) (op : SessionOp) : Prop where
  interval_ge : 1000 ≤ (s.after auth ops).keepAliveIntervalMs
  interval_le : (s.after auth ops).keepAliveIntervalMs ≤ 60000
  /-- A frame has come in not long ago. -/
  hears : ∀ now ∈ op.readings, ∃ earlier ∈ ops, ∃ time, earlier.Hears time ∧
    now - time < 2 * (s.after auth ops).intervalNanos + period
  /-- Neither is it long since a message was sent. -/
  speaks : ∀ now ∈ op.readings, ∃ time, Session.SpokeAt auth s ops time ∧
    now - time < (s.after auth ops).intervalNanos + period
  /-- The timer does not end a session of which a frame has come in recently. -/
  spares : ∀ clock clock' data, op = .onTimer clock → .onMessage clock' data ∈ ops →
    MessageHeader.layout.size ≤ data.length →
    SessionOp.LongEnough (.onMessage clock' data) →
    clock.now - clock'.now < 2 * (s.after auth ops).intervalNanos →
    (s.after auth (ops ++ [op])).state = .established

/-- In every run from a new session whose timer is called in time, at every call on the
established session. -/
theorem keepAlive_of_run (auth : HmacAuthenticator) (s : Session)
    (hconnected : s.state = .connected) (start period : Int) (ops : List SessionOp)
    (op : SessionOp) (htimely : EachAfter (Timely start period) (ops ++ [op]))
    (hestablished : (s.after auth ops).state = .established) :
    KeepsAlive auth period s ops op := by
  have hkept := Session.kept_of_run hconnected ops htimely.of_append hestablished
  rcases htimely.last.ticked with ⟨tick, htick, hperiod⟩
  constructor
  case interval_ge => exact hkept.interval_ge
  case interval_le => exact hkept.interval_le
  case hears =>
    intro now hnow
    rcases hkept.heard with ⟨earlier, hearlier, hhears⟩
    refine ⟨earlier, hearlier, _, hhears, ?_⟩
    have hbound := hkept.received_tick tick htick
    have hlate := hperiod now hnow
    omega
  case speaks =>
    intro now hnow
    refine ⟨_, hkept.spoke, ?_⟩
    have hbound := hkept.sent_tick tick htick
    have hlate := hperiod now hnow
    omega
  case spares =>
    intro clock clock' data hop hmem hlen hlong hrecent
    subst hop
    have hframe := hkept.frames clock' data hmem hlen hlong
    have hpos := Session.intervalNanos_pos hkept.interval_ge
    rw [Session.after_concat]
    apply Session.established_onTimer hestablished
    rw [Session.intervalNanos] at hrecent hpos
    rw [Session.millisecondsSince_lt_iff (by omega)]
    omega

/-- A visit whose timer ticks once a second. -/
def secondlyVisit : List SessionOp :=
  let second (n : Int) : SessionClock := ⟨n * 1000000000, n * 1000000000, n * 1000000000, 0⟩
  [ .onMessage (second 0) (Negotiate500.format.toBytes {})
  , .onTimer (second 1)
  , .onMessage (second 1) (Establish503.format.toBytes { keepAliveInterval := 1000 })
  , .onTimer (second 2)
  , .onTimer (second 2) ]

theorem keepAlive_of_secondlyVisit :
    KeepsAlive Session.withoutOpenssl 1000000000 { uuid := 1, lastReceived := 0, lastSent := 0 }
      secondlyVisit (.onTimer ⟨2500000000, 2500000000, 2500000000, 0⟩) :=
  keepAlive_of_run _ _ rfl 0 _ _ _ (by decide +kernel) (by decide +kernel)

end SimCme
