import Mathlib.Data.List.AList
import SimCme.Common.Types
import SimCme.Library.Observer

/-!
# The status machine and its callback

The status machine keeps the trading status of every registered instrument and reports each
change to a callback.  The callback is any code.  It may call the machine again while the
machine is calling it, and while a loop over all instruments runs.  The machine stores a
status before it reports it, so the reports still tell the statuses.

A call that inserts an instrument while a loop over the instruments runs invalidates the
iterator of the loop, and does not occur.

Main results:

- Theorem {lit}`SecurityStatusMachine.Runs.follows`: the registrations and the reported
  changes lead from the statuses at the start to those at the end.
- Theorem {lit}`SecurityStatusMachine.Runs.closed`: an instrument that is closed stays closed
  until it is registered again.
- Theorem {lit}`SecurityStatusMachine.closeAll_closes`: closing all instruments closes those
  that have been open.
- Theorem {lit}`SecurityStatusMachine.reports_tell_statuses`: every report is a valid change of
  the status, and the status is the one of the last report.
-/

open Library

namespace SimCme

/-! ## The machine -/

structure SecurityStatusEvent where
  securityId : SecurityId
  oldStatus : SecurityTradingStatus
  newStatus : SecurityTradingStatus
  timestamp : Timestamp
deriving DecidableEq, Repr

structure SecurityStatusMachine where
  states : AList fun _ : SecurityId => SecurityTradingStatus := ∅
  /-- A callback is set. -/
  callback : Bool := false

namespace SecurityStatusMachine

def addInstrument (m : SecurityStatusMachine) (id : SecurityId)
    (initial : SecurityTradingStatus := .preOpen) : SecurityStatusMachine :=
  { m with states := m.states.insert id initial }

def getStatus (m : SecurityStatusMachine) (id : SecurityId) : SecurityTradingStatus :=
  (m.states.lookup id).getD .preOpen

def isValidTransition : SecurityTradingStatus → SecurityTradingStatus → Bool
  | .preOpen, target => target = .open
  | .open, target => target = .halt ∨ target = .close
  | .halt, target => target = .open ∨ target = .close
  | .close, _ => false

/-- {lit}`transition` up to the callback: its result, the machine, and the event to report. -/
def transition (m : SecurityStatusMachine) (id : SecurityId) (newStatus : SecurityTradingStatus)
    (now : Timestamp) : Bool × SecurityStatusMachine × Option SecurityStatusEvent :=
  match m.states.lookup id with
  | none => (false, m, none)
  | some oldStatus =>
      if oldStatus = newStatus then (true, m, none)
      else if isValidTransition oldStatus newStatus then
        (true, { m with states := m.states.insert id newStatus },
          if m.callback then
            some
              { securityId := id
                oldStatus := oldStatus
                newStatus := newStatus
                timestamp := now }
          else none)
      else (false, m, none)

/-- A call on the machine.  The loops over all instruments are one call. -/
inductive Call where
  | addInstrument (id : SecurityId) (initial : SecurityTradingStatus)
  | transition (id : SecurityId) (newStatus : SecurityTradingStatus)
  | transitionAll (newStatus : SecurityTradingStatus)
deriving DecidableEq, Repr

namespace Call

def openMarket (id : SecurityId) : Call :=
  .transition id .open

def haltTrading (id : SecurityId) : Call :=
  .transition id .halt

def resumeTrading (id : SecurityId) : Call :=
  .transition id .open

def closeMarket (id : SecurityId) : Call :=
  .transition id .close

def openAll : Call :=
  .transitionAll .open

def closeAll : Call :=
  .transitionAll .close

end Call

/-- What is seen of the machine: its registrations, and the events that are reported. -/
inductive Notice where
  | registered (id : SecurityId) (initial : SecurityTradingStatus)
  | changed (event : SecurityStatusEvent)
deriving DecidableEq, Repr

/-- Calls one after the other, perhaps inside a loop over all instruments.  A callback makes
any calls before the call that reports to it returns, and a loop visits the instruments in any
order. -/
inductive Runs : Bool → SecurityStatusMachine → List Call → List Notice →
    SecurityStatusMachine → Prop
  | done {looping : Bool} {m : SecurityStatusMachine} : Runs looping m [] [] m
  | addInstrument {looping : Bool} {m m' : SecurityStatusMachine} {id : SecurityId}
      {initial : SecurityTradingStatus} {calls : List Call} {seen : List Notice}
      (hknown : looping = true → id ∈ m.states)
      (hrest : Runs looping (m.addInstrument id initial) calls seen m') :
      Runs looping m (.addInstrument id initial :: calls) (.registered id initial :: seen) m'
  | quiet {looping : Bool} {m m' : SecurityStatusMachine} {id : SecurityId}
      {newStatus : SecurityTradingStatus} {calls : List Call} {seen : List Notice}
      (now : Timestamp) (hquiet : (m.transition id newStatus now).2.2 = none)
      (hrest : Runs looping (m.transition id newStatus now).2.1 calls seen m') :
      Runs looping m (.transition id newStatus :: calls) seen m'
  | report {looping : Bool} {m middle m' : SecurityStatusMachine} {id : SecurityId}
      {newStatus : SecurityTradingStatus} {calls made : List Call}
      {inner seen : List Notice} (now : Timestamp) {event : SecurityStatusEvent}
      (hreport : (m.transition id newStatus now).2.2 = some event)
      (hcallback : Runs looping (m.transition id newStatus now).2.1 made inner middle)
      (hrest : Runs looping middle calls seen m') :
      Runs looping m (.transition id newStatus :: calls) (.changed event :: (inner ++ seen)) m'
  | loop {looping : Bool} {m middle m' : SecurityStatusMachine}
      {newStatus : SecurityTradingStatus} {calls : List Call} {inner seen : List Notice}
      {order : List SecurityId} (horder : order.Perm m.states.keys)
      (hbody : Runs true m (order.map fun id => .transition id newStatus) inner middle)
      (hrest : Runs looping middle calls seen m') :
      Runs looping m (.transitionAll newStatus :: calls) (inner ++ seen) m'

/-! ## One transition -/

variable {m m' : SecurityStatusMachine} {id : SecurityId} {newStatus : SecurityTradingStatus}
  {now : Timestamp}

/-- What a transition does to the machine, and what it reports. -/
theorem transition_cases (m : SecurityStatusMachine) (id : SecurityId)
    (newStatus : SecurityTradingStatus) (now : Timestamp) :
    ((m.transition id newStatus now).2 = (m, none) ∧
      ∀ oldStatus ∈ m.states.lookup id,
        oldStatus = newStatus ∨ isValidTransition oldStatus newStatus = false) ∨
    ∃ oldStatus, m.states.lookup id = some oldStatus ∧
      isValidTransition oldStatus newStatus = true ∧
      (m.transition id newStatus now).2 =
        ({ m with states := m.states.insert id newStatus },
          if m.callback then some ⟨id, oldStatus, newStatus, now⟩ else none) := by
  unfold transition
  cases hlookup : m.states.lookup id with
  | none => exact .inl ⟨rfl, by simp⟩
  | some oldStatus =>
      simp only [Option.mem_some_iff, forall_eq']
      by_cases hsame : oldStatus = newStatus
      · rw [if_pos hsame]
        exact .inl ⟨rfl, .inl hsame⟩
      · rw [if_neg hsame]
        cases hvalid : isValidTransition oldStatus newStatus with
        | false => exact .inl ⟨rfl, .inr rfl⟩
        | true => exact .inr ⟨oldStatus, rfl, hvalid, rfl⟩

@[simp]
theorem callback_transition (m : SecurityStatusMachine) (id : SecurityId)
    (newStatus : SecurityTradingStatus) (now : Timestamp) :
    (m.transition id newStatus now).2.1.callback = m.callback := by
  rcases m.transition_cases id newStatus now with ⟨hsame, -⟩ | ⟨_, -, -, hchange⟩
  · rw [hsame]
  · rw [hchange]

/-- The callback stays as it is set. -/
theorem Runs.callback_eq {looping : Bool} {calls : List Call} {seen : List Notice}
    (hruns : Runs looping m calls seen m') : m'.callback = m.callback := by
  induction hruns with
  | done => rfl
  | addInstrument hknown hrest ih => exact ih
  | quiet now hquiet hrest ih => exact ih.trans (callback_transition _ _ _ _)
  | report now hreport hcallback hrest ihcallback ihrest =>
      exact ihrest.trans (ihcallback.trans (callback_transition _ _ _ _))
  | loop horder hbody hrest ihbody ihrest => exact ihrest.trans ihbody

/-! ## The reports -/

/-- The status of each registered instrument. -/
abbrev Statuses := SecurityId → Option SecurityTradingStatus

def statuses (m : SecurityStatusMachine) : Statuses := fun id =>
  m.states.lookup id

/-- An observer that knows the statuses from what it sees. -/
def watcher : Observer Statuses Notice where
  Expects known
    | .registered _ _ => True
    | .changed event =>
        known event.securityId = some event.oldStatus ∧
          isValidTransition event.oldStatus event.newStatus = true
  see known
    | .registered id initial => Function.update known id (some initial)
    | .changed event => Function.update known event.securityId (some event.newStatus)

theorem statuses_insert (m : SecurityStatusMachine) (id : SecurityId)
    (status : SecurityTradingStatus) :
    statuses { m with states := m.states.insert id status } =
      Function.update m.statuses id (some status) := by
  ext other : 1
  unfold statuses
  by_cases hother : other = id
  · rw [hother, AList.lookup_insert, Function.update_self]
  · rw [AList.lookup_insert_ne hother, Function.update_of_ne hother]

/-- A transition that reports nothing changes nothing, when a callback is set. -/
theorem transition_of_quiet (hcallback : m.callback = true)
    (hquiet : (m.transition id newStatus now).2.2 = none) :
    (m.transition id newStatus now).2.1 = m := by
  rcases m.transition_cases id newStatus now with ⟨hsame, -⟩ | ⟨_, -, -, hchange⟩
  · rw [hsame]
  · rw [hchange, hcallback] at hquiet
    contradiction

/-- The event that is reported is the change that is made. -/
theorem follows_transition {event : SecurityStatusEvent}
    (hreport : (m.transition id newStatus now).2.2 = some event) :
    watcher.Expects m.statuses (.changed event) ∧
      (m.transition id newStatus now).2.1.statuses = watcher.see m.statuses (.changed event) := by
  rcases m.transition_cases id newStatus now with ⟨hsame, -⟩ | ⟨old, hold, hvalid, hchange⟩
  · rw [hsame] at hreport
    contradiction
  · rw [hchange] at hreport ⊢
    split at hreport
    · cases hreport
      exact ⟨⟨hold, hvalid⟩, statuses_insert m id newStatus⟩
    · contradiction

/-- The watcher follows every run, with whatever calls the callback makes. -/
theorem Runs.follows {looping : Bool} {calls : List Call} {seen : List Notice}
    (hruns : Runs looping m calls seen m') (hcallback : m.callback = true) :
    watcher.Follows m.statuses seen m'.statuses := by
  induction hruns with
  | done => exact Observer.follows_nil _
  | @addInstrument _ m _ id initial _ _ hknown hrest ih =>
      have hrest := ih hcallback
      rw [SecurityStatusMachine.addInstrument, statuses_insert] at hrest
      exact ⟨trivial, hrest⟩
  | quiet now hquiet hrest ih =>
      rw [transition_of_quiet hcallback hquiet] at ih
      exact ih hcallback
  | @report _ m _ _ id newStatus _ _ _ _ now _ hreport hinner hrest ihinner ihrest =>
      rcases follows_transition hreport with ⟨hexpects, hsee⟩
      have hset := (m.callback_transition id newStatus now).trans hcallback
      have hfollows := ihinner hset
      rw [hsee] at hfollows
      exact ⟨hexpects, hfollows.append (ihrest (hinner.callback_eq.trans hset))⟩
  | loop horder hbody hrest ihbody ihrest =>
      exact (ihbody hcallback).append (ihrest (hbody.callback_eq.trans hcallback))

/-! ## Statuses that are kept -/

/-- The instrument is not registered among what is seen. -/
def NotRegistered (id : SecurityId) (seen : List Notice) : Prop :=
  ∀ initial, .registered id initial ∉ seen

theorem NotRegistered.of_append {seen seen' : List Notice}
    (hseen : NotRegistered id (seen ++ seen')) :
    NotRegistered id seen ∧ NotRegistered id seen' := by
  constructor
  · exact fun initial hmem => hseen initial (List.mem_append_left _ hmem)
  · exact fun initial hmem => hseen initial (List.mem_append_right _ hmem)

/-- A property of the status of an instrument that no valid change ends. -/
structure Lasting (Q : SecurityTradingStatus → Prop) : Prop where
  valid : ∀ {status status'}, Q status → isValidTransition status status' = true → Q status'

theorem lasting_ne_preOpen : Lasting (· ≠ .preOpen) where
  valid := by
    intro status status' hstatus hvalid
    cases status <;> cases status' <;> simp_all [isValidTransition]

theorem lasting_eq_close : Lasting (· = .close) where
  valid := by
    rintro _ status' rfl hvalid
    contradiction

/-- What is seen keeps such a property, until the instrument is registered again. -/
theorem Lasting.follows {Q : SecurityTradingStatus → Prop} (hlasting : Lasting Q)
    {known stop : Statuses} {seen : List Notice} (hfollows : watcher.Follows known seen stop)
    (hnot : NotRegistered id seen) (hknown : ∃ status ∈ known id, Q status) :
    ∃ status ∈ stop id, Q status := by
  refine hfollows.induction
    (P := fun seen known => NotRegistered id seen → ∃ status ∈ known id, Q status)
    (fun _ => hknown) ?_ hnot
  intro before known notice hbefore hexpects hnot
  rcases hnot.of_append with ⟨hearlier, hlast⟩
  rcases hbefore hearlier with ⟨status, hstatus, hQ⟩
  cases notice with
  | registered other initial =>
      have hother : id ≠ other := by
        rintro rfl
        exact hlast initial List.mem_cons_self
      exact ⟨status, by simpa [watcher, Function.update_of_ne hother] using hstatus, hQ⟩
  | changed event =>
      by_cases hother : id = event.securityId
      · rw [hother, hexpects.1] at hstatus
        cases hstatus
        exact ⟨event.newStatus, by simp [watcher, hother], hlasting.valid hQ hexpects.2⟩
      · exact ⟨status, by simpa [watcher, Function.update_of_ne hother] using hstatus, hQ⟩

/-- No change of an instrument that is closed is reported. -/
theorem not_changed_of_closed {known stop : Statuses} {seen : List Notice}
    (hfollows : watcher.Follows known seen stop) (hnot : NotRegistered id seen)
    (hclosed : known id = some .close) {event : SecurityStatusEvent}
    (hevent : .changed event ∈ seen) : event.securityId ≠ id := by
  rcases List.append_of_mem hevent with ⟨before, after, rfl⟩
  rcases hfollows.of_append with ⟨middle, hbefore, hafter⟩
  obtain ⟨status, hstatus, rfl⟩ := lasting_eq_close.follows hbefore hnot.of_append.1
    ⟨_, hclosed, rfl⟩
  rintro rfl
  have hold := hafter.1.1.symm.trans hstatus
  have hvalid := hafter.1.2
  rw [Option.some.inj hold] at hvalid
  contradiction

/-- An instrument that is closed stays closed until it is registered again. -/
theorem Runs.closed {looping : Bool} {calls : List Call} {seen : List Notice}
    (hruns : Runs looping m calls seen m') (hcallback : m.callback = true)
    (hnot : NotRegistered id seen) (hclosed : m.statuses id = some .close) :
    m'.statuses id = some .close := by
  obtain ⟨status, hstatus, rfl⟩ :=
    lasting_eq_close.follows (hruns.follows hcallback) hnot ⟨_, hclosed, rfl⟩
  exact hstatus

/-- A transition to the closed status closes an instrument that has been open. -/
theorem statuses_transition_close {status : SecurityTradingStatus}
    (hstatus : m.statuses id = some status) (hopened : status ≠ .preOpen) (now : Timestamp) :
    (m.transition id .close now).2.1.statuses id = some .close := by
  rcases m.transition_cases id .close now with ⟨hsame, hnone⟩ | ⟨old, hold, hvalid, hchange⟩
  · have hclosed : status = .close := by
      rcases hnone status hstatus with hclosed | hinvalid
      · exact hclosed
      · cases status <;> simp_all [isValidTransition]
    rw [hsame, ← hclosed]
    exact hstatus
  · rw [hchange, statuses_insert, Function.update_self]

/-- A transition keeps the statuses of other instruments, and an instrument that has been open
stays so. -/
theorem opened_transition {status : SecurityTradingStatus} {other : SecurityId}
    (hstatus : m.statuses id = some status) (hopened : status ≠ .preOpen) :
    ∃ status' ∈ (m.transition other newStatus now).2.1.statuses id, status' ≠ .preOpen := by
  rcases m.transition_cases other newStatus now with ⟨hsame, -⟩ | ⟨old, hold, hvalid, hchange⟩
  · rw [hsame]
    exact ⟨status, hstatus, hopened⟩
  · rw [hchange, statuses_insert]
    by_cases hother : id = other
    · subst hother
      rw [Function.update_self]
      have heq : status = old := Option.some.inj (hstatus.symm.trans hold)
      exact ⟨newStatus, rfl, lasting_ne_preOpen.valid (heq ▸ hopened) hvalid⟩
    · rw [Function.update_of_ne hother]
      exact ⟨status, hstatus, hopened⟩

/-- Calls that close an instrument that has been open leave it closed. -/
theorem Runs.close_of_mem {looping : Bool} {calls : List Call} {seen : List Notice}
    (hruns : Runs looping m calls seen m') (hcallback : m.callback = true)
    (hnot : NotRegistered id seen)
    (hopened : ∃ status ∈ m.statuses id, status ≠ .preOpen)
    (hmem : .transition id .close ∈ calls) : m'.statuses id = some .close := by
  induction hruns with
  | done => simp at hmem
  | @addInstrument _ m _ other initial _ seen hknown hrest ih =>
      have hother : id ≠ other := by
        rintro rfl
        exact hnot initial List.mem_cons_self
      have hcalls := List.mem_of_ne_of_mem (by simp) hmem
      refine ih hcallback (fun initial hmem => hnot initial (List.mem_cons_of_mem _ hmem)) ?_ hcalls
      rw [SecurityStatusMachine.addInstrument, statuses_insert, Function.update_of_ne hother]
      exact hopened
  | @quiet _ m _ other newStatus _ _ now hquiet hrest ih =>
      rcases hopened with ⟨status, hstatus, hne⟩
      have hset := (m.callback_transition other newStatus now).trans hcallback
      rcases List.mem_cons.mp hmem with hfirst | hlater
      · cases hfirst
        exact hrest.closed hset hnot (statuses_transition_close hstatus hne now)
      · exact ih hset hnot (opened_transition hstatus hne) hlater
  | @report _ m _ _ other newStatus _ _ inner seen now event hreport hinner hrest ihinner ihrest =>
      rcases hopened with ⟨status, hstatus, hne⟩
      have hset := (m.callback_transition other newStatus now).trans hcallback
      have hlast := hinner.callback_eq.trans hset
      obtain ⟨hwithin, hafter⟩ := NotRegistered.of_append fun initial hmem =>
        hnot initial (List.mem_cons_of_mem _ hmem)
      rcases List.mem_cons.mp hmem with hfirst | hlater
      · cases hfirst
        have hclosed := hinner.closed hset hwithin (statuses_transition_close hstatus hne now)
        exact hrest.closed hlast hafter hclosed
      · -- What the callback does leaves the instrument open, halted or closed.
        have hstill := lasting_ne_preOpen.follows (hinner.follows hset) hwithin
          (opened_transition hstatus hne)
        exact ihrest hlast hafter hstill hlater
  | loop horder hbody hrest ihbody ihrest =>
      have hlast := hbody.callback_eq.trans hcallback
      rcases hnot.of_append with ⟨hwithin, hafter⟩
      have hstill := lasting_ne_preOpen.follows (hbody.follows hcallback) hwithin hopened
      exact ihrest hlast hafter hstill (List.mem_of_ne_of_mem (by simp) hmem)

/-! ## Whole runs -/

/-- What is seen of a run tells the statuses. -/
structure Told (start stop : Statuses) (seen : List Notice) : Prop where
  statuses_eq : stop = watcher.seen start seen
  valid : EachAfter (fun before notice => watcher.Expects (watcher.seen start before) notice) seen
  final : ∀ before event after, seen = before ++ .changed event :: after →
    event.newStatus = .close → NotRegistered event.securityId after →
      stop event.securityId = some .close ∧
        ∀ later, .changed later ∈ after → later.securityId ≠ event.securityId

/-- With a callback set, whatever calls the callback makes and in whatever order the loops visit
the instruments: every event that is reported is a valid change from the status that the
registrations and the events before it tell, the statuses at the end are those that all of them
tell, and nothing follows the closing of an instrument until it is registered again. -/
theorem reports_tell_statuses {looping : Bool} {calls : List Call} {seen : List Notice}
    (hruns : Runs looping m calls seen m') (hcallback : m.callback = true) :
    Told m.statuses m'.statuses seen := by
  have hfollows := hruns.follows hcallback
  refine ⟨hfollows.seen_eq.symm, hfollows.eachAfter, ?_⟩
  rintro before event after rfl hclose hnot
  rcases hfollows.of_append with ⟨middle, -, hrest⟩
  have hclosed : watcher.see middle (.changed event) event.securityId = some .close := by
    simp [watcher, hclose]
  refine ⟨?_, fun later hlater => not_changed_of_closed hrest.2 hnot hclosed hlater⟩
  rcases lasting_eq_close.follows hrest.2 hnot ⟨_, hclosed, rfl⟩ with ⟨status, hstatus, rfl⟩
  exact hstatus

/-- Two instruments that are open, and a callback. -/
def twoOpen : SecurityStatusMachine :=
  (addInstrument { callback := true } 1 .open).addInstrument 2 .open

/-- The callback closes one instrument while the halt of another is reported. -/
theorem reports_tell_statuses_nested :
    ∃ m', Runs false twoOpen [Call.haltTrading 1]
        [.changed ⟨1, .open, .halt, 5⟩, .changed ⟨2, .open, .close, 6⟩] m' ∧
      Told twoOpen.statuses m'.statuses
        [.changed ⟨1, .open, .halt, 5⟩, .changed ⟨2, .open, .close, 6⟩] ∧
      m'.getStatus 1 = .halt ∧ m'.getStatus 2 = .close := by
  have hmade : Runs false (twoOpen.transition 1 .halt 5).2.1 [Call.closeMarket 2]
      [.changed ⟨2, .open, .close, 6⟩] _ :=
    .report 6 rfl .done .done
  have hruns : Runs false twoOpen [Call.haltTrading 1]
      [.changed ⟨1, .open, .halt, 5⟩, .changed ⟨2, .open, .close, 6⟩] _ :=
    .report 5 rfl hmade .done
  exact ⟨_, hruns, reports_tell_statuses hruns rfl, by decide, by decide⟩

/-- Closing all instruments closes every one that is open or halted, whatever calls the callback
makes meanwhile and in whatever order the loop visits them. -/
theorem closeAll_closes {looping : Bool} {seen : List Notice}
    (hruns : Runs looping m [Call.closeAll] seen m') (hcallback : m.callback = true)
    (hnot : NotRegistered id seen)
    (hopened : ∃ status ∈ m.statuses id, status ≠ .preOpen) :
    m'.statuses id = some .close := by
  cases hruns with
  | @loop _ _ middle _ _ _ inner _ order horder hbody hrest =>
      cases hrest
      rw [List.append_nil] at hnot
      rcases hopened with ⟨status, hstatus, hne⟩
      have hkey : id ∈ order := by
        rw [horder.mem_iff, ← AList.mem_keys, ← AList.lookup_isSome]
        exact Option.isSome_of_mem hstatus
      exact hbody.close_of_mem hcallback hnot ⟨status, hstatus, hne⟩
        (List.mem_map.mpr ⟨id, hkey, rfl⟩)

/-- The loop closes the second instrument first, and the callback then halts the other. -/
theorem closeAll_closes_halted :
    ∃ m', Runs false twoOpen [Call.closeAll]
        [.changed ⟨2, .open, .close, 5⟩, .changed ⟨1, .open, .halt, 6⟩,
          .changed ⟨1, .halt, .close, 7⟩] m' ∧
      m'.statuses 1 = some .close := by
  have hmade : Runs true (twoOpen.transition 2 .close 5).2.1 [Call.haltTrading 1]
      [.changed ⟨1, .open, .halt, 6⟩] _ :=
    .report 6 rfl .done .done
  have hbody : Runs true twoOpen ([2, 1].map fun id => .transition id .close)
      [.changed ⟨2, .open, .close, 5⟩, .changed ⟨1, .open, .halt, 6⟩,
        .changed ⟨1, .halt, .close, 7⟩] _ :=
    .report 5 rfl hmade (.report 7 rfl .done .done)
  have horder : [2, 1].Perm twoOpen.states.keys := by decide
  have hruns : Runs false twoOpen [Call.closeAll]
      [.changed ⟨2, .open, .close, 5⟩, .changed ⟨1, .open, .halt, 6⟩,
        .changed ⟨1, .halt, .close, 7⟩] _ :=
    .loop horder hbody .done
  exact ⟨_, hruns, closeAll_closes hruns rfl (by simp [NotRegistered]) ⟨.open, rfl, by decide⟩⟩

end SecurityStatusMachine

end SimCme
