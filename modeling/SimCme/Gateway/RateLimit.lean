import Mathlib.Algebra.Order.Group.Int
import SimCme.Gateway.RiskManager
import SimCme.Library.FixedWindow
import SimCme.Library.Machine

/-!
# The rate limit

The risk manager counts the orders of each session in windows of one second.  A refused
order is counted as well, and fills share the record of a session with the count.

Main results:

- Theorem {lit}`RiskManager.calls_run`: the calls of a session are counted in windows of one
  second, whatever the other sessions do.
- Theorem {lit}`rate_limited`: a window lets no more orders of a session pass than the limit,
  and a second lets fewer pass than twice the limit.
-/

namespace SimCme

open Library

/-- The calls on the rate limit of a risk manager, and the fills in between. -/
inductive RiskOp where
  | checkRate (sessionUuid : SessionUuid) (now : Int)
  | onFill (sessionUuid : SessionUuid) (side : Side) (qty : Int)
deriving DecidableEq, Repr

def RiskOp.sessionUuid : RiskOp → SessionUuid
  | .checkRate sessionUuid _ => sessionUuid
  | .onFill sessionUuid _ _ => sessionUuid

/-- A checked order: the clock reading, the opening time of the window it was counted in and
the answer. -/
structure RateCall where
  sessionUuid : SessionUuid
  now : Int
  window : Int
  passed : Bool
deriving DecidableEq, Repr

/-- The clock readings of the calls, in order. -/
def readings (ops : List RiskOp) : List Int :=
  ops.filterMap fun
    | .checkRate _ now => some now
    | .onFill _ _ _ => none

/-- The clock readings of the calls of a session. -/
def readingsOf (sessionUuid : SessionUuid) (ops : List RiskOp) : List Int :=
  readings (ops.filter fun op => op.sessionUuid = sessionUuid)

/-- The calls of a session. -/
def callsOf (sessionUuid : SessionUuid) (calls : List RateCall) : List RateCall :=
  calls.filter fun call => call.sessionUuid = sessionUuid

/-- One second of the steady clock. -/
abbrev second : Int := 1000000000

/-- A session is in a window. -/
structure SessionRiskState.InWindow (state : SessionRiskState) (w : FixedWindow Int) : Prop where
  lastOrderTime_eq : state.lastOrderTime = w.openedAt
  ordersThisSecond_eq : state.ordersThisSecond = w.count

namespace RiskManager

/-- A risk manager as a machine whose outputs are the checked orders. -/
def machine : Machine RiskManager RiskOp RateCall where
  step risk
    | .checkRate sessionUuid now =>
        let (result, risk) := risk.checkRate sessionUuid now
        (risk,
          [{ sessionUuid := sessionUuid
             now := now
             window := (risk.sessionState sessionUuid).lastOrderTime
             passed := result.passed }])
    | .onFill sessionUuid side qty => (risk.onFill sessionUuid side qty, [])

@[simp]
theorem sessionState_setState (risk : RiskManager) (sessionUuid uuid : SessionUuid)
    (state : SessionRiskState) :
    (risk.setState sessionUuid state).sessionState uuid =
      if uuid = sessionUuid then state else risk.sessionState uuid :=
  rfl

/-- The truncated number of seconds reaches one with a full second. -/
theorem one_le_elapsed_iff (now last : Int) :
    1 ≤ (now - last).tdiv second ↔ last + second ≤ now := by
  rcases le_total 0 (now - last) with hpos | hneg
  · rw [Int.tdiv_eq_ediv_of_nonneg hpos]
    unfold second
    omega
  · rw [← Int.neg_sub, Int.neg_tdiv, Int.tdiv_eq_ediv_of_nonneg (by omega)]
    unfold second
    omega

/-- A call is counted in the window of its session and passes up to the limit. -/
theorem checkRate_spec {risk : RiskManager} {sessionUuid : SessionUuid} {w : FixedWindow Int}
    (hwindow : (risk.sessionState sessionUuid).InWindow w)
    (hlimit : 1 ≤ risk.config.maxOrdersPerSecond) (now : Int) :
    ((risk.checkRate sessionUuid now).2.sessionState sessionUuid).InWindow (w.next second now) ∧
      ((risk.checkRate sessionUuid now).1.passed = true ↔
        ((w.next second now).count : Int) ≤ risk.config.maxOrdersPerSecond) := by
  obtain ⟨hopened, hcount⟩ := hwindow
  simp only [checkRate, FixedWindow.next, ← hopened]
  by_cases hover : (risk.sessionState sessionUuid).lastOrderTime + second ≤ now
  · rw [if_pos ((one_le_elapsed_iff _ _).mpr hover), if_pos hover]
    exact ⟨⟨by simp, by simp⟩, by simpa using hlimit⟩
  · rw [if_neg (mt (one_le_elapsed_iff _ _).mp hover), if_neg hover]
    have hnext : (risk.sessionState sessionUuid).ordersThisSecond + 1 =
        ((w.count + 1 : Nat) : Int) := by
      omega
    split
    · rename_i hexceeded
      refine ⟨⟨by simp, by simpa using hnext⟩, ?_⟩
      rw [hnext] at hexceeded
      simpa using hexceeded
    · rename_i hwithin
      refine ⟨⟨by simp, by simpa using hnext⟩, ?_⟩
      rw [hnext, not_lt] at hwithin
      simpa using hwithin

/-- Other sessions are left alone. -/
theorem sessionState_checkRate_of_ne {sessionUuid uuid : SessionUuid} (hne : uuid ≠ sessionUuid)
    (risk : RiskManager) (now : Int) :
    (risk.checkRate sessionUuid now).2.sessionState uuid = risk.sessionState uuid := by
  simp only [checkRate]
  split
  · simp [hne]
  · split <;> simp [hne]

/-- A fill keeps the window of every session. -/
theorem inWindow_onFill {risk : RiskManager} {uuid : SessionUuid} {w : FixedWindow Int}
    (hwindow : (risk.sessionState uuid).InWindow w) (sessionUuid : SessionUuid) (side : Side)
    (qty : Int) : ((risk.onFill sessionUuid side qty).sessionState uuid).InWindow w := by
  unfold onFill
  rw [sessionState_setState]
  split
  · rename_i hsame
    subst hsame
    exact ⟨hwindow.lastOrderTime_eq, hwindow.ordersThisSecond_eq⟩
  · exact hwindow

/-- The record of a call that a window counts. -/
def rateCall (config : RiskConfig) (sessionUuid : SessionUuid) (c : FixedWindow.Call Int) :
    RateCall where
  sessionUuid := sessionUuid
  now := c.time
  window := c.openedAt
  passed := (c.number : Int) ≤ config.maxOrdersPerSecond

/-- The calls of a session are those its windows count. -/
theorem calls_run {risk : RiskManager} {uuid : SessionUuid} {w : FixedWindow Int}
    (hwindow : (risk.sessionState uuid).InWindow w)
    (hlimit : 1 ≤ risk.config.maxOrdersPerSecond) (ops : List RiskOp) :
    callsOf uuid (machine.run risk ops).2 =
        (FixedWindow.calls second w (readingsOf uuid ops)).map (rateCall risk.config uuid) ∧
      ((machine.run risk ops).1.sessionState uuid).InWindow
        (w.after second (readingsOf uuid ops)) := by
  induction ops generalizing risk w with
  | nil => exact ⟨rfl, hwindow⟩
  | cons op ops ih =>
      cases op with
      | checkRate sessionUuid now =>
          by_cases hsame : sessionUuid = uuid
          · subst hsame
            obtain ⟨hnext, hpassed⟩ := checkRate_spec hwindow hlimit now
            have hconfig := config_checkRate risk sessionUuid now
            obtain ⟨hcalls, hafter⟩ := ih hnext (by rwa [hconfig])
            have hreadings : readingsOf sessionUuid (.checkRate sessionUuid now :: ops) =
                now :: readingsOf sessionUuid ops := by
              simp [readingsOf, readings, RiskOp.sessionUuid]
            rw [hreadings]
            refine ⟨?_, hafter⟩
            rw [hconfig] at hcalls
            simp only [callsOf, Machine.run, machine, List.filter_append] at hcalls ⊢
            rw [hcalls]
            simp only [FixedWindow.calls, List.map_cons, rateCall, FixedWindow.callAt,
              hnext.lastOrderTime_eq, decide_true, List.filter_cons_of_pos, List.filter_nil,
              List.singleton_append, List.cons.injEq, RateCall.mk.injEq, true_and, and_true]
            rw [Bool.eq_iff_iff, hpassed, decide_eq_true_eq]
          · have hother := sessionState_checkRate_of_ne (Ne.symm hsame) risk now
            have hconfig := config_checkRate risk sessionUuid now
            have hnext : ((risk.checkRate sessionUuid now).2.sessionState uuid).InWindow w := by
              rwa [hother]
            obtain ⟨hcalls, hafter⟩ := ih hnext (by rwa [hconfig])
            have hreadings : readingsOf uuid (.checkRate sessionUuid now :: ops) =
                readingsOf uuid ops := by
              simp [readingsOf, RiskOp.sessionUuid, hsame]
            rw [hreadings]
            rw [hconfig] at hcalls
            refine ⟨?_, hafter⟩
            rw [← hcalls]
            simp [callsOf, Machine.run, machine, hsame]
      | onFill sessionUuid side qty =>
          have hreadings : readingsOf uuid (.onFill sessionUuid side qty :: ops) =
              readingsOf uuid ops := by
            unfold readingsOf readings
            by_cases hsame : sessionUuid = uuid <;> simp [RiskOp.sessionUuid, hsame]
          rw [hreadings]
          have hnext : ((risk.onFill sessionUuid side qty).sessionState uuid).InWindow w :=
            inWindow_onFill hwindow _ _ _
          exact ih hnext hlimit

/-- The calls of a session after a start with no calls. -/
theorem calls_run_start {config : RiskConfig} (hlimit : 1 ≤ config.maxOrdersPerSecond)
    (uuid : SessionUuid) (ops : List RiskOp) :
    callsOf uuid (machine.run { config := config } ops).2 =
        (FixedWindow.calls second ⟨0, 0⟩ (readingsOf uuid ops)).map (rateCall config uuid) ∧
      ((machine.run { config := config } ops).1.sessionState uuid).InWindow
        (FixedWindow.after second ⟨0, 0⟩ (readingsOf uuid ops)) := by
  let start : RiskManager := { config := config }
  have hwindow : (start.sessionState uuid).InWindow ⟨0, 0⟩ := ⟨rfl, rfl⟩
  exact calls_run hwindow hlimit ops

/-- No call changes a limit. -/
theorem config_run (risk : RiskManager) (ops : List RiskOp) :
    (machine.run risk ops).1.config = risk.config := by
  induction ops generalizing risk with
  | nil => rfl
  | cons op ops ih =>
      refine (ih _).trans ?_
      cases op with
      | checkRate sessionUuid now => exact config_checkRate risk sessionUuid now
      | onFill sessionUuid side qty => rfl

/-- The calls of other sessions have no part in those of a session. -/
theorem callsOf_eq_run_filter (config : RiskConfig) (hlimit : 1 ≤ config.maxOrdersPerSecond)
    (uuid : SessionUuid) (ops : List RiskOp) :
    callsOf uuid (machine.run { config := config } ops).2 =
      (machine.run { config := config } (ops.filter fun op => op.sessionUuid = uuid)).2 := by
  have howned : ∀ call ∈ (machine.run { config := config }
      (ops.filter fun op => op.sessionUuid = uuid)).2, call.sessionUuid = uuid := by
    refine Machine.forall_run_output (fun risk op hop => ?_) _
    have hsession : op.sessionUuid = uuid := by simpa using (List.mem_filter.mp hop).2
    cases op with
    | checkRate sessionUuid now => simpa [machine, RiskOp.sessionUuid] using hsession
    | onFill sessionUuid side qty => simp [machine]
  have hreadings : readingsOf uuid (ops.filter fun op => op.sessionUuid = uuid) =
      readingsOf uuid ops := by
    simp [readingsOf, List.filter_filter]
  have hall := (calls_run_start hlimit uuid ops).1
  have hown := (calls_run_start hlimit uuid (ops.filter fun op => op.sessionUuid = uuid)).1
  rw [hreadings, ← hall, callsOf, List.filter_eq_self.mpr (by simpa using howned)] at hown
  exact hown.symm

/-- The count of a session is the number of its calls in its window. -/
theorem ordersThisSecond_run (config : RiskConfig) (hlimit : 1 ≤ config.maxOrdersPerSecond)
    (uuid : SessionUuid) (ops : List RiskOp) :
    let risk := (machine.run { config := config } ops)
    (risk.1.sessionState uuid).ordersThisSecond =
      ((callsOf uuid risk.2).filter fun call =>
        call.window = (risk.1.sessionState uuid).lastOrderTime).length := by
  intro risk
  obtain ⟨hcalls, hwindow⟩ := calls_run_start hlimit uuid ops
  have hwidth : 0 < second := by decide
  have hcount := FixedWindow.count_after hwidth ⟨0, 0⟩ (readingsOf uuid ops)
  rw [ite_self, Nat.zero_add] at hcount
  rw [hwindow.ordersThisSecond_eq, hwindow.lastOrderTime_eq, hcount, hcalls]
  simp only [List.filter_map, List.length_map, Function.comp_def, rateCall]
  rfl

end RiskManager

/-! ## Bounds -/

/-- The answers to the calls of a session keep the limit. -/
structure RateLimited (limit : Int) (calls : List RateCall) : Prop where
  window_le : ∀ window,
    ((calls.filter fun call => call.window = window ∧ call.passed).length : Int) ≤ limit
  interval_le : ∀ start,
    ((calls.filter fun call =>
      start ≤ call.now ∧ call.now < start + second ∧ call.passed).length : Int) ≤ 2 * limit - 1

/-- Calls that are counted from the epoch on keep the limit. -/
theorem rateLimited_of_calls {config : RiskConfig} (hlimit : 1 ≤ config.maxOrdersPerSecond)
    (uuid : SessionUuid) {times : List Int} (hsorted : times.Pairwise (· ≤ ·))
    (hepoch : ∀ now ∈ times.head?, second ≤ now) :
    RateLimited config.maxOrdersPerSecond
      ((FixedWindow.calls second ⟨0, 0⟩ times).map (RiskManager.rateCall config uuid)) := by
  have hwidth : (0 : Int) < second := by decide
  have hopens : FixedWindow.Opens second ⟨0, 0⟩ times := by
    intro now hnow
    simpa using hepoch now hnow
  obtain ⟨limit, hlimit_eq⟩ := Int.eq_ofNat_of_zero_le (by omega : 0 ≤ config.maxOrdersPerSecond)
  constructor
  · intro window
    have hle := FixedWindow.length_window_le hwidth hopens hsorted limit window
    simp only [List.filter_map, List.length_map, Function.comp_def, RiskManager.rateCall,
      decide_eq_true_eq, hlimit_eq, Int.ofNat_le]
    exact hle
  · intro start
    have hle := FixedWindow.length_interval_le hwidth hopens hsorted limit (by omega) start
    unfold FixedWindow.passedIn at hle
    simp only [List.filter_map, List.length_map, Function.comp_def, RiskManager.rateCall,
      decide_eq_true_eq, hlimit_eq, Int.ofNat_le]
    omega

/-- A clock that goes on reads no less than a bound that its first reading reaches. -/
theorem le_of_le_head {times : List Int} {low : Int} (hclock : times.Pairwise (· ≤ ·))
    (hfirst : ∀ now ∈ times.head?, low ≤ now) : ∀ now ∈ times, low ≤ now := by
  cases times with
  | nil => simp
  | cons first rest =>
      have hlow : low ≤ first := hfirst first rfl
      rw [List.pairwise_cons] at hclock
      rw [List.forall_mem_cons]
      exact ⟨hlow, fun now hnow => hlow.trans (hclock.1 now hnow)⟩

open RiskManager in
/-- For a clock that does not run backwards and is a second past its epoch, the limit holds
of every session: in each window, in each second, and whatever the other sessions do.  A
window that is over lets the next call pass, and the count of a window with fewer than
{lit}`2 ^ 31` calls is an {lit}`int`. -/
theorem rate_limited (config : RiskConfig) (hlimit : 1 ≤ config.maxOrdersPerSecond)
    (ops : List RiskOp) (hclock : (readings ops).Pairwise (· ≤ ·))
    (hepoch : ∀ now ∈ (readings ops).head?, second ≤ now) (uuid : SessionUuid) :
    let calls := callsOf uuid (machine.run { config := config } ops).2
    RateLimited config.maxOrdersPerSecond calls ∧
      (∀ before now after, ops = before ++ .checkRate uuid now :: after →
        let risk := (machine.run { config := config } before).1
        (risk.sessionState uuid).lastOrderTime + second ≤ now →
          (risk.checkRate uuid now).1.passed = true) ∧
      calls = (machine.run { config := config }
        (ops.filter fun op => op.sessionUuid = uuid)).2 ∧
      ((∀ window, (calls.filter fun call => call.window = window).length < 2 ^ 31) →
        ∀ before after, ops = before ++ after →
          ((machine.run { config := config } before).1.sessionState uuid).ordersThisSecond <
            2 ^ 31) := by
  intro calls
  have hsublist : (readingsOf uuid ops).Sublist (readings ops) :=
    (List.filter_sublist ..).filterMap _
  have hsorted : (readingsOf uuid ops).Pairwise (· ≤ ·) := hclock.sublist hsublist
  have hstart : ∀ now ∈ (readingsOf uuid ops).head?, second ≤ now :=
    fun now hnow => le_of_le_head hclock hepoch now (hsublist.subset (List.mem_of_mem_head? hnow))
  have hcalls : calls = (FixedWindow.calls second ⟨0, 0⟩ (readingsOf uuid ops)).map
      (rateCall config uuid) :=
    (calls_run_start hlimit uuid ops).1
  refine ⟨?_, ?_, callsOf_eq_run_filter config hlimit uuid ops, ?_⟩
  · rw [hcalls]
    exact rateLimited_of_calls hlimit uuid hsorted hstart
  · intro before now after hops risk hover
    have hwindow := (calls_run_start hlimit uuid before).2
    have hconfig : risk.config = config := config_run { config := config } before
    rw [(checkRate_spec hwindow (by rwa [config_run]) now).2, hconfig,
      FixedWindow.next_of_over (by rwa [← hwindow.lastOrderTime_eq])]
    exact hlimit
  · intro hwindows before after hops
    have hinitial : callsOf uuid (machine.run { config := config } before).2 <+: calls := by
      simp only [calls, hops, Machine.run_append]
      exact (List.prefix_append _ _).filter _
    rw [ordersThisSecond_run config hlimit uuid before]
    have hle := ((hinitial.filter fun call => decide (call.window =
      ((machine.run { config := config } before).1.sessionState uuid).lastOrderTime)).length_le)
    have hlt := hwindows
      ((machine.run { config := config } before).1.sessionState uuid).lastOrderTime
    omega

/-- With a limit of two, the third order within a second is refused, also when another
session has traded in between. -/
theorem rate_limited_of_three_orders :
    let config : RiskConfig := { maxOrdersPerSecond := 2 }
    let ops : List RiskOp :=
      [.checkRate 1 (3 * second), .checkRate 2 (3 * second), .onFill 1 .buy 5,
        .checkRate 1 (3 * second + 7), .checkRate 1 (4 * second - 1), .checkRate 1 (4 * second)]
    let calls := callsOf 1 (RiskManager.machine.run { config := config } ops).2
    calls.map (·.passed) = [true, true, false, true] ∧ RateLimited 2 calls := by
  intro config ops calls
  exact ⟨by decide +kernel,
    (rate_limited config (by decide) ops (by decide) (by decide) 1).1⟩

end SimCme
