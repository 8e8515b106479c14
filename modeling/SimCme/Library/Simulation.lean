import SimCme.Library.Machine

/-!
# Machines that can fail, and forward simulation

A step of a partial machine may fail, and a failed step ends its run.  When every
step of a machine is matched by a step that does not fail, emits the same outputs
and keeps the states related, then so is every run.

Main results:

- Theorem {lit}`Simulates.run`: related states stay related along guarded runs, and
  the outputs are the same.
-/

namespace Library

/-- A machine whose steps may fail. -/
structure PartialMachine (σ ι ω : Type) where
  step : σ → ι → Option (σ × List ω)

namespace PartialMachine

variable {σ ι ω : Type}

/-- Run a list of inputs up to the first failure. -/
def run (m : PartialMachine σ ι ω) : σ → List ι → Option (σ × List ω)
  | s, [] => some (s, [])
  | s, i :: is =>
      (m.step s i).bind fun first =>
        (m.run first.1 is).map fun rest => (rest.1, first.2 ++ rest.2)

end PartialMachine

section Simulation

variable {σ τ ι ω : Type}

/-- Each guarded step of the one machine is matched by a step of the partial machine
with the same outputs. -/
def Simulates (m : PartialMachine σ ι ω) (n : Machine τ ι ω) (guard : τ → ι → Prop)
    (R : σ → τ → Prop) : Prop :=
  ∀ s t i, R s t → guard t i →
    ∃ s', m.step s i = some (s', (n.step t i).2) ∧ R s' (n.step t i).1

variable {m : PartialMachine σ ι ω} {n : Machine τ ι ω} {guard : τ → ι → Prop}
  {R : σ → τ → Prop}

/-- A simulation extends from steps to runs. -/
theorem Simulates.run (hsim : Simulates m n guard R) {s : σ} {t : τ} (hrel : R s t)
    {is : List ι} (hadmits : n.Admits guard t is) :
    ∃ s', m.run s is = some (s', (n.run t is).2) ∧ R s' (n.run t is).1 := by
  induction is generalizing s t with
  | nil => exact ⟨s, rfl, hrel⟩
  | cons i is ih =>
      obtain ⟨hguard, hrest⟩ := hadmits
      obtain ⟨s', hstep, hrel'⟩ := hsim s t i hrel hguard
      obtain ⟨s'', hrun, hrel''⟩ := ih hrel' hrest
      refine ⟨s'', ?_, hrel''⟩
      simp [PartialMachine.run, Machine.run, hstep, hrun]

end Simulation

end Library
