import Mathlib.Data.List.Forall2
import Mathlib.Data.List.Induction

/-!
# Machines with outputs and their guarded runs

A machine reads one input at a time, changes its state and emits a list of
outputs.  A guard says which inputs the environment may offer in which state;
the runs of interest are those every input of which meets the guard.

Main results:

- Theorem {lit}`Machine.run_concat`: the last input of a run acts on the state
  the earlier inputs lead to.
- Theorem {lit}`Machine.admits_concat`: a guarded run extends by one input
  exactly when that input meets the guard there.
- Theorem {lit}`Machine.history_invariant`: a relation between the inputs read,
  the state and the outputs emitted holds along every guarded run as soon as
  one step preserves it.
- Theorem {lit}`Machine.forall_run_output`: a property of the outputs of every step
  holds of the outputs of a run.
- Theorem {lit}`EachAfter.concat`: a property of every output and the history
  before it is proved one output at a time.
-/

namespace Library

/-- A machine with state {lit}`σ`, inputs {lit}`ι` and outputs {lit}`ω`. -/
structure Machine (σ ι ω : Type) where
  step : σ → ι → σ × List ω

namespace Machine

variable {σ ι ω : Type}

/-- Run a list of inputs, collecting the outputs in order. -/
def run (m : Machine σ ι ω) : σ → List ι → σ × List ω
  | s, [] => (s, [])
  | s, i :: is =>
      let first := m.step s i
      let rest := m.run first.1 is
      (rest.1, first.2 ++ rest.2)

/-- Every input of the run meets the guard in the state it is read in. -/
def Admits (m : Machine σ ι ω) (guard : σ → ι → Prop) : σ → List ι → Prop
  | _, [] => True
  | s, i :: is => guard s i ∧ m.Admits guard (m.step s i).1 is

instance decidableAdmits (m : Machine σ ι ω) (guard : σ → ι → Prop)
    [∀ s i, Decidable (guard s i)] :
    ∀ s is, Decidable (m.Admits guard s is)
  | _, [] => .isTrue trivial
  | s, i :: is =>
      have := decidableAdmits m guard (m.step s i).1 is
      inferInstanceAs (Decidable (guard s i ∧ m.Admits guard (m.step s i).1 is))

@[simp]
theorem run_nil (m : Machine σ ι ω) (s : σ) : m.run s [] = (s, []) :=
  rfl

/-- A run over a concatenation continues where its first part stopped. -/
theorem run_append (m : Machine σ ι ω) (s : σ) (is js : List ι) :
    m.run s (is ++ js) =
      ((m.run (m.run s is).1 js).1,
        (m.run s is).2 ++ (m.run (m.run s is).1 js).2) := by
  induction is generalizing s with
  | nil => simp
  | cons i is ih => simp [run, ih]

/-- The last input of a run acts on the state the earlier inputs lead to. -/
theorem run_concat (m : Machine σ ι ω) (s : σ) (is : List ι) (i : ι) :
    m.run s (is ++ [i]) =
      ((m.step (m.run s is).1 i).1,
        (m.run s is).2 ++ (m.step (m.run s is).1 i).2) := by
  rw [run_append]
  simp [run]

/-- A guarded run extends by one input exactly when the guard admits it there. -/
theorem admits_concat (m : Machine σ ι ω) (guard : σ → ι → Prop) (s : σ)
    (is : List ι) (i : ι) :
    m.Admits guard s (is ++ [i]) ↔
      m.Admits guard s is ∧ guard (m.run s is).1 i := by
  induction is generalizing s with
  | nil => simp [Admits]
  | cons j is ih => simp [Admits, run, ih, and_assoc]

/-- A guarded run is guarded as far as it has got. -/
theorem Admits.of_append {m : Machine σ ι ω} {guard : σ → ι → Prop} {s : σ} {is js : List ι}
    (hadmits : m.Admits guard s (is ++ js)) : m.Admits guard s is := by
  induction is generalizing s with
  | nil => trivial
  | cons i is ih => exact ⟨hadmits.1, ih hadmits.2⟩

/-- A run guarded by a stronger guard is guarded by the weaker one. -/
theorem Admits.mono {m : Machine σ ι ω} {guard guard' : σ → ι → Prop}
    (hguard : ∀ s i, guard s i → guard' s i) {s : σ} {is : List ι}
    (hadmits : m.Admits guard s is) : m.Admits guard' s is := by
  induction is generalizing s with
  | nil => trivial
  | cons i is ih => exact ⟨hguard s i hadmits.1, ih hadmits.2⟩

/-- A guard that every input meets admits every run. -/
theorem admits_of_forall {m : Machine σ ι ω} {guard : σ → ι → Prop}
    (hguard : ∀ s i, guard s i) (s : σ) (is : List ι) : m.Admits guard s is := by
  induction is generalizing s with
  | nil => trivial
  | cons i is ih => exact ⟨hguard s i, ih _⟩

/-- A guard on the inputs alone admits the runs all of whose inputs meet it. -/
theorem admits_of_forall_mem {m : Machine σ ι ω} {guard : ι → Prop} {is : List ι}
    (his : ∀ i ∈ is, guard i) (s : σ) : m.Admits (fun _ => guard) s is := by
  induction is generalizing s with
  | nil => trivial
  | cons i is ih =>
      obtain ⟨hi, his⟩ := List.forall_mem_cons.mp his
      exact ⟨hi, ih his _⟩

/-- Guards that agree wherever an invariant holds admit the same runs. -/
theorem admits_congr {m : Machine σ ι ω} {guard guard' : σ → ι → Prop} {P : σ → Prop}
    (hguard : ∀ s i, P s → (guard s i ↔ guard' s i))
    (hstep : ∀ s i, P s → P (m.step s i).1) {s : σ} (hs : P s) (is : List ι) :
    m.Admits guard s is ↔ m.Admits guard' s is := by
  induction is generalizing s with
  | nil => exact Iff.rfl
  | cons i is ih => exact and_congr (hguard s i hs) (ih (hstep s i hs))

/-- Induction over guarded runs, with the inputs read and the outputs emitted
so far in view. -/
theorem history_invariant {m : Machine σ ι ω} {guard : σ → ι → Prop} {s : σ}
    {P : List ι → σ → List ω → Prop} (hinit : P [] s [])
    (hstep : ∀ is t os i, P is t os → guard t i →
      P (is ++ [i]) (m.step t i).1 (os ++ (m.step t i).2))
    (is : List ι) (hadmits : m.Admits guard s is) :
    P is (m.run s is).1 (m.run s is).2 := by
  induction is using List.reverseRecOn with
  | nil => exact hinit
  | append_singleton is i ih =>
      obtain ⟨hearlier, hguard⟩ := (m.admits_concat guard s is i).mp hadmits
      rw [run_concat]
      exact hstep is _ _ i (ih hearlier) hguard

/-- Induction over guarded runs for a property of the state alone. -/
theorem state_invariant {m : Machine σ ι ω} {guard : σ → ι → Prop} {s : σ}
    {P : σ → Prop} (hinit : P s)
    (hstep : ∀ t i, P t → guard t i → P (m.step t i).1)
    (is : List ι) (hadmits : m.Admits guard s is) : P (m.run s is).1 :=
  history_invariant (P := fun _ t _ => P t) hinit
    (fun _ t _ i ht hi => hstep t i ht hi) is hadmits

/-- A property of every output of every step holds of every output of a run. -/
theorem forall_run_output {m : Machine σ ι ω} {P : ω → Prop} {is : List ι}
    (hstep : ∀ t, ∀ i ∈ is, ∀ o ∈ (m.step t i).2, P o) (s : σ) :
    ∀ o ∈ (m.run s is).2, P o := by
  induction is generalizing s with
  | nil => simp
  | cons i is ih =>
      intro o ho
      rcases List.mem_append.mp ho with ho | ho
      · exact hstep s i List.mem_cons_self o ho
      · exact ih (fun t j hj => hstep t j (List.mem_cons_of_mem i hj)) _ o ho

/-- Inputs that a machine skips may be left out of its run. -/
theorem run_filter {m : Machine σ ι ω} {p : ι → Bool}
    (hskip : ∀ s i, p i = false → m.step s i = (s, [])) (s : σ) (is : List ι) :
    m.run s (is.filter p) = m.run s is := by
  induction is generalizing s with
  | nil => rfl
  | cons i is ih =>
      cases hp : p i with
      | true => simp [hp, run, ih]
      | false => simp [hp, run, ih, hskip s i hp]

/-- A machine that emits one output for each input of a kind emits them in order. -/
theorem forall₂_run {β : Type} {m : Machine σ ι ω} {R : ω → β → Prop} {f : ι → Option β}
    {is : List ι} (hstep : ∀ s, ∀ i ∈ is, List.Forall₂ R (m.step s i).2 (f i).toList) (s : σ) :
    List.Forall₂ R (m.run s is).2 (is.filterMap f) := by
  induction is generalizing s with
  | nil => exact .nil
  | cons i is ih =>
      have hfirst := hstep s i List.mem_cons_self
      have hrest := ih (fun t j hj => hstep t j (List.mem_cons_of_mem i hj)) (m.step s i).1
      rw [run, List.filterMap_cons]
      cases hf : f i with
      | none =>
          rw [hf, Option.toList_none, List.forall₂_nil_right_iff] at hfirst
          simpa [hfirst] using hrest
      | some b =>
          rw [hf, Option.toList_some] at hfirst
          obtain ⟨o, os, hout, hnil, heq⟩ := List.forall₂_cons_right_iff.mp hfirst
          rw [List.forall₂_nil_right_iff] at hnil
          simpa [heq, hnil] using ⟨hout, hrest⟩

end Machine

/-! ## Histories -/

section History

variable {ω : Type} {Q : List ω → ω → Prop}

/-- Every output of a history is right after the outputs before it. -/
def EachAfter (Q : List ω → ω → Prop) (os : List ω) : Prop :=
  ∀ before o after, os = before ++ o :: after → Q before o

theorem eachAfter_nil : EachAfter Q [] := by
  intro before o after hsplit
  simp at hsplit

theorem EachAfter.of_append {os new : List ω} (hall : EachAfter Q (os ++ new)) :
    EachAfter Q os := by
  intro before o after hsplit
  exact hall before o (after ++ new) (by rw [hsplit, List.append_assoc, List.cons_append])

theorem EachAfter.last {os : List ω} {o : ω} (hall : EachAfter Q (os ++ [o])) : Q os o :=
  hall os o [] rfl

/-- A history grows by one output that is right after it. -/
theorem EachAfter.concat {os : List ω} {o : ω} (hos : EachAfter Q os) (ho : Q os o) :
    EachAfter Q (os ++ [o]) := by
  intro before o' after hsplit
  cases after using List.reverseRecOn with
  | nil =>
      rcases List.append_inj' hsplit rfl with ⟨rfl, heq⟩
      cases heq
      exact ho
  | append_singleton after last =>
      rw [← List.cons_append, ← List.append_assoc] at hsplit
      exact hos before o' after (List.append_inj' hsplit rfl).1

theorem eachAfter_iff_forall_fin {os : List ω} :
    EachAfter Q os ↔ ∀ i : Fin os.length, Q (os.take i) (os.get i) := by
  constructor
  · intro hos i
    apply hos (os.take i) (os.get i) (os.drop (i + 1))
    rw [List.get_eq_getElem, List.getElem_cons_drop, List.take_append_drop]
  · intro hall before o after hsplit
    subst hsplit
    have ho := hall ⟨before.length, by simp⟩
    simpa using ho

instance decidableEachAfter [∀ before o, Decidable (Q before o)] (os : List ω) :
    Decidable (EachAfter Q os) :=
  decidable_of_iff _ eachAfter_iff_forall_fin.symm

/-- A history grows by outputs that are right after it and whatever follows it. -/
theorem EachAfter.append {os new : List ω} (hos : EachAfter Q os)
    (hnew : ∀ o ∈ new, ∀ more, Q (os ++ more) o) : EachAfter Q (os ++ new) := by
  induction new using List.reverseRecOn with
  | nil => simpa using hos
  | append_singleton new o ih =>
      have hrest := ih fun o' ho' => hnew o' (List.mem_append_left _ ho')
      rw [← List.append_assoc]
      exact hrest.concat (hnew o (by simp) new)

/-- A history grows by outputs that are right after anything. -/
theorem EachAfter.append_of_forall {os new : List ω} (hos : EachAfter Q os)
    (hnew : ∀ o ∈ new, ∀ before, Q before o) : EachAfter Q (os ++ new) := by
  induction new generalizing os with
  | nil => simpa using hos
  | cons o new ih =>
      obtain ⟨hfirst, hrest⟩ := List.forall_mem_cons.mp hnew
      have hall := ih (hos.concat (hfirst os)) hrest
      rwa [List.append_assoc, List.singleton_append] at hall

end History

end Library
