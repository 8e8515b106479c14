import SimCme.Library.Machine

/-!
# Observers of a machine

An observer sees the outputs of a machine and nothing else.  It keeps a picture of the
machine, expects some outputs in it and not others, and brings it up to date with every
output.

Main results:

- Theorem {lit}`Observer.Follows.append`: an observer follows a list part by part.
- Theorem {lit}`Observer.Follows.eachAfter`: every output was expected when it was seen.
- Theorem {lit}`Observer.follows_run`: an observer that follows every step of a machine follows
  its runs.
-/

namespace Library

/-- An observer with pictures {lit}`π` of outputs {lit}`ω`. -/
structure Observer (π ω : Type) where
  Expects : π → ω → Prop
  see : π → ω → π

namespace Observer

variable {π ω : Type} {observer : Observer π ω}

/-- The picture after a list of outputs. -/
def seen (observer : Observer π ω) (p : π) (os : List ω) : π :=
  os.foldl observer.see p

/-- The observer expects every output in turn, and comes from one picture to another. -/
def Follows (observer : Observer π ω) : π → List ω → π → Prop
  | p, [], stop => p = stop
  | p, o :: os, stop => observer.Expects p o ∧ observer.Follows (observer.see p o) os stop

theorem follows_nil (p : π) : observer.Follows p [] p :=
  rfl

theorem follows_singleton {p : π} {o : ω} (ho : observer.Expects p o) :
    observer.Follows p [o] (observer.see p o) :=
  ⟨ho, follows_nil _⟩

/-- An observer follows a list part by part. -/
theorem Follows.append {p middle stop : π} {os os' : List ω}
    (hos : observer.Follows p os middle) (hos' : observer.Follows middle os' stop) :
    observer.Follows p (os ++ os') stop := by
  induction os generalizing p with
  | nil =>
      cases hos
      exact hos'
  | cons o os ih => exact ⟨hos.1, ih hos.2⟩

/-- A list is followed part by part. -/
theorem Follows.of_append {p stop : π} {os os' : List ω}
    (hos : observer.Follows p (os ++ os') stop) :
    ∃ middle, observer.Follows p os middle ∧ observer.Follows middle os' stop := by
  induction os generalizing p with
  | nil => exact ⟨p, follows_nil p, hos⟩
  | cons o os ih =>
      obtain ⟨middle, hfirst, hrest⟩ := ih hos.2
      exact ⟨middle, ⟨hos.1, hfirst⟩, hrest⟩

/-- The picture reached is the one the outputs give. -/
theorem Follows.seen_eq {p stop : π} {os : List ω} (hos : observer.Follows p os stop) :
    observer.seen p os = stop := by
  induction os generalizing p with
  | nil => exact hos
  | cons o os ih => exact ih hos.2

/-- Every output was expected when it was seen. -/
theorem Follows.eachAfter {p stop : π} {os : List ω} (hos : observer.Follows p os stop) :
    EachAfter (fun before o => observer.Expects (observer.seen p before) o) os := by
  induction os generalizing p with
  | nil => exact eachAfter_nil
  | cons o os ih =>
      intro before o' after hsplit
      cases before with
      | nil =>
          cases hsplit
          exact hos.1
      | cons first before =>
          obtain ⟨rfl, hrest⟩ := List.cons.inj hsplit
          exact ih hos.2 before o' after hrest

/-- A relation between the outputs seen and the picture holds as long as the observer follows,
if every expected output keeps it. -/
theorem Follows.induction {p stop : π} {os : List ω} (hos : observer.Follows p os stop)
    {P : List ω → π → Prop} (hinit : P [] p)
    (hsee : ∀ before q o, P before q → observer.Expects q o →
      P (before ++ [o]) (observer.see q o)) : P os stop := by
  have hall : ∀ before, P before p → P (before ++ os) stop := by
    clear hinit
    induction os generalizing p with
    | nil =>
        intro before hp
        cases hos
        rwa [List.append_nil]
    | cons o os ih =>
        intro before hp
        have hrest := ih hos.2 (before ++ [o]) (hsee before p o hp hos.1)
        rwa [List.append_assoc] at hrest
  exact hall [] hinit

section Machine

variable {σ ι : Type} {m : Machine σ ι ω} {guard : σ → ι → Prop} {s : σ} {is : List ι}

/-- An observer that follows every step of a machine follows its runs, and keeps the
picture in the relation to the state. -/
theorem exists_follows_run {R : σ → π → Prop}
    (hstep : ∀ s i p, R s p → guard s i →
      ∃ p', observer.Follows p (m.step s i).2 p' ∧ R (m.step s i).1 p')
    {p : π} (hs : R s p) (hadmits : m.Admits guard s is) :
    ∃ p', observer.Follows p (m.run s is).2 p' ∧ R (m.run s is).1 p' := by
  induction is generalizing s p with
  | nil => exact ⟨p, follows_nil p, hs⟩
  | cons i is ih =>
      obtain ⟨p', hfirst, hnext⟩ := hstep s i p hs hadmits.1
      obtain ⟨p'', hrest, hlast⟩ := ih hnext hadmits.2
      exact ⟨p'', hfirst.append hrest, hlast⟩

/-- The picture of the state is the one the observer has. -/
theorem follows_run {picture : σ → π} {P : σ → Prop}
    (hkeep : ∀ s i, P s → guard s i → P (m.step s i).1)
    (hstep : ∀ s i, P s → guard s i →
      observer.Follows (picture s) (m.step s i).2 (picture (m.step s i).1))
    (hs : P s) (hadmits : m.Admits guard s is) :
    observer.Follows (picture s) (m.run s is).2 (picture (m.run s is).1) := by
  have hrun : ∃ p', observer.Follows (picture s) (m.run s is).2 p' ∧
      P (m.run s is).1 ∧ picture (m.run s is).1 = p' := by
    refine exists_follows_run (R := fun s p => P s ∧ picture s = p) ?_ ⟨hs, rfl⟩ hadmits
    rintro t i p ⟨ht, rfl⟩ hi
    exact ⟨_, hstep t i ht hi, hkeep t i ht hi, rfl⟩
  obtain ⟨p', hfollows, -, rfl⟩ := hrun
  exact hfollows

end Machine

end Observer

end Library
