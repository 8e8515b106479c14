import Mathlib.Algebra.Order.Ring.Nat

/-!
# Walks over a buffer of messages

A walk visits the message at a position and goes on behind it, for as long as there is room
for the header of another message.  A visit may read outside the buffer, and then the walk
fails there.  A walk whose messages are never empty has no more turns than the buffer has
bytes.

Main results:

- Theorem {lit}`walk_ne_outOfTurns`: a walk with as many turns as bytes does not run out of
  turns.
- Theorem {lit}`walk_ok_iff`: a walk succeeds exactly when the visits of all positions it
  reaches do.
- Theorem {lit}`walk_append_iff`: a walk over the bytes of messages sees these messages exactly
  when each of them is seen wherever its bytes lie.
-/

namespace Library

variable {ω : Type}

inductive WalkError where
  | outOfBounds
  | outOfTurns
deriving DecidableEq, Repr

/-- A turn of a walk: where it visits, what it sees, and where it goes on. -/
structure Turn (ω : Type) where
  start : Nat
  item : ω
  next : Nat
deriving DecidableEq, Repr

/-- Visit the messages of a buffer.  A visit yields what it sees with the size of the
message; a size of zero ends the walk. -/
def walk (visit : Nat → Option (ω × Nat)) (header length : Nat) :
    Nat → Nat → Except WalkError (List (Turn ω))
  | 0, offset => if offset + header ≤ length then .error .outOfTurns else .ok []
  | turns + 1, offset =>
      if offset + header ≤ length then
        match visit offset with
        | none => .error .outOfBounds
        | some (item, size) =>
            if size = 0 then .ok [⟨offset, item, offset⟩]
            else
              (walk visit header length turns (offset + size)).map
                fun rest => ⟨offset, item, offset + size⟩ :: rest
      else .ok []

variable {visit : Nat → Option (ω × Nat)} {header length : Nat}

/-- A walk ends where there is no room for a header. -/
theorem walk_of_lt {offset : Nat} (hend : length < offset + header) (turns : Nat) :
    walk visit header length turns offset = .ok [] := by
  cases turns with
  | zero => rw [walk, if_neg (Nat.not_le.mpr hend)]
  | succ turns => rw [walk, if_neg (Nat.not_le.mpr hend)]

theorem walk_of_none {offset : Nat} (hroom : offset + header ≤ length)
    (hvisit : visit offset = none) (turns : Nat) :
    walk visit header length (turns + 1) offset = .error .outOfBounds := by
  rw [walk, if_pos hroom, hvisit]

theorem walk_of_some {offset size : Nat} {item : ω} (hroom : offset + header ≤ length)
    (hvisit : visit offset = some (item, size)) (hsize : 0 < size) (turns : Nat) :
    walk visit header length (turns + 1) offset =
      (walk visit header length turns (offset + size)).map
        fun rest => ⟨offset, item, offset + size⟩ :: rest := by
  rw [walk, if_pos hroom, hvisit]
  simp only [if_neg (Nat.ne_of_gt hsize)]

/-- A walk with as many turns as bytes does not run out of turns. -/
theorem walk_ne_outOfTurns (hheader : 0 < header) {turns offset : Nat}
    (hturns : length ≤ offset + turns) :
    walk visit header length turns offset ≠ .error .outOfTurns := by
  induction turns generalizing offset with
  | zero =>
      rw [walk_of_lt (by omega)]
      simp
  | succ turns ih =>
      rcases Nat.lt_or_ge length (offset + header) with hend | hroom
      · rw [walk_of_lt hend]
        simp
      · cases hvisit : visit offset with
        | none =>
            rw [walk_of_none hroom hvisit]
            simp
        | some seen =>
            obtain ⟨item, size⟩ := seen
            rcases Nat.eq_zero_or_pos size with rfl | hsize
            · rw [walk, if_pos hroom, hvisit]
              simp
            · rw [walk_of_some hroom hvisit hsize]
              have hrest : walk visit header length turns (offset + size) ≠
                  .error .outOfTurns :=
                ih (by omega)
              cases hwalk : walk visit header length turns (offset + size) with
              | error e =>
                  rw [hwalk] at hrest
                  simpa [Except.map] using hrest
              | ok rest => simp [Except.map]

/-! ## Positions -/

/-- The positions that messages of given sizes start at, one behind the other. -/
inductive Reached (size : Nat → Nat) (header length first : Nat) : Nat → Prop where
  | first : Reached size header length first first
  | next {offset : Nat} : Reached size header length first offset →
      offset + header ≤ length → Reached size header length first (offset + size offset)

variable {size : Nat → Nat}

/-- Behind the first message the positions are those of the rest. -/
theorem Reached.of_next {first offset : Nat} (hroom : first + header ≤ length)
    (hreached : Reached size header length (first + size first) offset) :
    Reached size header length first offset := by
  induction hreached with
  | first => exact .next .first hroom
  | next _ hroom' ih => exact .next ih hroom'

theorem Reached.cases_first {first offset : Nat}
    (hreached : Reached size header length first offset) :
    offset = first ∨ Reached size header length (first + size first) offset := by
  induction hreached with
  | first => exact Or.inl rfl
  | next _ hroom ih =>
      rcases ih with rfl | hrest
      · exact Or.inr .first
      · exact Or.inr (.next hrest hroom)

theorem Reached.le {first offset : Nat} (hreached : Reached size header length first offset) :
    first ≤ offset := by
  induction hreached with
  | first => exact Nat.le_refl first
  | next _ _ ih => exact Nat.le_trans ih (Nat.le_add_right _ _)

theorem exists_map_eq_ok_iff {ε α β : Type} {r : Except ε α} {f : α → β} :
    (∃ b, r.map f = .ok b) ↔ ∃ a, r = .ok a := by
  cases r with
  | error e => simp [Except.map]
  | ok a => simp [Except.map]

/-- A walk succeeds exactly when the visits of all positions it reaches do. -/
theorem walk_ok_iff {fits : Nat → Prop} (hheader : 0 < header) (hsize : ∀ offset, 0 < size offset)
    (hfits : ∀ offset, offset + header ≤ length → ((visit offset).isSome ↔ fits offset))
    (hvisit : ∀ offset item n, offset + header ≤ length → visit offset = some (item, n) →
      n = size offset)
    {turns offset : Nat} (hturns : length ≤ offset + turns) :
    (∃ rest, walk visit header length turns offset = .ok rest) ↔
      ∀ o, Reached size header length offset o → o + header ≤ length → fits o := by
  induction turns generalizing offset with
  | zero =>
      rw [walk_of_lt (by omega)]
      refine iff_of_true ⟨[], rfl⟩ ?_
      intro o hreached hroom
      have hle := hreached.le
      omega
  | succ turns ih =>
      rcases Nat.lt_or_ge length (offset + header) with hend | hroom
      · rw [walk_of_lt hend]
        refine iff_of_true ⟨[], rfl⟩ ?_
        intro o hreached hroom
        have hle := hreached.le
        omega
      · cases hseen : visit offset with
        | none =>
            rw [walk_of_none hroom hseen]
            refine iff_of_false (by simp) ?_
            intro hall
            have hfirst := (hfits offset hroom).mpr (hall offset .first hroom)
            rw [hseen] at hfirst
            contradiction
        | some seen =>
            obtain ⟨item, n⟩ := seen
            obtain rfl := hvisit offset item n hroom hseen
            have hpos := hsize offset
            have hfirst : fits offset := (hfits offset hroom).mp (by rw [hseen]; rfl)
            have hrest : (∃ rest, walk visit header length turns (offset + size offset) =
                .ok rest) ↔ _ := ih (by omega)
            rw [walk_of_some hroom hseen hpos, exists_map_eq_ok_iff, hrest]
            constructor
            · intro hall o hreached hroom'
              rcases hreached.cases_first with rfl | hlater
              · exact hfirst
              · exact hall o hlater hroom'
            · intro hall o hreached hroom'
              exact hall o (hreached.of_next hroom) hroom'

/-! ## Messages one behind the other -/

section Messages

variable {μ β : Type} (extent : μ → Nat) (item : μ → ω)

/-- The turns of a walk that sees messages as they lie one behind the other. -/
def turnsFrom : Nat → List μ → List (Turn ω)
  | _, [] => []
  | offset, m :: ms => ⟨offset, item m, offset + extent m⟩ :: turnsFrom (offset + extent m) ms

theorem map_item_turnsFrom (offset : Nat) (ms : List μ) :
    (turnsFrom extent item offset ms).map (·.item) = ms.map item := by
  induction ms generalizing offset with
  | nil => rfl
  | cons m ms ih => simp [turnsFrom, ih]

variable (visit) in
/-- Every visit sees its message and its length. -/
def Sees : Nat → List μ → Prop
  | _, [] => True
  | offset, m :: ms => visit offset = some (item m, extent m) ∧ Sees (offset + extent m) ms

variable {extent item}

theorem map_cons_eq_ok_iff {r : Except WalkError (List (Turn ω))} {turn turn' : Turn ω}
    {turns : List (Turn ω)} :
    r.map (turn :: ·) = .ok (turn' :: turns) ↔ turn = turn' ∧ r = .ok turns := by
  cases r with
  | error e => simp [Except.map]
  | ok rest => simp [Except.map]

/-- A walk sees the messages of a buffer exactly when every visit sees its message and its
length. -/
theorem walk_eq_turnsFrom_iff (hheader : 0 < header) {ms : List μ}
    (hextent : ∀ m ∈ ms, header ≤ extent m) {turns offset : Nat}
    (hend : offset + (ms.map extent).sum = length) (hturns : length ≤ offset + turns) :
    walk visit header length turns offset = .ok (turnsFrom extent item offset ms) ↔
      Sees visit extent item offset ms := by
  induction ms generalizing turns offset with
  | nil =>
      simp only [List.map_nil, List.sum_nil] at hend
      rw [walk_of_lt (by omega)]
      simp [turnsFrom, Sees]
  | cons m ms ih =>
      rw [List.forall_mem_cons] at hextent
      simp only [List.map_cons, List.sum_cons] at hend
      obtain ⟨turns, rfl⟩ : ∃ rest, turns = rest + 1 :=
        Nat.exists_eq_add_one_of_ne_zero (by omega)
      have hroom : offset + header ≤ length := by omega
      have hrest : walk visit header length turns (offset + extent m) =
          .ok (turnsFrom extent item (offset + extent m) ms) ↔ _ :=
        ih hextent.2 (by omega) (by omega)
      rw [turnsFrom, Sees]
      cases hseen : visit offset with
      | none =>
          rw [walk_of_none hroom hseen]
          simp
      | some seen =>
          obtain ⟨x, n⟩ := seen
          rcases Nat.eq_zero_or_pos n with rfl | hpos
          · rw [walk, if_pos hroom, hseen]
            have hne : extent m ≠ 0 := by omega
            simp only [if_true, Except.ok.injEq, List.cons.injEq, Turn.mk.injEq,
              Option.some.injEq, Prod.mk.injEq]
            omega
          · rw [walk_of_some hroom hseen hpos, map_cons_eq_ok_iff]
            constructor
            · rintro ⟨hturn, hwalk⟩
              simp only [Turn.mk.injEq] at hturn
              obtain ⟨-, rfl, hnext⟩ := hturn
              obtain rfl : n = extent m := by omega
              exact ⟨rfl, hrest.mp hwalk⟩
            · rintro ⟨hvisit, hsees⟩
              cases hvisit
              exact ⟨rfl, hrest.mpr hsees⟩

/-- Messages whose bytes lie one behind the other are seen exactly when each of them is seen
wherever its bytes lie. -/
theorem sees_append_iff {bytes : μ → List β} {visitOf : List β → Nat → Option (ω × Nat)}
    {good : μ → Prop}
    (hvisit : ∀ m front back, visitOf (front ++ bytes m ++ back) front.length =
      some (item m, (bytes m).length) ↔ good m)
    (front : List β) (ms : List μ) :
    Sees (visitOf (front ++ ms.flatMap bytes)) (fun m => (bytes m).length) item front.length ms ↔
      ∀ m ∈ ms, good m := by
  induction ms generalizing front with
  | nil => simp [Sees]
  | cons m ms ih =>
      have hshift : front ++ (m :: ms).flatMap bytes = front ++ bytes m ++ ms.flatMap bytes := by
        rw [List.flatMap_cons, List.append_assoc]
      have hrest := ih (front ++ bytes m)
      rw [List.length_append] at hrest
      rw [Sees, hshift, hvisit, hrest, List.forall_mem_cons]

/-- A walk over the bytes of messages behind a front sees these messages exactly when each
of them is seen wherever its bytes lie. -/
theorem walk_append_iff {bytes : μ → List β} {visitOf : List β → Nat → Option (ω × Nat)}
    {good : μ → Prop} (hheader : 0 < header) (hbytes : ∀ m, header ≤ (bytes m).length)
    (hvisit : ∀ m front back, visitOf (front ++ bytes m ++ back) front.length =
      some (item m, (bytes m).length) ↔ good m)
    (front : List β) (ms : List μ) {data : List β} (hdata : data = front ++ ms.flatMap bytes) :
    walk (visitOf data) header data.length data.length front.length =
        .ok (turnsFrom (fun m => (bytes m).length) item front.length ms) ↔
      ∀ m ∈ ms, good m := by
  have hend : front.length + (ms.map fun m => (bytes m).length).sum = data.length := by
    rw [hdata, List.length_append, List.length_flatMap]
  rw [walk_eq_turnsFrom_iff hheader (fun m _ => hbytes m) hend (Nat.le_add_left _ _), hdata,
    sees_append_iff hvisit]

end Messages

end Library
