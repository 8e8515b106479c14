import Mathlib.Data.List.Basic
import Mathlib.Order.Defs.Unbundled

/-!
# Ordered maps as sorted entry lists

A map with an ordered key type is its list of entries in iteration order.  The
strict order on the keys is a parameter, so that one development serves maps
that iterate upwards and maps that iterate downwards.  Sortedness is a field:
an unsorted or duplicated entry list is not a map.

Main results:

- Theorem {lit}`OrderedMap.exists_split`: a present key splits the entries
  around its own entry.
- Theorems {lit}`OrderedMap.update_split`, {lit}`OrderedMap.erase_split` and
  {lit}`OrderedMap.find?_split`: updates, erasures and lookups act on that entry
  alone.
- Theorem {lit}`OrderedMap.exists_insert_split`: emplacing an absent key adds one
  entry between the smaller and the larger keys.
-/

namespace Library

variable {κ ν : Type}

/-- Entries in iteration order, strictly increasing for {lit}`lt`. -/
structure OrderedMap (κ ν : Type) (lt : κ → κ → Prop) where
  entries : List (κ × ν)
  sorted : entries.Pairwise fun a b => lt a.1 b.1

namespace OrderedMap

variable {lt : κ → κ → Prop}

@[ext]
theorem ext {m m' : OrderedMap κ ν lt} (hentries : m.entries = m'.entries) :
    m = m' := by
  cases m
  cases m'
  simp_all

/-- The map without entries. -/
def empty : OrderedMap κ ν lt where
  entries := []
  sorted := .nil

@[simp]
theorem empty_entries : (empty : OrderedMap κ ν lt).entries = [] :=
  rfl

/-- The keys in iteration order. -/
def keys (m : OrderedMap κ ν lt) : List κ :=
  m.entries.map Prod.fst

section Operations

variable [DecidableEq κ] [DecidableRel lt]

/-- The value stored under a key. -/
def find? (m : OrderedMap κ ν lt) (k : κ) : Option ν :=
  (m.entries.find? fun e => e.1 = k).map Prod.snd

/-- Apply {lit}`f` to the value stored under a key, if there is one. -/
def update (m : OrderedMap κ ν lt) (k : κ) (f : ν → ν) : OrderedMap κ ν lt where
  entries := m.entries.map fun e => if e.1 = k then (e.1, f e.2) else e
  sorted := by
    rw [List.pairwise_map]
    refine m.sorted.imp ?_
    intro a b hab
    split <;> split <;> exact hab

/-- Remove the entry of a key, if there is one. -/
def erase (m : OrderedMap κ ν lt) (k : κ) : OrderedMap κ ν lt where
  entries := m.entries.filter fun e => e.1 ≠ k
  sorted := m.sorted.filter _

/-- Add an entry for {lit}`k` at its place, unless the key is present. -/
def insertEntry (lt : κ → κ → Prop) [DecidableRel lt] (k : κ) (v : ν) :
    List (κ × ν) → List (κ × ν)
  | [] => [(k, v)]
  | e :: es =>
      if lt k e.1 then (k, v) :: e :: es
      else if k = e.1 then e :: es
      else e :: insertEntry lt k v es

theorem mem_insertEntry {k : κ} {v : ν} {es : List (κ × ν)} {e : κ × ν}
    (he : e ∈ insertEntry lt k v es) : e = (k, v) ∨ e ∈ es := by
  induction es with
  | nil => simpa [insertEntry] using he
  | cons a es ih =>
      simp only [insertEntry] at he
      split at he
      · simpa using he
      · split at he
        · exact Or.inr he
        · rcases List.mem_cons.mp he with rfl | he
          · simp
          · rcases ih he with h | h
            · exact Or.inl h
            · exact Or.inr (List.mem_cons_of_mem _ h)

theorem insertEntry_sorted [IsStrictTotalOrder κ lt] {k : κ} {v : ν}
    {es : List (κ × ν)} (hes : es.Pairwise fun a b => lt a.1 b.1) :
    (insertEntry lt k v es).Pairwise fun a b => lt a.1 b.1 := by
  induction es with
  | nil => simp [insertEntry]
  | cons a es ih =>
      obtain ⟨ha, hes'⟩ := List.pairwise_cons.mp hes
      simp only [insertEntry]
      split <;> rename_i hlt
      · refine List.pairwise_cons.mpr ⟨?_, hes⟩
        intro e he
        rcases List.mem_cons.mp he with rfl | he
        · exact hlt
        · exact trans_of lt hlt (ha e he)
      · split <;> rename_i heq
        · exact hes
        · refine List.pairwise_cons.mpr ⟨?_, ih hes'⟩
          intro e he
          rcases mem_insertEntry he with rfl | he
          · rcases trichotomous_of lt a.1 k with h | h | h
            · exact h
            · exact (heq h.symm).elim
            · exact (hlt h).elim
          · exact ha e he

/-- Add an entry for {lit}`k` unless the key is present. -/
def tryEmplace [IsStrictTotalOrder κ lt] (m : OrderedMap κ ν lt) (k : κ) (v : ν) :
    OrderedMap κ ν lt where
  entries := insertEntry lt k v m.entries
  sorted := insertEntry_sorted m.sorted

end Operations

/-! ## Entries around one key -/

section Splitting

/-- Keys are unique: an entry's key occurs neither before nor after it. -/
theorem ne_of_split [Std.Irrefl lt] {m : OrderedMap κ ν lt} {k : κ} {v : ν}
    {pre post : List (κ × ν)} (hsplit : m.entries = pre ++ (k, v) :: post) :
    (∀ e ∈ pre, e.1 ≠ k) ∧ ∀ e ∈ post, e.1 ≠ k := by
  have hsorted := m.sorted
  rw [hsplit] at hsorted
  obtain ⟨-, hpost, hcross⟩ := List.pairwise_append.mp hsorted
  constructor
  · intro e he hek
    have hlt := hcross e he (k, v) (by simp)
    rw [hek] at hlt
    exact irrefl_of lt k hlt
  · intro e he hek
    have hlt := (List.pairwise_cons.mp hpost).1 e he
    rw [hek] at hlt
    exact irrefl_of lt k hlt

/-- An entry of the map splits the entries around itself. -/
theorem exists_split {m : OrderedMap κ ν lt} {k : κ} {v : ν}
    (hmem : (k, v) ∈ m.entries) :
    ∃ pre post, m.entries = pre ++ (k, v) :: post :=
  List.append_of_mem hmem

variable [DecidableEq κ]

/-- Updating under a key that no entry has changes no entry. -/
theorem map_update_of_ne {k : κ} {f : ν → ν} {es : List (κ × ν)}
    (hne : ∀ e ∈ es, e.1 ≠ k) :
    es.map (fun e => if e.1 = k then (e.1, f e.2) else e) = es := by
  conv_rhs => rw [← List.map_id es]
  refine List.map_congr_left ?_
  intro e he
  simp [hne e he]

/-- An update changes the entry of its key alone. -/
theorem update_split [Std.Irrefl lt] {m : OrderedMap κ ν lt} {k : κ} {v : ν}
    {pre post : List (κ × ν)} (f : ν → ν)
    (hsplit : m.entries = pre ++ (k, v) :: post) :
    (m.update k f).entries = pre ++ (k, f v) :: post := by
  obtain ⟨hpre, hpost⟩ := ne_of_split hsplit
  simp only [update, hsplit, List.map_append, List.map_cons, if_true]
  rw [map_update_of_ne hpre, map_update_of_ne hpost]

/-- An erasure removes the entry of its key alone. -/
theorem erase_split [Std.Irrefl lt] {m : OrderedMap κ ν lt} {k : κ} {v : ν}
    {pre post : List (κ × ν)} (hsplit : m.entries = pre ++ (k, v) :: post) :
    (m.erase k).entries = pre ++ post := by
  obtain ⟨hpre, hpost⟩ := ne_of_split hsplit
  have hkeep : ∀ es : List (κ × ν), (∀ e ∈ es, e.1 ≠ k) →
      es.filter (fun e => e.1 ≠ k) = es := by
    intro es hes
    exact List.filter_eq_self.mpr (by simpa using hes)
  simp only [erase, hsplit, List.filter_append, List.filter_cons, ne_eq,
    not_true_eq_false, decide_false, Bool.false_eq_true, if_false]
  have hpre' := hkeep pre hpre
  have hpost' := hkeep post hpost
  simp only [ne_eq] at hpre' hpost'
  rw [hpre', hpost']

/-- A lookup finds the entry of its key. -/
theorem find?_split [Std.Irrefl lt] {m : OrderedMap κ ν lt} {k : κ} {v : ν}
    {pre post : List (κ × ν)} (hsplit : m.entries = pre ++ (k, v) :: post) :
    m.find? k = some v := by
  have hpre : pre.find? (fun e => e.1 = k) = none := by
    simpa using (ne_of_split hsplit).1
  simp [find?, hsplit, List.find?_append, hpre]

/-- An update changes no key. -/
theorem keys_update (m : OrderedMap κ ν lt) (k : κ) (f : ν → ν) : (m.update k f).keys = m.keys := by
  unfold keys update
  rw [List.map_map]
  apply List.map_congr_left
  intro e _
  simp only [Function.comp_apply]
  split <;> rfl

/-- A lookup of the updated key finds the updated value. -/
theorem find?_update (m : OrderedMap κ ν lt) (k : κ) (f : ν → ν) :
    (m.update k f).find? k = (m.find? k).map f := by
  rcases m with ⟨entries, sorted⟩
  simp only [find?, update]
  clear sorted
  induction entries with
  | nil => rfl
  | cons e es ih =>
      by_cases hk : e.1 = k
      · simp [hk]
      · simpa [hk] using ih

/-- A lookup fails exactly when no entry has the key. -/
theorem find?_eq_none {m : OrderedMap κ ν lt} {k : κ} :
    m.find? k = none ↔ ∀ e ∈ m.entries, e.1 ≠ k := by
  simp [find?]

/-- A lookup among entries around a key whose value may be absent. -/
theorem find?_around {m : OrderedMap κ ν lt} {k : κ} {v : Option ν}
    {pre post : List (κ × ν)} (hne : ∀ e ∈ pre ++ post, e.1 ≠ k)
    (hentries : m.entries = pre ++ v.toList.map (fun x => (k, x)) ++ post) (k' : κ) :
    m.find? k' =
      if k' = k then v else ((pre ++ post).find? fun e => e.1 = k').map Prod.snd := by
  have hfind : ∀ es : List (κ × ν), (∀ e ∈ es, e.1 ≠ k) →
      es.find? (fun e => e.1 = k) = none := by
    intro es hes
    simpa using hes
  have hpre := hfind pre fun e he => hne e (List.mem_append_left _ he)
  have hpost := hfind post fun e he => hne e (List.mem_append_right _ he)
  split
  · rename_i hk
    cases v <;> simp [find?, hentries, hk, hpre, hpost]
  · rename_i hk
    cases v <;> simp [find?, hentries, Ne.symm hk]

/-- A successful lookup returns an entry of the map. -/
theorem mem_of_find? {m : OrderedMap κ ν lt} {k : κ} {v : ν}
    (hfind : m.find? k = some v) : (k, v) ∈ m.entries := by
  simp only [find?, Option.map_eq_some_iff] at hfind
  obtain ⟨e, he, rfl⟩ := hfind
  have hkey : e.1 = k := by simpa using List.find?_some he
  have hmem := List.mem_of_find?_eq_some he
  rw [← hkey]
  exact hmem

/-- An update replaces the value that a lookup finds. -/
theorem update_of_find? [Std.Irrefl lt] {m : OrderedMap κ ν lt} {k : κ} {v : ν} (f : ν → ν)
    (hfind : m.find? k = some v) : m.update k f = m.update k fun _ => f v := by
  obtain ⟨pre, post, hsplit⟩ := exists_split (mem_of_find? hfind)
  apply OrderedMap.ext
  rw [update_split f hsplit, update_split (fun _ => f v) hsplit]

variable [DecidableRel lt]

/-- Emplacing below or beside the entries of a list keeps the larger ones. -/
theorem insertEntry_split [IsStrictTotalOrder κ lt] {k : κ} {v : ν}
    {es : List (κ × ν)} (hes : es.Pairwise fun a b => lt a.1 b.1)
    (habsent : ∀ e ∈ es, e.1 ≠ k) :
    ∃ pre post, es = pre ++ post ∧ insertEntry lt k v es = pre ++ (k, v) :: post ∧
      (∀ e ∈ pre, lt e.1 k) ∧ ∀ e ∈ post, lt k e.1 := by
  induction es with
  | nil => exact ⟨[], [], by simp [insertEntry]⟩
  | cons a es ih =>
      obtain ⟨ha, hes'⟩ := List.pairwise_cons.mp hes
      simp only [insertEntry]
      split <;> rename_i hlt
      · refine ⟨[], a :: es, rfl, rfl, by simp, ?_⟩
        intro e he
        rcases List.mem_cons.mp he with rfl | he
        · exact hlt
        · exact trans_of lt hlt (ha e he)
      · have hne : k ≠ a.1 := fun h => habsent a (by simp) h.symm
        obtain ⟨pre, post, rfl, hinsert, hpre, hpost⟩ :=
          ih hes' (fun e he => habsent e (List.mem_cons_of_mem _ he))
        rw [if_neg hne, hinsert]
        refine ⟨a :: pre, post, rfl, rfl, ?_, hpost⟩
        intro e he
        rcases List.mem_cons.mp he with rfl | he
        · rcases trichotomous_of lt e.1 k with h | h | h
          · exact h
          · exact (hne h.symm).elim
          · exact (hlt h).elim
        · exact hpre e he

/-- Emplacing under a key that is present changes nothing. -/
theorem insertEntry_of_mem [IsStrictTotalOrder κ lt] {k : κ} {v : ν}
    {es : List (κ × ν)} (hes : es.Pairwise fun a b => lt a.1 b.1)
    (hpresent : ∃ e ∈ es, e.1 = k) : insertEntry lt k v es = es := by
  induction es with
  | nil => simp at hpresent
  | cons a es ih =>
      obtain ⟨ha, hes'⟩ := List.pairwise_cons.mp hes
      obtain ⟨e, he, hek⟩ := hpresent
      simp only [insertEntry]
      rcases List.mem_cons.mp he with rfl | he
      · subst hek
        simp [irrefl_of lt e.1]
      · have hak : lt a.1 k := hek ▸ ha e he
        have hne : k ≠ a.1 := fun h => irrefl_of lt k (h ▸ hak)
        rw [if_neg (asymm_of lt hak), if_neg hne, ih hes' ⟨e, he, hek⟩]

/-- Emplacing an absent key adds one entry, between the smaller and the larger
keys. -/
theorem exists_insert_split [IsStrictTotalOrder κ lt] {m : OrderedMap κ ν lt}
    {k : κ} (v : ν) (habsent : m.find? k = none) :
    ∃ pre post, m.entries = pre ++ post ∧
      (m.tryEmplace k v).entries = pre ++ (k, v) :: post ∧
      (∀ e ∈ pre, lt e.1 k) ∧ ∀ e ∈ post, lt k e.1 :=
  insertEntry_split m.sorted (find?_eq_none.mp habsent)

/-- Emplacing a present key changes nothing. -/
theorem tryEmplace_of_mem [IsStrictTotalOrder κ lt] {m : OrderedMap κ ν lt}
    {k : κ} {v v' : ν} (hmem : (k, v') ∈ m.entries) : m.tryEmplace k v = m :=
  OrderedMap.ext (insertEntry_of_mem m.sorted ⟨_, hmem, rfl⟩)

/-- Emplacing a key finds its value if it is present, and the new value if not. -/
theorem find?_tryEmplace [IsStrictTotalOrder κ lt] (m : OrderedMap κ ν lt) (k : κ) (v : ν) :
    (m.tryEmplace k v).find? k = some ((m.find? k).getD v) := by
  cases hfind : m.find? k with
  | none =>
      obtain ⟨pre, post, -, hafter, -, -⟩ := exists_insert_split v hfind
      rw [find?_split hafter]
      rfl
  | some v' =>
      rw [tryEmplace_of_mem (mem_of_find? hfind), hfind]
      rfl

end Splitting

end OrderedMap
end Library
