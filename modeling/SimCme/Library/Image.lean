import SimCme.Library.Heap
import SimCme.Library.OrderedMap

/-!
# Images of heaps and ordered maps

A function of the objects carries over to heaps, cell by cell.  A function of the keys
and one of the values carry over to ordered maps, entry by entry, when the keys go to
keys in iteration order; the order of the image need not be that of the map.  Every
operation on the image is the image of the operation.

Main results:

- Theorem {lit}`Heap.modify_map`: an update of an object of the image.
- Theorems {lit}`OrderedMap.IsImage.find?`, {lit}`OrderedMap.IsImage.update`,
  {lit}`OrderedMap.IsImage.erase` and {lit}`OrderedMap.IsImage.tryEmplace`: lookups,
  updates, erasures and insertions on the image.
- Theorems {lit}`OrderedMap.mapValues_update`, {lit}`OrderedMap.mapValues_erase` and
  {lit}`OrderedMap.mapValues_tryEmplace`: the same as equations, where the keys stay.
-/

namespace Library

namespace Heap

variable {α β : Type}

/-- The image of every cell. -/
def map (g : α → β) (h : Heap α) : Heap β where
  cells := fun r => g (h.cells r)
  next := h.next

variable {g : α → β} {h : Heap α} {r : Ref}

@[simp]
theorem read_map : (h.map g).read r = g (h.read r) :=
  rfl

@[simp]
theorem next_map : (h.map g).next = h.next :=
  rfl

theorem modify_map {f : α → α} {f' : β → β} (hf : ∀ a, f' (g a) = g (f a)) :
    (h.map g).modify r f' = (h.modify r f).map g := by
  apply ext_read
  · intro r'
    by_cases hr : r' = r
    · simp [hr, hf]
    · simp [hr]
  · rfl

theorem alloc_map (a : α) : (h.map g).alloc (g a) = (h.alloc a).map g := by
  apply ext_read
  · intro r'
    by_cases hr : r' = h.next
    · subst hr
      rw [read_map, read_alloc_next]
      exact read_alloc_next (h.map g) (g a)
    · rw [read_map, read_alloc_of_ne _ _ hr]
      exact read_alloc_of_ne (h.map g) (g a) hr
  · rfl

end Heap

namespace OrderedMap

variable {κ κ' ν ν' : Type} {lt : κ → κ → Prop} {lt' : κ' → κ' → Prop}

/-- The entries of one map are the images of the entries of another. -/
def IsImage (f : κ → κ') (g : ν → ν') (m : OrderedMap κ ν lt) (m' : OrderedMap κ' ν' lt') :
    Prop :=
  m'.entries = m.entries.map (Prod.map f g)

namespace IsImage

variable {f : κ → κ'} {g : ν → ν'} {m : OrderedMap κ ν lt} {m' : OrderedMap κ' ν' lt'}
  {k : κ}

theorem keys_eq (himage : IsImage f g m m') : m'.keys = m.keys.map f := by
  unfold keys
  rw [himage, List.map_map, List.map_map]
  rfl

theorem mem_keys (hf : Function.Injective f) (himage : IsImage f g m m') :
    f k ∈ m'.keys ↔ k ∈ m.keys := by
  rw [himage.keys_eq, List.mem_map_of_injective hf]

/-- The position of the first key with a property that the image keeps. -/
theorem findIdx_keys (himage : IsImage f g m m') {P : κ → Bool} {P' : κ' → Bool}
    (hP : ∀ k ∈ m.keys, P' (f k) = P k) : m'.keys.findIdx P' = m.keys.findIdx P := by
  rw [himage.keys_eq, List.findIdx_map]
  revert hP
  induction m.keys with
  | nil => exact fun _ => rfl
  | cons k keys ih =>
      intro hP
      obtain ⟨hk, hkeys⟩ := List.forall_mem_cons.mp hP
      rw [List.findIdx_cons, List.findIdx_cons, Function.comp_apply, hk, ih hkeys]

section Operations

variable [DecidableEq κ] [DecidableEq κ'] (hf : Function.Injective f)

include hf

theorem find? (himage : IsImage f g m m') : m'.find? (f k) = (m.find? k).map g := by
  have heq : (fun e : κ' × ν' => decide (e.1 = f k)) ∘ Prod.map f g =
      fun e => decide (e.1 = k) := by
    funext e
    simp [hf.eq_iff]
  unfold OrderedMap.find?
  rw [himage, List.find?_map, heq, Option.map_map, Option.map_map]
  rfl

theorem update (himage : IsImage f g m m') {u : ν → ν} {w : ν' → ν'}
    (hu : ∀ v, w (g v) = g (u v)) : IsImage f g (m.update k u) (m'.update (f k) w) := by
  unfold IsImage OrderedMap.update
  simp only
  rw [himage, List.map_map, List.map_map]
  apply List.map_congr_left
  intro e _
  by_cases he : e.1 = k
  · simp [he, hu, Prod.map]
  · simp [he, hf.eq_iff, Prod.map]

theorem erase (himage : IsImage f g m m') : IsImage f g (m.erase k) (m'.erase (f k)) := by
  unfold IsImage OrderedMap.erase
  simp only
  rw [himage, List.filter_map]
  congr 1
  apply List.filter_congr
  intro e _
  simp [hf.eq_iff]

/-- An insertion compares the key with the keys of the map. -/
theorem insertEntry [DecidableRel lt] [DecidableRel lt'] {es : List (κ × ν)}
    (hlt : ∀ e ∈ es, lt' (f k) (f e.1) ↔ lt k e.1) (v : ν) :
    OrderedMap.insertEntry lt' (f k) (g v) (es.map (Prod.map f g)) =
      (OrderedMap.insertEntry lt k v es).map (Prod.map f g) := by
  induction es with
  | nil => rfl
  | cons e es ih =>
      obtain ⟨hfirst, hrest⟩ := List.forall_mem_cons.mp hlt
      simp only [List.map_cons, OrderedMap.insertEntry, Prod.map_fst, hfirst, hf.eq_iff]
      split
      · rfl
      · split
        · rfl
        · rw [ih hrest]
          rfl

theorem tryEmplace [DecidableRel lt] [DecidableRel lt'] [IsStrictTotalOrder κ lt]
    [IsStrictTotalOrder κ' lt'] (himage : IsImage f g m m')
    (hlt : ∀ e ∈ m.entries, lt' (f k) (f e.1) ↔ lt k e.1) (v : ν) :
    IsImage f g (m.tryEmplace k v) (m'.tryEmplace (f k) (g v)) := by
  unfold IsImage OrderedMap.tryEmplace
  simp only
  rw [himage]
  exact insertEntry hf hlt v

end Operations

end IsImage

/-! ### Images under a function of the values -/

section MapValues

variable (m : OrderedMap κ ν lt) (g : ν → ν') (k : κ)

/-- Apply {lit}`g` to every value. -/
def mapValues : OrderedMap κ ν' lt where
  entries := m.entries.map (Prod.map id g)
  sorted := by
    rw [List.pairwise_map]
    exact m.sorted

@[simp]
theorem entries_mapValues : (m.mapValues g).entries = m.entries.map (Prod.map id g) :=
  rfl

theorem isImage_mapValues : IsImage id g m (m.mapValues g) :=
  rfl

@[simp]
theorem keys_mapValues : (m.mapValues g).keys = m.keys := by
  rw [(m.isImage_mapValues g).keys_eq, List.map_id]

variable [DecidableEq κ]

@[simp]
theorem find?_mapValues : (m.mapValues g).find? k = (m.find? k).map g :=
  (m.isImage_mapValues g).find? Function.injective_id

/-- A value that is replaced is replaced by its image. -/
theorem mapValues_update (v : ν) :
    (m.update k fun _ => v).mapValues g = (m.mapValues g).update k fun _ => g v := by
  have himage := (m.isImage_mapValues g).update Function.injective_id (k := k)
    (u := fun _ => v) (w := fun _ => g v) fun _ => rfl
  exact OrderedMap.ext himage.symm

theorem mapValues_erase : (m.erase k).mapValues g = (m.mapValues g).erase k := by
  have himage := (m.isImage_mapValues g).erase Function.injective_id (k := k)
  exact OrderedMap.ext himage.symm

theorem mapValues_tryEmplace [DecidableRel lt] [IsStrictTotalOrder κ lt] (v : ν) :
    (m.tryEmplace k v).mapValues g = (m.mapValues g).tryEmplace k (g v) := by
  have himage := (m.isImage_mapValues g).tryEmplace Function.injective_id (k := k)
    (fun _ _ => Iff.rfl) v
  exact OrderedMap.ext himage.symm

end MapValues

end OrderedMap
end Library
