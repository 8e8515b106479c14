import Mathlib.Data.List.Induction
import Mathlib.Data.List.Nodup
import Mathlib.Logic.Function.Basic

/-!
# Doubly linked queues

Nodes that carry a link to the node before and one to the node after them in a
queue.  A queue is given by the list of its nodes; the links of its first and
last node are null, and so is nothing between them.

Main results:

- Theorem {lit}`Links.segment_append`: the links of a concatenation are those of
  its parts and of the seam.
- Theorems {lit}`Links.Linked.concat` and {lit}`Links.Linked.erase_middle`: the
  links to rewrite when a node joins at the end and when any node leaves.
- Theorems {lit}`Links.Linked.leads_next` and {lit}`Links.Linked.leads_prev`:
  the links lead through the nodes in order, and backwards in reverse order.
- Theorem {lit}`Leads.eq`: a walk that reaches null visits a determined list.
-/

namespace Library

/-! ## Walks along a link -/

section Leads

variable {κ : Type} {step : κ → Option κ}

/-- Following a link from a start leads through exactly the listed nodes to null. -/
def Leads (step : κ → Option κ) : Option κ → List κ → Prop
  | start, [] => start = none
  | start, x :: xs => start = some x ∧ Leads step (step x) xs

instance decidableLeads [DecidableEq κ] (step : κ → Option κ) :
    ∀ start xs, Decidable (Leads step start xs)
  | start, [] => inferInstanceAs (Decidable (start = none))
  | start, x :: xs =>
      have := decidableLeads step (step x) xs
      inferInstanceAs (Decidable (start = some x ∧ Leads step (step x) xs))

/-- A walk that reaches null visits a determined list. -/
theorem Leads.eq {start : Option κ} {xs ys : List κ} (hxs : Leads step start xs)
    (hys : Leads step start ys) : xs = ys := by
  induction xs generalizing start ys with
  | nil =>
      cases ys with
      | nil => rfl
      | cons y ys => exact nomatch hxs.symm.trans hys.1
  | cons x xs ih =>
      cases ys with
      | nil => exact nomatch hxs.1.symm.trans hys
      | cons y ys =>
          have hxy : x = y := Option.some.inj (hxs.1.symm.trans hys.1)
          subst hxy
          rw [ih hxs.2 hys.2]

/-- The nodes a walk of at most so many steps visits, and where it stops. -/
def follow (step : κ → Option κ) : Nat → Option κ → List κ × Option κ
  | 0, start => ([], start)
  | _ + 1, none => ([], none)
  | fuel + 1, some x =>
      let rest := follow step fuel (step x)
      (x :: rest.1, rest.2)

/-- With as many steps as there are nodes a walk reaches null. -/
theorem Leads.follow_eq {start : Option κ} {xs : List κ} (hleads : Leads step start xs)
    {fuel : Nat} (hfuel : xs.length ≤ fuel) : follow step fuel start = (xs, none) := by
  induction xs generalizing start fuel with
  | nil =>
      have hnone : start = none := hleads
      subst hnone
      cases fuel with
      | zero => rfl
      | succ fuel => rfl
  | cons x xs ih =>
      obtain ⟨hstart, hrest⟩ := hleads
      subst hstart
      cases fuel with
      | zero => simp at hfuel
      | succ fuel =>
          rw [follow, ih hrest (Nat.le_of_succ_le_succ hfuel)]

end Leads

/-! ## Links -/

/-- The links of the nodes {lit}`κ`. -/
@[ext]
structure Links (κ : Type) where
  prev : κ → Option κ
  next : κ → Option κ

namespace Links

variable {κ : Type} {links links' : Links κ}

/-- The nodes are linked in order, with {lit}`before` in front and {lit}`after`
behind them. -/
def Segment (links : Links κ) : Option κ → List κ → Option κ → Prop
  | _, [], _ => True
  | before, x :: xs, after =>
      links.prev x = before ∧ links.next x = xs.head?.or after ∧
        links.Segment (some x) xs after

/-- The nodes are linked in order, with null at either end. -/
def Linked (links : Links κ) (xs : List κ) : Prop :=
  links.Segment none xs none

/-- The links of a concatenation are those of its parts and of the seam. -/
theorem segment_append {before after : Option κ} {xs ys : List κ} :
    links.Segment before (xs ++ ys) after ↔
      links.Segment before xs (ys.head?.or after) ∧
        links.Segment (xs.getLast?.or before) ys after := by
  induction xs generalizing before with
  | nil => simp [Segment]
  | cons x xs ih =>
      have hlast : (x :: xs).getLast?.or before = xs.getLast?.or (some x) := by
        simp [List.getLast?_cons]
      simp only [List.cons_append, Segment, ih, hlast, List.head?_append, Option.or_assoc, and_assoc]

/-- A segment reads the links of its own nodes only. -/
theorem Segment.congr {before after : Option κ} {xs : List κ}
    (hsegment : links.Segment before xs after)
    (hprev : ∀ x ∈ xs, links'.prev x = links.prev x)
    (hnext : ∀ x ∈ xs, links'.next x = links.next x) :
    links'.Segment before xs after := by
  induction xs generalizing before with
  | nil => trivial
  | cons x xs ih =>
      obtain ⟨hfirst, hsecond, hrest⟩ := hsegment
      refine ⟨?_, ?_, ?_⟩
      · rw [hprev x List.mem_cons_self, hfirst]
      · rw [hnext x List.mem_cons_self, hsecond]
      · exact ih hrest (fun y hy => hprev y (List.mem_cons_of_mem x hy))
          fun y hy => hnext y (List.mem_cons_of_mem x hy)

theorem Linked.congr {xs : List κ} (hlinked : links.Linked xs)
    (hprev : ∀ x ∈ xs, links'.prev x = links.prev x)
    (hnext : ∀ x ∈ xs, links'.next x = links.next x) : links'.Linked xs :=
  Segment.congr hlinked hprev hnext

theorem Segment.leads_next {before : Option κ} {xs : List κ}
    (hsegment : links.Segment before xs none) : Leads links.next xs.head? xs := by
  induction xs generalizing before with
  | nil => rfl
  | cons x xs ih =>
      obtain ⟨-, hnext, hrest⟩ := hsegment
      rw [Option.or_none] at hnext
      constructor
      · rfl
      · rw [hnext]
        exact ih hrest

/-- The forward links lead from the first node through the nodes in order. -/
theorem Linked.leads_next {xs : List κ} (hlinked : links.Linked xs) :
    Leads links.next xs.head? xs :=
  Segment.leads_next hlinked

theorem Segment.leads_prev {after : Option κ} {xs : List κ}
    (hsegment : links.Segment none xs after) : Leads links.prev xs.getLast? xs.reverse := by
  induction xs using List.reverseRecOn generalizing after with
  | nil => rfl
  | append_singleton xs x ih =>
      obtain ⟨hrest, hprev, -⟩ := segment_append.mp hsegment
      rw [Option.or_none] at hprev
      rw [List.reverse_concat, List.getLast?_concat]
      constructor
      · rfl
      · rw [hprev]
        exact ih hrest

/-- The backward links lead from the last node through the nodes in reverse order. -/
theorem Linked.leads_prev {xs : List κ} (hlinked : links.Linked xs) :
    Leads links.prev xs.getLast? xs.reverse :=
  Segment.leads_prev hlinked

/-! ### Links of a node in the middle -/

theorem Linked.prev_middle {xs ys : List κ} {x : κ} (hlinked : links.Linked (xs ++ x :: ys)) :
    links.prev x = xs.getLast? := by
  have hprev := (segment_append.mp hlinked).2.1
  rwa [Option.or_none] at hprev

theorem Linked.next_middle {xs ys : List κ} {x : κ} (hlinked : links.Linked (xs ++ x :: ys)) :
    links.next x = ys.head? := by
  have hnext := (segment_append.mp hlinked).2.2.1
  rwa [Option.or_none] at hnext

/-- The links of a node of the queue stay in the queue. -/
theorem Linked.mem_of_prev {xs : List κ} {x y : κ} (hlinked : links.Linked xs) (hx : x ∈ xs)
    (hprev : links.prev x = some y) : y ∈ xs := by
  obtain ⟨front, back, heq⟩ := List.append_of_mem hx
  rw [heq] at hlinked ⊢
  rw [hlinked.prev_middle] at hprev
  exact List.mem_append_left _ (List.mem_of_getLast? hprev)

theorem Linked.mem_of_next {xs : List κ} {x y : κ} (hlinked : links.Linked xs) (hx : x ∈ xs)
    (hnext : links.next x = some y) : y ∈ xs := by
  obtain ⟨front, back, heq⟩ := List.append_of_mem hx
  rw [heq] at hlinked ⊢
  rw [hlinked.next_middle] at hnext
  exact List.mem_append_right _ (List.mem_cons_of_mem x (List.mem_of_head? hnext))

/-! ### Joining and leaving -/

section Rewrite

variable [DecidableEq κ] {before before' after after' : Option κ} {xs ys : List κ} {x : κ}

/-- The last node of a segment alone links to what lies behind it. -/
theorem Segment.relink_last (hsegment : links.Segment before xs after) (hnodup : xs.Nodup)
    (hprev : ∀ y ∈ xs, links'.prev y = links.prev y)
    (hnext : ∀ y ∈ xs, links'.next y = if xs.getLast? = some y then after' else links.next y) :
    links'.Segment before xs after' := by
  induction xs generalizing before with
  | nil => trivial
  | cons x xs ih =>
      obtain ⟨hfirst, hsecond, hrest⟩ := hsegment
      obtain ⟨hout, hnodup⟩ := List.nodup_cons.mp hnodup
      obtain ⟨hprevFirst, hprevRest⟩ := List.forall_mem_cons.mp hprev
      obtain ⟨hnextFirst, hnextRest⟩ := List.forall_mem_cons.mp hnext
      refine ⟨hprevFirst.trans hfirst, ?_, ?_⟩
      · cases xs with
        | nil => simpa using hnextFirst
        | cons y ys =>
            have hlast : (x :: y :: ys).getLast? ≠ some x := by
              rw [List.getLast?_cons_cons]
              exact fun hlast => hout (List.mem_of_getLast? hlast)
            rw [hnextFirst, if_neg hlast, hsecond]
            rfl
      · apply ih hrest hnodup hprevRest
        intro y hy
        rw [hnextRest y hy]
        cases xs with
        | nil => simp at hy
        | cons z zs => rw [List.getLast?_cons_cons]

/-- The first node of a segment alone links to what lies in front of it. -/
theorem Segment.relink_first (hsegment : links.Segment before xs after) (hnodup : xs.Nodup)
    (hprev : ∀ y ∈ xs, links'.prev y = if xs.head? = some y then before' else links.prev y)
    (hnext : ∀ y ∈ xs, links'.next y = links.next y) :
    links'.Segment before' xs after := by
  cases xs with
  | nil => trivial
  | cons x xs =>
      obtain ⟨-, hsecond, hrest⟩ := hsegment
      have hout : x ∉ xs := (List.nodup_cons.mp hnodup).1
      obtain ⟨hprevFirst, hprevRest⟩ := List.forall_mem_cons.mp hprev
      obtain ⟨hnextFirst, hnextRest⟩ := List.forall_mem_cons.mp hnext
      refine ⟨by simpa using hprevFirst, hnextFirst.trans hsecond, hrest.congr ?_ hnextRest⟩
      intro y hy
      have hne : x ≠ y := fun heq => hout (heq ▸ hy)
      rw [hprevRest y hy, List.head?_cons, if_neg fun heq => hne (Option.some.inj heq)]

/-- A node joins at the end: it links back to the last node, and the last node
links to it. -/
theorem Linked.concat (hlinked : links.Linked xs) (hnodup : (xs ++ [x]).Nodup)
    (hprev : ∀ y ∈ xs, links'.prev y = links.prev y)
    (hnext : ∀ y ∈ xs, links'.next y = if xs.getLast? = some y then some x else links.next y)
    (hprevLast : links'.prev x = xs.getLast?) (hnextLast : links'.next x = none) :
    links'.Linked (xs ++ [x]) := by
  have hfront : links'.Segment none xs (some x) :=
    Segment.relink_last hlinked hnodup.of_append_left hprev hnext
  have hback : links'.Segment (xs.getLast?.or none) [x] none := by
    simp [Segment, hprevLast, hnextLast]
  exact segment_append.mpr ⟨hfront, hback⟩

/-- A node leaves, wherever it stands: the node before it and the node after it
take over each other's side of its links. -/
theorem Linked.erase_middle (hlinked : links.Linked (xs ++ x :: ys))
    (hnodup : (xs ++ x :: ys).Nodup)
    (hprev : ∀ y ∈ xs ++ ys,
      links'.prev y = if links.next x = some y then links.prev x else links.prev y)
    (hnext : ∀ y ∈ xs ++ ys,
      links'.next y = if links.prev x = some y then links.next x else links.next y) :
    links'.Linked (xs ++ ys) := by
  rw [hlinked.prev_middle, hlinked.next_middle] at hprev hnext
  obtain ⟨hfront, -, -, hback⟩ := segment_append.mp hlinked
  obtain ⟨hnodupFront, hnodupBack, hdisjoint⟩ := List.nodup_append.mp hnodup
  have hapart : ∀ y ∈ xs, y ∉ ys := fun y hy hys =>
    hdisjoint y hy y (List.mem_cons_of_mem x hys) rfl
  refine segment_append.mpr ⟨?_, ?_⟩
  · -- the nodes in front keep their backward links
    apply hfront.relink_last hnodupFront
    · intro y hy
      have hne : ys.head? ≠ some y := fun heq => hapart y hy (List.mem_of_head? heq)
      rw [hprev y (List.mem_append_left ys hy), if_neg hne]
    · intro y hy
      rw [hnext y (List.mem_append_left ys hy), Option.or_none]
  · -- the nodes behind keep their forward links
    apply hback.relink_first (List.nodup_cons.mp hnodupBack).2
    · intro y hy
      rw [hprev y (List.mem_append_right xs hy), Option.or_none]
    · intro y hy
      have hne : xs.getLast? ≠ some y := fun heq => hapart y (List.mem_of_getLast? heq) hy
      rw [hnext y (List.mem_append_right xs hy), if_neg hne]

end Rewrite

end Links

end Library
