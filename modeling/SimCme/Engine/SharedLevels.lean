import Mathlib.Data.Fintype.Basic
import SimCme.Engine.LinkedLevel
import SimCme.Library.Machine

/-!
# Price levels that share a heap of orders

Any number of price levels keep their queues in the links of the same orders.
An order joins a level while it is in none, and leaves the level it is in.  Then
the links of every level spell its queue after any calls: the orders added to
it and not removed since, in order of addition.

Main results:

- Theorem {lit}`LevelState.Implements.step`: a call changes the queue of its own
  level as the level that lists its orders does, and no record of another level.
- Theorem {lit}`LevelState.runInv`: what holds of the levels after any calls.
- Theorem {lit}`LevelState.levels_fifo`: the queues after any calls, from their
  links.
-/

namespace SimCme

open Library

/-! ## Calls and their queues -/

/-- A call of a level's operation on an order. -/
inductive LevelCall (ι : Type) where
  | addOrder (level : ι) (order : OrderRef)
  | removeOrder (level : ι) (order : OrderRef)
deriving DecidableEq, Repr

namespace LevelCall

variable {ι : Type}

def level : LevelCall ι → ι
  | .addOrder level _ => level
  | .removeOrder level _ => level

def order : LevelCall ι → OrderRef
  | .addOrder _ order => order
  | .removeOrder _ order => order

variable [DecidableEq ι]

/-- The orders added to a level and not removed since, in order of addition. -/
def outstanding (l : ι) : List (LevelCall ι) → List OrderRef
  | [] => []
  | .addOrder level order :: later =>
      if level = l ∧ .removeOrder l order ∉ later then order :: outstanding l later
      else outstanding l later
  | .removeOrder _ _ :: later => outstanding l later

/-- An addition appends the order to its level's queue and to no other. -/
theorem outstanding_concat_addOrder (l level : ι) (order : OrderRef)
    (calls : List (LevelCall ι)) :
    outstanding l (calls ++ [.addOrder level order]) =
      if level = l then outstanding l calls ++ [order] else outstanding l calls := by
  induction calls with
  | nil => simp [outstanding]
  | cons call calls ih =>
      cases call with
      | addOrder level' order' =>
          rw [List.cons_append, outstanding, outstanding, ih]
          by_cases hlevel : level = l
          · by_cases hkept : level' = l ∧ .removeOrder l order' ∉ calls
            · simp [hlevel, hkept]
            · simp [hlevel, hkept]
          · simp [hlevel]
      | removeOrder level' order' => simpa [outstanding] using ih

/-- A removal takes the order out of its level's queue and out of no other. -/
theorem outstanding_concat_removeOrder (l level : ι) (order : OrderRef)
    (calls : List (LevelCall ι)) :
    outstanding l (calls ++ [.removeOrder level order]) =
      if level = l then (outstanding l calls).filter (· != order) else outstanding l calls := by
  induction calls with
  | nil => simp [outstanding]
  | cons call calls ih =>
      cases call with
      | addOrder level' order' =>
          rw [List.cons_append, outstanding, outstanding, ih]
          by_cases hlevel : level = l
          · by_cases horder : order' = order
            · subst horder
              by_cases hkept : level' = l ∧ .removeOrder l order' ∉ calls
              · simp [hlevel, hkept]
              · simp [hlevel, hkept]
            · by_cases hkept : level' = l ∧ .removeOrder l order' ∉ calls
              · simp [hlevel, horder, hkept]
              · simp [hlevel, horder, hkept]
          · simp [hlevel, Ne.symm hlevel]
      | removeOrder level' order' => simpa [outstanding] using ih

/-- An order joins while it is in no level, and leaves the level it is in. -/
def Allowed (earlier : List (LevelCall ι)) : LevelCall ι → Prop
  | .addOrder _ order => ∀ l, order ∉ outstanding l earlier
  | .removeOrder level order => order ∈ outstanding level earlier

instance decidableAllowed [Fintype ι] (earlier : List (LevelCall ι)) :
    ∀ call, Decidable (Allowed earlier call)
  | .addOrder _ order => inferInstanceAs (Decidable (∀ l, order ∉ outstanding l earlier))
  | .removeOrder level order => inferInstanceAs (Decidable (order ∈ outstanding level earlier))

/-- Every call is allowed after the calls before it. -/
def Legal (calls : List (LevelCall ι)) : Prop :=
  EachAfter Allowed calls

instance decidableLegal [Fintype ι] (calls : List (LevelCall ι)) : Decidable (Legal calls) :=
  inferInstanceAs (Decidable (EachAfter Allowed calls))

end LevelCall

/-! ## The levels -/

/-- Price levels and the heap of the orders in them. -/
structure LevelState (ι : Type) where
  levels : ι → LinkedPriceLevel
  heap : OrderHeap

namespace LevelState

open LevelCall OrderHeap

variable {ι : Type} [DecidableEq ι]

/-- New levels, over any heap. -/
def new (prices : ι → Price) (heap : OrderHeap) : LevelState ι where
  levels l := { price := prices l }
  heap := heap

/-- The level and the heap after a call. -/
def call (s : LevelState ι) : LevelCall ι → LinkedPriceLevel × OrderHeap
  | .addOrder level order => (s.levels level).addOrder s.heap order
  | .removeOrder level order => (s.levels level).removeOrder s.heap order

def step (s : LevelState ι) (c : LevelCall ι) : LevelState ι where
  levels := Function.update s.levels c.level (s.call c).1
  heap := (s.call c).2

def run (s : LevelState ι) (calls : List (LevelCall ι)) : LevelState ι :=
  calls.foldl step s

theorem run_concat (s : LevelState ι) (calls : List (LevelCall ι)) (c : LevelCall ι) :
    s.run (calls ++ [c]) = (s.run calls).step c := by
  simp [run]

/-! ### The levels that list their orders -/

/-- A call on levels that list their orders. -/
def listedCall (h : Heap Order) (listed : ι → PriceLevel) : LevelCall ι → PriceLevel
  | .addOrder level order => (listed level).addOrder h order
  | .removeOrder level order => (listed level).removeOrder h order

def listedStep (h : Heap Order) (listed : ι → PriceLevel) (c : LevelCall ι) : ι → PriceLevel :=
  Function.update listed c.level (listedCall h listed c)

def listedRun (h : Heap Order) (listed : ι → PriceLevel) (calls : List (LevelCall ι)) :
    ι → PriceLevel :=
  calls.foldl (listedStep h) listed

theorem listedRun_concat (h : Heap Order) (listed : ι → PriceLevel)
    (calls : List (LevelCall ι)) (c : LevelCall ι) :
    listedRun h listed (calls ++ [c]) = listedStep h (listedRun h listed calls) c := by
  simp [listedRun]

/-- What a call may be, by the queues of the levels. -/
def Permits (listed : ι → PriceLevel) : LevelCall ι → Prop
  | .addOrder _ order => ∀ l, order ∉ (listed l).queue
  | .removeOrder level order => order ∈ (listed level).queue

/-- Every level implements the level that lists its orders, and no order is in
two of them. -/
structure Implements (s : LevelState ι) (listed : ι → PriceLevel) : Prop where
  level : ∀ l, (s.levels l).Implements s.heap (listed l)
  apart : ∀ l l', l ≠ l' → ∀ r ∈ (listed l).queue, r ∉ (listed l').queue

variable {s : LevelState ι} {listed : ι → PriceLevel} {c : LevelCall ι}

theorem listedStep_of_ne (h : Heap Order) {l : ι} (hlevel : l ≠ c.level) :
    listedStep h listed c l = listed l :=
  Function.update_of_ne hlevel _ _

/-- A call changes no order but its own in what the queues hold. -/
theorem mem_listedStep_of_ne (h : Heap Order) (l : ι) {r : OrderRef} (hne : r ≠ c.order) :
    r ∈ (listedStep h listed c l).queue ↔ r ∈ (listed l).queue := by
  by_cases hlevel : l = c.level
  · subst hlevel
    rw [listedStep, Function.update_self]
    cases c with
    | addOrder level order =>
        have hne : r ≠ order := hne
        simp [listedCall, PriceLevel.addOrder, hne, LevelCall.level]
    | removeOrder level order => exact List.mem_erase_of_ne hne
  · rw [listedStep_of_ne h hlevel]

theorem orders_step (s : LevelState ι) (c : LevelCall ι) :
    orders (s.step c).heap = orders s.heap := by
  cases c with
  | addOrder level order => exact LinkedPriceLevel.orders_addOrder _ _ _
  | removeOrder level order => exact LinkedPriceLevel.orders_removeOrder _ _ _

namespace Implements

omit [DecidableEq ι] in
/-- A permitted call is about no order of another level. -/
theorem ne_order (himpl : s.Implements listed) (hpermits : Permits listed c) {l : ι}
    (hlevel : l ≠ c.level) {r : OrderRef} (hr : r ∈ (listed l).queue) : r ≠ c.order := by
  intro heq
  subst heq
  cases c with
  | addOrder level order => exact hpermits l hr
  | removeOrder level order => exact himpl.apart l level hlevel order hr hpermits

/-- A call leaves the records of the orders outside its level's queue alone. -/
theorem read_step (himpl : s.Implements listed) (hpermits : Permits listed c) {r : OrderRef}
    (hne : r ≠ c.order) (hr : r ∉ (listed c.level).queue) :
    (s.step c).heap.read r = s.heap.read r := by
  cases c with
  | addOrder level order => exact (himpl.level level).read_addOrder hne hr
  | removeOrder level order => exact (himpl.level level).read_removeOrder hpermits hr

/-- A call leaves the records of the orders of the other levels alone. -/
theorem read_step_of_ne (himpl : s.Implements listed) (hpermits : Permits listed c) {l : ι}
    (hlevel : l ≠ c.level) {r : OrderRef} (hr : r ∈ (listed l).queue) :
    (s.step c).heap.read r = s.heap.read r :=
  himpl.read_step hpermits (himpl.ne_order hpermits hlevel hr) (himpl.apart l c.level hlevel r hr)

/-- A call keeps every level an implementation of the level that lists its orders. -/
theorem step (himpl : s.Implements listed) (hpermits : Permits listed c) :
    (s.step c).Implements (listedStep (orders s.heap) listed c) where
  level := by
    intro l
    by_cases hlevel : l = c.level
    · -- the level of the call
      subst hlevel
      simp only [LevelState.step, listedStep, Function.update_self]
      cases c with
      | addOrder level order => exact (himpl.level level).addOrder (hpermits level)
      | removeOrder level order => exact (himpl.level level).removeOrder hpermits
    · -- another level, whose records are untouched
      rw [listedStep_of_ne _ hlevel]
      simp only [LevelState.step, Function.update_of_ne hlevel]
      apply (himpl.level l).of_frame
      intro r hr
      exact himpl.read_step_of_ne hpermits hlevel hr
  apart := by
    intro l l' hll' r hr hr'
    by_cases heq : r = c.order
    · -- the order of the call is in no queue of another level
      by_cases hlevel : l = c.level
      · have hlevel' : l' ≠ c.level := fun h => hll' (hlevel.trans h.symm)
        rw [listedStep_of_ne _ hlevel'] at hr'
        exact himpl.ne_order hpermits hlevel' hr' heq
      · rw [listedStep_of_ne _ hlevel] at hr
        exact himpl.ne_order hpermits hlevel hr heq
    · rw [mem_listedStep_of_ne _ _ heq] at hr hr'
      exact himpl.apart l l' hll' r hr hr'

end Implements

/-! ### Runs -/

/-- What holds of the levels and their heap after calls. -/
structure RunInv (h : Heap Order) (calls : List (LevelCall ι)) (s : LevelState ι)
    (listed : ι → PriceLevel) : Prop where
  implements : s.Implements listed
  orders_eq : orders s.heap = h
  queue_eq : ∀ l, (listed l).queue = outstanding l calls
  count_eq : ∀ l, (listed l).orderCount = (listed l).queue.length
  unlinked : ∀ l order, .removeOrder l order ∈ calls → (∀ l', order ∉ (listed l').queue) →
    (links s.heap).prev order = none ∧ (links s.heap).next order = none

theorem RunInv.new (prices : ι → Price) (heap : OrderHeap) :
    RunInv (orders heap) [] (LevelState.new prices heap) fun l => { price := prices l } where
  implements :=
    { level := fun l => LinkedPriceLevel.Implements.new (prices l) heap
      apart := fun _ _ _ _ hr => nomatch hr }
  orders_eq := rfl
  queue_eq _ := rfl
  count_eq _ := rfl
  unlinked _ _ hremoved _ := nomatch hremoved

namespace RunInv

variable {h : Heap Order} {calls : List (LevelCall ι)}

theorem permits (hinv : RunInv h calls s listed) (hallowed : Allowed calls c) :
    Permits listed c := by
  cases c with
  | addOrder level order =>
      intro l
      rw [hinv.queue_eq l]
      exact hallowed l
  | removeOrder level order =>
      change order ∈ (listed level).queue
      rw [hinv.queue_eq level]
      exact hallowed

/-- The queues follow the calls: additions append, removals take one order out. -/
theorem queue_step (hinv : RunInv h calls s listed) (l : ι) :
    (listedStep h listed c l).queue = outstanding l (calls ++ [c]) := by
  cases c with
  | addOrder level order =>
      rw [outstanding_concat_addOrder, ← hinv.queue_eq l]
      by_cases hlevel : level = l
      · subst hlevel
        rw [if_pos rfl, listedStep, LevelCall.level, Function.update_self]
        rfl
      · rw [if_neg hlevel, listedStep_of_ne (c := .addOrder level order) h (Ne.symm hlevel)]
  | removeOrder level order =>
      rw [outstanding_concat_removeOrder, ← hinv.queue_eq l]
      by_cases hlevel : level = l
      · subst hlevel
        have herase := (hinv.implements.level level).nodup.erase_eq_filter order
        rw [if_pos rfl, listedStep, LevelCall.level, Function.update_self]
        rw [listedCall, PriceLevel.removeOrder, herase]
      · rw [if_neg hlevel, listedStep_of_ne (c := .removeOrder level order) h (Ne.symm hlevel)]

theorem count_step (hinv : RunInv h calls s listed) (hpermits : Permits listed c) (l : ι) :
    (listedStep h listed c l).orderCount = (listedStep h listed c l).queue.length := by
  by_cases hlevel : l = c.level
  · subst hlevel
    rw [listedStep, Function.update_self]
    cases c with
    | addOrder level order => simp [listedCall, PriceLevel.addOrder, hinv.count_eq level]
    | removeOrder level order =>
        have hpos := List.length_pos_of_mem hpermits
        have hlength := List.length_erase_of_mem hpermits
        simp only [listedCall, PriceLevel.removeOrder, hinv.count_eq, hlength]
        omega
  · rw [listedStep_of_ne h hlevel]
    exact hinv.count_eq l

/-- A removal leaves null links, and no later call on other orders sets them. -/
theorem unlinked_step (hinv : RunInv h calls s listed) (hpermits : Permits listed c) {l : ι}
    {order : OrderRef} (hremoved : .removeOrder l order ∈ calls ++ [c])
    (hout : ∀ l', order ∉ (listedStep h listed c l').queue) :
    (links (s.step c).heap).prev order = none ∧ (links (s.step c).heap).next order = none := by
  by_cases heq : order = c.order
  · subst heq
    cases c with
    | addOrder level order =>
        refine absurd ?_ (hout level)
        simp [listedStep, listedCall, PriceLevel.addOrder, LevelCall.level, LevelCall.order]
    | removeOrder level order => simp [LevelState.step, call, LevelCall.order]
  · have hearlier : .removeOrder l order ∈ calls := by
      rcases List.mem_append.mp hremoved with hearlier | hlast
      · exact hearlier
      · exact absurd (congrArg LevelCall.order (List.mem_singleton.mp hlast)) heq
    have hout' : ∀ l', order ∉ (listed l').queue := fun l' hin =>
      hout l' ((mem_listedStep_of_ne h l' heq).mpr hin)
    have hread := hinv.implements.read_step hpermits heq (hout' c.level)
    simp only [links, hread]
    exact hinv.unlinked l order hearlier hout'

/-- One allowed call keeps what holds of the levels. -/
theorem step (hinv : RunInv h calls s listed) (hallowed : Allowed calls c) :
    RunInv h (calls ++ [c]) (s.step c) (listedStep h listed c) where
  implements := by
    rw [← hinv.orders_eq]
    exact hinv.implements.step (hinv.permits hallowed)
  orders_eq := by rw [orders_step, hinv.orders_eq]
  queue_eq l := hinv.queue_step l
  count_eq l := hinv.count_step (hinv.permits hallowed) l
  unlinked l order hremoved hout := hinv.unlinked_step (hinv.permits hallowed) hremoved hout

end RunInv

/-- What holds of the levels holds after any legal calls. -/
theorem runInv (prices : ι → Price) (heap : OrderHeap) {calls : List (LevelCall ι)}
    (hlegal : Legal calls) :
    RunInv (orders heap) calls ((LevelState.new prices heap).run calls)
      (listedRun (orders heap) (fun l => { price := prices l }) calls) := by
  induction calls using List.reverseRecOn with
  | nil => exact RunInv.new prices heap
  | append_singleton calls c ih =>
      rw [run_concat, listedRun_concat]
      exact (ih (EachAfter.of_append hlegal)).step (EachAfter.last hlegal)

/-- The levels after any legal calls, over any number of levels and any heap.
Each level's links lead from its head through the outstanding orders in order of
addition, and from its tail through them in reverse; an order removed and in no
level has null links; and no call changes the record of another level's order. -/
theorem levels_fifo (prices : ι → Price) (heap : OrderHeap) (calls : List (LevelCall ι))
    (hlegal : Legal calls) :
    let s := (LevelState.new prices heap).run calls
    (∀ l, Leads (links s.heap).next (s.levels l).head (outstanding l calls) ∧
      Leads (links s.heap).prev (s.levels l).tail (outstanding l calls).reverse ∧
      ((s.levels l).head = none ↔ outstanding l calls = []) ∧
      ((s.levels l).tail = none ↔ outstanding l calls = []) ∧
      (s.levels l).orderCount = (outstanding l calls).length) ∧
    (∀ l order, .removeOrder l order ∈ calls → (∀ l', order ∉ outstanding l' calls) →
      (s.heap.read order).prevInLevel = none ∧ (s.heap.read order).nextInLevel = none) ∧
    ∀ earlier c later, calls = earlier ++ c :: later →
      ∀ l, l ≠ c.level → ∀ order ∈ outstanding l earlier,
        ((LevelState.new prices heap).run (earlier ++ [c])).heap.read order =
          ((LevelState.new prices heap).run earlier).heap.read order := by
  intro s
  have hinv := runInv prices heap hlegal
  refine ⟨?_, ?_, ?_⟩
  · intro l
    have himpl := hinv.implements.level l
    rw [← hinv.queue_eq l]
    refine ⟨?_, ?_, ?_, ?_, ?_⟩
    · rw [himpl.head_eq]
      exact himpl.linked.leads_next
    · rw [himpl.tail_eq]
      exact himpl.linked.leads_prev
    · rw [himpl.head_eq, List.head?_eq_none_iff]
    · rw [himpl.tail_eq, List.getLast?_eq_none_iff]
    · rw [himpl.orderCount_eq, hinv.count_eq l]
  · intro l order hremoved hout
    apply hinv.unlinked l order hremoved
    intro l'
    rw [hinv.queue_eq l']
    exact hout l'
  · intro earlier c later hsplit l hlevel order horder
    have hearlier := runInv prices heap (EachAfter.of_append (hsplit ▸ hlegal))
    have hpermits := hearlier.permits (hlegal earlier c later hsplit)
    rw [← hearlier.queue_eq l] at horder
    rw [run_concat]
    exact hearlier.implements.read_step_of_ne hpermits hlevel horder

theorem levels_fifo_two :
    let s := (LevelState.new (fun _ : Bool => default) Heap.empty).run
      [.addOrder false 0, .addOrder false 1, .addOrder true 2, .addOrder false 3,
        .removeOrder false 1]
    Leads (links s.heap).next (s.levels false).head [0, 3] ∧
      Leads (links s.heap).prev (s.levels false).tail [3, 0] ∧
      Leads (links s.heap).next (s.levels true).head [2] ∧
      (s.heap.read 1).nextInLevel = none := by
  obtain ⟨hqueues, hremoved, -⟩ := levels_fifo (fun _ : Bool => default) Heap.empty
    [.addOrder false 0, .addOrder false 1, .addOrder true 2, .addOrder false 3,
      .removeOrder false 1] (by decide)
  exact ⟨(hqueues false).1, (hqueues false).2.1, (hqueues true).1,
    (hremoved false 1 (by decide) (by decide)).2⟩

end LevelState

end SimCme
