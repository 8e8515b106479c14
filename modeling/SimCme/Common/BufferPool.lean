import Mathlib.Data.List.Nodup
import Mathlib.Logic.Function.Basic
import SimCme.Library.Observer

/-!
# The buffer pool

The free buffers hang on a linked list of nodes.  {lit}`acquire` takes the first node off
the list and deletes it; {lit}`release` makes a node and puts it first.  Both change
{lit}`freeList_` by a compare and exchange that may fail for no reason, and try again.  Each
atomic operation is one step, as is each access to a node of the list, and a run is any list
of steps of any number of threads.

The compare and exchange looks at addresses, and a deleted node's address may come back in
the next allocation.  With one thread that acquires this does no harm: the node it has seen
cannot go away, since no other thread takes nodes off the list.  With two of them one thread
may go on with a node that the other one has deleted.

The observer of the pool knows where each buffer is: free, with a caller, or inside a call.

Main results:

- Theorem {lit}`BufferPool.Shows.step`: the observer follows every step.
- Theorem {lit}`buffer_pool_hands_out`: with one thread that acquires, no deleted node is
  touched, no buffer is with two callers, and the pool runs empty only when every buffer is
  out or in a call.
- Theorem {lit}`fault_of_two_acquirers`: with two of them a deleted node is touched.
-/

namespace SimCme

open Library

namespace BufferPool

/-- The address of a node. -/
abbrev NodeId := Nat

/-- The index of a buffer. -/
abbrev BufferId := Nat

structure FreeNode where
  buffer : BufferId
  next : Option NodeId := none
deriving DecidableEq

end BufferPool

/-- A buffer: where it begins in the storage, its room, and how much of it is written. -/
structure PoolBuffer where
  data : Nat
  capacity : Nat
  length : Nat
deriving DecidableEq

def PoolBuffer.reset (buffer : PoolBuffer) : PoolBuffer :=
  { buffer with length := 0 }

namespace BufferPool

/-- Where a thread stands. -/
inductive Thread where
  | idle
  /-- {lit}`popFreeList` has the first node. -/
  | loaded (head : NodeId)
  /-- {lit}`popFreeList` has read the node behind it, for the exchange. -/
  | sawNext (head : NodeId) (next : Option NodeId)
  /-- {lit}`popFreeList` has taken the node off the list. -/
  | popped (node : NodeId)
  /-- {lit}`acquire` has reset the buffer. -/
  | taken (node : NodeId) (buffer : BufferId)
  /-- {lit}`release` has reset the buffer. -/
  | releasing (buffer : BufferId)
  /-- {lit}`release` has made the node. -/
  | allocated (node : NodeId)
  /-- {lit}`pushFreeList` has pointed the node at the list, as it was. -/
  | linked (node : NodeId)
deriving DecidableEq

end BufferPool

/-- The pool, the nodes in memory, the threads that use it, and the buffers the callers
have. -/
structure BufferPool (π : Type) where
  bufferSize : Nat
  buffers : BufferPool.BufferId → PoolBuffer
  memory : BufferPool.NodeId → Option BufferPool.FreeNode
  freeList : Option BufferPool.NodeId
  threads : π → BufferPool.Thread
  held : BufferPool.BufferId → Bool

namespace BufferPool

variable {π : Type}

/-- One step of one thread. -/
inductive Action (π : Type) where
  /-- {lit}`acquire` begins: load {lit}`freeList_`. -/
  | load (t : π)
  /-- Read {lit}`head->next`. -/
  | readNext (t : π)
  /-- Exchange {lit}`freeList_` for the node behind.  A weak exchange may fail. -/
  | exchangeHead (t : π) (fails : Bool)
  /-- Read the buffer of the node and reset it. -/
  | take (t : π)
  /-- Delete the node and return the buffer. -/
  | delete (t : π)
  /-- {lit}`release` begins: reset the buffer. -/
  | release (t : π) (buffer : BufferId)
  /-- Make a node at a free address. -/
  | allocate (t : π) (node : NodeId)
  /-- Load {lit}`freeList_` into the node. -/
  | link (t : π)
  /-- Exchange {lit}`freeList_` for the node. -/
  | exchangeNode (t : π) (fails : Bool)
  /-- A caller writes to a buffer. -/
  | write (buffer : BufferId) (length : Nat)

/-- What a run shows. -/
inductive Output (π : Type) where
  /-- A thread has taken a buffer off the list. -/
  | popped (t : π) (buffer : BufferId)
  /-- {lit}`acquire` returns a buffer, as it then is. -/
  | acquired (t : π) (buffer : BufferId) (is : PoolBuffer)
  /-- {lit}`acquire` returns {lit}`nullptr`. -/
  | exhausted (t : π)
  /-- A thread calls {lit}`release`. -/
  | released (t : π) (buffer : BufferId)
  /-- A thread has put a buffer on the list. -/
  | pushed (t : π) (buffer : BufferId)
  /-- A thread touches a node that is deleted. -/
  | fault
deriving DecidableEq

/-! ## Steps -/

section Steps

/-- Use a node, which must be live. -/
def access (s : BufferPool π) (n : NodeId)
    (f : FreeNode → BufferPool π × List (Output π)) : BufferPool π × List (Output π) :=
  match s.memory n with
  | none => (s, [.fault])
  | some node => f node

theorem access_eq {s : BufferPool π} {n : NodeId} {node : FreeNode} (hnode : s.memory n = some node)
    (f : FreeNode → BufferPool π × List (Output π)) : s.access n f = f node := by
  rw [access, hnode]

variable [DecidableEq π]

/-- Move a thread on. -/
def setThread (s : BufferPool π) (t : π) (at' : Thread) : BufferPool π :=
  { s with threads := Function.update s.threads t at' }

def writeNode (s : BufferPool π) (n : NodeId) (node : FreeNode) : BufferPool π :=
  { s with memory := Function.update s.memory n (some node) }

def writeBuffer (s : BufferPool π) (b : BufferId) (buffer : PoolBuffer) : BufferPool π :=
  { s with buffers := Function.update s.buffers b buffer }

/-- {lit}`while (head)`, with the head of the list as the thread has just seen it. -/
def enterLoop (s : BufferPool π) (t : π) : BufferPool π × List (Output π) :=
  match s.freeList with
  | none => (s.setThread t .idle, [.exhausted t])
  | some head => (s.setThread t (.loaded head), [])

/-- {lit}`acquire` and {lit}`popFreeList`, one operation at a time. -/
def acquireStep (s : BufferPool π) : Action π → BufferPool π × List (Output π)
  | .load t =>
      match s.threads t with
      | .idle => s.enterLoop t
      | _ => (s, [])
  | .readNext t =>
      match s.threads t with
      | .loaded head => s.access head fun node => (s.setThread t (.sawNext head node.next), [])
      | _ => (s, [])
  | .exchangeHead t fails =>
      match s.threads t with
      | .sawNext head next =>
          if s.freeList = some head ∧ fails = false then
            ({ s.setThread t (.popped head) with freeList := next },
              ((s.memory head).map fun node => Output.popped t node.buffer).toList)
          else s.enterLoop t
      | _ => (s, [])
  | .take t =>
      match s.threads t with
      | .popped n =>
          s.access n fun node =>
            ((s.writeBuffer node.buffer (s.buffers node.buffer).reset).setThread t
              (.taken n node.buffer), [])
      | _ => (s, [])
  | .delete t =>
      match s.threads t with
      | .taken n b =>
          s.access n fun _ =>
            ({ s.setThread t .idle with
                memory := Function.update s.memory n none
                held := Function.update s.held b true },
              [.acquired t b (s.buffers b)])
      | _ => (s, [])
  | _ => (s, [])

/-- {lit}`release` and {lit}`pushFreeList`, one operation at a time. -/
def releaseStep (s : BufferPool π) : Action π → BufferPool π × List (Output π)
  | .release t b =>
      match s.threads t with
      | .idle =>
          ({ (s.writeBuffer b (s.buffers b).reset).setThread t (.releasing b) with
              held := Function.update s.held b false },
            [.released t b])
      | _ => (s, [])
  | .allocate t n =>
      match s.threads t, s.memory n with
      | .releasing b, none => ((s.writeNode n { buffer := b }).setThread t (.allocated n), [])
      | _, _ => (s, [])
  | .link t =>
      match s.threads t with
      | .allocated n =>
          s.access n fun node =>
            ((s.writeNode n { node with next := s.freeList }).setThread t (.linked n), [])
      | _ => (s, [])
  | .exchangeNode t fails =>
      match s.threads t with
      | .linked n =>
          s.access n fun node =>
            if s.freeList = node.next ∧ fails = false then
              ({ s.setThread t .idle with freeList := some n }, [.pushed t node.buffer])
            else (s.writeNode n { node with next := s.freeList }, [])
      | _ => (s, [])
  | _ => (s, [])

/-- Every interleaving of the threads. -/
def machine : Machine (BufferPool π) (Action π) (Output π) where
  step s a :=
    match a with
    | .write b length => (s.writeBuffer b { s.buffers b with length := length }, [])
    | .load _ | .readNext _ | .exchangeHead _ _ | .take _ | .delete _ => s.acquireStep a
    | .release _ _ | .allocate _ _ | .link _ | .exchangeNode _ _ => s.releaseStep a

end Steps

/-! ## The constructor -/

/-- One turn of the loop of the constructor.  The nodes take the addresses in order. -/
def addBuffer (s : BufferPool π) (i : Nat) : BufferPool π :=
  { s.writeBuffer i { data := i * s.bufferSize, capacity := s.bufferSize, length := 0 } with
    memory := Function.update s.memory i (some { buffer := i, next := s.freeList })
    freeList := some i }

/-- A pool of {lit}`count` buffers. -/
def init (count bufferSize : Nat) : BufferPool π :=
  (List.range count).foldl addBuffer
    { bufferSize := bufferSize
      buffers := fun _ => { data := 0, capacity := 0, length := 0 }
      memory := fun _ => none
      freeList := none
      threads := fun _ => .idle
      held := fun _ => false }

/-- A thread acquires only if it is the one that may, and callers give back and write only
what they have. -/
def Proper (acquirer : π) (s : BufferPool π) : Action π → Prop
  | .load t => t = acquirer
  | .release _ b => s.held b = true
  | .write b _ => s.held b = true
  | _ => True

instance decidableProper [DecidableEq π] (acquirer : π) (s : BufferPool π) (a : Action π) :
    Decidable (Proper acquirer s a) := by
  cases a <;> unfold Proper <;> infer_instance

/-! ## The observer -/

/-- Where a buffer is. -/
inductive Place (π : Type) where
  | free
  | acquiring (t : π)
  | out
  | releasing (t : π)
deriving DecidableEq

/-- The free buffers, first one first, the place of every buffer of the pool, and the buffer
each thread has in a call. -/
structure View (π : Type) where
  free : List BufferId
  place : BufferId → Option (Place π)
  job : π → Option BufferId

def View.start (count : Nat) : View π where
  free := (List.range count).reverse
  place b := if b < count then some .free else none
  job _ := none

/-- The buffer as the constructor makes it. -/
def pristine (bufferSize : Nat) (b : BufferId) : PoolBuffer where
  data := b * bufferSize
  capacity := bufferSize
  length := 0

/-- The output fits the picture. -/
def View.Expects (bufferSize : Nat) (view : View π) : Output π → Prop
  | .popped t b => view.free.head? = some b ∧ view.job t = none
  | .acquired t b is => view.place b = some (.acquiring t) ∧ is = pristine bufferSize b
  | .exhausted _ => view.free = []
  | .released t b => view.place b = some .out ∧ view.job t = none
  | .pushed t b => view.place b = some (.releasing t)
  | .fault => False

section View

variable [DecidableEq π]

/-- Move a buffer to a place, and give a thread a buffer or none. -/
def View.move (view : View π) (b : BufferId) (place : Place π) (t : π)
    (job : Option BufferId) : View π :=
  { view with
    place := Function.update view.place b (some place)
    job := Function.update view.job t job }

/-- The picture after an output. -/
def View.see (view : View π) : Output π → View π
  | .popped t b => { view.move b (.acquiring t) t (some b) with free := view.free.tail }
  | .acquired t b _ => view.move b .out t none
  | .released t b => view.move b (.releasing t) t (some b)
  | .pushed t b => { view.move b .free t none with free := b :: view.free }
  | .exhausted _ => view
  | .fault => view

/-- An observer of a pool. -/
def observer (bufferSize : Nat) : Observer (View π) (Output π) where
  Expects := View.Expects bufferSize
  see := View.see

/-- The list holds the free buffers, each once, and a thread has one buffer in a call at
most. -/
structure View.Apart (view : View π) : Prop where
  nodup : view.free.Nodup
  mem_free : ∀ b, b ∈ view.free ↔ view.place b = some .free
  busy : ∀ b t, view.place b = some (.acquiring t) ∨ view.place b = some (.releasing t) →
    view.job t = some b

variable {view : View π} {bufferSize : Nat}

theorem View.place_move (view : View π) (b : BufferId) (place : Place π) (t : π)
    (job : Option BufferId) (c : BufferId) :
    (view.move b place t job).place c = if c = b then some place else view.place c :=
  Function.update_apply _ _ _ _

theorem View.job_move (view : View π) (b : BufferId) (place : Place π) (t : π)
    (job : Option BufferId) (u : π) :
    (view.move b place t job).job u = if u = t then job else view.job u :=
  Function.update_apply _ _ _ _

/-- A thread that has no other buffer gets one, or gives its own away. -/
theorem View.Apart.busy_move (hview : view.Apart) {b : BufferId} {t : π} {place : Place π}
    {job : Option BufferId} (hjob : view.job t = none ∨ view.job t = some b)
    (hplace : ∀ u, place = .acquiring u ∨ place = .releasing u → u = t ∧ job = some b)
    (c : BufferId) (u : π)
    (hc : (view.move b place t job).place c = some (.acquiring u) ∨
      (view.move b place t job).place c = some (.releasing u)) :
    (view.move b place t job).job u = some c := by
  rw [View.place_move] at hc
  rw [View.job_move]
  by_cases hsame : c = b
  · simp only [hsame, if_true, Option.some.injEq] at hc
    rcases hplace u hc with ⟨hu, hown⟩
    rw [if_pos hu, hown, hsame]
  · rw [if_neg hsame] at hc
    have hbusy := hview.busy c u hc
    have hother : u ≠ t := by
      intro hu
      rw [hu] at hbusy
      rcases hjob with hjob | hjob
      · rw [hjob] at hbusy
        contradiction
      · rw [hjob, Option.some.injEq] at hbusy
        exact hsame hbusy.symm
    rw [if_neg hother]
    exact hbusy

/-- A buffer that is not free moves elsewhere. -/
theorem View.Apart.move (hview : view.Apart) {b : BufferId} {t : π} {place : Place π}
    {job : Option BufferId} (hb : b ∉ view.free) (hfree : place ≠ .free)
    (hjob : view.job t = none ∨ view.job t = some b)
    (hplace : ∀ u, place = .acquiring u ∨ place = .releasing u → u = t ∧ job = some b) :
    (view.move b place t job).Apart where
  nodup := hview.nodup
  mem_free := by
    intro c
    rw [View.place_move]
    by_cases hc : c = b
    · subst hc
      rw [if_pos rfl, Option.some.injEq]
      exact iff_of_false hb hfree
    · rw [if_neg hc]
      exact hview.mem_free c
  busy := hview.busy_move hjob hplace

/-- Every output that fits keeps the picture right. -/
theorem View.Apart.see (hview : view.Apart) {o : Output π} (ho : view.Expects bufferSize o) :
    (view.see o).Apart := by
  cases o with
  | popped t b =>
      obtain ⟨rest, hfree⟩ := List.head?_eq_some_iff.mp ho.1
      have hnodup := hview.nodup
      rw [hfree, List.nodup_cons] at hnodup
      simp only [View.see, hfree, List.tail_cons]
      refine ⟨hnodup.2, ?_, hview.busy_move (Or.inl ho.2) (by simp)⟩
      intro c
      have hmem := hview.mem_free c
      rw [hfree, List.mem_cons] at hmem
      change c ∈ rest ↔ (view.move b (.acquiring t) t (some b)).place c = some .free
      rw [View.place_move]
      by_cases hc : c = b
      · subst hc
        rw [if_pos rfl]
        exact iff_of_false hnodup.1 (by simp)
      · rw [if_neg hc, ← hmem]
        exact (or_iff_right hc).symm
  | acquired t b is =>
      refine hview.move ?_ (by simp) (Or.inr (hview.busy b t (Or.inl ho.1))) (by simp)
      rw [hview.mem_free, ho.1]
      simp
  | exhausted t => exact hview
  | released t b =>
      refine hview.move ?_ (by simp) (Or.inl ho.2) (by simp)
      rw [hview.mem_free, ho.1]
      simp
  | pushed t b =>
      have hplace : view.place b = some (.releasing t) := ho
      have hb : b ∉ view.free := by
        rw [hview.mem_free, hplace]
        simp
      refine ⟨List.nodup_cons.mpr ⟨hb, hview.nodup⟩, ?_,
        hview.busy_move (Or.inr (hview.busy b t (Or.inr hplace))) (by simp)⟩
      intro c
      change c ∈ b :: view.free ↔ (view.move b .free t none).place c = some .free
      rw [View.place_move, List.mem_cons]
      by_cases hc : c = b
      · simp [hc]
      · rw [if_neg hc, or_iff_right hc]
        exact hview.mem_free c
  | fault => exact ho.elim

end View

/-! ## What the pool shows -/

/-- The list behind a pointer holds these buffers. -/
def Chain (memory : NodeId → Option FreeNode) : Option NodeId → List BufferId → Prop
  | head, [] => head = none
  | head, b :: rest => ∃ n next, head = some n ∧
      memory n = some { buffer := b, next := next } ∧ Chain memory next rest

/-- A node of a buffer is live. -/
def Holds (s : BufferPool π) (n : NodeId) (b : BufferId) : Prop :=
  ∃ next, s.memory n = some { buffer := b, next := next }

/-- What the observer knows of a thread, by where it stands. -/
def Stands (acquirer : π) (s : BufferPool π) (view : View π) (t : π) : Thread → Prop
  | .idle => view.job t = none
  | .loaded head => t = acquirer ∧ view.job t = none ∧ ∃ b ∈ view.free, s.Holds head b
  | .sawNext head next => t = acquirer ∧ view.job t = none ∧
      ∃ b ∈ view.free, s.memory head = some { buffer := b, next := next }
  | .popped n => ∃ b, s.Holds n b ∧ view.place b = some (.acquiring t)
  | .taken n b => s.Holds n b ∧ view.place b = some (.acquiring t) ∧ (s.buffers b).length = 0
  | .releasing b => view.place b = some (.releasing t)
  | .allocated n => ∃ b, s.Holds n b ∧ view.place b = some (.releasing t)
  | .linked n => ∃ b, s.Holds n b ∧ view.place b = some (.releasing t)

/-- The picture fits the pool. -/
structure Shows (acquirer : π) (bufferSize : Nat) (s : BufferPool π) (view : View π) :
    Prop where
  apart : view.Apart
  chain : Chain s.memory s.freeList view.free
  stands : ∀ t, Stands acquirer s view t (s.threads t)
  out : ∀ b, view.place b = some .out ↔ s.held b = true
  data : ∀ b, (view.place b).isSome = true →
    (s.buffers b).data = b * bufferSize ∧ (s.buffers b).capacity = bufferSize

/-- The list depends on the nodes of its own buffers. -/
theorem Chain.frame {memory memory' : NodeId → Option FreeNode} {head : Option NodeId}
    {bs : List BufferId} (hchain : Chain memory head bs)
    (hkeep : ∀ n node, memory n = some node → node.buffer ∈ bs → memory' n = some node) :
    Chain memory' head bs := by
  induction bs generalizing head with
  | nil => exact hchain
  | cons b rest ih =>
      rcases hchain with ⟨n, next, hhead, hnode, hrest⟩
      refine ⟨n, next, hhead, hkeep n _ hnode List.mem_cons_self, ih hrest ?_⟩
      intro m node hm hmem
      exact hkeep m node hm (List.mem_cons_of_mem b hmem)

/-- The buffers a thread may work on inside a call. -/
def Own (acquirer : π) (view : View π) (t : π) (b : BufferId) : Prop :=
  view.place b = some (.acquiring t) ∨ view.place b = some (.releasing t) ∨
    (view.place b = some .free ∧ t = acquirer)

variable {bufferSize : Nat} {acquirer t u : π} {s s' : BufferPool π} {view view' : View π}
  {b c : BufferId}

/-- Two threads work on different buffers. -/
theorem Own.ne (hc : Own acquirer view u c) (hb : Own acquirer view t b) (hother : u ≠ t) :
    c ≠ b := by
  intro hsame
  subst hsame
  rcases hc with hc | hc | ⟨hc, hu⟩
  · simp [Own, hc, hother] at hb
  · simp [Own, hc, hother] at hb
  · simp only [Own, hc, Option.some.injEq, reduceCtorEq, true_and, false_or] at hb
    exact hother (hu.trans hb.symm)

/-- No thread works on a buffer that a caller has. -/
theorem Own.ne_of_out (hc : Own acquirer view u c) (hb : view.place b = some .out) : c ≠ b := by
  intro hsame
  subst hsame
  simp [Own, hb] at hc

/-- A step that works on one buffer leaves the other buffers and their nodes alone. -/
structure Spares (s s' : BufferPool π) (view view' : View π) (b : BufferId) : Prop where
  memory : ∀ n node, s.memory n = some node → node.buffer ≠ b → s'.memory n = some node
  buffers : ∀ c, c ≠ b → s'.buffers c = s.buffers c
  place : ∀ c, c ≠ b → view'.place c = view.place c
  free : ∀ c, c ≠ b → c ∈ view.free → c ∈ view'.free

theorem Spares.holds (hspares : Spares s s' view view' b) {n : NodeId} (hc : c ≠ b)
    (hholds : s.Holds n c) : s'.Holds n c := by
  rcases hholds with ⟨next, hnode⟩
  exact ⟨next, hspares.memory n _ hnode hc⟩

/-- A thread that does not work on the buffer stands where it stood. -/
theorem Spares.stands (hspares : Spares s s' view view' b) (hview : view.Apart)
    (hother : ∀ c, Own acquirer view u c → c ≠ b) (hjob : view'.job u = view.job u)
    {at' : Thread}
    (hstands : Stands acquirer s view u at') : Stands acquirer s' view' u at' := by
  cases at' with
  | idle => exact hjob.trans hstands
  | loaded head =>
      rcases hstands with ⟨hu, hnone, c, hfree, hholds⟩
      have hc := hother c (Or.inr (Or.inr ⟨(hview.mem_free c).mp hfree, hu⟩))
      exact ⟨hu, hjob.trans hnone, c, hspares.free c hc hfree, hspares.holds hc hholds⟩
  | sawNext head next =>
      rcases hstands with ⟨hu, hnone, c, hfree, hnode⟩
      have hc := hother c (Or.inr (Or.inr ⟨(hview.mem_free c).mp hfree, hu⟩))
      exact ⟨hu, hjob.trans hnone, c, hspares.free c hc hfree,
        hspares.memory head _ hnode hc⟩
  | popped n =>
      rcases hstands with ⟨c, hholds, hplace⟩
      have hc := hother c (Or.inl hplace)
      exact ⟨c, hspares.holds hc hholds, (hspares.place c hc).trans hplace⟩
  | taken n c =>
      rcases hstands with ⟨hholds, hplace, hlength⟩
      have hc := hother c (Or.inl hplace)
      refine ⟨hspares.holds hc hholds, (hspares.place c hc).trans hplace, ?_⟩
      rw [hspares.buffers c hc]
      exact hlength
  | releasing c =>
      have hc := hother c (Or.inr (Or.inl hstands))
      exact (hspares.place c hc).trans hstands
  | allocated n =>
      rcases hstands with ⟨c, hholds, hplace⟩
      have hc := hother c (Or.inr (Or.inl hplace))
      exact ⟨c, hspares.holds hc hholds, (hspares.place c hc).trans hplace⟩
  | linked n =>
      rcases hstands with ⟨c, hholds, hplace⟩
      have hc := hother c (Or.inr (Or.inl hplace))
      exact ⟨c, hspares.holds hc hholds, (hspares.place c hc).trans hplace⟩

theorem Shows.not_held (hshows : Shows acquirer bufferSize s view)
    (hplace : view.place b ≠ some .out) : ¬s.held b = true :=
  (hshows.out b).not.mp hplace

/-- Without a call in progress a buffer is free or out. -/
theorem Shows.place_of_idle (hshows : Shows acquirer bufferSize s view)
    (hidle : ∀ t, s.threads t = .idle) (b : BufferId) :
    view.place b = some .free ↔ (view.place b).isSome = true ∧ view.place b ≠ some .out := by
  have hjob : ∀ t, view.job t = none := by
    intro t
    have hstands := hshows.stands t
    rw [hidle t] at hstands
    exact hstands
  have hbusy := hshows.apart.busy b
  cases hplace : view.place b with
  | none => simp
  | some place =>
      cases place with
      | free => simp
      | out => simp
      | acquiring t =>
          have hown := hbusy t (Or.inl hplace)
          rw [hjob t] at hown
          contradiction
      | releasing t =>
          have hown := hbusy t (Or.inr hplace)
          rw [hjob t] at hown
          contradiction

/-- The picture fits again when a thread has worked on one buffer of its own. -/
theorem Shows.of_spares (hshows : Shows acquirer bufferSize s view)
    (hspares : Spares s s' view view' b)
    (hother : ∀ u, u ≠ t → ∀ c, Own acquirer view u c → c ≠ b)
    (hjobs : ∀ u, u ≠ t → view'.job u = view.job u)
    (hthreads : ∀ u, u ≠ t → s'.threads u = s.threads u)
    (hstands : Stands acquirer s' view' t (s'.threads t)) (hapart : view'.Apart)
    (hchain : Chain s'.memory s'.freeList view'.free)
    (hout : view'.place b = some .out ↔ s'.held b = true)
    (hheld : ∀ c, c ≠ b → s'.held c = s.held c) (hplaced : (view.place b).isSome = true)
    (hdata : (s'.buffers b).data = (s.buffers b).data)
    (hcapacity : (s'.buffers b).capacity = (s.buffers b).capacity) :
    Shows acquirer bufferSize s' view' where
  apart := hapart
  chain := hchain
  stands := by
    intro u
    by_cases hu : u = t
    · rw [hu]
      exact hstands
    · rw [hthreads u hu]
      exact hspares.stands hshows.apart (hother u hu) (hjobs u hu) (hshows.stands u)
  out := by
    intro c
    by_cases hc : c = b
    · rw [hc]
      exact hout
    · rw [hspares.place c hc, hheld c hc]
      exact hshows.out c
  data := by
    intro c hplace
    by_cases hc : c = b
    · rw [hc, hdata, hcapacity]
      exact hshows.data b hplaced
    · rw [hspares.place c hc] at hplace
      rw [hspares.buffers c hc]
      exact hshows.data c hplace

/-- A node that is not of a free buffer may be written or deleted. -/
theorem Shows.chain_update (hshows : Shows acquirer bufferSize s view) {n : NodeId}
    (hn : ∀ node, s.memory n = some node → node.buffer ∉ view.free)
    (changed : Option FreeNode) :
    Chain (Function.update s.memory n changed) s.freeList view.free := by
  refine hshows.chain.frame fun m node hm hmem => ?_
  have hne : m ≠ n := by
    intro hsame
    subst hsame
    exact hn node hm hmem
  rw [Function.update_of_ne hne]
  exact hm

/-- Writing or deleting the node of a buffer leaves the nodes of the others alone. -/
theorem memory_update {n : NodeId}
    (hn : ∀ node, s.memory n = some node → node.buffer = b) (changed : Option FreeNode)
    {m : NodeId} {node : FreeNode} (hm : s.memory m = some node) (hne : node.buffer ≠ b) :
    Function.update s.memory n changed m = some node := by
  have hother : m ≠ n := by
    intro hsame
    subst hsame
    exact hne (hn node hm)
  rw [Function.update_of_ne hother]
  exact hm

/-! ## One step -/

/-- A caller writes to a buffer it has. -/
theorem Shows.write (hshows : Shows acquirer bufferSize s view) {b : BufferId}
    (hheld : s.held b = true) (length : Nat) :
    Shows acquirer bufferSize (s.writeBuffer b { s.buffers b with length := length }) view := by
  have hplace : view.place b = some .out := (hshows.out b).mpr hheld
  have hwritten : (s.writeBuffer b { s.buffers b with length := length }).buffers b =
      { s.buffers b with length := length } := Function.update_self _ _ _
  have hspares : Spares s (s.writeBuffer b { s.buffers b with length := length }) view view b :=
    ⟨fun n node hn _ => hn, fun c hc => Function.update_of_ne hc _ _, fun _ _ => rfl,
      fun _ _ hmem => hmem⟩
  have hother : ∀ u c, Own acquirer view u c → c ≠ b := fun _ _ hc => hc.ne_of_out hplace
  exact hshows.of_spares (t := acquirer) hspares (fun u _ => hother u) (fun _ _ => rfl)
    (fun _ _ => rfl)
    (hspares.stands hshows.apart (hother acquirer) rfl (hshows.stands acquirer)) hshows.apart
    hshows.chain (hshows.out b) (fun _ _ => rfl) (by simp [hplace])
    ((congrArg PoolBuffer.data hwritten).trans rfl)
    ((congrArg PoolBuffer.capacity hwritten).trans rfl)

section OneStep

variable [DecidableEq π]

/-- A step is followed, and the picture fits again. -/
def Tracked (acquirer : π) (bufferSize : Nat) (view : View π)
    (out : BufferPool π × List (Output π)) : Prop :=
  ∃ view', (observer bufferSize).Follows view out.2 view' ∧
    Shows acquirer bufferSize out.1 view'

theorem Shows.tracked (hshows : Shows acquirer bufferSize s view) :
    Tracked acquirer bufferSize view (s, []) :=
  ⟨view, Observer.follows_nil view, hshows⟩

/-- A thread moves on and nothing else happens. -/
theorem Shows.setThread (hshows : Shows acquirer bufferSize s view) {at' : Thread}
    (hstands : Stands acquirer s view t at') :
    Shows acquirer bufferSize (s.setThread t at') view where
  apart := hshows.apart
  chain := hshows.chain
  stands := by
    intro u
    simp only [BufferPool.setThread, Function.update_apply]
    split
    · rename_i hu
      rw [hu]
      exact hstands
    · exact hshows.stands u
  out := hshows.out
  data := hshows.data

/-- The loop ends with an empty list, and goes on with its first node. -/
theorem Shows.enterLoop (hshows : Shows acquirer bufferSize s view)
    (hjob : view.job acquirer = none) :
    Tracked acquirer bufferSize view (s.enterLoop acquirer) := by
  have hchain := hshows.chain
  unfold BufferPool.enterLoop
  cases hfree : view.free with
  | nil =>
      rw [hfree] at hchain
      rw [show s.freeList = none from hchain]
      exact ⟨view, Observer.follows_singleton hfree, hshows.setThread hjob⟩
  | cons b rest =>
      rw [hfree] at hchain
      rcases hchain with ⟨n, next, hhead, hnode, -⟩
      have hmem : b ∈ view.free := by simp [hfree]
      rw [hhead]
      exact Shows.tracked (hshows.setThread ⟨rfl, hjob, b, hmem, next, hnode⟩)

/-- The other threads stay where they are. -/
theorem threads_setThread_of_ne (s : BufferPool π) {at' : Thread} (hu : u ≠ t) :
    (s.setThread t at').threads u = s.threads u :=
  Function.update_of_ne hu _ _

theorem threads_setThread_self (s : BufferPool π) (t : π) (at' : Thread) :
    (s.setThread t at').threads t = at' :=
  Function.update_self _ _ _

theorem setThread_eq_self {at' : Thread} (hthread : s.threads t = at') :
    s.setThread t at' = s := by
  rw [setThread, ← hthread, Function.update_eq_self]

/-- The acquirer reads the node behind the first one, which is live. -/
theorem Shows.readNext (hshows : Shows acquirer bufferSize s view) {t : π} {head : NodeId}
    (hthread : s.threads t = .loaded head) :
    Tracked acquirer bufferSize view
      (s.access head fun node => (s.setThread t (.sawNext head node.next), [])) := by
  have hstands := hshows.stands t
  rw [hthread] at hstands
  rcases hstands with ⟨ht, hjob, b, hfree, next, hnode⟩
  rw [access_eq hnode]
  exact Shows.tracked (hshows.setThread ⟨ht, hjob, b, hfree, hnode⟩)

/-- The first node is still the one the acquirer has seen, and so is the node behind it. -/
theorem Shows.exchangeHead (hshows : Shows acquirer bufferSize s view) {t : π} {head : NodeId}
    {next : Option NodeId} (hthread : s.threads t = .sawNext head next)
    (hhead : s.freeList = some head) :
    Tracked acquirer bufferSize view
      ({ s.setThread t (.popped head) with freeList := next },
        ((s.memory head).map fun node => Output.popped t node.buffer).toList) := by
  have hstands := hshows.stands t
  rw [hthread] at hstands
  rcases hstands with ⟨ht, hjob, b, hmem, hnode⟩
  have hchain := hshows.chain
  cases hfree : view.free with
  | nil => simp [hfree] at hmem
  | cons first rest =>
      rw [hfree, hhead] at hchain
      rcases hchain with ⟨n, next', hn, hnode', hrest⟩
      rcases Option.some.inj hn with rfl
      rw [hnode, Option.some.injEq, FreeNode.mk.injEq] at hnode'
      rcases hnode' with ⟨rfl, rfl⟩
      have hexpects : view.Expects bufferSize (.popped t b) := by
        rw [View.Expects, hfree]
        exact ⟨rfl, hjob⟩
      have hfirst : view.place b = some .free := (hshows.apart.mem_free b).mp hmem
      have hown : Own acquirer view t b := Or.inr (Or.inr ⟨hfirst, ht⟩)
      rw [hnode]
      refine ⟨view.see (.popped t b), Observer.follows_singleton hexpects, ?_⟩
      have htail : (view.see (.popped t b)).free = rest := by simp [View.see, hfree]
      have hplace : ∀ c, (view.see (.popped t b)).place c =
          if c = b then some (.acquiring t) else view.place c :=
        view.place_move b _ t (some b)
      refine hshows.of_spares (t := t) (b := b) ?_ (fun u hu c hc => hc.ne hown hu)
        (fun u hu => Function.update_of_ne hu _ _) (fun u hu => threads_setThread_of_ne s hu) ?_ (hshows.apart.see hexpects) ?_ ?_
        (fun _ _ => rfl) (by simp [hfirst]) rfl rfl
      · refine ⟨fun n node hn _ => hn, fun _ _ => rfl, fun c hc => ?_, fun c hc hmem => ?_⟩
        · rw [hplace, if_neg hc]
        · rw [htail]
          rw [hfree, List.mem_cons] at hmem
          exact hmem.resolve_left hc
      · rw [threads_setThread_self]
        refine ⟨b, ⟨next, hnode⟩, ?_⟩
        rw [hplace, if_pos rfl]
      · rw [htail]
        exact hrest
      · rw [hplace, if_pos rfl]
        exact iff_of_false (by simp) (hshows.not_held (by simp [hfirst]))

/-- The acquirer resets the buffer it has taken. -/
theorem Shows.take (hshows : Shows acquirer bufferSize s view) {t : π} {n : NodeId}
    (hthread : s.threads t = .popped n) :
    Tracked acquirer bufferSize view
      (s.access n fun node =>
        ((s.writeBuffer node.buffer (s.buffers node.buffer).reset).setThread t
          (.taken n node.buffer), [])) := by
  have hstands := hshows.stands t
  rw [hthread] at hstands
  rcases hstands with ⟨b, ⟨next, hnode⟩, hplace⟩
  have hown : Own acquirer view t b := Or.inl hplace
  have hwritten : (s.writeBuffer b (s.buffers b).reset).buffers b = (s.buffers b).reset :=
    Function.update_self _ _ _
  rw [access_eq hnode]
  refine Shows.tracked (hshows.of_spares (t := t) (b := b) ?_ (fun u hu c hc => hc.ne hown hu)
    (fun _ _ => rfl) (fun u hu => threads_setThread_of_ne _ hu) ?_ hshows.apart hshows.chain (hshows.out b)
    (fun _ _ => rfl) (by simp [hplace]) ?_ ?_)
  · exact ⟨fun n node hn _ => hn, fun c hc => Function.update_of_ne hc _ _, fun _ _ => rfl,
      fun _ _ hmem => hmem⟩
  · rw [threads_setThread_self]
    refine ⟨⟨next, hnode⟩, hplace, ?_⟩
    exact congrArg PoolBuffer.length hwritten
  · exact (congrArg PoolBuffer.data hwritten).trans rfl
  · exact (congrArg PoolBuffer.capacity hwritten).trans rfl

/-- The acquirer deletes its node and returns the buffer. -/
theorem Shows.delete (hshows : Shows acquirer bufferSize s view) {t : π} {n : NodeId}
    {b : BufferId} (hthread : s.threads t = .taken n b) :
    Tracked acquirer bufferSize view
      (s.access n fun _ =>
        ({ s.setThread t .idle with
            memory := Function.update s.memory n none
            held := Function.update s.held b true },
          [.acquired t b (s.buffers b)])) := by
  have hstands := hshows.stands t
  rw [hthread] at hstands
  rcases hstands with ⟨⟨next, hnode⟩, hplace, hlength⟩
  have hown : Own acquirer view t b := Or.inl hplace
  have hnode_buffer : ∀ node, s.memory n = some node → node.buffer = b := by
    intro node hnode'
    rw [hnode, Option.some.injEq] at hnode'
    rw [← hnode']
  have hnot_free : b ∉ view.free := by
    rw [hshows.apart.mem_free, hplace]
    simp
  have hpristine : s.buffers b = pristine bufferSize b := by
    rcases hshows.data b (by simp [hplace]) with ⟨hdata, hcapacity⟩
    rw [PoolBuffer.mk.injEq]
    exact ⟨hdata, hcapacity, hlength⟩
  have hexpects : view.Expects bufferSize (.acquired t b (s.buffers b)) := ⟨hplace, hpristine⟩
  rw [access_eq hnode]
  refine ⟨view.move b .out t none, Observer.follows_singleton hexpects, ?_⟩
  refine hshows.of_spares (t := t) (b := b) ?_ (fun u hu c hc => hc.ne hown hu)
    (fun u hu => Function.update_of_ne hu _ _) (fun u hu => threads_setThread_of_ne s hu) ?_ (hshows.apart.see hexpects) ?_ ?_ ?_
    (by simp [hplace]) rfl rfl
  · refine ⟨fun m node hm hne => memory_update hnode_buffer none hm hne, fun _ _ => rfl,
      fun c hc => ?_, fun _ _ hmem => hmem⟩
    rw [View.place_move, if_neg hc]
  · rw [threads_setThread_self]
    exact Function.update_self _ _ _
  · refine hshows.chain_update (fun node hnode' => ?_) none
    rw [hnode_buffer node hnode']
    exact hnot_free
  · rw [View.place_move, if_pos rfl]
    exact iff_of_true rfl (Function.update_self _ _ _)
  · exact fun c hc => Function.update_of_ne hc _ _

/-- A caller gives a buffer back, and it is reset. -/
theorem Shows.release (hshows : Shows acquirer bufferSize s view) {t : π}
    (hthread : s.threads t = .idle) {b : BufferId} (hheld : s.held b = true) :
    Tracked acquirer bufferSize view
      ({ (s.writeBuffer b (s.buffers b).reset).setThread t (.releasing b) with
          held := Function.update s.held b false },
        [.released t b]) := by
  have hplace : view.place b = some .out := (hshows.out b).mpr hheld
  have hwritten : (s.writeBuffer b (s.buffers b).reset).buffers b = (s.buffers b).reset :=
    Function.update_self _ _ _
  have hjob := hshows.stands t
  rw [hthread] at hjob
  have hexpects : view.Expects bufferSize (.released t b) := ⟨hplace, hjob⟩
  refine ⟨view.move b (.releasing t) t (some b), Observer.follows_singleton hexpects, ?_⟩
  refine hshows.of_spares (t := t) (b := b) ?_ (fun u _ c hc => hc.ne_of_out hplace)
    (fun u hu => Function.update_of_ne hu _ _) (fun u hu => threads_setThread_of_ne _ hu) ?_
    (hshows.apart.see hexpects) hshows.chain ?_ ?_
    (by simp [hplace]) ((congrArg PoolBuffer.data hwritten).trans rfl)
    ((congrArg PoolBuffer.capacity hwritten).trans rfl)
  · refine ⟨fun n node hn _ => hn, fun c hc => Function.update_of_ne hc _ _, fun c hc => ?_,
      fun _ _ hmem => hmem⟩
    rw [View.place_move, if_neg hc]
  · rw [threads_setThread_self]
    exact Function.update_self _ _ _
  · rw [View.place_move, if_pos rfl]
    exact iff_of_false (by simp) (by simp)
  · exact fun c hc => Function.update_of_ne hc _ _

/-- A new node takes an address where no node lives. -/
theorem Shows.allocate (hshows : Shows acquirer bufferSize s view) {t : π} {n : NodeId}
    {b : BufferId} (hthread : s.threads t = .releasing b) (hnode : s.memory n = none) :
    Tracked acquirer bufferSize view
      ((s.writeNode n { buffer := b }).setThread t (.allocated n), []) := by
  have hplace := hshows.stands t
  rw [hthread] at hplace
  have hown : Own acquirer view t b := Or.inr (Or.inl hplace)
  have hlive : ∀ {α : Prop} node, s.memory n = some node → α := by
    intro α node hnode'
    rw [hnode] at hnode'
    contradiction
  refine Shows.tracked (hshows.of_spares (t := t) (b := b) ?_ (fun u hu c hc => hc.ne hown hu)
    (fun _ _ => rfl) (fun u hu => threads_setThread_of_ne _ hu) ?_ hshows.apart
    (hshows.chain_update (fun node => hlive node) _) (hshows.out b) (fun _ _ => rfl)
    (by simp [show view.place b = some (.releasing t) from hplace]) rfl rfl)
  · exact ⟨fun m node hm hne => memory_update (fun node => hlive node) _ hm hne, fun _ _ => rfl,
      fun _ _ => rfl, fun _ _ hmem => hmem⟩
  · rw [threads_setThread_self]
    exact ⟨b, ⟨none, Function.update_self _ _ _⟩, hplace⟩

/-- The node of a buffer that is given back is pointed at the list as it is. -/
theorem Shows.link (hshows : Shows acquirer bufferSize s view) {t : π} {n : NodeId}
    {node : FreeNode} (hnode : s.memory n = some node)
    (hplace : view.place node.buffer = some (.releasing t)) :
    Shows acquirer bufferSize
      ((s.writeNode n { node with next := s.freeList }).setThread t (.linked n)) view := by
  have hown : Own acquirer view t node.buffer := Or.inr (Or.inl hplace)
  have hbuffer : ∀ node', s.memory n = some node' → node'.buffer = node.buffer := by
    intro node' hnode'
    rw [hnode, Option.some.injEq] at hnode'
    rw [hnode']
  have hnot_free : node.buffer ∉ view.free := by
    rw [hshows.apart.mem_free, hplace]
    simp
  refine hshows.of_spares (t := t) (b := node.buffer) ?_ (fun u hu c hc => hc.ne hown hu)
    (fun _ _ => rfl) (fun u hu => threads_setThread_of_ne _ hu) ?_ hshows.apart
    (hshows.chain_update (fun node' hnode' => ?_) _) (hshows.out _) (fun _ _ => rfl)
    (by simp [hplace]) rfl rfl
  · exact ⟨fun m node' hm hne => memory_update hbuffer _ hm hne, fun _ _ => rfl, fun _ _ => rfl,
      fun _ _ hmem => hmem⟩
  · rw [threads_setThread_self]
    exact ⟨node.buffer, ⟨s.freeList, Function.update_self _ _ _⟩, hplace⟩
  · rw [hbuffer node' hnode']
    exact hnot_free

/-- An exchange that finds the list as the node has it puts the node first. -/
theorem Shows.exchangeNode (hshows : Shows acquirer bufferSize s view) {t : π} {n : NodeId}
    {node : FreeNode} (hnode : s.memory n = some node)
    (hplace : view.place node.buffer = some (.releasing t)) (hnext : s.freeList = node.next) :
    Tracked acquirer bufferSize view
      ({ s.setThread t .idle with freeList := some n }, [.pushed t node.buffer]) := by
  have hown : Own acquirer view t node.buffer := Or.inr (Or.inl hplace)
  have hexpects : view.Expects bufferSize (.pushed t node.buffer) := hplace
  refine ⟨view.see (.pushed t node.buffer), Observer.follows_singleton hexpects, ?_⟩
  refine hshows.of_spares (t := t) (b := node.buffer) ?_ (fun u hu c hc => hc.ne hown hu)
    (fun u hu => Function.update_of_ne hu _ _) (fun u hu => threads_setThread_of_ne s hu) ?_ (hshows.apart.see hexpects)
    ⟨n, node.next, rfl, hnode, ?_⟩ ?_ (fun _ _ => rfl) (by simp [hplace]) rfl rfl
  · refine ⟨fun m node' hm _ => hm, fun _ _ => rfl, fun c hc => ?_,
      fun c _ hmem => List.mem_cons_of_mem _ hmem⟩
    exact Function.update_of_ne hc _ _
  · rw [threads_setThread_self]
    exact Function.update_self _ _ _
  · rw [← hnext]
    exact hshows.chain
  · have hfree : (view.see (.pushed t node.buffer)).place node.buffer = some .free :=
      Function.update_self _ _ _
    rw [hfree]
    exact iff_of_false (by simp) (hshows.not_held (by simp [hplace]))

/-- The observer follows every step. -/
theorem Shows.step (hshows : Shows acquirer bufferSize s view) {a : Action π}
    (ha : Proper acquirer s a) : Tracked acquirer bufferSize view (machine.step s a) := by
  cases a with
  | load t =>
      obtain rfl : t = acquirer := ha
      simp only [machine, acquireStep]
      cases hthread : s.threads t with
      | idle =>
          have hjob := hshows.stands t
          rw [hthread] at hjob
          exact hshows.enterLoop hjob
      | _ => exact hshows.tracked
  | readNext t =>
      simp only [machine, acquireStep]
      cases hthread : s.threads t with
      | loaded head => exact hshows.readNext hthread
      | _ => exact hshows.tracked
  | exchangeHead t fails =>
      simp only [machine, acquireStep]
      cases hthread : s.threads t with
      | sawNext head next =>
          dsimp only
          split
          · rename_i hhead
            exact hshows.exchangeHead hthread hhead.1
          · have hstands := hshows.stands t
            rw [hthread] at hstands
            rcases hstands with ⟨rfl, hjob, -⟩
            exact hshows.enterLoop hjob
      | _ => exact hshows.tracked
  | take t =>
      simp only [machine, acquireStep]
      cases hthread : s.threads t with
      | popped n => exact hshows.take hthread
      | _ => exact hshows.tracked
  | delete t =>
      simp only [machine, acquireStep]
      cases hthread : s.threads t with
      | taken n b => exact hshows.delete hthread
      | _ => exact hshows.tracked
  | release t b =>
      simp only [machine, releaseStep]
      cases hthread : s.threads t with
      | idle => exact hshows.release hthread ha
      | _ => exact hshows.tracked
  | allocate t n =>
      simp only [machine, releaseStep]
      cases hthread : s.threads t with
      | releasing b =>
          cases hnode : s.memory n with
          | none => exact hshows.allocate hthread hnode
          | some node => exact hshows.tracked
      | _ => exact hshows.tracked
  | link t =>
      simp only [machine, releaseStep]
      cases hthread : s.threads t with
      | allocated n =>
          have hstands := hshows.stands t
          rw [hthread] at hstands
          rcases hstands with ⟨b, ⟨next, hnode⟩, hplace⟩
          dsimp only
          rw [access_eq hnode]
          exact (hshows.link hnode hplace).tracked
      | _ => exact hshows.tracked
  | exchangeNode t fails =>
      simp only [machine, releaseStep]
      cases hthread : s.threads t with
      | linked n =>
          have hstands := hshows.stands t
          rw [hthread] at hstands
          rcases hstands with ⟨b, ⟨next, hnode⟩, hplace⟩
          dsimp only
          rw [access_eq hnode]
          split
          · rename_i hfree
            exact hshows.exchangeNode hnode hplace hfree.1
          · have hlinked := hshows.link hnode hplace
            rw [setThread_eq_self (show (s.writeNode n _).threads t = .linked n from hthread)]
              at hlinked
            exact hlinked.tracked
      | _ => exact hshows.tracked
  | write b length => exact (hshows.write ha length).tracked

end OneStep

/-! ## The first picture -/

theorem apart_start (count : Nat) : (View.start count : View π).Apart where
  nodup := List.nodup_reverse.mpr List.nodup_range
  mem_free := by simp [View.start]
  busy := by
    intro b t
    simp only [View.start]
    split <;> simp

/-- What the constructor has built after some turns of its loop. -/
structure Built (bufferSize count : Nat) (s : BufferPool π) : Prop where
  size : s.bufferSize = bufferSize
  chain : Chain s.memory s.freeList (List.range count).reverse
  unused : ∀ n, count ≤ n → s.memory n = none
  threads : ∀ t, s.threads t = .idle
  held : ∀ b, s.held b = false
  buffers : ∀ b, b < count → s.buffers b = pristine bufferSize b

theorem Built.addBuffer {count : Nat} (hs : Built bufferSize count s) :
    Built bufferSize (count + 1) (s.addBuffer count) where
  size := hs.size
  chain := by
    have hold : Chain (s.addBuffer count).memory s.freeList (List.range count).reverse := by
      refine hs.chain.frame fun n node hnode _ => ?_
      have hne : n ≠ count := by
        intro hsame
        rw [hs.unused n (Nat.le_of_eq hsame.symm)] at hnode
        contradiction
      exact (Function.update_of_ne hne _ _).trans hnode
    rw [List.range_succ, List.reverse_append]
    exact ⟨count, s.freeList, rfl, Function.update_self _ _ _, hold⟩
  unused := by
    intro n hn
    have hne : n ≠ count := by omega
    exact (Function.update_of_ne hne _ _).trans (hs.unused n (by omega))
  threads := hs.threads
  held := hs.held
  buffers := by
    intro b hb
    simp only [BufferPool.addBuffer, writeBuffer, Function.update_apply]
    split
    · rename_i hsame
      rw [hsame, hs.size]
      rfl
    · rename_i hne
      exact hs.buffers b (Nat.lt_of_le_of_ne (Nat.le_of_lt_succ hb) hne)

theorem built_init (count bufferSize : Nat) :
    Built bufferSize count (init count bufferSize : BufferPool π) := by
  unfold init
  induction count with
  | zero => exact ⟨rfl, rfl, fun _ _ => rfl, fun _ => rfl, fun _ => rfl, by simp⟩
  | succ count ih =>
      rw [List.range_succ, List.foldl_append]
      exact ih.addBuffer

/-- The pool begins with all its buffers on the list. -/
theorem shows_init (acquirer : π) (count bufferSize : Nat) :
    Shows acquirer bufferSize (init count bufferSize) (.start count) := by
  have hbuilt := built_init (π := π) count bufferSize
  refine ⟨apart_start count, hbuilt.chain, ?_, ?_, ?_⟩
  · intro t
    rw [hbuilt.threads]
    rfl
  · intro b
    rw [hbuilt.held]
    simp only [View.start]
    split <;> simp
  · intro b hb
    have hlt : b < count := by
      by_contra hge
      simp [View.start, hge] at hb
    rw [hbuilt.buffers b hlt]
    exact ⟨rfl, rfl⟩

/-! ## Histories -/

/-- The buffer an output moves, with the place it comes from and the place it goes to. -/
def Output.moves : Output π → Option (BufferId × Place π × Place π)
  | .popped t b => some (b, .free, .acquiring t)
  | .acquired t b _ => some (b, .acquiring t, .out)
  | .released t b => some (b, .out, .releasing t)
  | .pushed t b => some (b, .releasing t, .free)
  | .exhausted _ => none
  | .fault => none

/-- How often the outputs took a buffer from places of a kind. -/
def timesFrom (kind : Place π → Bool) (b : BufferId) (outs : List (Output π)) : Nat :=
  outs.countP fun o => o.moves.any fun m => m.1 == b && kind m.2.1

/-- How often the outputs brought a buffer to places of a kind. -/
def timesTo (kind : Place π → Bool) (b : BufferId) (outs : List (Output π)) : Nat :=
  outs.countP fun o => o.moves.any fun m => m.1 == b && kind m.2.2

/-- What the observer has counted of each buffer. -/
structure Counted (count : Nat) (outs : List (Output π)) (view : View π) : Prop where
  apart : view.Apart
  placed : ∀ b, (view.place b).isSome = true ↔ b < count
  flow : ∀ (kind : Place π → Bool) b,
    timesFrom kind b outs + ((view.place b).any kind).toNat =
      timesTo kind b outs + (decide (b < count) && kind .free).toNat

theorem counted_start (count : Nat) : Counted count [] (.start count : View π) where
  apart := apart_start count
  placed := by
    intro b
    by_cases hb : b < count <;> simp [View.start, hb]
  flow := by
    intro kind b
    by_cases hb : b < count <;> simp [View.start, hb, timesFrom, timesTo]

def Place.isFree : Place π → Bool
  | .free => true
  | _ => false

def Place.isOut : Place π → Bool
  | .out => true
  | _ => false

/-- How often a buffer was handed out. -/
def handed (b : BufferId) (outs : List (Output π)) : Nat :=
  timesTo Place.isOut b outs

/-- How often a buffer was given back. -/
def returned (b : BufferId) (outs : List (Output π)) : Nat :=
  timesFrom Place.isOut b outs

/-- How often a buffer was taken off the list. -/
def takenOff (b : BufferId) (outs : List (Output π)) : Nat :=
  timesFrom Place.isFree b outs

/-- How often a buffer was put on the list, not counting the constructor. -/
def putOn (b : BufferId) (outs : List (Output π)) : Nat :=
  timesTo Place.isFree b outs

/-- What holds of an output after the earlier ones.  A buffer is handed out empty, and to one
caller at a time; {lit}`nullptr` means that every buffer has been taken off the list. -/
def Safe (count bufferSize : Nat) (before : List (Output π)) : Output π → Prop
  | .acquired _ b is => b < count ∧ is = pristine bufferSize b ∧
      handed b before = returned b before
  | .released _ b => handed b before = returned b before + 1
  | .exhausted _ => ∀ b, b < count → takenOff b before = putOn b before + 1
  | .fault => False
  | _ => True

/-- The buffers lie one behind the other in the storage. -/
theorem pristine_apart (bufferSize : Nat) {b c : BufferId} (hlt : b < c) :
    (pristine bufferSize b).data + (pristine bufferSize b).capacity ≤
      (pristine bufferSize c).data := by
  simp only [pristine]
  rw [← Nat.succ_mul]
  exact Nat.mul_le_mul_right bufferSize hlt

theorem Counted.safe {count : Nat} {outs : List (Output π)} (hcounted : Counted count outs view)
    {o : Output π} (ho : view.Expects bufferSize o) : Safe count bufferSize outs o := by
  cases o with
  | popped t b => trivial
  | acquired t b is =>
      have hflow := hcounted.flow Place.isOut b
      have hplaced := (hcounted.placed b).mp (by simp [ho.1])
      refine ⟨hplaced, ho.2, ?_⟩
      rw [ho.1] at hflow
      simpa [handed, returned, Place.isOut] using hflow.symm
  | exhausted t =>
      intro b hb
      have hflow := hcounted.flow Place.isFree b
      have hnot : view.place b ≠ some .free := by
        rw [ne_eq, ← hcounted.apart.mem_free, show view.free = [] from ho]
        exact List.not_mem_nil
      have hany : (view.place b).any Place.isFree = false := by
        cases hplace : view.place b with
        | none => rfl
        | some place =>
            cases place with
            | free => exact absurd hplace hnot
            | _ => rfl
      simpa [takenOff, putOn, hany, hb, Place.isFree] using hflow
  | released t b =>
      have hflow := hcounted.flow Place.isOut b
      rw [ho.1] at hflow
      simpa [Safe, handed, returned, Place.isOut] using hflow.symm
  | pushed t b => trivial
  | fault => exact ho.elim

variable [DecidableEq π]

/-- An output that fits moves a buffer from where it is. -/
theorem View.place_of_moves (hview : view.Apart) {o : Output π}
    (ho : view.Expects bufferSize o) {b : BufferId} {source target : Place π}
    (hmoves : o.moves = some (b, source, target)) :
    view.place b = some source ∧
      (view.see o).place = Function.update view.place b (some target) := by
  cases o with
  | popped t c =>
      cases hmoves
      exact ⟨(hview.mem_free _).mp (List.mem_of_head? ho.1), rfl⟩
  | acquired t c is =>
      cases hmoves
      exact ⟨ho.1, rfl⟩
  | released t c =>
      cases hmoves
      exact ⟨ho.1, rfl⟩
  | pushed t c =>
      cases hmoves
      exact ⟨ho, rfl⟩
  | exhausted t => cases hmoves
  | fault => exact ho.elim

theorem View.place_of_moves_none {o : Output π} (hmoves : o.moves = none) :
    (view.see o).place = view.place := by
  cases o with
  | exhausted t => rfl
  | fault => rfl
  | _ => cases hmoves

/-- Every output that fits keeps the counts. -/
theorem Counted.see {count : Nat} {outs : List (Output π)} (hcounted : Counted count outs view)
    {o : Output π} (ho : view.Expects bufferSize o) :
    Counted count (outs ++ [o]) (view.see o) := by
  rcases hcounted with ⟨hapart, hplaced, hflow⟩
  cases hmoves : o.moves with
  | none =>
      have hplace : (view.see o).place = view.place := View.place_of_moves_none hmoves
      refine ⟨hapart.see ho, ?_, ?_⟩
      · rw [hplace]
        exact hplaced
      · intro kind b
        have hold := hflow kind b
        rw [hplace]
        simpa [timesFrom, timesTo, hmoves] using hold
  | some move =>
      rcases move with ⟨c, source, target⟩
      rcases View.place_of_moves hapart ho hmoves with ⟨hsource, hplace⟩
      refine ⟨hapart.see ho, ?_, ?_⟩
      · intro b
        rw [hplace, ← hplaced b]
        by_cases hb : b = c
        · rw [hb, Function.update_self, hsource]
          simp
        · rw [Function.update_of_ne hb]
      · intro kind b
        have hold := hflow kind b
        rw [hplace]
        simp only [timesFrom, timesTo] at hold
        simp only [timesFrom, timesTo, List.countP_append, List.countP_singleton, hmoves,
          Option.any_some]
        by_cases hb : b = c
        · subst hb
          rw [hsource, Option.any_some] at hold
          rw [Function.update_self, Option.any_some]
          simp only [beq_self_eq_true, Bool.true_and]
          cases hkind : kind source <;> cases hkind' : kind target <;>
            simp only [hkind, Bool.toNat_true, Bool.toNat_false] at hold ⊢ <;> simp <;> omega
        · rw [Function.update_of_ne hb]
          have hne : (c == b) = false := by simp [Ne.symm hb]
          simpa [hne] using hold

/-- The counts hold of every history that is followed, and make it safe. -/
theorem safe_of_follows {count : Nat} {outs : List (Output π)}
    (houts : (observer bufferSize).Follows (.start count) outs view) :
    Counted count outs view ∧ EachAfter (Safe count bufferSize) outs := by
  refine houts.induction
    (P := fun outs view => Counted count outs view ∧ EachAfter (Safe count bufferSize) outs) ?_ ?_
  · exact ⟨counted_start count, eachAfter_nil⟩
  · intro before view o hkept ho
    exact ⟨hkept.1.see ho, hkept.2.concat (hkept.1.safe ho)⟩

/-! ## Runs -/

/-- What holds after a run. -/
structure HandsOut (count bufferSize : Nat) (s : BufferPool π) (outs : List (Output π)) :
    Prop where
  safe : EachAfter (Safe count bufferSize) outs
  /-- The buffers that callers have lie apart in the storage. -/
  disjoint : ∀ b c, s.held b = true → s.held c = true → b < c →
    (s.buffers b).data + (s.buffers b).capacity ≤ (s.buffers c).data
  /-- With no call in progress, the list holds the buffers that no caller has. -/
  complete : (∀ t, s.threads t = .idle) → ∃ free : List BufferId,
    Chain s.memory s.freeList free ∧ free.Nodup ∧
      ∀ b, b ∈ free ↔ b < count ∧ s.held b = false

end BufferPool

/-- With one thread that acquires, and callers that give back what they have, no interleaving
touches a deleted node, hands out a buffer twice or loses one, and {lit}`nullptr` is returned
only when every buffer is off the list. -/
theorem buffer_pool_hands_out {π : Type} [DecidableEq π] (count bufferSize : Nat) (acquirer : π)
    {actions : List (BufferPool.Action π)}
    (hproper : BufferPool.machine.Admits (BufferPool.Proper acquirer)
      (BufferPool.init count bufferSize) actions) :
    let out := BufferPool.machine.run (BufferPool.init count bufferSize) actions
    BufferPool.HandsOut count bufferSize out.1 out.2 := by
  intro out
  obtain ⟨view, hfollows, hshows⟩ := Observer.exists_follows_run
    (R := BufferPool.Shows acquirer bufferSize)
    (fun s a view hshows ha => hshows.step ha)
    (BufferPool.shows_init acquirer count bufferSize) hproper
  rcases BufferPool.safe_of_follows hfollows with ⟨hcounted, hsafe⟩
  refine ⟨hsafe, ?_, ?_⟩
  · intro b c hb hc hlt
    have hplaced : ∀ d, out.1.held d = true → (view.place d).isSome = true := by
      intro d hd
      rw [(hshows.out d).mpr hd]
      rfl
    rcases hshows.data b (hplaced b hb) with ⟨hdata, hcapacity⟩
    rw [hdata, hcapacity, (hshows.data c (hplaced c hc)).1]
    exact BufferPool.pristine_apart bufferSize hlt
  · intro hidle
    refine ⟨view.free, hshows.chain, hshows.apart.nodup, ?_⟩
    intro b
    rw [hshows.apart.mem_free, ← hcounted.placed b, ← Bool.not_eq_true, ← hshows.out b]
    exact hshows.place_of_idle hidle b

/-- One thread acquires while the other one gives a buffer back. -/
theorem buffer_pool_hands_out_twoThreads :
    let actions : List (BufferPool.Action Bool) :=
      [.load true, .readNext true, .exchangeHead true true, .readNext true,
        .exchangeHead true false, .take true, .delete true, .write 1 7, .release false 1,
        .load true, .allocate false 1, .readNext true, .link false, .exchangeHead true false,
        .exchangeNode false false, .exchangeNode false false, .take true, .delete true]
    let out := BufferPool.machine.run (BufferPool.init 2 16) actions
    BufferPool.Output.acquired true 0 { data := 0, capacity := 16, length := 0 } ∈ out.2 ∧
      out.1.freeList = some 1 ∧ BufferPool.HandsOut 2 16 out.1 out.2 := by
  intro actions out
  exact ⟨by decide +kernel, by decide +kernel,
    buffer_pool_hands_out 2 16 true (by decide +kernel)⟩

/-- A second thread that acquires deletes the node the first one has seen, and its address
comes back.  The first one then takes a list that is gone. -/
theorem fault_of_two_acquirers :
    let actions : List (BufferPool.Action Bool) :=
      [.load true, .readNext true,
        .load false, .readNext false, .exchangeHead false false, .take false, .delete false,
        .load false, .readNext false, .exchangeHead false false, .take false, .delete false,
        .release false 1, .allocate false 1, .link false, .exchangeNode false false,
        .exchangeHead true false, .take true, .delete true, .load true, .readNext true]
    BufferPool.Output.fault ∈ (BufferPool.machine.run (BufferPool.init 2 16) actions).2 := by
  intro actions
  decide +kernel

end SimCme
