import Mathlib.Logic.Function.Basic
import SimCme.Library.Machine
import SimCme.Library.Succession

/-!
# The multi-producer single-consumer queue

Producers append nodes to a linked list under an exchange of {lit}`head_`; one consumer
takes them off at {lit}`tail_`.  Each atomic operation is one step, and a run is any list
of steps of any number of producers and of the consumer.  A step that its thread cannot
take, because it stands elsewhere in its call, does nothing.

The code exchanges {lit}`head_` and compares no two addresses, so that an object may be
named by the number of its allocation, and a freed object stays freed.

Between the exchange and the store to {lit}`prev->next` the list is broken after
{lit}`prev`.  The invariant keeps the nodes in the order of the exchanges and says of each
gap which producer is about to close it.

Main results:

- Theorem {lit}`MpscQueue.Inv.step`: one step keeps the invariant.
- Theorem {lit}`MpscQueue.Inv.drain`: with no push in progress, repeated calls of
  {lit}`tryPop` return every value that is left.
- Theorem {lit}`mpsc_hand_over`: values come out in the order of the exchanges, no freed
  node is touched, and none is lost.
-/

namespace SimCme

open Library

namespace MpscQueue

/-- A node, by the number of its allocation. -/
abbrev NodeId := Nat

structure Node (T : Type) where
  data : T
  next : Option NodeId := none

/-- Where a producer stands in {lit}`push`. -/
inductive Producer (T : Type) where
  | idle
  /-- The new node has been constructed. -/
  | constructed (value : T) (node : NodeId)
  /-- {lit}`node->next.store(nullptr)` is done. -/
  | cleared (value : T) (node : NodeId)
  /-- {lit}`head_.exchange(node)` has returned {lit}`prev`. -/
  | exchanged (node prev : NodeId)

/-- Where the consumer stands in {lit}`tryPop`. -/
inductive Consumer where
  | idle
  /-- {lit}`sentinel->next.load()` has returned {lit}`next`, which is not null. -/
  | loaded (sentinel next : NodeId)

end MpscQueue

/-- The queue, the objects in memory and the threads that use it. -/
structure MpscQueue (T π : Type) where
  memory : MpscQueue.NodeId → Option (MpscQueue.Node T)
  /-- The number of the next allocation. -/
  fresh : MpscQueue.NodeId
  head : MpscQueue.NodeId
  tail : MpscQueue.NodeId
  producers : π → MpscQueue.Producer T
  consumer : MpscQueue.Consumer

namespace MpscQueue

variable {T π : Type}

/-- One step of one thread. -/
inductive Action (T π : Type) where
  | construct (p : π) (value : T)
  | clear (p : π)
  | exchange (p : π)
  | link (p : π)
  | load
  | advance

/-- What a run shows. -/
inductive Output (T π : Type) where
  /-- A producer calls {lit}`push`. -/
  | pushed (p : π) (value : T)
  /-- A producer's exchange of {lit}`head_`. -/
  | exchanged (p : π) (value : T)
  /-- {lit}`tryPop` returns a value. -/
  | popped (value : T)
  /-- {lit}`tryPop` returns {lit}`nullopt`. -/
  | empty
  /-- A thread reads, writes or frees an object that is freed. -/
  | fault

/-- The values {lit}`tryPop` returned, in order. -/
def popped (outs : List (Output T π)) : List T :=
  outs.filterMap fun
    | .popped value => some value
    | _ => none

/-- The exchanges of {lit}`head_`, in order. -/
def exchanges (outs : List (Output T π)) : List (π × T) :=
  outs.filterMap fun
    | .exchanged p value => some (p, value)
    | _ => none

@[simp]
theorem popped_append (outs outs' : List (Output T π)) :
    popped (outs ++ outs') = popped outs ++ popped outs' :=
  List.filterMap_append

@[simp]
theorem exchanges_append (outs outs' : List (Output T π)) :
    exchanges (outs ++ outs') = exchanges outs ++ exchanges outs' :=
  List.filterMap_append

/-- An empty queue: one sentinel. -/
def init [Inhabited T] : MpscQueue T π where
  memory := fun n => if n = 0 then some { data := default } else none
  fresh := 1
  head := 0
  tail := 0
  producers := fun _ => .idle
  consumer := .idle

/-- Use an object, which must be live. -/
def access (s : MpscQueue T π) (n : NodeId)
    (f : Node T → MpscQueue T π × List (Output T π)) : MpscQueue T π × List (Output T π) :=
  match s.memory n with
  | none => (s, [.fault])
  | some node => f node

variable [DecidableEq π]

/-- The values a producer exchanged, in order. -/
def exchangesOf (p : π) (outs : List (Output T π)) : List T :=
  ((exchanges outs).filter fun e => e.1 = p).map Prod.snd

/-- The values a producer called {lit}`push` with, in order. -/
def pushesOf (p : π) (outs : List (Output T π)) : List T :=
  outs.filterMap fun
    | .pushed q value => if q = p then some value else none
    | _ => none

@[simp]
theorem exchangesOf_append (p : π) (outs outs' : List (Output T π)) :
    exchangesOf p (outs ++ outs') = exchangesOf p outs ++ exchangesOf p outs' := by
  simp [exchangesOf]

@[simp]
theorem pushesOf_append (p : π) (outs outs' : List (Output T π)) :
    pushesOf p (outs ++ outs') = pushesOf p outs ++ pushesOf p outs' :=
  List.filterMap_append

/-- Write an object. -/
def write (s : MpscQueue T π) (n : NodeId) (node : Node T) : MpscQueue T π :=
  { s with memory := Function.update s.memory n (some node) }

/-- Free an object. -/
def free (s : MpscQueue T π) (n : NodeId) : MpscQueue T π :=
  { s with memory := Function.update s.memory n none }

/-- Move a producer on. -/
def setProducer (s : MpscQueue T π) (p : π) (at' : Producer T) : MpscQueue T π :=
  { s with producers := Function.update s.producers p at' }

/-- {lit}`pushNode` and the constructors before it, one operation at a time. -/
def producerStep (s : MpscQueue T π) : Action T π → MpscQueue T π × List (Output T π)
  | .construct p value =>
      match s.producers p with
      | .idle =>
          ({ (s.write s.fresh { data := value }).setProducer p (.constructed value s.fresh) with
              fresh := s.fresh + 1 },
            [.pushed p value])
      | _ => (s, [])
  | .clear p =>
      match s.producers p with
      | .constructed value node =>
          s.access node fun n =>
            ((s.write node { n with next := none }).setProducer p (.cleared value node), [])
      | _ => (s, [])
  | .exchange p =>
      match s.producers p with
      | .cleared value node =>
          ({ s.setProducer p (.exchanged node s.head) with head := node },
            [.exchanged p value])
      | _ => (s, [])
  | .link p =>
      match s.producers p with
      | .exchanged node prev =>
          s.access prev fun n =>
            ((s.write prev { n with next := some node }).setProducer p .idle, [])
      | _ => (s, [])
  | _ => (s, [])

/-- {lit}`tryPop`, up to the load and from there on.  A value that is moved from is left
in some state. -/
def consumerStep (moved : T → T) (s : MpscQueue T π) :
    Action T π → MpscQueue T π × List (Output T π)
  | .load =>
      match s.consumer with
      | .idle =>
          s.access s.tail fun n =>
            match n.next with
            | none => (s, [.empty])
            | some next => ({ s with consumer := .loaded s.tail next }, [])
      | .loaded _ _ => (s, [])
  | .advance =>
      match s.consumer with
      | .idle => (s, [])
      | .loaded sentinel next =>
          s.access next fun n =>
            s.access sentinel fun _ =>
              ({ (s.write next { n with data := moved n.data }).free sentinel with
                  tail := next
                  consumer := .idle },
                [.popped n.data])
  | _ => (s, [])

/-- Every interleaving of the threads. -/
def machine (moved : T → T) : Machine (MpscQueue T π) (Action T π) (Output T π) where
  step s a :=
    match a with
    | .load | .advance => s.consumerStep moved a
    | _ => s.producerStep a

/-! ## The invariant -/

/-- The node a producer has made and not yet exchanged, with its value. -/
def Producer.reserved : Producer T → Option (T × NodeId)
  | .constructed value node => some (value, node)
  | .cleared value node => some (value, node)
  | _ => none

/-- The pointer to the node behind. -/
def nextOf (s : MpscQueue T π) (n : NodeId) : Option NodeId :=
  (s.memory n).bind Node.next

/-- The nodes of the queue from the sentinel on, in the order of their exchanges. -/
structure Linked (s : MpscQueue T π) (nodes : List NodeId) : Prop where
  tail_eq : nodes.head? = some s.tail
  head_eq : nodes.getLast? = some s.head
  nodup : nodes.Nodup
  allocated : ∀ n ∈ nodes, n < s.fresh
  live : ∀ n ∈ nodes, (s.memory n).isSome = true
  /-- A node points to the next one, or a producer is about to make it. -/
  links : ∀ a b, Follows nodes a b →
    s.nextOf a = some b ∨ ∃ p, s.producers p = .exchanged b a
  /-- A producer between exchange and store stands at a gap, and alone. -/
  gap : ∀ p b a, s.producers p = .exchanged b a → Follows nodes a b ∧ s.nextOf a = none
  gap_unique : ∀ p q b a, s.producers p = .exchanged b a → s.producers q = .exchanged b a →
    p = q
  last : s.nextOf s.head = none
  loaded : ∀ sentinel next, s.consumer = .loaded sentinel next →
    sentinel = s.tail ∧ s.nextOf s.tail = some next

/-- A node that is not yet exchanged belongs to one producer and is in no list. -/
structure Reserves (s : MpscQueue T π) (nodes : List NodeId) : Prop where
  node : ∀ p value n, (s.producers p).reserved = some (value, n) →
    n ∉ nodes ∧ n < s.fresh ∧ s.memory n = some { data := value, next := none }
  unique : ∀ p q value value' n, (s.producers p).reserved = some (value, n) →
    (s.producers q).reserved = some (value', n) → p = q

/-- The values of the nodes behind the sentinel. -/
def waiting (s : MpscQueue T π) (nodes : List NodeId) : List T :=
  nodes.tail.filterMap fun n => (s.memory n).map Node.data

/-- The nodes behind the sentinel hold the values that were exchanged and not popped. -/
structure Inv (s : MpscQueue T π) (nodes : List NodeId) (outs : List (Output T π)) :
    Prop where
  linked : Linked s nodes
  reserves : Reserves s nodes
  values : (exchanges outs).map Prod.snd = popped outs ++ s.waiting nodes
  pushes : ∀ p, pushesOf p outs =
    exchangesOf p outs ++ ((s.producers p).reserved.map Prod.fst).toList
  no_fault : Output.fault ∉ outs

variable {s s' : MpscQueue T π} {nodes nodes' : List NodeId} {outs : List (Output T π)} {p : π}
  {value : T} {node prev : NodeId}

theorem Inv.init [Inhabited T] : Inv (MpscQueue.init : MpscQueue T π) [0] [] where
  linked :=
    { tail_eq := rfl
      head_eq := rfl
      nodup := by simp
      allocated := by simp [MpscQueue.init]
      live := by simp [MpscQueue.init]
      links := fun a b hfollows => by
        rcases follows_cons_iff.mp hfollows with ⟨-, hhead⟩ | hrest
        · simp at hhead
        · exact (not_follows_nil hrest).elim
      gap := fun p b a hp => by simp [MpscQueue.init] at hp
      gap_unique := fun p q b a hp => by simp [MpscQueue.init] at hp
      last := rfl
      loaded := fun sentinel next hconsumer => by simp [MpscQueue.init] at hconsumer }
  reserves :=
    { node := fun p value n hp => by simp [MpscQueue.init, Producer.reserved] at hp
      unique := fun p q value value' n hp => by
        simp [MpscQueue.init, Producer.reserved] at hp }
  values := rfl
  pushes p := rfl
  no_fault := by simp

/-! ## Frames -/

section Frames

omit [DecidableEq π]

theorem nextOf_congr {n : NodeId} (hmem : s'.memory n = s.memory n) :
    s'.nextOf n = s.nextOf n := by
  unfold nextOf
  rw [hmem]

/-- One object is written and another one freed. -/
theorem memory_write_free {n m x : NodeId} {node : Node T} (hx : x ≠ m) (hx' : x ≠ n) :
    ((s.write n node).free m).memory x = s.memory x := by
  simp only [free, write]
  rw [Function.update_of_ne hx, Function.update_of_ne hx']

theorem waiting_congr
    (hdata : ∀ n ∈ nodes.tail, (s'.memory n).map Node.data = (s.memory n).map Node.data) :
    s'.waiting nodes = s.waiting nodes :=
  List.filterMap_congr hdata

/-- The list depends on its own nodes and on the producers at its gaps. -/
theorem Linked.frame (hlinked : Linked s nodes) (htail : s'.tail = s.tail)
    (hhead : s'.head = s.head) (hconsumer : s'.consumer = s.consumer)
    (hfresh : s.fresh ≤ s'.fresh) (hmem : ∀ n ∈ nodes, s'.memory n = s.memory n)
    (hgaps : ∀ q b a, s'.producers q = .exchanged b a ↔ s.producers q = .exchanged b a) :
    Linked s' nodes where
  tail_eq := htail ▸ hlinked.tail_eq
  head_eq := hhead ▸ hlinked.head_eq
  nodup := hlinked.nodup
  allocated n hn := lt_of_lt_of_le (hlinked.allocated n hn) hfresh
  live n hn := by
    rw [hmem n hn]
    exact hlinked.live n hn
  links a b hfollows := by
    simp only [nextOf_congr (hmem a hfollows.mem_left), hgaps]
    exact hlinked.links a b hfollows
  gap q b a hq := by
    rcases hlinked.gap q b a ((hgaps q b a).mp hq) with ⟨hfollows, hnone⟩
    exact ⟨hfollows, (nextOf_congr (hmem a hfollows.mem_left)).trans hnone⟩
  gap_unique q q' b a hq hq' :=
    hlinked.gap_unique q q' b a ((hgaps q b a).mp hq) ((hgaps q' b a).mp hq')
  last := by
    rw [hhead, nextOf_congr (hmem _ (List.mem_of_getLast? hlinked.head_eq))]
    exact hlinked.last
  loaded sentinel next hloaded := by
    rw [htail, nextOf_congr (hmem _ (List.mem_of_head? hlinked.tail_eq))]
    exact hlinked.loaded sentinel next (hconsumer ▸ hloaded)

/-- The reserved nodes stay reserved as long as nobody else gets them. -/
theorem Reserves.frame (hreserves : Reserves s nodes) (hfresh : s.fresh ≤ s'.fresh)
    (hkept : ∀ q v n, (s'.producers q).reserved = some (v, n) →
      (s.producers q).reserved = some (v, n))
    (hnodes : ∀ q v n, (s'.producers q).reserved = some (v, n) →
      n ∉ nodes' ∧ s'.memory n = s.memory n) : Reserves s' nodes' where
  node q v n hq := by
    rcases hreserves.node q v n (hkept q v n hq) with ⟨-, hlt, hmemory⟩
    rcases hnodes q v n hq with ⟨hnot, hmem⟩
    exact ⟨hnot, lt_of_lt_of_le hlt hfresh, hmem.trans hmemory⟩
  unique q q' v v' n hq hq' :=
    hreserves.unique q q' v v' n (hkept q v n hq) (hkept q' v' n hq')

end Frames

/-- Moving a producer that stands at no gap to no gap. -/
theorem gaps_update {x : Producer T} (hp : ∀ b a, s.producers p ≠ .exchanged b a)
    (hx : ∀ b a, x ≠ .exchanged b a) (q : π) (b a : NodeId) :
    Function.update s.producers p x q = .exchanged b a ↔ s.producers q = .exchanged b a := by
  by_cases hq : q = p
  · rw [hq, Function.update_self]
    exact iff_of_false (hx b a) (hp b a)
  · rw [Function.update_of_ne hq]

/-- What a producer that is moved holds, and what the others hold. -/
theorem reserved_update {x : Producer T} {q : π} {v : T} {n : NodeId}
    (hq : (Function.update s.producers p x q).reserved = some (v, n)) :
    (q = p ∧ x.reserved = some (v, n)) ∨ (q ≠ p ∧ (s.producers q).reserved = some (v, n)) := by
  by_cases hqp : q = p
  · rw [hqp, Function.update_self] at hq
    exact Or.inl ⟨hqp, hq⟩
  · rw [Function.update_of_ne hqp] at hq
    exact Or.inr ⟨hqp, hq⟩

/-- Where a producer that is moved stands, and where the others stand. -/
theorem exchanged_update {x : Producer T} {q : π} {b a : NodeId}
    (hq : Function.update s.producers p x q = .exchanged b a) :
    (q = p ∧ x = .exchanged b a) ∨ (q ≠ p ∧ s.producers q = .exchanged b a) := by
  by_cases hqp : q = p
  · rw [hqp, Function.update_self] at hq
    exact Or.inl ⟨hqp, hq⟩
  · rw [Function.update_of_ne hqp] at hq
    exact Or.inr ⟨hqp, hq⟩

namespace Linked

/-- The node of an exchange comes last, behind a gap that is the producer's own. -/
theorem exchange (hlinked : Linked s nodes) (hp : s.producers p = .cleared value node)
    (hnot : node ∉ nodes) (hlt : node < s.fresh)
    (hmemory : s.memory node = some { data := value, next := none }) :
    Linked { s.setProducer p (.exchanged node s.head) with head := node } (nodes ++ [node]) := by
  have hfree : ∀ q b a, s.producers q = .exchanged b a → q ≠ p := by
    rintro q b a hq rfl
    rw [hp] at hq
    cases hq
  have hold : ∀ q b a, s.producers q = .exchanged b a → b ≠ node := by
    rintro q b a hq rfl
    exact hnot (hlinked.gap q b a hq).1.mem_right
  refine ⟨?_, ?_, ?_, ?_, ?_, ?_, ?_, ?_, ?_, hlinked.loaded⟩
  · rw [List.head?_append, hlinked.tail_eq]
    rfl
  · exact List.getLast?_concat
  · rw [List.nodup_append]
    refine ⟨hlinked.nodup, by simp, ?_⟩
    intro n hn m hm
    rw [List.mem_singleton.mp hm]
    rintro rfl
    exact hnot hn
  · intro n hn
    rcases List.mem_append.mp hn with hn | hn
    · exact hlinked.allocated n hn
    · rwa [List.mem_singleton.mp hn]
  · intro n hn
    rcases List.mem_append.mp hn with hn | hn
    · exact hlinked.live n hn
    · rw [List.mem_singleton.mp hn]
      simp [setProducer, hmemory]
  · intro a b hfollows
    rcases follows_concat_iff.mp hfollows with hfollows | ⟨hlast, rfl⟩
    · rcases hlinked.links a b hfollows with hlink | ⟨q, hq⟩
      · exact Or.inl hlink
      · exact Or.inr ⟨q, (Function.update_of_ne (hfree q b a hq) _ _).trans hq⟩
    · -- The gap after the old head is the producer's own.
      rw [hlinked.head_eq] at hlast
      cases hlast
      exact Or.inr ⟨p, Function.update_self _ _ _⟩
  · intro q b a hq
    rcases exchanged_update hq with ⟨-, hnew⟩ | ⟨-, hq⟩
    · cases hnew
      exact ⟨follows_concat_iff.mpr (Or.inr ⟨hlinked.head_eq, rfl⟩), hlinked.last⟩
    · rcases hlinked.gap q b a hq with ⟨hfollows, hnone⟩
      exact ⟨follows_concat_iff.mpr (Or.inl hfollows), hnone⟩
  · intro q q' b a hq hq'
    rcases exchanged_update hq with ⟨hqp, hnew⟩ | ⟨-, hqold⟩
    · rcases exchanged_update hq' with ⟨hqp', -⟩ | ⟨-, hqold'⟩
      · rw [hqp, hqp']
      · cases hnew
        exact (hold q' _ _ hqold' rfl).elim
    · rcases exchanged_update hq' with ⟨-, hnew⟩ | ⟨-, hqold'⟩
      · cases hnew
        exact (hold q _ _ hqold rfl).elim
      · exact hlinked.gap_unique q q' b a hqold hqold'
  · simp [nextOf, setProducer, hmemory]

/-- The store to {lit}`prev->next` closes the gap of the producer and no other. -/
theorem link {n : Node T} (hlinked : Linked s nodes) (hp : s.producers p = .exchanged node prev)
    (hn : s.memory prev = some n) :
    Linked ((s.write prev { n with next := some node }).setProducer p .idle) nodes := by
  rcases hlinked.gap p node prev hp with ⟨hgap, hnone⟩
  have hself : Function.update s.memory prev (some { n with next := some node }) prev =
      some { n with next := some node } := Function.update_self _ _ _
  have hmem : ∀ m, m ≠ prev →
      Function.update s.memory prev (some { n with next := some node }) m = s.memory m :=
    fun m hm => Function.update_of_ne hm _ _
  have hnext : ∀ m, m ≠ prev →
      ((s.write prev { n with next := some node }).setProducer p .idle).nextOf m =
        s.nextOf m :=
    fun m hm => congrArg (Option.bind · Node.next) (hmem m hm)
  have hothers : ∀ q b a, Function.update s.producers p .idle q = .exchanged b a →
      q ≠ p ∧ s.producers q = .exchanged b a := by
    intro q b a hq
    rcases exchanged_update hq with ⟨-, hnew⟩ | hold
    · cases hnew
    · exact hold
  refine ⟨hlinked.tail_eq, hlinked.head_eq, hlinked.nodup, hlinked.allocated, ?_, ?_, ?_, ?_,
    ?_, ?_⟩
  · intro m hm
    by_cases hmp : m = prev
    · rw [hmp]
      exact congrArg Option.isSome hself
    · exact (congrArg Option.isSome (hmem m hmp)).trans (hlinked.live m hm)
  · intro a b hfollows
    by_cases ha : a = prev
    · left
      rw [ha] at hfollows ⊢
      rw [Follows.unique hlinked.nodup hfollows hgap]
      exact congrArg (Option.bind · Node.next) hself
    · rcases hlinked.links a b hfollows with hlink | ⟨q, hq⟩
      · exact Or.inl ((hnext a ha).trans hlink)
      · have hqp : q ≠ p := by
          rintro rfl
          rw [hp] at hq
          cases hq
          exact ha rfl
        exact Or.inr ⟨q, (Function.update_of_ne hqp _ _).trans hq⟩
  · intro q b a hq
    rcases hothers q b a hq with ⟨hqp, hqold⟩
    rcases hlinked.gap q b a hqold with ⟨hfollows, hempty⟩
    have ha : a ≠ prev := by
      rintro rfl
      rw [Follows.unique hlinked.nodup hfollows hgap] at hqold
      exact hqp (hlinked.gap_unique q p node a hqold hp)
    exact ⟨hfollows, (hnext a ha).trans hempty⟩
  · intro q q' b a hq hq'
    exact hlinked.gap_unique q q' b a (hothers q b a hq).2 (hothers q' b a hq').2
  · have hhead : s.head ≠ prev := by
      rintro rfl
      exact not_follows_getLast hlinked.nodup hlinked.head_eq hgap
    exact (hnext s.head hhead).trans hlinked.last
  · intro sentinel next hconsumer
    rcases hlinked.loaded sentinel next hconsumer with ⟨htail, hload⟩
    have hne : s.tail ≠ prev := by
      rintro heq
      rw [heq, hnone] at hload
      cases hload
    exact ⟨htail, (hnext s.tail hne).trans hload⟩

omit [DecidableEq π] in
/-- The node behind the sentinel becomes the sentinel: no producer stands at the gap
between them. -/
theorem advance {next : NodeId} {rest : List NodeId} {n : Node T}
    (hlinked : Linked s (s.tail :: next :: rest)) (hnext : s.nextOf s.tail = some next)
    (hn : s.memory next = some n) (data : T) :
    Linked
      { (s.write next { n with data := data }).free s.tail with tail := next, consumer := .idle }
      (next :: rest) := by
  rcases List.nodup_cons.mp hlinked.nodup with ⟨htail, hnodup⟩
  have hbehind : ∀ x ∈ next :: rest, x ≠ s.tail := by
    rintro x hx rfl
    exact htail hx
  have hself : ((s.write next { n with data := data }).free s.tail).memory next =
      some { n with data := data } := by
    simp only [free, write]
    rw [Function.update_of_ne (hbehind next List.mem_cons_self), Function.update_self]
  have hnextOf : ∀ x ∈ next :: rest,
      ((s.write next { n with data := data }).free s.tail).nextOf x = s.nextOf x := by
    intro x hx
    by_cases hx' : x = next
    · rw [hx', nextOf, hself, nextOf, hn]
      rfl
    · exact nextOf_congr (memory_write_free (hbehind x hx) hx')
  refine ⟨rfl, ?_, hnodup, ?_, ?_, ?_, ?_, hlinked.gap_unique, ?_, ?_⟩
  · exact (List.getLast?_cons_cons).symm.trans hlinked.head_eq
  · exact fun x hx => hlinked.allocated x (List.mem_cons_of_mem _ hx)
  · intro x hx
    by_cases hx' : x = next
    · rw [hx']
      exact congrArg Option.isSome hself
    · exact (congrArg Option.isSome (memory_write_free (hbehind x hx) hx')).trans
        (hlinked.live x (List.mem_cons_of_mem _ hx))
  · intro a b hfollows
    rcases hlinked.links a b (follows_cons_iff.mpr (Or.inr hfollows)) with hlink | hgap
    · exact Or.inl ((hnextOf a hfollows.mem_left).trans hlink)
    · exact Or.inr hgap
  · intro q b a hq
    rcases hlinked.gap q b a hq with ⟨hfollows, hnone⟩
    rcases follows_cons_iff.mp hfollows with ⟨rfl, -⟩ | hfollows
    · rw [hnext] at hnone
      cases hnone
    · exact ⟨hfollows, (hnextOf a hfollows.mem_left).trans hnone⟩
  · have hhead := List.mem_of_getLast? ((List.getLast?_cons_cons).symm.trans hlinked.head_eq)
    exact (hnextOf s.head hhead).trans hlinked.last
  · intro _ _ hconsumer
    cases hconsumer

end Linked

namespace Inv

/-- Steps that neither exchange nor pop. -/
theorem values_of_no_exchange (hinv : Inv s nodes outs)
    (hwaiting : s'.waiting nodes = s.waiting nodes) {outs' : List (Output T π)}
    (hexchanges : exchanges outs' = []) (hpopped : popped outs' = []) :
    (exchanges (outs ++ outs')).map Prod.snd = popped (outs ++ outs') ++ s'.waiting nodes := by
  rw [exchanges_append, popped_append, hexchanges, hpopped, hwaiting, List.append_nil,
    List.append_nil]
  exact hinv.values

/-- Outputs that report no push and no exchange. -/
theorem pushes_of_other (hinv : Inv s nodes outs) {outs' : List (Output T π)} (q : π)
    (hpushes : pushesOf q outs' = []) (hexchanges : exchangesOf q outs' = []) :
    pushesOf q (outs ++ outs') =
      exchangesOf q (outs ++ outs') ++ ((s.producers q).reserved.map Prod.fst).toList := by
  rw [pushesOf_append, exchangesOf_append, hpushes, hexchanges, List.append_nil, List.append_nil]
  exact hinv.pushes q

/-! ## The steps -/

/-- A new node is in nobody's way. -/
theorem construct (hinv : Inv s nodes outs) (hp : s.producers p = .idle) :
    Inv
      { (s.write s.fresh { data := value }).setProducer p (.constructed value s.fresh) with
        fresh := s.fresh + 1 }
      nodes (outs ++ [.pushed p value]) := by
  have hmem : ∀ n, n < s.fresh →
      Function.update s.memory s.fresh (some { data := value }) n = s.memory n :=
    fun n hn => Function.update_of_ne hn.ne _ _
  have hnodes : ∀ n ∈ nodes,
      Function.update s.memory s.fresh (some { data := value }) n = s.memory n :=
    fun n hn => hmem n (hinv.linked.allocated n hn)
  refine ⟨?_, ?_, ?_, ?_, ?_⟩
  · refine hinv.linked.frame ?_ ?_ ?_ ?_ hnodes ?_
    · rfl
    · rfl
    · rfl
    · exact Nat.le_succ _
    · exact gaps_update (by simp [write, hp]) (by simp)
  · constructor
    · intro q v n hq
      rcases reserved_update hq with ⟨-, hnew⟩ | ⟨-, hold⟩
      · cases hnew
        exact ⟨fun hn => (hinv.linked.allocated _ hn).false, Nat.lt_succ_self _,
          Function.update_self _ _ _⟩
      · rcases hinv.reserves.node q v n hold with ⟨hnot, hlt, hmemory⟩
        exact ⟨hnot, Nat.lt_succ_of_lt hlt, (hmem n hlt).trans hmemory⟩
    · intro q q' v v' n hq hq'
      rcases reserved_update hq with ⟨rfl, hnew⟩ | ⟨-, hold⟩
      · rcases reserved_update hq' with ⟨rfl, -⟩ | ⟨-, hold'⟩
        · rfl
        · cases hnew
          exact ((hinv.reserves.node q' v' _ hold').2.1.false).elim
      · rcases reserved_update hq' with ⟨rfl, hnew⟩ | ⟨-, hold'⟩
        · cases hnew
          exact ((hinv.reserves.node q v _ hold).2.1.false).elim
        · exact hinv.reserves.unique q q' v v' n hold hold'
  · refine hinv.values_of_no_exchange (waiting_congr fun n hn => ?_) rfl rfl
    exact congrArg _ (hnodes n (List.mem_of_mem_tail hn))
  · intro q
    have hnew : pushesOf q [Output.pushed p value] = if p = q then [value] else [] := by
      simp only [pushesOf, List.filterMap_cons, List.filterMap_nil]
      split <;> simp_all
    have hnone : exchangesOf q [Output.pushed p value] = [] := rfl
    rw [pushesOf_append, exchangesOf_append, hinv.pushes q, hnew, hnone]
    by_cases hq : q = p
    · subst hq
      simp [hp, Producer.reserved, setProducer]
    · simp [setProducer, write, Ne.symm hq, hq]
  · simpa using hinv.no_fault

/-- The store of a null pointer to the new node changes nothing. -/
theorem clear (hinv : Inv s nodes outs) (hp : s.producers p = .constructed value node) :
    ∃ n, s.memory node = some n ∧
      Inv ((s.write node { n with next := none }).setProducer p (.cleared value node)) nodes
        outs := by
  have hreserved : (s.producers p).reserved = some (value, node) := by
    rw [hp]
    rfl
  rcases hinv.reserves.node p value node hreserved with ⟨hnot, hlt, hmemory⟩
  have hmem : Function.update s.memory node (some { data := value, next := none }) = s.memory := by
    rw [← hmemory, Function.update_eq_self]
  have hkept : ∀ q, (Function.update s.producers p (.cleared value node) q).reserved =
      (s.producers q).reserved := by
    intro q
    by_cases hq : q = p
    · rw [hq, Function.update_self, hreserved]
      rfl
    · rw [Function.update_of_ne hq]
  refine ⟨_, hmemory, ?_, ?_, ?_, ?_, hinv.no_fault⟩
  · refine hinv.linked.frame ?_ ?_ ?_ ?_ ?_ ?_
    · rfl
    · rfl
    · rfl
    · exact le_refl _
    · exact fun n _ => congrFun hmem n
    · exact gaps_update (by simp [write, hp]) (by simp)
  · refine hinv.reserves.frame ?_ ?_ ?_
    · exact le_refl _
    · exact fun q v n hq => (hkept q).symm.trans hq
    · exact fun q v n hq =>
        ⟨(hinv.reserves.node q v n ((hkept q).symm.trans hq)).1, congrFun hmem n⟩
  · rw [hinv.values]
    congr 1
    exact (waiting_congr fun n _ => congrArg _ (congrFun hmem n)).symm
  · intro q
    rw [hinv.pushes q]
    congr 3
    exact (hkept q).symm

/-- An exchange appends its node and leaves a gap before it. -/
theorem exchange (hinv : Inv s nodes outs) (hp : s.producers p = .cleared value node) :
    Inv { s.setProducer p (.exchanged node s.head) with head := node } (nodes ++ [node])
      (outs ++ [.exchanged p value]) := by
  have hreserved : (s.producers p).reserved = some (value, node) := by
    rw [hp]
    rfl
  rcases hinv.reserves.node p value node hreserved with ⟨hnot, hlt, hmemory⟩
  refine ⟨hinv.linked.exchange hp hnot hlt hmemory, ?_, ?_, ?_, ?_⟩
  · refine hinv.reserves.frame ?_ ?_ ?_
    · exact le_refl _
    · intro q v n hq
      rcases reserved_update hq with ⟨-, hnew⟩ | ⟨-, hq⟩
      · cases hnew
      · exact hq
    · intro q v n hq
      rcases reserved_update hq with ⟨-, hnew⟩ | ⟨hqp, hqold⟩
      · cases hnew
      · refine ⟨?_, rfl⟩
        rw [List.mem_append, List.mem_singleton]
        rintro (hn | hn)
        · exact (hinv.reserves.node q v n hqold).1 hn
        · rw [hn] at hqold
          exact hqp (hinv.reserves.unique q p v value node hqold hreserved)
  · have hne : nodes ≠ [] := by
      rintro rfl
      simpa using hinv.linked.tail_eq
    have hnew : exchanges [Output.exchanged p value] = [(p, value)] := rfl
    have hnone : popped [Output.exchanged p value] = [] := rfl
    have htail : (nodes ++ [node]).tail = nodes.tail ++ [node] := List.tail_append_of_ne_nil hne
    rw [exchanges_append, popped_append, hnew, hnone, List.map_append, hinv.values]
    simp [waiting, htail, setProducer, hmemory]
  · intro q
    have hnew : exchangesOf q [Output.exchanged p value] = if p = q then [value] else [] := by
      simp only [exchangesOf, exchanges, List.filterMap_cons, List.filterMap_nil,
        List.filter_cons, List.filter_nil]
      split <;> simp_all
    have hnone : pushesOf q [Output.exchanged p value] = [] := rfl
    rw [pushesOf_append, exchangesOf_append, hinv.pushes q, hnew, hnone]
    by_cases hq : q = p
    · subst hq
      simp [hp, Producer.reserved, setProducer]
    · simp [setProducer, Ne.symm hq, hq]
  · simpa using hinv.no_fault

/-- The store to {lit}`prev->next` closes the producer's gap; {lit}`prev` is live. -/
theorem link (hinv : Inv s nodes outs) (hp : s.producers p = .exchanged node prev) :
    ∃ n, s.memory prev = some n ∧
      Inv ((s.write prev { n with next := some node }).setProducer p .idle) nodes outs := by
  have hprev : prev ∈ nodes := (hinv.linked.gap p node prev hp).1.mem_left
  rcases Option.isSome_iff_exists.mp (hinv.linked.live prev hprev) with ⟨n, hn⟩
  have hmem : ∀ m, m ≠ prev →
      Function.update s.memory prev (some { n with next := some node }) m = s.memory m :=
    fun m hm => Function.update_of_ne hm _ _
  have hreserved : ∀ q v m, (Function.update s.producers p .idle q).reserved = some (v, m) →
      (s.producers q).reserved = some (v, m) := by
    intro q v m hq
    rcases reserved_update hq with ⟨-, hnew⟩ | ⟨-, hqold⟩
    · cases hnew
    · exact hqold
  refine ⟨n, hn, hinv.linked.link hp hn, ?_, ?_, ?_, hinv.no_fault⟩
  · refine hinv.reserves.frame ?_ hreserved ?_
    · exact le_refl _
    · intro q v m hq
      have hnot := (hinv.reserves.node q v m (hreserved q v m hq)).1
      refine ⟨hnot, hmem m ?_⟩
      rintro rfl
      exact hnot hprev
  · rw [hinv.values]
    congr 1
    symm
    apply waiting_congr
    intro m _
    by_cases hm : m = prev
    · rw [hm, hn]
      simp [write, setProducer]
    · exact congrArg (Option.map Node.data) (hmem m hm)
  · intro q
    rw [hinv.pushes q]
    by_cases hq : q = p
    · subst hq
      simp [hp, Producer.reserved, setProducer]
    · simp [setProducer, write, hq]

/-- The load finds the node behind the sentinel, or none if a gap follows it. -/
theorem load (hinv : Inv s nodes outs) :
    ∃ n, s.memory s.tail = some n ∧
      (n.next = none → Inv s nodes (outs ++ [.empty])) ∧
      ∀ next, n.next = some next →
        Inv { s with consumer := .loaded s.tail next } nodes outs := by
  have hlinked := hinv.linked
  obtain ⟨n, hn⟩ := Option.isSome_iff_exists.mp
    (hlinked.live s.tail (List.mem_of_head? hlinked.tail_eq))
  refine ⟨n, hn, ?_, ?_⟩
  · intro _
    refine ⟨hlinked, hinv.reserves, hinv.values_of_no_exchange rfl rfl rfl, ?_, ?_⟩
    · exact fun q => hinv.pushes_of_other q rfl rfl
    · simpa using hinv.no_fault
  · intro next hnext
    refine ⟨⟨hlinked.tail_eq, hlinked.head_eq, hlinked.nodup, hlinked.allocated, hlinked.live,
      hlinked.links, hlinked.gap, hlinked.gap_unique, hlinked.last, ?_⟩, ?_, hinv.values,
      hinv.pushes, hinv.no_fault⟩
    · rintro sentinel next' hloaded
      cases hloaded
      refine ⟨rfl, ?_⟩
      simp [nextOf, hn, hnext]
    · exact ⟨hinv.reserves.node, hinv.reserves.unique⟩

/-- What the load found is the second node of the list. -/
theorem nodes_of_loaded {sentinel next : NodeId} (hinv : Inv s nodes outs)
    (hloaded : s.consumer = .loaded sentinel next) :
    sentinel = s.tail ∧ ∃ rest, nodes = s.tail :: next :: rest := by
  have hlinked := hinv.linked
  rcases hlinked.loaded sentinel next hloaded with ⟨hsentinel, hnext⟩
  rcases List.head?_eq_some_iff.mp hlinked.tail_eq with ⟨behind, rfl⟩
  refine ⟨hsentinel, ?_⟩
  cases behind with
  | nil =>
      have hhead : s.tail = s.head := by simpa using hlinked.head_eq
      rw [hhead, hlinked.last] at hnext
      cases hnext
  | cons b rest =>
      have hfollows : Follows (s.tail :: b :: rest) s.tail b := ⟨[], rest, rfl⟩
      rcases hlinked.links s.tail b hfollows with hlink | ⟨q, hq⟩
      · rw [hnext] at hlink
        cases hlink
        exact ⟨rest, rfl⟩
      · have hnone := (hlinked.gap q b s.tail hq).2
        rw [hnext] at hnone
        cases hnone

/-- The advance frees a sentinel no producer is about to write. -/
theorem advance {sentinel next : NodeId} (moved : T → T) (hinv : Inv s nodes outs)
    (hloaded : s.consumer = .loaded sentinel next) :
    ∃ n m, s.memory next = some n ∧ s.memory sentinel = some m ∧
      ∃ nodes', Inv
        { (s.write next { n with data := moved n.data }).free sentinel with
          tail := next
          consumer := .idle }
        nodes' (outs ++ [.popped n.data]) := by
  rcases hinv.nodes_of_loaded hloaded with ⟨rfl, rest, hnodes⟩
  have hlinked := hinv.linked
  have hnext := (hlinked.loaded _ next hloaded).2
  rw [hnodes] at hlinked
  rcases Option.isSome_iff_exists.mp (hlinked.live next (by simp)) with ⟨n, hn⟩
  rcases Option.isSome_iff_exists.mp (hlinked.live s.tail (by simp)) with ⟨m, hm⟩
  rcases List.nodup_cons.mp hlinked.nodup with ⟨htail, hnodup⟩
  refine ⟨n, m, hn, hm, next :: rest, hlinked.advance hnext hn (moved n.data), ?_, ?_, ?_, ?_⟩
  · refine hinv.reserves.frame ?_ ?_ ?_
    · exact le_refl _
    · exact fun _ _ _ hq => hq
    · intro q v x hq
      have hnot := (hinv.reserves.node q v x hq).1
      rw [hnodes, List.mem_cons, List.mem_cons, not_or, not_or] at hnot
      refine ⟨?_, memory_write_free hnot.1 hnot.2.1⟩
      rw [List.mem_cons, not_or]
      exact hnot.2
  · have hnone : exchanges [(Output.popped n.data : Output T π)] = [] := rfl
    have hnew : popped [(Output.popped n.data : Output T π)] = [n.data] := rfl
    have hfirst : s.waiting (s.tail :: next :: rest) =
        n.data :: rest.filterMap fun x => (s.memory x).map Node.data := by
      simp [waiting, hn]
    rw [exchanges_append, popped_append, hnone, hnew, List.append_nil, hinv.values, hnodes,
      hfirst, List.append_assoc]
    congr 2
    apply List.filterMap_congr
    intro x hx
    have hx' : x ≠ next := by
      rintro rfl
      exact (List.nodup_cons.mp hnodup).1 hx
    have hx'' : x ≠ s.tail := by
      rintro rfl
      exact htail (List.mem_cons_of_mem _ hx)
    exact congrArg (Option.map Node.data) (memory_write_free hx'' hx').symm
  · exact fun q => hinv.pushes_of_other q rfl rfl
  · simpa using hinv.no_fault

/-! ## Runs -/

/-- One step of one thread keeps the invariant. -/
theorem step (moved : T → T) (hinv : Inv s nodes outs) (a : Action T π) :
    ∃ nodes', Inv ((machine moved).step s a).1 nodes' (outs ++ ((machine moved).step s a).2) := by
  have hstay : ∃ nodes', Inv s nodes' (outs ++ []) := by
    rw [List.append_nil]
    exact ⟨nodes, hinv⟩
  cases a with
  | construct p value =>
      simp only [machine, producerStep]
      split
      · exact ⟨nodes, hinv.construct ‹_›⟩
      · exact hstay
  | clear p =>
      simp only [machine, producerStep]
      split
      · rcases hinv.clear ‹_› with ⟨n, hn, hcleared⟩
        simp only [access, hn, List.append_nil]
        exact ⟨nodes, hcleared⟩
      · exact hstay
  | exchange p =>
      simp only [machine, producerStep]
      split
      · exact ⟨_, hinv.exchange ‹_›⟩
      · exact hstay
  | link p =>
      simp only [machine, producerStep]
      split
      · rcases hinv.link ‹_› with ⟨n, hn, hlinked⟩
        simp only [access, hn, List.append_nil]
        exact ⟨nodes, hlinked⟩
      · exact hstay
  | load =>
      simp only [machine, consumerStep]
      split
      · rcases hinv.load with ⟨n, hn, hempty, hfound⟩
        simp only [access, hn]
        cases hnext : n.next with
        | none => exact ⟨nodes, hempty hnext⟩
        | some next =>
            simp only [List.append_nil]
            exact ⟨nodes, hfound next hnext⟩
      · exact hstay
  | advance =>
      simp only [machine, consumerStep]
      split
      · exact hstay
      · rcases hinv.advance moved ‹_› with ⟨n, m, hn, hm, nodes', hadvanced⟩
        simp only [access, hn, hm]
        exact ⟨nodes', hadvanced⟩

theorem of_run [Inhabited T] (moved : T → T) (actions : List (Action T π)) :
    ∃ nodes, Inv ((machine moved).run MpscQueue.init actions).1 nodes
      ((machine moved).run MpscQueue.init actions).2 := by
  have hinit : ∃ nodes, Inv (MpscQueue.init : MpscQueue T π) nodes [] := ⟨[0], Inv.init⟩
  have hadmits : (machine moved).Admits (fun _ _ => True) MpscQueue.init actions :=
    Machine.admits_of_forall (fun _ _ => trivial) _ _
  refine Machine.history_invariant (P := fun _ s outs => ∃ nodes, Inv s nodes outs) hinit ?_
    actions hadmits
  rintro _ s outs a ⟨nodes, hinv⟩ -
  exact hinv.step moved a

/-! ## Draining -/

/-- A value waits: the call returns one. -/
theorem tryPop_some (moved : T → T) (hinv : Inv s nodes outs)
    (hidle : ∀ p, s.producers p = .idle) (hconsumer : s.consumer = .idle)
    (hwaiting : s.waiting nodes ≠ []) :
    ∃ s' nodes' value, (machine moved).run s [.load, .advance] = (s', [.popped value]) ∧
      Inv s' nodes' (outs ++ [.popped value]) ∧ s'.producers = s.producers ∧
      s'.consumer = .idle := by
  have hlinked := hinv.linked
  rcases List.head?_eq_some_iff.mp hlinked.tail_eq with ⟨behind, hnodes⟩
  cases behind with
  | nil =>
      rw [hnodes] at hwaiting
      exact (hwaiting rfl).elim
  | cons b rest =>
      have hlink : s.nextOf s.tail = some b := by
        rcases hlinked.links s.tail b ⟨[], rest, by rw [hnodes]; rfl⟩ with hlink | ⟨q, hq⟩
        · exact hlink
        · rw [hidle q] at hq
          cases hq
      rcases hinv.load with ⟨n, hn, -, hfound⟩
      have hnext : n.next = some b := by simpa [nextOf, hn] using hlink
      have hloaded := hfound b hnext
      rcases hloaded.advance moved rfl with ⟨n', -, hn', -, nodes', hadvanced⟩
      have hbehind : s.memory b = some n' := hn'
      refine ⟨_, nodes', n'.data, ?_, hadvanced, rfl, rfl⟩
      simp only [Machine.run, machine, consumerStep, hconsumer, access, hn, hnext, hbehind]
      rfl

/-- No value waits: the call returns none and changes nothing. -/
theorem tryPop_none (moved : T → T) (hinv : Inv s nodes outs) (hconsumer : s.consumer = .idle)
    (hwaiting : s.waiting nodes = []) :
    (machine moved).run s [.load, .advance] = (s, [.empty]) := by
  have hlinked := hinv.linked
  rcases List.head?_eq_some_iff.mp hlinked.tail_eq with ⟨behind, hnodes⟩
  cases behind with
  | nil =>
      have hhead : s.tail = s.head := by
        have hlast := hlinked.head_eq
        rw [hnodes] at hlast
        simpa using hlast
      rcases hinv.load with ⟨n, hn, -, -⟩
      have hnext : n.next = none := by
        have hlast := hlinked.last
        rw [← hhead] at hlast
        simpa [nextOf, hn] using hlast
      simp only [Machine.run, machine, consumerStep, hconsumer, access, hn, hnext]
      rfl
  | cons b rest =>
      rcases Option.isSome_iff_exists.mp (hlinked.live b (by simp [hnodes])) with ⟨n, hn⟩
      rw [hnodes] at hwaiting
      simp [waiting, hn] at hwaiting

end Inv

/-- So many calls of {lit}`tryPop`. -/
def tryPops (k : Nat) : List (Action T π) :=
  (List.replicate k [Action.load, Action.advance]).flatten

omit [DecidableEq π] in
theorem tryPops_succ (k : Nat) :
    (tryPops (k + 1) : List (Action T π)) = [.load, .advance] ++ tryPops k := by
  simp [tryPops, List.replicate_succ]

namespace Inv

/-- With no push in progress the calls return every waiting value, then none. -/
theorem drain (moved : T → T) (k : Nat) (left : List T) :
    ∀ {s : MpscQueue T π} {nodes : List NodeId} {outs : List (Output T π)},
      Inv s nodes outs → (∀ p, s.producers p = .idle) → s.consumer = .idle →
      s.waiting nodes = left →
      ((machine moved).run s (tryPops (left.length + k))).2 =
        left.map .popped ++ List.replicate k .empty := by
  induction left with
  | nil =>
      intro s nodes outs hinv hidle hconsumer hleft
      induction k with
      | zero => rfl
      | succ k ih =>
          rw [List.length_nil, Nat.zero_add] at ih ⊢
          rw [tryPops_succ, Machine.run_append, hinv.tryPop_none moved hconsumer hleft, ih]
          rfl
  | cons value left ih =>
      intro s nodes outs hinv hidle hconsumer hleft
      obtain ⟨s', nodes', value', hrun, hinv', hproducers, hconsumer'⟩ :=
        hinv.tryPop_some moved hidle hconsumer (by simp [hleft])
      -- The value that came out is the first that waited.
      have hvalues := hinv'.values
      have hnone : exchanges [(Output.popped value' : Output T π)] = [] := rfl
      have hnew : popped [(Output.popped value' : Output T π)] = [value'] := rfl
      rw [exchanges_append, popped_append, hnone, hnew, List.append_nil, hinv.values, hleft,
        List.append_assoc] at hvalues
      have hsame := List.append_cancel_left hvalues
      rw [List.singleton_append, List.cons.injEq] at hsame
      rcases hsame with ⟨rfl, hrest⟩
      have hdrained := ih hinv' (by rw [hproducers]; exact hidle) hconsumer' hrest.symm
      rw [List.length_cons, Nat.add_right_comm, tryPops_succ, Machine.run_append, hrun, hdrained]
      rfl

end Inv

end MpscQueue

end SimCme
