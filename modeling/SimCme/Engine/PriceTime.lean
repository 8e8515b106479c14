import SimCme.Engine.BookRuns
import SimCme.Library.Allocation
import Mathlib.Data.List.Pairwise
import Mathlib.Data.List.Sort

/-!
# Price-time priority

The reference is one line: rank the resting orders of the opposite half by price
and then by entry time, and serve the taker from that list greedily.  The book
keeps no entry times; it keeps queues.  This file proves that the queues hold
the orders in the order of their entries along every run, and that the nested
loops trade exactly what the greedy walk over the ranked orders allocates.

Main results:

- Theorem {lit}`entryOrdered_law`: queues stay in order of entry.
- Theorem {lit}`OrderBook.fillsOf_of_fills`: a chain of trades is the greedy walk over
  the queued orders.
- Theorem {lit}`price_time_of_run`: every addition and modification on every
  reachable book trades by price-time priority.
-/

namespace SimCme

open Library

/-! ## Entry times -/

/-- The report of the operation that enters an order into its queue. -/
def EngineEvent.enters (id : OrderId) : EngineEvent → Bool
  | .orderAccepted e => e.orderId = id
  | .orderModified e => e.orderId = id
  | _ => false

/-- The moment an order last entered a queue, as the position in the history of
the report of that operation, and 0 for an order that never did.  Fills do not
change it. -/
def entryTime (es : List EngineEvent) (id : OrderId) : Nat :=
  es.length - es.reverse.findIdx (EngineEvent.enters id)

theorem entryTime_le_length (es : List EngineEvent) (id : OrderId) :
    entryTime es id ≤ es.length :=
  Nat.sub_le _ _

theorem entryTime_concat_self {es : List EngineEvent} {e : EngineEvent} {id : OrderId}
    (henters : e.enters id = true) : entryTime (es ++ [e]) id = es.length + 1 := by
  simp [entryTime, List.findIdx_cons, henters]

theorem entryTime_concat_of_not {es : List EngineEvent} {e : EngineEvent} {id : OrderId}
    (henters : e.enters id = false) : entryTime (es ++ [e]) id = entryTime es id := by
  simp [entryTime, List.findIdx_cons, henters]

/-- Events that enter no order change no entry time. -/
theorem entryTime_append_of_not {es es' : List EngineEvent} {id : OrderId}
    (henters : ∀ e ∈ es', e.enters id = false) :
    entryTime (es ++ es') id = entryTime es id := by
  induction es' using List.reverseRecOn with
  | nil => simp
  | append_singleton es' e ih =>
      rw [← List.append_assoc, entryTime_concat_of_not (henters e (by simp))]
      exact ih fun e' he' => henters e' (by simp [he'])

/-- The entry time of the order behind a reference. -/
def enteredAt (es : List EngineEvent) (h : Heap Order) (r : OrderRef) : Nat :=
  entryTime es (h.read r).orderId

/-- Every queue holds its orders in order of entry, and the order in hand is the
latest. -/
structure EntryOrdered (hand : Option OrderRef) (es : List EngineEvent) (h : Heap Order)
    (b : OrderBook) : Prop where
  queue_ordered : ∀ s, ∀ e ∈ (b.levels s).entries,
    e.2.queue.Pairwise fun r r' => enteredAt es h r < enteredAt es h r'
  hand_latest : ∀ r, hand = some r → ∀ x, b.Resting x →
    enteredAt es h x < enteredAt es h r

namespace EntryOrdered

variable {hand hand' : Option OrderRef} {es es' : List EngineEvent} {h h' : Heap Order}
  {b b' : OrderBook} {r : OrderRef}

/-- The queues depend on the entry times of the resting orders only. -/
theorem congr_queues (hP : EntryOrdered hand es h b)
    (htime : ∀ x, b.Resting x → enteredAt es' h' x = enteredAt es h x)
    (hlatest : ∀ r, hand' = some r → ∀ x, b.Resting x →
      enteredAt es' h' x < enteredAt es' h' r) : EntryOrdered hand' es' h' b where
  queue_ordered s e he := by
    apply (hP.queue_ordered s e he).imp_of_mem
    intro x y hx hy hlt
    rw [htime x ⟨s, OrderBook.mem_queued_iff.mpr ⟨e, he, hx⟩⟩,
      htime y ⟨s, OrderBook.mem_queued_iff.mpr ⟨e, he, hy⟩⟩]
    exact hlt
  hand_latest := hlatest

/-- An edit keeps the order when it keeps the order of the edited queue. -/
theorem edit (hP : EntryOrdered hand es h b) {e : LevelEdit} (he : e.Applies b b')
    (hnew : ∀ level, e.new = some level →
      level.queue.Pairwise fun r r' => enteredAt es h r < enteredAt es h r')
    (hlatest : ∀ r, hand' = some r → ∀ x, b'.Resting x →
      enteredAt es h x < enteredAt es h r) : EntryOrdered hand' es h b' where
  queue_ordered s x hx := by
    rcases BookSide.eq_or_eq_opposite e.side s with rfl | rfl
    · rw [he.after] at hx
      simp only [LevelEdit.entries, List.mem_append, List.mem_map, Option.mem_toList] at hx
      have hold : ∀ y ∈ e.pre ++ e.post,
          y.2.queue.Pairwise fun r r' => enteredAt es h r < enteredAt es h r' := by
        intro y hy
        apply hP.queue_ordered e.side y
        rw [he.before]
        simp only [LevelEdit.entries, List.mem_append] at hy ⊢
        tauto
      rcases hx with (hx | ⟨level, hlevel, rfl⟩) | hx
      · exact hold x (List.mem_append_left _ hx)
      · exact hnew level hlevel
      · exact hold x (List.mem_append_right _ hx)
    · rw [he.opposite] at hx
      exact hP.queue_ordered _ x hx
  hand_latest := hlatest

/-- Taking an order out of the book. -/
theorem removeFromBook (hP : EntryOrdered none es h b) (hinv : BookInv h b)
    (hr : b.Resting r) : EntryOrdered none es h (b.removeFromBook h r).1 := by
  rcases OrderBook.removeFromBook_spec hinv hr with ⟨e, level, he⟩
  apply hP.edit he.applies
  · intro left hleft
    have hmem : (e.price, level) ∈ (b.levels e.side).entries := by
      rw [he.applies.before, he.old_eq]
      simp [LevelEdit.entries]
    have hqueue : left.queue = level.queue.erase r := by
      have hnew := he.levelQueue_new
      rw [hleft] at hnew
      exact hnew
    rw [hqueue]
    exact (hP.queue_ordered _ _ hmem).sublist List.erase_sublist
  · intro x hx
    contradiction

/-- The report that enters an order in flight makes it the latest. -/
theorem enter_hand (hP : EntryOrdered none es h b) (hinv : BookInv h b)
    (hflight : InFlight h b r) {e : EngineEvent}
    (henters : ∀ id, e.enters id = decide ((h.read r).orderId = id)) :
    EntryOrdered (some r) (es ++ [e]) h b := by
  have htime : ∀ x, b.Resting x → enteredAt (es ++ [e]) h x = enteredAt es h x := by
    intro x hx
    apply entryTime_concat_of_not
    rw [henters]
    exact decide_eq_false (hinv.orderId_ne_of_inFlight hflight hx).symm
  apply hP.congr_queues htime
  intro r' hr' x hx
  cases hr'
  rw [htime x hx]
  have hself : enteredAt (es ++ [e]) h r = es.length + 1 :=
    entryTime_concat_self (by simp [henters])
  rw [hself]
  exact Nat.lt_succ_of_le (entryTime_le_length es _)

/-- Events that enter no order. -/
theorem append_other (hP : EntryOrdered hand es h b)
    (hother : ∀ e ∈ es', ∀ id, e.enters id = false) : EntryOrdered hand (es ++ es') h b := by
  have htime : ∀ x, enteredAt (es ++ es') h x = enteredAt es h x := by
    intro x
    exact entryTime_append_of_not fun e he => hother e he _
  apply hP.congr_queues fun x _ => htime x
  intro r hr x hx
  rw [htime, htime]
  exact hP.hand_latest r hr x hx

/-- Rewriting orders under their ids, with the same order in hand or none. -/
theorem congr_heap (hP : EntryOrdered hand es h b)
    (hid : ∀ x, (h'.read x).orderId = (h.read x).orderId) : EntryOrdered hand es h' b := by
  have htime : ∀ x, enteredAt es h' x = enteredAt es h x := by
    intro x
    unfold enteredAt
    rw [hid]
  apply hP.congr_queues fun x _ => htime x
  intro r hr x hx
  rw [htime, htime]
  exact hP.hand_latest r hr x hx

theorem drop_hand (hP : EntryOrdered hand es h b) : EntryOrdered none es h b :=
  ⟨hP.queue_ordered, fun _ hr => by contradiction⟩

end EntryOrdered

/-- Queues stay in order of entry. -/
theorem entryOrdered_law : BookLaw (fun _ _ => True) EntryOrdered where
  refused _ _ hP := hP.append_other (by simp [EngineEvent.enters])
  rejected := by
    intro es h b o e hinv _ _ hP
    have halloc : EntryOrdered none es (h.alloc o) b := by
      apply hP.congr_queues
      · intro x hx
        simp [enteredAt, h.read_alloc_of_ne o (hinv.allocated x hx).ne]
      · intro r hr
        contradiction
    exact halloc.append_other (by simp [EngineEvent.enters])
  accepted := by
    intro es h b o hinv hfresh _ hP
    have halloc : EntryOrdered none es (h.alloc o) b := by
      apply hP.congr_queues
      · intro x hx
        simp [enteredAt, h.read_alloc_of_ne o (hinv.allocated x hx).ne]
      · intro r hr
        contradiction
    apply halloc.enter_hand (hinv.alloc o) (hinv.inFlight_alloc hfresh)
    intro id
    rw [h.read_alloc_next]
    rfl
  withdrawn := by
    intro es h b r hinv hr _ hP
    rcases OrderBook.removeFromBook_spec hinv hr with ⟨e, level, he⟩
    have hremoved := (hP.removeFromBook hinv hr).congr_heap
      ((b.removeFromBook h r).1.cancelRest_read Order.orderId (fun _ => rfl) h r)
    apply hremoved.append_other
    rw [he.events_eq]
    simp [EngineEvent.enters, OrderBook.cancelRest, OrderBook.cancelledEvent]
  replaced := by
    intro es h b r newPrice newQty newClOrdId hinv hr _ hP
    rcases OrderBook.removeFromBook_spec hinv hr with ⟨e, level, he⟩
    rcases hinv.modified hr newPrice newQty newClOrdId with ⟨hinv', hflight'⟩
    have hreported : EntryOrdered none (es ++ (b.removeFromBook h r).2) h
        (b.removeFromBook h r).1 := by
      apply (hP.removeFromBook hinv hr).append_other
      rw [he.events_eq]
      simp [EngineEvent.enters]
    have hrewritten : EntryOrdered none (es ++ (b.removeFromBook h r).2)
        (h.modify r fun o => OrderBook.modifiedOrder o newPrice newQty newClOrdId)
        (b.removeFromBook h r).1 := by
      apply hreported.congr_heap
      exact OrderBook.modified_read Order.orderId (fun _ => rfl) h r
    rw [← List.append_assoc]
    apply hrewritten.enter_hand hinv' hflight'
    intro id
    rw [h.read_modify_self]
    rfl
  traded := by
    intro es h b t hinv hflight f hP
    have hedited : EntryOrdered (some t) es h f.book := by
      apply hP.edit f.applies
      · intro level hlevel
        have hmem : (f.price, f.level) ∈ (b.levels
            (OrderBook.takerSide (h.read t))).entries := by
          simp [f.entries_eq]
        have hqueue : level.queue = if f.completes then f.queue else f.level.queue := by
          have hnew := f.levelQueue_new
          rw [hlevel] at hnew
          exact hnew
        have hordered := hP.queue_ordered _ _ hmem
        rw [hqueue]
        split
        · rw [f.queue_eq] at hordered
          exact (List.pairwise_cons.mp hordered).2
        · exact hordered
      · intro r hr x hx
        exact hP.hand_latest r hr x ((f.resting_iff hinv x).mp hx).1
    apply (hedited.congr_heap f.read_orderId).append_other
    simp [OrderBook.Fill.events, EngineEvent.enters]
  entered := by
    intro es h b r hinv hflight _ _ _ hP
    rcases OrderBook.insertResting_spec b h r with ⟨e, he⟩
    have hedited : EntryOrdered none es h (b.insertResting h r).1 := by
      apply hP.edit he.applies
      · intro level hlevel
        rw [he.new_eq] at hlevel
        cases hlevel
        cases hold : e.old with
        | none => simp [PriceLevel.addOrder]
        | some old =>
            have hmem : (e.price, old) ∈ (b.levels e.side).entries := by
              rw [he.applies.before, hold]
              simp [LevelEdit.entries]
            simp only [PriceLevel.addOrder, Option.getD_some]
            rw [List.pairwise_append]
            refine ⟨hP.queue_ordered _ _ hmem, List.pairwise_singleton _ _, ?_⟩
            intro x hx y hy
            rw [List.mem_singleton.mp hy]
            exact hP.hand_latest r rfl x
              ⟨e.side, OrderBook.mem_queued_iff.mpr ⟨_, hmem, hx⟩⟩
      · intro x hx
        contradiction
    apply hedited.append_other
    rw [he.events_eq]
    simp [EngineEvent.enters]
  cancelled := by
    intro es h b r _ _ _ hP
    have hread := b.cancelRest_read Order.orderId (fun _ => rfl) h r
    apply (hP.drop_hand.congr_heap hread).append_other
    simp [EngineEvent.enters, OrderBook.cancelRest, OrderBook.cancelledEvent]
  dropped _ _ _ hP := hP.drop_hand

/-! ## The greedy reference -/

/-- A view of the fills of a history. -/
def fillsOf {β : Type} (view : OrderFilled → β) (es : List EngineEvent) : List β :=
  es.filterMap fun
    | .orderFilled e => some (view e)
    | _ => none

@[simp]
theorem fillsOf_append {β : Type} (view : OrderFilled → β) (es es' : List EngineEvent) :
    fillsOf view (es ++ es') = fillsOf view es ++ fillsOf view es' :=
  List.filterMap_append

/-- The maker's side of the fills of a history: id, price and quantity. -/
def makerFills (es : List EngineEvent) : List (OrderId × Price × Int) :=
  fillsOf (fun e => (e.makerOrderId, e.tradePrice, e.tradeQty)) es

/-- Price-time priority on one half: a better price, or the same price and no
later entry. -/
def Ahead (es : List EngineEvent) (h : Heap Order) (s : BookSide) (r r' : OrderRef) :
    Prop :=
  s.Better (h.read r).price (h.read r').price ∨
    (h.read r).price = (h.read r').price ∧ enteredAt es h r ≤ enteredAt es h r'

instance decidableAhead (es : List EngineEvent) (h : Heap Order) (s : BookSide) :
    DecidableRel (Ahead es h s) := fun r r' =>
  inferInstanceAs (Decidable (s.Better (h.read r).price (h.read r').price ∨
    (h.read r).price = (h.read r').price ∧ enteredAt es h r ≤ enteredAt es h r'))

instance totalAhead (es : List EngineEvent) (h : Heap Order) (s : BookSide) :
    Std.Total (Ahead es h s) where
  total r r' := by
    rcases trichotomous_of s.Better (h.read r).price (h.read r').price with hlt | heq | hgt
    · exact Or.inl (Or.inl hlt)
    · rcases le_total (enteredAt es h r) (enteredAt es h r') with hle | hle
      · exact Or.inl (Or.inr ⟨heq, hle⟩)
      · exact Or.inr (Or.inr ⟨heq.symm, hle⟩)
    · exact Or.inr (Or.inl hgt)

instance transAhead (es : List EngineEvent) (h : Heap Order) (s : BookSide) :
    IsTrans OrderRef (Ahead es h s) where
  trans a b c hab hbc := by
    rcases hab with hab | ⟨hab, htab⟩
    · rcases hbc with hbc | ⟨hbc, -⟩
      · exact Or.inl (trans_of s.Better hab hbc)
      · exact Or.inl (hbc ▸ hab)
    · rcases hbc with hbc | ⟨hbc, htbc⟩
      · exact Or.inl (hab ▸ hbc)
      · exact Or.inr ⟨hab.trans hbc, le_trans htab htbc⟩

/-- The resting orders of one half, ranked by price and then by entry time. -/
def ranked (es : List EngineEvent) (h : Heap Order) (b : OrderBook) (s : BookSide) :
    List OrderRef :=
  ((List.range h.next).filter fun r => r ∈ b.queued s).insertionSort (Ahead es h s)

/-- Whether a taker trades with a resting order. -/
def crosses (h : Heap Order) (taker : Order) (r : OrderRef) : Bool :=
  !OrderBook.takerStop taker (h.read r).price

/-- The greedy reference: walk the ranked orders of the opposite half while they
are within the taker's limit and the taker wants quantity. -/
def greedyFills (es : List EngineEvent) (s : BookState) (taker : Order) :
    List (OrderId × Price × Int) :=
  (allocate (crosses s.heap taker) (fun r => (s.heap.read r).remainingQty)
    taker.remainingQty (ranked es s.heap s.book (OrderBook.takerSide taker))).map
      fun x => ((s.heap.read x.1).orderId, (s.heap.read x.1).price, x.2)

/-- The queued orders of a half are ranked already. -/
theorem EntryOrdered.queued_pairwise {hand : Option OrderRef} {es : List EngineEvent}
    {h : Heap Order} {b : OrderBook} (hP : EntryOrdered hand es h b) (hinv : BookInv h b)
    (s : BookSide) : (b.queued s).Pairwise fun r r' => ¬Ahead es h s r' r := by
  unfold OrderBook.queued
  rw [List.pairwise_flatMap]
  constructor
  · intro e he
    apply (hP.queue_ordered s e he).imp_of_mem
    intro x y hx hy hlt hahead
    have hprice : (h.read y).price = (h.read x).price := by
      rw [(hinv.level_inv s e he).order_price x hx, (hinv.level_inv s e he).order_price y hy]
    rcases hahead with hbetter | ⟨-, hle⟩
    · rw [hprice] at hbetter
      exact irrefl_of s.Better _ hbetter
    · omega
  · apply (b.levels s).sorted.imp_of_mem
    intro e e' he he' hlt x hx y hy hahead
    rw [← (hinv.level_inv s e he).order_price x hx,
      ← (hinv.level_inv s e' he').order_price y hy] at hlt
    rcases hahead with hbetter | ⟨heq, -⟩
    · exact asymm_of s.Better hlt hbetter
    · rw [heq] at hlt
      exact irrefl_of s.Better _ hlt

/-- Ranking the resting orders of a half gives its queues, level by level. -/
theorem EntryOrdered.ranked_eq {hand : Option OrderRef} {es : List EngineEvent}
    {h : Heap Order} {b : OrderBook} (hP : EntryOrdered hand es h b) (hinv : BookInv h b)
    (s : BookSide) : ranked es h b s = b.queued s := by
  have hpairwise := hP.queued_pairwise hinv s
  have hperm : (ranked es h b s).Perm (b.queued s) := by
    refine (List.perm_insertionSort _ _).trans ?_
    rw [List.perm_ext_iff_of_nodup (List.nodup_range.filter _) (hinv.queued_nodup s)]
    intro r
    rw [List.mem_filter, List.mem_range, decide_eq_true_eq]
    exact ⟨fun hr => hr.2, fun hr => ⟨hinv.allocated r ⟨s, hr⟩, hr⟩⟩
  have hsorted : (ranked es h b s).Pairwise (Ahead es h s) :=
    List.pairwise_insertionSort _ _
  refine hperm.eq_of_pairwise ?_ hsorted ?_
  · intro r r' hr hr' hahead hahead'
    by_contra hne
    -- Two queued orders are never both ahead of each other.
    have hsymm : Std.Symm fun a b => ¬(Ahead es h s a b ∧ Ahead es h s b a) :=
      ⟨fun a b hab hba => hab hba.symm⟩
    have hstrict : (b.queued s).Pairwise fun a b => ¬(Ahead es h s a b ∧ Ahead es h s b a) :=
      hpairwise.imp fun hnot hboth => hnot hboth.2
    exact hstrict.forall (hperm.mem_iff.mp hr) hr' hne ⟨hahead, hahead'⟩
  · apply hpairwise.imp
    intro r r' hnot
    exact (total_of (Ahead es h s) r r').resolve_right hnot

/-! ## The loops serve the taker greedily -/

namespace OrderBook

/-- What the greedy walk over resting orders allocates to a taker, each allocation
seen through {lit}`key`. -/
def offerFills {β : Type} (key : Order → Int → β) (stop : Price → Bool) (h : Heap Order)
    (need : Int) (offers : List OrderRef) : List β :=
  (allocate (fun r => !stop (h.read r).price) (fun r => (h.read r).remainingQty) need
    offers).map fun x => key (h.read x.1) x.2

/-- A view of fills shows what a key shows of the maker and the quantity. -/
def Shows {β : Type} (view : OrderFilled → β) (key : Order → Int → β) : Prop :=
  ∀ (b : OrderBook) (h : Heap Order) (taker maker : OrderRef),
    view (b.tradedFill h (h.read maker).price taker maker) =
      key (h.read maker) (tradeQty h taker maker)

variable {s : BookSide} {stop : Price → Bool} {taker : OrderRef} {h h' : Heap Order}
  {b b' : OrderBook} {events : List EngineEvent} {need : Int} {β : Type}
  {view : OrderFilled → β} {key : Order → Int → β}

/-- The walk reads its offers only. -/
theorem offerFills_congr {offers : List OrderRef}
    (hread : ∀ r ∈ offers, h'.read r = h.read r) :
    offerFills key stop h' need offers = offerFills key stop h need offers := by
  unfold offerFills
  have hwalk : allocate (fun r => !stop (h'.read r).price)
      (fun r => (h'.read r).remainingQty) need offers =
      allocate (fun r => !stop (h.read r).price) (fun r => (h.read r).remainingQty) need
        offers := by
    apply allocate_congr
    · intro r hr
      rw [hread r hr]
    · intro r hr
      rw [hread r hr]
  rw [hwalk]
  apply List.map_congr_left
  intro x hx
  rw [hread x.1 (mem_allocate hx).1]

theorem offerFills_of_nonpos (hneed : need ≤ 0) (offers : List OrderRef) :
    offerFills key stop h need offers = [] := by
  unfold offerFills
  rw [allocate_of_nonpos hneed]
  rfl

/-- Nothing is allocated from a half that is beyond the limit. -/
theorem offerFills_of_stop (hinv : BookInv h b)
    (hstop : ∀ e ∈ (b.levels s).entries, stop e.1 = true) :
    offerFills key stop h need (b.queued s) = [] := by
  unfold offerFills
  cases hqueued : b.queued s with
  | nil => rfl
  | cons r queue =>
      have hr : r ∈ b.queued s := by simp [hqueued]
      rcases mem_queued_iff.mp hr with ⟨e, he, hqueue⟩
      have hprice := (hinv.level_inv s e he).order_price r hqueue
      have hbeyond := hstop e he
      rw [← hprice] at hbeyond
      simp [allocate, hbeyond]

/-- One trade takes what the walk takes from the order in front, and leaves the
rest of the walk. -/
theorem Fill.offerFills_eq (f : Fill s stop taker h b) (hinv : BookInv h b)
    (hflight : InFlight h b taker) :
    offerFills key stop h (h.read taker).remainingQty (b.queued s) =
      key (h.read f.maker) f.qty ::
        offerFills key stop f.heap (f.heap.read taker).remainingQty (f.book.queued s) := by
  rcases f.queued_eq with ⟨hbefore, hafter⟩
  have hprice := (f.level_inv hinv).order_price f.maker (by simp [f.queue_eq])
  have hleft := f.remainingQty_taker
  have hwalk : offerFills key stop h (h.read taker).remainingQty (b.queued s) =
      key (h.read f.maker) f.qty ::
        offerFills key stop h ((h.read taker).remainingQty - f.qty)
          (f.queue ++ f.rest.flatMap fun e => e.2.queue) := by
    have hpos := f.taker_pos
    unfold offerFills
    rw [hbefore, allocate, if_neg (by omega), if_pos (by simp [hprice, f.not_stop])]
    simp only [List.map_cons]
    rfl
  rw [hwalk, hleft, hafter]
  congr 1
  by_cases hfull : f.completes
  · rw [if_pos hfull]
    symm
    exact offerFills_congr (f.read_behind hinv hflight)
  · -- The maker is left, so the taker took all it wanted.
    have hlt := mt f.completes_iff.mpr hfull
    have hzero : (h.read taker).remainingQty - f.qty ≤ 0 := by
      unfold Fill.qty tradeQty
      omega
    rw [offerFills_of_nonpos hzero, offerFills_of_nonpos hzero]

/-- What a view shows of one trade. -/
theorem Fill.fillsOf_events (hshows : Shows view key) (f : Fill s stop taker h b)
    (hinv : BookInv h b) : fillsOf view f.events = [key (h.read f.maker) f.qty] := by
  have hprice := (f.level_inv hinv).order_price f.maker (by simp [f.queue_eq])
  rw [Fill.qty, ← hshows b, hprice]
  rfl

/-- A chain of trades that runs until the taker is done or the half is beyond its
limit is the greedy walk over the queues. -/
theorem fillsOf_of_fills (hshows : Shows view key)
    (hfills : Fills s stop taker h b events h' b') (hinv : BookInv h b)
    (hflight : InFlight h b taker)
    (hdone : (h'.read taker).remainingQty ≤ 0 ∨
      ∀ e ∈ (b'.levels s).entries, stop e.1 = true) :
    fillsOf view events = offerFills key stop h (h.read taker).remainingQty (b.queued s) := by
  induction hfills with
  | done h b =>
      rcases hdone with hdone | hdone
      · rw [offerFills_of_nonpos hdone]
        rfl
      · rw [offerFills_of_stop hinv hdone]
        rfl
  | trade f _ ih =>
      rw [f.offerFills_eq hinv hflight, fillsOf_append, f.fillsOf_events hshows hinv,
        ih (f.bookInv hinv hflight) (f.inFlight hflight) hdone]
      rfl

/-! ## Operations -/

theorem fillsOf_insertResting (view : OrderFilled → β) (b : OrderBook) (h : Heap Order)
    (r : OrderRef) :
    fillsOf view (b.insertResting h r).2 = [] := by
  rcases insertResting_spec b h r with ⟨e, he⟩
  rw [he.events_eq]
  rfl

/-- Nothing trades once matching is over. -/
theorem fillsOf_restOrder (view : OrderFilled → β) (b : OrderBook) (h : Heap Order)
    (r : OrderRef) :
    fillsOf view (b.restOrder h r).events = [] := by
  simp only [restOrder]
  split
  · rfl
  · split
    · rfl
    · split
      · exact fillsOf_insertResting view b h r
      · split
        · rfl
        · rfl

theorem fillsOf_reinsertOrder (view : OrderFilled → β) (b : OrderBook) (h : Heap Order)
    (r : OrderRef) :
    fillsOf view (b.reinsertOrder h r).events = [] := by
  simp only [reinsertOrder]
  split
  · exact fillsOf_insertResting view b h r
  · rfl

/-- Matching serves the order in hand from the opposite queues. -/
theorem fillsOf_matchOrder (hshows : Shows view key) (hinv : BookInv h b)
    (hflight : InFlight h b taker) :
    fillsOf view (b.matchOrder h taker).events =
      offerFills key (takerStop (h.read taker)) h (h.read taker).remainingQty
        (b.queued (takerSide (h.read taker))) := by
  rcases matchOrder_fills hinv hflight with ⟨hfills, hdone⟩
  exact fillsOf_of_fills hshows hfills hinv hflight hdone

theorem fillsOf_addOrder (hshows : Shows view key) {o : Order} (hinv : BookInv h b)
    (hfresh : FreshOrder h o)
    (haccepted : ¬(o.timeInForce = .fok ∧ b.canFillFOK o = false)) :
    fillsOf view (b.addOrder (h.alloc o) h.next).events =
      offerFills key (takerStop o) h o.remainingQty (b.queued (takerSide o)) := by
  have hmatched := fillsOf_matchOrder hshows (hinv.alloc o) (hinv.inFlight_alloc hfresh)
  have hrest := fillsOf_restOrder view (b.matchOrder (h.alloc o) h.next).book
    (b.matchOrder (h.alloc o) h.next).heap h.next
  rw [h.read_alloc_next] at hmatched
  simp only [addOrder]
  rw [h.read_alloc_next, if_neg haccepted]
  have hcons : ∀ es : List EngineEvent, fillsOf view (acceptedEvent o :: es) = fillsOf view es :=
    fun _ => rfl
  rw [List.cons_append, hcons, fillsOf_append, hrest, List.append_nil, hmatched]
  apply offerFills_congr
  intro r hr
  exact h.read_alloc_of_ne o (hinv.allocated r ⟨_, hr⟩).ne

theorem fillsOf_modifyOrder (hshows : Shows view key) {r : OrderRef} {orderId : OrderId}
    {newPrice : Price} {newQty : Int} {newClOrdId : ClOrdId} (hinv : BookInv h b)
    (hindexed : b.ordersById orderId = some r) :
    let o := modifiedOrder (h.read r) newPrice newQty newClOrdId
    fillsOf view (b.modifyOrder h orderId newPrice newQty newClOrdId).events =
      offerFills key (takerStop o) h o.remainingQty (b.queued (takerSide o)) := by
  have hr := ((hinv.indexed _ r).mp hindexed).1
  rcases removeFromBook_spec hinv hr with ⟨e, level, he⟩
  rcases hinv.modified hr newPrice newQty newClOrdId with ⟨hinv', hflight'⟩
  have hmatched := fillsOf_matchOrder hshows hinv' hflight'
  have hcons : ∀ (o : Order) (es : List EngineEvent),
      fillsOf view (modifiedEvent o newPrice newQty :: es) = fillsOf view es :=
    fun _ _ => rfl
  have hupdate : ∀ u, fillsOf view [.bookUpdate u] = [] := fun _ => rfl
  simp only [modifyOrder, hindexed, fillsOf_append, fillsOf_reinsertOrder,
    he.events_eq, hcons, hupdate, List.nil_append, List.append_nil]
  rw [hmatched, h.read_modify_self]
  -- The order left its own half, so the opposite queues are what they were.
  have hopposite : (b.removeFromBook h r).1.queued
      (takerSide (modifiedOrder (h.read r) newPrice newQty newClOrdId)) =
      b.queued (takerSide (modifiedOrder (h.read r) newPrice newQty newClOrdId)) := by
    have hside : takerSide (modifiedOrder (h.read r) newPrice newQty newClOrdId) =
        e.side.opposite := by
      rw [he.side_eq]
      rfl
    unfold queued
    rw [hside, he.applies.opposite]
  rw [hopposite]
  apply offerFills_congr
  intro x hx
  rw [h.read_modify_of_ne]
  rintro rfl
  exact hinv.not_mem_opposite (hinv.queued_of_resting hr) hx

end OrderBook

/-- The order an operation matches, as it stands when matching starts.  A
fill-or-kill order that the book cannot fill is not matched. -/
def BookOp.taker (s : BookState) : BookOp → Option Order
  | .add o =>
      if o.timeInForce = .fok ∧ s.book.canFillFOK o = false then none else some o
  | .cancel _ => none
  | .modify orderId newPrice newQty newClOrdId =>
      (s.book.ordersById orderId).map fun r =>
        OrderBook.modifiedOrder (s.heap.read r) newPrice newQty newClOrdId

/-- The fills of an operation serve the order it matches from the opposite queues. -/
theorem fillsOf_outcome {β : Type} {view : OrderFilled → β} {key : Order → Int → β}
    (hshows : OrderBook.Shows view key) {s : BookState} {op : BookOp}
    (hinv : BookInv s.heap s.book) (hfresh : op.Fresh s) :
    fillsOf view (s.outcome op).events = ((op.taker s).map fun o =>
      OrderBook.offerFills key (OrderBook.takerStop o) s.heap o.remainingQty
        (s.book.queued (OrderBook.takerSide o))).getD [] := by
  cases op with
  | add o =>
      by_cases hfok : o.timeInForce = .fok ∧ s.book.canFillFOK o = false
      · simp [BookState.outcome, OrderBook.addOrder, BookOp.taker, hfok, fillsOf]
      · simp only [BookOp.taker, if_neg hfok, Option.map_some, Option.getD_some]
        exact OrderBook.fillsOf_addOrder hshows hinv hfresh hfok
  | cancel orderId =>
      cases hindexed : s.book.ordersById orderId with
      | none => simp [BookState.outcome, OrderBook.cancelOrder, hindexed, BookOp.taker,
          fillsOf]
      | some r =>
          have hr := ((hinv.indexed _ r).mp hindexed).1
          rcases OrderBook.removeFromBook_spec hinv hr with ⟨e, level, he⟩
          simp [BookState.outcome, OrderBook.cancelOrder, hindexed, BookOp.taker,
            he.events_eq, fillsOf, OrderBook.cancelRest, OrderBook.cancelledEvent]
  | modify orderId newPrice newQty newClOrdId =>
      cases hindexed : s.book.ordersById orderId with
      | none => simp [BookState.outcome, OrderBook.modifyOrder, hindexed, BookOp.taker,
          fillsOf]
      | some r =>
          simp only [BookOp.taker, hindexed, Option.map_some, Option.getD_some]
          exact OrderBook.fillsOf_modifyOrder hshows hinv hindexed

/-- The fills of an operation are the greedy reference for the order it matches. -/
theorem makerFills_outcome {es : List EngineEvent} {s : BookState} {op : BookOp}
    (hP : EntryOrdered none es s.heap s.book) (hinv : BookInv s.heap s.book)
    (hfresh : op.Fresh s) :
    makerFills (s.outcome op).events = ((op.taker s).map (greedyFills es s)).getD [] := by
  have hgreedy : ∀ o : Order, greedyFills es s o =
      OrderBook.offerFills (fun m qty => (m.orderId, m.price, qty)) (OrderBook.takerStop o)
        s.heap o.remainingQty (s.book.queued (OrderBook.takerSide o)) := by
    intro o
    unfold greedyFills
    rw [hP.ranked_eq hinv]
    rfl
  have hshows : OrderBook.Shows (fun e => (e.makerOrderId, e.tradePrice, e.tradeQty))
      fun m qty => (m.orderId, m.price, qty) := fun _ _ _ _ => rfl
  have hfills := fillsOf_outcome hshows hinv hfresh
  simp only [← hgreedy] at hfills
  exact hfills

/-! ## Priority on every reachable book -/

/-- A list of fills serves a taker by price-time priority. -/
structure ServedByPriority (es : List EngineEvent) (s : BookState) (taker : Order)
    (fills : List (OrderId × Price × Int)) : Prop where
  greedy : fills = greedyFills es s taker
  /-- The taker gets all it wants, or everything it crosses. -/
  total : (fills.map fun x => x.2.2).sum =
    min (max taker.remainingQty 0)
      (((ranked es s.heap s.book (OrderBook.takerSide taker)).filter
        (crosses s.heap taker)).map fun r => (s.heap.read r).remainingQty).sum
  /-- Every order ranked before a maker is filled whole. -/
  no_trade_through : ∀ before x after, fills = before ++ x :: after →
    ∃ pre r post,
      ranked es s.heap s.book (OrderBook.takerSide taker) = pre ++ r :: post ∧
        x.1 = (s.heap.read r).orderId ∧
        before = pre.map fun r =>
          ((s.heap.read r).orderId, (s.heap.read r).price, (s.heap.read r).remainingQty)
  within_limit : ∀ x ∈ fills, OrderBook.takerStop taker x.2.1 = false

/-- The greedy reference has the properties of price-time priority. -/
theorem EntryOrdered.servedByPriority {hand : Option OrderRef} {es : List EngineEvent}
    {s : BookState} (hP : EntryOrdered hand es s.heap s.book)
    (hinv : BookInv s.heap s.book) (taker : Order) :
    ServedByPriority es s taker (greedyFills es s taker) := by
  have hranked := hP.ranked_eq hinv (OrderBook.takerSide taker)
  have hsize : ∀ r ∈ ranked es s.heap s.book (OrderBook.takerSide taker),
      0 < (s.heap.read r).remainingQty := by
    intro r hr
    rw [hranked] at hr
    exact hinv.remaining_pos_of_resting ⟨_, hr⟩
  have hmono : (ranked es s.heap s.book (OrderBook.takerSide taker)).Pairwise
      fun r r' => crosses s.heap taker r = false → crosses s.heap taker r' = false := by
    rw [hranked]
    apply (hP.queued_pairwise hinv (OrderBook.takerSide taker)).imp
    intro r r' hnot hstop
    have hahead := (total_of (Ahead es s.heap (OrderBook.takerSide taker)) r r').resolve_right hnot
    simp only [crosses, Bool.not_eq_false'] at hstop ⊢
    rcases hahead with hbetter | ⟨heq, -⟩
    · exact OrderBook.takerStop_mono _ _ hbetter hstop
    · rw [← heq]
      exact hstop
  refine ⟨rfl, ?_, ?_, ?_⟩
  · have hsum : ((allocate (crosses s.heap taker) (fun r => (s.heap.read r).remainingQty)
        taker.remainingQty (ranked es s.heap s.book (OrderBook.takerSide taker))).map
          Prod.snd).sum = _ := sum_allocate hsize
    rw [takeWhile_eq_filter hmono] at hsum
    rw [← hsum]
    simp [greedyFills, Function.comp_def]
  · intro before x after hsplit
    unfold greedyFills at hsplit
    rcases List.map_eq_append_iff.mp hsplit with ⟨before', rest, hwalk, rfl, hrest⟩
    rcases List.map_eq_cons_iff.mp hrest with ⟨y, after', rfl, rfl, -⟩
    rcases allocate_split hsize hwalk with ⟨pre, post, hsplit', rfl⟩
    refine ⟨pre, y.1, post, hsplit', rfl, ?_⟩
    simp [Function.comp_def]
  · intro x hx
    rcases List.mem_map.mp hx with ⟨y, hy, rfl⟩
    have hcrosses := (mem_allocate hy).2
    simpa [crosses] using hcrosses

theorem entryOrdered_empty (securityId : SecurityId) :
    EntryOrdered none [] (BookState.empty securityId).heap
      (BookState.empty securityId).book where
  queue_ordered s e he := by
    cases s <;> simp [BookState.empty, OrderBook.levels] at he
  hand_latest r hr := by contradiction

/-- On every reachable book, an addition or a modification that matches an order
serves it by price-time priority, and any other call trades nothing. -/
theorem price_time_of_run (securityId : SecurityId) (ops : List BookOp) (op : BookOp)
    (hadmits : BookState.machine.Admits (fun s op => op.Fresh s) (.empty securityId)
      (ops ++ [op])) :
    let r := BookState.machine.run (.empty securityId) ops
    let fills := makerFills (r.1.outcome op).events
    (∀ taker, op.taker r.1 = some taker → ServedByPriority r.2 r.1 taker fills) ∧
      (op.taker r.1 = none → fills = []) := by
  rcases (Machine.admits_concat _ _ _ ops op).mp hadmits with ⟨hops, hop⟩
  have hrun := entryOrdered_law.run (BookInv.empty .empty securityId)
    (entryOrdered_empty securityId) (hops.mono fun s op hop => ⟨hop, trivial⟩)
  have hfills := makerFills_outcome hrun.1 hrun.2 hop
  constructor
  · intro taker htaker
    rw [htaker] at hfills
    simp only [Option.map_some, Option.getD_some] at hfills
    simp only [hfills]
    exact hrun.1.servedByPriority hrun.2 taker
  · intro htaker
    rw [htaker] at hfills
    exact hfills

/-- A bid is moved up through two orders of one ask level and into the next. -/
theorem price_time_of_moved_bid :
    let ops : List BookOp :=
      [.add { orderId := 1, side := .sell, price := ⟨101⟩, quantity := 4 },
        .add { orderId := 2, side := .sell, price := ⟨100⟩, quantity := 3 },
        .add { orderId := 3, side := .sell, price := ⟨100⟩, quantity := 2 },
        .add { orderId := 4, side := .buy, price := ⟨99⟩, quantity := 7 }]
    let op : BookOp := .modify 4 ⟨101⟩ 7 []
    let r := BookState.machine.run (.empty 7) ops
    let fills := makerFills (r.1.outcome op).events
    (∀ taker, op.taker r.1 = some taker → ServedByPriority r.2 r.1 taker fills) ∧
      (op.taker r.1 = none → fills = []) :=
  price_time_of_run 7 _ _ (by decide)

/-- The greedy reference serves a fill-or-kill order that the book cannot fill;
the book trades nothing for it. -/
theorem unfillable_fok_not_greedy :
    let ops : List BookOp := [.add { orderId := 1, side := .sell, price := ⟨100⟩, quantity := 5 }]
    let o : Order :=
      { orderId := 2, side := .buy, price := ⟨100⟩, quantity := 10, timeInForce := .fok }
    let r := BookState.machine.run (.empty 7) ops
    BookState.machine.Admits (fun s op => op.Fresh s) (.empty 7) (ops ++ [.add o]) ∧
      makerFills (r.1.outcome (.add o)).events = [] ∧
      greedyFills r.2 r.1 o = [(1, ⟨100⟩, 5)] := by
  decide

end SimCme
