import SimCme.Engine.Coverage
import SimCme.Engine.EngineRuns
import Mathlib.Algebra.Order.BigOperators.Group.List

/-!
# The quantity arithmetic of a book

Quantities are 32-bit integers in the source and integers here, so the model follows
the source as long as no result leaves the 32-bit range.  This file instruments the
operations of a book: each function of the source has a companion that lists the
results of its quantity arithmetic in order, on the states the operation itself goes
through.  Comparisons compute nothing.

An order in the book is harmless as long as it was filled by what it holds, and a
level as long as its total fits.  Two things can break this: a modification below what
an order has been filled by, and an order that joins a level with no room for it.

Main results:

- Theorem {lit}`contained_law`: quantities stay within range as long as the orders that
  come to rest find room.
- Theorem {lit}`ints_outcome`: every result of such a call is within range.
-/

namespace SimCme

open Library

/-- The range of a 32-bit quantity. -/
def InRange (i : Int) : Prop :=
  -2 ^ 31 ≤ i ∧ i ≤ 2 ^ 31 - 1

instance (i : Int) : Decidable (InRange i) :=
  inferInstanceAs (Decidable (-2 ^ 31 ≤ i ∧ i ≤ 2 ^ 31 - 1))

/-! ## Results of the arithmetic -/

namespace PriceLevel

def addOrderInts (level : PriceLevel) (h : Heap Order) (order : OrderRef) : List Int :=
  [(h.read order).remainingQty, level.totalQuantity + (h.read order).remainingQty]

def removeOrderInts (level : PriceLevel) (h : Heap Order) (order : OrderRef) : List Int :=
  [(h.read order).remainingQty, level.totalQuantity - (h.read order).remainingQty]

end PriceLevel

namespace OrderBook

def executeTradeInts (h : Heap Order) (maker taker : OrderRef) (tradeQty : Int) : List Int :=
  let h' := h.modify maker fun o => { o with filledQty := o.filledQty + tradeQty }
  [(h.read maker).filledQty + tradeQty, (h'.read taker).filledQty + tradeQty]

/-- The body of the inner loop: the minimum, the trade, the total of the level, the
removal of a filled maker and the two quantities left in the fill report. -/
def matchFrontInts (tradePrice : Price) (taker maker : OrderRef) (level : PriceLevel)
    (h : Heap Order) (b : OrderBook) : List Int :=
  let tradeQty := min (h.read taker).remainingQty (h.read maker).remainingQty
  let executed := b.executeTrade h maker taker tradePrice tradeQty
  let traded := { level with totalQuantity := level.totalQuantity - tradeQty }
  [(h.read taker).remainingQty, (h.read maker).remainingQty] ++
    executeTradeInts h maker taker tradeQty ++ [traded.totalQuantity] ++
    (if (executed.heap.read maker).isFullyFilled then
      traded.removeOrderInts executed.heap maker
    else []) ++
    [(executed.heap.read maker).remainingQty, (executed.heap.read taker).remainingQty]

/-- The inner loop, with the test of its condition before every turn and at the end. -/
def matchQueueInts (s : BookSide) (tradePrice : Price) (taker : OrderRef) :
    List OrderRef → PriceLevel → Heap Order → OrderBook → List Int
  | [], _, _, _ => []
  | maker :: queue, level, h, b =>
      (h.read taker).remainingQty ::
        if (h.read taker).remainingQty > 0 then
          let r := matchFront s tradePrice taker maker level h b
          matchFrontInts tradePrice taker maker level h b ++
            if (r.heap.read maker).isFullyFilled then
              matchQueueInts s tradePrice taker queue r.level r.heap r.book
            else [(r.heap.read taker).remainingQty]
        else []

/-- The outer loop, with the test of its condition. -/
def matchLevelsInts (s : BookSide) (stop : Price → Bool) (taker : OrderRef) :
    List (Price × PriceLevel) → Heap Order → OrderBook → List Int
  | [], _, _ => []
  | (tradePrice, level) :: rest, h, b =>
      (h.read taker).remainingQty ::
        if (h.read taker).remainingQty > 0 then
          if stop tradePrice then []
          else
            let r := matchQueue s tradePrice taker level.queue level h b
            matchQueueInts s tradePrice taker level.queue level h b ++
              matchLevelsInts s stop taker rest r.heap
                (r.book.eraseIfEmpty s tradePrice r.level)
        else []

def matchOrderInts (b : OrderBook) (h : Heap Order) (order : OrderRef) : List Int :=
  let o := h.read order
  let s := o.side.bookSide.opposite
  if o.orderType = .market then
    matchLevelsInts s (fun _ => false) order (b.levels s).entries h b
  else matchLevelsInts s (limitStop s o.price) order (b.levels s).entries h b

/-- The running need of the fill-or-kill check. -/
def canFillLevelsInts (stop : Price → Bool) : Int → List (Price × PriceLevel) → List Int
  | _, [] => []
  | needed, (price, level) :: rest =>
      if stop price then []
      else
        (needed - level.totalQuantity) ::
          if needed - level.totalQuantity ≤ 0 then []
          else canFillLevelsInts stop (needed - level.totalQuantity) rest

def canFillFOKInts (b : OrderBook) (order : Order) : List Int :=
  let s := order.side.bookSide.opposite
  canFillLevelsInts
    (fun price => order.orderType = .limit && limitStop s order.price price)
    order.quantity (b.levels s).entries

def insertRestingInts (b : OrderBook) (h : Heap Order) (order : OrderRef) : List Int :=
  let o := h.read order
  (((b.levels o.side.bookSide).find? o.price).getD {}).addOrderInts h order

def removeFromBookInts (b : OrderBook) (h : Heap Order) (order : OrderRef) : List Int :=
  let o := h.read order
  match (b.levels o.side.bookSide).find? o.price with
  | none => []
  | some level => level.removeOrderInts h order

/-- Only an order that enters a level is added to a total. -/
def restOrderInts (b : OrderBook) (h : Heap Order) (order : OrderRef) : List Int :=
  let o := h.read order
  if o.isFullyFilled then []
  else if o.timeInForce = .ioc ∨ o.timeInForce = .fok then []
  else if o.orderType = .limit then b.insertRestingInts h order
  else []

def addOrderInts (b : OrderBook) (h : Heap Order) (order : OrderRef) : List Int :=
  (if (h.read order).timeInForce = .fok then b.canFillFOKInts (h.read order) else []) ++
    if (h.read order).timeInForce = .fok ∧ b.canFillFOK (h.read order) = false then []
    else
      let matched := b.matchOrder h order
      b.matchOrderInts h order ++ matched.book.restOrderInts matched.heap order

def cancelOrderInts (b : OrderBook) (h : Heap Order) (orderId : OrderId) : List Int :=
  match b.ordersById orderId with
  | none => []
  | some order => b.removeFromBookInts h order

def reinsertOrderInts (b : OrderBook) (h : Heap Order) (order : OrderRef) : List Int :=
  let o := h.read order
  if o.isFullyFilled = false ∧ o.orderType = .limit then b.insertRestingInts h order else []

/-- The removal, the quantity left in the report, the matching and the insertion. -/
def modifyOrderInts (b : OrderBook) (h : Heap Order) (orderId : OrderId)
    (newPrice : Price) (newQty : Int) (newClOrdId : ClOrdId) : List Int :=
  match b.ordersById orderId with
  | none => []
  | some order =>
      let removed := b.removeFromBook h order
      let h' := h.modify order fun o => modifiedOrder o newPrice newQty newClOrdId
      let matched := removed.1.matchOrder h' order
      b.removeFromBookInts h order ++ [(h'.read order).remainingQty] ++
        removed.1.matchOrderInts h' order ++
        matched.book.reinsertOrderInts matched.heap order

end OrderBook

/-- The results of the quantity arithmetic of one call. -/
def BookState.ints (s : BookState) : BookOp → List Int
  | .add o => s.book.addOrderInts (s.heap.alloc o) s.heap.next
  | .cancel orderId => s.book.cancelOrderInts s.heap orderId
  | .modify orderId newPrice newQty newClOrdId =>
      s.book.modifyOrderInts s.heap orderId newPrice newQty newClOrdId

/-- The results of the quantity arithmetic of one request. -/
def FullMatchingEngine.ints (e : FullMatchingEngine) (op : EngineOp) : List Int :=
  match e.route op with
  | none => []
  | some (s, bop) => (e.bookState s).ints bop

/-! ## Quantities that stay within range -/

/-- An order that was filled, if at all, by a quantity within range. -/
structure Order.Sized (o : Order) : Prop where
  filled_nonneg : 0 ≤ o.filledQty
  quantity_le : o.quantity ≤ 2 ^ 31 - 1
  remaining_ge : -2 ^ 31 ≤ o.remainingQty

/-- The total of the level an order would join. -/
def OrderBook.joinedQty (b : OrderBook) (o : Order) : Int :=
  (((b.levels o.side.bookSide).find? o.price).map PriceLevel.totalQuantity).getD 0

/-- The orders held and the totals of the levels are within range, and there is room
for what the order in hand will bring to rest. -/
structure Contained (hand : Option OrderRef) (_ : List EngineEvent) (h : Heap Order)
    (b : OrderBook) : Prop where
  held : ∀ r, b.Resting r ∨ hand = some r → (h.read r).Sized
  total_le : ∀ s, ∀ e ∈ (b.levels s).entries, e.2.totalQuantity ≤ 2 ^ 31 - 1
  room : ∀ t, hand = some t → (h.read t).Restable →
    (h.read t).remainingQty - b.crossingQty h (h.read t) + b.joinedQty (h.read t) ≤
      2 ^ 31 - 1

/-- Calls whose orders are within range and find room where they come to rest.  An
order that is modified leaves its level first. -/
def BookOp.Fits (s : BookState) : BookOp → Prop
  | .add o =>
      0 < o.quantity ∧ o.quantity ≤ 2 ^ 31 - 1 ∧
        (o.Restable → o.remainingQty - s.book.crossingQty s.heap o + s.book.joinedQty o ≤
          2 ^ 31 - 1)
  | .cancel _ => True
  | .modify orderId newPrice newQty newClOrdId =>
      ∀ r ∈ s.book.ordersById orderId,
        let o := s.heap.read r
        let o' := OrderBook.modifiedOrder o newPrice newQty newClOrdId
        newQty ≤ 2 ^ 31 - 1 ∧ -2 ^ 31 ≤ newQty - o.filledQty ∧
          newQty - o.filledQty - s.book.crossingQty s.heap o' +
            (s.book.joinedQty o' - if newPrice = o.price then o.remainingQty else 0) ≤
              2 ^ 31 - 1

/-! ## Levels that are joined and left -/

/-- The totals of the levels after an edit. -/
theorem LevelEdit.Applies.total_le {e : LevelEdit} {b b' : OrderBook} {bound : Int}
    (he : e.Applies b b')
    (hbefore : ∀ s, ∀ x ∈ (b.levels s).entries, x.2.totalQuantity ≤ bound)
    (hnew : ∀ level ∈ e.new, level.totalQuantity ≤ bound) :
    ∀ s, ∀ x ∈ (b'.levels s).entries, x.2.totalQuantity ≤ bound := by
  intro s x hx
  rcases BookSide.eq_or_eq_opposite e.side s with rfl | rfl
  · have hold := hbefore e.side x
    rw [he.after, LevelEdit.entries, List.mem_append, List.mem_append] at hx
    rw [he.before, LevelEdit.entries, List.mem_append, List.mem_append] at hold
    rcases hx with (hx | hx) | hx
    · exact hold (Or.inl (Or.inl hx))
    · rcases List.mem_map.mp hx with ⟨level, hlevel, rfl⟩
      exact hnew level (Option.mem_toList.mp hlevel)
    · exact hold (Or.inr hx)
  · rw [he.opposite] at hx
    exact hbefore _ x hx

namespace OrderBook

variable {h : Heap Order} {b : OrderBook} {o : Order} {r t : OrderRef}

/-- Taking an order out takes its quantity out of the level it was in. -/
theorem joinedQty_removeFromBook (hinv : BookInv h b) (hr : b.Resting r)
    (hside : o.side = (h.read r).side) :
    (b.removeFromBook h r).1.joinedQty o =
      b.joinedQty o - if o.price = (h.read r).price then (h.read r).remainingQty else 0 := by
  rcases removeFromBook_spec hinv hr with ⟨e, level, he⟩
  have hold : e.old.isSome := by
    rw [he.old_eq]
    rfl
  have hbookSide : o.side.bookSide = e.side := by rw [he.side_eq, hside]
  unfold joinedQty
  rw [hbookSide, he.applies.find?_eq (Or.inl hold), ← he.price_eq]
  by_cases hp : o.price = e.price
  · have hshape := (he.applies.old_inv hinv he.old_eq).removeOrder he.queued
    have htotal : (level.removeOrder h r).totalQuantity =
        level.totalQuantity - (h.read r).remainingQty := rfl
    rw [if_pos hp, if_pos hp, hp, he.applies.find?_price (Or.inl hold), he.old_eq, he.new_eq]
    unfold PriceLevel.kept
    split
    · rename_i hempty
      have hsum := hshape.total_eq
      rw [(PriceLevel.empty_iff _).mp hempty] at hsum
      simp only [List.map_nil, List.sum_nil] at hsum
      simp only [Option.map_none, Option.getD_none, Option.map_some, Option.getD_some]
      omega
    · simp [htotal]
  · rw [if_neg hp, if_neg hp, sub_zero]

/-- A trade leaves the level its taker would join alone. -/
theorem Fill.joinedQty_eq {stop : Price → Bool} (f : Fill (takerSide o) stop t h b) :
    f.book.joinedQty o = b.joinedQty o := by
  have hopposite := f.applies.opposite
  have hside : f.edit.side.opposite = o.side.bookSide := by
    simp [Fill.edit, takerSide]
  rw [hside] at hopposite
  unfold joinedQty
  rw [hopposite]

end OrderBook

/-! ## The law -/

namespace Order.Sized

variable {o : Order} {qty : Int}

/-- A fill that takes no more than is left. -/
theorem fill (hsized : o.Sized) (hqty : 0 ≤ qty) (hle : qty ≤ o.remainingQty) :
    (o.fill qty).Sized where
  filled_nonneg := by
    have hfilled := hsized.filled_nonneg
    simp only [Order.fill]
    omega
  quantity_le := hsized.quantity_le
  remaining_ge := by
    rw [Order.remainingQty_fill]
    omega

theorem remaining_inRange (hsized : o.Sized) : InRange o.remainingQty := by
  have hfilled := hsized.filled_nonneg
  have hquantity := hsized.quantity_le
  refine ⟨hsized.remaining_ge, ?_⟩
  unfold Order.remainingQty
  omega

end Order.Sized

namespace Contained

variable {hand : Option OrderRef} {es es' : List EngineEvent} {h : Heap Order}
  {b : OrderBook} {r t : OrderRef} {o : Order}

/-- A new order object disturbs nothing. -/
theorem held_alloc (hP : Contained none es h b) (hinv : BookInv h b) :
    ∀ r, b.Resting r → ((h.alloc o).read r).Sized := by
  intro r hr
  rw [h.read_alloc_of_ne o (hinv.allocated r hr).ne]
  exact hP.held r (Or.inl hr)

/-- Leaving a level lowers its total. -/
theorem total_le_removeFromBook (hP : Contained hand es h b) (hinv : BookInv h b)
    (hr : b.Resting r) :
    ∀ s, ∀ e ∈ ((b.removeFromBook h r).1.levels s).entries,
      e.2.totalQuantity ≤ 2 ^ 31 - 1 := by
  rcases OrderBook.removeFromBook_spec hinv hr with ⟨e, level, he⟩
  apply he.applies.total_le hP.total_le
  intro level' hlevel'
  have hpos := hinv.remaining_pos_of_resting hr
  have hbefore : level.totalQuantity ≤ 2 ^ 31 - 1 :=
    hP.total_le e.side (e.price, level) (by
      rw [he.applies.before, he.old_eq]
      simp [LevelEdit.entries])
  rw [he.new_eq, PriceLevel.kept, Option.mem_def] at hlevel'
  split at hlevel'
  · contradiction
  · cases hlevel'
    simp only [PriceLevel.removeOrder]
    omega

/-- A trade. -/
theorem traded (hP : Contained (some t) es h b) (hinv : BookInv h b) (hflight : InFlight h b t)
    (f : OrderBook.Fill (OrderBook.takerSide (h.read t)) (OrderBook.takerStop (h.read t))
      t h b) : Contained (some t) es' f.heap f.book := by
  have hne := f.maker_ne_taker hinv hflight
  have hqty := f.qty_pos hinv
  have hle := And.intro f.qty_le_taker f.qty_le_maker
  refine ⟨?_, ?_, ?_⟩
  · intro x hx
    have hsized : (h.read x).Sized := by
      apply hP.held
      exact hx.imp_left fun hx => ((f.resting_iff hinv x).mp hx).1
    by_cases htaker : x = t
    · subst htaker
      rw [f.read_taker]
      exact hsized.fill hqty.le hle.1
    · by_cases hmaker : x = f.maker
      · subst hmaker
        rw [f.read_maker hne]
        exact hsized.fill hqty.le hle.2
      · rw [f.read_of_ne htaker hmaker]
        exact hsized
  · apply f.applies.total_le hP.total_le
    intro level hlevel
    have hbefore : f.level.totalQuantity ≤ 2 ^ 31 - 1 :=
      hP.total_le (OrderBook.takerSide (h.read t)) (f.price, f.level) (by simp [f.entries_eq])
    have hleft : level = f.left := by
      simp only [OrderBook.Fill.edit, PriceLevel.kept, Option.mem_def] at hlevel
      split at hlevel
      · contradiction
      · exact (Option.some.inj hlevel).symm
    rw [hleft, f.left_totalQuantity]
    omega
  · intro x hx hrestable
    cases hx
    have hroom := hP.room t rfl (by
      rw [← Order.field_of_terms Order.Restable (f.read_terms t) fun _ => rfl]
      exact hrestable)
    have hjoined : f.book.joinedQty (f.heap.read t) = b.joinedQty (h.read t) := by
      rw [Order.field_of_terms f.book.joinedQty (f.read_terms t) fun _ => rfl,
        f.joinedQty_eq]
    rw [f.crossingQty_eq hinv hflight, hjoined, f.remainingQty_taker]
    omega

end Contained

/-- Quantities stay within range as long as the calls fit. -/
theorem contained_law : BookLaw (fun s op => op.Fits s) Contained where
  refused _ _ hP := ⟨hP.held, hP.total_le, hP.room⟩
  rejected := by
    intro es h b o e hinv _ _ hP
    refine ⟨?_, hP.total_le, by simp⟩
    intro r hr
    exact hP.held_alloc hinv r (hr.resolve_right (by simp))
  accepted := by
    intro es h b o hinv hfresh hfits hP
    rcases hfits with ⟨hpos, hle, hroom⟩
    have hfilled := hfresh.1
    refine ⟨?_, hP.total_le, ?_⟩
    · intro r hr
      rcases hr with hr | hr
      · exact hP.held_alloc hinv r hr
      · cases hr
        rw [h.read_alloc_next]
        refine ⟨hfilled.ge, hle, ?_⟩
        unfold Order.remainingQty
        omega
    · intro t ht hrestable
      cases ht
      rw [h.read_alloc_next] at hrestable ⊢
      rw [OrderBook.crossingQty_alloc hinv]
      exact hroom hrestable
  withdrawn := by
    intro es h b r hinv hr _ hP
    refine ⟨?_, hP.total_le_removeFromBook hinv hr, by simp⟩
    intro x hx
    have hx' := (OrderBook.resting_removeFromBook hinv hr x).mp (hx.resolve_right (by simp))
    rw [OrderBook.cancelRest_read_of_ne _ h hx'.2]
    exact hP.held x (Or.inl hx'.1)
  replaced := by
    intro es h b r newPrice newQty newClOrdId hinv hr hfits hP
    rcases hfits r (hinv.indexed_of_resting hr) with ⟨hle, hge, hroom⟩
    refine ⟨?_, hP.total_le_removeFromBook hinv hr, ?_⟩
    · intro x hx
      by_cases hxr : x = r
      · subst hxr
        rw [h.read_modify_self]
        exact ⟨(hP.held x (Or.inl hr)).filled_nonneg, hle, hge⟩
      · rw [h.read_modify_of_ne _ hxr]
        rcases hx with hx | hx
        · exact hP.held x (Or.inl ((OrderBook.resting_removeFromBook hinv hr x).mp hx).1)
        · cases hx
          exact (hxr rfl).elim
    · intro t ht _
      cases ht
      have hside : (OrderBook.modifiedOrder (h.read r) newPrice newQty newClOrdId).side =
          (h.read r).side := rfl
      rw [h.read_modify_self, OrderBook.crossingQty_replace hinv hr hside,
        OrderBook.joinedQty_removeFromBook hinv hr hside]
      exact hroom
  traded := by
    intro es h b t hinv hflight f hP
    exact hP.traded hinv hflight f
  entered := by
    intro es h b r hinv _ hrestable _ huncrossed hP
    rcases OrderBook.insertResting_spec b h r with ⟨e, he⟩
    have hroom := hP.room r rfl hrestable
    rw [OrderBook.crossingQty_of_uncrossed hinv huncrossed] at hroom
    refine ⟨?_, ?_, by simp⟩
    · intro x hx
      rcases (OrderBook.resting_insertResting hinv x).mp (hx.resolve_right (by simp)) with
        rfl | hx
      · exact hP.held x (Or.inr rfl)
      · exact hP.held x (Or.inl hx)
    · apply he.applies.total_le hP.total_le
      intro level hlevel
      have hnew : e.new.isSome := by
        rw [he.new_eq]
        rfl
      have hjoined : b.joinedQty (h.read r) =
          (e.old.map PriceLevel.totalQuantity).getD 0 := by
        unfold OrderBook.joinedQty
        rw [← he.side_eq, ← he.price_eq, he.applies.find?_price (Or.inr hnew)]
      rw [he.new_eq, Option.mem_some_iff] at hlevel
      subst hlevel
      simp only [PriceLevel.addOrder]
      cases hold : e.old with
      | none =>
          simp only [hold, Option.map_none, Option.getD_none] at hjoined ⊢
          omega
      | some old =>
          simp only [hold, Option.map_some, Option.getD_some] at hjoined ⊢
          omega
  cancelled := by
    intro es h b r hinv hflight _ hP
    refine ⟨?_, hP.total_le, by simp⟩
    intro x hx
    have hresting := hx.resolve_right (by simp)
    have hne : x ≠ r := by
      rintro rfl
      exact hinv.not_resting_of_inFlight hflight hresting
    rw [b.cancelRest_read_of_ne h hne]
    exact hP.held x (Or.inl hresting)
  dropped := by
    intro es h b r _ _ _ hP
    exact ⟨fun x hx => hP.held x (Or.inl (hx.resolve_right (by simp))), hP.total_le, by simp⟩

/-! ## Every result is within range -/

/-- A queued order has no more left than its level holds. -/
theorem LevelShape.remaining_le_total {h : Heap Order} {s : BookSide} {key : Price}
    {level : PriceLevel} {r : OrderRef} (hlevel : LevelShape h s key level)
    (hr : r ∈ level.queue) : (h.read r).remainingQty ≤ level.totalQuantity := by
  rw [hlevel.total_eq]
  apply List.single_le_sum
  · intro q hq
    rcases List.mem_map.mp hq with ⟨x, hx, rfl⟩
    exact (hlevel.remaining_pos x hx).le
  · exact List.mem_map_of_mem hr

/-- A level of a book holds something. -/
theorem LevelInv.total_pos {h : Heap Order} {s : BookSide} {key : Price} {level : PriceLevel}
    (hlevel : LevelInv h s key level) : 0 < level.totalQuantity := by
  rcases List.exists_mem_of_ne_nil _ hlevel.queue_ne_nil with ⟨r, hr⟩
  have hpos := hlevel.remaining_pos r hr
  have hle := hlevel.remaining_le_total hr
  omega

namespace Contained

variable {hand : Option OrderRef} {es : List EngineEvent} {h : Heap Order} {b : OrderBook}
  {r t : OrderRef} {s : BookSide} {stop : Price → Bool}

/-- The levels of a valid book hold something, and no more than fits. -/
theorem total_pos (hP : Contained hand es h b) (hinv : BookInv h b) {e : Price × PriceLevel}
    (he : e ∈ (b.levels s).entries) :
    0 < e.2.totalQuantity ∧ e.2.totalQuantity ≤ 2 ^ 31 - 1 :=
  ⟨(hinv.level_inv s e he).total_pos, hP.total_le s e he⟩

theorem inRange_executeTrade (hP : Contained (some t) es h b) (hinv : BookInv h b)
    (hflight : InFlight h b t) (f : OrderBook.Fill s stop t h b) :
    ∀ i ∈ OrderBook.executeTradeInts h f.maker t f.qty, InRange i := by
  have hne := f.maker_ne_taker hinv hflight
  have hqty := f.qty_pos hinv
  have hfilled : ∀ o : Order, o.Sized → f.qty ≤ o.remainingQty →
      InRange (o.filledQty + f.qty) := by
    intro o hsized hle
    have hnonneg := hsized.filled_nonneg
    have hquantity := hsized.quantity_le
    unfold Order.remainingQty at hle
    constructor <;> omega
  intro i hi
  simp only [OrderBook.executeTradeInts, h.read_modify_of_ne _ hne.symm, List.mem_cons,
    List.not_mem_nil, or_false] at hi
  rcases hi with rfl | rfl
  · exact hfilled _ (hP.held _ (Or.inl f.maker_resting)) f.qty_le_maker
  · exact hfilled _ (hP.held _ (Or.inr rfl)) f.qty_le_taker

/-- The body of the inner loop. -/
theorem inRange_matchFront (hP : Contained (some t) es h b) (hinv : BookInv h b)
    (hflight : InFlight h b t) (f : OrderBook.Fill s stop t h b) :
    ∀ i ∈ OrderBook.matchFrontInts f.price t f.maker f.level h b, InRange i := by
  have hne := f.maker_ne_taker hinv hflight
  have hqty := f.qty_pos hinv
  have htrade := hP.inRange_executeTrade hinv hflight f
  have hmaker := (hP.held _ (Or.inl f.maker_resting)).remaining_inRange
  have htaker := (hP.held t (Or.inr rfl)).remaining_inRange
  have htotal : 0 < f.level.totalQuantity ∧ f.level.totalQuantity ≤ 2 ^ 31 - 1 :=
    hP.total_pos (e := (f.price, f.level)) (s := s) hinv (by simp [f.entries_eq])
  have hle := (f.level_inv hinv).remaining_le_total (r := f.maker) (by simp [f.queue_eq])
  have hqle := And.intro f.qty_le_taker f.qty_le_maker
  have hexecuted : ((b.executeTrade h f.maker t f.price f.qty).heap.read f.maker).remainingQty =
        (h.read f.maker).remainingQty - f.qty ∧
      ((b.executeTrade h f.maker t f.price f.qty).heap.read t).remainingQty =
        (h.read t).remainingQty - f.qty := by
    simp only [OrderBook.executeTrade, Heap.read_modify_of_ne _ _ hne, Heap.read_modify_self,
      Heap.read_modify_of_ne _ _ hne.symm, Order.remainingQty]
    omega
  intro i hi
  unfold OrderBook.matchFrontInts at hi
  rw [show min (h.read t).remainingQty (h.read f.maker).remainingQty = f.qty from rfl] at hi
  simp only [PriceLevel.removeOrderInts, hexecuted, List.mem_append, List.mem_cons,
    List.not_mem_nil, or_false] at hi
  unfold InRange at hmaker htaker ⊢
  rcases hi with ((((hi | hi) | hi) | hi) | hi) | hi | hi
  · omega
  · omega
  · exact htrade i hi
  · omega
  · split at hi
    · simp only [List.mem_cons, List.not_mem_nil, or_false] at hi
      omega
    · simp at hi
  · omega
  · omega

/-- The inner loop on the best level. -/
theorem inRange_matchQueue {p : Price} {rest : List (Price × PriceLevel)}
    {queue : List OrderRef} :
    ∀ {s : BookSide} {stop : Price → Bool} {level : PriceLevel} {h : Heap Order}
      {b : OrderBook}, s = OrderBook.takerSide (h.read t) →
      stop = OrderBook.takerStop (h.read t) → Contained (some t) es h b → BookInv h b →
      InFlight h b t → stop p = false → (b.levels s).entries = (p, level) :: rest →
      level.queue = queue →
      ∀ i ∈ OrderBook.matchQueueInts s p t queue level h b, InRange i := by
  induction queue with
  | nil =>
      intro s stop level h b _ _ _ _ _ _ _ _ i hi
      simp [OrderBook.matchQueueInts] at hi
  | cons maker queue ih =>
      intro s stop level h b hs hstop hP hinv hflight hgo hentries hqueue i hi
      subst hs
      subst hstop
      simp only [OrderBook.matchQueueInts, List.mem_cons] at hi
      rcases hi with rfl | hi
      · exact (hP.held t (Or.inr rfl)).remaining_inRange
      · split at hi
        · rename_i hpos
          let f : OrderBook.Fill (OrderBook.takerSide (h.read t))
              (OrderBook.takerStop (h.read t)) t h b :=
            ⟨p, level, rest, maker, queue, hentries, hqueue, hpos, hgo⟩
          have hne : maker ≠ t := f.maker_ne_taker hinv hflight
          have hfront : OrderBook.matchFront (OrderBook.takerSide (h.read t)) p t maker level
              h b = ⟨⟨f.heap, f.reported, f.events⟩, f.left⟩ := f.matchFront_eq hne
          have hmaker : (f.heap.read maker).isFullyFilled = f.completes :=
            congrArg Order.isFullyFilled (f.read_maker hne)
          have hP' : Contained (some t) es f.heap f.book := hP.traded hinv hflight f
          rw [List.mem_append] at hi
          rcases hi with hi | hi
          · exact hP.inRange_matchFront hinv hflight f i hi
          · rw [hfront] at hi
            simp only [hmaker] at hi
            split at hi
            · rename_i hfull
              cases queue with
              | nil => simp [OrderBook.matchQueueInts] at hi
              | cons next queue =>
                  rcases f.next_of_completes hfull (by simp [f]) with ⟨hbook, hafter, hleft⟩
                  rw [hbook] at hi
                  exact ih
                    (Order.field_of_terms OrderBook.takerSide (f.read_terms t) fun _ => rfl).symm
                    (Order.field_of_terms OrderBook.takerStop (f.read_terms t) fun _ => rfl).symm
                    hP' (f.bookInv hinv hflight) (f.inFlight hflight) hgo hafter hleft i hi
            · rw [List.mem_singleton.mp hi]
              exact (hP'.held t (Or.inr rfl)).remaining_inRange
        · simp at hi

/-- A taker that wants nothing is tested once. -/
theorem inRange_of_done (hP : Contained (some t) es h b)
    (hdone : (h.read t).remainingQty ≤ 0) (entries : List (Price × PriceLevel)) :
    ∀ i ∈ OrderBook.matchLevelsInts s stop t entries h b, InRange i := by
  intro i hi
  cases entries with
  | nil => simp [OrderBook.matchLevelsInts] at hi
  | cons e rest =>
      rw [OrderBook.matchLevelsInts, if_neg (not_lt.mpr hdone), List.mem_singleton] at hi
      rw [hi]
      exact (hP.held t (Or.inr rfl)).remaining_inRange

/-- The outer loop. -/
theorem inRange_matchLevels {entries : List (Price × PriceLevel)} :
    ∀ {s : BookSide} {stop : Price → Bool} {es : List EngineEvent} {h : Heap Order}
      {b : OrderBook}, s = OrderBook.takerSide (h.read t) →
      stop = OrderBook.takerStop (h.read t) → Contained (some t) es h b → BookInv h b →
      InFlight h b t → (b.levels s).entries = entries →
      ∀ i ∈ OrderBook.matchLevelsInts s stop t entries h b, InRange i := by
  induction entries with
  | nil =>
      intro s stop es h b _ _ _ _ _ _ i hi
      simp [OrderBook.matchLevelsInts] at hi
  | cons e rest ih =>
      intro s stop es h b hs hstop hP hinv hflight hentries i hi
      rcases e with ⟨p, level⟩
      simp only [OrderBook.matchLevelsInts, List.mem_cons] at hi
      rcases hi with rfl | hi
      · exact (hP.held t (Or.inr rfl)).remaining_inRange
      · split at hi
        · split at hi
          · simp at hi
          · rename_i hpos hgo
            rw [Bool.not_eq_true] at hgo
            have hlevel : LevelInv h s p level := hinv.level_inv _ (p, level) (by simp [hentries])
            obtain ⟨hfills, hend⟩ := OrderBook.matchQueue_fills hgo hinv hflight hentries rfl
              hlevel.queue_ne_nil
            rw [List.mem_append] at hi
            rcases hi with hi | hi
            · exact inRange_matchQueue hs hstop hP hinv hflight hgo hentries rfl i hi
            · have hterms := hfills.read_terms t
              rcases hfills.bookInv hinv hflight with ⟨hinv', hflight'⟩
              have hP' := contained_law.fills hfills hs hstop hinv hflight hP
              rcases hend with hdone | hrest
              · exact hP'.inRange_of_done hdone rest i hi
              · exact ih
                  (hs.trans (Order.field_of_terms OrderBook.takerSide hterms fun _ => rfl).symm)
                  (hstop.trans
                    (Order.field_of_terms OrderBook.takerStop hterms fun _ => rfl).symm)
                  hP' hinv' hflight' hrest i hi
        · simp at hi

theorem inRange_matchOrder (hP : Contained (some t) es h b) (hinv : BookInv h b)
    (hflight : InFlight h b t) : ∀ i ∈ b.matchOrderInts h t, InRange i := by
  have heq : b.matchOrderInts h t =
      OrderBook.matchLevelsInts (OrderBook.takerSide (h.read t))
        (OrderBook.takerStop (h.read t)) t
        (b.levels (OrderBook.takerSide (h.read t))).entries h b := by
    unfold OrderBook.matchOrderInts OrderBook.takerStop
    dsimp only
    split <;> rfl
  rw [heq]
  exact inRange_matchLevels rfl rfl hP hinv hflight rfl

/-- The fill-or-kill check never needs more than the order wants. -/
theorem inRange_canFillLevels {hand : Option OrderRef} (hP : Contained hand es h b)
    (hinv : BookInv h b) {entries : List (Price × PriceLevel)} :
    ∀ {needed : Int}, 0 < needed → needed ≤ 2 ^ 31 - 1 →
      (∀ e ∈ entries, e ∈ (b.levels s).entries) →
      ∀ i ∈ OrderBook.canFillLevelsInts stop needed entries, InRange i := by
  induction entries with
  | nil =>
      intro needed _ _ _ i hi
      simp [OrderBook.canFillLevelsInts] at hi
  | cons e rest ih =>
      intro needed hpos hle hmem i hi
      have htotal := hP.total_pos hinv (hmem e (by simp))
      rcases e with ⟨p, level⟩
      simp only [OrderBook.canFillLevelsInts] at hi htotal
      split at hi
      · simp at hi
      · rcases List.mem_cons.mp hi with rfl | hi
        · constructor <;> omega
        · split at hi
          · simp at hi
          · exact ih (by omega) (by omega)
              (fun e he => hmem e (List.mem_cons_of_mem _ he)) i hi

/-- Joining a level with room for the order. -/
theorem inRange_insertResting (hP : Contained (some t) es h b) (hinv : BookInv h b)
    (hrestable : (h.read t).Restable) (hpos : 0 < (h.read t).remainingQty)
    (huncrossed : ∀ e ∈ (b.levels (OrderBook.takerSide (h.read t))).entries,
      OrderBook.takerStop (h.read t) e.1 = true) :
    ∀ i ∈ b.insertRestingInts h t, InRange i := by
  have hroom := hP.room t rfl hrestable
  rw [OrderBook.crossingQty_of_uncrossed hinv huncrossed] at hroom
  have hremaining := (hP.held t (Or.inr rfl)).remaining_inRange
  intro i hi
  simp only [OrderBook.insertRestingInts, PriceLevel.addOrderInts, List.mem_cons,
    List.not_mem_nil, or_false] at hi
  rcases hi with rfl | rfl
  · exact hremaining
  · unfold OrderBook.joinedQty at hroom
    cases hfind : (b.levels (h.read t).side.bookSide).find? (h.read t).price with
    | none =>
        simp only [hfind, Option.map_none, Option.getD_none] at hroom ⊢
        constructor <;> omega
    | some level =>
        have htotal := hP.total_pos hinv (OrderedMap.mem_of_find? hfind)
        simp only [hfind, Option.map_some, Option.getD_some] at hroom htotal ⊢
        constructor <;> omega

/-- Leaving a level. -/
theorem inRange_removeFromBook (hP : Contained hand es h b) (hinv : BookInv h b)
    (hr : b.Resting r) : ∀ i ∈ b.removeFromBookInts h r, InRange i := by
  have hremaining := (hP.held r (Or.inl hr)).remaining_inRange
  have hpos := hinv.remaining_pos_of_resting hr
  intro i hi
  unfold OrderBook.removeFromBookInts at hi
  dsimp only at hi
  split at hi
  · simp at hi
  · rename_i level hfind
    have htotal := hP.total_pos hinv (OrderedMap.mem_of_find? hfind)
    simp only [PriceLevel.removeOrderInts, List.mem_cons, List.not_mem_nil, or_false] at hi
    unfold InRange at hremaining ⊢
    simp only at htotal
    omega

theorem inRange_restOrder (hP : Contained (some t) es h b) (hinv : BookInv h b)
    (hdone : (h.read t).remainingQty ≤ 0 ∨
      ∀ e ∈ (b.levels (OrderBook.takerSide (h.read t))).entries,
        OrderBook.takerStop (h.read t) e.1 = true) :
    ∀ i ∈ b.restOrderInts h t, InRange i := by
  intro i hi
  unfold OrderBook.restOrderInts at hi
  dsimp only at hi
  split at hi
  · simp at hi
  · rename_i hfull
    have hpos := (Order.not_isFullyFilled_iff _).mp (Bool.not_eq_true _ ▸ hfull)
    split at hi
    · simp at hi
    · rename_i htif
      split at hi
      · rename_i hlimit
        exact hP.inRange_insertResting hinv ⟨hlimit, not_or.mp htif⟩ hpos
          (hdone.resolve_left (not_le.mpr hpos)) i hi
      · simp at hi

theorem inRange_reinsertOrder (hP : Contained (some t) es h b) (hinv : BookInv h b)
    (hrestable : (h.read t).Restable)
    (hdone : (h.read t).remainingQty ≤ 0 ∨
      ∀ e ∈ (b.levels (OrderBook.takerSide (h.read t))).entries,
        OrderBook.takerStop (h.read t) e.1 = true) :
    ∀ i ∈ b.reinsertOrderInts h t, InRange i := by
  intro i hi
  unfold OrderBook.reinsertOrderInts at hi
  dsimp only at hi
  split at hi
  · rename_i hopen
    have hpos := (Order.not_isFullyFilled_iff _).mp hopen.1
    exact hP.inRange_insertResting hinv hrestable hpos
      (hdone.resolve_left (not_le.mpr hpos)) i hi
  · simp at hi

theorem inRange_addOrder {o : Order} (hP : Contained none es h b) (hinv : BookInv h b)
    (hfresh : FreshOrder h o) (hfits : (BookOp.add o).Fits ⟨h, b⟩) :
    ∀ i ∈ b.addOrderInts (h.alloc o) h.next, InRange i := by
  have haccepted := contained_law.accepted hinv hfresh hfits hP
  have hflight := hinv.inFlight_alloc hfresh
  obtain ⟨hmatched, hinv', -, -, hdone⟩ :=
    contained_law.matched (hinv.alloc o) hflight haccepted
  intro i hi
  simp only [OrderBook.addOrderInts, List.mem_append] at hi
  rcases hi with hi | hi
  · split at hi
    · rw [h.read_alloc_next] at hi
      exact hP.inRange_canFillLevels hinv hfits.1 hfits.2.1 (fun e he => he) i hi
    · simp at hi
  · split at hi
    · simp at hi
    · rcases List.mem_append.mp hi with hi | hi
      · exact haccepted.inRange_matchOrder (hinv.alloc o) hflight i hi
      · exact hmatched.inRange_restOrder hinv' hdone i hi

theorem inRange_modifyOrder {newPrice : Price} {newQty : Int} {newClOrdId : ClOrdId}
    (hP : Contained none es h b) (hinv : BookInv h b) (hr : b.Resting r)
    (hfits : (BookOp.modify (h.read r).orderId newPrice newQty newClOrdId).Fits ⟨h, b⟩) :
    ∀ i ∈ b.modifyOrderInts h (h.read r).orderId newPrice newQty newClOrdId, InRange i := by
  have hreplaced := contained_law.replaced hinv hr hfits hP
  rcases hinv.modified hr newPrice newQty newClOrdId with ⟨hinv', hflight⟩
  rcases contained_law.matched hinv' hflight hreplaced with ⟨hmatched, hinv'', -, hterms, hdone⟩
  have hrestable := Order.field_of_terms Order.Restable hterms fun _ => rfl
  rw [h.read_modify_self] at hrestable
  intro i hi
  simp only [OrderBook.modifyOrderInts, hinv.indexed_of_resting hr, List.mem_append,
    List.mem_singleton] at hi
  rcases hi with ((hi | rfl) | hi) | hi
  · exact hP.inRange_removeFromBook hinv hr i hi
  · exact (hreplaced.held r (Or.inr rfl)).remaining_inRange
  · exact hreplaced.inRange_matchOrder hinv' hflight i hi
  · exact hmatched.inRange_reinsertOrder hinv'' (hrestable ▸ hinv.restable_of_resting hr)
      hdone i hi

end Contained

/-- Every result of the quantity arithmetic of a call that fits is within range. -/
theorem ints_outcome {es : List EngineEvent} {s : BookState} {op : BookOp}
    (hP : Contained none es s.heap s.book) (hinv : BookInv s.heap s.book)
    (hfresh : op.Fresh s) (hfits : op.Fits s) : ∀ i ∈ s.ints op, InRange i := by
  cases op with
  | add o => exact hP.inRange_addOrder hinv hfresh hfits
  | cancel orderId =>
      intro i hi
      simp only [BookState.ints, OrderBook.cancelOrderInts] at hi
      split at hi
      · simp at hi
      · rename_i r hindexed
        exact hP.inRange_removeFromBook hinv ((hinv.indexed _ r).mp hindexed).1 i hi
  | modify orderId newPrice newQty newClOrdId =>
      cases hindexed : s.book.ordersById orderId with
      | none =>
          intro i hi
          simp [BookState.ints, OrderBook.modifyOrderInts, hindexed] at hi
      | some r =>
          rcases (hinv.indexed _ r).mp hindexed with ⟨hr, rfl⟩
          exact hP.inRange_modifyOrder hinv hr hfits

/-! ## The engine -/

/-- Quantities on other books do not change. -/
theorem contained_engineLaw : EngineLaw (fun _ s op => op.Fits s) fun _ => Contained where
  law _ := contained_law
  turnedAway _ _ hP := ⟨hP.held, hP.total_le, hP.room⟩
  frame := by
    intro s s' es new h h' b b' _ hinv _ hsecurity _ hread _ _ hP _
    refine ⟨?_, hP.total_le, by simp⟩
    intro r hr
    have hresting := hr.resolve_right (by simp)
    rw [hread r (hinv.allocated r hresting) (hsecurity r hresting)]
    exact hP.held r hr

/-- Every result of the quantity arithmetic of a request that fits is within range. -/
theorem FullMatchingEngine.inRange_ints {es : List EngineEvent} {e : FullMatchingEngine}
    {op : EngineOp} (hinv : EngineInv e) (hfresh : op.Fresh)
    (hfits : EngineLaw.Admitted (fun _ s op => op.Fits s) e op)
    (hP : ∀ s, Contained none es e.heap (e.bookAt s)) : ∀ i ∈ e.ints op, InRange i := by
  unfold FullMatchingEngine.ints
  cases hroute : e.route op with
  | none => simp
  | some call =>
      rcases call with ⟨s, bop⟩
      exact ints_outcome (hP s) (hinv.book_inv s) (hinv.fresh_of_route hroute hfresh)
        (hfits s bop hroute)

end SimCme
