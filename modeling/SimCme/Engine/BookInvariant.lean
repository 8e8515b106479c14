import SimCme.Engine.OrderBook
import Mathlib.Algebra.BigOperators.Group.List.Basic
import Mathlib.Algebra.Order.Group.Int
import Mathlib.Data.List.Nodup
import Mathlib.Tactic.Linarith

/-!
# The representation invariant of a book

Every nonempty level caches the total and the number of its queue, every queued
order belongs where it is queued and has quantity left, and the id index maps
exactly the ids of the queued orders to those orders.

The invariant is proved for the two operations that move one order in or out of
the book.  Both are described once, by the entries around the level they touch
({lit}`Insertion` and {lit}`Removal`), and every later result about them reads
that description.

Main results:

- Theorem {lit}`insertResting_spec` and {lit}`removeFromBook_spec`: the exact
  effect of entering and of leaving the book.
- Theorem {lit}`BookInv.insertResting` and {lit}`BookInv.removeFromBook`: both
  keep the representation invariant.
-/

namespace SimCme

open Library

/-! ## Levels -/

/-- What {lit}`addOrder` puts into the book: limit orders that are not to be filled
at once. -/
def Order.Restable (o : Order) : Prop :=
  o.orderType = .limit ∧ o.timeInForce ≠ .ioc ∧ o.timeInForce ≠ .fok

/-- The facts about a level that also hold while its queue is empty. -/
structure LevelShape (h : Heap Order) (s : BookSide) (key : Price)
    (level : PriceLevel) : Prop where
  price_eq : level.price = key
  order_price : ∀ r ∈ level.queue, (h.read r).price = key
  order_side : ∀ r ∈ level.queue, (h.read r).side.bookSide = s
  order_restable : ∀ r ∈ level.queue, (h.read r).Restable
  remaining_pos : ∀ r ∈ level.queue, 0 < (h.read r).remainingQty
  total_eq : level.totalQuantity =
    (level.queue.map fun r => (h.read r).remainingQty).sum
  count_eq : level.orderCount = level.queue.length

/-- A level of a book: its shape, and at least one order. -/
structure LevelInv (h : Heap Order) (s : BookSide) (key : Price)
    (level : PriceLevel) : Prop extends LevelShape h s key level where
  queue_ne_nil : level.queue ≠ []

theorem PriceLevel.empty_iff (level : PriceLevel) :
    level.empty = true ↔ level.queue = [] := by
  simp [PriceLevel.empty]

/-- A level depends on the heap through its queued orders only. -/
theorem LevelShape.congr {h h' : Heap Order} {s : BookSide} {key : Price}
    {level : PriceLevel} (hlevel : LevelShape h s key level)
    (hread : ∀ r ∈ level.queue, h'.read r = h.read r) :
    LevelShape h' s key level where
  price_eq := hlevel.price_eq
  order_price r hr := by
    rw [hread r hr]
    exact hlevel.order_price r hr
  order_side r hr := by
    rw [hread r hr]
    exact hlevel.order_side r hr
  order_restable r hr := by
    rw [hread r hr]
    exact hlevel.order_restable r hr
  remaining_pos r hr := by
    rw [hread r hr]
    exact hlevel.remaining_pos r hr
  total_eq := by
    rw [hlevel.total_eq]
    congr 1
    apply List.map_congr_left
    intro r hr
    rw [hread r hr]
  count_eq := hlevel.count_eq

theorem LevelInv.congr {h h' : Heap Order} {s : BookSide} {key : Price}
    {level : PriceLevel} (hlevel : LevelInv h s key level)
    (hread : ∀ r ∈ level.queue, h'.read r = h.read r) : LevelInv h' s key level where
  toLevelShape := hlevel.toLevelShape.congr hread
  queue_ne_nil := hlevel.queue_ne_nil

/-- Queueing an order of the right price and side makes a level of a shape. -/
theorem LevelShape.addOrder {h : Heap Order} {s : BookSide} {key : Price}
    {level : PriceLevel} {r : OrderRef} (hlevel : LevelShape h s key level)
    (hprice : (h.read r).price = key) (hside : (h.read r).side.bookSide = s)
    (hrestable : (h.read r).Restable)
    (hpos : 0 < (h.read r).remainingQty) : LevelInv h s key (level.addOrder h r) where
  price_eq := hlevel.price_eq
  order_price r' hr' := by
    rcases List.mem_append.mp hr' with hr' | hr'
    · exact hlevel.order_price r' hr'
    · rw [List.mem_singleton.mp hr']
      exact hprice
  order_side r' hr' := by
    rcases List.mem_append.mp hr' with hr' | hr'
    · exact hlevel.order_side r' hr'
    · rw [List.mem_singleton.mp hr']
      exact hside
  order_restable r' hr' := by
    rcases List.mem_append.mp hr' with hr' | hr'
    · exact hlevel.order_restable r' hr'
    · rw [List.mem_singleton.mp hr']
      exact hrestable
  remaining_pos r' hr' := by
    rcases List.mem_append.mp hr' with hr' | hr'
    · exact hlevel.remaining_pos r' hr'
    · rw [List.mem_singleton.mp hr']
      exact hpos
  total_eq := by
    simp [PriceLevel.addOrder, hlevel.total_eq]
  count_eq := by
    simp [PriceLevel.addOrder, hlevel.count_eq]
  queue_ne_nil := by
    simp [PriceLevel.addOrder]

/-- Unlinking a queued order keeps the shape of a level. -/
theorem LevelShape.removeOrder {h : Heap Order} {s : BookSide} {key : Price}
    {level : PriceLevel} {r : OrderRef} (hlevel : LevelShape h s key level)
    (hr : r ∈ level.queue) : LevelShape h s key (level.removeOrder h r) where
  price_eq := hlevel.price_eq
  order_price r' hr' := hlevel.order_price r' (List.mem_of_mem_erase hr')
  order_side r' hr' := hlevel.order_side r' (List.mem_of_mem_erase hr')
  order_restable r' hr' := hlevel.order_restable r' (List.mem_of_mem_erase hr')
  remaining_pos r' hr' := hlevel.remaining_pos r' (List.mem_of_mem_erase hr')
  total_eq := by
    have hsum := List.sum_map_erase (fun r => (h.read r).remainingQty) hr
    simp only [PriceLevel.removeOrder, hlevel.total_eq]
    omega
  count_eq := by
    have hlength := List.length_erase_of_mem hr
    have hpos := List.length_pos_of_mem hr
    simp only [PriceLevel.removeOrder, hlevel.count_eq, hlength]
    omega

/-! ## Books -/

namespace OrderBook

/-- The orders queued on one half, best level first and oldest first. -/
def queued (b : OrderBook) (s : BookSide) : List OrderRef :=
  (b.levels s).entries.flatMap fun e => e.2.queue

/-- An order queued anywhere in the book. -/
def Resting (b : OrderBook) (r : OrderRef) : Prop :=
  ∃ s, r ∈ b.queued s

theorem mem_queued_iff {b : OrderBook} {s : BookSide} {r : OrderRef} :
    r ∈ b.queued s ↔ ∃ e ∈ (b.levels s).entries, r ∈ e.2.queue := by
  simp [queued]

end OrderBook

structure BookInv (h : Heap Order) (b : OrderBook) : Prop where
  level_inv : ∀ s, ∀ e ∈ (b.levels s).entries, LevelInv h s e.1 e.2
  queued_nodup : ∀ s, (b.queued s).Nodup
  indexed : ∀ id r, b.ordersById id = some r ↔
    b.Resting r ∧ (h.read r).orderId = id
  allocated : ∀ r, b.Resting r → r < h.next

/-- An order that an operation has in hand: allocated, and in no level. -/
structure InFlight (h : Heap Order) (b : OrderBook) (r : OrderRef) : Prop where
  allocated : r < h.next
  unindexed : b.ordersById (h.read r).orderId = none

namespace BookInv

variable {h h' : Heap Order} {b b' : OrderBook} {s : BookSide} {r : OrderRef}

theorem empty (h : Heap Order) (securityId : SecurityId) :
    BookInv h { securityId := securityId } where
  level_inv s e he := by cases s <;> simp [OrderBook.levels] at he
  queued_nodup s := by cases s <;> simp [OrderBook.queued, OrderBook.levels]
  indexed id r := by
    simp only [OrderBook.Resting, OrderBook.queued, false_iff, reduceCtorEq]
    rintro ⟨⟨s, hr⟩, -⟩
    cases s <;> simp [OrderBook.levels] at hr
  allocated r hr := by
    rcases hr with ⟨s, hr⟩
    cases s <;> simp [OrderBook.queued, OrderBook.levels] at hr

/-- Nothing rests in a book no order has reached. -/
theorem not_resting_empty (securityId : SecurityId) (r : OrderRef) :
    ¬({ securityId := securityId } : OrderBook).Resting r := by
  intro hr
  exact Nat.not_lt_zero r ((empty .empty securityId).allocated r hr)

/-- A queued order stands in the level of its own price. -/
theorem exists_level (hinv : BookInv h b) (hr : r ∈ b.queued s) :
    ∃ level, ((h.read r).price, level) ∈ (b.levels s).entries ∧ r ∈ level.queue := by
  rcases OrderBook.mem_queued_iff.mp hr with ⟨⟨key, level⟩, he, hqueue⟩
  have hprice := (hinv.level_inv s _ he).order_price r hqueue
  exact ⟨level, by rw [hprice]; exact he, hqueue⟩

theorem side_of_queued (hinv : BookInv h b) (hr : r ∈ b.queued s) :
    (h.read r).side.bookSide = s := by
  rcases OrderBook.mem_queued_iff.mp hr with ⟨e, he, hqueue⟩
  exact (hinv.level_inv s e he).order_side r hqueue

theorem remaining_pos_of_resting (hinv : BookInv h b) (hr : b.Resting r) :
    0 < (h.read r).remainingQty := by
  rcases hr with ⟨s, hr⟩
  rcases OrderBook.mem_queued_iff.mp hr with ⟨e, he, hqueue⟩
  exact (hinv.level_inv s e he).remaining_pos r hqueue

theorem restable_of_resting (hinv : BookInv h b) (hr : b.Resting r) :
    (h.read r).Restable := by
  rcases hr with ⟨s, hr⟩
  rcases OrderBook.mem_queued_iff.mp hr with ⟨e, he, hqueue⟩
  exact (hinv.level_inv s e he).order_restable r hqueue

theorem queued_of_resting (hinv : BookInv h b) (hr : b.Resting r) :
    r ∈ b.queued (h.read r).side.bookSide := by
  rcases hr with ⟨s, hr⟩
  rw [hinv.side_of_queued hr]
  exact hr

/-- The two halves share no order. -/
theorem not_mem_opposite (hinv : BookInv h b) (hr : r ∈ b.queued s) :
    r ∉ b.queued s.opposite := by
  intro hr'
  have hside := hinv.side_of_queued hr
  rw [hinv.side_of_queued hr'] at hside
  exact s.opposite_ne hside

/-- Every order is queued at most once in the whole book. -/
theorem allQueued_nodup (hinv : BookInv h b) :
    (b.queued .bid ++ b.queued .ask).Nodup := by
  rw [List.nodup_append]
  refine ⟨hinv.queued_nodup .bid, hinv.queued_nodup .ask, ?_⟩
  intro r hr r' hr' heq
  rw [← heq] at hr'
  exact hinv.not_mem_opposite hr hr'

theorem indexed_of_resting (hinv : BookInv h b) (hr : b.Resting r) :
    b.ordersById (h.read r).orderId = some r :=
  (hinv.indexed _ r).mpr ⟨hr, rfl⟩

/-- Ids tell resting orders apart. -/
theorem orderId_injective {r' : OrderRef} (hinv : BookInv h b) (hr : b.Resting r)
    (hr' : b.Resting r') (hid : (h.read r).orderId = (h.read r').orderId) : r = r' := by
  have hfirst := hinv.indexed_of_resting hr
  rw [hid, hinv.indexed_of_resting hr'] at hfirst
  exact (Option.some.inj hfirst).symm

theorem not_resting_of_inFlight (hinv : BookInv h b) (hr : InFlight h b r) :
    ¬b.Resting r := by
  intro hresting
  have hindexed := hinv.indexed_of_resting hresting
  rw [hr.unindexed] at hindexed
  contradiction

/-- An order in flight shares its id with no resting order. -/
theorem orderId_ne_of_inFlight {r' : OrderRef} (hinv : BookInv h b)
    (hr : InFlight h b r) (hr' : b.Resting r') :
    (h.read r').orderId ≠ (h.read r).orderId := by
  intro hid
  have hindexed := hinv.indexed_of_resting hr'
  rw [hid, hr.unindexed] at hindexed
  contradiction

/-- The invariant depends on the heap through the resting orders only. -/
theorem congr_heap (hinv : BookInv h b)
    (hread : ∀ r, b.Resting r → h'.read r = h.read r) (hnext : h.next ≤ h'.next) :
    BookInv h' b where
  level_inv s e he := (hinv.level_inv s e he).congr fun r hr =>
    hread r ⟨s, OrderBook.mem_queued_iff.mpr ⟨e, he, hr⟩⟩
  queued_nodup := hinv.queued_nodup
  indexed id r := by
    rw [hinv.indexed]
    constructor
    · rintro ⟨hr, hid⟩
      exact ⟨hr, by rw [hread r hr]; exact hid⟩
    · rintro ⟨hr, hid⟩
      exact ⟨hr, by rw [← hread r hr]; exact hid⟩
  allocated r hr := lt_of_lt_of_le (hinv.allocated r hr) hnext

/-- Writing an order that is in no level keeps the invariant. -/
theorem write_of_not_resting (hinv : BookInv h b) (hr : ¬b.Resting r) (o : Order) :
    BookInv (h.write r o) b := by
  apply hinv.congr_heap
  · intro r' hr'
    exact h.read_write_of_ne o fun heq => hr (heq ▸ hr')
  · exact le_rfl

end BookInv

/-! ## Edits of one level -/

/-- A level as the book keeps it: not at all once its queue is empty. -/
def PriceLevel.kept (level : PriceLevel) : Option PriceLevel :=
  if level.empty then none else some level

/-- The queue of a level that may be absent. -/
def levelQueue (level : Option PriceLevel) : List OrderRef :=
  (level.map PriceLevel.queue).getD []

/-- The replacement of the level of one price on one half, between the better
levels {lit}`pre` and the worse levels {lit}`post`. -/
structure LevelEdit where
  side : BookSide
  price : Price
  pre : List (Price × PriceLevel)
  post : List (Price × PriceLevel)
  old : Option PriceLevel
  new : Option PriceLevel

namespace LevelEdit

/-- The entries of the edited half when it has {lit}`level` at the edited price. -/
def entries (e : LevelEdit) (level : Option PriceLevel) : List (Price × PriceLevel) :=
  e.pre ++ level.toList.map (fun l => (e.price, l)) ++ e.post

/-- The edit leads from one book to the other and takes one report number. -/
structure Applies (e : LevelEdit) (b b' : OrderBook) : Prop where
  before : (b.levels e.side).entries = e.entries e.old
  after : (b'.levels e.side).entries = e.entries e.new
  opposite : b'.levels e.side.opposite = b.levels e.side.opposite
  rptSeq_eq : b'.rptSeq = b.rptSeq + 1
  securityId_eq : b'.securityId = b.securityId

/-- The update that reports an edit: an added level is new, a removed one is
deleted with nothing left, and any other is changed. -/
def report (e : LevelEdit) (b : OrderBook) : BookUpdate :=
  { securityId := b.securityId
    side := e.side.side
    price := e.price
    newQty := (e.new.map PriceLevel.totalQuantity).getD 0
    newOrderCount := (e.new.map PriceLevel.orderCount).getD 0
    updateAction :=
      if e.old.isNone then .new else if e.new.isNone then .delete else .change
    priceLevelIndex := e.pre.length + 1
    rptSeq := b.rptSeq }

/-- The orders queued around the edited level. -/
def around (e : LevelEdit) : List OrderRef :=
  e.pre.flatMap (fun x => x.2.queue) ++ e.post.flatMap (fun x => x.2.queue)

variable {e : LevelEdit} {h h' : Heap Order} {b b' : OrderBook}

/-- The queued orders of the half, up to order. -/
theorem queued_perm {level : Option PriceLevel}
    (hentries : (b.levels e.side).entries = e.entries level) :
    (b.queued e.side).Perm (levelQueue level ++ e.around) := by
  have hqueued : b.queued e.side = e.pre.flatMap (fun x => x.2.queue) ++
      (levelQueue level ++ e.post.flatMap (fun x => x.2.queue)) := by
    unfold OrderBook.queued
    rw [hentries]
    cases level <;> simp [entries, levelQueue]
  rw [hqueued, around, ← List.append_assoc, ← List.append_assoc]
  exact List.perm_append_comm.append_right _

/-- The orders of the edited level rest on the edited half. -/
theorem Applies.queued_of_old (he : e.Applies b b') {r : OrderRef}
    (hr : r ∈ levelQueue e.old) : r ∈ b.queued e.side :=
  (queued_perm he.before).mem_iff.mpr (List.mem_append_left _ hr)

theorem Applies.old_nodup (he : e.Applies b b') (hinv : BookInv h b) :
    (levelQueue e.old).Nodup :=
  ((queued_perm he.before).nodup_iff.mp (hinv.queued_nodup e.side)).of_append_left

theorem Applies.old_inv (he : e.Applies b b') (hinv : BookInv h b)
    {level : PriceLevel} (hold : e.old = some level) :
    LevelInv h e.side e.price level := by
  have hmem : (e.price, level) ∈ (b.levels e.side).entries := by
    rw [he.before, hold]
    simp [entries]
  exact hinv.level_inv e.side _ hmem

/-- What rests after an edit: the new queue, and what rested outside the old. -/
theorem Applies.resting_iff (he : e.Applies b b') (hinv : BookInv h b) (r : OrderRef) :
    b'.Resting r ↔ r ∈ levelQueue e.new ∨ b.Resting r ∧ r ∉ levelQueue e.old := by
  have hbefore := queued_perm he.before
  have hafter := queued_perm he.after
  have hnodup := hbefore.nodup_iff.mp (hinv.queued_nodup e.side)
  have hopposite : b'.queued e.side.opposite = b.queued e.side.opposite := by
    unfold OrderBook.queued
    rw [he.opposite]
  have hold : r ∈ levelQueue e.old → r ∉ e.around ∧ r ∉ b.queued e.side.opposite := by
    intro hr
    refine ⟨fun hr' => List.disjoint_of_nodup_append hnodup hr hr', ?_⟩
    apply hinv.not_mem_opposite
    rw [hbefore.mem_iff]
    exact List.mem_append_left _ hr
  have hside : ∀ x : OrderBook, x.Resting r ↔
      r ∈ x.queued e.side ∨ r ∈ x.queued e.side.opposite := by
    intro x
    constructor
    · rintro ⟨s, hr⟩
      rcases BookSide.eq_or_eq_opposite e.side s with rfl | rfl
      · exact Or.inl hr
      · exact Or.inr hr
    · rintro (hr | hr)
      · exact ⟨_, hr⟩
      · exact ⟨_, hr⟩
  rw [hside, hside, hafter.mem_iff, hbefore.mem_iff, hopposite, List.mem_append,
    List.mem_append]
  tauto

/-- An edit keeps the book invariant when the new level is a level of the book,
queues only orders of the old level or from outside the book, and the id index
follows. -/
theorem Applies.bookInv (he : e.Applies b b') (hinv : BookInv h b)
    (hread : ∀ r, b.Resting r → r ∉ levelQueue e.old → h'.read r = h.read r)
    (hlevel : ∀ level, e.new = some level → LevelInv h' e.side e.price level)
    (hnodup : (levelQueue e.new).Nodup)
    (hsource : ∀ r ∈ levelQueue e.new, r ∈ levelQueue e.old ∨ ¬b.Resting r)
    (hindexed : ∀ id r, b'.ordersById id = some r ↔
      b'.Resting r ∧ (h'.read r).orderId = id)
    (hallocated : ∀ r, b'.Resting r → r < h'.next) : BookInv h' b' := by
  have hbefore := queued_perm he.before
  have hafter := queued_perm he.after
  have hbeforeNodup := hbefore.nodup_iff.mp (hinv.queued_nodup e.side)
  have haround : ∀ x ∈ e.pre ++ e.post, LevelInv h' e.side x.1 x.2 := by
    intro x hx
    have hmem : x ∈ (b.levels e.side).entries := by
      rw [he.before]
      simp only [entries, List.mem_append] at hx ⊢
      tauto
    apply (hinv.level_inv e.side x hmem).congr
    intro r hr
    have hr' : r ∈ e.around := by
      rw [around, ← List.flatMap_append]
      exact List.mem_flatMap.mpr ⟨x, hx, hr⟩
    apply hread r ⟨e.side, OrderBook.mem_queued_iff.mpr ⟨x, hmem, hr⟩⟩
    exact fun hold => List.disjoint_of_nodup_append hbeforeNodup hold hr'
  refine ⟨?_, ?_, hindexed, hallocated⟩
  · intro s x hx
    rcases BookSide.eq_or_eq_opposite e.side s with rfl | rfl
    · rw [he.after] at hx
      simp only [entries, List.mem_append, List.mem_map, Option.mem_toList] at hx
      rcases hx with (hx | ⟨level, hnew, rfl⟩) | hx
      · exact haround x (List.mem_append_left _ hx)
      · exact hlevel level hnew
      · exact haround x (List.mem_append_right _ hx)
    · rw [he.opposite] at hx
      apply (hinv.level_inv _ x hx).congr
      intro r hr
      have hqueued : r ∈ b.queued e.side.opposite :=
        OrderBook.mem_queued_iff.mpr ⟨x, hx, hr⟩
      apply hread r ⟨_, hqueued⟩
      intro hold
      have hself : r ∈ b.queued e.side :=
        hbefore.mem_iff.mpr (List.mem_append_left _ hold)
      exact hinv.not_mem_opposite hself hqueued
  · intro s
    rcases BookSide.eq_or_eq_opposite e.side s with rfl | rfl
    · rw [hafter.nodup_iff, List.nodup_append]
      refine ⟨hnodup, (List.nodup_append.mp hbeforeNodup).2.1, ?_⟩
      rintro r hr r' hr' rfl
      rcases hsource r hr with hold | hfree
      · exact List.disjoint_of_nodup_append hbeforeNodup hold hr'
      · exact hfree ⟨e.side, hbefore.mem_iff.mpr (List.mem_append_right _ hr')⟩
    · unfold OrderBook.queued
      rw [he.opposite]
      exact hinv.queued_nodup _

/-- An edit of a level that is there before or after finds that price nowhere else. -/
theorem Applies.price_ne (he : e.Applies b b') (hlevel : e.old.isSome ∨ e.new.isSome) :
    ∀ x ∈ e.pre ++ e.post, x.1 ≠ e.price := by
  have hsplit : ∀ {b : OrderBook} {level : Option PriceLevel}, level.isSome →
      (b.levels e.side).entries = e.entries level →
      ∀ x ∈ e.pre ++ e.post, x.1 ≠ e.price := by
    intro b level hsome hentries x hx
    rcases Option.isSome_iff_exists.mp hsome with ⟨l, rfl⟩
    have hne := OrderedMap.ne_of_split (show (b.levels e.side).entries =
      e.pre ++ (e.price, l) :: e.post by simpa [entries] using hentries)
    exact (List.mem_append.mp hx).elim (hne.1 x) (hne.2 x)
  rcases hlevel with hold | hnew
  · exact hsplit hold he.before
  · exact hsplit hnew he.after

/-- The levels after an edit: the new one at its price, and the others as they were. -/
theorem Applies.find?_eq (he : e.Applies b b') (hlevel : e.old.isSome ∨ e.new.isSome)
    (p : Price) : (b'.levels e.side).find? p =
      if p = e.price then e.new else (b.levels e.side).find? p := by
  have hne := he.price_ne hlevel
  rw [OrderedMap.find?_around hne he.after]
  split
  · rfl
  · rename_i hp
    rw [OrderedMap.find?_around hne he.before, if_neg hp]

theorem Applies.find?_price (he : e.Applies b b') (hlevel : e.old.isSome ∨ e.new.isSome) :
    (b.levels e.side).find? e.price = e.old := by
  rw [OrderedMap.find?_around (he.price_ne hlevel) he.before, if_pos rfl]

end LevelEdit

/-! ## Entering the book -/

namespace OrderBook

theorem reportLevel_book (b : OrderBook) (s : BookSide) (p : Price)
    (level : PriceLevel) (idx : Nat) :
    (b.reportLevel s p level idx).1 = b.nextReport := by
  unfold reportLevel
  split <;> rfl

@[simp]
theorem ordersById_eraseIfEmpty (b : OrderBook) (s : BookSide) (p : Price)
    (level : PriceLevel) : (b.eraseIfEmpty s p level).ordersById = b.ordersById := by
  unfold eraseIfEmpty
  split <;> simp

@[simp]
theorem securityId_eraseIfEmpty (b : OrderBook) (s : BookSide) (p : Price)
    (level : PriceLevel) : (b.eraseIfEmpty s p level).securityId = b.securityId := by
  unfold eraseIfEmpty
  split <;> simp

@[simp]
theorem rptSeq_eraseIfEmpty (b : OrderBook) (s : BookSide) (p : Price)
    (level : PriceLevel) : (b.eraseIfEmpty s p level).rptSeq = b.rptSeq := by
  unfold eraseIfEmpty
  split <;> simp

@[simp]
theorem levels_eraseIfEmpty_opposite (b : OrderBook) (s : BookSide) (p : Price)
    (level : PriceLevel) :
    (b.eraseIfEmpty s p level).levels s.opposite = b.levels s.opposite := by
  unfold eraseIfEmpty
  split <;> simp

/-- A present level's index is its rank. -/
theorem priceLevelIndex_split {b : OrderBook} {s : BookSide} {p : Price}
    {level : PriceLevel} {pre post : List (Price × PriceLevel)}
    (hsplit : (b.levels s).entries = pre ++ (p, level) :: post) :
    b.priceLevelIndex s p = pre.length + 1 := by
  have hpre : ∀ x ∈ pre.map Prod.fst, x ≠ p := by
    intro x hx
    rcases List.mem_map.mp hx with ⟨e, he, rfl⟩
    exact (OrderedMap.ne_of_split hsplit).1 e he
  have hkeys : (b.levels s).keys = pre.map Prod.fst ++ p :: post.map Prod.fst := by
    simp [OrderedMap.keys, hsplit]
  have hrank : (pre.map Prod.fst).findIdx (fun x => decide (x = p)) = pre.length := by
    rw [List.findIdx_eq_length_of_false, List.length_map]
    intro x hx
    exact decide_eq_false (hpre x hx)
  unfold priceLevelIndex
  rw [hkeys, if_pos (by simp), List.findIdx_append, hrank]
  simp [List.findIdx_cons]

/-- The report counter has no part in a level's index. -/
@[simp]
theorem priceLevelIndex_nextReport (b : OrderBook) (s : BookSide) (p : Price) :
    b.nextReport.priceLevelIndex s p = b.priceLevelIndex s p := by
  simp [priceLevelIndex]

@[simp]
theorem priceLevelIndex_eraseId (b : OrderBook) (id : OrderId) (s : BookSide)
    (p : Price) : (b.eraseId id).priceLevelIndex s p = b.priceLevelIndex s p := by
  simp [priceLevelIndex]

@[simp]
theorem insertResting_ordersById (b : OrderBook) (h : Heap Order) (r : OrderRef)
    (id : OrderId) :
    (b.insertResting h r).1.ordersById id =
      if id = (h.read r).orderId then some r else b.ordersById id := by
  simp [insertResting, generateBookUpdate]

/-- Entering an order: it joins the queue of its price at the back, in a level
of its own if the price had none. -/
structure Insertion (b : OrderBook) (h : Heap Order) (r : OrderRef)
    (e : LevelEdit) : Prop where
  side_eq : e.side = (h.read r).side.bookSide
  price_eq : e.price = (h.read r).price
  applies : e.Applies b (b.insertResting h r).1
  new_eq : e.new = some ((e.old.getD { price := (h.read r).price }).addOrder h r)
  events_eq : (b.insertResting h r).2 = [.bookUpdate (e.report b)]

/-- Every call of {lit}`insertResting` enters its order that way. -/
theorem insertResting_spec (b : OrderBook) (h : Heap Order) (r : OrderRef) :
    ∃ e, Insertion b h r e := by
  cases hfind : (b.levels (h.read r).side.bookSide).find? (h.read r).price with
  | none =>
      rcases OrderedMap.exists_insert_split {} hfind with
        ⟨pre, post, hbefore, hafter, -, -⟩
      have hentries := OrderedMap.update_split
        (fun level => ({ level with price := (h.read r).price } : PriceLevel).addOrder h r)
        hafter
      have hlevel := OrderedMap.find?_split hentries
      have hbook : ((b.insertResting h r).1.levels (h.read r).side.bookSide).entries =
          pre ++ ((h.read r).price,
            ({ price := (h.read r).price } : PriceLevel).addOrder h r) :: post := by
        simpa [insertResting, generateBookUpdate, hfind] using hentries
      have hindex := priceLevelIndex_split hbook
      refine ⟨⟨(h.read r).side.bookSide, (h.read r).price, pre, post, none,
        some (({ price := (h.read r).price } : PriceLevel).addOrder h r)⟩, rfl, rfl, ?_,
        rfl, ?_⟩
      · exact
          { before := by simpa [LevelEdit.entries] using hbefore
            after := by simpa [LevelEdit.entries] using hbook
            opposite := by simp [insertResting, generateBookUpdate]
            rptSeq_eq := by simp [insertResting, generateBookUpdate]
            securityId_eq := by simp [insertResting, generateBookUpdate] }
      · simp only [LevelEdit.report]
        rw [← hindex]
        simp [insertResting, generateBookUpdate, hfind, hlevel]
  | some level =>
      have hmem := OrderedMap.mem_of_find? hfind
      rcases OrderedMap.exists_split hmem with ⟨pre, post, hbefore⟩
      have hentries := OrderedMap.update_split
        (fun level => PriceLevel.addOrder level h r) hbefore
      have hlevel := OrderedMap.find?_split hentries
      have hbook : ((b.insertResting h r).1.levels (h.read r).side.bookSide).entries =
          pre ++ ((h.read r).price, level.addOrder h r) :: post := by
        simpa [insertResting, generateBookUpdate, hfind,
          OrderedMap.tryEmplace_of_mem hmem] using hentries
      have hindex := priceLevelIndex_split hbook
      refine ⟨⟨(h.read r).side.bookSide, (h.read r).price, pre, post, some level,
        some (level.addOrder h r)⟩, rfl, rfl, ?_, rfl, ?_⟩
      · exact
          { before := by simpa [LevelEdit.entries] using hbefore
            after := by simpa [LevelEdit.entries] using hbook
            opposite := by simp [insertResting, generateBookUpdate]
            rptSeq_eq := by simp [insertResting, generateBookUpdate]
            securityId_eq := by simp [insertResting, generateBookUpdate] }
      · simp only [LevelEdit.report]
        rw [← hindex]
        simp [insertResting, generateBookUpdate, hfind, hlevel,
          OrderedMap.tryEmplace_of_mem hmem]

/-- What rests after an order entered. -/
theorem resting_insertResting {b : OrderBook} {h : Heap Order} {r : OrderRef}
    (hinv : BookInv h b) (x : OrderRef) :
    (b.insertResting h r).1.Resting x ↔ x = r ∨ b.Resting x := by
  rcases insertResting_spec b h r with ⟨e, he⟩
  rw [he.applies.resting_iff hinv, he.new_eq]
  cases hold : e.old with
  | none => simp [levelQueue, PriceLevel.addOrder]
  | some level =>
      have hresting : x ∈ level.queue → b.Resting x := by
        intro hx
        refine ⟨e.side, he.applies.queued_of_old ?_⟩
        simpa [hold, levelQueue] using hx
      simp only [levelQueue, PriceLevel.addOrder, Option.map_some, Option.getD_some,
        List.mem_append, List.mem_singleton]
      tauto

end OrderBook

/-- Entering an order in flight that has quantity left keeps the invariant. -/
theorem BookInv.insertResting {h : Heap Order} {b : OrderBook} {r : OrderRef}
    (hinv : BookInv h b) (hflight : InFlight h b r)
    (hrestable : (h.read r).Restable) (hpos : 0 < (h.read r).remainingQty) :
    BookInv h (b.insertResting h r).1 := by
  rcases OrderBook.insertResting_spec b h r with ⟨e, he⟩
  have hfree := hinv.not_resting_of_inFlight hflight
  have hresting := OrderBook.resting_insertResting (r := r) hinv
  have hshape : LevelShape h e.side e.price
      (e.old.getD { price := (h.read r).price }) := by
    cases hold : e.old with
    | none => exact ⟨he.price_eq.symm, by simp, by simp, by simp, by simp, by simp, by simp⟩
    | some level => exact (he.applies.old_inv hinv hold).toLevelShape
  have hnew : levelQueue e.new = levelQueue e.old ++ [r] := by
    rw [he.new_eq]
    cases e.old <;> rfl
  apply he.applies.bookInv hinv
  · intro x _ _
    rfl
  · intro level hlevel
    rw [he.new_eq] at hlevel
    cases hlevel
    exact hshape.addOrder he.price_eq.symm he.side_eq.symm hrestable hpos
  · rw [hnew, List.nodup_append]
    refine ⟨he.applies.old_nodup hinv, List.nodup_singleton r, ?_⟩
    intro x hx y hy hxy
    rw [List.mem_singleton.mp hy] at hxy
    subst hxy
    exact hfree ⟨_, he.applies.queued_of_old hx⟩
  · intro x hx
    rw [hnew, List.mem_append, List.mem_singleton] at hx
    rcases hx with hx | rfl
    · exact Or.inl hx
    · exact Or.inr hfree
  · intro id x
    rw [hresting, OrderBook.insertResting_ordersById]
    split
    · rename_i hid
      constructor
      · intro hx
        cases hx
        exact ⟨Or.inl rfl, hid.symm⟩
      · rintro ⟨rfl | hx, hxid⟩
        · rfl
        · exact (hinv.orderId_ne_of_inFlight hflight hx (hxid.trans hid)).elim
    · rename_i hid
      rw [hinv.indexed]
      constructor
      · rintro ⟨hx, hxid⟩
        exact ⟨Or.inr hx, hxid⟩
      · rintro ⟨rfl | hx, hxid⟩
        · exact (hid hxid.symm).elim
        · exact ⟨hx, hxid⟩
  · intro x hx
    rcases (hresting x).mp hx with rfl | hx
    · exact hflight.allocated
    · exact hinv.allocated x hx

/-! ## Leaving the book -/

namespace OrderBook

@[simp]
theorem removeFromBook_ordersById (b : OrderBook) (h : Heap Order) (r : OrderRef)
    (id : OrderId) :
    (b.removeFromBook h r).1.ordersById id =
      if id = (h.read r).orderId then none else b.ordersById id := by
  simp only [removeFromBook]
  split
  · simp
  · simp [reportLevel_book]

/-- Leaving the book: the order is unlinked from the level of its price, which
goes with its last order. -/
structure Removal (b : OrderBook) (h : Heap Order) (r : OrderRef) (e : LevelEdit)
    (level : PriceLevel) : Prop where
  side_eq : e.side = (h.read r).side.bookSide
  price_eq : e.price = (h.read r).price
  applies : e.Applies b (b.removeFromBook h r).1
  old_eq : e.old = some level
  queued : r ∈ level.queue
  new_eq : e.new = (level.removeOrder h r).kept
  events_eq : (b.removeFromBook h r).2 = [.bookUpdate (e.report b)]

/-- The events of a removal and of what follows it. -/
theorem Removal.mem_events_append {b : OrderBook} {h : Heap Order} {r : OrderRef}
    {e : LevelEdit} {level : PriceLevel} (he : Removal b h r e level) {x y : EngineEvent} :
    x ∈ (b.removeFromBook h r).2 ++ [y] ↔ x = .bookUpdate (e.report b) ∨ x = y := by
  simp [he.events_eq]

/-- A resting order leaves the book that way. -/
theorem removeFromBook_spec {b : OrderBook} {h : Heap Order} {r : OrderRef}
    (hinv : BookInv h b) (hr : b.Resting r) : ∃ e level, Removal b h r e level := by
  rcases hinv.exists_level (hinv.queued_of_resting hr) with ⟨level, hmem, hqueue⟩
  rcases OrderedMap.exists_split hmem with ⟨pre, post, hbefore⟩
  have hfind := OrderedMap.find?_split hbefore
  have hupdate := OrderedMap.update_split (fun _ => level.removeOrder h r) hbefore
  have herase := OrderedMap.erase_split hupdate
  have hindex := priceLevelIndex_split hbefore
  refine ⟨⟨(h.read r).side.bookSide, (h.read r).price, pre, post, some level,
    (level.removeOrder h r).kept⟩, level, rfl, rfl, ?_, rfl, hqueue, rfl, ?_⟩
  · by_cases hempty : (level.removeOrder h r).empty
    · exact
        { before := by simpa [LevelEdit.entries] using hbefore
          after := by
            simpa [removeFromBook, hfind, reportLevel_book, eraseIfEmpty, hempty,
              LevelEdit.entries, PriceLevel.kept] using herase
          opposite := by
            simp [removeFromBook, hfind, reportLevel_book]
          rptSeq_eq := by
            simp [removeFromBook, hfind, reportLevel_book]
          securityId_eq := by
            simp [removeFromBook, hfind, reportLevel_book] }
    · exact
        { before := by simpa [LevelEdit.entries] using hbefore
          after := by
            simpa [removeFromBook, hfind, reportLevel_book, eraseIfEmpty, hempty,
              LevelEdit.entries, PriceLevel.kept] using hupdate
          opposite := by
            simp [removeFromBook, hfind, reportLevel_book]
          rptSeq_eq := by
            simp [removeFromBook, hfind, reportLevel_book]
          securityId_eq := by
            simp [removeFromBook, hfind, reportLevel_book] }
  · simp only [LevelEdit.report]
    rw [← hindex]
    by_cases hempty : (level.removeOrder h r).empty
    · simp [removeFromBook, hfind, reportLevel, generateBookUpdate, hempty,
        PriceLevel.kept]
    · simp [removeFromBook, hfind, reportLevel, generateBookUpdate, hempty,
        PriceLevel.kept]

/-- The queue a removal leaves. -/
theorem Removal.levelQueue_new {b : OrderBook} {h : Heap Order} {r : OrderRef}
    {e : LevelEdit} {level : PriceLevel} (he : Removal b h r e level) :
    levelQueue e.new = level.queue.erase r := by
  rw [he.new_eq]
  unfold PriceLevel.kept
  split
  · rename_i hempty
    have hnil := (PriceLevel.empty_iff _).mp hempty
    exact hnil.symm
  · rfl

/-- What rests after an order left. -/
theorem resting_removeFromBook {b : OrderBook} {h : Heap Order} {r : OrderRef}
    (hinv : BookInv h b) (hr : b.Resting r) (x : OrderRef) :
    (b.removeFromBook h r).1.Resting x ↔ b.Resting x ∧ x ≠ r := by
  rcases removeFromBook_spec hinv hr with ⟨e, level, he⟩
  have hnodup := he.applies.old_nodup hinv
  have hqueued : x ∈ levelQueue e.old → b.Resting x :=
    fun hx => ⟨_, he.applies.queued_of_old hx⟩
  have hmem := he.queued
  rw [he.applies.resting_iff hinv, he.levelQueue_new]
  rw [he.old_eq] at hnodup hqueued ⊢
  simp only [levelQueue, Option.map_some, Option.getD_some] at hnodup hqueued ⊢
  rw [hnodup.mem_erase_iff]
  constructor
  · rintro (⟨hne, hx⟩ | ⟨hx, hx'⟩)
    · exact ⟨hqueued hx, hne⟩
    · refine ⟨hx, ?_⟩
      rintro rfl
      exact hx' hmem
  · rintro ⟨hx, hne⟩
    by_cases hx' : x ∈ level.queue
    · exact Or.inl ⟨hne, hx'⟩
    · exact Or.inr ⟨hx, hx'⟩

end OrderBook

/-- Taking a resting order out keeps the invariant. -/
theorem BookInv.removeFromBook {h : Heap Order} {b : OrderBook} {r : OrderRef}
    (hinv : BookInv h b) (hr : b.Resting r) :
    BookInv h (b.removeFromBook h r).1 := by
  rcases OrderBook.removeFromBook_spec hinv hr with ⟨e, level, he⟩
  have hresting := OrderBook.resting_removeFromBook hinv hr
  have hold := he.applies.old_inv hinv he.old_eq
  have hnodup := he.applies.old_nodup hinv
  rw [he.old_eq] at hnodup
  apply he.applies.bookInv hinv
  · intro x _ _
    rfl
  · intro left hleft
    rw [he.new_eq] at hleft
    unfold PriceLevel.kept at hleft
    split at hleft
    · contradiction
    · rename_i hempty
      cases hleft
      refine ⟨hold.toLevelShape.removeOrder he.queued, ?_⟩
      exact fun hnil => hempty ((PriceLevel.empty_iff _).mpr hnil)
  · rw [he.levelQueue_new]
    exact hnodup.erase r
  · intro x hx
    rw [he.levelQueue_new] at hx
    rw [he.old_eq]
    exact Or.inl (List.mem_of_mem_erase hx)
  · intro id x
    rw [hresting, OrderBook.removeFromBook_ordersById]
    split
    · rename_i hid
      constructor
      · intro hx
        contradiction
      · rintro ⟨⟨hx, hne⟩, hxid⟩
        exact (hne (hinv.orderId_injective hx hr (hxid.trans hid))).elim
    · rename_i hid
      rw [hinv.indexed]
      constructor
      · rintro ⟨hx, hxid⟩
        refine ⟨⟨hx, ?_⟩, hxid⟩
        rintro rfl
        exact hid hxid.symm
      · rintro ⟨⟨hx, -⟩, hxid⟩
        exact ⟨hx, hxid⟩
  · intro x hx
    exact hinv.allocated x ((hresting x).mp hx).1

/-- An order that has left the book is in flight. -/
theorem BookInv.inFlight_removeFromBook {h : Heap Order} {b : OrderBook} {r : OrderRef}
    (hinv : BookInv h b) (hr : b.Resting r) :
    InFlight h (b.removeFromBook h r).1 r where
  allocated := hinv.allocated r hr
  unindexed := by simp

end SimCme
