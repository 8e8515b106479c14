import SimCme.Engine.BookRuns
import SimCme.Engine.MatchSimulation
import SimCme.Library.Image

/-!
# The mirror of a book

The mirror negates every price and swaps the two sides.  The routines of the book are
written out for each side, with opposite comparisons, map orders and breaks; each of
them on the mirror of a book does the mirror of what it does on the book.  The smallest
mantissa has no negation, so that the prices in the book and in the call are others.

Main results:

- Theorem {lit}`OrderBook.Mirrors.matchLevels`: the loops on the mirror of a book.
- Theorems {lit}`OrderBook.Mirrors.insertResting` and
  {lit}`OrderBook.Mirrors.removeFromBook`: the levels of the mirror.
- Theorem {lit}`BookState.mirrors_outcome`: one call on the mirror of a book.
- Theorem {lit}`BookState.run_mirror`: a run of calls on the mirror of a book.
- Theorem {lit}`mirror_symmetry`: the outcome of the mirrored call is the mirror of the
  outcome.
-/

namespace SimCme

open Library

/-! ## Prices and sides -/

def Price.mirror (p : Price) : Price :=
  ⟨-p.mantissa⟩

/-- The price has a negation. -/
def Price.Mirrorable (p : Price) : Prop :=
  p.mantissa ≠ Int64.minValue

instance (p : Price) : Decidable p.Mirrorable :=
  inferInstanceAs (Decidable (p.mantissa ≠ Int64.minValue))

namespace Price

theorem mirror_injective : Function.Injective mirror := by
  rintro ⟨p⟩ ⟨q⟩ heq
  exact congrArg Price.mk (Int64.neg_inj.mp (Price.mk.inj heq))

theorem toInt_mirror {p : Price} (hp : p.Mirrorable) :
    p.mirror.mantissa.toInt = -p.mantissa.toInt := by
  have hle := Int64.le_toInt p.mantissa
  have hlt := Int64.toInt_lt p.mantissa
  have hne : p.mantissa.toInt ≠ -2 ^ 63 := by
    intro heq
    exact hp (Int64.toInt_inj.mp heq)
  have hneg : p.mirror.mantissa.toInt = (-p.mantissa.toInt).bmod (2 ^ 64) :=
    Int64.toInt_neg p.mantissa
  rw [hneg, Int.bmod_eq_of_le (by omega) (by omega)]

theorem mirror_lt_iff {p q : Price} (hp : p.Mirrorable) (hq : q.Mirrorable) :
    p.mirror < q.mirror ↔ q < p := by
  have hneg : p.mirror.mantissa.toInt < q.mirror.mantissa.toInt ↔
      q.mantissa.toInt < p.mantissa.toInt := by
    rw [toInt_mirror hp, toInt_mirror hq]
    omega
  exact hneg

end Price

/-- The engine tests for buy and takes the other branch for every other value. -/
def Side.mirror : Side → Side
  | .buy => .sell
  | _ => .buy

theorem Side.bookSide_mirror (s : Side) : s.mirror.bookSide = s.bookSide.opposite := by
  cases s <;> rfl

namespace BookSide

theorem side_opposite (s : BookSide) : s.opposite.side = s.side.mirror := by
  cases s <;> rfl

/-- The map of the other half iterates over the mirrored prices in the same order. -/
theorem better_mirror_iff {s : BookSide} {p q : Price} (hp : p.Mirrorable)
    (hq : q.Mirrorable) : s.opposite.Better p.mirror q.mirror ↔ s.Better p q := by
  cases s with
  | bid => exact Price.mirror_lt_iff hp hq
  | ask => exact Price.mirror_lt_iff hq hp

end BookSide

/-! ## Orders, levels and events -/

def Order.mirror (o : Order) : Order :=
  { o with side := o.side.mirror, price := o.price.mirror, stopPrice := o.stopPrice.mirror }

def PriceLevel.mirror (level : PriceLevel) : PriceLevel :=
  { level with price := level.price.mirror }

def Trade.mirror (trade : Trade) : Trade :=
  { trade with price := trade.price.mirror, aggressorSide := trade.aggressorSide.mirror }

def EngineEvent.mirror : EngineEvent → EngineEvent
  | .orderAccepted e => .orderAccepted { e with side := e.side.mirror, price := e.price.mirror }
  | .orderFilled e =>
      .orderFilled
        { e with tradePrice := e.tradePrice.mirror, aggressorSide := e.aggressorSide.mirror }
  | .orderModified e => .orderModified { e with newPrice := e.newPrice.mirror }
  | .bookUpdate e => .bookUpdate { e with side := e.side.mirror, price := e.price.mirror }
  | .orderRejected e => .orderRejected e
  | .orderCancelled e => .orderCancelled e
  | .orderCancelRejected e => .orderCancelRejected e

/-- The orders of a mirrored book. -/
def mirrorHeap (h : Heap Order) : Heap Order :=
  h.map Order.mirror

/-! ## Books -/

namespace OrderBook

/-- Every level stands at a price that has a negation. -/
def Mirrorable (b : OrderBook) : Prop :=
  ∀ s, ∀ e ∈ (b.levels s).entries, e.1.Mirrorable

/-- One book is the mirror of another. -/
structure Mirrors (b b' : OrderBook) : Prop where
  securityId_eq : b'.securityId = b.securityId
  levels : ∀ s, OrderedMap.IsImage Price.mirror PriceLevel.mirror (b.levels s)
    (b'.levels s.opposite)
  ordersById_eq : b'.ordersById = b.ordersById
  nextTradeId_eq : b'.nextTradeId = b.nextTradeId
  rptSeq_eq : b'.rptSeq = b.rptSeq
  mirrorable : b.Mirrorable

/-- The levels of one half, on the other. -/
def mirrorLevels (b : OrderBook) (hb : b.Mirrorable) (s : BookSide) : LevelMap s.opposite where
  entries := (b.levels s).entries.map (Prod.map Price.mirror PriceLevel.mirror)
  sorted := by
    rw [List.pairwise_map]
    apply (b.levels s).sorted.imp_of_mem
    intro e e' he he' hbetter
    exact (BookSide.better_mirror_iff (hb s e he) (hb s e' he')).mpr hbetter

/-- The mirror of a book. -/
def mirror (b : OrderBook) (hb : b.Mirrorable) : OrderBook where
  securityId := b.securityId
  bidLevels := b.mirrorLevels hb .ask
  askLevels := b.mirrorLevels hb .bid
  ordersById := b.ordersById
  nextTradeId := b.nextTradeId
  rptSeq := b.rptSeq

theorem mirrors_mirror (b : OrderBook) (hb : b.Mirrorable) : b.Mirrors (b.mirror hb) where
  securityId_eq := rfl
  levels s := by cases s <;> rfl
  ordersById_eq := rfl
  nextTradeId_eq := rfl
  rptSeq_eq := rfl
  mirrorable := hb

variable {b b' : OrderBook}

/-- The mirror is the only book that mirrors. -/
theorem Mirrors.eq_mirror (hb : b.Mirrors b') : b' = b.mirror hb.mirrorable := by
  have hok := hb.mirrorable
  change b' = b.mirror hok
  have hbid : b'.bidLevels = b.mirrorLevels hok .ask := OrderedMap.ext (hb.levels .ask)
  have hask : b'.askLevels = b.mirrorLevels hok .bid := OrderedMap.ext (hb.levels .bid)
  rcases hb with ⟨hsecurity, -, hindex, htrade, hseq, -⟩
  cases b' with
  | mk securityId bidLevels askLevels ordersById nextTradeId rptSeq =>
      simp only at hbid hask hsecurity hindex htrade hseq
      subst hbid hask hsecurity hindex htrade hseq
      rfl

namespace Mirrors

variable {h : Heap Order} {s : BookSide} {p : Price} {level : PriceLevel} {r t : OrderRef}

/-! ## Writes to the book -/

/-- Replace the levels of one half by levels at prices that have a negation. -/
theorem withLevels (hb : b.Mirrors b') {m : LevelMap s} {m' : LevelMap s.opposite}
    (himage : OrderedMap.IsImage Price.mirror PriceLevel.mirror m m')
    (hm : ∀ e ∈ m.entries, e.1.Mirrorable) :
    (b.withLevels s m).Mirrors (b'.withLevels s.opposite m') where
  securityId_eq := by simp [hb.securityId_eq]
  levels s' := by
    rcases s.eq_or_eq_opposite s' with rfl | rfl
    · rw [levels_withLevels_self, levels_withLevels_self]
      exact himage
    · rw [levels_withLevels_opposite, levels_withLevels_opposite]
      exact hb.levels s.opposite
  ordersById_eq := by simp [hb.ordersById_eq]
  nextTradeId_eq := by
    have htrade := hb.nextTradeId_eq
    cases s <;> exact htrade
  rptSeq_eq := by simp [hb.rptSeq_eq]
  mirrorable s' := by
    rcases s.eq_or_eq_opposite s' with rfl | rfl
    · rw [levels_withLevels_self]
      exact hm
    · rw [levels_withLevels_opposite]
      exact hb.mirrorable s.opposite

/-- Rewrite the level at a price. -/
theorem updateLevel (hb : b.Mirrors b') (level : PriceLevel) :
    (b.withLevels s ((b.levels s).update p fun _ => level)).Mirrors
      (b'.withLevels s.opposite
        ((b'.levels s.opposite).update p.mirror fun _ => level.mirror)) := by
  apply hb.withLevels
  · exact (hb.levels s).update Price.mirror_injective fun _ => rfl
  · intro e he
    rcases List.mem_map.mp he with ⟨e', he', rfl⟩
    split
    · exact hb.mirrorable s e' he'
    · exact hb.mirrorable s e' he'

theorem eraseId (hb : b.Mirrors b') (id : OrderId) : (b.eraseId id).Mirrors (b'.eraseId id) where
  securityId_eq := hb.securityId_eq
  levels s := by
    rw [levels_eraseId, levels_eraseId]
    exact hb.levels s
  ordersById_eq := by
    funext i
    rw [ordersById_eraseId, ordersById_eraseId, hb.ordersById_eq]
  nextTradeId_eq := hb.nextTradeId_eq
  rptSeq_eq := hb.rptSeq_eq
  mirrorable s := by
    rw [levels_eraseId]
    exact hb.mirrorable s

theorem setId (hb : b.Mirrors b') (id : OrderId) (r : OrderRef) :
    (b.setId id r).Mirrors (b'.setId id r) where
  securityId_eq := hb.securityId_eq
  levels s := by
    rw [levels_setId, levels_setId]
    exact hb.levels s
  ordersById_eq := by
    funext i
    rw [ordersById_setId, ordersById_setId, hb.ordersById_eq]
  nextTradeId_eq := hb.nextTradeId_eq
  rptSeq_eq := hb.rptSeq_eq
  mirrorable s := by
    rw [levels_setId]
    exact hb.mirrorable s

theorem nextTrade (hb : b.Mirrors b') : b.nextTrade.Mirrors b'.nextTrade where
  securityId_eq := hb.securityId_eq
  levels s := by
    rw [levels_nextTrade, levels_nextTrade]
    exact hb.levels s
  ordersById_eq := hb.ordersById_eq
  nextTradeId_eq := congrArg (· + 1) hb.nextTradeId_eq
  rptSeq_eq := hb.rptSeq_eq
  mirrorable s := by
    rw [levels_nextTrade]
    exact hb.mirrorable s

theorem nextReport (hb : b.Mirrors b') : b.nextReport.Mirrors b'.nextReport where
  securityId_eq := hb.securityId_eq
  levels s := by
    rw [levels_nextReport, levels_nextReport]
    exact hb.levels s
  ordersById_eq := hb.ordersById_eq
  nextTradeId_eq := hb.nextTradeId_eq
  rptSeq_eq := congrArg (· + 1) hb.rptSeq_eq
  mirrorable s := by
    rw [levels_nextReport]
    exact hb.mirrorable s

theorem eraseIfEmpty (hb : b.Mirrors b') (level : PriceLevel) :
    (b.eraseIfEmpty s p level).Mirrors (b'.eraseIfEmpty s.opposite p.mirror level.mirror) := by
  have hempty : level.mirror.empty = level.empty := rfl
  unfold OrderBook.eraseIfEmpty
  rw [hempty]
  split
  · apply hb.withLevels
    · exact (hb.levels s).erase Price.mirror_injective
    · intro e he
      exact hb.mirrorable s e (List.mem_of_mem_filter he)
  · exact hb

/-! ## Reports -/

/-- Positions count from the best price, which is the same level on both. -/
theorem priceLevelIndex_eq (hb : b.Mirrors b') (hp : p.Mirrorable) :
    b'.priceLevelIndex s.opposite p.mirror = b.priceLevelIndex s p := by
  have himage := hb.levels s
  have hsame : (b'.levels s.opposite).keys.findIdx (fun q => q = p.mirror) =
      (b.levels s).keys.findIdx fun q => q = p := by
    apply himage.findIdx_keys
    intro q _
    simp [Price.mirror_injective.eq_iff]
  have hbetter : (b'.levels s.opposite).keys.findIdx
        (fun q => s.opposite.Better p.mirror q) =
      (b.levels s).keys.findIdx fun q => s.Better p q := by
    apply himage.findIdx_keys
    intro q hq
    rcases List.mem_map.mp hq with ⟨e, he, rfl⟩
    simp [BookSide.better_mirror_iff hp (hb.mirrorable s e he)]
  unfold priceLevelIndex
  rw [hsame, hbetter]
  simp only [himage.mem_keys Price.mirror_injective]

theorem generateBookUpdate (hb : b.Mirrors b') (newQty newCount : Int)
    (action : MDUpdateAction) (levelIdx : Nat) :
    let u := b.generateBookUpdate s p newQty newCount action levelIdx
    let u' := b'.generateBookUpdate s.opposite p.mirror newQty newCount action levelIdx
    u.1.Mirrors u'.1 ∧ u'.2 = u.2.mirror := by
  refine ⟨hb.nextReport, ?_⟩
  simp only [OrderBook.generateBookUpdate, EngineEvent.mirror, hb.securityId_eq, hb.rptSeq_eq,
    BookSide.side_opposite]

theorem reportLevel (hb : b.Mirrors b') (level : PriceLevel) (levelIdx : Nat) :
    let u := b.reportLevel s p level levelIdx
    let u' := b'.reportLevel s.opposite p.mirror level.mirror levelIdx
    u.1.Mirrors u'.1 ∧ u'.2 = u.2.mirror := by
  have hempty : level.mirror.empty = level.empty := rfl
  simp only [OrderBook.reportLevel, hempty]
  split
  · exact hb.generateBookUpdate 0 0 .delete levelIdx
  · exact hb.generateBookUpdate level.totalQuantity level.orderCount .change levelIdx

/-! ## Matching -/

/-- What two executed trades leave behind. -/
structure ExecutedMirrors (x x' : Executed) : Prop where
  heap_eq : x'.heap = mirrorHeap x.heap
  book : x.book.Mirrors x'.book
  trade_eq : x'.trade = x.trade.mirror

theorem executeTrade (hb : b.Mirrors b') (qty : Int) :
    ExecutedMirrors (b.executeTrade h r t p qty)
      (b'.executeTrade (mirrorHeap h) r t p.mirror qty) := by
  have hmodify : ∀ (h : Heap Order) (x : OrderRef),
      (mirrorHeap h).modify x (fun o => { o with filledQty := o.filledQty + qty }) =
        mirrorHeap (h.modify x fun o => { o with filledQty := o.filledQty + qty }) :=
    fun h x => Heap.modify_map fun _ => rfl
  simp only [OrderBook.executeTrade, hmodify]
  refine ⟨rfl, hb.nextTrade, ?_⟩
  simp only [Trade.mirror, hb.nextTradeId_eq, hb.securityId_eq]
  rfl

/-- The results of two bodies of the inner loop. -/
structure MatchMirrors (x x' : MatchResult) : Prop where
  heap_eq : x'.heap = mirrorHeap x.heap
  book : x.book.Mirrors x'.book
  level_eq : x'.level = x.level.mirror
  events_eq : x'.events = x.events.map EngineEvent.mirror

/-- The body of the inner loop once the trade is executed. -/
def settle (s : BookSide) (p : Price) (t r : OrderRef) (level : PriceLevel) (x : Executed) :
    MatchResult :=
  let full := (x.heap.read r).isFullyFilled
  let h := x.heap.modify r fun o =>
    { o with status := if full then .filled else .partiallyFilled }
  let level := if full then level.removeOrder h r else level
  let b := if full then x.book.eraseId (h.read r).orderId else x.book
  let b := b.withLevels s ((b.levels s).update p fun _ => level)
  let h := h.modify t fun o =>
    { o with status := if o.isFullyFilled then .filled else .partiallyFilled }
  let fill := fillReport x.trade (h.read r) (h.read t)
  let reported := b.reportLevel s p level (b.priceLevelIndex s p)
  { heap := h
    book := reported.1
    level := level
    events := [.orderFilled fill, reported.2] }

theorem matchFront_eq_settle (s : BookSide) (p : Price) (t r : OrderRef) (level : PriceLevel)
    (h : Heap Order) (b : OrderBook) :
    let qty := min (h.read t).remainingQty (h.read r).remainingQty
    OrderBook.matchFront s p t r level h b =
      settle s p t r { level with totalQuantity := level.totalQuantity - qty }
        (b.executeTrade h r t p qty) :=
  rfl

theorem settle_mirrors {x x' : Executed} (hx : ExecutedMirrors x x') (hp : p.Mirrorable)
    (level : PriceLevel) :
    MatchMirrors (settle s p t r level x) (settle s.opposite p.mirror t r level.mirror x') := by
  rcases x with ⟨h, b, trade⟩
  rcases x' with ⟨h', b', trade'⟩
  rcases hx with ⟨hheap, hb, htrade⟩
  simp only at hheap hb htrade
  subst hheap htrade
  -- Each piece of the body, on the mirror.
  have hmaker : ∀ status : OrdStatus,
      (mirrorHeap h).modify r (fun o => { o with status := status }) =
        mirrorHeap (h.modify r fun o => { o with status := status }) :=
    fun _ => Heap.modify_map fun _ => rfl
  have htaker : ∀ h : Heap Order, (mirrorHeap h).modify t
        (fun o => { o with status := if o.isFullyFilled then .filled else .partiallyFilled }) =
      mirrorHeap (h.modify t fun o =>
        { o with status := if o.isFullyFilled then .filled else .partiallyFilled }) :=
    fun _ => Heap.modify_map fun _ => rfl
  have hfull : ((mirrorHeap h).read r).isFullyFilled = (h.read r).isFullyFilled := rfl
  have hid : ∀ h : Heap Order, ((mirrorHeap h).read r).orderId = (h.read r).orderId :=
    fun _ => rfl
  have hlevel : ∀ (full : Bool) (h : Heap Order),
      (if full then level.mirror.removeOrder (mirrorHeap h) r else level.mirror) =
        (if full then level.removeOrder h r else level).mirror := by
    intro full h
    split <;> rfl
  have hbook : ∀ (full : Bool) (id : OrderId),
      (if full then b.eraseId id else b).Mirrors (if full then b'.eraseId id else b') := by
    intro full id
    split
    · exact hb.eraseId id
    · exact hb
  unfold settle
  simp only [hfull, hmaker, hid, hlevel, htaker]
  generalize (h.modify r _) = h₁
  generalize (if (h.read r).isFullyFilled then level.removeOrder h₁ r else level) = level₁
  have hwritten := (hbook (h.read r).isFullyFilled (h₁.read r).orderId).updateLevel
    (s := s) (p := p) level₁
  rw [hwritten.priceLevelIndex_eq hp]
  obtain ⟨hreported, hevent⟩ := hwritten.reportLevel (s := s) (p := p) level₁
    (OrderBook.priceLevelIndex _ s p)
  refine ⟨rfl, hreported, rfl, ?_⟩
  simp only [hevent]
  rfl

/-- The body of the inner loop on the mirror. -/
theorem matchFront (hb : b.Mirrors b') (hp : p.Mirrorable) (level : PriceLevel) :
    MatchMirrors (OrderBook.matchFront s p t r level h b)
      (OrderBook.matchFront s.opposite p.mirror t r level.mirror (mirrorHeap h) b') := by
  rw [matchFront_eq_settle, matchFront_eq_settle]
  exact settle_mirrors (hb.executeTrade _) hp _

/-- The inner loop on the mirror. -/
theorem matchQueue (hp : p.Mirrorable) {queue : List OrderRef} :
    ∀ {level : PriceLevel} {h : Heap Order} {b b' : OrderBook}, b.Mirrors b' →
      MatchMirrors (OrderBook.matchQueue s p t queue level h b)
        (OrderBook.matchQueue s.opposite p.mirror t queue level.mirror (mirrorHeap h) b') := by
  induction queue with
  | nil =>
      intro level h b b' hb
      exact ⟨rfl, hb, rfl, rfl⟩
  | cons m queue ih =>
      intro level h b b' hb
      have hremaining : ((mirrorHeap h).read t).remainingQty = (h.read t).remainingQty := rfl
      have hfront := matchFront (s := s) (h := h) (r := m) (t := t) hb hp level
      simp only [OrderBook.matchQueue, hremaining, hfront.heap_eq, hfront.level_eq]
      split
      · have hfull : ((mirrorHeap (OrderBook.matchFront s p t m level h b).heap).read
              m).isFullyFilled =
            ((OrderBook.matchFront s p t m level h b).heap.read m).isFullyFilled := rfl
        simp only [hfull]
        split
        · have hrest := @ih (OrderBook.matchFront s p t m level h b).level
            (OrderBook.matchFront s p t m level h b).heap _ _ hfront.book
          refine ⟨hrest.heap_eq, hrest.book, hrest.level_eq, ?_⟩
          simp only [hfront.events_eq, hrest.events_eq, List.map_append]
        · exact hfront
      · exact ⟨rfl, hb, rfl, rfl⟩

/-- What two calls leave behind. -/
structure OutcomeMirrors (x x' : Outcome) : Prop where
  heap_eq : x'.heap = mirrorHeap x.heap
  book : x.book.Mirrors x'.book
  events_eq : x'.events = x.events.map EngineEvent.mirror

/-- The outer loop on the mirror, from corresponding iterators on. -/
theorem matchLevels {stop stop' : Price → Bool} {entries : List (Price × PriceLevel)}
    (hstop : ∀ e ∈ entries, stop' e.1.mirror = stop e.1)
    (hentries : ∀ e ∈ entries, e.1.Mirrorable) :
    ∀ {h : Heap Order} {b b' : OrderBook}, b.Mirrors b' →
      OutcomeMirrors (OrderBook.matchLevels s stop t entries h b)
        (OrderBook.matchLevels s.opposite stop' t
          (entries.map (Prod.map Price.mirror PriceLevel.mirror)) (mirrorHeap h) b') := by
  induction entries with
  | nil =>
      intro h b b' hb
      exact ⟨rfl, hb, rfl⟩
  | cons e entries ih =>
      intro h b b' hb
      rcases e with ⟨p, level⟩
      rcases List.forall_mem_cons.mp hstop with ⟨hstopFirst, hstopRest⟩
      rcases List.forall_mem_cons.mp hentries with ⟨hp, hrest⟩
      have hremaining : ((mirrorHeap h).read t).remainingQty = (h.read t).remainingQty := rfl
      simp only [List.map_cons, Prod.map_apply, OrderBook.matchLevels, hremaining, hstopFirst]
      split
      · split
        · exact ⟨rfl, hb, rfl⟩
        · have hqueue : MatchMirrors (OrderBook.matchQueue s p t level.queue level h b)
              (OrderBook.matchQueue s.opposite p.mirror t level.mirror.queue level.mirror
                (mirrorHeap h) b') := matchQueue hp hb
          have hnext := ih hstopRest hrest
            (h := (OrderBook.matchQueue s p t level.queue level h b).heap)
            (hqueue.book.eraseIfEmpty (s := s) (p := p)
              (OrderBook.matchQueue s p t level.queue level h b).level)
          simp only [hqueue.heap_eq, hqueue.level_eq]
          refine ⟨hnext.heap_eq, hnext.book, ?_⟩
          simp only [hqueue.events_eq, hnext.events_eq, List.map_append]
      · exact ⟨rfl, hb, rfl⟩

/-- The levels of the half that mirrors another. -/
theorem entries_eq (hb : b.Mirrors b') {s' : BookSide} (hs : s' = s.opposite) :
    (b'.levels s').entries =
      (b.levels s).entries.map (Prod.map Price.mirror PriceLevel.mirror) := by
  subst hs
  exact hb.levels s

/-- A limit order breaks at the mirrored prices. -/
theorem limitStop_mirror {limit q : Price} (hlimit : limit.Mirrorable) (hq : q.Mirrorable) :
    limitStop s.opposite limit.mirror q.mirror = limitStop s limit q := by
  cases s with
  | bid => exact decide_eq_decide.mpr (Price.mirror_lt_iff hlimit hq)
  | ask => exact decide_eq_decide.mpr (Price.mirror_lt_iff hq hlimit)

theorem matchOrder (hb : b.Mirrors b') (hprice : (h.read t).price.Mirrorable) :
    OutcomeMirrors (b.matchOrder h t) (b'.matchOrder (mirrorHeap h) t) := by
  have hside : ((mirrorHeap h).read t).side.bookSide.opposite =
      (h.read t).side.bookSide.opposite.opposite :=
    congrArg BookSide.opposite (Side.bookSide_mirror (h.read t).side)
  have hlimit : ((mirrorHeap h).read t).price = (h.read t).price.mirror := rfl
  have htype : ((mirrorHeap h).read t).orderType = (h.read t).orderType := rfl
  have hentries := hb.mirrorable (h.read t).side.bookSide.opposite
  have hlevels := hb.entries_eq hside
  unfold OrderBook.matchOrder
  simp only [htype]
  split
  · simp only [matchMarket, hside, hlevels]
    refine matchLevels ?_ hentries hb
    exact fun _ _ => rfl
  · simp only [matchLimit, hside, hlimit, hlevels]
    exact matchLevels (fun e he => limitStop_mirror hprice (hentries e he)) hentries hb

/-- The fill-or-kill check on the mirror. -/
theorem canFillLevels_mirror {stop stop' : Price → Bool} {entries : List (Price × PriceLevel)}
    (hstop : ∀ e ∈ entries, stop' e.1.mirror = stop e.1) (needed : Int) :
    canFillLevels stop' needed (entries.map (Prod.map Price.mirror PriceLevel.mirror)) =
      canFillLevels stop needed entries := by
  induction entries generalizing needed with
  | nil => rfl
  | cons e entries ih =>
      rcases e with ⟨p, level⟩
      rcases List.forall_mem_cons.mp hstop with ⟨hfirst, hrest⟩
      have htotal : level.mirror.totalQuantity = level.totalQuantity := rfl
      simp only [List.map_cons, Prod.map_apply, canFillLevels, hfirst, htotal, ih hrest]

theorem canFillFOK_eq (hb : b.Mirrors b') {o : Order} (hprice : o.price.Mirrorable) :
    b'.canFillFOK o.mirror = b.canFillFOK o := by
  have hside : o.mirror.side.bookSide.opposite = o.side.bookSide.opposite.opposite :=
    congrArg BookSide.opposite (Side.bookSide_mirror o.side)
  have hlevels := hb.entries_eq hside
  unfold canFillFOK
  simp only [hside, hlevels]
  apply canFillLevels_mirror
  intro e he
  have hstop := limitStop_mirror (s := o.side.bookSide.opposite) hprice
    (hb.mirrorable o.side.bookSide.opposite e he)
  rw [← hstop]
  rfl

/-! ## Levels -/

/-- {lit}`insertResting` with the half it selects as a parameter. -/
def enterLevel (s : BookSide) (b : OrderBook) (h : Heap Order) (r : OrderRef) :
    OrderBook × List EngineEvent :=
  let p := (h.read r).price
  let b := b.setId (h.read r).orderId r
  let inserted := ((b.levels s).find? p).isNone
  let m := ((b.levels s).tryEmplace p {}).update p fun level =>
    (if inserted then { level with price := p } else level).addOrder h r
  let b := b.withLevels s m
  let level := (m.find? p).getD {}
  let reported := b.generateBookUpdate s p level.totalQuantity level.orderCount
    (if inserted then .new else .change) (b.priceLevelIndex s p)
  (reported.1, [reported.2])

/-- Entering an order at a price that has a negation. -/
theorem enter_mirrorable {m : LevelMap s} (hm : ∀ e ∈ m.entries, e.1.Mirrorable)
    (hp : p.Mirrorable) (f : PriceLevel → PriceLevel) :
    ∀ e ∈ ((m.tryEmplace p {}).update p f).entries, e.1.Mirrorable := by
  intro e he
  rcases List.mem_map.mp he with ⟨e', he', rfl⟩
  have hkey : e'.1.Mirrorable := by
    rcases OrderedMap.mem_insertEntry he' with rfl | hmem
    · exact hp
    · exact hm e' hmem
  split
  · exact hkey
  · exact hkey

theorem enterLevel_mirrors (hb : b.Mirrors b') (hprice : (h.read r).price.Mirrorable) :
    let x := enterLevel s b h r
    let x' := enterLevel s.opposite b' (mirrorHeap h) r
    x.1.Mirrors x'.1 ∧ x'.2 = x.2.map EngineEvent.mirror := by
  have hset := hb.setId (h.read r).orderId r
  have hid : ((mirrorHeap h).read r).orderId = (h.read r).orderId := rfl
  have hp : ((mirrorHeap h).read r).price = (h.read r).price.mirror := rfl
  have hdefault : ({} : PriceLevel).mirror = {} := by decide
  have hfind := (hset.levels s).find? Price.mirror_injective (k := (h.read r).price)
  have hplace := (hset.levels s).tryEmplace Price.mirror_injective (k := (h.read r).price)
    (fun e he => BookSide.better_mirror_iff hprice (hset.mirrorable s e he)) {}
  rw [hdefault] at hplace
  simp only [enterLevel, hid, hp, hfind, Option.isNone_map]
  generalize (((b.setId (h.read r).orderId r).levels s).find? (h.read r).price).isNone =
    inserted
  have hadd : ∀ level : PriceLevel,
      (if inserted then { level.mirror with price := (h.read r).price.mirror }
        else level.mirror).addOrder (mirrorHeap h) r =
      ((if inserted then { level with price := (h.read r).price } else level).addOrder h
        r).mirror := by
    intro level
    split <;> rfl
  have himage := hplace.update Price.mirror_injective (k := (h.read r).price)
    (u := fun level => (if inserted then { level with price := (h.read r).price }
      else level).addOrder h r)
    (w := fun level => (if inserted then { level with price := (h.read r).price.mirror }
      else level).addOrder (mirrorHeap h) r) hadd
  have hbook := hset.withLevels himage (enter_mirrorable (hset.mirrorable s) hprice _)
  have hlevel : ∀ level : Option PriceLevel,
      (level.map PriceLevel.mirror).getD {} = (level.getD {}).mirror := by
    intro level
    cases level with
    | none => exact hdefault.symm
    | some level => rfl
  simp only [himage.find? Price.mirror_injective, hlevel, hbook.priceLevelIndex_eq hprice]
  obtain ⟨hreported, hevent⟩ := hbook.generateBookUpdate (s := s) (p := (h.read r).price)
    _ _ _ _
  exact ⟨hreported, congrArg (fun e => [e]) hevent⟩

theorem insertResting (hb : b.Mirrors b') (hprice : (h.read r).price.Mirrorable) :
    let x := b.insertResting h r
    let x' := b'.insertResting (mirrorHeap h) r
    x.1.Mirrors x'.1 ∧ x'.2 = x.2.map EngineEvent.mirror := by
  have hside : ((mirrorHeap h).read r).side.bookSide = (h.read r).side.bookSide.opposite :=
    Side.bookSide_mirror (h.read r).side
  have henter := enterLevel_mirrors (s := (h.read r).side.bookSide) hb hprice
  rw [← hside] at henter
  exact henter

/-- {lit}`removeFromBook` with the half it selects as a parameter. -/
def leaveLevel (s : BookSide) (b : OrderBook) (h : Heap Order) (r : OrderRef) :
    OrderBook × List EngineEvent :=
  let p := (h.read r).price
  let b := b.eraseId (h.read r).orderId
  match (b.levels s).find? p with
  | none => (b, [])
  | some level =>
      let levelIdx := b.priceLevelIndex s p
      let level := level.removeOrder h r
      let b := b.withLevels s ((b.levels s).update p fun _ => level)
      let b := b.eraseIfEmpty s p level
      let reported := b.reportLevel s p level levelIdx
      (reported.1, [reported.2])

theorem leaveLevel_mirrors (hb : b.Mirrors b') :
    let x := leaveLevel s b h r
    let x' := leaveLevel s.opposite b' (mirrorHeap h) r
    x.1.Mirrors x'.1 ∧ x'.2 = x.2.map EngineEvent.mirror := by
  have herase := hb.eraseId (h.read r).orderId
  have hid : ((mirrorHeap h).read r).orderId = (h.read r).orderId := rfl
  have hp : ((mirrorHeap h).read r).price = (h.read r).price.mirror := rfl
  have hfind := (herase.levels s).find? Price.mirror_injective (k := (h.read r).price)
  simp only [leaveLevel, hid, hp, hfind]
  cases hlevel : ((b.eraseId (h.read r).orderId).levels s).find? (h.read r).price with
  | none => exact ⟨herase, rfl⟩
  | some level =>
      have hprice := herase.mirrorable s _ (OrderedMap.mem_of_find? hlevel)
      have hremoved : level.mirror.removeOrder (mirrorHeap h) r =
          (level.removeOrder h r).mirror := rfl
      simp only [Option.map_some, hremoved, herase.priceLevelIndex_eq hprice]
      obtain ⟨hreported, hevent⟩ :=
        ((herase.updateLevel (s := s) (p := (h.read r).price)
          (level.removeOrder h r)).eraseIfEmpty (s := s) (p := (h.read r).price)
          (level.removeOrder h r)).reportLevel (s := s) (p := (h.read r).price)
          (level.removeOrder h r)
          ((b.eraseId (h.read r).orderId).priceLevelIndex s (h.read r).price)
      exact ⟨hreported, congrArg (fun e => [e]) hevent⟩

theorem removeFromBook (hb : b.Mirrors b') :
    let x := b.removeFromBook h r
    let x' := b'.removeFromBook (mirrorHeap h) r
    x.1.Mirrors x'.1 ∧ x'.2 = x.2.map EngineEvent.mirror := by
  have hside : ((mirrorHeap h).read r).side.bookSide = (h.read r).side.bookSide.opposite :=
    Side.bookSide_mirror (h.read r).side
  have hleave := leaveLevel_mirrors (s := (h.read r).side.bookSide) (h := h) (r := r) hb
  rw [← hside] at hleave
  exact hleave

/-! ## Calls -/

theorem cancelRest (hb : b.Mirrors b') :
    OutcomeMirrors (b.cancelRest h r) (b'.cancelRest (mirrorHeap h) r) := by
  have hheap : (mirrorHeap h).modify r (fun o => { o with status := .canceled }) =
      mirrorHeap (h.modify r fun o => { o with status := .canceled }) :=
    Heap.modify_map fun _ => rfl
  unfold OrderBook.cancelRest
  rw [hheap]
  exact ⟨rfl, hb, rfl⟩

theorem restOrder (hb : b.Mirrors b') (hprice : (h.read r).price.Mirrorable) :
    OutcomeMirrors (b.restOrder h r) (b'.restOrder (mirrorHeap h) r) := by
  have hfull : ((mirrorHeap h).read r).isFullyFilled = (h.read r).isFullyFilled := rfl
  have htif : ((mirrorHeap h).read r).timeInForce = (h.read r).timeInForce := rfl
  have htype : ((mirrorHeap h).read r).orderType = (h.read r).orderType := rfl
  simp only [OrderBook.restOrder, hfull, htif, htype]
  split
  · exact ⟨rfl, hb, rfl⟩
  · split
    · exact hb.cancelRest
    · split
      · rcases hb.insertResting hprice with ⟨hrested, hevents⟩
        exact ⟨rfl, hrested, hevents⟩
      · split
        · exact hb.cancelRest
        · exact ⟨rfl, hb, rfl⟩

theorem reinsertOrder (hb : b.Mirrors b') (hprice : (h.read r).price.Mirrorable) :
    OutcomeMirrors (b.reinsertOrder h r) (b'.reinsertOrder (mirrorHeap h) r) := by
  have hfull : ((mirrorHeap h).read r).isFullyFilled = (h.read r).isFullyFilled := rfl
  have htype : ((mirrorHeap h).read r).orderType = (h.read r).orderType := rfl
  simp only [OrderBook.reinsertOrder, hfull, htype]
  split
  · rcases hb.insertResting hprice with ⟨hrested, hevents⟩
    exact ⟨rfl, hrested, hevents⟩
  · exact ⟨rfl, hb, rfl⟩

/-- Matching leaves the price of the order in hand alone. -/
theorem matchOrder_price (b : OrderBook) (h : Heap Order) (t : OrderRef) :
    ((b.matchOrder h t).heap.read t).price = (h.read t).price :=
  Order.field_of_terms Order.price (b.matchOrder_read_terms h t t) fun _ => rfl

theorem addOrder (hb : b.Mirrors b') (hprice : (h.read t).price.Mirrorable) :
    OutcomeMirrors (b.addOrder h t) (b'.addOrder (mirrorHeap h) t) := by
  have htif : ((mirrorHeap h).read t).timeInForce = (h.read t).timeInForce := rfl
  have hcheck : b'.canFillFOK ((mirrorHeap h).read t) = b.canFillFOK (h.read t) :=
    hb.canFillFOK_eq hprice
  have hmatched := hb.matchOrder hprice
  have hrested := hmatched.book.restOrder (h := (b.matchOrder h t).heap) (r := t)
    (by rw [matchOrder_price]; exact hprice)
  simp only [OrderBook.addOrder, htif, hcheck]
  split
  · exact ⟨rfl, hb, rfl⟩
  · rw [hmatched.heap_eq]
    refine ⟨hrested.heap_eq, hrested.book, ?_⟩
    simp only [hmatched.events_eq, hrested.events_eq, List.map_append, List.map_cons]
    rfl

theorem cancelOrder (hb : b.Mirrors b') (orderId : OrderId) :
    OutcomeMirrors (b.cancelOrder h orderId) (b'.cancelOrder (mirrorHeap h) orderId) := by
  simp only [OrderBook.cancelOrder, hb.ordersById_eq]
  cases b.ordersById orderId with
  | none => exact ⟨rfl, hb, rfl⟩
  | some r =>
      rcases hb.removeFromBook (h := h) (r := r) with ⟨hremoved, hevents⟩
      have hcancelled := hremoved.cancelRest (h := h) (r := r)
      refine ⟨hcancelled.heap_eq, hcancelled.book, ?_⟩
      simp only [hevents, hcancelled.events_eq, List.map_append]

theorem modifyOrder (hb : b.Mirrors b') (orderId : OrderId) (hp : p.Mirrorable)
    (newQty : Int) (newClOrdId : ClOrdId) :
    OutcomeMirrors (b.modifyOrder h orderId p newQty newClOrdId)
      (b'.modifyOrder (mirrorHeap h) orderId p.mirror newQty newClOrdId) := by
  simp only [OrderBook.modifyOrder, hb.ordersById_eq]
  cases b.ordersById orderId with
  | none => exact ⟨rfl, hb, rfl⟩
  | some r =>
      rcases hb.removeFromBook (h := h) (r := r) with ⟨hremoved, hevents⟩
      have hheap : (mirrorHeap h).modify r
            (fun o => modifiedOrder o p.mirror newQty newClOrdId) =
          mirrorHeap (h.modify r fun o => modifiedOrder o p newQty newClOrdId) :=
        Heap.modify_map fun _ => rfl
      have hprice : ((h.modify r fun o => modifiedOrder o p newQty newClOrdId).read
          r).price.Mirrorable := by
        rw [Heap.read_modify_self]
        exact hp
      have hmatched := hremoved.matchOrder hprice
      have hrested := hmatched.book.reinsertOrder (r := r)
        (h := ((b.removeFromBook h r).1.matchOrder
          (h.modify r fun o => modifiedOrder o p newQty newClOrdId) r).heap)
        (by rw [matchOrder_price]; exact hprice)
      simp only [hheap, hmatched.heap_eq]
      refine ⟨hrested.heap_eq, hrested.book, ?_⟩
      simp only [hevents, hmatched.events_eq, hrested.events_eq, List.map_append, List.map_cons]
      rfl

end Mirrors

/-- The mirror of what a call leaves behind. -/
def Outcome.mirror (x : Outcome) (hx : x.book.Mirrorable) : Outcome where
  heap := mirrorHeap x.heap
  book := x.book.mirror hx
  events := x.events.map EngineEvent.mirror

theorem Mirrors.OutcomeMirrors.eq_mirror {x x' : Outcome}
    (hx : Mirrors.OutcomeMirrors x x') : x' = x.mirror hx.book.mirrorable := by
  have hok := hx.book.mirrorable
  change x' = x.mirror hok
  have hbook : x'.book = x.book.mirror hok := hx.book.eq_mirror
  rcases hx with ⟨hheap, -, hevents⟩
  rcases x' with ⟨h', b', es'⟩
  simp only at hheap hbook hevents
  rw [hheap, hbook, hevents]
  rfl

end OrderBook

/-- The mirror of a book and its orders. -/
def BookState.mirror (s : BookState) (hs : s.book.Mirrorable) : BookState where
  heap := mirrorHeap s.heap
  book := s.book.mirror hs

def BookOp.mirror : BookOp → BookOp
  | .add o => .add o.mirror
  | .cancel orderId => .cancel orderId
  | .modify orderId newPrice newQty newClOrdId =>
      .modify orderId newPrice.mirror newQty newClOrdId

/-- The price of a call has a negation. -/
def BookOp.Mirrorable : BookOp → Prop
  | .add o => o.price.Mirrorable
  | .cancel _ => True
  | .modify _ newPrice _ _ => newPrice.Mirrorable

/-- One call on the mirror of a book. -/
theorem BookState.mirrors_outcome (s : BookState) (hs : s.book.Mirrorable) {op : BookOp}
    (hop : op.Mirrorable) :
    OrderBook.Mirrors.OutcomeMirrors (s.outcome op) ((s.mirror hs).outcome op.mirror) := by
  have hmirrors := s.book.mirrors_mirror hs
  cases op with
  | add o =>
      have hprice : ((s.heap.alloc o).read s.heap.next).price.Mirrorable := by
        rw [Heap.read_alloc_next]
        exact hop
      have halloc : (mirrorHeap s.heap).alloc o.mirror = mirrorHeap (s.heap.alloc o) :=
        Heap.alloc_map o
      have hadd := hmirrors.addOrder hprice
      rw [← halloc] at hadd
      exact hadd
  | cancel orderId => exact hmirrors.cancelOrder orderId
  | modify orderId newPrice newQty newClOrdId =>
      exact hmirrors.modifyOrder orderId hop newQty newClOrdId

/-- The mirrored calls lead from the mirror of a book to the mirror of where the calls
lead. -/
theorem BookState.run_mirror (ops : List BookOp) (hops : ∀ op ∈ ops, op.Mirrorable) :
    ∀ (s : BookState) (hs : s.book.Mirrorable),
      ∃ hr : (machine.run s ops).1.book.Mirrorable,
        machine.run (s.mirror hs) (ops.map BookOp.mirror) =
          ((machine.run s ops).1.mirror hr, (machine.run s ops).2.map EngineEvent.mirror) := by
  induction ops with
  | nil => exact fun s hs => ⟨hs, rfl⟩
  | cons op ops ih =>
      intro s hs
      rcases List.forall_mem_cons.mp hops with ⟨hfirst, hrest⟩
      have hcall := s.mirrors_outcome hs hfirst
      have hstep : machine.step (s.mirror hs) op.mirror =
          ((machine.step s op).1.mirror hcall.book.mirrorable,
            (machine.step s op).2.map EngineEvent.mirror) := by
        simp only [machine, hcall.eq_mirror]
        rfl
      rcases ih hrest (machine.step s op).1 hcall.book.mirrorable with ⟨hr, hrun⟩
      refine ⟨hr, ?_⟩
      simp only [List.map_cons, Machine.run, hstep, hrun, List.map_append]

/-- On every book, reachable or not, whose prices are not the smallest mantissa, the
mirrored call on the mirror of the book leaves the mirror of the book, the orders and
the events of the call. -/
theorem mirror_symmetry (s : BookState) (hs : s.book.Mirrorable) (op : BookOp)
    (hop : op.Mirrorable) :
    ∃ hr : (s.outcome op).book.Mirrorable,
      (s.mirror hs).outcome op.mirror = (s.outcome op).mirror hr :=
  ⟨(s.mirrors_outcome hs hop).book.mirrorable, (s.mirrors_outcome hs hop).eq_mirror⟩

/-- A sell order that sweeps one bid and rests is, on the mirror, a buy order that
sweeps one ask and rests. -/
theorem mirror_symmetry_of_swept_bid :
    let ops : List BookOp :=
      [.add { orderId := 1, side := .buy, price := ⟨100⟩, quantity := 5 },
        .add { orderId := 2, side := .buy, price := ⟨99⟩, quantity := 3 },
        .add { orderId := 3, side := .sell, price := ⟨103⟩, quantity := 4 }]
    let s := (BookState.machine.run (.empty 7) ops).1
    let op : BookOp := .add { orderId := 4, side := .sell, price := ⟨100⟩, quantity := 8 }
    ∃ (hs : s.book.Mirrorable) (hr : (s.outcome op).book.Mirrorable),
      (s.mirror hs).outcome op.mirror = (s.outcome op).mirror hr := by
  intro ops s op
  have hs : s.book.Mirrorable := by
    intro side
    cases side <;> decide
  have hop : op.Mirrorable := by
    simp only [op, BookOp.Mirrorable]
    decide
  exact ⟨hs, mirror_symmetry s hs op hop⟩

end SimCme
