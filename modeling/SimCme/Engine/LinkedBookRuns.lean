import SimCme.Engine.LinkedBook

/-!
# The linked book implements the listed one

The book that keeps its queues in the links of the orders simulates the book that
lists them.  The ends in its level maps are those of the listed queues, the links
spell the queues, and an order in no level has no links.  Every edit of one level
preserves this, because the queues of a book share no order.

Main results:

- Theorem {lit}`LinkedBy.edit`: an edit of one level relinks the orders of that
  level only.
- Theorem {lit}`OrderBook.matchQueue_ends`: the inner loop ends within one turn more
  than there are orders, with the book, the level and the events of the listed loop.
- Theorem {lit}`LinkedBookState.simulates`: every call is simulated.
- Theorem {lit}`linked_book_implements`: so is every run.
-/

namespace SimCme

open Library OrderHeap

/-! ## The relation between the books -/

/-- The links spell the queues of a book, and an order in no level has none. -/
structure LinkedBy (h : OrderHeap) (b : OrderBook) : Prop where
  linked : ∀ s, ∀ e ∈ (b.levels s).entries, (links h).Linked e.2.queue
  unlinked : ∀ r, ¬b.Resting r → (links h).prev r = none ∧ (links h).next r = none

namespace OrderBook

variable (b : OrderBook) (s : BookSide) (p : Price) (level : PriceLevel)

/-- The book that keeps the ends of the levels. -/
def ends : LinkedOrderBook where
  securityId := b.securityId
  bidLevels := b.bidLevels.mapValues PriceLevel.ends
  askLevels := b.askLevels.mapValues PriceLevel.ends
  ordersById := b.ordersById
  nextTradeId := b.nextTradeId
  rptSeq := b.rptSeq

@[simp]
theorem levels_ends : b.ends.levels s = (b.levels s).mapValues PriceLevel.ends := by
  cases s <;> rfl

@[simp]
theorem withLevels_ends (m : LevelMap s) :
    b.ends.withLevels s (m.mapValues PriceLevel.ends) = (b.withLevels s m).ends := by
  cases s <;> rfl

/-- A new level has no ends. -/
theorem tryEmplace_ends (m : LevelMap s) :
    (m.mapValues PriceLevel.ends).tryEmplace p {} =
      (m.tryEmplace p {}).mapValues PriceLevel.ends :=
  (m.mapValues_tryEmplace PriceLevel.ends p {}).symm

@[simp]
theorem eraseId_ends (id : OrderId) : b.ends.eraseId id = (b.eraseId id).ends :=
  rfl

@[simp]
theorem setId_ends (id : OrderId) (order : OrderRef) :
    b.ends.setId id order = (b.setId id order).ends :=
  rfl

@[simp]
theorem priceLevelIndex_ends : b.ends.priceLevelIndex s p = b.priceLevelIndex s p := by
  simp [LinkedOrderBook.priceLevelIndex, priceLevelIndex]

theorem generateBookUpdate_ends (newQty newCount : Int) (action : MDUpdateAction)
    (levelIdx : Nat) :
    b.ends.generateBookUpdate s p newQty newCount action levelIdx =
      ((b.generateBookUpdate s p newQty newCount action levelIdx).1.ends,
        (b.generateBookUpdate s p newQty newCount action levelIdx).2) :=
  rfl

theorem reportLevel_ends (levelIdx : Nat) :
    b.ends.reportLevel s p level.ends levelIdx =
      ((b.reportLevel s p level levelIdx).1.ends, (b.reportLevel s p level levelIdx).2) := by
  simp only [LinkedOrderBook.reportLevel, reportLevel, PriceLevel.empty_ends]
  split
  · rfl
  · rfl

@[simp]
theorem eraseIfEmpty_ends :
    b.ends.eraseIfEmpty s p level.ends = (b.eraseIfEmpty s p level).ends := by
  simp only [LinkedOrderBook.eraseIfEmpty, eraseIfEmpty, PriceLevel.empty_ends]
  split
  · rw [levels_ends, ← OrderedMap.mapValues_erase, withLevels_ends]
  · rfl

theorem canFillLevels_ends (stop : Price → Bool) (needed : Int)
    (entries : List (Price × PriceLevel)) :
    LinkedOrderBook.canFillLevels stop needed (entries.map (Prod.map id PriceLevel.ends)) =
      canFillLevels stop needed entries := by
  induction entries generalizing needed with
  | nil => rfl
  | cons e rest ih =>
      simp only [List.map_cons, LinkedOrderBook.canFillLevels, canFillLevels, ih]
      rfl

@[simp]
theorem canFillFOK_ends (o : Order) : b.ends.canFillFOK o = b.canFillFOK o := by
  simp only [LinkedOrderBook.canFillFOK, canFillFOK, levels_ends, OrderedMap.entries_mapValues,
    canFillLevels_ends]

end OrderBook

/-! ## Edits of one level -/

namespace LinkedBy

variable {h h' : OrderHeap} {b b' : OrderBook} {r : OrderRef}

/-- Only the links matter. -/
theorem congr (hlinked : LinkedBy h b) (hlinks : links h' = links h) : LinkedBy h' b where
  linked := by
    rw [hlinks]
    exact hlinked.linked
  unlinked := by
    rw [hlinks]
    exact hlinked.unlinked

theorem new (securityId : SecurityId) : LinkedBy .empty { securityId := securityId } where
  linked s e he := by cases s <;> simp [OrderBook.levels] at he
  unlinked _ _ := ⟨rfl, rfl⟩

/-- A new order object has no links. -/
theorem alloc (hlinked : LinkedBy h b) (hinv : BookInv (orders h) b) (o : Order) :
    LinkedBy (allocOrder h o) b := by
  have hread : ∀ {r}, r ≠ h.next → (allocOrder h o).read r = h.read r := fun hne =>
    h.read_alloc_of_ne _ hne
  constructor
  · intro s e he
    have hne : ∀ r ∈ e.2.queue, r ≠ h.next := by
      intro r hr
      exact (hinv.allocated r ⟨s, OrderBook.mem_queued_iff.mpr ⟨e, he, hr⟩⟩).ne
    apply (hlinked.linked s e he).congr
    · intro r hr
      exact congrArg LinkedOrder.prevInLevel (hread (hne r hr))
    · intro r hr
      exact congrArg LinkedOrder.nextInLevel (hread (hne r hr))
  · intro r hr
    by_cases hnext : r = h.next
    · subst hnext
      rw [← prevInLevel_read, ← nextInLevel_read, allocOrder, h.read_alloc_next]
      exact ⟨rfl, rfl⟩
    · rw [← prevInLevel_read, ← nextInLevel_read, hread hnext]
      exact hlinked.unlinked r hr

/-- An edit of one level relinks the orders of that level only. -/
theorem edit {e : LevelEdit} (hlinked : LinkedBy h b) (hinv : BookInv (orders h) b)
    (he : e.Applies b b')
    (hnew : (links h').Linked (levelQueue e.new))
    (hsource : ∀ r ∈ levelQueue e.new, r ∈ levelQueue e.old ∨ ¬b.Resting r)
    (hframe : ∀ r, r ∉ levelQueue e.old → r ∉ levelQueue e.new →
      (links h').prev r = (links h).prev r ∧ (links h').next r = (links h).next r)
    (hgone : ∀ r ∈ levelQueue e.old, r ∉ levelQueue e.new →
      (links h').prev r = none ∧ (links h').next r = none) : LinkedBy h' b' := by
  have hperm := LevelEdit.queued_perm he.before
  have hnodup := hperm.nodup_iff.mp (hinv.queued_nodup e.side)
  -- an order outside the old level is not in the new one either, if it rests
  have hkeep : ∀ {s x}, x ∈ (b.levels s).entries →
      (∀ r ∈ x.2.queue, r ∉ levelQueue e.old) → (links h').Linked x.2.queue := by
    intro s x hx hout
    have hsame : ∀ r ∈ x.2.queue,
        (links h').prev r = (links h).prev r ∧ (links h').next r = (links h).next r := by
      intro r hr
      have hresting : b.Resting r := ⟨s, OrderBook.mem_queued_iff.mpr ⟨x, hx, hr⟩⟩
      apply hframe r (hout r hr)
      intro hin
      rcases hsource r hin with hold | hfree
      · exact hout r hr hold
      · exact hfree hresting
    exact (hlinked.linked s x hx).congr (fun r hr => (hsame r hr).1) fun r hr => (hsame r hr).2
  constructor
  · intro s x hx
    rcases BookSide.eq_or_eq_opposite e.side s with rfl | rfl
    · rw [he.after] at hx
      simp only [LevelEdit.entries, List.mem_append, List.mem_map, Option.mem_toList] at hx
      have haround : x ∈ e.pre ++ e.post → (links h').Linked x.2.queue := by
        intro hx
        have hmem : x ∈ (b.levels e.side).entries := by
          rw [he.before]
          simp only [LevelEdit.entries, List.mem_append] at hx ⊢
          tauto
        apply hkeep hmem
        intro r hr hold
        have hr' : r ∈ e.around := by
          rw [LevelEdit.around, ← List.flatMap_append]
          exact List.mem_flatMap.mpr ⟨x, hx, hr⟩
        exact List.disjoint_of_nodup_append hnodup hold hr'
      rcases hx with (hx | ⟨level, hlevel, rfl⟩) | hx
      · exact haround (List.mem_append_left _ hx)
      · rw [hlevel] at hnew
        exact hnew
      · exact haround (List.mem_append_right _ hx)
    · rw [he.opposite] at hx
      apply hkeep hx
      intro r hr hold
      have hself := he.queued_of_old hold
      exact hinv.not_mem_opposite hself (OrderBook.mem_queued_iff.mpr ⟨x, hx, hr⟩)
  · intro r hr
    rw [he.resting_iff hinv, not_or, not_and, not_not] at hr
    by_cases hold : r ∈ levelQueue e.old
    · exact hgone r hold hr.1
    · rw [(hframe r hold hr.1).1, (hframe r hold hr.1).2]
      exact hlinked.unlinked r fun hresting => hold (hr.2 hresting)

/-- The links spell the queue of the level an edit finds. -/
theorem levelQueue_old {e : LevelEdit} (hlinked : LinkedBy h b) (he : e.Applies b b') :
    (links h).Linked (levelQueue e.old) := by
  cases hold : e.old with
  | none => trivial
  | some level =>
      have hmem : (e.price, level) ∈ (b.levels e.side).entries := by
        rw [he.before, hold]
        simp [LevelEdit.entries]
      exact hlinked.linked e.side _ hmem

end LinkedBy

/-! ## One trade -/

namespace OrderBook

open LinkedPriceLevel

theorem executeTrade_ends (b : OrderBook) (h : OrderHeap) (maker taker : OrderRef) (p : Price)
    (qty : Int) :
    ∃ h', orders h' = (b.executeTrade (orders h) maker taker p qty).heap ∧ links h' = links h ∧
      b.ends.executeTrade h maker taker p qty =
        { heap := h'
          book := (b.executeTrade (orders h) maker taker p qty).book.ends
          trade := (b.executeTrade (orders h) maker taker p qty).trade } := by
  refine ⟨(b.ends.executeTrade h maker taker p qty).heap, ?_, ?_, ?_⟩
  · simp [LinkedOrderBook.executeTrade, executeTrade]
  · simp [LinkedOrderBook.executeTrade]
  · simp only [LinkedOrderBook.executeTrade, executeTrade, toOrder_read, orders_modifyFields]
    rfl

/-- A completed maker is unlinked from its level, and no link outside it is written. -/
theorem updateMaker_ends {maker : OrderRef} {level : PriceLevel} {h : OrderHeap} {b : OrderBook}
    (hfull : ((orders h).read maker).isFullyFilled = true) (hin : maker ∈ level.queue)
    (himpl : level.ends.Implements h level) :
    let marked := (orders h).modify maker fun o => { o with status := .filled }
    let left := level.removeOrder marked maker
    ∃ h', orders h' = marked ∧ left.ends.Implements h' left ∧
      (∀ r, r ∉ level.queue →
        (links h').prev r = (links h).prev r ∧ (links h').next r = (links h).next r) ∧
      ((links h').prev maker = none ∧ (links h').next maker = none) ∧
      b.ends.updateMaker h level.ends maker =
        { level := left.ends
          heap := h'
          book := (b.eraseId (marked.read maker).orderId).ends } := by
  let marked := modifyFields h maker fun o => { o with status := .filled }
  have hmarked : level.ends.Implements marked level :=
    implements_ends (by simpa [marked] using himpl.linked) himpl.nodup
  have hremoved := hmarked.removeOrder hin
  have hlevel := hremoved.eq_ends
  refine ⟨(level.ends.removeOrder marked maker).2, ?_, ?_, ?_, ?_, ?_⟩
  · simp [marked]
  · rw [hlevel] at hremoved
    simpa [marked] using hremoved
  · intro r hr
    have hread := hmarked.read_removeOrder hin hr
    have hlinks : links marked = links h := links_modifyFields ..
    rw [← hlinks]
    exact ⟨congrArg LinkedOrder.prevInLevel hread, congrArg LinkedOrder.nextInLevel hread⟩
  · simp
  · have hleft : level.removeOrder (orders marked) maker =
        level.removeOrder ((orders h).modify maker fun o => { o with status := .filled }) maker := by
      rw [orders_modifyFields]
    rw [LinkedOrderBook.updateMaker, toOrder_read, if_pos hfull, ← hleft, ← hlevel]
    simp [marked]

/-- The body of the inner loop, on the ends of the level. -/
theorem matchFront_ends (s : BookSide) (p : Price) (taker : OrderRef) {maker : OrderRef}
    {level : PriceLevel} {h : OrderHeap} (b : OrderBook) (hin : maker ∈ level.queue)
    (himpl : level.ends.Implements h level) :
    let r := matchFront s p taker maker level (orders h) b
    ∃ h', orders h' = r.heap ∧ (links h').Linked r.level.queue ∧
      (∀ x, x ∉ level.queue →
        (links h').prev x = (links h).prev x ∧ (links h').next x = (links h).next x) ∧
      (maker ∉ r.level.queue → (links h').prev maker = none ∧ (links h').next maker = none) ∧
      LinkedOrderBook.matchFront s p taker maker level.ends h b.ends =
        { heap := h', book := r.book.ends, events := r.events, level := r.level.ends } := by
  intro r
  obtain ⟨h₁, horders, hlinks, hexecuted⟩ := executeTrade_ends b h maker taker p
    (tradeQty (orders h) taker maker)
  let level₁ : PriceLevel :=
    { level with totalQuantity := level.totalQuantity - tradeQty (orders h) taker maker }
  have himpl₁ : level₁.ends.Implements h₁ level₁ :=
    implements_ends (by rw [hlinks]; exact himpl.linked) himpl.nodup
  have hqty : min ((orders h).read taker).remainingQty ((orders h).read maker).remainingQty =
      tradeQty (orders h) taker maker := rfl
  have hlevel₁ : { level.ends with
      totalQuantity := level.ends.totalQuantity - tradeQty (orders h) taker maker } =
        level₁.ends := rfl
  cases hfull : ((orders h₁).read maker).isFullyFilled with
  | true =>
      obtain ⟨h₂, horders₂, himpl₂, hframe, hgone, hupdated⟩ :=
        updateMaker_ends (b := (b.executeTrade (orders h) maker taker p
          (tradeQty (orders h) taker maker)).book) hfull (show maker ∈ level₁.queue from hin) himpl₁
      refine ⟨modifyFields h₂ taker fun o =>
        { o with status := if o.isFullyFilled then .filled else .partiallyFilled },
        ?_, ?_, ?_, ?_, ?_⟩
      · simp [r, matchFront, hqty, ← horders, hfull, horders₂]
      · simpa [r, matchFront, hqty, ← horders, hfull, horders₂] using himpl₂.linked
      · intro x hx
        have hx' := hframe x hx
        rw [hlinks] at hx'
        simpa using hx'
      · intro _
        simpa using hgone
      · simp only [LinkedOrderBook.matchFront, toOrder_read, hqty, hexecuted, hlevel₁, hupdated,
          orders_modifyFields, horders₂, levels_ends, ← OrderedMap.mapValues_update,
          withLevels_ends, priceLevelIndex_ends, reportLevel_ends]
        simp [r, matchFront, hqty, ← horders, hfull, level₁]
  | false =>
      refine ⟨modifyFields (modifyFields h₁ maker fun o => { o with status := .partiallyFilled })
        taker fun o => { o with status := if o.isFullyFilled then .filled else .partiallyFilled },
        ?_, ?_, ?_, ?_, ?_⟩
      · simp [r, matchFront, hqty, ← horders, hfull]
      · simpa [r, matchFront, hqty, ← horders, hfull] using himpl₁.linked
      · simp [hlinks]
      · intro hout
        simp [r, matchFront, hqty, ← horders, hfull, hin] at hout
      · simp only [LinkedOrderBook.matchFront, LinkedOrderBook.updateMaker, toOrder_read, hqty,
          hexecuted, hlevel₁, hfull, Bool.false_eq_true, if_false, orders_modifyFields,
          levels_ends, ← OrderedMap.mapValues_update, withLevels_ends, priceLevelIndex_ends,
          reportLevel_ends]
        simp [r, matchFront, hqty, ← horders, hfull, level₁]

variable {s : BookSide} {stop : Price → Bool} {taker : OrderRef} {h : OrderHeap} {b : OrderBook}

/-- A level of a linked book implements the listed level. -/
theorem implements_of_mem (hinv : BookInv (orders h) b) (hlinked : LinkedBy h b)
    {e : Price × PriceLevel} (he : e ∈ (b.levels s).entries) : e.2.ends.Implements h e.2 := by
  apply implements_ends (hlinked.linked s e he)
  have hnodup := hinv.queued_nodup s
  unfold queued at hnodup
  exact (List.nodup_flatMap.mp hnodup).1 e he

/-- The body of the inner loop performs the trade, and the links follow. -/
theorem Fill.matchFront_ends (f : Fill s stop taker (orders h) b) (hinv : BookInv (orders h) b)
    (hflight : InFlight (orders h) b taker) (hlinked : LinkedBy h b) :
    ∃ h', orders h' = f.heap ∧ LinkedBy h' f.book ∧
      LinkedOrderBook.matchFront s f.price taker f.maker f.level.ends h b.ends =
        { heap := h', book := f.reported.ends, events := f.events, level := f.left.ends } := by
  have hmem : (f.price, f.level) ∈ (b.levels s).entries := by simp [f.entries_eq]
  have himpl : f.level.ends.Implements h f.level := implements_of_mem hinv hlinked hmem
  have hin : f.maker ∈ f.level.queue := by simp [f.queue_eq]
  obtain ⟨h', horders, hleft, hframe, hgone, hfront⟩ :=
    OrderBook.matchFront_ends s f.price taker b hin himpl
  rw [f.matchFront_eq (f.maker_ne_taker hinv hflight)] at horders hleft hgone hfront
  have hnew : levelQueue f.edit.new = f.left.queue := by
    rw [f.levelQueue_new, f.left_queue]
  have hold : levelQueue f.edit.old = f.level.queue := rfl
  refine ⟨h', horders, ?_, hfront⟩
  apply hlinked.edit hinv f.applies
  · rw [hnew]
    exact hleft
  · intro r hr
    rw [hnew] at hr
    exact Or.inl (f.left_queue_subset hr)
  · intro r hr _
    exact hframe r hr
  · intro r hr hout
    rw [hold] at hr
    rw [hnew] at hout
    by_cases hmaker : r = f.maker
    · rw [hmaker] at hout ⊢
      exact hgone hout
    · -- only the maker leaves the queue
      rw [f.left_queue, f.queue_eq] at hout
      rw [f.queue_eq] at hr
      have hbehind := List.mem_of_ne_of_mem hmaker hr
      split at hout
      · exact (hout hbehind).elim
      · exact (hout hr).elim

/-! ## The loops -/

/-- A turn of the inner loop at a level with a head. -/
theorem linked_matchQueue_succ {p : Price} {maker : OrderRef} {turns : Nat}
    {level : LinkedPriceLevel} {b : LinkedOrderBook} (hfront : level.front = some maker) :
    LinkedOrderBook.matchQueue s p taker (turns + 1) level h b =
      if ((orders h).read taker).remainingQty > 0 then
        let r := LinkedOrderBook.matchFront s p taker maker level h b
        (LinkedOrderBook.matchQueue s p taker turns r.level r.heap r.book).map fun rest =>
          { rest with events := r.events ++ rest.events }
      else some { heap := h, book := b, level := level, events := [] } := by
  rw [LinkedOrderBook.matchQueue, hfront]
  rfl

/-- The inner loop on the best level ends, within one turn more than the level has orders.
The induction is on the listed queue; the links follow it trade by trade. -/
theorem matchQueue_ends {p : Price} {rest : List (Price × PriceLevel)} (hstop : stop p = false)
    {queue : List OrderRef} :
    ∀ {level : PriceLevel} {h : OrderHeap} {b : OrderBook} {turns : Nat},
      BookInv (orders h) b → InFlight (orders h) b taker → LinkedBy h b →
      (b.levels s).entries = (p, level) :: rest → level.queue = queue → queue ≠ [] →
      queue.length < turns →
      let r := matchQueue s p taker queue level (orders h) b
      ∃ h', orders h' = r.heap ∧ LinkedBy h' (r.book.eraseIfEmpty s p r.level) ∧
        LinkedOrderBook.matchQueue s p taker turns level.ends h b.ends =
          some { heap := h', book := r.book.ends, events := r.events, level := r.level.ends } := by
  induction queue with
  | nil =>
      intro level h b turns _ _ _ _ _ hnil
      contradiction
  | cons maker queue ih =>
      intro level h b turns hinv hflight hlinked hentries hqueue _ hturns
      cases turns with
      | zero => exact (Nat.not_lt_zero _ hturns).elim
      | succ turns =>
      have hfront : level.ends.front = some maker := by
        simp [LinkedPriceLevel.front, PriceLevel.ends, hqueue]
      simp only [matchQueue, linked_matchQueue_succ hfront]
      by_cases hpos : ((orders h).read taker).remainingQty > 0
      · let f : Fill s stop taker (orders h) b :=
          ⟨p, level, rest, maker, queue, hentries, hqueue, hpos, hstop⟩
        have hne : maker ≠ taker := f.maker_ne_taker hinv hflight
        have hbody : matchFront s p taker maker level (orders h) b =
            ⟨⟨f.heap, f.reported, f.events⟩, f.left⟩ := f.matchFront_eq hne
        rcases f.matchFront_ends hinv hflight hlinked with ⟨h₁, horders, hlinked₁, hbody'⟩
        have hbody' : LinkedOrderBook.matchFront s p taker maker level.ends h b.ends =
            ⟨⟨h₁, f.reported.ends, f.events⟩, f.left.ends⟩ := hbody'
        have hmaker : (f.heap.read maker).isFullyFilled = f.completes :=
          congrArg Order.isFullyFilled (f.read_maker hne)
        have hleft := f.left_queue
        have hinv₁ := f.bookInv hinv hflight
        have hflight₁ := f.inFlight hflight
        rw [← horders] at hinv₁ hflight₁
        have hne₀ : turns ≠ 0 := by
          simp only [List.length_cons] at hturns
          omega
        rcases Nat.exists_eq_succ_of_ne_zero hne₀ with ⟨turns, rfl⟩
        rw [if_pos hpos, if_pos hpos, hbody, hbody']
        simp only [hmaker]
        by_cases hfull : f.completes
        · rw [if_pos hfull] at hleft ⊢
          cases queue with
          | nil =>
              refine ⟨h₁, horders, hlinked₁, ?_⟩
              have hnone : f.left.ends.front = none := by
                rw [LinkedPriceLevel.front, PriceLevel.ends, hleft]
                rfl
              simp [matchQueue, LinkedOrderBook.matchQueue, hnone]
          | cons next queue =>
              rcases f.next_of_completes hfull (by simp [f]) with ⟨hbook, hafter, hleft⟩
              rw [← hbook] at hinv₁ hflight₁ hlinked₁ hafter
              obtain ⟨h', horders', hlinked', hrest⟩ := ih hinv₁ hflight₁ hlinked₁
                hafter hleft (by simp) (Nat.lt_of_succ_lt_succ hturns)
              rw [horders] at horders' hlinked' hrest
              refine ⟨h', horders', hlinked', ?_⟩
              simp only [hrest, Option.map_some]
        · rw [if_neg hfull] at hleft ⊢
          have hsome : f.left.ends.front = some maker := by
            rw [LinkedPriceLevel.front, PriceLevel.ends, hleft, f.queue_eq]
            rfl
          have hdone : ¬((orders h₁).read taker).remainingQty > 0 := by
            have hlt := mt f.completes_iff.mpr hfull
            rw [horders, f.remainingQty_taker]
            unfold Fill.qty tradeQty
            omega
          refine ⟨h₁, horders, hlinked₁, ?_⟩
          simp [linked_matchQueue_succ hsome, hdone]
      · rw [if_neg hpos, if_neg hpos]
        have hne : level.queue ≠ [] := by simp [hqueue]
        refine ⟨h, rfl, ?_, rfl⟩
        rw [eraseIfEmpty_of_queue_ne_nil hne]
        exact hlinked

/-- No queue is longer than there are orders. -/
theorem queue_length_le {h : Heap Order} (hinv : BookInv h b) {e : Price × PriceLevel}
    (he : e ∈ (b.levels s).entries) : e.2.queue.length ≤ h.next := by
  have hnodup : e.2.queue.Nodup := by
    have hqueued := hinv.queued_nodup s
    unfold queued at hqueued
    exact (List.nodup_flatMap.mp hqueued).1 e he
  have hsubset : e.2.queue ⊆ List.range h.next := by
    intro r hr
    exact List.mem_range.mpr (hinv.allocated r ⟨s, mem_queued_iff.mpr ⟨e, he, hr⟩⟩)
  simpa using List.Nodup.length_le_of_subset hnodup hsubset

/-- One pass of the outer loop. -/
theorem linked_matchLevels_cons {turns : Nat} {p : Price} {level : LinkedPriceLevel}
    {rest : List (Price × LinkedPriceLevel)} {b : LinkedOrderBook} :
    LinkedOrderBook.matchLevels s stop taker turns ((p, level) :: rest) h b =
      if ((orders h).read taker).remainingQty > 0 then
        if stop p then some { heap := h, book := b, events := [] }
        else
          (LinkedOrderBook.matchQueue s p taker turns level h b).bind fun r =>
            (LinkedOrderBook.matchLevels s stop taker turns rest r.heap
              (r.book.eraseIfEmpty s p r.level)).map fun next =>
                { next with events := r.events ++ next.events }
      else some { heap := h, book := b, events := [] } :=
  rfl

theorem linked_matchLevels_of_done {turns : Nat} {b : LinkedOrderBook}
    (hdone : ((orders h).read taker).remainingQty ≤ 0)
    (entries : List (Price × LinkedPriceLevel)) :
    LinkedOrderBook.matchLevels s stop taker turns entries h b =
      some { heap := h, book := b, events := [] } := by
  cases entries with
  | nil => rfl
  | cons e rest => rw [linked_matchLevels_cons, if_neg (not_lt.mpr hdone)]

/-- The outer loop, with turns for every order there is. -/
theorem matchLevels_ends (s : BookSide) (stop : Price → Bool) {turns : Nat} {entries : List (Price × PriceLevel)} :
    ∀ {h : OrderHeap} {b : OrderBook}, BookInv (orders h) b → InFlight (orders h) b taker →
      LinkedBy h b → (b.levels s).entries = entries → (orders h).next < turns →
      let r := matchLevels s stop taker entries (orders h) b
      ∃ h', orders h' = r.heap ∧ LinkedBy h' r.book ∧
        LinkedOrderBook.matchLevels s stop taker turns
            (entries.map (Prod.map id PriceLevel.ends)) h b.ends =
          some { heap := h', book := r.book.ends, events := r.events } := by
  induction entries with
  | nil =>
      intro h b _ _ hlinked _ _
      exact ⟨h, rfl, hlinked, rfl⟩
  | cons e rest ih =>
      intro h b hinv hflight hlinked hentries hturns
      rcases e with ⟨p, level⟩
      simp only [matchLevels, List.map_cons, Prod.map_apply, id_eq, linked_matchLevels_cons]
      by_cases hpos : ((orders h).read taker).remainingQty > 0
      · rw [if_pos hpos, if_pos hpos]
        by_cases hstop : stop p
        · rw [if_pos hstop, if_pos hstop]
          exact ⟨h, rfl, hlinked, rfl⟩
        · rw [if_neg hstop, if_neg hstop]
          have hstop' : stop p = false := by simpa using hstop
          have hmem : (p, level) ∈ (b.levels s).entries := by simp [hentries]
          have hne := (hinv.level_inv s (p, level) hmem).queue_ne_nil
          have hlength := (queue_length_le hinv hmem).trans_lt hturns
          obtain ⟨h₁, horders, hlinked₁, hqueue⟩ :=
            matchQueue_ends hstop' hinv hflight hlinked hentries rfl hne hlength
          rcases matchQueue_fills hstop' hinv hflight hentries rfl hne with ⟨hfills, hend⟩
          rcases hfills.bookInv hinv hflight with ⟨hinv₁, hflight₁⟩
          rw [← horders] at hinv₁ hflight₁ hend
          have hturns₁ : (orders h₁).next < turns := by
            rw [horders, hfills.next_eq]
            exact hturns
          simp only [hqueue, Option.bind_some, eraseIfEmpty_ends]
          by_cases hdone : ((orders h₁).read taker).remainingQty ≤ 0
          · rw [linked_matchLevels_of_done hdone, ← horders, matchLevels_of_done hdone]
            exact ⟨h₁, rfl, hlinked₁, rfl⟩
          · obtain ⟨h', horders', hlinked', hrest⟩ :=
              ih hinv₁ hflight₁ hlinked₁ (hend.resolve_left hdone) hturns₁
            rw [horders] at horders' hlinked' hrest
            refine ⟨h', horders', hlinked', ?_⟩
            simp only [hrest, Option.map_some]
      · rw [if_neg hpos, if_neg hpos]
        exact ⟨h, rfl, hlinked, rfl⟩

/-- Matching takes turns for every order there is, and ends with the same book. -/
theorem matchOrder_ends {turns : Nat} (hinv : BookInv (orders h) b)
    (hflight : InFlight (orders h) b taker) (hlinked : LinkedBy h b)
    (hturns : (orders h).next < turns) :
    let r := b.matchOrder (orders h) taker
    ∃ h', orders h' = r.heap ∧ LinkedBy h' r.book ∧
      b.ends.matchOrder turns h taker =
        some { heap := h', book := r.book.ends, events := r.events } := by
  have hlevels := matchLevels_ends (takerSide ((orders h).read taker))
    (takerStop ((orders h).read taker)) hinv hflight hlinked rfl hturns
  have hends : b.ends.matchOrder turns h taker =
      LinkedOrderBook.matchLevels (takerSide ((orders h).read taker))
        (takerStop ((orders h).read taker)) taker turns
        ((b.levels (takerSide ((orders h).read taker))).entries.map (Prod.map id PriceLevel.ends))
        h b.ends := by
    rw [← OrderedMap.entries_mapValues, ← levels_ends]
    unfold takerStop
    by_cases htype : ((orders h).read taker).orderType = .market
    · rw [if_pos htype]
      exact if_pos htype
    · rw [if_neg htype]
      exact if_neg htype
  intro r
  rw [hends, show r = _ from matchOrder_eq b (orders h) taker]
  exact hlevels

/-! ## Entering and leaving the book -/

/-- An order joins the queue of its price through the links. -/
theorem insertResting_ends {order : OrderRef} (hinv : BookInv (orders h) b)
    (hlinked : LinkedBy h b) (hfree : ¬b.Resting order) :
    let r := b.insertResting (orders h) order
    ∃ h', orders h' = orders h ∧ LinkedBy h' r.1 ∧
      b.ends.insertResting h order = { heap := h', book := r.1.ends, events := r.2 } := by
  rcases insertResting_spec b (orders h) order with ⟨e, he⟩
  have hold := he.applies.find?_price (by simp [he.new_eq])
  rw [he.side_eq, he.price_eq] at hold
  have hin : ∀ r ∈ levelQueue e.old, b.Resting r := fun r hr =>
    ⟨_, he.applies.queued_of_old hr⟩
  let joined := e.old.getD { price := ((orders h).read order).price }
  have hqueue : joined.queue = levelQueue e.old := by
    cases hlevel : e.old with
    | none => simp [joined, levelQueue, hlevel]
    | some level => simp [joined, levelQueue, hlevel]
  have hout : order ∉ joined.queue := by
    rw [hqueue]
    exact fun hr => hfree (hin order hr)
  have himpl : joined.ends.Implements h joined := by
    apply implements_ends
    · rw [hqueue]
      exact hlinked.levelQueue_old he.applies
    · rw [hqueue]
      exact he.applies.old_nodup hinv
  have hadded := himpl.addOrder hout
  have hnew : levelQueue e.new = joined.queue ++ [order] := by
    rw [he.new_eq]
    rfl
  refine ⟨(joined.ends.addOrder h order).2, ?_, ?_, ?_⟩
  · simp
  · apply hlinked.edit hinv he.applies
    · rw [hnew]
      exact hadded.linked
    · intro r hr
      rw [hnew, hqueue, List.mem_append, List.mem_singleton] at hr
      rcases hr with hr | rfl
      · exact Or.inl hr
      · exact Or.inr hfree
    · intro r hr hr'
      rw [hnew, List.mem_append, List.mem_singleton, not_or] at hr'
      have hread := himpl.read_addOrder hr'.2 hr'.1
      exact ⟨congrArg LinkedOrder.prevInLevel hread, congrArg LinkedOrder.nextInLevel hread⟩
    · intro r hr hr'
      rw [hnew, hqueue] at hr'
      exact (hr' (List.mem_append_left _ hr)).elim
  · have hjoin : (if e.old.isNone then
        { e.old.getD {} with price := ((orders h).read order).price } else e.old.getD {}) =
          joined := by
      cases hlevel : e.old with
      | none => simp [joined, hlevel]
      | some level => simp [joined, hlevel]
    have hjoin' : (if e.old.isNone then
        { (e.old.getD {}).ends with price := ((orders h).read order).price }
        else (e.old.getD {}).ends) = joined.ends := by
      rw [← hjoin]
      split
      · rfl
      · rfl
    have hfound := OrderedMap.find?_tryEmplace
      (b.levels ((orders h).read order).side.bookSide) ((orders h).read order).price {}
    rw [hold] at hfound
    have hlevel : (joined.ends.addOrder h order).1 = (joined.addOrder (orders h) order).ends :=
      hadded.eq_ends
    simp only [LinkedOrderBook.insertResting, toOrder_read, setId_ends, levels_ends,
      levels_setId, OrderedMap.find?_mapValues, Option.isNone_map, hold, tryEmplace_ends, hfound,
      Option.map_some, Option.getD_some, hjoin', hlevel]
    simp only [← OrderedMap.mapValues_update, withLevels_ends, priceLevelIndex_ends,
      generateBookUpdate_ends]
    simp only [insertResting, levels_setId, hold, OrderedMap.find?_update, hfound,
      OrderedMap.update_of_find? _ hfound, hjoin, Option.map_some, Option.getD_some]
    rfl

/-- A resting order leaves the queue of its price through the links. -/
theorem removeFromBook_ends {order : OrderRef} (hinv : BookInv (orders h) b)
    (hlinked : LinkedBy h b) (hr : b.Resting order) :
    let r := b.removeFromBook (orders h) order
    ∃ h', orders h' = orders h ∧ LinkedBy h' r.1 ∧
      b.ends.removeFromBook h order = { heap := h', book := r.1.ends, events := r.2 } := by
  rcases removeFromBook_spec hinv hr with ⟨e, level, he⟩
  have hfind := he.applies.find?_price (by simp [he.old_eq])
  rw [he.side_eq, he.price_eq, he.old_eq] at hfind
  have hold : levelQueue e.old = level.queue := by
    rw [he.old_eq]
    rfl
  have himpl : level.ends.Implements h level := by
    apply implements_ends
    · rw [← hold]
      exact hlinked.levelQueue_old he.applies
    · rw [← hold]
      exact he.applies.old_nodup hinv
  have hremoved := himpl.removeOrder he.queued
  have hlevel := hremoved.eq_ends
  refine ⟨(level.ends.removeOrder h order).2, ?_, ?_, ?_⟩
  · simp
  · apply hlinked.edit hinv he.applies
    · rw [he.levelQueue_new]
      exact hremoved.linked
    · intro r hr'
      rw [he.levelQueue_new] at hr'
      rw [hold]
      exact Or.inl (List.mem_of_mem_erase hr')
    · intro r hr' _
      rw [hold] at hr'
      have hread := himpl.read_removeOrder he.queued hr'
      exact ⟨congrArg LinkedOrder.prevInLevel hread, congrArg LinkedOrder.nextInLevel hread⟩
    · intro r hr' hout
      rw [hold] at hr'
      rw [he.levelQueue_new, himpl.nodup.mem_erase_iff] at hout
      by_cases heq : r = order
      · simp [heq]
      · exact (hout ⟨heq, hr'⟩).elim
  · simp only [LinkedOrderBook.removeFromBook, removeFromBook, toOrder_read, eraseId_ends,
      levels_ends, levels_eraseId, OrderedMap.find?_mapValues, hfind, Option.map_some, hlevel]
    simp only [← OrderedMap.mapValues_update, withLevels_ends, priceLevelIndex_ends,
      eraseIfEmpty_ends, reportLevel_ends]

/-! ## Whole calls -/

/-- What a linked operation leaves implements what the listed operation leaves. -/
structure Outcome.ImplementedBy (r : Outcome) (o : LinkedOrderBook.Outcome) : Prop where
  heap_eq : orders o.heap = r.heap
  book_eq : o.book = r.book.ends
  events_eq : o.events = r.events
  linkedBy : LinkedBy o.heap r.book

/-- Operations that branch alike. -/
theorem Outcome.ImplementedBy.ite {c : Prop} [Decidable c] {r r' : Outcome}
    {o o' : LinkedOrderBook.Outcome} (hthen : r.ImplementedBy o) (helse : r'.ImplementedBy o') :
    (if c then r else r').ImplementedBy (if c then o else o') := by
  split
  · exact hthen
  · exact helse

/-- Writing the status of an order changes no link. -/
theorem cancelRest_linked (hlinked : LinkedBy h b) (order : OrderRef) :
    (b.cancelRest (orders h) order).ImplementedBy (b.ends.cancelRest h order) where
  heap_eq := by simp [LinkedOrderBook.cancelRest, cancelRest]
  book_eq := rfl
  events_eq := by
    simp only [LinkedOrderBook.cancelRest, cancelRest, toOrder_read, orders_modifyFields]
  linkedBy := hlinked.congr (by simp [LinkedOrderBook.cancelRest])

/-- What {lit}`addOrder` does with an order that has finished matching. -/
theorem restOrder_ends {order : OrderRef} (hinv : BookInv (orders h) b)
    (hlinked : LinkedBy h b) (hfree : ¬b.Resting order) :
    (b.restOrder (orders h) order).ImplementedBy (b.ends.restOrder h order) := by
  have hdone : Outcome.ImplementedBy { heap := orders h, book := b, events := [] }
      { heap := h, book := b.ends, events := [] } := ⟨rfl, rfl, rfl, hlinked⟩
  rcases insertResting_ends hinv hlinked hfree with ⟨h', horders, hlinked', hrested⟩
  have hinserted : Outcome.ImplementedBy
      { heap := orders h
        book := (b.insertResting (orders h) order).1
        events := (b.insertResting (orders h) order).2 } (b.ends.insertResting h order) := by
    rw [hrested]
    exact ⟨horders, rfl, rfl, hlinked'⟩
  have hcancelled := cancelRest_linked hlinked order
  exact .ite hdone (.ite hcancelled (.ite hinserted (.ite hcancelled hdone)))

/-- What {lit}`modifyOrder` does with an order that has finished matching. -/
theorem reinsertOrder_ends {order : OrderRef} (hinv : BookInv (orders h) b)
    (hlinked : LinkedBy h b) (hfree : ¬b.Resting order) :
    (b.reinsertOrder (orders h) order).ImplementedBy (b.ends.reinsertOrder h order) := by
  rcases insertResting_ends hinv hlinked hfree with ⟨h', horders, hlinked', hrested⟩
  apply Outcome.ImplementedBy.ite
  · rw [hrested]
    exact ⟨horders, rfl, rfl, hlinked'⟩
  · exact ⟨rfl, rfl, rfl, hlinked⟩

/-- Adding an order that is in no level. -/
theorem addOrder_ends {order : OrderRef} {turns : Nat} (hinv : BookInv (orders h) b)
    (hflight : InFlight (orders h) b order) (hlinked : LinkedBy h b)
    (hturns : (orders h).next < turns) :
    ∃ o, b.ends.addOrder turns h order = some o ∧
      (b.addOrder (orders h) order).ImplementedBy o := by
  rcases matchOrder_ends hinv hflight hlinked hturns with ⟨h', horders, hlinked', hmatched⟩
  rcases matchOrder_fills hinv hflight with ⟨hfills, -⟩
  rcases hfills.bookInv hinv hflight with ⟨hinv', hflight'⟩
  have hfree := hinv'.not_resting_of_inFlight hflight'
  rw [← horders] at hinv'
  have hrested := restOrder_ends hinv' hlinked' hfree
  rw [horders] at hrested
  simp only [addOrder, LinkedOrderBook.addOrder, toOrder_read, canFillFOK_ends, hmatched,
    Option.map_some]
  split
  · exact ⟨_, rfl, rfl, rfl, rfl, hlinked⟩
  · refine ⟨_, rfl, hrested.heap_eq, hrested.book_eq, ?_, hrested.linkedBy⟩
    rw [hrested.events_eq]

/-- Cancelling, whether or not the order rests. -/
theorem cancelOrder_ends (hinv : BookInv (orders h) b) (hlinked : LinkedBy h b)
    (orderId : OrderId) :
    (b.cancelOrder (orders h) orderId).ImplementedBy (b.ends.cancelOrder h orderId) := by
  cases hindex : b.ordersById orderId with
  | none =>
      have hindex' : b.ends.ordersById orderId = none := hindex
      simp only [cancelOrder, LinkedOrderBook.cancelOrder, hindex, hindex']
      exact ⟨rfl, rfl, rfl, hlinked⟩
  | some order =>
      have hindex' : b.ends.ordersById orderId = some order := hindex
      have hr := ((hinv.indexed orderId order).mp hindex).1
      rcases removeFromBook_ends hinv hlinked hr with ⟨h', horders, hlinked', hremoved⟩
      have hcancelled := cancelRest_linked hlinked' order
      rw [horders] at hcancelled
      simp only [cancelOrder, LinkedOrderBook.cancelOrder, hindex, hindex', hremoved]
      refine ⟨hcancelled.heap_eq, hcancelled.book_eq, ?_, hcancelled.linkedBy⟩
      rw [hcancelled.events_eq]

/-- Modifying, whether or not the order rests. -/
theorem modifyOrder_ends {turns : Nat} (hinv : BookInv (orders h) b) (hlinked : LinkedBy h b)
    (hturns : (orders h).next < turns) (orderId : OrderId) (newPrice : Price) (newQty : Int)
    (newClOrdId : ClOrdId) :
    ∃ o, b.ends.modifyOrder turns h orderId newPrice newQty newClOrdId = some o ∧
      (b.modifyOrder (orders h) orderId newPrice newQty newClOrdId).ImplementedBy o := by
  cases hindex : b.ordersById orderId with
  | none =>
      have hindex' : b.ends.ordersById orderId = none := hindex
      simp only [modifyOrder, LinkedOrderBook.modifyOrder, hindex, hindex']
      exact ⟨_, rfl, rfl, rfl, rfl, hlinked⟩
  | some order =>
      have hindex' : b.ends.ordersById orderId = some order := hindex
      have hr := ((hinv.indexed orderId order).mp hindex).1
      rcases removeFromBook_ends hinv hlinked hr with ⟨h₁, horders₁, hlinked₁, hremoved⟩
      rcases hinv.modified hr newPrice newQty newClOrdId with ⟨hinv₂, hflight₂⟩
      let h₂ := modifyFields h₁ order fun o => modifiedOrder o newPrice newQty newClOrdId
      have horders₂ : orders h₂ = (orders h).modify order fun o =>
          modifiedOrder o newPrice newQty newClOrdId := by
        rw [orders_modifyFields, horders₁]
      have hlinked₂ : LinkedBy h₂ (b.removeFromBook (orders h) order).1 :=
        hlinked₁.congr (links_modifyFields ..)
      have hturns₂ : (orders h₂).next < turns := by
        rw [horders₂]
        exact hturns
      rw [← horders₂] at hinv₂ hflight₂
      obtain ⟨h₃, horders₃, hlinked₃, hmatched⟩ :=
        matchOrder_ends hinv₂ hflight₂ hlinked₂ hturns₂
      rcases matchOrder_fills hinv₂ hflight₂ with ⟨hfills, -⟩
      rcases hfills.bookInv hinv₂ hflight₂ with ⟨hinv₃, hflight₃⟩
      have hfree := hinv₃.not_resting_of_inFlight hflight₃
      rw [← horders₃] at hinv₃
      have hrested := reinsertOrder_ends hinv₃ hlinked₃ hfree
      rw [horders₃] at hrested
      have hmatched : (b.removeFromBook (orders h) order).1.ends.matchOrder turns
          (modifyFields h₁ order fun o => modifiedOrder o newPrice newQty newClOrdId) order = _ :=
        hmatched
      simp only [modifyOrder, LinkedOrderBook.modifyOrder, hindex, hindex', hremoved, hmatched,
        Option.map_some]
      rw [← horders₂]
      refine ⟨_, rfl, hrested.heap_eq, hrested.book_eq, ?_, hrested.linkedBy⟩
      simp only [toOrder_read]
      rw [hrested.events_eq]

end OrderBook

/-! ## Runs -/

/-- A linked book with its orders implements a listed book with its orders. -/
structure LinkedBookState.Implements (s : LinkedBookState) (t : BookState) : Prop where
  heap_eq : orders s.heap = t.heap
  book_eq : s.book = t.book.ends
  linkedBy : LinkedBy s.heap t.book

/-- The invariant of a listed book is kept by every call that brings a fresh order. -/
theorem BookInv.step {s : BookState} {op : BookOp} (hinv : BookInv s.heap s.book)
    (hfresh : op.Fresh s) : BookInv (s.outcome op).heap (s.outcome op).book := by
  have hlaw : BookLaw (fun _ _ => True) fun _ _ _ _ => True := by
    constructor <;> intros <;> trivial
  exact (@BookLaw.step _ _ [] hlaw s op hinv hfresh trivial trivial).2

namespace LinkedBookState

/-- One call on the linked book, within the turns its loops are granted. -/
theorem outcome_ends {h : OrderHeap} {b : OrderBook} {op : BookOp}
    (hinv : BookInv (orders h) b) (hlinked : LinkedBy h b) (hfresh : op.Fresh ⟨orders h, b⟩) :
    ∃ o, outcome ⟨h, b.ends⟩ op = some o ∧
      (BookState.outcome ⟨orders h, b⟩ op).ImplementedBy o := by
  cases op with
  | add order =>
      have hinv' := hinv.alloc order
      have hflight := hinv.inFlight_alloc hfresh
      rw [← orders_allocOrder] at hinv' hflight
      have hadded := OrderBook.addOrder_ends hinv' hflight (hlinked.alloc hinv order)
        (Nat.lt_succ_self _)
      rw [orders_allocOrder] at hadded
      exact hadded
  | cancel orderId => exact ⟨_, rfl, OrderBook.cancelOrder_ends hinv hlinked orderId⟩
  | modify orderId newPrice newQty newClOrdId =>
      exact OrderBook.modifyOrder_ends hinv hlinked (Nat.lt_succ_self _) orderId newPrice
        newQty newClOrdId

/-- Every call that brings a fresh order is simulated. -/
theorem simulates :
    Simulates machine BookState.machine (fun t op => op.Fresh t)
      fun s t => s.Implements t ∧ BookInv t.heap t.book := by
  rintro ⟨h, lb⟩ ⟨h₀, b⟩ op ⟨⟨hheap, hbook, hlinked⟩, hinv⟩ hfresh
  simp only at hheap hbook hlinked hinv
  subst hheap
  subst hbook
  rcases outcome_ends hinv hlinked hfresh with ⟨o, houtcome, himpl⟩
  refine ⟨⟨o.heap, o.book⟩, ?_, ⟨himpl.heap_eq, himpl.book_eq, himpl.linkedBy⟩, hinv.step hfresh⟩
  simp only [machine, BookState.machine, houtcome, Option.map_some, himpl.events_eq]

theorem implements_empty (securityId : SecurityId) :
    (empty securityId).Implements (.empty securityId) where
  heap_eq := rfl
  book_eq := rfl
  linkedBy := .new securityId

end LinkedBookState

/-- A book whose queues are kept by pointers runs as the book that lists them: every loop
ends, the events are the same, and the links spell the queues. -/
theorem linked_book_implements (securityId : SecurityId) (ops : List BookOp)
    (hadmits : BookState.machine.Admits (fun s op => op.Fresh s) (.empty securityId) ops) :
    let listed := BookState.machine.run (.empty securityId) ops
    ∃ s, LinkedBookState.machine.run (.empty securityId) ops = some (s, listed.2) ∧
      s.Implements listed.1 := by
  obtain ⟨s, hrun, himpl, -⟩ := LinkedBookState.simulates.run
    ⟨LinkedBookState.implements_empty securityId, BookInv.empty .empty securityId⟩ hadmits
  exact ⟨s, hrun, himpl⟩

/-- A bid is moved up through two orders of one ask level and into the next. -/
theorem linked_book_implements_moved_bid :
    let ops : List BookOp :=
      [.add { orderId := 1, side := .sell, price := ⟨101⟩, quantity := 4 },
        .add { orderId := 2, side := .sell, price := ⟨100⟩, quantity := 3 },
        .add { orderId := 3, side := .sell, price := ⟨100⟩, quantity := 2 },
        .add { orderId := 4, side := .buy, price := ⟨99⟩, quantity := 7 },
        .modify 4 ⟨101⟩ 7 []]
    let listed := BookState.machine.run (.empty 7) ops
    ∃ s, LinkedBookState.machine.run (.empty 7) ops = some (s, listed.2) ∧
      s.Implements listed.1 :=
  linked_book_implements 7 _ (by decide)

end SimCme
