import SimCme.Engine.EngineRuns
import SimCme.Engine.PriceTime
import SimCme.Library.Ledger

/-!
# The two orders of a fill

A fill names two orders by their ids and the side of one of them.  The other one was on
the opposite half of the book, and since no operation changes the side or the owner of an
order, the orders still bear the fill out at any later time.

Main results:

- Theorem {lit}`fillsBetween_law`: every move of a book reports fills between the orders
  of its two halves.
- Theorem {lit}`fillsBetween_engineLaw`: so does every request.
-/

namespace SimCme

open Library

/-- The fill is a trade of a resting order with an order of the opposite half, and gives
their ids, their owners and the side of the latter. -/
structure OrderFilled.Between (f : OrderFilled) (h : Heap Order) (maker taker : OrderRef) :
    Prop where
  maker_lt : maker < h.next
  taker_lt : taker < h.next
  makerOrderId_eq : (h.read maker).orderId = f.makerOrderId
  takerOrderId_eq : (h.read taker).orderId = f.takerOrderId
  makerSession_eq : (h.read maker).sessionUuid = f.makerSessionUuid
  takerSession_eq : (h.read taker).sessionUuid = f.takerSessionUuid
  aggressorSide_eq : (h.read taker).side = f.aggressorSide
  opposite : (h.read maker).side.bookSide = (h.read taker).side.bookSide.opposite

/-- Orders bear a fill out as long as they keep their identities. -/
theorem OrderFilled.Between.of_identity {f : OrderFilled} {h h' : Heap Order}
    {maker taker : OrderRef} (hf : f.Between h maker taker) (hnext : h.next ≤ h'.next)
    (hidentity : ∀ r < h.next, (h'.read r).identity = (h.read r).identity) :
    f.Between h' maker taker := by
  have hmaker := hidentity maker hf.maker_lt
  have htaker := hidentity taker hf.taker_lt
  have hside : ∀ {o o' : Order}, o.identity = o'.identity → o.side = o'.side :=
    fun hid => Order.field_of_identity Order.side hid fun _ => rfl
  have horderId : ∀ {o o' : Order}, o.identity = o'.identity → o.orderId = o'.orderId :=
    fun hid => Order.field_of_identity Order.orderId hid fun _ => rfl
  have hsession : ∀ {o o' : Order}, o.identity = o'.identity → o.sessionUuid = o'.sessionUuid :=
    fun hid => Order.field_of_identity Order.sessionUuid hid fun _ => rfl
  exact
    { maker_lt := lt_of_lt_of_le hf.maker_lt hnext
      taker_lt := lt_of_lt_of_le hf.taker_lt hnext
      makerOrderId_eq := (horderId hmaker).trans hf.makerOrderId_eq
      takerOrderId_eq := (horderId htaker).trans hf.takerOrderId_eq
      makerSession_eq := (hsession hmaker).trans hf.makerSession_eq
      takerSession_eq := (hsession htaker).trans hf.takerSession_eq
      aggressorSide_eq := (hside htaker).trans hf.aggressorSide_eq
      opposite := by
        rw [hside hmaker, hside htaker]
        exact hf.opposite }

/-- A trade is between the order in front and the order in hand. -/
theorem OrderBook.Fill.between {h : Heap Order} {b : OrderBook} {t : OrderRef}
    (f : OrderBook.Fill (OrderBook.takerSide (h.read t)) (OrderBook.takerStop (h.read t))
      t h b) (hinv : BookInv h b) (hflight : InFlight h b t) :
    (b.tradedFill h f.price t f.maker).Between h f.maker t where
  maker_lt := hinv.allocated _ f.maker_resting
  taker_lt := hflight.allocated
  makerOrderId_eq := rfl
  takerOrderId_eq := rfl
  makerSession_eq := rfl
  takerSession_eq := rfl
  aggressorSide_eq := rfl
  opposite := hinv.side_of_queued f.maker_queued

/-- Every fill of a history is borne out by two orders. -/
def FillsBetween (es : List EngineEvent) (h : Heap Order) : Prop :=
  ∀ f, .orderFilled f ∈ es → ∃ maker taker, f.Between h maker taker

namespace FillsBetween

variable {es new : List EngineEvent} {h h' : Heap Order} {b : OrderBook} {o : Order}

theorem nil (h : Heap Order) : FillsBetween [] h := by
  simp [FillsBetween]

/-- A move without fills that keeps the identities. -/
theorem move (hP : FillsBetween es h) (hnext : h.next ≤ h'.next)
    (hidentity : ∀ r < h.next, (h'.read r).identity = (h.read r).identity)
    (hnew : ∀ f, .orderFilled f ∉ new) : FillsBetween (es ++ new) h' := by
  intro f hf
  rcases List.mem_append.mp hf with hf | hf
  · rcases hP f hf with ⟨maker, taker, hbetween⟩
    exact ⟨maker, taker, hbetween.of_identity hnext hidentity⟩
  · exact (hnew f hf).elim

theorem alloc (hP : FillsBetween es h) (hnew : ∀ f, .orderFilled f ∉ new) :
    FillsBetween (es ++ new) (h.alloc o) := by
  refine hP.move (Nat.le_succ _) ?_ hnew
  intro r hr
  rw [h.read_alloc_of_ne o hr.ne]

/-- A trade is between its two orders, and stays so. -/
theorem traded {t : OrderRef} (hP : FillsBetween es h) (hinv : BookInv h b)
    (hflight : InFlight h b t)
    (f : OrderBook.Fill (OrderBook.takerSide (h.read t)) (OrderBook.takerStop (h.read t))
      t h b) : FillsBetween (es ++ f.events) f.heap := by
  have hidentity : ∀ r < h.next, (f.heap.read r).identity = (h.read r).identity :=
    fun r _ => Order.identity_of_terms (f.read_terms r)
  intro fill hfill
  rcases List.mem_append.mp hfill with hfill | hfill
  · rcases hP fill hfill with ⟨maker, taker, hbetween⟩
    exact ⟨maker, taker, hbetween.of_identity le_rfl hidentity⟩
  · simp only [OrderBook.Fill.events, List.mem_cons, EngineEvent.orderFilled.injEq,
      List.not_mem_nil, or_false, reduceCtorEq] at hfill
    subst hfill
    exact ⟨f.maker, t, (f.between hinv hflight).of_identity le_rfl hidentity⟩

end FillsBetween

/-- Every move of a book reports fills between orders of its two halves. -/
theorem fillsBetween_law : BookLaw (fun _ _ => True) fun _ es h _ => FillsBetween es h where
  refused _ _ hP := hP.move le_rfl (fun _ _ => rfl) (by simp)
  rejected _ _ _ _ hP := hP.alloc (by simp)
  accepted _ _ _ hP := hP.alloc (by simp [OrderBook.acceptedEvent])
  withdrawn := by
    intro es h b r hinv hr _ hP
    rcases OrderBook.removeFromBook_spec hinv hr with ⟨e, level, he⟩
    rw [he.events_eq]
    refine hP.move le_rfl (fun x _ => ?_)
      (by simp [OrderBook.cancelRest, OrderBook.cancelledEvent])
    exact (b.removeFromBook h r).1.cancelRest_read Order.identity (fun _ => rfl) h r x
  replaced := by
    intro es h b r newPrice newQty newClOrdId hinv hr _ hP
    rcases OrderBook.removeFromBook_spec hinv hr with ⟨e, level, he⟩
    rw [he.events_eq]
    refine hP.move le_rfl (fun x _ => ?_) (by simp [OrderBook.modifiedEvent])
    exact OrderBook.modified_read Order.identity (fun _ => rfl) h r x
  traded hinv hflight f hP := hP.traded hinv hflight f
  entered := by
    intro es h b r hinv _ _ _ _ hP
    rcases OrderBook.insertResting_spec b h r with ⟨e, he⟩
    rw [he.events_eq]
    exact hP.move le_rfl (fun _ _ => rfl) (by simp)
  cancelled := by
    intro es h b r _ _ _ hP
    refine hP.move le_rfl (fun x _ => ?_)
      (by simp [OrderBook.cancelRest, OrderBook.cancelledEvent])
    exact b.cancelRest_read Order.identity (fun _ => rfl) h r x
  dropped _ _ _ hP := hP

/-- Whichever book a request goes to, its fills are between orders of that book. -/
theorem fillsBetween_engineLaw :
    EngineLaw (fun _ _ _ => True) fun _ _ es h _ => FillsBetween es h where
  law _ := fillsBetween_law
  turnedAway _ _ hP := hP.move le_rfl (fun _ _ => rfl) (by simp)
  frame := by
    intro s s' es new h h' b b' _ _ _ _ _ _ _ _ _ hactive
    exact hactive

/-! ## The ledger of the fills -/

/-- The ledger entry of a fill: the seller hands the traded quantity to the buyer. -/
def OrderFilled.transfer (f : OrderFilled) : Transfer SessionUuid Int where
  payer := if f.aggressorSide = .buy then f.makerSessionUuid else f.takerSessionUuid
  payee := if f.aggressorSide = .buy then f.takerSessionUuid else f.makerSessionUuid
  amount := f.tradeQty

/-- What the fills of a history make of the position of a session. -/
def positionIn (es : List EngineEvent) (uuid : SessionUuid) : Int :=
  balance (fillsOf OrderFilled.transfer es) uuid

@[simp]
theorem positionIn_append (es es' : List EngineEvent) (uuid : SessionUuid) :
    positionIn (es ++ es') uuid = positionIn es uuid + positionIn es' uuid := by
  simp [positionIn]

theorem positionIn_cons (e : EngineEvent) (es : List EngineEvent) (uuid : SessionUuid) :
    positionIn (e :: es) uuid = positionIn [e] uuid + positionIn es uuid :=
  positionIn_append [e] es uuid

@[simp]
theorem positionIn_orderFilled (f : OrderFilled) (uuid : SessionUuid) :
    positionIn [.orderFilled f] uuid = f.transfer.entry uuid := by
  simp [positionIn, fillsOf]

/-- Events without a fill move no position. -/
theorem positionIn_of_quiet {es : List EngineEvent} (hquiet : ∀ f, .orderFilled f ∉ es)
    (uuid : SessionUuid) : positionIn es uuid = 0 := by
  have hnone : fillsOf OrderFilled.transfer es = [] := by
    apply List.filterMap_eq_nil_iff.mpr
    intro e he
    cases e with
    | orderFilled f => exact (hquiet f he).elim
    | _ => rfl
  rw [positionIn, hnone, balance_nil]

/-! ## Buyers and sellers -/

namespace OrderFilled

/-- One of the two orders of a fill is on a half of the book and belongs to a session. -/
def OwnedOn (f : OrderFilled) (h : Heap Order) (half : BookSide) (uuid : SessionUuid) : Prop :=
  ∃ r < h.next, ((h.read r).orderId = f.makerOrderId ∨ (h.read r).orderId = f.takerOrderId) ∧
    (h.read r).side.bookSide = half ∧ (h.read r).sessionUuid = uuid

instance (f : OrderFilled) (h : Heap Order) (half : BookSide) (uuid : SessionUuid) :
    Decidable (f.OwnedOn h half uuid) :=
  inferInstanceAs (Decidable (∃ r < h.next, _))

/-- The party of a fill that the ledger puts on a half: the buyer or the seller. -/
def party (f : OrderFilled) : BookSide → SessionUuid
  | .bid => f.transfer.payee
  | .ask => f.transfer.payer

/-- The side inferred for the resting order is the side it has. -/
theorem party_of_between {f : OrderFilled} {h : Heap Order} {maker taker : OrderRef}
    (hf : f.Between h maker taker) :
    f.party (h.read maker).side.bookSide = f.makerSessionUuid ∧
      f.party (h.read taker).side.bookSide = f.takerSessionUuid := by
  rw [hf.opposite, hf.aggressorSide_eq]
  by_cases hbuy : f.aggressorSide = .buy <;>
    simp [hbuy, Side.bookSide, party, transfer, BookSide.opposite]

/-- A session owned the order on a half exactly when the ledger has it there. -/
theorem ownedOn_iff {f : OrderFilled} {h : Heap Order} {maker taker : OrderRef}
    (hf : f.Between h maker taker) (hunique : UniqueIds h) (half : BookSide)
    (uuid : SessionUuid) : f.OwnedOn h half uuid ↔ f.party half = uuid := by
  have hparty := party_of_between hf
  constructor
  · rintro ⟨r, hr, hid | hid, rfl, rfl⟩
    · have hmaker : r = maker :=
        hunique r hr maker hf.maker_lt (hid.trans hf.makerOrderId_eq.symm)
      rw [hmaker, hparty.1, hf.makerSession_eq]
    · have htaker : r = taker :=
        hunique r hr taker hf.taker_lt (hid.trans hf.takerOrderId_eq.symm)
      rw [htaker, hparty.2, hf.takerSession_eq]
  · rintro rfl
    rcases BookSide.eq_or_eq_opposite (h.read taker).side.bookSide half with rfl | rfl
    · exact ⟨taker, hf.taker_lt, Or.inr hf.takerOrderId_eq, rfl,
        hf.takerSession_eq.trans hparty.2.symm⟩
    · refine ⟨maker, hf.maker_lt, Or.inl hf.makerOrderId_eq, hf.opposite, ?_⟩
      rw [← hf.opposite, hparty.1]
      exact hf.makerSession_eq

end OrderFilled

/-- The quantity of the fills in which a session owned the order on a half of the book. -/
def tradedOn (h : Heap Order) (es : List EngineEvent) (half : BookSide) (uuid : SessionUuid) :
    Int :=
  (fillsOf (fun f => if f.OwnedOn h half uuid then f.tradeQty else 0) es).sum

theorem tradedOn_orderFilled (h : Heap Order) (f : OrderFilled) (half : BookSide)
    (uuid : SessionUuid) : tradedOn h [.orderFilled f] half uuid =
      if f.OwnedOn h half uuid then f.tradeQty else 0 :=
  add_zero _

/-- A session's position is what it bought less what it sold. -/
theorem positionIn_eq_sub {h : Heap Order} {es : List EngineEvent} (hunique : UniqueIds h)
    (hbetween : FillsBetween es h) (uuid : SessionUuid) :
    positionIn es uuid = tradedOn h es .bid uuid - tradedOn h es .ask uuid := by
  induction es with
  | nil => rfl
  | cons e es ih =>
      have hrest := ih fun f hf => hbetween f (List.mem_cons_of_mem _ hf)
      have hsplit : ∀ half, tradedOn h (e :: es) half uuid =
          tradedOn h [e] half uuid + tradedOn h es half uuid := by
        intro half
        unfold tradedOn
        rw [← List.sum_append, ← fillsOf_append]
        rfl
      have hfirst : positionIn [e] uuid =
          tradedOn h [e] .bid uuid - tradedOn h [e] .ask uuid := by
        cases e with
        | orderFilled f =>
            rcases hbetween f List.mem_cons_self with ⟨maker, taker, hf⟩
            rw [positionIn_orderFilled, tradedOn_orderFilled, tradedOn_orderFilled]
            simp only [OrderFilled.ownedOn_iff hf hunique]
            rfl
        | _ => rfl
      rw [positionIn_cons, hsplit, hsplit, hfirst, hrest]
      omega

end SimCme
