import SimCme.MarketData.IncrementalBuilder

/-!
# Book snapshots

A snapshot is one message with the levels of a book: the bids from best to worst, then
the asks.  The ranks of the levels and the number of entries are cast to bytes, so a
deep book does not come through.

Main results:

- Theorem {lit}`SnapshotBuilder.ranked_sideEntries`: the entries of a side say what its
  levels are, as long as bytes count them.
- Theorem {lit}`SnapshotBuilder.decode_buildSnapshot_iff`: a snapshot decodes to the book
  exactly when a byte counts the levels of both sides together.
-/

open Library

namespace SimCme

def SecurityTradingStatus.code : SecurityTradingStatus → UInt8
  | .preOpen => 2
  | .open => 17
  | .halt => 18
  | .close => 21

/-! ## The builder -/

namespace SnapshotBuilder

/-- The entries of one side. -/
def levelEntries (entryType : MDEntryType) (levels : List (Price × Int)) (counts : List Int) :
    List SnapshotFullRefresh52.Entry :=
  levels.mapIdx fun i level =>
    { mdEntryPx := level.1.mantissa
      mdEntrySize := .ofInt level.2
      numberOfOrders := .ofInt (counts.getD i 0)
      mdPriceLevel := .ofNat (i + 1)
      mdEntryType := entryType.code }

/-- The message of a snapshot. -/
def snapshot (securityId : SecurityId) (lastMsgSeqNumProcessed totNumReports : UInt32)
    (bids asks : List (Price × Int)) (bidOrderCounts askOrderCounts : List Int)
    (rptSeq : UInt32) (transactTime : Timestamp) : SnapshotFullRefresh52 where
  lastMsgSeqNumProcessed := lastMsgSeqNumProcessed
  totNumReports := totNumReports
  securityID := .ofInt securityId
  rptSeq := rptSeq
  transactTime := .ofNat transactTime
  lastUpdateTime := .ofNat transactTime
  tradeDate := 0
  mdSecurityTradingStatus := SecurityTradingStatus.open.code
  highLimitPrice := Price.null.mantissa
  lowLimitPrice := Price.null.mantissa
  maxPriceVariation := Price.null.mantissa
  entries := levelEntries .bid bids bidOrderCounts ++ levelEntries .offer asks askOrderCounts

def buildSnapshot (securityId : SecurityId) (lastMsgSeqNumProcessed totNumReports : UInt32)
    (bids asks : List (Price × Int)) (bidOrderCounts askOrderCounts : List Int)
    (rptSeq : UInt32) (transactTime : Timestamp) : List UInt8 :=
  SnapshotFullRefresh52.format.toBytes
    (snapshot securityId lastMsgSeqNumProcessed totNumReports bids asks bidOrderCounts
      askOrderCounts rptSeq transactTime)

end SnapshotBuilder

/-- The lists a provider fills. -/
structure BookLists where
  bids : List (Price × Int) := []
  asks : List (Price × Int) := []
  bidCounts : List Int := []
  askCounts : List Int := []

/-- The provider of the server.  It leaves the lists alone when there is no book. -/
def bookSnapshotProvider (engine : FullMatchingEngine) (secId : SecurityId)
    (lists : BookLists) : BookLists :=
  match engine.getOrderBook secId with
  | none => lists
  | some book =>
      { bids := book.bidLevels.entries.map fun e => (e.1, e.2.totalQuantity)
        asks := book.askLevels.entries.map fun e => (e.1, e.2.totalQuantity)
        bidCounts := book.bidLevels.entries.map fun e => e.2.orderCount
        askCounts := book.askLevels.entries.map fun e => e.2.orderCount }

/-! ## What a receiver should find -/

/-- The entry type of the levels of a side. -/
def BookSide.entryType : BookSide → MDEntryType
  | .bid => .bid
  | .ask => .offer

/-- A level with its side and its rank from the best one. -/
structure RankedLevel where
  entryType : UInt8
  level : AggregateLevel
  rank : Nat
deriving DecidableEq, Repr

def SnapshotFullRefresh52.Entry.level (entry : Entry) : AggregateLevel where
  price := ⟨entry.mdEntryPx⟩
  totalQuantity := entry.mdEntrySize.toInt
  orderCount := entry.numberOfOrders.toInt

def SnapshotFullRefresh52.Entry.ranked (entry : Entry) : RankedLevel where
  entryType := entry.mdEntryType
  level := entry.level
  rank := entry.mdPriceLevel.toNat

namespace OrderBook

/-- The levels of a side with their ranks. -/
def ladder (b : OrderBook) (s : BookSide) : List RankedLevel :=
  (b.aggregate s).mapIdx fun i level => ⟨s.entryType.code, level, i + 1⟩

/-- The quantities and the numbers of orders of the levels are values of their types. -/
def LevelsTyped (b : OrderBook) : Prop :=
  ∀ s, ∀ level ∈ b.aggregate s, InRange level.totalQuantity ∧ InRange level.orderCount

instance (b : OrderBook) : Decidable b.LevelsTyped :=
  decidable_of_iff
    ((∀ level ∈ b.aggregate .bid, InRange level.totalQuantity ∧ InRange level.orderCount) ∧
      ∀ level ∈ b.aggregate .ask, InRange level.totalQuantity ∧ InRange level.orderCount)
    ⟨fun h s => by cases s; exacts [h.1, h.2], fun h => ⟨h .bid, h .ask⟩⟩

@[simp]
theorem length_ladder (b : OrderBook) (s : BookSide) :
    (b.ladder s).length = (b.levels s).entries.length := by
  rw [ladder, List.length_mapIdx, aggregate, List.length_map]

/-- The levels of a side run from best to worst. -/
theorem aggregate_sorted (b : OrderBook) (s : BookSide) :
    (b.aggregate s).Pairwise fun level level' => s.Better level.price level'.price :=
  List.pairwise_map.mpr (b.levels s).sorted

end OrderBook

/-! ## The snapshot of a book -/

namespace SnapshotBuilder

/-- The entries of the levels of a side. -/
def sideEntries (b : OrderBook) (s : BookSide) : List SnapshotFullRefresh52.Entry :=
  levelEntries s.entryType ((b.levels s).entries.map fun e => (e.1, e.2.totalQuantity))
    ((b.levels s).entries.map fun e => e.2.orderCount)

theorem length_sideEntries (b : OrderBook) (s : BookSide) :
    (sideEntries b s).length = (b.levels s).entries.length := by
  rw [sideEntries, levelEntries, List.length_mapIdx, List.length_map]

/-- An entry of a side shows its level. -/
theorem level_sideEntries {b : OrderBook} (htyped : b.LevelsTyped) {s : BookSide} {i : Nat}
    (hi : i < (sideEntries b s).length) (hlevel : i < (b.aggregate s).length) :
    (sideEntries b s)[i].level = (b.aggregate s)[i] := by
  have hentry : i < (b.levels s).entries.length := by
    rw [← length_sideEntries]
    exact hi
  rcases htyped s _ (List.mem_map_of_mem (List.getElem_mem hentry)) with ⟨hquantity, hcount⟩
  simp [sideEntries, levelEntries, OrderBook.aggregate, SnapshotFullRefresh52.Entry.level,
    hentry, IncrementalBuilder.toInt_ofInt_of_inRange hquantity,
    IncrementalBuilder.toInt_ofInt_of_inRange hcount]

/-- The entries of a side show its levels. -/
theorem map_level_sideEntries {b : OrderBook} (htyped : b.LevelsTyped) (s : BookSide) :
    (sideEntries b s).map (·.level) = b.aggregate s := by
  apply List.ext_getElem
  · simp [length_sideEntries, OrderBook.aggregate]
  · intro i hi hlevel
    rw [List.getElem_map]
    exact level_sideEntries htyped (by simpa using hi) hlevel

/-- The entries of a side also show the ranks of its levels, as long as bytes count
them. -/
theorem ranked_sideEntries {b : OrderBook} (htyped : b.LevelsTyped) {s : BookSide}
    (hfew : (b.levels s).entries.length ≤ 255) :
    (sideEntries b s).map (·.ranked) = b.ladder s := by
  apply List.ext_getElem
  · simp [length_sideEntries]
  · intro i hi hladder
    have hentry : i < (sideEntries b s).length := by simpa using hi
    have hlevel : i < (b.aggregate s).length := by
      simpa [OrderBook.aggregate, length_sideEntries] using hi
    have hrank : (sideEntries b s)[i].mdPriceLevel.toNat = i + 1 := by
      have hbyte : (i + 1) % 2 ^ 8 = i + 1 := by
        rw [length_sideEntries] at hentry
        exact Nat.mod_eq_of_lt (by omega)
      simpa [sideEntries, levelEntries] using hbyte
    simp only [List.getElem_map, OrderBook.ladder, List.getElem_mapIdx,
      SnapshotFullRefresh52.Entry.ranked, level_sideEntries htyped hentry hlevel, hrank]
    simp [sideEntries, levelEntries]

variable {engine : FullMatchingEngine} {secId : SecurityId} {book : OrderBook}

/-- The snapshot of a security as its provider fills it. -/
def ofEngine (engine : FullMatchingEngine) (secId : SecurityId)
    (lastMsgSeqNumProcessed totNumReports rptSeq : UInt32) (transactTime : Timestamp) :
    SnapshotFullRefresh52 :=
  let lists := bookSnapshotProvider engine secId {}
  snapshot secId lastMsgSeqNumProcessed totNumReports lists.bids lists.asks lists.bidCounts
    lists.askCounts rptSeq transactTime

theorem entries_ofEngine (hbook : engine.getOrderBook secId = some book)
    (lastSeq totNumReports rptSeq : UInt32) (transactTime : Timestamp) :
    (ofEngine engine secId lastSeq totNumReports rptSeq transactTime).entries =
      sideEntries book .bid ++ sideEntries book .ask := by
  simp only [ofEngine, bookSnapshotProvider, hbook]
  rfl

/-- A decoded snapshot has no more entries than a byte counts. -/
theorem length_of_decode {old msg : SnapshotFullRefresh52} {buffer : List UInt8} {offset : Nat}
    (hdecode : SnapshotFullRefresh52.format.decode old buffer offset = some msg) :
    msg.entries.length ≤ 255 :=
  GroupedFormat.length_of_decode_single (g := SnapshotFullRefresh52.entriesGroup) rfl
    (fun _ _ => rfl) hdecode

/-- A message with as many entries as a byte counts is decoded from its bytes. -/
theorem decode_toBytes {msg : SnapshotFullRefresh52} (hfew : msg.entries.length ≤ 255)
    (old : SnapshotFullRefresh52) :
    SnapshotFullRefresh52.format.decode old (SnapshotFullRefresh52.format.toBytes msg) 0 =
      some msg := by
  have hdecode := SnapshotFullRefresh52.format.decode_append msg old
    (List.forall_mem_singleton.mpr hfew) [] []
  simpa using hdecode

/-- The snapshot of a book decodes to the levels of the book, best to worst on both
sides, exactly when a byte counts all of them. -/
theorem decode_buildSnapshot_iff (engine : FullMatchingEngine) (secId : SecurityId)
    (book : OrderBook) (hbook : engine.getOrderBook secId = some book)
    (htyped : book.LevelsTyped) (lastMsgSeqNumProcessed totNumReports rptSeq : UInt32)
    (transactTime : Timestamp) (old : SnapshotFullRefresh52) :
    let lists := bookSnapshotProvider engine secId {}
    let bytes := buildSnapshot secId lastMsgSeqNumProcessed totNumReports lists.bids lists.asks
      lists.bidCounts lists.askCounts rptSeq transactTime
    (∀ s, (book.aggregate s).Pairwise fun level level' =>
        s.Better level.price level'.price) ∧
      ((∃ msg, SnapshotFullRefresh52.format.decode old bytes 0 = some msg ∧
          msg.entries.map (·.ranked) = book.ladder .bid ++ book.ladder .ask) ↔
        book.bidLevels.entries.length + book.askLevels.entries.length ≤ 255) := by
  intro lists bytes
  refine ⟨book.aggregate_sorted, ?_, ?_⟩
  · rintro ⟨msg, hdecode, hentries⟩
    have hcounted := length_of_decode hdecode
    have hlength := congrArg List.length hentries
    rw [List.length_map, List.length_append, OrderBook.length_ladder,
      OrderBook.length_ladder] at hlength
    rw [hlength] at hcounted
    exact hcounted
  · intro hfew
    have hentries : (snapshot secId lastMsgSeqNumProcessed totNumReports lists.bids lists.asks
        lists.bidCounts lists.askCounts rptSeq transactTime).entries =
        sideEntries book .bid ++ sideEntries book .ask :=
      entries_ofEngine hbook lastMsgSeqNumProcessed totNumReports rptSeq transactTime
    have hbids : (book.levels .bid).entries.length ≤ 255 := Nat.le_trans (Nat.le_add_right ..) hfew
    have hasks : (book.levels .ask).entries.length ≤ 255 := Nat.le_trans (Nat.le_add_left ..) hfew
    refine ⟨_, decode_toBytes ?_ old, ?_⟩
    · rw [hentries, List.length_append, length_sideEntries, length_sideEntries]
      exact hfew
    · rw [hentries, List.map_append, ranked_sideEntries htyped hbids,
        ranked_sideEntries htyped hasks]

/-- The snapshot of one bid and one ask. -/
theorem decode_buildSnapshot_two_levels :
    let ops : List EngineOp :=
      [.addInstrument 7, .submit { securityId := 7, price := ⟨100⟩, quantity := 5 } 0,
        .submit { securityId := 7, side := .sell, price := ⟨102⟩, quantity := 2 } 0]
    let engine := (FullMatchingEngine.machine.run {} ops).1
    let lists := bookSnapshotProvider engine 7 {}
    let bytes := buildSnapshot 7 0 1 lists.bids lists.asks lists.bidCounts lists.askCounts 1 0
    ∃ msg, SnapshotFullRefresh52.format.decode {} bytes 0 = some msg ∧
      msg.entries.map (·.ranked) =
        (engine.bookAt 7).ladder .bid ++ (engine.bookAt 7).ladder .ask := by
  intro ops engine lists bytes
  have htyped : (engine.bookAt 7).LevelsTyped := by decide +kernel
  have hiff := (decode_buildSnapshot_iff engine 7 (engine.bookAt 7) rfl htyped 0 1 1 0 {}).2
  exact hiff.mpr (by decide +kernel)

/-- Bids of one at as many prices, the best one last. -/
def deepBids (depth : Nat) : List EngineOp :=
  .addInstrument 7 :: (List.range depth).map fun i =>
    .submit { securityId := 7, price := ⟨.ofNat i⟩, quantity := 1 } 0

/-- One level more than a byte counts. -/
theorem not_decode_buildSnapshot_256 :
    let engine := (FullMatchingEngine.machine.run {} (deepBids 256)).1
    let lists := bookSnapshotProvider engine 7 {}
    let bytes := buildSnapshot 7 0 1 lists.bids lists.asks lists.bidCounts lists.askCounts 1 0
    FullMatchingEngine.machine.Admits (fun _ op => op.Fresh) {} (deepBids 256) ∧
      engine.getOrderBook 7 = some (engine.bookAt 7) ∧
      ¬∃ msg, SnapshotFullRefresh52.format.decode {} bytes 0 = some msg ∧
        msg.entries.map (·.ranked) =
          (engine.bookAt 7).ladder .bid ++ (engine.bookAt 7).ladder .ask := by
  intro engine lists bytes
  have hlisted : (engine.getOrderBook 7).isSome := by decide +kernel
  rcases Option.isSome_iff_exists.mp hlisted with ⟨book, hbook⟩
  refine ⟨by decide +kernel, by rw [hbook, FullMatchingEngine.bookAt_of_some hbook], ?_⟩
  rintro ⟨msg, hdecode, hentries⟩
  have hcounted := length_of_decode hdecode
  have hlength := congrArg List.length hentries
  have hdeep : ((engine.bookAt 7).levels .bid).entries.length = 256 := by decide +kernel
  rw [List.length_map, List.length_append, OrderBook.length_ladder, hdeep] at hlength
  omega

end SnapshotBuilder

end SimCme
