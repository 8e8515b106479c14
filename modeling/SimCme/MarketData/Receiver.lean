import SimCme.MarketData.MarketDataPublisher
import SimCme.MarketData.RptSeq

/-!
# A receiver of the feeds

The receiver walks the payload of each packet and applies the book entries of a security
to its replica of the book, by position.  It can also start from a snapshot.

Main results:

- Theorem {lit}`carries_packet`: the entries of a packet do to a replica what the updates
  of the batch do, as long as bytes hold their numbers and positions.
- Theorem {lit}`Replica.applyPackets_eq`: packets do to a replica what the batches in them
  do.
- Theorem {lit}`SnapshotFullRefresh52.book_ofEngine`: a snapshot holds the levels of the
  book.
-/

open Library

namespace SimCme

/-! ## Entries -/

namespace MDIncrementalRefreshBook46.Entry

def level (entry : Entry) : AggregateLevel where
  price := ⟨entry.mdEntryPx⟩
  totalQuantity := entry.mdEntrySize.toInt
  orderCount := entry.numberOfOrders.toInt

def bookSide (entry : Entry) : BookSide :=
  if entry.mdEntryType = MDEntryType.bid.code then .bid else .ask

/-- Apply an entry to the levels of its side. -/
def applyTo (entry : Entry) (levels : List AggregateLevel) : List AggregateLevel :=
  let position := entry.mdPriceLevel.toNat - 1
  if entry.mdUpdateAction = MDUpdateAction.new.code then
    levels.take position ++ entry.level :: levels.drop position
  else if entry.mdUpdateAction = MDUpdateAction.change.code then
    levels.set position entry.level
  else if entry.mdUpdateAction = MDUpdateAction.delete.code then
    levels.eraseIdx position
  else levels

end MDIncrementalRefreshBook46.Entry

/-- Apply an entry to a replica. -/
def Replica.applyEntry (replica : Replica) (entry : MDIncrementalRefreshBook46.Entry) : Replica :=
  Function.update replica entry.bookSide (entry.applyTo (replica entry.bookSide))

/-- An entry is about the security of an update and does what the update does. -/
structure MDIncrementalRefreshBook46.Entry.ActsAs (entry : Entry) (u : BookUpdate) : Prop where
  inRange : InRange u.securityId
  security_eq : entry.securityID = Int32.ofInt u.securityId
  apply_eq : ∀ replica : Replica, replica.applyEntry entry = replica.apply (.bookUpdate u)

open IncrementalBuilder in
theorem bookEntry_actsAs (builder : IncrementalBuilder) {u : BookUpdate} (htyped : u.Typed)
    (hlevel : u.priceLevelIndex ≤ 255) : (builder.bookEntry u).2.ActsAs u where
  inRange := htyped.security
  security_eq := rfl
  apply_eq := by
    intro replica
    have hside : (builder.bookEntry u).2.bookSide = u.side.bookSide := by
      by_cases hbuy : u.side = .buy
      · simp [MDIncrementalRefreshBook46.Entry.bookSide, bookEntry, Side.bookSide, hbuy]
      · have hne : MDEntryType.offer.code ≠ MDEntryType.bid.code := by decide
        simp [MDIncrementalRefreshBook46.Entry.bookSide, bookEntry, Side.bookSide, hbuy, hne]
    have hposition : (builder.bookEntry u).2.mdPriceLevel.toNat = u.priceLevelIndex := by
      simp only [bookEntry, UInt8.toNat_ofNat']
      omega
    have hreads : (builder.bookEntry u).2.level = u.level := by
      simp [MDIncrementalRefreshBook46.Entry.level, bookEntry, BookUpdate.level,
        toInt_ofInt_of_inRange htyped.quantity, toInt_ofInt_of_inRange htyped.orderCount]
    have happly : ∀ levels, (builder.bookEntry u).2.applyTo levels = u.applyTo levels := by
      intro levels
      have haction : (builder.bookEntry u).2.mdUpdateAction = u.updateAction.code := rfl
      simp only [MDIncrementalRefreshBook46.Entry.applyTo, BookUpdate.applyTo, haction, hposition,
        hreads, BookUpdate.position]
      cases u.updateAction <;> simp [MDUpdateAction.code]
    rw [Replica.applyEntry, Replica.apply, hside, happly]

/-! ## Packets -/

/-- The book entries of a message. -/
def Mdp3Message.bookEntries : Mdp3Message → List MDIncrementalRefreshBook46.Entry
  | .book msg => msg.entries
  | _ => []

namespace FeedPacket

/-- The book entries of a packet. -/
def bookEntries (packet : FeedPacket) : List MDIncrementalRefreshBook46.Entry :=
  ((Mdp3Message.walk packet.payload).getD []).flatMap Mdp3Message.bookEntries

/-- The book entries of a security. -/
def entriesOf (packet : FeedPacket) (s : SecurityId) : List MDIncrementalRefreshBook46.Entry :=
  packet.bookEntries.filter fun entry => entry.securityID = Int32.ofInt s

/-- A packet has an entry for each update of a batch. -/
def Carries (packet : FeedPacket) (batch : List EngineEvent) : Prop :=
  List.Forall₂ (·.ActsAs ·) packet.bookEntries (bookUpdates batch)

end FeedPacket

/-- Apply the entries of a security. -/
def Replica.applyPackets (s : SecurityId) (replica : Replica) (packets : List FeedPacket) :
    Replica :=
  (packets.flatMap (·.entriesOf s)).foldl Replica.applyEntry replica

theorem Replica.applyPackets_append (s : SecurityId) (replica : Replica)
    (packets packets' : List FeedPacket) :
    replica.applyPackets s (packets ++ packets') =
      (replica.applyPackets s packets).applyPackets s packets' := by
  rw [applyPackets, List.flatMap_append, List.foldl_append]
  rfl

/-- Packets without an entry of the security do nothing. -/
theorem Replica.applyPackets_of_quiet {s : SecurityId} {packets : List FeedPacket}
    (hquiet : ∀ packet ∈ packets, packet.entriesOf s = []) (replica : Replica) :
    replica.applyPackets s packets = replica := by
  rw [applyPackets, List.flatMap_eq_nil_iff.mpr hquiet]
  rfl

/-- The bytes hold the numbers and the positions of the events of a batch. -/
structure FitsPacket (events : List EngineEvent) : Prop where
  updates_le : (bookUpdates events).length ≤ 255
  levels_le : ∀ u ∈ bookUpdates events, u.priceLevelIndex ≤ 255
  fills_le : 2 * (orderFills events).length ≤ 255

instance (events : List EngineEvent) : Decidable (FitsPacket events) :=
  decidable_of_iff ((bookUpdates events).length ≤ 255 ∧
      (∀ u ∈ bookUpdates events, u.priceLevelIndex ≤ 255) ∧ 2 * (orderFills events).length ≤ 255)
    ⟨fun h => ⟨h.1, h.2.1, h.2.2⟩, fun h => ⟨h.updates_le, h.levels_le, h.fills_le⟩⟩

/-- The entries of a packet do what the updates of the batch do. -/
theorem carries_packet (builder : IncrementalBuilder) {events : List EngineEvent}
    (htyped : ∀ e ∈ events, e.Typed) (hfits : FitsPacket events) (transactTime : Timestamp)
    (seqNum : UInt32) :
    FeedPacket.Carries ⟨seqNum, (builder.buildIncrementalPacket events transactTime).2⟩ events := by
  have hwalk := IncrementalBuilder.walk_packet builder transactTime hfits.updates_le hfits.fills_le
  have hentries : FeedPacket.bookEntries
      ⟨seqNum, (builder.buildIncrementalPacket events transactTime).2⟩ =
      (IncrementalBuilder.bookLoop.run builder events).2 := by
    rw [FeedPacket.bookEntries, hwalk, Option.getD_some, List.flatMap_append]
    have hbook : ∀ msg, (IncrementalBuilder.bookMessages msg).flatMap Mdp3Message.bookEntries =
        msg.entries := by
      intro msg
      unfold IncrementalBuilder.bookMessages
      split
      · rename_i hnil
        simp [hnil]
      · simp [Mdp3Message.bookEntries]
    have htrades : ∀ msg,
        (IncrementalBuilder.tradeMessages msg).flatMap Mdp3Message.bookEntries = [] := by
      intro msg
      unfold IncrementalBuilder.tradeMessages
      split
      · rfl
      · simp [Mdp3Message.bookEntries]
    rw [hbook, htrades, List.append_nil]
    rfl
  rw [FeedPacket.Carries, hentries]
  refine Machine.forall₂_run (fun builder e he => ?_) builder
  cases e with
  | bookUpdate u =>
      exact .cons
        (bookEntry_actsAs builder (htyped _ he) (hfits.levels_le u (mem_bookUpdates.mpr he))) .nil
  | _ => exact .nil

/-- A replica changes with the updates of a history alone. -/
theorem Replica.foldl_apply (es : List EngineEvent) (replica : Replica) :
    es.foldl Replica.apply replica =
      (bookUpdates es).foldl (fun replica u => replica.apply (.bookUpdate u)) replica := by
  induction es generalizing replica with
  | nil => rfl
  | cons e es ih =>
      rw [List.foldl_cons, ih]
      cases e <;> rfl

theorem Replica.foldl_applyEntry {entries : List MDIncrementalRefreshBook46.Entry}
    {updates : List BookUpdate} (hacts : List.Forall₂ (·.ActsAs ·) entries updates)
    (replica : Replica) :
    entries.foldl Replica.applyEntry replica =
      updates.foldl (fun replica u => replica.apply (.bookUpdate u)) replica := by
  induction hacts generalizing replica with
  | nil => rfl
  | cons hentry _ ih =>
      rw [List.foldl_cons, List.foldl_cons, hentry.apply_eq]
      exact ih _

/-- The entries of a security in a packet do what its updates in the batch do. -/
theorem FeedPacket.Carries.foldl_eq {packet : FeedPacket} {batch : List EngineEvent}
    (hcarries : packet.Carries batch) {s : SecurityId} (hs : InRange s) (replica : Replica) :
    (packet.entriesOf s).foldl Replica.applyEntry replica =
      (feedOf s batch).foldl Replica.apply replica := by
  have hown : List.Forall₂ (·.ActsAs ·) (packet.entriesOf s) (bookUpdates (feedOf s batch)) := by
    rw [IncrementalBuilder.bookUpdates_feedOf]
    refine List.rel_filter ?_ hcarries
    intro entry u hacts
    simp [hacts.security_eq, IncrementalBuilder.ofInt_eq_iff hacts.inRange hs]
  rw [Replica.foldl_apply, Replica.foldl_applyEntry hown]

/-- Packets do to a replica what the batches in them do. -/
theorem Replica.applyPackets_eq {packets : List FeedPacket} {batches : List (List EngineEvent)}
    (hcarries : List.Forall₂ FeedPacket.Carries packets batches) {s : SecurityId}
    (hs : InRange s) (replica : Replica) :
    replica.applyPackets s packets = (feedOf s batches.flatten).foldl Replica.apply replica := by
  induction hcarries generalizing replica with
  | nil => rfl
  | @cons packet batch packets batches hcarries _ ih =>
      rw [← List.singleton_append, Replica.applyPackets_append, ih, List.flatten_cons,
        feedOf_append, List.foldl_append, ← hcarries.foldl_eq hs]
      simp [Replica.applyPackets]

/-! ## Snapshots -/

/-- The levels a snapshot holds. -/
def SnapshotFullRefresh52.book (msg : SnapshotFullRefresh52) : Replica := fun s =>
  (msg.entries.filter fun entry => entry.mdEntryType = s.entryType.code).map (·.level)

namespace SnapshotBuilder

theorem filter_sideEntries_self (b : OrderBook) (s : BookSide) :
    ((sideEntries b s).filter fun entry => entry.mdEntryType = s.entryType.code) =
      sideEntries b s := by
  apply List.filter_eq_self.mpr
  intro entry hentry
  obtain ⟨i, hi, rfl⟩ := List.mem_mapIdx.mp hentry
  simp

theorem filter_sideEntries_of_ne (b : OrderBook) {s s' : BookSide} (hne : s' ≠ s) :
    ((sideEntries b s').filter fun entry => entry.mdEntryType = s.entryType.code) = [] := by
  have hcode : s'.entryType.code ≠ s.entryType.code := by
    cases s <;> cases s' <;> first | contradiction | decide
  apply List.filter_eq_nil_iff.mpr
  intro entry hentry
  obtain ⟨i, hi, rfl⟩ := List.mem_mapIdx.mp hentry
  simpa using hcode

/-- The entries of a snapshot, also where there is no book. -/
theorem entries_ofEngine_bookAt (engine : FullMatchingEngine) (secId : SecurityId)
    (lastSeq totNumReports rptSeq : UInt32) (transactTime : Timestamp) :
    (ofEngine engine secId lastSeq totNumReports rptSeq transactTime).entries =
      sideEntries (engine.bookAt secId) .bid ++ sideEntries (engine.bookAt secId) .ask := by
  cases hbook : engine.getOrderBook secId with
  | none =>
      have hempty : engine.bookAt secId = { securityId := secId } := by
        rw [FullMatchingEngine.bookAt, show engine.orderBooks secId = none from hbook]
        rfl
      simp only [ofEngine, bookSnapshotProvider, hbook, hempty]
      rfl
  | some book =>
      rw [entries_ofEngine hbook, FullMatchingEngine.bookAt_of_some hbook]

end SnapshotBuilder

open SnapshotBuilder in
/-- A snapshot holds the levels of the book. -/
theorem SnapshotFullRefresh52.book_ofEngine {engine : FullMatchingEngine} {secId : SecurityId}
    (htyped : (engine.bookAt secId).LevelsTyped) (lastSeq totNumReports rptSeq : UInt32)
    (transactTime : Timestamp) :
    (ofEngine engine secId lastSeq totNumReports rptSeq transactTime).book =
      (engine.bookAt secId).aggregate := by
  funext s
  rw [book, entries_ofEngine_bookAt, List.filter_append, ← map_level_sideEntries htyped s]
  cases s with
  | bid =>
      rw [filter_sideEntries_self, filter_sideEntries_of_ne _ (by decide), List.append_nil]
  | ask =>
      rw [filter_sideEntries_self, filter_sideEntries_of_ne _ (by decide), List.nil_append]

end SimCme
