import Renee.Store.Growth
import Renee.Store.PageSpec
import Renee.Store.Broker

/-!
# What a version selects

A vector backfill compares the end of each range with the end that a version lists for its peer.
What it is for is said in terms of operations: a range covers the operations of one peer with
counters in a half-open interval, a version covers a prefix of the operations of each peer that it
lists, and an update is of interest when it has an operation that the version does not cover.

* `covers_iff_lt_endCounterFor`: the binary search finds the prefix that the entries list.
* `selects_iff`: comparing the ends finds the updates with an operation that is not covered.
* `selects_of_covered`: a version that covers more selects less.
* `vector_selection_exact` is about the pages that are cut of the log of any reachable store.
-/

set_option autoImplicit false

namespace Renee

open ByteString

/-! ## Operations -/

/-- The ranges of an update cover an operation of a peer. -/
def PublicLoroRanges.Covers (ranges : PublicLoroRanges) (peerId : U64) (counter : ℕ) : Prop :=
  ∃ range ∈ ranges.ranges, range.peerId = peerId ∧ range.startCounter ≤ counter ∧
    counter < range.endCounter

/-- A version covers an operation of a peer: it lists the peer, with a prefix that contains it. -/
def LoroOplogVersion.Covers (v : LoroOplogVersion) (peerId : U64) (counter : ℕ) : Prop :=
  ∃ entry ∈ v.entries, entry.peerId = peerId ∧ counter < entry.endCounter

/-- Every prefix of a version is contained in another version. -/
def LoroOplogVersion.ContainedIn (v w : LoroOplogVersion) : Prop :=
  ∀ entry ∈ v.entries, ∃ entry' ∈ w.entries,
    entry'.peerId = entry.peerId ∧ entry.endCounter ≤ entry'.endCounter

namespace LoroOplogVersion

variable {v w : LoroOplogVersion} {ranges : PublicLoroRanges}

/-- **The lookup of a peer agrees with the entries.** -/
theorem covers_iff_lt_endCounterFor {peerId : U64} {counter : ℕ} :
    v.Covers peerId counter ↔ counter < v.endCounterFor peerId := by
  constructor
  · rintro ⟨entry, hentry, rfl, hlt⟩
    rwa [endCounterFor_of_mem hentry]
  · intro hlt
    by_contra hnone
    have hzero : v.endCounterFor peerId = 0 := by
      refine endCounterFor_eq_zero fun entry hentry hpeer ↦ hnone ⟨entry, hentry, hpeer, ?_⟩
      rwa [← endCounterFor_of_mem hentry, hpeer]
    omega

/-- **An update is selected exactly when it has an operation that the version does not cover.** -/
theorem selects_iff :
    v.selects ranges = true ↔ ∃ peerId counter, ranges.Covers peerId counter ∧
      ¬v.Covers peerId counter := by
  rw [selects, List.any_eq_true]
  constructor
  · rintro ⟨range, hrange, hlt⟩
    have hlt := of_decide_eq_true hlt
    have hstart := range.start_lt_end
    -- the last operation of the range is not covered
    refine ⟨range.peerId, range.endCounter - 1, ⟨range, hrange, rfl, by omega, by omega⟩, ?_⟩
    rw [covers_iff_lt_endCounterFor]
    omega
  · rintro ⟨_, counter, ⟨range, hrange, rfl, -, hend⟩, hnot⟩
    rw [covers_iff_lt_endCounterFor] at hnot
    exact ⟨range, hrange, decide_eq_true (by omega)⟩

theorem ContainedIn.covers (h : v.ContainedIn w) {peerId : U64} {counter : ℕ}
    (hv : v.Covers peerId counter) : w.Covers peerId counter := by
  obtain ⟨entry, hentry, rfl, hlt⟩ := hv
  obtain ⟨entry', hentry', hpeer, hle⟩ := h entry hentry
  exact ⟨entry', hentry', hpeer, Nat.lt_of_lt_of_le hlt hle⟩

/-- **Selection is antitone.** -/
theorem selects_of_containedIn (h : v.ContainedIn w) (hw : w.selects ranges = true) :
    v.selects ranges = true := by
  obtain ⟨peerId, counter, hcovers, hnot⟩ := selects_iff.mp hw
  exact selects_iff.mpr ⟨peerId, counter, hcovers, fun hv ↦ hnot (h.covers hv)⟩

end LoroOplogVersion

/-! ## Pages -/

variable {t : Tables} {d : DocumentId} {v : LoroOplogVersion} {limit : ℕ}
  {position terminal last : AcceptanceSequence} {page : StoredVectorBackfillPage}

/-- Where the examination of a page ended. -/
def StoredVectorBackfillPage.reached (page : StoredVectorBackfillPage)
    (position : AcceptanceSequence) : AcceptanceSequence := page.lastExaminedSequence.getD position

namespace UpdatesWellFormed

variable (hw : UpdatesWellFormed t)
include hw

theorem updateAt?_isSome_iff {sequence : AcceptanceSequence} :
    (updateAt? t d sequence).isSome = true ↔
      0 < sequence.get ∧ sequence.get ≤ (t.log d).length := by
  refine ⟨fun h ↦ ?_, fun h ↦ hw.updateAt?_isSome h.1 h.2⟩
  obtain ⟨row, hrow⟩ := Option.isSome_iff_exists.mp h
  obtain ⟨hmem, rfl⟩ := hw.updateAt?_eq_some_iff.mp hrow
  obtain ⟨i, hi⟩ := List.mem_iff_getElem?.mp hmem
  obtain ⟨hlt, -⟩ := List.getElem?_eq_some_iff.mp hi
  rw [hw.getElem?_log hi]
  omega

/-- **A page is what the version selects in the window it examined**, which starts at the position
and ends within the snapshot.  There is something in it when the limit has room for the longest
entry there can be. -/
theorem vectorBackfillIn_window (h : vectorBackfillIn t d position terminal v limit = .ok page) :
    position ≤ page.reached position ∧ page.reached position ≤ terminal ∧
      (page.hasMore = true ↔ page.reached position < terminal) ∧
      page.updates = v.select (t.window d position (page.reached position)) ∧
      (maxEnumerableMetadataLength ≤ limit → position < terminal →
        position < page.reached position) := by
  have hguards : ¬(terminal = .origin ∨ terminal < position) ∧
      ¬((position ≠ .origin ∧ (updateAt? t d position).isNone) ∨
        (updateAt? t d terminal).isNone) := by
    constructor
    · intro hbad
      rw [vectorBackfillIn, if_pos hbad] at h
      exact absurd h (by simp)
    · intro hbad
      rw [vectorBackfillIn, if_pos hbad] at h
      split at h <;> exact absurd h (by simp)
  obtain ⟨horder, hexists⟩ := hguards
  simp only [not_or] at horder hexists
  have hterminal := hw.updateAt?_isSome_iff (d := d).mp
    (Option.isSome_iff_ne_none.mpr (by simpa using hexists.2))
  have hle : position.get ≤ terminal.get := by
    have := AcceptanceSequence.lt_def.not.mp horder.2
    omega
  obtain ⟨k, hk, -, end?, heq, hzero, hpos, hprogress⟩ := hw.vectorBackfillIn_spec v limit
    hterminal.1 hterminal.2 hle
  obtain rfl := Except.ok.inj (h.symm.trans heq)
  have hend : (StoredVectorBackfillPage.reached ⟨decide (position.get + k < terminal.get), end?,
      v.select (((t.metadataLog d).drop position.get).take k)⟩ position).get = position.get +
        k := by
    rw [StoredVectorBackfillPage.reached]
    rcases Nat.eq_zero_or_pos k with rfl | hk0
    · rw [hzero rfl]
      rfl
    · obtain ⟨sequence, rfl, hsequence⟩ := hpos hk0
      exact hsequence
  refine ⟨?_, ?_, ?_, ?_, fun hlimit hlt ↦ ?_⟩
  · rw [AcceptanceSequence.le_def, hend]
    omega
  · rw [AcceptanceSequence.le_def, hend]
    exact hk
  · rw [AcceptanceSequence.lt_def, hend, decide_eq_true_iff]
  · rw [hw.window_eq, hend, List.drop_take, Nat.add_sub_cancel_left]
  · rw [AcceptanceSequence.lt_def, hend]
    exact Nat.lt_add_of_pos_right (hprogress hlimit (AcceptanceSequence.lt_def.mp hlt))

/-- There is a page that examines just one row. -/
theorem exists_page_of_row {row : UpdateRow} (hrow : row ∈ t.updates.rows)
    (hnext : position.get + 1 = row.acceptanceSequence.get)
    (hlimit : maxEnumerableMetadataLength ≤ limit) :
    ∃ page, vectorBackfillIn t row.documentId position row.acceptanceSequence v limit = .ok page ∧
      page.reached position = row.acceptanceSequence := by
  have hstored := hw.updateAt?_isSome_iff.mp (Option.isSome_iff_exists.mpr
    ⟨row, hw.updateAt?_eq_some_iff.mpr ⟨Tables.mem_log.mpr ⟨hrow, rfl⟩, rfl⟩⟩)
  obtain ⟨k, -, -, last, hpage, -⟩ :=
    hw.vectorBackfillIn_spec v limit hstored.1 hstored.2
      (show position.get ≤ row.acceptanceSequence.get by omega)
  obtain ⟨-, hend, -, -, hprogress⟩ := hw.vectorBackfillIn_window hpage
  refine ⟨_, hpage, AcceptanceSequence.ext ?_⟩
  have hlt := AcceptanceSequence.lt_def.mp
    (hprogress hlimit (AcceptanceSequence.lt_def.mpr (by omega)))
  have hle := AcceptanceSequence.le_def.mp hend
  omega

/-- The entries of a window are those of the rows in it. -/
theorem mem_window_iff {lower upper : AcceptanceSequence} {row : UpdateRow}
    {update : ImmutableUpdate} (hrow : row ∈ t.updates.rows) (hd : row.documentId = d)
    (hupdate : decodeUpdateRecord row.encodedRecord = .ok update) :
    update.metadata ∈ t.window d lower upper ↔
      lower < row.acceptanceSequence ∧ row.acceptanceSequence ≤ upper := by
  have hlog : row ∈ t.log d := Tables.mem_log.mpr ⟨hrow, hd⟩
  have hentry : row.metadata? = some update.metadata := by
    rw [UpdateRow.metadata?, UpdateRow.update?_eq_some_iff.mpr hupdate]
    rfl
  rw [Tables.window, List.mem_filterMap]
  constructor
  · rintro ⟨row', hrow', hentry'⟩
    obtain ⟨hlog', hwindow⟩ := List.mem_filter.mp hrow'
    -- the identifier in the entry tells which row it is
    suffices hsame : row' = row from hsame ▸ of_decide_eq_true hwindow
    obtain ⟨hmem', hd'⟩ := Tables.mem_log.mp hlog'
    obtain ⟨update', hupdate', -, hid'⟩ := hw.update_of_mem_log hlog'
    obtain ⟨other, hother, -, hid⟩ := hw.update_of_mem_log hlog
    obtain rfl := Except.ok.inj (hupdate.symm.trans hother)
    rw [UpdateRow.metadata?, UpdateRow.update?_eq_some_iff.mpr hupdate', Option.map_some,
      Option.some_inj] at hentry'
    have hsameId : row'.updateId = row.updateId := by
      rw [← hid', ← hid]
      exact congrArg UpdateMetadata.updateId hentry'
    exact t.updates.eq_of_key_eq hmem' hrow (Prod.ext (hd'.trans hd.symm) hsameId)
  · exact fun hwindow ↦ ⟨row, List.mem_filter.mpr ⟨hlog, decide_eq_true hwindow⟩, hentry⟩

end UpdatesWellFormed

/-- Of the rows of a document a page contains those that it examined and that have an operation that
the version does not cover. -/
theorem UpdatesWellFormed.mem_page_iff (hw : UpdatesWellFormed t)
    (hpage : vectorBackfillIn t d position terminal v limit = .ok page) {row : UpdateRow}
    (hrow : row ∈ t.updates.rows) (hd : row.documentId = d) {update : ImmutableUpdate}
    (hupdate : decodeUpdateRecord row.encodedRecord = .ok update) :
    update.metadata ∈ page.updates ↔
      (position < row.acceptanceSequence ∧ row.acceptanceSequence ≤ page.reached position) ∧
      ∃ peerId counter, update.publicLoroRanges.Covers peerId counter ∧
      ¬v.Covers peerId counter := by
  obtain ⟨-, -, -, hupdates, -⟩ := hw.vectorBackfillIn_window hpage
  rw [hupdates, LoroOplogVersion.select, List.mem_filter, hw.mem_window_iff hrow hd hupdate]
  exact and_congr_right fun _ ↦ LoroOplogVersion.selects_iff

/-- **Vector selection is exact.**  Of the log of any reachable store, a page of a vector backfill
examines a window, at least one row of it when the limit has room for it, and contains, of the
updates stored there, exactly those with an operation that the version does not cover; each stored
update is examined by some page; the lookup in the version agrees with its entries; and a version
that is contained in another selects all that the other selects. -/
theorem vector_selection_exact (sha256 : List UInt8 → Bytes verifierLength)
    (requests : List Request) (v : LoroOplogVersion) :
    (∀ d position terminal limit page,
      vectorBackfillIn (DurableUpdateStore.initial.run sha256 requests).tables d position terminal v
        limit = .ok page →
      position ≤ page.reached position ∧ page.reached position ≤ terminal ∧
      (page.hasMore = true ↔ page.reached position < terminal) ∧
      (maxEnumerableMetadataLength ≤ limit → position < terminal →
        position < page.reached position) ∧
      (∀ row ∈ (DurableUpdateStore.initial.run sha256 requests).tables.updates.rows,
        row.documentId = d → ∀ update, decodeUpdateRecord row.encodedRecord = .ok update →
        (update.metadata ∈ page.updates ↔
          (position < row.acceptanceSequence ∧ row.acceptanceSequence ≤ page.reached position) ∧
          ∃ peerId counter, update.publicLoroRanges.Covers peerId counter ∧
            ¬v.Covers peerId counter)) ∧
      ∀ entry ∈ page.updates,
        ∃ row ∈ (DurableUpdateStore.initial.run sha256 requests).tables.updates.rows,
          row.documentId = d ∧ ∃ update, decodeUpdateRecord row.encodedRecord = .ok update ∧
            update.metadata = entry) ∧
    (∀ row ∈ (DurableUpdateStore.initial.run sha256 requests).tables.updates.rows,
      ∀ update, decodeUpdateRecord row.encodedRecord = .ok update →
      (v.selects update.publicLoroRanges = true ↔
        ∃ peerId counter, update.publicLoroRanges.Covers peerId counter ∧
        ¬v.Covers peerId counter) ∧
      ∀ position limit, position.get + 1 = row.acceptanceSequence.get →
        maxEnumerableMetadataLength ≤ limit →
        ∃ page, vectorBackfillIn (DurableUpdateStore.initial.run sha256 requests).tables
            row.documentId position row.acceptanceSequence v limit = .ok page ∧
          (update.metadata ∈ page.updates ↔ ∃ peerId counter,
            update.publicLoroRanges.Covers peerId counter ∧ ¬v.Covers peerId counter)) ∧
    (∀ peerId, (∀ entry ∈ v.entries, entry.peerId = peerId →
        v.endCounterFor peerId = entry.endCounter) ∧
      ((∀ entry ∈ v.entries, entry.peerId ≠ peerId) → v.endCounterFor peerId = 0)) ∧
    ∀ w, v.ContainedIn w → ∀ ranges, w.selects ranges = true → v.selects ranges = true := by
  have hrun : WellFormed (DurableUpdateStore.initial.run sha256 requests).tables :=
    DurableUpdateStore.wellFormed_runRequests DurableUpdateStore.wellFormed_initial requests
  have hw := hrun.log
  refine ⟨fun d position terminal limit page hpage ↦ ?_, fun row hrow update hupdate ↦
    ⟨LoroOplogVersion.selects_iff, fun position limit hnext hlimit ↦ ?_⟩, fun peerId ↦ ⟨?_, ?_⟩, ?_⟩
  · obtain ⟨hstart, hend, hmore, hupdates, hprogress⟩ := hw.vectorBackfillIn_window hpage
    refine ⟨hstart, hend, hmore, hprogress,
      fun row hrow hd update hupdate ↦ hw.mem_page_iff hpage hrow hd hupdate, fun entry hentry ↦ ?_⟩
    rw [hupdates] at hentry
    obtain ⟨row, hrow, hmetadata⟩ := List.mem_filterMap.mp (List.mem_filter.mp hentry).1
    obtain ⟨hmem, hd⟩ := Tables.mem_log.mp (List.mem_filter.mp hrow).1
    obtain ⟨update, hupdate, rfl⟩ := Option.map_eq_some_iff.mp hmetadata
    exact ⟨row, hmem, hd, update, UpdateRow.update?_eq_some_iff.mp hupdate, rfl⟩
  · obtain ⟨page, hpage, hreached⟩ := hw.exists_page_of_row (v := v) hrow hnext hlimit
    refine ⟨page, hpage, (hw.mem_page_iff hpage hrow rfl hupdate).trans (and_iff_right ?_)⟩
    rw [hreached, AcceptanceSequence.lt_def]
    exact ⟨by omega, le_rfl⟩
  · rintro entry hentry rfl
    exact LoroOplogVersion.endCounterFor_of_mem hentry
  · exact LoroOplogVersion.endCounterFor_eq_zero
  · exact fun w h ranges ↦ LoroOplogVersion.selects_of_containedIn h

open DurableUpdateStore in
/-- The page examines both, and has the one that is lacking. -/
theorem vector_selection_exact_sample :
    let t := (initial.run Sample.sha256 Sample.accepting).tables
    ∃ page, vectorBackfillIn t Sample.document .origin ⟨2, by decide⟩ Sample.firstPeer 4096 =
        .ok page ∧
      (Sample.updateOf 1).metadata ∉ page.updates ∧
      (Sample.updateOf 2).metadata ∈ page.updates := by
  intro t
  -- an update of a peer is where it has been accepted
  have hstored : ∀ b ∈ [1, 2], ∃ row ∈ t.updates.rows, row.documentId = Sample.document ∧
      decodeUpdateRecord row.encodedRecord = .ok (Sample.updateOf b) ∧
      row.acceptanceSequence.get = b.toNat := by
    have hview : [1, 2].all (fun b ↦ t.updates.rows.any fun row ↦
        decide (row.documentId = Sample.document) &&
        decide (row.encodedRecord = recordBytes (Sample.updateOf b)) &&
        decide (row.acceptanceSequence.get = b.toNat)) = true := by decide +kernel
    intro b hb
    obtain ⟨row, hrow, hview⟩ := List.any_eq_true.mp (List.all_eq_true.mp hview b hb)
    simp only [Bool.and_eq_true, decide_eq_true_eq] at hview
    exact ⟨row, hrow, hview.1.1, hview.1.2 ▸ (Sample.acceptOf b).decoded, hview.2⟩
  obtain ⟨page, hpage, hreached⟩ : ∃ page, vectorBackfillIn t Sample.document .origin ⟨2, by decide⟩
      Sample.firstPeer 4096 = .ok page ∧ page.reached .origin = ⟨2, by decide⟩ :=
    ⟨⟨false, some ⟨2, by decide⟩, [(Sample.updateOf 2).metadata]⟩, by decide +kernel, rfl⟩
  obtain ⟨hpages, -, -, -⟩ :=
    vector_selection_exact Sample.sha256 Sample.accepting Sample.firstPeer
  obtain ⟨-, -, -, -, hselected, -⟩ := hpages _ _ _ _ page hpage
  refine ⟨page, hpage, fun hmem ↦ ?_, ?_⟩
  · obtain ⟨row, hrow, hd, hupdate, -⟩ := hstored 1 (by simp)
    obtain ⟨-, peerId, counter, ⟨range, hrange, hpeer, -, hlt⟩, hnot⟩ :=
      (hselected row hrow hd _ hupdate).mp hmem
    obtain rfl := List.mem_singleton.mp hrange
    exact hnot ⟨_, List.mem_singleton_self _, hpeer, hlt⟩
  · obtain ⟨row, hrow, hd, hupdate, hget⟩ := hstored 2 (by simp)
    refine (hselected row hrow hd _ hupdate).mpr
      ⟨?_, 2, 0, ⟨_, List.mem_singleton_self _, rfl, ?_⟩, ?_⟩
    · rw [hreached, AcceptanceSequence.lt_def, AcceptanceSequence.le_def, hget]
      decide
    · exact ⟨le_rfl, Nat.one_pos⟩
    · rintro ⟨entry, hentry, hpeer, -⟩
      obtain rfl := List.mem_singleton.mp hentry
      exact absurd hpeer (by decide)

end Renee
