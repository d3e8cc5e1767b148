import Renee.Store.Passes
import Renee.Store.WellFormed

/-!
# What a page contains

On well-formed tables the log of a document is its accepted updates in order, and the update at
position `n` is the `n`-th.  `Tables.metadataLog` is the public metadata of that log; a page is a
piece of it.

* `enumerateIn_spec`: a page of an enumeration is the next few entries of its window, at least one
  when the limit has room for the longest entry there can be.
* `vectorBackfillIn_spec`: a page of a backfill is what the version selects among the next few
  entries; it has more exactly when it has not reached the end of the snapshot.

Neither of them fails: every row is there, decodes and agrees with its index.
-/

set_option autoImplicit false

namespace Renee

open ByteString Relational

/-! ## The metadata of the log -/

/-- The public metadata of an update, as a page shows it. -/
def ImmutableUpdate.metadata (update : ImmutableUpdate) : UpdateMetadata :=
  ⟨update.encryptedPayload.length, update.publicLoroRanges, update.updateId⟩

/-- The public metadata of the update a row records. -/
def UpdateRow.metadata? (row : UpdateRow) : Option UpdateMetadata :=
  row.update?.map ImmutableUpdate.metadata

/-- The public metadata of the updates of a document, in acceptance order. -/
def Tables.metadataLog (t : Tables) (d : DocumentId) : List UpdateMetadata :=
  (t.log d).filterMap UpdateRow.metadata?

/-- The updates of a document accepted in the window `(lower, terminal]`, in acceptance order. -/
def Tables.window (t : Tables) (d : DocumentId) (lower terminal : AcceptanceSequence) :
    List UpdateMetadata :=
  ((t.log d).filter fun row ↦
    lower < row.acceptanceSequence ∧ row.acceptanceSequence ≤ terminal).filterMap
      UpdateRow.metadata?

/-- What a version selects from a list of updates. -/
def LoroOplogVersion.select (v : LoroOplogVersion) (updates : List UpdateMetadata) :
    List UpdateMetadata :=
  updates.filter fun entry ↦ v.selects entry.publicLoroRanges

/-- The payload of an update of a document. -/
def Tables.payload? (t : Tables) (d : DocumentId) (u : UpdateId) : Option (List UInt8) :=
  ((t.updates.find? (d, u)).bind UpdateRow.update?).map ImmutableUpdate.encryptedPayload

section FilterMap

variable {α β : Type} {f : α → Option β} {l : List α}

theorem map_some_filterMap (h : ∀ x ∈ l, (f x).isSome) : (l.filterMap f).map some = l.map f := by
  induction l with
  | nil => rfl
  | cons x l ih =>
    obtain ⟨y, hy⟩ := Option.isSome_iff_exists.mp (h x (List.mem_cons_self ..))
    rw [List.filterMap_cons_some hy, List.map_cons, List.map_cons, hy,
      ih fun x hx ↦ h x (List.mem_cons_of_mem _ hx)]

theorem length_filterMap_of_isSome (h : ∀ x ∈ l, (f x).isSome) :
    (l.filterMap f).length = l.length := by
  have hmap := congrArg List.length (map_some_filterMap h)
  rwa [List.length_map, List.length_map] at hmap

theorem filterMap_take_of_isSome (h : ∀ x ∈ l, (f x).isSome) (n : ℕ) :
    (l.take n).filterMap f = (l.filterMap f).take n := by
  have htake : ∀ x ∈ l.take n, (f x).isSome := fun x hx ↦ h x (List.mem_of_mem_take hx)
  refine List.map_injective_iff.mpr (Option.some_injective β) ?_
  rw [map_some_filterMap htake, List.map_take, ← map_some_filterMap h, List.map_take]

theorem filterMap_drop_of_isSome (h : ∀ x ∈ l, (f x).isSome) (n : ℕ) :
    (l.drop n).filterMap f = (l.filterMap f).drop n := by
  have hdrop : ∀ x ∈ l.drop n, (f x).isSome := fun x hx ↦ h x (List.mem_of_mem_drop hx)
  refine List.map_injective_iff.mpr (Option.some_injective β) ?_
  rw [map_some_filterMap hdrop, List.map_drop, ← map_some_filterMap h, List.map_drop]

end FilterMap

theorem or_getLast?_cons (row : UpdateRow) (rows : List UpdateRow)
    (last : Option AcceptanceSequence) :
    (((row :: rows).getLast?.map UpdateRow.acceptanceSequence).or last) =
      ((rows.getLast?.map UpdateRow.acceptanceSequence).or (some row.acceptanceSequence)) := by
  rw [List.getLast?_cons]
  cases rows.getLast? <;> rfl

/-- A payload is not empty, and shorter than a record. -/
theorem Tables.length_payload? {t : Tables} {d : DocumentId} {u : UpdateId} {payload : List UInt8}
    (hp : t.payload? d u = some payload) :
    payload ≠ [] ∧ payload.length ≤ maxUpdateRecordLength := by
  obtain ⟨update, hupdate, rfl⟩ := Option.map_eq_some_iff.mp hp
  obtain ⟨row, -, hrecord⟩ := Option.bind_eq_some_iff.mp hupdate
  obtain ⟨hbytes, hlong, hpos, -⟩ :=
    decodeUpdateRecord_eq_ok_iff.mp (UpdateRow.update?_eq_some_iff.mp hrecord)
  have hlen := length_recordBytes update
  rw [← hbytes] at hlen
  exact ⟨List.length_pos_iff.mp (by omega), by omega⟩

namespace UpdatesWellFormed

variable {t : Tables} {d : DocumentId} (h : UpdatesWellFormed t)
include h

/-- A row of the log decodes to an update of the document. -/
theorem update_of_mem_log {row : UpdateRow} (hrow : row ∈ t.log d) :
    ∃ update, decodeUpdateRecord row.encodedRecord = .ok update ∧ update.documentId = d ∧
      update.updateId = row.updateId := by
  obtain ⟨hmem, rfl⟩ := Tables.mem_log.mp hrow
  obtain ⟨update, hupdate, hd, hu⟩ := h.record hmem
  exact ⟨update, UpdateRow.update?_eq_some_iff.mp hupdate, hd, hu⟩

/-- **A fetch returns the payload that was accepted.** -/
theorem fetchIn_eq (u : UpdateId) : fetchIn t d u = .ok (t.payload? d u) := by
  rw [fetchIn, Tables.payload?]
  cases hrow : t.updates.find? (d, u) with
  | none => rfl
  | some row =>
    obtain ⟨hmem, hkey⟩ := t.updates.find?_eq_some_iff.mp hrow
    obtain ⟨update, hupdate, hd, hu⟩ := h.record hmem
    obtain ⟨rfl, rfl⟩ := Prod.mk.inj hkey
    simp only [Option.bind_some, hupdate, Option.map_some, UpdateRow.update?_eq_some_iff.mp hupdate]
    rw [if_neg (by simp [hd, hu])]

theorem isSome_metadata? {row : UpdateRow} (hrow : row ∈ t.log d) : row.metadata?.isSome := by
  obtain ⟨update, hupdate, -⟩ := h.update_of_mem_log hrow
  rw [UpdateRow.metadata?, UpdateRow.update?_eq_some_iff.mpr hupdate]
  rfl

theorem length_metadataLog (d : DocumentId) : (t.metadataLog d).length = (t.log d).length :=
  length_filterMap_of_isSome fun _ ↦ h.isSome_metadata?

theorem length_log_lt (d : DocumentId) : (t.log d).length < 2 ^ 64 := by
  rcases Nat.eq_zero_or_pos (t.log d).length with hzero | hpos
  · omega
  · obtain ⟨row, hrow⟩ : ∃ row, (t.log d)[(t.log d).length - 1]? = some row :=
      ⟨_, List.getElem?_eq_getElem (by omega)⟩
    have hlt := row.acceptanceSequence.isLt
    rw [h.getElem?_log hrow] at hlt
    omega

/-- The entry of the metadata at an index is that of the row there. -/
theorem getElem?_metadataLog {i : ℕ} {row : UpdateRow} (hrow : (t.log d)[i]? = some row) :
    (t.metadataLog d)[i]? = row.metadata? := by
  have hmap := congrArg (fun l ↦ l[i]?)
    (map_some_filterMap (l := t.log d) fun _ ↦ h.isSome_metadata?)
  simp only [List.getElem?_map, hrow, Option.map_some] at hmap
  change ((t.metadataLog d)[i]?).map some = some row.metadata? at hmap
  cases hentry : (t.metadataLog d)[i]? with
  | none => rw [hentry] at hmap; exact absurd hmap (by simp)
  | some entry =>
    rw [hentry, Option.map_some, Option.some_inj] at hmap
    exact hmap

/-! ## Positions -/

/-- The rows with positions in a window stand together. -/
theorem filter_log_eq (d : DocumentId) (lower terminal : AcceptanceSequence) :
    ((t.log d).filter fun row ↦
      lower < row.acceptanceSequence ∧ row.acceptanceSequence ≤ terminal) =
      ((t.log d).take terminal.get).drop lower.get := by
  refine List.ext_getElem? fun i ↦ ?_
  -- both sides are the sublist of rows with these positions, in order
  suffices hsplit : ∀ (l : List UpdateRow) (n : ℕ),
      (∀ i row, l[i]? = some row → row.acceptanceSequence.get = n + i + 1) →
      (l.filter fun row ↦ lower < row.acceptanceSequence ∧ row.acceptanceSequence ≤ terminal) =
        (l.take (terminal.get - n)).drop (lower.get - n) by
    rw [hsplit (t.log d) 0 fun i row hrow ↦ by rw [h.getElem?_log hrow]; omega]
    rfl
  intro l
  induction l with
  | nil => intro n _; simp
  | cons row l ih =>
    intro n hpos
    have hrow : row.acceptanceSequence.get = n + 1 := hpos 0 row rfl
    have hrest := ih (n + 1) fun i row' hrow' ↦ by
      rw [hpos (i + 1) row' hrow']; omega
    rw [List.filter_cons, hrest]
    simp only [AcceptanceSequence.lt_def, AcceptanceSequence.le_def, hrow, decide_eq_true_eq]
    by_cases hterminal : n + 1 ≤ terminal.get
    · rw [show terminal.get - n = terminal.get - (n + 1) + 1 by omega, List.take_succ_cons]
      by_cases hlower : lower.get < n + 1
      · rw [if_pos ⟨hlower, hterminal⟩, show lower.get - n = 0 by omega,
          show lower.get - (n + 1) = 0 by omega, List.drop_zero, List.drop_zero]
      · rw [if_neg (fun hc ↦ hlower hc.1), show lower.get - n = lower.get - (n + 1) + 1 by omega,
          List.drop_succ_cons]
    · rw [if_neg (fun hc ↦ hterminal hc.2), show terminal.get - n = 0 by omega,
        show terminal.get - (n + 1) = 0 by omega, List.take_zero, List.take_zero, List.drop_nil,
        List.drop_nil]

/-- **A window is a piece of the metadata log.** -/
theorem window_eq (d : DocumentId) (lower terminal : AcceptanceSequence) :
    t.window d lower terminal = ((t.metadataLog d).take terminal.get).drop lower.get := by
  have hsome : ∀ row ∈ t.log d, (UpdateRow.metadata? row).isSome := fun _ ↦ h.isSome_metadata?
  rw [Tables.window, h.filter_log_eq, filterMap_drop_of_isSome fun row hrow ↦
    hsome row (List.mem_of_mem_take hrow), filterMap_take_of_isSome hsome]
  rfl

theorem updateAt?_eq_some_iff {sequence : AcceptanceSequence} {row : UpdateRow} :
    updateAt? t d sequence = some row ↔ row ∈ t.log d ∧ row.acceptanceSequence = sequence := by
  rw [updateAt?]
  constructor
  · intro hfind
    have hp := List.find?_some hfind
    rw [decide_eq_true_eq] at hp
    exact ⟨Tables.mem_log.mpr ⟨List.mem_of_find?_eq_some hfind, hp.1⟩, hp.2⟩
  · rintro ⟨hrow, rfl⟩
    obtain ⟨hmem, hd⟩ := Tables.mem_log.mp hrow
    cases hfind : t.updates.rows.find? fun row' ↦
        row'.documentId = d ∧ row'.acceptanceSequence = row.acceptanceSequence with
    | none =>
      have hnone := List.find?_eq_none.mp hfind row hmem
      rw [decide_eq_true_eq] at hnone
      exact absurd ⟨hd, rfl⟩ hnone
    | some other =>
      have hp := List.find?_some hfind
      rw [decide_eq_true_eq] at hp
      have hother := Tables.mem_log.mpr ⟨List.mem_of_find?_eq_some hfind, hp.1⟩
      rw [h.eq_of_position_eq hother hrow hp.2]

theorem updateAt?_isSome {sequence : AcceptanceSequence} (hpos : 0 < sequence.get)
    (hle : sequence.get ≤ (t.log d).length) : (updateAt? t d sequence).isSome := by
  obtain ⟨row, hrow⟩ : ∃ row, (t.log d)[sequence.get - 1]? = some row :=
    ⟨_, List.getElem?_eq_getElem (by omega)⟩
  have hsequence : row.acceptanceSequence = sequence :=
    AcceptanceSequence.ext (by rw [h.getElem?_log hrow]; omega)
  rw [h.updateAt?_eq_some_iff.mpr ⟨List.mem_of_getElem? hrow, hsequence⟩]
  rfl

/-- **The high water is the length of the log.** -/
theorem highWaterSequenceIn_eq_some_iff {terminal : AcceptanceSequence} :
    highWaterSequenceIn t d = some terminal ↔
      0 < (t.log d).length ∧ terminal.get = (t.log d).length := by
  rw [highWaterSequenceIn, List.getLast?_eq_getElem?]
  rcases Nat.eq_zero_or_pos (t.log d).length with hzero | hpos
  · rw [List.getElem?_eq_none (by omega), Option.map_none]
    exact ⟨fun hc ↦ absurd hc (by simp), fun hc ↦ absurd hc.1 (by omega)⟩
  · obtain ⟨row, hrow⟩ : ∃ row, (t.log d)[(t.log d).length - 1]? = some row :=
      ⟨_, List.getElem?_eq_getElem (by omega)⟩
    have hposition := h.getElem?_log hrow
    rw [hrow, Option.map_some, Option.some_inj]
    constructor
    · rintro rfl
      exact ⟨hpos, by omega⟩
    · rintro ⟨-, hterminal⟩
      exact AcceptanceSequence.ext (by omega)

omit h in
theorem highWaterSequenceIn_eq_none_iff : highWaterSequenceIn t d = none ↔ t.log d = [] := by
  rw [highWaterSequenceIn, Option.map_eq_none_iff, List.getLast?_eq_none_iff]

/-! ## Enumeration pages -/

/-- The entry at an ordinal is the one of the log, and fits a page. -/
theorem pageEntry_eq {lower ordinal : ℕ} {row : UpdateRow}
    (hrow : (t.log d)[lower + ordinal]? = some row) :
    ∃ entry, row.metadata? = some entry ∧
      pageEntry t d lower ordinal = .ok (entry, 22 + 16 * entry.publicLoroRanges.ranges.length) ∧
      22 + 16 * entry.publicLoroRanges.ranges.length ≤ maxEnumerableMetadataLength := by
  have hmem := List.mem_of_getElem? hrow
  have hposition := h.getElem?_log hrow
  have hlt := row.acceptanceSequence.isLt
  obtain ⟨update, hupdate, hd, hu⟩ := h.update_of_mem_log hmem
  obtain ⟨hbytes, hlong, -, hmeta⟩ := decodeUpdateRecord_eq_ok_iff.mp hupdate
  have hlen := length_recordBytes update
  have hmax : maxUpdateRecordLength = 4024 := rfl
  rw [← hbytes] at hlen
  refine ⟨update.metadata, ?_, ?_, hmeta⟩
  · rw [UpdateRow.metadata?, UpdateRow.update?_eq_some_iff.mpr hupdate]
    rfl
  · have hsequence : windowSequence lower ordinal = some row.acceptanceSequence := by
      rw [windowSequence, dif_pos (by omega), Option.some_inj]
      exact AcceptanceSequence.ext hposition.symm
    rw [pageEntry, hsequence]
    simp only [h.updateAt?_eq_some_iff.mpr ⟨hmem, rfl⟩, hupdate, hd, hu, ne_eq, not_true_eq_false,
      if_false]
    rw [metadata, if_pos (by omega)]
    simp only [metadataEncodedLength_eq]
    rfl

theorem enumerateFrom_spec (d : DocumentId) (lower limit n ordinal used : ℕ)
    (hn : lower + ordinal + n ≤ (t.log d).length) :
    ∃ k ≤ n, enumerateFrom t d lower limit n ordinal used =
        .ok (ordinal + k, ((t.metadataLog d).drop (lower + ordinal)).take k) ∧
      (used = 0 → maxEnumerableMetadataLength ≤ limit → 0 < n → 0 < k) := by
  induction n generalizing ordinal used with
  | zero => exact ⟨0, le_refl _, by rw [enumerateFrom, List.take_zero, Nat.add_zero],
      fun _ _ hc ↦ absurd hc (lt_irrefl _)⟩
  | succ n ih =>
    obtain ⟨row, hrow⟩ : ∃ row, (t.log d)[lower + ordinal]? = some row :=
      ⟨_, List.getElem?_eq_getElem (by omega)⟩
    obtain ⟨entry, hentry, hpage, hfits⟩ := h.pageEntry_eq hrow
    have hlength := h.length_log_lt d
    have hmax : maxEnumerableMetadataLength = 4035 := rfl
    have hstop : ∃ k ≤ n + 1, (.ok (ordinal, []) : Except StoreError (ℕ × List UpdateMetadata)) =
        .ok (ordinal + k, ((t.metadataLog d).drop (lower + ordinal)).take k) ∧ k = 0 :=
      ⟨0, Nat.zero_le _, by rw [List.take_zero, Nat.add_zero], rfl⟩
    rw [enumerateFrom, hpage]
    simp only
    by_cases hadd : used + (22 + 16 * entry.publicLoroRanges.ranges.length) < 2 ^ 64
    · rw [checkedAdd_eq_some hadd]
      simp only
      by_cases hlimit : used + (22 + 16 * entry.publicLoroRanges.ranges.length) > limit
      · rw [if_pos hlimit]
        obtain ⟨k, hk, heq, rfl⟩ := hstop
        exact ⟨0, hk, heq, fun hzero hle _ ↦ absurd hlimit (by omega)⟩
      · rw [if_neg hlimit, checkedAdd_eq_some (by omega)]
        obtain ⟨k, hk, heq, -⟩ := ih (ordinal + 1)
          (used + (22 + 16 * entry.publicLoroRanges.ranges.length)) (by omega)
        refine ⟨k + 1, by omega, ?_, fun _ _ _ ↦ Nat.succ_pos k⟩
        simp only [heq]
        have hget := h.getElem?_metadataLog hrow
        rw [hentry] at hget
        have hdrop : (t.metadataLog d).drop (lower + ordinal) =
            entry :: (t.metadataLog d).drop (lower + (ordinal + 1)) := by
          obtain ⟨hlt, hval⟩ := List.getElem?_eq_some_iff.mp hget
          rw [List.drop_eq_getElem_cons hlt, hval]
          rfl
        rw [hdrop, List.take_succ_cons, Nat.add_right_comm, Nat.add_assoc]
    · rw [checkedAdd, if_neg hadd]
      obtain ⟨k, hk, heq, rfl⟩ := hstop
      exact ⟨0, hk, heq, fun hzero hle _ ↦ absurd hadd (by omega)⟩

/-- **A page of an enumeration is the next piece of its window.** -/
theorem enumerateIn_spec {lower terminal : AcceptanceSequence} {nextOrdinal : ℕ} (limit : ℕ)
    (hle : terminal.get ≤ (t.log d).length) (ho : nextOrdinal < terminal.get - lower.get) :
    ∃ k, nextOrdinal + k ≤ terminal.get - lower.get ∧ k ≤ maxEnumerationScanRecords ∧
      enumerateIn t d lower terminal nextOrdinal limit =
        .ok ⟨decide (nextOrdinal + k < terminal.get - lower.get), nextOrdinal + k,
          ((t.window d lower terminal).drop nextOrdinal).take k⟩ ∧
      (maxEnumerableMetadataLength ≤ limit → 0 < k) := by
  have hmax : maxEnumerationScanRecords = 64 := rfl
  obtain ⟨saturated, hsaturated⟩ : ∃ n, n = 2 ^ 64 - 1 := ⟨_, rfl⟩
  have hlength : (t.log d).length ≤ saturated :=
    hsaturated ▸ Nat.le_sub_one_of_lt (h.length_log_lt d)
  rw [enumerateIn, if_neg (by omega), ← hsaturated]
  simp only
  rw [if_neg (by omega)]
  obtain ⟨k, hk, heq, hpos⟩ := h.enumerateFrom_spec d lower.get limit
    (min (min (nextOrdinal + maxEnumerationScanRecords) saturated)
      (terminal.get - lower.get) - nextOrdinal) nextOrdinal 0 (by omega)
  refine ⟨k, by omega, by omega, ?_, fun hlimit ↦ hpos rfl hlimit (by omega)⟩
  rw [heq]
  simp only [Except.ok.injEq, StoredUpdatePage.mk.injEq, true_and]
  rw [h.window_eq, List.drop_drop, List.drop_take, List.take_take, Nat.min_eq_left (by omega)]

/-! ## Vector-backfill pages -/

/-- The scan examines a prefix of its rows and keeps what the version selects there. -/
theorem vectorBackfillFrom_spec (v : LoroOplogVersion) (limit : ℕ) {rows : List UpdateRow}
    (hrows : ∀ row ∈ rows, row ∈ t.log d) (used : ℕ) (last : Option AcceptanceSequence)
    (scanned : ℕ) (hs : scanned ≤ maxVectorScanRecords) :
    ∃ k ≤ rows.length, scanned + k ≤ maxVectorScanRecords ∧
      vectorBackfillFrom d v limit rows used last scanned =
        .ok ⟨decide (k < rows.length),
          ((rows.take k).getLast?.map UpdateRow.acceptanceSequence).or last,
          v.select ((rows.take k).filterMap UpdateRow.metadata?)⟩ ∧
      (used = 0 → scanned = 0 → maxEnumerableMetadataLength ≤ limit → rows ≠ [] → 0 < k) := by
  induction rows generalizing used scanned last with
  | nil => exact ⟨0, le_refl _, hs, rfl, fun _ _ _ hc ↦ absurd rfl hc⟩
  | cons row rows ih =>
    have hmax : maxEnumerableMetadataLength = 4035 := rfl
    have hscan : maxVectorScanRecords = 64 := rfl
    have hstop : (.ok ⟨true, last, []⟩ : Except StoreError StoredVectorBackfillPage) =
        .ok ⟨decide (0 < (row :: rows).length),
          (((row :: rows).take 0).getLast?.map UpdateRow.acceptanceSequence).or last,
          v.select (((row :: rows).take 0).filterMap UpdateRow.metadata?)⟩ := rfl
    rw [vectorBackfillFrom]
    by_cases hfull : scanned = maxVectorScanRecords
    · rw [if_pos hfull]
      exact ⟨0, Nat.zero_le _, hs, hstop, fun _ hzero ↦ absurd hfull (by omega)⟩
    rw [if_neg hfull]
    obtain ⟨update, hupdate, hd, -⟩ := h.update_of_mem_log (hrows row (List.mem_cons_self ..))
    obtain ⟨hbytes, hlong, -, hmeta⟩ := decodeUpdateRecord_eq_ok_iff.mp hupdate
    have hlen := length_recordBytes update
    have hrecord : maxUpdateRecordLength = 4024 := rfl
    rw [← hbytes] at hlen
    have hentry : row.metadata? = some update.metadata := by
      rw [UpdateRow.metadata?, UpdateRow.update?_eq_some_iff.mpr hupdate]
      rfl
    have hrest : ∀ row ∈ rows, row ∈ t.log d := fun row hrow ↦
      hrows row (List.mem_cons_of_mem _ hrow)
    simp only [hupdate, hd, ne_eq, not_true_eq_false, if_false]
    by_cases hselects : v.selects update.publicLoroRanges = true
    · rw [if_pos hselects, metadata, if_pos (by omega)]
      simp only [metadataEncodedLength_eq]
      by_cases hadd : used + (22 + 16 * update.publicLoroRanges.ranges.length) < 2 ^ 64
      · rw [checkedAdd_eq_some hadd]
        simp only
        by_cases hlimit : used + (22 + 16 * update.publicLoroRanges.ranges.length) > limit
        · rw [if_pos hlimit]
          exact ⟨0, Nat.zero_le _, hs, hstop,
            fun hzero _ hle ↦ absurd hlimit (by simp only [hmax] at hmeta; omega)⟩
        · rw [if_neg hlimit]
          obtain ⟨k, hk, hsk, heq, -⟩ := ih hrest
            (used + (22 + 16 * update.publicLoroRanges.ranges.length))
            (some row.acceptanceSequence) (scanned + 1) (by omega)
          refine ⟨k + 1, by simpa using hk, by omega, ?_, fun _ _ _ _ ↦ Nat.succ_pos k⟩
          have hselect : v.select (update.metadata :: (rows.take k).filterMap
              UpdateRow.metadata?) =
                update.metadata :: v.select ((rows.take k).filterMap UpdateRow.metadata?) :=
            List.filter_cons_of_pos hselects
          rw [heq, List.take_succ_cons, or_getLast?_cons, List.filterMap_cons_some hentry, hselect]
          simp only [List.length_cons, Nat.add_lt_add_iff_right]
          rfl
      · rw [checkedAdd, if_neg hadd]
        exact ⟨0, Nat.zero_le _, hs, hstop,
          fun hzero _ hle ↦ absurd hadd (by simp only [hmax] at hmeta; omega)⟩
    · rw [if_neg hselects]
      obtain ⟨k, hk, hsk, heq, -⟩ := ih hrest used
        (some row.acceptanceSequence) (scanned + 1) (by omega)
      refine ⟨k + 1, by simpa using hk, by omega, ?_, fun _ _ _ _ ↦ Nat.succ_pos k⟩
      have hselect : v.select (update.metadata :: (rows.take k).filterMap UpdateRow.metadata?) =
          v.select ((rows.take k).filterMap UpdateRow.metadata?) :=
        List.filter_cons_of_neg hselects
      rw [heq, List.take_succ_cons, or_getLast?_cons, List.filterMap_cons_some hentry, hselect]
      simp only [List.length_cons, Nat.add_lt_add_iff_right]

/-- **A page of a backfill is what the version selects in the next piece of the snapshot**, and it
has more exactly when the snapshot has. -/
theorem vectorBackfillIn_spec {position terminal : AcceptanceSequence} (v : LoroOplogVersion)
    (limit : ℕ) (hpos : 0 < terminal.get) (hle : terminal.get ≤ (t.log d).length)
    (hp : position.get ≤ terminal.get) :
    ∃ k, position.get + k ≤ terminal.get ∧ k ≤ maxVectorScanRecords ∧
      ∃ last, vectorBackfillIn t d position terminal v limit =
        .ok ⟨decide (position.get + k < terminal.get), last,
          v.select (((t.metadataLog d).drop position.get).take k)⟩ ∧
        (k = 0 → last = none) ∧
        (0 < k → ∃ sequence, last = some sequence ∧ sequence.get = position.get + k) ∧
        (maxEnumerableMetadataLength ≤ limit → position.get < terminal.get → 0 < k) := by
  have hscan : maxVectorScanRecords = 64 := rfl
  -- the rows of the scan are those after the position, one more than it may examine
  have hrows : vectorRows t d position terminal =
      (((t.log d).take terminal.get).drop position.get).take (maxVectorScanRecords + 1) := by
    rw [vectorRows, h.filter_log_eq]
  have hlength : (vectorRows t d position terminal).length =
      min (maxVectorScanRecords + 1) (terminal.get - position.get) := by
    rw [hrows, List.length_take, List.length_drop, List.length_take, Nat.min_eq_left hle]
  have hmem : ∀ row ∈ vectorRows t d position terminal, row ∈ t.log d := fun row hrow ↦
    List.mem_of_mem_take (List.mem_of_mem_drop (List.mem_of_mem_take (hrows ▸ hrow)))
  obtain ⟨k, hk, hsk, heq, hprogress⟩ := h.vectorBackfillFrom_spec v limit hmem 0 none 0
    (Nat.zero_le _)
  have htake : (vectorRows t d position terminal).take k = ((t.log d).drop position.get).take
      k := by
    rw [hrows, List.take_take, Nat.min_eq_left (by omega), List.drop_take, List.take_take,
      Nat.min_eq_left (by omega)]
  have hsome : ∀ row ∈ t.log d, (UpdateRow.metadata? row).isSome := fun _ ↦ h.isSome_metadata?
  refine ⟨k, by omega, by omega, ((((t.log d).drop position.get).take k).getLast?.map
    UpdateRow.acceptanceSequence).or none, ?_, ?_, ?_, ?_⟩
  · rw [vectorBackfillIn, if_neg, if_neg]
    · rw [heq, htake, filterMap_take_of_isSome fun row hrow ↦
        hsome row (List.mem_of_mem_drop hrow), filterMap_drop_of_isSome hsome, hlength]
      simp only [Except.ok.injEq, StoredVectorBackfillPage.mk.injEq, decide_eq_decide]
      exact ⟨by omega, trivial, rfl⟩
    · rintro (⟨hne, hnone⟩ | hnone)
      · have hp0 : 0 < position.get := Nat.pos_of_ne_zero fun hzero ↦
          hne (AcceptanceSequence.ext hzero)
        have hsome := h.updateAt?_isSome (d := d) hp0 (hp.trans hle)
        rw [Option.isNone_iff_eq_none.mp hnone] at hsome
        exact absurd hsome (by simp)
      · have hsome := h.updateAt?_isSome (d := d) hpos hle
        rw [Option.isNone_iff_eq_none.mp hnone] at hsome
        exact absurd hsome (by simp)
    · rintro (rfl | hlt)
      · exact absurd hpos (by simp)
      · exact absurd (AcceptanceSequence.lt_def.mp hlt) (by omega)
  · rintro rfl
    rw [List.take_zero]
    rfl
  · intro hk0
    obtain ⟨row, hrow⟩ : ∃ row, (t.log d)[position.get + (k - 1)]? = some row :=
      ⟨_, List.getElem?_eq_getElem (by omega)⟩
    have hlast : (((t.log d).drop position.get).take k).getLast? = some row := by
      have hlen : (((t.log d).drop position.get).take k).length = k := by
        rw [List.length_take, List.length_drop]; omega
      rw [List.getLast?_eq_getElem?, hlen, List.getElem?_take_of_lt (by omega),
        List.getElem?_drop, hrow]
    refine ⟨row.acceptanceSequence, by rw [hlast]; rfl, ?_⟩
    rw [h.getElem?_log hrow]
    omega
  · intro hlimit hlt
    refine hprogress rfl rfl hlimit fun hnil ↦ ?_
    rw [hnil, List.length_nil] at hlength
    omega

end UpdatesWellFormed

end Renee
