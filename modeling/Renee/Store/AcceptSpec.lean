import Renee.Store.Accept
import Renee.Store.ControlSpec

/-!
# What accepting an update does

`Accepted` is the one way in which an accept changes the tables, and `accept_spec` says that an
accept either has that effect and answers `Inserted` or leaves the tables alone.

The rest of the file is the other direction, needed where the outcome itself matters: given the
document, the peer union is extended exactly when it stays within the limit
(`insertDocumentLoroPeers_of_le`, `insertDocumentLoroPeers_of_gt`), and no constraint refuses the
rows of a new update (`insertUpdateRanges_ok`).
-/

set_option autoImplicit false

namespace Renee

open ByteString Relational Guard

variable {t t' : Tables} {d : DocumentId}

/-! ## Authorization without a forest -/

section Hash

variable {sha256 : List UInt8 → Bytes verifierLength}

/-- The walk either gives up or ends at the document. -/
theorem authorizeFrom_eq_or (c current : CapabilityId) (a : Authenticator) (operation : Operation)
    (steps : ℕ) :
    authorizeFrom sha256 t d c a operation steps current = .denied ∨
      authorizeFrom sha256 t d c a operation steps current = documentAuthorization t d := by
  induction steps generalizing current with
  | zero => exact Or.inl rfl
  | succ steps ih =>
    rw [authorizeFrom]
    split
    · exact Or.inl rfl
    split
    · exact Or.inl rfl
    split
    · exact Or.inl rfl
    split
    · exact Or.inr rfl
    · exact ih _

/-- What is authorized is authorized on an active document. -/
theorem document_of_authorize {c : CapabilityId} {a : Authenticator} {operation : Operation}
    (h : authorize sha256 t d c a operation = true) :
    ∃ document, t.document? d = some document ∧ document.retired = false := by
  rw [authorize, decide_eq_true_eq, authorizeDocument] at h
  rcases authorizeFrom_eq_or c c a operation maxCapabilityDepth with he | he
  · exact absurd (h.symm.trans he) (by simp)
  · rw [h, documentAuthorization] at he
    split at he
    · rename_i document hdocument
      refine ⟨document, hdocument, ?_⟩
      cases hr : document.retired
      · rfl
      · rw [hr] at he; exact absurd he (by simp)
    · exact absurd he (by simp)

end Hash

/-! ## The peer union -/

/-- The peers of some ranges that a document does not have yet. -/
def newPeers (t : Tables) (d : DocumentId) (ranges : List LoroRange) : List U64 :=
  (ranges.map LoroRange.peerId).filter fun peer ↦ (t.documentLoroPeers.find? (d, peer)).isNone

/-- The rows of some peers. -/
def peerRows (d : DocumentId) (peers : List U64) : List DocumentLoroPeerRow :=
  peers.map fun peer ↦ ⟨d, peer⟩

theorem newPeers_of_rows_append {row : DocumentLoroPeerRow} {ranges : List LoroRange}
    (h : t'.documentLoroPeers.rows = t.documentLoroPeers.rows ++ [row])
    (hrow : ∀ r ∈ ranges, row.peerId ≠ r.peerId) :
    newPeers t' d ranges = newPeers t d ranges := by
  refine List.filter_congr fun peer hpeer ↦ ?_
  obtain ⟨r, hr, rfl⟩ := List.mem_map.mp hpeer
  rw [Table.find?_of_rows_append_ne h fun hkey ↦ hrow r hr (Prod.mk_inj.mp hkey).2]

/-- The loop over the ranges, once and for all: it stops early exactly when the new peers do not
fit. -/
theorem insertPeersFrom_eq {ranges : List LoroRange} {count : ℕ}
    (hdoc : (t.document? d).isSome = true)
    (hsorted : ranges.Pairwise fun r r' ↦ r.peerId < r'.peerId) (hcount : count ≤ maxLoroPeers) :
    if count + (newPeers t d ranges).length ≤ maxLoroPeers then
      ∃ table, table.rows = t.documentLoroPeers.rows ++ peerRows d (newPeers t d ranges) ∧
        insertPeersFrom d ranges count t = .ok (true, { t with documentLoroPeers := table })
    else ∃ t', insertPeersFrom d ranges count t = .ok (false, t') := by
  induction ranges generalizing t count with
  | nil =>
    rw [if_pos (by simpa [newPeers] using hcount)]
    exact ⟨_, by simp [newPeers, peerRows], rfl⟩
  | cons r rs ih =>
    rw [List.pairwise_cons] at hsorted
    have hmax : maxLoroPeers < 2 ^ 64 - 1 := by decide
    rw [insertPeersFrom, Tables.insertOrIgnoreDocumentLoroPeer, Table.insert?]
    by_cases hkey : t.documentLoroPeers.find? (d, r.peerId) = none
    · -- a peer the document does not have: it is counted
      have hnew : newPeers t d (r :: rs) = r.peerId :: newPeers t d rs := by
        simp [newPeers, hkey]
      have hfind : t.documentLoroPeers.find? (Keyed.key (⟨d, r.peerId⟩ : DocumentLoroPeerRow)) =
        none := hkey
      rw [dif_pos hfind]
      simp only [hdoc, if_true, hnew, List.length_cons]
      rw [checkedAdd_eq_some (by omega)]
      simp only
      have htail : newPeers { t with
          documentLoroPeers := t.documentLoroPeers.insert ⟨d, r.peerId⟩ hfind } d rs =
            newPeers t d rs :=
        newPeers_of_rows_append (Table.rows_insert _ _ hfind) fun r' hr' ↦
          ne_of_lt (hsorted.1 r' hr')
      by_cases hlimit : count + 1 > maxLoroPeers
      · rw [if_pos hlimit, if_neg (by omega)]
        exact ⟨_, rfl⟩
      · rw [if_neg hlimit]
        have hrec := ih (t := { t with
          documentLoroPeers := t.documentLoroPeers.insert ⟨d, r.peerId⟩ hfind }) hdoc hsorted.2
          (Nat.le_of_not_lt hlimit)
        rw [htail] at hrec
        by_cases hfits : count + ((newPeers t d rs).length + 1) ≤ maxLoroPeers
        · rw [if_pos hfits]
          rw [if_pos (by omega)] at hrec
          obtain ⟨table, hrows, heq⟩ := hrec
          exact ⟨table, by rw [hrows]; simp [peerRows], heq⟩
        · rw [if_neg hfits]
          rw [if_neg (by omega)] at hrec
          exact hrec
    · -- a peer the document already has: the insertion is ignored
      have hnew : newPeers t d (r :: rs) = newPeers t d rs := by
        simp [newPeers, hkey]
      rw [dif_neg (by exact hkey), hnew]
      simp only
      rw [checkedAdd_eq_some (by omega)]
      simp only [Nat.add_zero]
      rw [if_neg (Nat.not_lt.mpr hcount)]
      exact ih hdoc hsorted.2 hcount

theorem insertDocumentLoroPeers_of_le {update : ImmutableUpdate}
    (hdoc : (t.document? update.documentId).isSome = true)
    (h : peerCount t update.documentId +
      (newPeers t update.documentId update.publicLoroRanges.ranges).length ≤ maxLoroPeers) :
    ∃ table, table.rows = t.documentLoroPeers.rows ++ peerRows update.documentId
        (newPeers t update.documentId update.publicLoroRanges.ranges) ∧
      insertDocumentLoroPeers t update = .ok (true, { t with documentLoroPeers := table }) := by
  have hcount : peerCount t update.documentId ≤ maxLoroPeers := by omega
  have hloop := insertPeersFrom_eq hdoc update.publicLoroRanges.sorted hcount
  rw [if_pos h] at hloop
  rw [insertDocumentLoroPeers, if_neg (Nat.not_lt.mpr hcount)]
  exact hloop

theorem insertDocumentLoroPeers_of_gt {update : ImmutableUpdate}
    (hdoc : (t.document? update.documentId).isSome = true)
    (h : maxLoroPeers < peerCount t update.documentId +
      (newPeers t update.documentId update.publicLoroRanges.ranges).length) :
    ∃ t', insertDocumentLoroPeers t update = .ok (false, t') := by
  rw [insertDocumentLoroPeers]
  by_cases hcount : peerCount t update.documentId ≤ maxLoroPeers
  · have hloop := insertPeersFrom_eq hdoc update.publicLoroRanges.sorted hcount
    rw [if_neg (Nat.not_le.mpr h)] at hloop
    rw [if_neg (Nat.not_lt.mpr hcount)]
    exact hloop
  · rw [if_pos (Nat.lt_of_not_le hcount)]
    exact ⟨t, rfl⟩

/-! ## The sequence and the ranges -/

theorem upsertAcceptanceSequence_eq_ok {row : AcceptanceSequenceRow}
    (h : t.upsertAcceptanceSequence row = .ok t') :
    ∃ table, t' = { t with documentAcceptanceSequences := table } ∧
      ∀ d, table.find? d = if row.documentId = d then some row
        else t.documentAcceptanceSequences.find? d := by
  rw [Tables.upsertAcceptanceSequence] at h
  split at h
  · split at h
    · rename_i table hinsert
      obtain ⟨hfree, rfl⟩ := Table.insert?_eq_some_iff.mp hinsert
      refine ⟨_, (Except.ok.inj h).symm, fun d ↦ ?_⟩
      rw [Table.find?_of_rows_append (Table.rows_insert _ _ hfree)]
      by_cases hd : row.documentId = d
      · subst hd
        have hkey : t.documentAcceptanceSequences.find? row.documentId = none := hfree
        simp [hkey, Keyed.key]
      · simp [Keyed.key, hd]
    · rename_i hinsert
      refine ⟨_, (Except.ok.inj h).symm, fun d ↦ ?_⟩
      rw [Table.find?_update]
      cases hold : t.documentAcceptanceSequences.find? d with
      | none =>
        have hne : row.documentId ≠ d := by
          rintro rfl
          rw [Table.insert?, dif_pos (by exact hold)] at hinsert
          exact absurd hinsert (by simp)
        rw [if_neg hne, Option.map_none]
      | some old =>
        have hkey : old.documentId = d := Table.key_of_find?_eq_some hold
        rw [Option.map_some, hkey]
        by_cases hd : row.documentId = d
        · rw [if_pos hd.symm, if_pos hd]
        · rw [if_neg (Ne.symm hd), if_neg hd]
  · exact absurd h (by simp)

theorem upsertAcceptanceSequence_ok {row : AcceptanceSequenceRow}
    (h : (t.document? row.documentId).isSome = true) :
    ∃ t', t.upsertAcceptanceSequence row = .ok t' := by
  rw [Tables.upsertAcceptanceSequence, if_pos h]
  split
  · exact ⟨_, rfl⟩
  · exact ⟨_, rfl⟩

theorem insertUpdateRanges_eq_ok {rows : List UpdateLoroRangeRow}
    (h : rows.foldlM Tables.insertUpdateLoroRange t = .ok t') :
    ∃ table, table.rows = t.updateLoroRanges.rows ++ rows ∧
      t' = { t with updateLoroRanges := table } := by
  induction rows generalizing t with
  | nil =>
    obtain rfl : t = t' := Except.ok.inj h
    exact ⟨_, by simp, rfl⟩
  | cons row rows ih =>
    rw [List.foldlM_cons, bind_eq_ok] at h
    obtain ⟨t₁, h₁, h⟩ := h
    obtain ⟨-, _, rfl⟩ := Tables.insertUpdateLoroRange_eq_ok_iff.mp h₁
    obtain ⟨table, hrows, rfl⟩ := ih h
    exact ⟨table, by rw [hrows]; simp, rfl⟩

/-- The ranges of an update can be indexed when the update is there and none of them is yet. -/
theorem insertUpdateRanges_ok {update : ImmutableUpdate}
    (hupdate : (t.updates.find? (update.documentId, update.updateId)).isSome = true)
    (hfree : ∀ row ∈ t.updateLoroRanges.rows,
      ¬(row.documentId = update.documentId ∧ row.updateId = update.updateId)) :
    ∃ t', insertUpdateRanges t update = .ok t' := by
  have hfree' : ∀ range ∈ update.publicLoroRanges.ranges, t.updateLoroRanges.find?
      (update.documentId, update.updateId, range.peerId) = none := by
    intro range _
    refine Table.find?_eq_none_iff.mpr fun row hrow hkey ↦ hfree row hrow ?_
    exact ⟨(Prod.mk_inj.mp hkey).1, (Prod.mk_inj.mp (Prod.mk_inj.mp hkey).2).1⟩
  have hsorted := update.publicLoroRanges.sorted
  rw [insertUpdateRanges, rangeRows]
  generalize update.publicLoroRanges.ranges = ranges at hsorted hfree'
  clear hfree
  induction ranges generalizing t with
  | nil => exact ⟨t, rfl⟩
  | cons r rs ih =>
    rw [List.pairwise_cons] at hsorted
    have hkey := hfree' r (List.mem_cons_self ..)
    have h₁ : t.insertUpdateLoroRange ⟨update.documentId, update.updateId, r.peerId,
        r.startCounter, r.endCounter⟩ = .ok _ :=
      Tables.insertUpdateLoroRange_eq_ok_iff.mpr ⟨hupdate, hkey, rfl⟩
    obtain ⟨t', h'⟩ := ih
      (t := { t with updateLoroRanges := t.updateLoroRanges.insert (⟨update.documentId,
        update.updateId, r.peerId, r.startCounter, r.endCounter⟩ : UpdateLoroRangeRow) hkey })
      hupdate hsorted.2 (by
        intro r' hr'
        rw [Table.find?_of_rows_append_ne (Table.rows_insert _ _ hkey)]
        · exact hfree' r' (List.mem_cons_of_mem _ hr')
        · intro heq
          exact ne_of_lt (hsorted.1 r' hr') (Prod.mk_inj.mp (Prod.mk_inj.mp heq).2).2)
    exact ⟨t', by rw [List.map_cons, List.foldlM_cons, h₁]; exact h'⟩

/-! ## The effect -/

/-- An update has been accepted at the given position. -/
structure Accepted (sha256 : List UInt8 → Bytes verifierLength) (t t' : Tables) (c : CapabilityId)
    (a : Authenticator) (update : ImmutableUpdate) (row : UpdateRow) : Prop where
  authorized : authorize sha256 t update.documentId c a .update = true
  row_document : row.documentId = update.documentId
  row_update : row.updateId = update.updateId
  row_sequence : row.acceptanceSequence = nextSequence t update.documentId
  sequence_lt : row.acceptanceSequence.get + 1 < 2 ^ 64
  update_fresh : t.updates.find? (update.documentId, update.updateId) = none
  position_fresh : ∀ other ∈ t.updates.rows, other.documentId = row.documentId →
    other.acceptanceSequence ≠ row.acceptanceSequence
  peers_le : peerCount t update.documentId +
    (newPeers t update.documentId update.publicLoroRanges.ranges).length ≤ maxLoroPeers
  createAuthorities : t'.createAuthorities = t.createAuthorities
  documents : t'.documents = t.documents
  capabilities : t'.capabilities = t.capabilities
  capabilityOperations : t'.capabilityOperations = t.capabilityOperations
  controlReceipts : t'.controlReceipts = t.controlReceipts
  createReceipts : t'.createReceipts = t.createReceipts
  documentAcceptanceSequences : ∀ d, t'.documentAcceptanceSequences.find? d =
    if update.documentId = d then
      some ⟨update.documentId, ⟨row.acceptanceSequence.get + 1, sequence_lt⟩⟩
    else t.documentAcceptanceSequences.find? d
  updates : t'.updates.rows = t.updates.rows ++ [row]
  updateLoroRanges : t'.updateLoroRanges.rows = t.updateLoroRanges.rows ++ rangeRows update
  documentLoroPeers : t'.documentLoroPeers.rows = t.documentLoroPeers.rows ++
    peerRows update.documentId (newPeers t update.documentId update.publicLoroRanges.ranges)

section Hash

variable {sha256 : List UInt8 → Bytes verifierLength} {c : CapabilityId} {a : Authenticator}
  {update : ImmutableUpdate} {encodedRecord : List UInt8}

theorem insertUpdateRecord_eq_ok {u : UpdateId} {sequence : AcceptanceSequence}
    (h : insertUpdateRecord t d u sequence encodedRecord = .ok t') :
    ∃ row : UpdateRow, row.documentId = d ∧ row.updateId = u ∧
      row.acceptanceSequence = sequence ∧ row.encodedRecord = encodedRecord ∧
      t.insertUpdate row = .ok t' := by
  rw [insertUpdateRecord] at h
  split at h
  · exact ⟨_, rfl, rfl, rfl, rfl, h⟩
  · exact absurd h (by simp)

theorem acceptIn_ok {ending : Ending StoreAcceptOutcome}
    (h : acceptIn sha256 c a update encodedRecord t = .ok ending) :
    (∃ t' row, ending = .commit .inserted t' ∧ row.encodedRecord = encodedRecord ∧
      Accepted sha256 t t' c a update row) ∨ ∃ o, ending = .rollback o ∧ o ≠ .inserted := by
  simp only [acceptIn] at h
  split at h
  · exact Or.inr ⟨_, (Except.ok.inj h).symm, by simp⟩
  rename_i hauthorized
  have hauth : authorize sha256 t update.documentId c a .update = true := by simpa using hauthorized
  split at h
  · split at h <;> exact Or.inr ⟨_, (Except.ok.inj h).symm, by simp⟩
  rename_i hfresh
  split at h
  · exact Or.inr ⟨_, (Except.ok.inj h).symm, by simp⟩
  rename_i following hfollowing
  have hnext := AcceptanceSequence.checkedNext_eq_some_iff.mp hfollowing
  rw [bind_eq_ok] at h
  obtain ⟨⟨fits, t₁⟩, h₁, h⟩ := h
  obtain ⟨document, hdocument, -⟩ := document_of_authorize hauth
  have hdoc : (t.document? update.documentId).isSome = true := by rw [hdocument]; rfl
  by_cases hpeers : peerCount t update.documentId +
      (newPeers t update.documentId update.publicLoroRanges.ranges).length ≤ maxLoroPeers
  · obtain ⟨peers, hpeerRows, hok⟩ := insertDocumentLoroPeers_of_le hdoc hpeers
    rw [hok] at h₁
    obtain ⟨rfl, rfl⟩ := Prod.mk_inj.mp (Except.ok.inj h₁)
    simp only [Bool.not_true, Bool.false_eq_true, if_false, bind_eq_ok] at h
    obtain ⟨t₂, h₂, t₃, h₃, t₄, h₄, h⟩ := h
    obtain ⟨sequences, rfl, hsequences⟩ := upsertAcceptanceSequence_eq_ok h₂
    obtain ⟨row, hd, hu, hs, hr, hrow⟩ := insertUpdateRecord_eq_ok h₃
    obtain ⟨⟨-, hposition⟩, _, rfl⟩ := Tables.insertUpdate_eq_ok_iff.mp hrow
    obtain ⟨ranges, hranges, rfl⟩ := insertUpdateRanges_eq_ok h₄
    have hlt : row.acceptanceSequence.get + 1 < 2 ^ 64 := by
      rw [hs, ← hnext]; exact following.isLt
    refine Or.inl ⟨_, row, (Except.ok.inj h).symm, hr,
      { authorized := hauth
        row_document := hd
        row_update := hu
        row_sequence := hs
        sequence_lt := hlt
        update_fresh := hfresh
        position_fresh := fun other hother hdo hso ↦ hposition ⟨other, hother, hdo, hso⟩
        peers_le := hpeers
        createAuthorities := rfl
        documents := rfl
        capabilities := rfl
        capabilityOperations := rfl
        controlReceipts := rfl
        createReceipts := rfl
        documentAcceptanceSequences := ?_
        updates := rfl
        updateLoroRanges := hranges
        documentLoroPeers := hpeerRows }⟩
    intro d
    have hfollowing' : following = ⟨row.acceptanceSequence.get + 1, hlt⟩ :=
      AcceptanceSequence.ext (hnext.trans (congrArg (fun s ↦ s.get + 1) hs.symm))
    rw [hsequences d, hfollowing']
  · obtain ⟨t', hok⟩ := insertDocumentLoroPeers_of_gt hdoc (Nat.lt_of_not_le hpeers)
    rw [hok] at h₁
    obtain ⟨rfl, rfl⟩ := Prod.mk_inj.mp (Except.ok.inj h₁)
    exact Or.inr ⟨_, (Except.ok.inj h).symm, by simp⟩

/-- **An accept commits its rows, or changes nothing.** -/
theorem accept_spec {result : Except StoreError StoreAcceptOutcome}
    (h : accept sha256 t c a update encodedRecord = (result, t')) :
    (result = .ok .inserted ∧ ∃ row, row.encodedRecord = encodedRecord ∧
      Accepted sha256 t t' c a update row) ∨ (result ≠ .ok .inserted ∧ t' = t) := by
  rcases transaction_eq h with ⟨o, rfl, hb⟩ | ⟨rfl, ⟨o, rfl, hb⟩ | ⟨e, rfl, -⟩⟩
  · rcases acceptIn_ok hb with ⟨t'', row, he, hr, hc⟩ | ⟨o', he, -⟩
    · obtain ⟨rfl, rfl⟩ := Ending.commit.inj he
      exact Or.inl ⟨rfl, row, hr, hc⟩
    · exact absurd he (by simp)
  · rcases acceptIn_ok hb with ⟨t'', row, he, -⟩ | ⟨o', he, hne⟩
    · exact absurd he (by simp)
    · obtain rfl := Ending.rollback.inj he
      exact Or.inr ⟨by simpa using hne, rfl⟩
  · exact Or.inr ⟨by simp, rfl⟩

end Hash

end Renee
