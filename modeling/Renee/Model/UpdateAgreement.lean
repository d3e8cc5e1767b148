import Renee.Model.Update
import Renee.Store.Answering

/-!
# The store and the update oracle

What the oracle keeps in maps the store has in its tables: `UpdateModel.Agrees` says so map by map.
On well-formed tables the log of a document is in order, so a range of the oracle's acceptance order
is a window of the log (`Agrees.window_eq`), and its high water is that of the log.

* `accept_agrees`: an authorized accept has the outcome of the oracle, and leaves both in agreement.
  The store compares records and the oracle updates, which comes to the same because records are
  canonical; the store counts the new peers while it inserts them, and the oracle before it does.
* `Agrees.of_effect`: whatever else is done to the tables does not concern the oracle.
-/

set_option autoImplicit false

namespace Renee

open ByteString Relational

/-- The outcome of the oracle, as the store reports it. -/
def AcceptOutcome.toStore : AcceptOutcome → StoreAcceptOutcome
  | .inserted => .inserted
  | .alreadyPresent => .alreadyPresent
  | .identifierConflict => .identifierConflict
  | .counterExhausted => .counterExhausted
  | .limitExceeded => .limitExceeded

/-- The accepted update that a row records. -/
def UpdateRow.accepted? (row : UpdateRow) : Option AcceptedUpdate :=
  row.update?.map fun update ↦ ⟨row.acceptanceSequence, update⟩

namespace UpdateModel

/-- The oracle has accepted what the tables record. -/
structure Agrees (m : UpdateModel) (t : Tables) : Prop where
  updates : ∀ d u, m.updates.get? (toLex (d, u)) =
    (t.updates.find? (d, u)).bind UpdateRow.accepted?
  order : ∀ d sequence u, m.acceptanceOrder.get? (toLex (d, sequence)) = some u ↔
    ∃ row ∈ t.log d, row.acceptanceSequence = sequence ∧ row.updateId = u
  peers : ∀ d peer, (m.documentPeers.get? d).any (fun peers ↦ peer ∈ peers) =
    (t.documentLoroPeers.find? (d, peer)).isSome
  sequences : ∀ d, (m.nextSequences.get? d).getD .first = nextSequence t d

variable {m : UpdateModel} {t t' : Tables} {d : DocumentId} {update : ImmutableUpdate}

theorem agrees_empty : empty.Agrees .empty where
  updates _ _ := rfl
  order _ _ _ := by
    refine ⟨fun h ↦ absurd h (by simp [empty]), ?_⟩
    rintro ⟨_, hrow, -⟩
    exact absurd (Tables.mem_log.mp hrow).1 List.not_mem_nil
  peers _ _ := rfl
  sequences _ := rfl

/-- What the oracle knows depends on three of the tables. -/
theorem Agrees.of_eq (h : m.Agrees t) (hupdates : t'.updates = t.updates)
    (hpeers : t'.documentLoroPeers = t.documentLoroPeers)
    (hsequences : t'.documentAcceptanceSequences = t.documentAcceptanceSequences) :
    m.Agrees t' where
  updates d u := by rw [hupdates, h.updates]
  order d sequence u := by rw [h.order, Tables.log, Tables.log, hupdates]
  peers d peer := by rw [hpeers, h.peers]
  sequences d := by rw [h.sequences, nextSequence, nextSequence, hsequences]

/-! ## Peers -/

theorem mem_peerRows {peer : U64} {peers : List U64} :
    (⟨d, peer⟩ : DocumentLoroPeerRow) ∈ peerRows d peers ↔ peer ∈ peers := by
  rw [peerRows, List.mem_map]
  refine ⟨?_, fun hpeer ↦ ⟨peer, hpeer, rfl⟩⟩
  rintro ⟨peer', hpeer', heq⟩
  obtain rfl : peer' = peer := congrArg DocumentLoroPeerRow.peerId heq
  exact hpeer'

theorem isSome_peer_iff {peer : U64} : (t.documentLoroPeers.find? (d, peer)).isSome = true ↔
    (⟨d, peer⟩ : DocumentLoroPeerRow) ∈ t.documentLoroPeers.rows := by
  rw [Table.isSome_find?_iff]
  refine ⟨?_, fun hmem ↦ ⟨_, hmem, rfl⟩⟩
  rintro ⟨row, hrow, hkey⟩
  obtain ⟨rfl, rfl⟩ := Prod.mk_inj.mp hkey
  exact hrow

/-- The oracle has as many peers of a document as the table has rows. -/
theorem Agrees.card_peers (h : m.Agrees t) (d : DocumentId) :
    (m.documentPeers.get? d).elim 0 Finset.card = peerCount t d := by
  have hnodup : ((t.documentLoroPeers.rows.filter fun row ↦ row.documentId = d).map
      DocumentLoroPeerRow.peerId).Nodup := by
    refine List.Nodup.map_on ?_ (t.documentLoroPeers.nodup_rows.filter _)
    intro row hrow row' hrow' heq
    simp only [List.mem_filter, decide_eq_true_eq] at hrow hrow'
    exact t.documentLoroPeers.eq_of_key_eq hrow.1 hrow'.1
      (Prod.ext (hrow.2.trans hrow'.2.symm) heq)
  have hmem : ∀ peer, peer ∈ (t.documentLoroPeers.rows.filter fun row ↦ row.documentId = d).map
      DocumentLoroPeerRow.peerId ↔
        (m.documentPeers.get? d).any (fun peers ↦ peer ∈ peers) = true := by
    intro peer
    rw [h.peers, isSome_peer_iff]
    simp only [List.mem_map, List.mem_filter, decide_eq_true_eq]
    constructor
    · rintro ⟨row, ⟨hrow, rfl⟩, rfl⟩
      exact hrow
    · intro hrow
      exact ⟨_, ⟨hrow, rfl⟩, rfl⟩
  rw [peerCount, List.countP_eq_length_filter, ← List.length_map DocumentLoroPeerRow.peerId,
    ← List.toFinset_card_of_nodup hnodup]
  cases hpeers : m.documentPeers.get? d with
  | none =>
    refine (Finset.card_eq_zero.mpr (Finset.eq_empty_of_forall_notMem fun peer hpeer ↦ ?_)).symm
    rw [List.mem_toFinset, hmem, hpeers] at hpeer
    exact absurd hpeer (by simp)
  | some peers =>
    refine congrArg Finset.card (Finset.ext fun peer ↦ ?_)
    rw [List.mem_toFinset, hmem, hpeers, Option.any_some, decide_eq_true_eq]

/-- The peers that the oracle counts are the ones the store is going to insert. -/
theorem Agrees.additional (h : m.Agrees t) (d : DocumentId) (ranges : List LoroRange) :
    (ranges.countP fun range ↦ (m.documentPeers.get? d).all fun peers ↦ range.peerId ∉ peers) =
      (newPeers t d ranges).length := by
  rw [newPeers, ← List.countP_eq_length_filter, List.countP_map]
  refine List.countP_congr fun range _ ↦ ?_
  have hpeer := h.peers d range.peerId
  rw [Function.comp_apply, Option.isNone_iff_eq_none, ← Option.not_isSome_iff_eq_none, ← hpeer]
  cases m.documentPeers.get? d <;> simp

/-! ## Accepting -/

section Hash

variable {sha256 : List UInt8 → Bytes verifierLength} {c : CapabilityId} {a : Authenticator}
  {row : UpdateRow}

/-- An update that has been accepted is one more for the oracle. -/
theorem Agrees.accepted (h : m.Agrees t) (hw : UpdatesWellFormed t)
    (haccepted : Accepted sha256 t t' c a update row) (hrecord : row.update? = some update)
    {following : AcceptanceSequence}
    (hfollowing : (nextSequence t update.documentId).checkedNext = some following) :
    (m.inserted update (nextSequence t update.documentId) following).Agrees t' where
  updates d u := by
    rw [inserted, OrderedMap.get?_insert, Table.find?_of_rows_append haccepted.updates]
    have hkey : Keyed.key row = (update.documentId, update.updateId) :=
      Prod.ext haccepted.row_document haccepted.row_update
    by_cases heq : (update.documentId, update.updateId) = (d, u)
    · obtain ⟨rfl, rfl⟩ := Prod.mk_inj.mp heq
      rw [if_pos rfl, haccepted.update_fresh, if_pos hkey, Option.none_or, Option.bind_some,
        UpdateRow.accepted?, hrecord, Option.map_some, haccepted.row_sequence]
    · rw [if_neg fun hlex ↦ heq (toLex_inj.mp hlex), if_neg fun hrow ↦ heq (hkey.symm.trans hrow),
        Option.or_none]
      exact h.updates d u
  order d sequence u := by
    rw [inserted, OrderedMap.get?_insert, haccepted.log_eq hw]
    by_cases hd : update.documentId = d
    · subst hd
      rw [if_pos rfl]
      by_cases hsequence : nextSequence t update.documentId = sequence
      · subst hsequence
        rw [if_pos rfl, Option.some_inj]
        constructor
        · rintro rfl
          exact ⟨row, List.mem_append_right _ (List.mem_singleton_self _), haccepted.row_sequence,
            haccepted.row_update⟩
        · rintro ⟨row', hrow', hposition, rfl⟩
          rcases List.mem_append.mp hrow' with hold | hnew
          · obtain ⟨hmem, hd⟩ := Tables.mem_log.mp hold
            exact absurd (hposition.trans (hd ▸ rfl)) (hw.nextSequence_free hmem)
          · rw [List.mem_singleton.mp hnew, haccepted.row_update]
      · rw [if_neg fun hlex ↦ hsequence (Prod.mk_inj.mp (toLex_inj.mp hlex)).2, h.order]
        constructor
        · rintro ⟨row', hrow', hrest⟩
          exact ⟨row', List.mem_append_left _ hrow', hrest⟩
        · rintro ⟨row', hrow', rfl, hu⟩
          rcases List.mem_append.mp hrow' with hold | hnew
          · exact ⟨row', hold, rfl, hu⟩
          · rw [List.mem_singleton.mp hnew] at hsequence
            exact absurd haccepted.row_sequence.symm hsequence
    · rw [if_neg fun hlex ↦ hd (Prod.mk_inj.mp (toLex_inj.mp hlex)).1, if_neg hd, List.append_nil]
      exact h.order d sequence u
  peers d peer := by
    rw [inserted, OrderedMap.get?_insert, Bool.eq_iff_iff, isSome_peer_iff,
      haccepted.documentLoroPeers, List.mem_append, ← isSome_peer_iff, ← h.peers]
    by_cases hd : update.documentId = d
    · subst hd
      have hold := h.peers update.documentId peer
      rw [if_pos rfl, Option.any_some, decide_eq_true_eq, Finset.mem_union, List.mem_toFinset,
        mem_peerRows, newPeers, List.mem_filter, ← Option.not_isSome, ← hold]
      cases m.documentPeers.get? update.documentId with
      | none => simp
      | some peers =>
        rw [Option.getD_some, Option.any_some, decide_eq_true_eq, Bool.not_eq_true',
          decide_eq_false_iff_not]
        tauto
    · rw [if_neg hd]
      refine (or_iff_left fun hmem ↦ ?_).symm
      obtain ⟨_, -, heq⟩ := List.mem_map.mp hmem
      exact hd (congrArg DocumentLoroPeerRow.documentId heq)
  sequences d := by
    rw [inserted, OrderedMap.get?_insert, nextSequence, haccepted.documentAcceptanceSequences]
    by_cases hd : update.documentId = d
    · rw [if_pos hd, if_pos hd]
      refine AcceptanceSequence.ext
        ((AcceptanceSequence.checkedNext_eq_some_iff.mp hfollowing).trans ?_)
      exact congrArg (fun sequence ↦ sequence.get + 1) haccepted.row_sequence.symm
    · rw [if_neg hd, if_neg hd]
      exact h.sequences d

/-- Two records are the same if they are of the same update. -/
theorem encodedRecord_eq_iff {r : AcceptCommand} (hrecord : row.update? = some update) :
    row.encodedRecord = r.encodedRecord ↔ update = r.update := by
  have hrow := (decodeUpdateRecord_eq_ok_iff.mp (UpdateRow.update?_eq_some_iff.mp hrecord)).1
  have hcommand := (decodeUpdateRecord_eq_ok_iff.mp r.decoded).1
  constructor
  · intro heq
    have hdecoded := UpdateRow.update?_eq_some_iff.mp hrecord
    rw [heq, r.decoded] at hdecoded
    exact (Except.ok.inj hdecoded).symm
  · rintro rfl
    rw [hrow, hcommand]

/-- **An authorized accept has the outcome of the oracle, and the two still agree.** -/
theorem accept_agrees (h : m.Agrees t) (hw : UpdatesWellFormed t) (r : AcceptCommand)
    (hauth : authorize sha256 t r.update.documentId r.capabilityId r.authenticator .update = true) :
    (Renee.accept sha256 t r.capabilityId r.authenticator r.update r.encodedRecord).1 =
        .ok (m.accept r.update).1.toStore ∧
      (m.accept r.update).2.Agrees
        (Renee.accept sha256 t r.capabilityId r.authenticator r.update r.encodedRecord).2 := by
  have hrollback : ∀ {o},
    acceptIn sha256 r.capabilityId r.authenticator r.update r.encodedRecord t =
      .ok (.rollback o) → Renee.accept sha256 t r.capabilityId r.authenticator r.update
        r.encodedRecord = (.ok o, t) := transaction_rollback
  have hupdates := h.updates r.update.documentId r.update.updateId
  cases hrow : t.updates.find? (r.update.documentId, r.update.updateId) with
  | some row =>
    obtain ⟨update, hrecord, -⟩ := hw.record (Table.find?_eq_some_iff.mp hrow).1
    rw [hrow, Option.bind_some, UpdateRow.accepted?, hrecord, Option.map_some] at hupdates
    have hsame := encodedRecord_eq_iff (r := r) hrecord
    simp only [accept, hupdates]
    by_cases heq : update = r.update
    · rw [if_pos heq, hrollback (o := .alreadyPresent)
        (by simp [acceptIn, hauth, hrow, hsame.mpr heq])]
      exact ⟨rfl, h⟩
    · rw [if_neg heq, hrollback (o := .identifierConflict)
        (by simp [acceptIn, hauth, hrow, mt hsame.mp heq])]
      exact ⟨rfl, h⟩
  | none =>
    rw [hrow, Option.bind_none] at hupdates
    have hsequence := h.sequences r.update.documentId
    simp only [accept, hupdates, hsequence]
    cases hfollowing : (nextSequence t r.update.documentId).checkedNext with
    | none =>
      rw [hrollback (o := .counterExhausted) (by simp [acceptIn, hauth, hrow, hfollowing])]
      exact ⟨rfl, h⟩
    | some following =>
      simp only [h.card_peers, h.additional]
      by_cases hpeers : peerCount t r.update.documentId +
          (newPeers t r.update.documentId r.update.publicLoroRanges.ranges).length ≤ maxLoroPeers
      · rw [if_neg (not_lt.mpr hpeers)]
        obtain ⟨t', hinserts⟩ := acceptIn_inserts hauth hrow hfollowing hpeers
          (by rw [hw.nextSequence_eq]; exact Nat.succ_pos _)
          (fun row hrow hd ↦ hd ▸ hw.nextSequence_free hrow) fun range hrange hkey ↦ by
            have hsome := hw.find?_of_range hrange
            rw [hkey.1, hkey.2, hrow] at hsome
            exact absurd hsome (by simp)
        have haccept : Renee.accept sha256 t r.capabilityId r.authenticator r.update
            r.encodedRecord = (.ok .inserted, t') := by
          rw [Renee.accept, transaction, hinserts]
        rcases accept_spec haccept with ⟨-, row, hbytes, haccepted⟩ | ⟨hne, -⟩
        · have hrecord : row.update? = some r.update :=
            UpdateRow.update?_eq_some_iff.mpr (hbytes ▸ r.decoded)
          rw [haccept]
          exact ⟨rfl, h.accepted hw haccepted hrecord hfollowing⟩
        · exact absurd rfl hne
      · rw [if_pos (not_le.mp hpeers)]
        obtain ⟨document, hdocument, -⟩ := document_of_authorize hauth
        obtain ⟨t', hpeers'⟩ := insertDocumentLoroPeers_of_gt
          (by rw [hdocument]; rfl) (not_le.mp hpeers)
        rw [hrollback (o := .limitExceeded) (by
          simp [acceptIn, hauth, hrow, hfollowing, hpeers', bind, Except.bind, pure, Except.pure])]
        exact ⟨rfl, h⟩

/-- An accept without authority changes nothing. -/
theorem accept_of_unauthorized (r : AcceptCommand)
    (hauth : authorize sha256 t r.update.documentId r.capabilityId r.authenticator .update ≠ true) :
    Renee.accept sha256 t r.capabilityId r.authenticator r.update r.encodedRecord =
      (.ok .authorizationDenied, t) :=
  transaction_rollback (by simp [acceptIn, hauth])

/-- **What else is done to the tables does not concern the oracle.** -/
theorem Agrees.of_effect (h : m.Agrees t) {mutation : Mutation}
    (heffect : Effect sha256 t t' mutation) (hother : ∀ r, mutation ≠ .accept r) : m.Agrees t' := by
  cases heffect with
  | created heffect =>
    exact h.of_eq heffect.updates heffect.documentLoroPeers heffect.documentAcceptanceSequences
  | granted heffect =>
    exact h.of_eq heffect.updates heffect.documentLoroPeers heffect.documentAcceptanceSequences
  | revoked heffect =>
    exact h.of_eq heffect.updates heffect.documentLoroPeers heffect.documentAcceptanceSequences
  | accepted => exact absurd rfl (hother _)
  | retired heq => exact h.of_eq (by rw [heq]; rfl) (by rw [heq]; rfl) (by rw [heq]; rfl)
  | disabled heq => exact h.of_eq (by rw [heq]; rfl) (by rw [heq]; rfl) (by rw [heq]; rfl)
  | provisioned hprovision =>
    obtain ⟨createAuthorities, rfl⟩ := provisionCreateAuthority_eq_ok hprovision
    exact h.of_eq rfl rfl rfl

end Hash

/-! ## Reading -/

variable {row : UpdateRow}

/-- **A fetch is answered as by the oracle.** -/
theorem Agrees.fetch_eq (h : m.Agrees t) (d : DocumentId) (u : UpdateId) :
    m.fetch d u = t.payload? d u := by
  rw [fetch, h.updates, Tables.payload?]
  cases t.updates.find? (d, u) with
  | none => rfl
  | some row =>
    rw [Option.bind_some, Option.bind_some, UpdateRow.accepted?, Option.map_map]
    rfl

/-- Where a row of the log stands in the acceptance order. -/
def orderEntry (d : DocumentId) (row : UpdateRow) : (DocumentId ×ₗ AcceptanceSequence) × UpdateId :=
  (toLex (d, row.acceptanceSequence), row.updateId)

/-- A part of the log stands in the acceptance order in the order of the log. -/
theorem pairwise_orderEntry (hw : UpdatesWellFormed t) {rows : List UpdateRow}
    (hrows : rows.Sublist (t.log d)) :
    (rows.map (orderEntry d)).Pairwise fun entry entry' ↦ entry.1 < entry'.1 := by
  refine List.pairwise_map.mpr (List.Pairwise.sublist hrows ?_)
  refine (List.pairwise_iff_getElem.mpr fun i j hi hj hij ↦ ?_)
  refine Prod.Lex.toLex_lt_toLex.mpr (.inr ⟨rfl, ?_⟩)
  rw [AcceptanceSequence.lt_def, hw.getElem?_log (List.getElem?_eq_getElem hi),
    hw.getElem?_log (List.getElem?_eq_getElem hj)]
  omega

/-- A key between two keys of a document is of the document. -/
theorem mem_between_iff {lower terminal : AcceptanceSequence} {d' : DocumentId}
    {sequence : AcceptanceSequence} :
    toLex (d, lower) < toLex (d', sequence) ∧ toLex (d', sequence) ≤ toLex (d, terminal) ↔
      d' = d ∧ lower < sequence ∧ sequence ≤ terminal := by
  rw [Prod.Lex.toLex_lt_toLex, Prod.Lex.toLex_le_toLex]
  constructor
  · rintro ⟨hlt | ⟨rfl, hlt⟩, hle | ⟨heq, hle⟩⟩
    · exact absurd hlt hle.asymm
    · exact absurd heq.symm hlt.ne
    · exact absurd rfl hle.ne
    · exact ⟨rfl, hlt, hle⟩
  · rintro ⟨rfl, hlt, hle⟩
    exact ⟨.inr ⟨rfl, hlt⟩, .inr ⟨rfl, hle⟩⟩

/-- **A range of the acceptance order is a window of the log.** -/
theorem Agrees.range_eq (h : m.Agrees t) (hw : UpdatesWellFormed t)
    (lower terminal : AcceptanceSequence) :
    m.acceptanceOrder.range (toLex (d, lower)) (toLex (d, terminal)) =
      ((t.log d).filter fun row ↦
        lower < row.acceptanceSequence ∧ row.acceptanceSequence ≤ terminal).map (orderEntry d) := by
  refine OrderedMap.eq_of_mem_iff Prod.fst (OrderedMap.pairwise_range ..)
    (pairwise_orderEntry hw List.filter_sublist) ?_
  rintro ⟨key, u⟩
  obtain ⟨⟨d', sequence⟩, rfl⟩ := toLex.surjective key
  rw [OrderedMap.mem_range, mem_between_iff, h.order, List.mem_map]
  simp only [List.mem_filter, decide_eq_true_eq]
  constructor
  · rintro ⟨⟨row, hrow, rfl, rfl⟩, rfl, hwindow⟩
    exact ⟨row, ⟨hrow, hwindow⟩, rfl⟩
  · rintro ⟨row, ⟨hrow, hwindow⟩, heq⟩
    obtain ⟨hkey, rfl⟩ := Prod.mk_inj.mp heq
    obtain ⟨rfl, rfl⟩ := Prod.mk_inj.mp (toLex_inj.mp hkey)
    exact ⟨⟨row, hrow, rfl, rfl⟩, rfl, hwindow⟩

/-- What the oracle shows of an accepted update is what a page shows of it. -/
theorem metadata_eq (hrow : row.update? = some update) :
    metadata ⟨row.acceptanceSequence, update⟩ = update.metadata := by
  obtain ⟨hbytes, hlength, -⟩ :=
    decodeUpdateRecord_eq_ok_iff.mp (UpdateRow.update?_eq_some_iff.mp hrow)
  rw [hbytes, length_recordBytes] at hlength
  have hpayload : update.encryptedPayload.length < 2 ^ 32 := by
    have hmax : maxUpdateRecordLength < 2 ^ 32 := by decide
    omega
  rw [metadata, if_pos hpayload, ImmutableUpdate.metadata]

/-- **A window of the oracle is that of the log.** -/
theorem Agrees.window_eq (h : m.Agrees t) (hw : UpdatesWellFormed t)
    {lower terminal : AcceptanceSequence} (hle : lower ≤ terminal) :
    (m.acceptanceWindow d (some lower) terminal).map (List.map Prod.snd) =
      some (t.window d lower terminal) := by
  simp only [acceptanceWindow, Option.getD_some, if_neg (not_lt.mpr hle), Option.map_some,
    Option.some_inj, h.range_eq hw, List.filterMap_map, List.map_filterMap, Tables.window]
  refine List.filterMap_congr fun row hrow ↦ ?_
  obtain ⟨hmem, rfl⟩ := Tables.mem_log.mp (List.mem_filter.mp hrow).1
  obtain ⟨update, hupdate, -⟩ := hw.record hmem
  have hfind : t.updates.find? (row.documentId, row.updateId) = some row := Table.find?_key hmem
  rw [Function.comp_apply, orderEntry, h.updates, hfind, Option.bind_some, UpdateRow.accepted?,
    UpdateRow.metadata?, hupdate, Option.map_some, Option.map_some, Option.map_some,
    metadata_eq hupdate]
  rfl

/-- The oracle selects what a version selects. -/
theorem vectorBackfill_eq {v : LoroOplogVersion} {after : Option AcceptanceSequence}
    {terminal : AcceptanceSequence} :
    (m.vectorBackfill d v after terminal).map (List.map Prod.snd) =
      ((m.acceptanceWindow d after terminal).map (List.map Prod.snd)).map v.select := by
  rw [vectorBackfill, Option.map_map, Option.map_map]
  refine congrArg (Option.map · _) (funext fun window ↦ ?_)
  rw [Function.comp_apply, Function.comp_apply, LoroOplogVersion.select, List.filter_map]
  rfl

/-- **The high water of the oracle is that of the log.** -/
theorem Agrees.highWaterSequence_eq (h : m.Agrees t) (hw : UpdatesWellFormed t) :
    m.highWaterSequence d = highWaterSequenceIn t d := by
  have hentries : (m.acceptanceOrder.entries.filter fun entry ↦
      toLex (d, .first) ≤ entry.1 ∧ entry.1 ≤ toLex (d, maxSequence)) =
        (t.log d).map (orderEntry d) := by
    refine OrderedMap.eq_of_mem_iff Prod.fst (m.acceptanceOrder.sorted.filter _)
      (pairwise_orderEntry hw (List.Sublist.refl _)) ?_
    rintro ⟨key, u⟩
    obtain ⟨⟨d', sequence⟩, rfl⟩ := toLex.surjective key
    simp only [List.mem_filter, List.mem_map, decide_eq_true_eq, ← OrderedMap.get?_eq_some_iff,
      h.order, Prod.Lex.toLex_le_toLex]
    constructor
    · rintro ⟨⟨row, hrow, rfl, rfl⟩, hfirst | ⟨rfl, -⟩, hlast | ⟨heq, -⟩⟩
      · exact absurd hlast hfirst.asymm
      · exact absurd heq.symm hfirst.ne
      · exact absurd rfl hlast.ne
      · exact ⟨row, hrow, rfl⟩
    · rintro ⟨row, hrow, heq⟩
      obtain ⟨hkey, rfl⟩ := Prod.mk_inj.mp heq
      obtain ⟨rfl, rfl⟩ := Prod.mk_inj.mp (toLex_inj.mp hkey)
      obtain ⟨i, hi⟩ := List.mem_iff_getElem?.mp hrow
      refine ⟨⟨row, hrow, rfl, rfl⟩, .inr ⟨rfl, ?_⟩, .inr ⟨rfl, ?_⟩⟩
      · rw [AcceptanceSequence.le_def, hw.getElem?_log hi]
        exact Nat.succ_pos i
      · exact Nat.le_sub_one_of_lt row.acceptanceSequence.isLt
  rw [highWaterSequence, hentries, List.getLast?_map, Option.map_map, highWaterSequenceIn]
  rfl

end UpdateModel

end Renee
