import Renee.Store.ValidateSpec

/-!
# What validation accepts

`ValidateSpec` shows that validation accepts well-formed tables.  Here is the other direction, loop
by loop: what a loop that did not stop has established.

* The foreign keys supply what validation does not ask itself — the document of a capability, the
  issuer of a receipt, the update of a range — and the loops everything else.
* There is one exception.  The counter of a document is compared with its updates only when there
  are some, so that of an idle document may have any value.  `Tables.settled` puts every idle
  counter at the first position, and `valid_iff` is then exact: a database is accepted just when,
  its idle counters settled, it is well formed.
-/

set_option autoImplicit false

namespace Renee

open ByteString Relational Ancestry Guard

variable {t : Tables} {d : DocumentId}

/-! ## Acceptance and settled counters -/

/-- What the store asks of a database before it serves it. -/
structure Tables.Valid (t : Tables) : Prop where
  foreign : foreignKeysHold t = true
  validated : validate t = .ok ()

/-- A document without updates. -/
def Tables.idle (t : Tables) (d : DocumentId) : Bool := (t.log d).isEmpty

/-- A counter, put at the first position if its document is one of those named. -/
def AcceptanceSequenceRow.settle (idle : DocumentId → Bool) (row : AcceptanceSequenceRow) :
    AcceptanceSequenceRow :=
  if idle row.documentId then { row with nextSequence := .first } else row

theorem AcceptanceSequenceRow.key_settle (idle : DocumentId → Bool)
    (row : AcceptanceSequenceRow) : Keyed.key (row.settle idle) = Keyed.key row := by
  rw [settle]
  split <;> rfl

/-- The tables with the counters of some documents at the first position. -/
def Tables.settle (t : Tables) (idle : DocumentId → Bool) : Tables :=
  { t with
    documentAcceptanceSequences := t.documentAcceptanceSequences.update
      (AcceptanceSequenceRow.settle idle) (AcceptanceSequenceRow.key_settle idle) }

/-- The tables with the counter of every idle document at the first position. -/
def Tables.settled (t : Tables) : Tables := t.settle t.idle

theorem find?_settle (t : Tables) (idle : DocumentId → Bool) (d : DocumentId) :
    (t.settle idle).documentAcceptanceSequences.find? d =
      (t.documentAcceptanceSequences.find? d).map (AcceptanceSequenceRow.settle idle) :=
  Table.find?_update _ _ (AcceptanceSequenceRow.key_settle idle) d

/-- A document that is not named keeps its counter. -/
theorem find?_settle_of_not {idle : DocumentId → Bool} (h : idle d = false) :
    (t.settle idle).documentAcceptanceSequences.find? d =
      t.documentAcceptanceSequences.find? d := by
  rw [find?_settle]
  cases hfind : t.documentAcceptanceSequences.find? d with
  | none => rfl
  | some row =>
    have hkey : row.documentId = d := Table.key_of_find?_eq_some hfind
    rw [Option.map_some, AcceptanceSequenceRow.settle, hkey, h, if_neg (by simp)]

theorem find?_settled (t : Tables) (d : DocumentId) :
    t.settled.documentAcceptanceSequences.find? d =
      (t.documentAcceptanceSequences.find? d).map (AcceptanceSequenceRow.settle t.idle) :=
  find?_settle t t.idle d

theorem find?_settled_of_log (h : t.log d ≠ []) :
    t.settled.documentAcceptanceSequences.find? d = t.documentAcceptanceSequences.find? d :=
  find?_settle_of_not (by simpa [Tables.idle] using h)

theorem ControlWellFormed.settled_iff : ControlWellFormed t.settled ↔ ControlWellFormed t :=
  ⟨fun h ↦ { h with }, fun h ↦ { h with }⟩

/-! ## Slices of a normalized input -/

theorem eq_createInput {input : List UInt8} {c : CapabilityId} {v : VerifierPair}
    (h₁ : input.take 16 = d.bytes.toList) (h₂ : (input.drop 16).take 16 = c.bytes.toList)
    (h₃ : (input.drop 32).take 32 = v.live.toList) (h₄ : input.drop 64 = v.receipt.toList) :
    input = createInput d c v := by
  have hdrop₂ : input.drop 32 = (input.drop 16).drop 16 := by rw [List.drop_drop]
  have hdrop₃ : input.drop 64 = (input.drop 32).drop 32 := by rw [List.drop_drop]
  rw [createInput, ← h₁, ← h₂, ← h₃, ← h₄, hdrop₃, List.take_append_drop, hdrop₂,
    List.take_append_drop, List.take_append_drop]

theorem eq_grantInput {input : List UInt8} {c : CapabilityId} {v : VerifierPair}
    {operations : OperationSet} (hlength : input.length = 82) (h₁ : input.take 16 = c.bytes.toList)
    (h₂ : (input.drop 16).take 32 = v.live.toList)
    (h₃ : (input.drop 48).take 32 = v.receipt.toList)
    (h₄ : OperationSet.fromBits (BitVec.ofNat 16 (ofBe (input.drop 80))) = some operations) :
    input = grantInput c v operations := by
  have hdrop₂ : input.drop 48 = (input.drop 16).drop 32 := by rw [List.drop_drop]
  have hdrop₃ : input.drop 80 = (input.drop 48).drop 32 := by rw [List.drop_drop]
  have hbits : toBe 2 operations.bits.toNat = input.drop 80 := by
    have htwo : (input.drop 80).length = 2 := by rw [List.length_drop, hlength]
    have hlt : ofBe (input.drop 80) < 2 ^ 16 := by
      have hofBe := ofBe_lt (input.drop 80)
      rw [htwo] at hofBe
      omega
    rw [OperationSet.fromBits] at h₄
    split at h₄
    · rw [← Option.some_inj.mp h₄, BitVec.toNat_ofNat, Nat.mod_eq_of_lt hlt,
        toBe_ofBe_of_length htwo]
    · exact absurd h₄ (by simp)
  rw [grantInput, hbits, ← h₁, ← h₂, ← h₃, hdrop₃, List.take_append_drop, hdrop₂,
    List.take_append_drop, List.take_append_drop]

theorem bytes_of_decodeIdentifier {kind : IdentifierKind} {encoded : List UInt8}
    {i : Identifier kind} (h : decodeIdentifier encoded = .ok i) : encoded = i.bytes.toList := by
  rw [decodeIdentifier] at h
  split at h
  · rw [← Except.ok.inj h]
  · exact absurd h (by simp)

/-! ## Creation -/

/-- The walk over the create receipts has compared every one with its root, and no authority has
gone past its limit. -/
theorem validateCreateReceiptsFrom_spec {rows : List CreateReceiptRow}
    {counts : CreateAuthorityId → ℕ} (h : validateCreateReceiptsFrom t rows counts = .ok ())
    (hcounts : ∀ i, counts i ≤ maxDocumentsPerCreateAuthority) :
    (∀ row ∈ rows, ∃ root, t.capability? row.documentId row.rootCapabilityId = some root ∧
      root.parentCapabilityId = none ∧ row.normalizedInput = createInput row.documentId
        row.rootCapabilityId ⟨root.liveVerifier, root.receiptVerifier⟩) ∧
    ∀ i, counts i + rows.countP (fun row ↦ row.createAuthorityId = i) ≤
      maxDocumentsPerCreateAuthority := by
  induction rows generalizing counts with
  | nil => exact ⟨fun _ hrow ↦ absurd hrow List.not_mem_nil, fun i ↦ by simpa using hcounts i⟩
  | cons row rows ih =>
    rw [validateCreateReceiptsFrom] at h
    split at h
    · exact absurd h (by simp)
    split at h
    · exact absurd h (by simp)
    rename_i root hroot
    obtain ⟨hfind, hflag⟩ := Option.filter_eq_some_iff.mp hroot
    split at h
    · exact absurd h (by simp)
    rename_i hslices
    simp only [not_or, not_not] at hslices
    obtain ⟨h₁, h₂, h₃, h₄⟩ := hslices
    split at h
    · exact absurd h (by simp)
    rename_i count hcount
    split at h
    · exact absurd h (by simp)
    rename_i hle
    obtain ⟨-, rfl⟩ := checkedAdd_eq_some_iff.mp hcount
    obtain ⟨hrows, hlimits⟩ := ih h fun i ↦ by
      by_cases hi : i = row.createAuthorityId
      · subst hi
        rw [Function.update_self]
        omega
      · rw [Function.update_of_ne hi]
        exact hcounts i
    refine ⟨fun row' hrow' ↦ ?_, fun i ↦ ?_⟩
    · rcases List.mem_cons.mp hrow' with rfl | hrow'
      · exact ⟨root, hfind, root.root_iff.mp hflag, eq_createInput h₁ h₂ h₃ h₄⟩
      · exact hrows row' hrow'
    · have hi := hlimits i
      rw [List.countP_cons]
      by_cases heq : i = row.createAuthorityId
      · subst heq
        rw [Function.update_self] at hi
        simp only [decide_true, if_true]
        omega
      · rw [Function.update_of_ne heq] at hi
        rw [if_neg (by simpa using Ne.symm heq)]
        omega

/-! ## Capabilities -/

/-- What is found among the loaded capabilities of a document is in the table. -/
theorem capability?_of_findCapability {c : CapabilityId} {capability : ValidatedCapability}
    (h : findCapability (documentCapabilities t d) c = some capability) :
    t.capability? d c = some capability.row ∧
      capability.operations = loadOperationSet t d c := by
  have hc : capability.row.capabilityId = c := by simpa using List.find?_some h
  obtain ⟨row, hrow, rfl⟩ := mem_documentCapabilities.mp (List.mem_of_find?_eq_some h)
  obtain rfl : row.capabilityId = c := hc
  exact ⟨hrow, rfl⟩

theorem validateFanOut_spec {capabilities : List ValidatedCapability} {counts : CapabilityId → ℕ}
    (h : validateFanOut capabilities counts = .ok ())
    (hcounts : ∀ p, counts p ≤ maxDirectCapabilityChildren) (p : CapabilityId) :
    counts p + capabilities.countP
      (fun capability ↦ capability.row.parentCapabilityId = some p) ≤
        maxDirectCapabilityChildren := by
  induction capabilities generalizing counts with
  | nil => simpa using hcounts p
  | cons capability capabilities ih =>
    rw [validateFanOut] at h
    split at h
    · rename_i hnone
      rw [List.countP_cons_of_neg (by simp [hnone])]
      exact ih h hcounts
    rename_i parent hparent
    split at h
    · exact absurd h (by simp)
    rename_i count hcount
    split at h
    · exact absurd h (by simp)
    obtain ⟨-, rfl⟩ := checkedAdd_eq_some_iff.mp hcount
    have hrest := ih h fun q ↦ by
      by_cases hq : q = parent
      · subst hq
        rw [Function.update_self]
        omega
      · rw [Function.update_of_ne hq]
        exact hcounts q
    by_cases hp : p = parent
    · subst hp
      rw [Function.update_self] at hrest
      rw [List.countP_cons_of_pos (by simpa using hparent)]
      omega
    · rw [Function.update_of_ne hp] at hrest
      rwa [List.countP_cons_of_neg (by simpa [hparent] using Ne.symm hp)]

/-- One step of the walk up: the parent is older, allows as much, and passes its revocation on. -/
theorem validateAncestryFrom_parent {root c p : CapabilityId} {steps : ℕ} {seen : List CapabilityId}
    {row : CapabilityRow} (hp : row.parentCapabilityId = some p)
    (h : validateAncestryFrom root (documentCapabilities t d) (steps + 1) seen
      ⟨row, loadOperationSet t d c⟩ = .ok ()) :
    ∃ row', t.capability? d p = some row' ∧
      row'.createdRevision.get < row.createdRevision.get ∧
      (loadOperationSet t d p).allows (loadOperationSet t d c) = true ∧
      (row'.revoked = true → row.revoked = true) ∧
      validateAncestryFrom root (documentCapabilities t d) steps (row.capabilityId :: seen)
        ⟨row', loadOperationSet t d p⟩ = .ok () := by
  rw [validateAncestryFrom] at h
  simp only [hp] at h
  split at h
  · exact absurd h (by simp)
  split at h
  · exact absurd h (by simp)
  split at h
  · exact absurd h (by simp)
  rename_i parent hparent
  obtain ⟨hfind, hoperations⟩ := capability?_of_findCapability hparent
  obtain ⟨row', operations⟩ := parent
  obtain rfl : operations = loadOperationSet t d p := hoperations
  split at h
  · exact absurd h (by simp)
  rename_i hlt
  split at h
  · exact absurd h (by simp)
  rename_i hallows
  split at h
  · exact absurd h (by simp)
  rename_i hrevoked
  exact ⟨row', hfind, Nat.not_le.mp hlt, by simpa using hallows, by simpa using hrevoked, h⟩

/-- A walk that ended has met the end of the chain. -/
theorem within_of_validateAncestryFrom {root c : CapabilityId} {steps : ℕ}
    {seen : List CapabilityId} {row : CapabilityRow} (hrow : t.capability? d c = some row)
    (h : validateAncestryFrom root (documentCapabilities t d) steps seen
      ⟨row, loadOperationSet t d c⟩ = .ok ()) : Within (t.parent? d) steps c := by
  induction steps generalizing seen c row with
  | zero => exact absurd h (by simp [validateAncestryFrom])
  | succ steps ih =>
    refine within_succ_iff.mpr fun p hp ↦ ?_
    obtain ⟨row', hrow', -, -, -, hwalk⟩ := validateAncestryFrom_parent
      ((Tables.parent?_eq hrow).symm.trans hp) h
    exact ih hrow' hwalk

/-! ## Receipts -/

/-- A grant receipt that was accepted agrees with the capability it names. -/
theorem validateGrantReceipt_spec {row : ControlReceiptRow}
    (h : validateGrantReceipt row (documentCapabilities t d) = .ok ()) :
    ∃ c descendant, t.capability? d c = some descendant ∧
      descendant.parentCapabilityId = some row.issuerCapabilityId ∧
      row.normalizedInput = grantInput c ⟨descendant.liveVerifier, descendant.receiptVerifier⟩
        (loadOperationSet t d c) := by
  rw [validateGrantReceipt, bind_eq_ok] at h
  obtain ⟨_, hlength, h⟩ := h
  rw [bind_eq_ok] at h
  obtain ⟨c, hc, h⟩ := h
  split at h
  · exact absurd h (by simp)
  rename_i descendant hdescendant
  obtain ⟨hfind, hoperations⟩ := capability?_of_findCapability hdescendant
  rw [bind_eq_ok] at h
  obtain ⟨_, hslices, h⟩ := h
  have hslices := reject_eq_ok.mp hslices
  simp only [not_or, not_not] at hslices
  obtain ⟨hparent, hlive, hreceipt⟩ := hslices
  split at h
  · exact absurd h (by simp)
  rename_i operations hbits
  obtain rfl : operations = loadOperationSet t d c :=
    (not_not.mp (reject_eq_ok.mp h)).trans hoperations
  exact ⟨c, descendant.row, hfind, hparent, eq_grantInput (not_not.mp (reject_eq_ok.mp hlength))
    (bytes_of_decodeIdentifier hc) hlive hreceipt (Option.filter_eq_some_iff.mp hbits).1⟩

theorem validateRevokeReceipt_spec {row : ControlReceiptRow}
    (h : validateRevokeReceipt row (documentCapabilities t d) = .ok ()) :
    ∃ c target, t.capability? d c = some target ∧ target.revoked = true ∧
      row.normalizedInput = revokeInput c := by
  rw [validateRevokeReceipt, bind_eq_ok] at h
  obtain ⟨_, -, h⟩ := h
  rw [bind_eq_ok] at h
  obtain ⟨c, hc, h⟩ := h
  split at h
  · exact absurd h (by simp)
  rename_i target htarget
  obtain ⟨hfind, -⟩ := capability?_of_findCapability htarget
  exact ⟨c, target.row, hfind, by simpa using reject_eq_ok.mp h, bytes_of_decodeIdentifier hc⟩

theorem validateControlReceipt_spec {row : ControlReceiptRow}
    (h : validateControlReceipt (documentCapabilities t row.documentId) row = .ok ()) :
    ControlReceiptAgrees t row := by
  rw [validateControlReceipt, bind_eq_ok] at h
  obtain ⟨_, hissuer, h⟩ := h
  refine ⟨?_, ?_⟩
  · cases hfind : findCapability (documentCapabilities t row.documentId) row.issuerCapabilityId with
    | none => exact absurd (reject_eq_ok.mp hissuer) (by simp [hfind])
    | some issuer => exact ⟨issuer.row, (capability?_of_findCapability hfind).1⟩
  · cases hoperation : row.operation with
    | grant =>
      rw [hoperation] at h
      exact validateGrantReceipt_spec h
    | revoke =>
      rw [hoperation] at h
      exact validateRevokeReceipt_spec h

theorem validateControlReceipts_spec {n : ℕ}
    (h : validateControlReceipts t d (documentCapabilities t d) = .ok n) :
    n = receiptCount t d ∧
      ∀ row ∈ t.controlReceipts.rows, row.documentId = d → ControlReceiptAgrees t row := by
  rw [validateControlReceipts, bind_eq_ok] at h
  obtain ⟨_, hrows, hn⟩ := h
  refine ⟨?_, ?_⟩
  · rw [← Except.ok.inj hn, length_orderBy, ← List.countP_eq_length_filter]
    rfl
  · rintro row hrow rfl
    refine validateControlReceipt_spec (forM_eq_ok.mp hrows row ?_)
    rw [mem_orderBy, List.mem_filter, decide_eq_true_eq]
    exact ⟨hrow, rfl⟩

/-! ## Documents -/

/-- What is known of a document once its control state has been checked. -/
structure DocumentChecked (t : Tables) (document : DocumentRow) : Prop where
  root : ∃ row, t.capability? document.documentId document.rootCapabilityId = some row ∧
    row.parentCapabilityId = none ∧ row.createdRevision = .initial ∧
    ∀ operation, t.hasOperation document.documentId document.rootCapabilityId operation = true
  root_unique : ∀ {c row}, t.capability? document.documentId c = some row →
    row.parentCapabilityId = none → document.rootCapabilityId = c
  created : ∀ {c row}, t.capability? document.documentId c = some row →
    row.createdRevision.get ≤ document.controlRevision.get
  edge : ∀ {c row p}, t.capability? document.documentId c = some row →
    row.parentCapabilityId = some p →
    ∃ row', t.capability? document.documentId p = some row' ∧
      row'.createdRevision.get < row.createdRevision.get ∧
      (∀ operation, t.hasOperation document.documentId c operation = true →
        t.hasOperation document.documentId p operation = true) ∧
      (row'.revoked = true → row.revoked = true)
  within : ∀ {c row}, t.capability? document.documentId c = some row →
    Within (t.parent? document.documentId) maxCapabilityDepth c
  operations : ∀ {c row}, t.capability? document.documentId c = some row →
    ∃ operation, t.hasOperation document.documentId c operation = true
  receipt : ∀ row ∈ t.controlReceipts.rows, row.documentId = document.documentId →
    ControlReceiptAgrees t row
  revision : document.controlRevision.get = receiptCount t document.documentId + 1
  childCount_le : ∀ p, childCount t document.documentId p ≤ maxDirectCapabilityChildren
  capabilityCount_le : capabilityCount t document.documentId ≤ maxCapabilitiesPerDocument
  receiptCount_le : receiptCount t document.documentId ≤ maxControlReceiptsPerDocument

theorem validateDocument_spec {document : DocumentRow} (h : validateDocument t document = .ok ()) :
    DocumentChecked t document := by
  simp only [validateDocument, loadCapabilities, bind_eq_ok] at h
  obtain ⟨_, ⟨_, hoperations, hload⟩, _, hcount, _, hfan, h⟩ := h
  obtain rfl := Except.ok.inj hload
  have hoperations : ∀ {c row}, t.capability? document.documentId c = some row →
      ∃ operation, t.hasOperation document.documentId c operation = true := by
    intro c row hrow
    obtain ⟨-, -, rfl⟩ := Tables.capability?_eq_some_iff.mp hrow
    have hempty := reject_eq_ok.mp (forM_eq_ok.mp hoperations _
      (mem_documentCapabilities.mpr ⟨row, hrow, rfl⟩))
    by_contra hnone
    refine hempty (OperationSet.isEmpty_iff.mpr fun operation ↦ ?_)
    rw [contains_loadOperationSet, ← Bool.not_eq_true]
    exact fun hop ↦ hnone ⟨operation, hop⟩
  split at h
  · exact absurd h (by simp)
  rename_i root hroot
  obtain ⟨hfind, hrootOperations⟩ := capability?_of_findCapability hroot
  simp only [bind_eq_ok] at h
  obtain ⟨_, hunique, _, hcanonical, _, -, _, hancestry, n, hreceipts, _, hle, _, hrevision, -⟩ := h
  have hunique := reject_eq_ok.mp hunique
  have hcanonical := reject_eq_ok.mp hcanonical
  simp only [not_or, not_not, Bool.not_eq_false] at hunique hcanonical
  obtain ⟨rfl, hagree⟩ := validateControlReceipts_spec hreceipts
  have hwalk : ∀ {c row}, t.capability? document.documentId c = some row →
      row.createdRevision.get ≤ document.controlRevision.get ∧
      validateAncestryFrom document.rootCapabilityId (documentCapabilities t document.documentId)
        maxCapabilityDepth [] ⟨row, loadOperationSet t document.documentId c⟩ = .ok () := by
    intro c row hrow
    obtain ⟨-, -, rfl⟩ := Tables.capability?_eq_some_iff.mp hrow
    have hone := forM_eq_ok.mp hancestry _ (mem_documentCapabilities.mpr ⟨row, hrow, rfl⟩)
    rw [validateCapabilityAncestry, bind_eq_ok] at hone
    obtain ⟨_, hcreated, hone⟩ := hone
    exact ⟨Nat.not_lt.mp (reject_eq_ok.mp hcreated), hone⟩
  exact
    { root := by
        refine ⟨root.row, hfind, root.row.root_iff.mp hunique.2.1,
          ControlRevision.ext hcanonical.1, fun operation ↦ ?_⟩
        rw [← contains_loadOperationSet, ← hrootOperations, hcanonical.2,
          OperationSet.contains_full]
      root_unique := by
        intro c row hrow hnone
        obtain ⟨hmem, hd, rfl⟩ := Tables.capability?_eq_some_iff.mp hrow
        obtain ⟨hmem', hd', hc'⟩ := Tables.capability?_eq_some_iff.mp hfind
        -- there is one root, and both rows are
        have hone := hunique.1
        rw [countP_documentCapabilities, List.countP_eq_length_filter, List.length_eq_one_iff]
          at hone
        obtain ⟨only, hone⟩ := hone
        have honly : ∀ r ∈ t.capabilities.rows, r.documentId = document.documentId →
            r.root = true → r = only := by
          intro r hr hrd hrr
          rw [← List.mem_singleton, ← hone, List.mem_filter]
          exact ⟨hr, by simp [hrd, hrr]⟩
        rw [honly row hmem hd (root_of_parent_eq_none hnone), ← hc',
          honly root.row hmem' hd' hunique.2.1]
      created := fun hrow ↦ (hwalk hrow).1
      edge := by
        intro c row p hrow hp
        obtain ⟨row', hrow', hlt, hallows, hrevoked, -⟩ :=
          validateAncestryFrom_parent hp (hwalk hrow).2
        refine ⟨row', hrow', hlt, fun operation hop ↦ ?_, hrevoked⟩
        rw [← contains_loadOperationSet] at hop ⊢
        exact (OperationSet.allows_iff.mp hallows).2 operation hop
      within := fun hrow ↦ within_of_validateAncestryFrom hrow (hwalk hrow).2
      operations := hoperations
      receipt := hagree
      revision := not_not.mp (reject_eq_ok.mp hrevision)
      childCount_le := by
        intro p
        have hp := validateFanOut_spec hfan (fun _ ↦ Nat.zero_le _) p
        rw [Nat.zero_add,
          countP_documentCapabilities fun row ↦ row.parentCapabilityId = some p] at hp
        simpa only [childCount, Bool.decide_and] using hp
      capabilityCount_le := by
        have hle := Nat.not_lt.mp (reject_eq_ok.mp hcount)
        rwa [documentCapabilities, List.length_map, length_orderBy,
          ← List.countP_eq_length_filter] at hle
      receiptCount_le := Nat.not_lt.mp (reject_eq_ok.mp hle) }

/-! ## Everything about control -/

/-- What the foreign keys say. -/
structure ForeignKeys (t : Tables) : Prop where
  capability : ∀ row ∈ t.capabilities.rows, (t.document? row.documentId).isSome = true
  operation : ∀ row ∈ t.capabilityOperations.rows,
    (t.capability? row.documentId row.capabilityId).isSome = true
  createReceipt : ∀ row ∈ t.createReceipts.rows, (t.document? row.documentId).isSome = true ∧
    (t.createAuthorities.find? row.createAuthorityId).isSome = true
  controlReceipt : ∀ row ∈ t.controlReceipts.rows,
    (t.capability? row.documentId row.issuerCapabilityId).isSome = true
  sequence : ∀ row ∈ t.documentAcceptanceSequences.rows,
    (t.document? row.documentId).isSome = true
  update : ∀ row ∈ t.updates.rows,
    (t.documentAcceptanceSequences.find? row.documentId).isSome = true
  range : ∀ row ∈ t.updateLoroRanges.rows,
    (t.updates.find? (row.documentId, row.updateId)).isSome = true

theorem foreignKeys_of_hold (h : foreignKeysHold t = true) : ForeignKeys t := by
  simp only [foreignKeysHold, Bool.and_eq_true, List.all_eq_true] at h
  obtain ⟨⟨⟨⟨⟨⟨⟨hcapability, hoperation⟩, hcontrol⟩, hcreate⟩, hsequence⟩, hupdate⟩, hrange⟩, -⟩ :=
    h
  exact ⟨fun row hrow ↦ (hcapability row hrow).1, hoperation, hcreate, hcontrol, hsequence, hupdate,
    hrange⟩

/-- **Control state that was accepted is in order.** -/
theorem controlWellFormed_of_validated (hforeign : ForeignKeys t)
    (hcreate : validateCreateState t = .ok ()) (hcontrol : validateCapabilityState t = .ok ()) :
    ControlWellFormed t := by
  simp only [validateCreateState, validateCapabilityState, bind_eq_ok] at hcreate hcontrol
  obtain ⟨_, hlength, _, hcreateLimits, hreceipts⟩ := hcreate
  obtain ⟨_, hdocuments, _, hcontrolLimits, -⟩ := hcontrol
  have hlength := not_not.mp (reject_eq_ok.mp hlength)
  have hcreateLimits := reject_eq_ok.mp hcreateLimits
  have hcontrolLimits := reject_eq_ok.mp hcontrolLimits
  simp only [not_or, Nat.not_lt] at hcreateLimits hcontrolLimits
  obtain ⟨hagree, hauthorities⟩ := validateCreateReceiptsFrom_spec hreceipts fun _ ↦ Nat.zero_le _
  have hchecked : ∀ {d document}, t.document? d = some document →
      document.documentId = d ∧ DocumentChecked t document := by
    intro d document hdocument
    obtain ⟨hmem, hd⟩ := Tables.document?_eq_some_iff.mp hdocument
    exact ⟨hd, validateDocument_spec (forM_eq_ok.mp hdocuments document (mem_orderBy.mpr hmem))⟩
  have howner : ∀ {d c row}, t.capability? d c = some row →
      ∃ document, t.document? d = some document := by
    intro d c row hrow
    obtain ⟨hmem, rfl, -⟩ := Tables.capability?_eq_some_iff.mp hrow
    exact Option.isSome_iff_exists.mp (hforeign.capability row hmem)
  -- the rows of a document that does not exist are easily counted
  have hnone : ∀ {ρ : Type} {rows : List ρ} {p : ρ → Bool} {limit : ℕ},
      (∀ row ∈ rows, ¬p row = true) → rows.countP p ≤ limit := fun h ↦
    (le_of_eq (List.countP_eq_zero.mpr h)).trans (Nat.zero_le _)
  exact
    { root := by
        intro d document hdocument
        obtain ⟨rfl, hd⟩ := hchecked hdocument
        exact hd.root
      root_unique := by
        intro d c row hrow hnone
        obtain ⟨document, hdocument⟩ := howner hrow
        obtain ⟨rfl, hd⟩ := hchecked hdocument
        exact ⟨document, hdocument, hd.root_unique hrow hnone⟩
      document := by
        intro d c row hrow
        obtain ⟨document, hdocument⟩ := howner hrow
        obtain ⟨rfl, hd⟩ := hchecked hdocument
        exact ⟨document, hdocument, hd.created hrow⟩
      edge := by
        intro d c row p hrow hp
        obtain ⟨document, hdocument⟩ := howner hrow
        obtain ⟨rfl, hd⟩ := hchecked hdocument
        exact hd.edge hrow hp
      within := by
        intro d c row hrow
        obtain ⟨document, hdocument⟩ := howner hrow
        obtain ⟨rfl, hd⟩ := hchecked hdocument
        exact hd.within hrow
      operations := by
        intro d c row hrow
        obtain ⟨document, hdocument⟩ := howner hrow
        obtain ⟨rfl, hd⟩ := hchecked hdocument
        exact hd.operations hrow
      operation_capability := fun hop ↦
        Option.isSome_iff_exists.mp (hforeign.operation _ (Tables.hasOperation_iff.mp hop))
      receipt := by
        intro receipt hreceipt
        obtain ⟨issuer, hissuer⟩ :=
          Option.isSome_iff_exists.mp (hforeign.controlReceipt receipt hreceipt)
        obtain ⟨document, hdocument⟩ := howner hissuer
        obtain ⟨hid, hd⟩ := hchecked hdocument
        exact hd.receipt receipt hreceipt hid.symm
      revision := by
        intro d document hdocument
        obtain ⟨rfl, hd⟩ := hchecked hdocument
        exact hd.revision
      createReceipt := by
        intro receipt hreceipt
        obtain ⟨root, hroot, hnone, hinput⟩ := hagree receipt (mem_orderBy.mpr hreceipt)
        obtain ⟨document, hdocument⟩ := howner hroot
        obtain ⟨hid, hd⟩ := hchecked hdocument
        exact ⟨(hforeign.createReceipt receipt hreceipt).2, document, root, hdocument,
          hd.root_unique (hid ▸ hroot) hnone, hroot, hnone, hinput⟩
      createReceipts_length := hlength
      childCount_le := by
        intro d p
        cases hdocument : t.document? d with
        | some document =>
          obtain ⟨rfl, hd⟩ := hchecked hdocument
          exact hd.childCount_le p
        | none =>
          refine hnone fun row hrow hmem ↦ ?_
          have hsome := hforeign.capability row hrow
          rw [(of_decide_eq_true hmem).1, hdocument] at hsome
          exact absurd hsome (by simp)
      capabilityCount_le := by
        intro d
        cases hdocument : t.document? d with
        | some document =>
          obtain ⟨rfl, hd⟩ := hchecked hdocument
          exact hd.capabilityCount_le
        | none =>
          refine hnone fun row hrow hmem ↦ ?_
          have hsome := hforeign.capability row hrow
          rw [of_decide_eq_true hmem, hdocument] at hsome
          exact absurd hsome (by simp)
      capabilities_le := hcontrolLimits.1
      receiptCount_le := by
        intro d
        cases hdocument : t.document? d with
        | some document =>
          obtain ⟨rfl, hd⟩ := hchecked hdocument
          exact hd.receiptCount_le
        | none =>
          refine hnone fun row hrow hmem ↦ ?_
          obtain ⟨issuer, hissuer⟩ :=
            Option.isSome_iff_exists.mp (hforeign.controlReceipt row hrow)
          obtain ⟨document, hsome⟩ := howner hissuer
          rw [of_decide_eq_true hmem, hdocument] at hsome
          exact absurd hsome (by simp)
      receipts_le := hcontrolLimits.2
      documents_le := hcreateLimits.1
      authorityDocumentCount_le := by
        intro i
        have hi := hauthorities i
        rwa [Nat.zero_add, (orderBy_perm _ _).countP_eq] at hi }

/-! ## The scan over the updates -/

/-- Ranges that were accepted are those of the record. -/
theorem validateRanges_spec {ranges : List LoroRange} {rows : List UpdateLoroRangeRow}
    {s s' : ScanState} {P : DocumentId → U64 → Prop} {n : ℕ}
    (h : validateRanges d ranges rows s = .ok s') (hs : s.Collected P n)
    (hlimits : ∀ d, s.expectedPeerCounts d ≤ maxLoroPeers) :
    rows.map (fun row ↦ (row.peerId, row.startCounter, row.endCounter)) =
        ranges.map (fun range ↦ (range.peerId, range.startCounter, range.endCounter)) ∧
      s'.nextSequences = s.nextSequences ∧ s'.documents = s.documents ∧
      s'.Collected (fun d' peer ↦ P d' peer ∨ (d' = d ∧ peer ∈ ranges.map LoroRange.peerId))
        (n + ranges.length) ∧
      ∀ d, s'.expectedPeerCounts d ≤ maxLoroPeers := by
  induction ranges generalizing rows s P n with
  | nil =>
    cases rows with
    | nil =>
      obtain rfl := Except.ok.inj h
      exact ⟨rfl, rfl, rfl, by simpa using hs, hlimits⟩
    | cons row rows => exact absurd h (by simp [validateRanges])
  | cons range ranges ih =>
    cases rows with
    | nil => exact absurd h (by simp [validateRanges])
    | cons row rows =>
    have hpeers : ∀ d' peer, ((P d' peer ∨ (d' = d ∧ peer = range.peerId)) ∨
        (d' = d ∧ peer ∈ ranges.map LoroRange.peerId)) ↔
          P d' peer ∨ (d' = d ∧ peer ∈ (range :: ranges).map LoroRange.peerId) := fun d' peer ↦ by
      rw [List.map_cons, List.mem_cons, or_assoc, ← and_or_left]
    rw [List.length_cons, Nat.add_comm ranges.length, ← Nat.add_assoc]
    rw [validateRanges] at h
    split at h
    · exact absurd h (by simp)
    rename_i hsame
    have hhead := not_not.mp hsame
    simp only at h
    split at h
    · rename_i hmem
      obtain ⟨hrows, hnext, hdocs, hs', hle⟩ := ih h (hs.skip hmem) hlimits
      exact ⟨by rw [List.map_cons, List.map_cons, hrows, hhead], hnext, hdocs,
        hs'.congr hpeers, hle⟩
    · rename_i hmem
      split at h
      · exact absurd h (by simp)
      rename_i hcount
      obtain ⟨hrows, hnext, hdocs, hs', hle⟩ := ih h (hs.push hmem) fun d' ↦ by
        by_cases hd : d' = d
        · subst hd
          simpa using hcount
        · simpa [Function.update_of_ne hd] using hlimits d'
      exact ⟨by rw [List.map_cons, List.map_cons, hrows, hhead], hnext, hdocs,
        hs'.congr hpeers, hle⟩

/-- What a scan that did not stop has established of the rows done so far. -/
structure Verified (t : Tables) (done : List UpdateRow) (s : ScanState) : Prop
    extends Scanned done s where
  met : ∀ d, 0 < doneCount done d → d ∈ s.documents
  limits : ∀ d, s.expectedPeerCounts d ≤ maxLoroPeers
  positions : ∀ d, (done.filter fun row ↦ row.documentId = d).map
    (fun row ↦ row.acceptanceSequence.get) = List.range' 1 (doneCount done d)
  record : ∀ row ∈ done, ∃ update, row.update? = some update ∧
    update.documentId = row.documentId ∧ update.updateId = row.updateId
  indexed : ∀ row ∈ done, ∀ range ∈ t.updateLoroRanges.rows,
    range.documentId = row.documentId → range.updateId = row.updateId → range ∈ row.rangeRows

theorem verified_initial : Verified t [] .initial where
  toScanned := scanned_initial
  met _ h := absurd h (by simp [doneCount])
  limits _ := Nat.zero_le _
  positions _ := rfl
  record _ h := absurd h List.not_mem_nil
  indexed _ h := absurd h List.not_mem_nil

/-- **One update the scan went past.** -/
theorem validateUpdate_spec {done : List UpdateRow} {row : UpdateRow} {s s' : ScanState}
    (h : validateUpdate t s row = .ok s') (hs : Verified t done s) :
    Verified t (done ++ [row]) s' := by
  simp only [validateUpdate] at h
  split at h
  · exact absurd h (by simp)
  rename_i hexpected
  split at h
  · exact absurd h (by simp)
  rename_i next hnext
  split at h
  · exact absurd h (by simp)
  rename_i update hupdate
  split at h
  · exact absurd h (by simp)
  rename_i hidentity
  simp only [not_or, not_not] at hexpected hidentity
  obtain ⟨hd, hu⟩ := hidentity
  have hupdate := UpdateRow.update?_eq_some_iff.mpr hupdate
  have hranges : row.rangeRows = rangeRows update := by
    rw [UpdateRow.rangeRows, hupdate]
    rfl
  have hpeers : row.peers = update.publicLoroRanges.peers := by
    rw [UpdateRow.peers, hupdate]
    rfl
  have hposition : row.acceptanceSequence.get = doneCount done row.documentId + 1 := by
    rw [hexpected, hs.expected]
  obtain ⟨hrows, hsequences, hdocuments, hcollected, hlimits⟩ := validateRanges_spec h
    (P := fun d peer ↦ ∃ row ∈ done, row.documentId = d ∧ peer ∈ row.peers)
    ⟨hs.collected.nodup, hs.collected.mem_iff, hs.collected.counts, hs.collected.ranges⟩ hs.limits
  refine
    { toScanned := hs.toScanned.concat hposition
        (AcceptanceSequence.checkedNext_eq_some_iff.mp hnext) hsequences hdocuments ?_
      met := ?_
      limits := hlimits
      positions := ?_
      record := ?_
      indexed := ?_ }
  · rw [hpeers, hranges, rangeRows, List.length_map]
    exact hcollected
  · intro d hpos
    rw [doneCount_concat] at hpos
    rw [hdocuments]
    by_cases hrow : row.documentId = d
    · subst hrow
      split
      · rename_i hsome
        refine hs.met _ (Nat.pos_of_ne_zero fun hz ↦ ?_)
        rw [hs.fresh _ hz] at hsome
        exact absurd hsome (by simp)
      · exact List.mem_append_right _ (List.mem_singleton_self _)
    · rw [if_neg hrow] at hpos
      split
      · exact hs.met d hpos
      · exact List.mem_append_left _ (hs.met d hpos)
  · intro d
    rw [doneCount_concat, List.filter_append, List.map_append, hs.positions]
    by_cases hrow : row.documentId = d
    · subst hrow
      rw [List.filter_cons_of_pos (by simp), List.filter_nil, if_pos rfl, List.map_singleton,
        hposition, List.range'_concat, Nat.one_mul, Nat.add_comm 1]
    · rw [List.filter_cons_of_neg (by simpa using hrow), List.filter_nil, if_neg hrow]
      exact List.append_nil _
  · intro row' hrow'
    rcases List.mem_append.mp hrow' with hold | hlast
    · exact hs.record row' hold
    · rw [List.mem_singleton.mp hlast]
      exact ⟨update, hupdate, hd, hu⟩
  · intro row' hrow' range hrange hrd hru
    rcases List.mem_append.mp hrow' with hold | hlast
    · exact hs.indexed row' hold range hrange hrd hru
    obtain rfl := List.mem_singleton.mp hlast
    -- the row was compared with a range of the record
    have hmem : (range.peerId, range.startCounter, range.endCounter) ∈
        update.publicLoroRanges.ranges.map
          fun range ↦ (range.peerId, range.startCounter, range.endCounter) := by
      rw [← hrows]
      refine List.mem_map_of_mem (f := fun row : UpdateLoroRangeRow ↦
        (row.peerId, row.startCounter, row.endCounter)) (mem_orderBy.mpr ?_)
      rw [List.mem_filter, decide_eq_true_eq]
      exact ⟨hrange, hrd, hru⟩
    obtain ⟨expected, hexpected, heq⟩ := List.mem_map.mp hmem
    simp only [Prod.mk.injEq] at heq
    rw [hranges, rangeRows]
    refine List.mem_map.mpr ⟨expected, hexpected, UpdateLoroRangeRow.ext ?_ ?_ heq.1 heq.2.1
      heq.2.2⟩
    · exact hd.trans hrd.symm
    · exact hu.trans hru.symm

/-! ## Everything about the log -/

/-- **A log that was accepted is in order, once the idle counters are settled.** -/
theorem updatesWellFormed_of_validated {s : ScanState} (hforeign : ForeignKeys t)
    (hscan : (scanOrder t).foldlM (validateUpdate t) .initial = .ok s)
    (hcount : t.updateLoroRanges.rows.length = s.expectedRangeCount)
    (hpeers : (orderBy (fun row ↦ toLex (row.documentId, row.peerId)) t.documentLoroPeers.rows).map
      (fun row ↦ (row.documentId, row.peerId)) = orderBy toLex s.expectedPeers)
    (hsequences : ∀ d ∈ s.documents, validateNextSequence t s d = .ok ()) :
    UpdatesWellFormed t.settled := by
  have hs : Verified t (scanOrder t) s := foldlM_inv (Verified t) hscan verified_initial
    fun done row rest s s' _ hs hrow ↦ validateUpdate_spec hrow hs
  have hmem : ∀ {row}, row ∈ scanOrder t ↔ row ∈ t.updates.rows := mem_orderBy
  -- positions tell the rows of a document apart, so the scan goes through its log
  have hinj : ∀ d, ∀ x ∈ t.updates.rows, ∀ y ∈ t.updates.rows, x.documentId = d →
      y.documentId = d → x.acceptanceSequence = y.acceptanceSequence → x = y := by
    intro d x hx y hy hxd hyd hxy
    have hnodup := List.nodup_range' (s := 1) (n := doneCount (scanOrder t) d) 1
    rw [← hs.positions d] at hnodup
    refine List.inj_on_of_nodup_map hnodup ?_ ?_ (congrArg AcceptanceSequence.get hxy)
    · exact List.mem_filter.mpr ⟨hmem.mpr hx, decide_eq_true hxd⟩
    · exact List.mem_filter.mpr ⟨hmem.mpr hy, decide_eq_true hyd⟩
  have hlog : ∀ d, (scanOrder t).filter (fun row ↦ row.documentId = d) = t.log d := by
    intro d
    rw [scanOrder, Tables.log]
    convert filter_orderBy_lex (k := d) (hinj d)
  have hlength : ∀ d, doneCount (scanOrder t) d = (t.log d).length := fun d ↦ by
    rw [doneCount, List.countP_eq_length_filter, hlog]
  have hkeys : (t.documentLoroPeers.rows.map Keyed.key).Perm s.expectedPeers :=
    ((orderBy_perm _ _).map _).symm.trans (hpeers ▸ orderBy_perm _ _)
  have hpeer : ∀ d peer, (t.documentLoroPeers.find? (d, peer)).isSome = true ↔
      ∃ row ∈ t.log d, peer ∈ row.peers := by
    intro d peer
    rw [Table.isSome_find?_iff, ← List.mem_map, hkeys.mem_iff, hs.collected.mem_iff]
    simp only [Tables.mem_log, hmem, and_assoc]
  exact
    { positions := by
        intro d
        show (t.log d).map _ = List.range' 1 (t.log d).length
        rw [← hlog, hs.positions, hlog, hlength]
      record := fun hrow ↦ hs.record _ (hmem.mpr hrow)
      next := by
        intro d row hrow
        show row.nextSequence.get = (t.log d).length + 1
        by_cases hnil : t.log d = []
        · rw [find?_settled, Option.map_eq_some_iff] at hrow
          obtain ⟨old, hold, rfl⟩ := hrow
          have hkey : old.documentId = d := Table.key_of_find?_eq_some hold
          rw [AcceptanceSequenceRow.settle, hkey, if_pos (by simp [Tables.idle, hnil]), hnil]
          rfl
        · rw [find?_settled_of_log hnil] at hrow
          have hpos : 0 < doneCount (scanOrder t) d := by
            rw [hlength]
            exact List.length_pos_of_ne_nil hnil
          obtain ⟨sequence, hsome, hget⟩ := hs.next d hpos
          have hnext := hsequences d (hs.met d hpos)
          rw [validateNextSequence, hrow] at hnext
          have hnext := not_not.mp (reject_eq_ok.mp hnext)
          rw [Option.some_inj.mp (hnext.trans hsome), hget, hlength]
      sequence_document := by
        intro d row hrow
        rw [find?_settled, Option.map_eq_some_iff] at hrow
        obtain ⟨old, hold, -⟩ := hrow
        obtain rfl : old.documentId = d := Table.key_of_find?_eq_some hold
        exact hforeign.sequence old (Table.mem_of_find?_eq_some hold)
      sequenced := by
        intro row hrow
        rw [find?_settled, Option.isSome_map]
        exact hforeign.update row hrow
      ranges := by
        show t.updateLoroRanges.rows.Perm (t.updates.rows.flatMap UpdateRow.rangeRows)
        refine (List.subperm_of_subset t.updateLoroRanges.nodup_rows
          fun range hrange ↦ ?_).perm_of_length_le (le_of_eq ?_)
        · obtain ⟨row, hrow, hkey⟩ := Table.isSome_find?_iff.mp (hforeign.range range hrange)
          obtain ⟨hd, hu⟩ := Prod.mk_inj.mp hkey
          exact List.mem_flatMap.mpr
            ⟨row, hrow, hs.indexed row (hmem.mpr hrow) range hrange hd.symm hu.symm⟩
        · rw [hcount, hs.collected.ranges]
          exact ((orderBy_perm _ t.updates.rows).symm.flatMap_right UpdateRow.rangeRows).length_eq
      peers := fun {d peer} ↦ hpeer d peer
      peerCount_le := by
        intro d
        show peerCount t d ≤ maxLoroPeers
        have hle := hs.limits d
        rw [hs.collected.counts, ← hkeys.countP_eq, List.countP_map] at hle
        exact hle }

/-! ## Exactly what is accepted -/

theorem foreignKeysHold_settled (t : Tables) : foreignKeysHold t.settled = foreignKeysHold t := by
  have hsequences : (t.settled.documentAcceptanceSequences.rows.all fun row ↦
      (t.settled.document? row.documentId).isSome) =
        t.documentAcceptanceSequences.rows.all fun row ↦
          (t.document? row.documentId).isSome := by
    rw [Tables.settled, Tables.settle, Table.rows_update, List.all_map]
    refine congrArg (List.all _) (funext fun row ↦ ?_)
    have hkey : (row.settle t.idle).documentId = row.documentId :=
      AcceptanceSequenceRow.key_settle t.idle row
    show (t.document? (row.settle t.idle).documentId).isSome = _
    rw [hkey]
  have hupdates : (t.settled.updates.rows.all fun row ↦
      (t.settled.documentAcceptanceSequences.find? row.documentId).isSome) =
        t.updates.rows.all fun row ↦
          (t.documentAcceptanceSequences.find? row.documentId).isSome := by
    refine congrArg (List.all _) (funext fun row ↦ ?_)
    rw [find?_settled, Option.isSome_map]
  rw [foreignKeysHold, hsequences, hupdates]
  rfl

/-- **A database is accepted exactly when, its idle counters settled, it is well formed.** -/
theorem Tables.valid_iff : t.Valid ↔ WellFormed t.settled := by
  constructor
  · intro h
    have hvalid := h.validated
    simp only [validate, bind_eq_ok] at hvalid
    obtain ⟨_, hcreate, _, hcontrol, s, hscan, _, hcount, _, hpeers, hsequences⟩ := hvalid
    have hforeign := foreignKeys_of_hold h.foreign
    exact
      { control := ControlWellFormed.settled_iff.mpr
          (controlWellFormed_of_validated hforeign hcreate hcontrol)
        log := updatesWellFormed_of_validated hforeign hscan (not_not.mp (reject_eq_ok.mp hcount))
          (not_not.mp (reject_eq_ok.mp hpeers)) (forM_eq_ok.mp hsequences) }
  · intro h
    have hcontrol := ControlWellFormed.settled_iff.mp h.control
    obtain ⟨s, hscan, hcount, hpeers, hsequences⟩ := validateLog_ok h.log
    refine ⟨(foreignKeysHold_settled t).symm.trans (foreignKeysHold_of_wellFormed h), ?_⟩
    simp only [validate, bind_eq_ok]
    refine ⟨(), validateCreateState_ok hcontrol, (), validateCapabilityState_ok hcontrol, s, hscan,
      (), reject_eq_ok.mpr (not_not.mpr hcount), (), reject_eq_ok.mpr (not_not.mpr hpeers),
      forM_eq_ok.mpr fun d hd ↦ ?_⟩
    -- the counters that are looked at are those of documents with updates
    obtain ⟨hlog, hnext⟩ := hsequences d hd
    have hlog : t.log d ≠ [] := hlog
    rw [validateNextSequence, find?_settled_of_log hlog] at hnext
    exact hnext

end Renee
