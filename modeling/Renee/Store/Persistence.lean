import Renee.Store.AcceptSpec
import Renee.Store.Validate

/-!
# What the tables keep

Rows are never removed, and what a later request depends on is never rewritten.  `Persists t t'` is
that statement between two states of the tables: capabilities keep their place, their secrets and
their operations and stay revoked once they are, documents keep their root, receipts and updates
stay as they are, and create authorities keep their verifiers.

It holds across every effect — `Created.persists` and its siblings — and it is a preorder, so it
holds across every run.  The lookups those proofs go through, what a table answers after each
effect, come first.
-/

set_option autoImplicit false

namespace Renee

open ByteString Relational

variable {t t' t'' : Tables}

/-! ## Attaching a capability -/

/-- The one new capability of a creation or a grant, with its operations. -/
structure Attached (t t' : Tables) (row : CapabilityRow) (operations : OperationSet) : Prop where
  fresh : t.capability? row.documentId row.capabilityId = none
  capabilities : t'.capabilities.rows = t.capabilities.rows ++ [row]
  capabilityOperations : t'.capabilityOperations.rows = t.capabilityOperations.rows ++
    operationRows row.documentId row.capabilityId operations

namespace Attached

variable {row : CapabilityRow} {operations : OperationSet} (h : Attached t t' row operations)
include h

theorem capability?_eq (d : DocumentId) (c : CapabilityId) :
    t'.capability? d c =
      if row.documentId = d ∧ row.capabilityId = c then some row else t.capability? d c := by
  have hkey : (Keyed.key row = (d, c)) ↔ (row.documentId = d ∧ row.capabilityId = c) :=
    Prod.mk_inj
  rw [Tables.capability?, Table.find?_of_rows_append h.capabilities]
  by_cases hk : row.documentId = d ∧ row.capabilityId = c
  · obtain ⟨rfl, rfl⟩ := hk
    have hnone : t.capabilities.find? (row.documentId, row.capabilityId) = none := h.fresh
    rw [hnone, if_pos (hkey.mpr ⟨rfl, rfl⟩), if_pos ⟨rfl, rfl⟩, Option.none_or]
  · rw [if_neg (fun he ↦ hk (hkey.mp he)), if_neg hk, Option.or_none]
    rfl

theorem capability?_self : t'.capability? row.documentId row.capabilityId = some row := by
  rw [h.capability?_eq, if_pos ⟨rfl, rfl⟩]

theorem capability?_old {d : DocumentId} {c : CapabilityId} {old : CapabilityRow}
    (hold : t.capability? d c = some old) : t'.capability? d c = some old := by
  rw [h.capability?_eq, if_neg, hold]
  rintro ⟨rfl, rfl⟩
  rw [h.fresh] at hold
  exact absurd hold (by simp)

/-- A capability is the new one, or was there before. -/
theorem capability?_cases {d : DocumentId} {c : CapabilityId} {row' : CapabilityRow}
    (hrow : t'.capability? d c = some row') :
    (row.documentId = d ∧ row.capabilityId = c ∧ row' = row) ∨ t.capability? d c = some row' := by
  rw [h.capability?_eq] at hrow
  split at hrow
  · rename_i hk
    exact Or.inl ⟨hk.1, hk.2, (Option.some_inj.mp hrow).symm⟩
  · exact Or.inr hrow

theorem hasOperation_iff (d : DocumentId) (c : CapabilityId) (operation : Operation) :
    t'.hasOperation d c operation = true ↔ t.hasOperation d c operation = true ∨
      (d = row.documentId ∧ c = row.capabilityId ∧ operations.contains operation = true) := by
  rw [Tables.hasOperation_iff, Tables.hasOperation_iff, h.capabilityOperations, List.mem_append,
    mem_operationRows]

/-- Operations are only written for the new capability. -/
theorem hasOperation_old {d : DocumentId} {c : CapabilityId} {old : CapabilityRow}
    (hold : t.capability? d c = some old) (operation : Operation) :
    t'.hasOperation d c operation = t.hasOperation d c operation := by
  rw [Bool.eq_iff_iff, h.hasOperation_iff]
  refine or_iff_left fun ⟨hd, hc, _⟩ ↦ ?_
  rw [hd, hc, h.fresh] at hold
  exact absurd hold (by simp)

theorem parent?_old {d : DocumentId} {c : CapabilityId} (hne : ¬(row.documentId = d ∧
    row.capabilityId = c)) : t'.parent? d c = t.parent? d c := by
  rw [Tables.parent?, Tables.parent?, h.capability?_eq, if_neg hne]

theorem parent?_self :
    t'.parent? row.documentId row.capabilityId = row.parentCapabilityId :=
  Tables.parent?_eq h.capability?_self

end Attached

/-! ## Lookups after an effect -/

theorem document?_of_append {row : DocumentRow}
    (hrows : t'.documents.rows = t.documents.rows ++ [row])
    (hfree : t.document? row.documentId = none) (d : DocumentId) :
    t'.document? d = if row.documentId = d then some row else t.document? d := by
  rw [Tables.document?, Table.find?_of_rows_append hrows]
  by_cases hk : row.documentId = d
  · subst hk
    have hnone : t.documents.find? row.documentId = none := hfree
    rw [hnone, if_pos (show Keyed.key row = row.documentId from rfl), if_pos rfl, Option.none_or]
  · rw [if_neg hk, if_neg (show ¬Keyed.key row = d from hk), Option.or_none]
    rfl

theorem document?_of_setRevision {d₀ : DocumentId} {revision : ControlRevision}
    (hrows : t'.documents.rows = t.documents.rows.map (DocumentRow.setRevision d₀ revision))
    (d : DocumentId) :
    t'.document? d = (t.document? d).map (DocumentRow.setRevision d₀ revision) := by
  have htable : t'.documents = t.documents.update (DocumentRow.setRevision d₀ revision)
      (DocumentRow.key_setRevision d₀ revision) := Table.ext hrows
  rw [Tables.document?, htable, Table.find?_update]
  rfl

theorem capability?_of_revokeIn {d₀ : DocumentId} {ids : List CapabilityId}
    (hrows : t'.capabilities.rows = t.capabilities.rows.map (CapabilityRow.revokeIn d₀ ids))
    (d : DocumentId) (c : CapabilityId) :
    t'.capability? d c = (t.capability? d c).map (CapabilityRow.revokeIn d₀ ids) := by
  have htable : t'.capabilities = t.capabilities.update (CapabilityRow.revokeIn d₀ ids)
      (CapabilityRow.key_revokeIn d₀ ids) := Table.ext hrows
  rw [Tables.capability?, htable, Table.find?_update]
  rfl

theorem DocumentRow.setRevision_of_ne {d : DocumentId} {revision : ControlRevision}
    {row : DocumentRow} (h : row.documentId ≠ d) : row.setRevision d revision = row := if_neg h

theorem DocumentRow.setRevision_of_eq {d : DocumentId} {revision : ControlRevision}
    {row : DocumentRow} (h : row.documentId = d) :
    row.setRevision d revision = { row with controlRevision := revision } := if_pos h

@[simp] theorem DocumentRow.setRevision_retired {d : DocumentId} {revision : ControlRevision}
    {row : DocumentRow} : (row.setRevision d revision).retired = row.retired := by
  rw [setRevision]; split <;> rfl

@[simp] theorem DocumentRow.setRevision_root {d : DocumentId} {revision : ControlRevision}
    {row : DocumentRow} :
    (row.setRevision d revision).rootCapabilityId = row.rootCapabilityId := by
  rw [setRevision]; split <;> rfl

section RevokeIn

variable {d : DocumentId} {ids : List CapabilityId} {row : CapabilityRow}

@[simp] theorem CapabilityRow.revokeIn_parent :
    (row.revokeIn d ids).parentCapabilityId = row.parentCapabilityId := by
  rw [revokeIn]; split <;> rfl

@[simp] theorem CapabilityRow.revokeIn_documentId :
    (row.revokeIn d ids).documentId = row.documentId := by
  rw [revokeIn]; split <;> rfl

@[simp] theorem CapabilityRow.revokeIn_root : (row.revokeIn d ids).root = row.root := by
  rw [revokeIn]; split <;> rfl

@[simp] theorem CapabilityRow.revokeIn_liveVerifier :
    (row.revokeIn d ids).liveVerifier = row.liveVerifier := by
  rw [revokeIn]; split <;> rfl

@[simp] theorem CapabilityRow.revokeIn_receiptVerifier :
    (row.revokeIn d ids).receiptVerifier = row.receiptVerifier := by
  rw [revokeIn]; split <;> rfl

@[simp] theorem CapabilityRow.revokeIn_createdRevision :
    (row.revokeIn d ids).createdRevision = row.createdRevision := by
  rw [revokeIn]; split <;> rfl

theorem CapabilityRow.revokeIn_revoked :
    (row.revokeIn d ids).revoked = true ↔
      row.revoked = true ∨ (row.documentId = d ∧ row.capabilityId ∈ ids) := by
  rw [revokeIn]
  split
  · rename_i h; simp [h]
  · rename_i h; simp [h]

end RevokeIn

/-- Operations decide the operation set. -/
theorem loadOperationSet_congr {d : DocumentId} {c : CapabilityId}
    (h : ∀ operation, t'.hasOperation d c operation = t.hasOperation d c operation) :
    loadOperationSet t' d c = loadOperationSet t d c :=
  OperationSet.ext_contains fun operation ↦ by
    rw [contains_loadOperationSet, contains_loadOperationSet, h]

/-! ## The relation -/

/-- A capability keeps everything but its revocation, which is permanent. -/
structure CapabilityRow.Persists (row row' : CapabilityRow) : Prop where
  parent : row'.parentCapabilityId = row.parentCapabilityId
  root : row'.root = row.root
  liveVerifier : row'.liveVerifier = row.liveVerifier
  receiptVerifier : row'.receiptVerifier = row.receiptVerifier
  createdRevision : row'.createdRevision = row.createdRevision
  revoked : row.revoked = true → row'.revoked = true

theorem CapabilityRow.Persists.refl (row : CapabilityRow) : row.Persists row :=
  ⟨rfl, rfl, rfl, rfl, rfl, id⟩

/-- Everything later requests depend on is kept. -/
structure Persists (t t' : Tables) : Prop where
  capability : ∀ {d c row}, t.capability? d c = some row →
    ∃ row', t'.capability? d c = some row' ∧ row.Persists row'
  operations : ∀ {d c row}, t.capability? d c = some row → ∀ operation,
    t'.hasOperation d c operation = t.hasOperation d c operation
  document : ∀ {d document}, t.document? d = some document →
    ∃ document', t'.document? d = some document' ∧
      document'.rootCapabilityId = document.rootCapabilityId ∧
      (document.retired = true → document'.retired = true)
  authority : ∀ {i authority}, t.createAuthorities.find? i = some authority →
    ∃ authority', t'.createAuthorities.find? i = some authority' ∧
      authority'.liveVerifier = authority.liveVerifier ∧
      authority'.receiptVerifier = authority.receiptVerifier
  controlReceipt : ∀ {key receipt}, t.controlReceipts.find? key = some receipt →
    t'.controlReceipts.find? key = some receipt
  createReceipt : ∀ {key receipt}, t.createReceipts.find? key = some receipt →
    t'.createReceipts.find? key = some receipt
  update : ∀ {key row}, t.updates.find? key = some row → t'.updates.find? key = some row

namespace Persists

theorem refl (t : Tables) : Persists t t where
  capability h := ⟨_, h, .refl _⟩
  operations _ _ := rfl
  document h := ⟨_, h, rfl, id⟩
  authority h := ⟨_, h, rfl, rfl⟩
  controlReceipt := id
  createReceipt := id
  update := id

theorem trans (h : Persists t t') (h' : Persists t' t'') : Persists t t'' where
  capability hrow := by
    obtain ⟨row', hrow', hp⟩ := h.capability hrow
    obtain ⟨row'', hrow'', hp'⟩ := h'.capability hrow'
    exact ⟨row'', hrow'', hp'.parent.trans hp.parent, hp'.root.trans hp.root,
      hp'.liveVerifier.trans hp.liveVerifier, hp'.receiptVerifier.trans hp.receiptVerifier,
      hp'.createdRevision.trans hp.createdRevision, fun hr ↦ hp'.revoked (hp.revoked hr)⟩
  operations hrow operation := by
    obtain ⟨row', hrow', -⟩ := h.capability hrow
    rw [h'.operations hrow', h.operations hrow]
  document hdocument := by
    obtain ⟨document', hdocument', hroot, hretired⟩ := h.document hdocument
    obtain ⟨document'', hdocument'', hroot', hretired'⟩ := h'.document hdocument'
    exact ⟨document'', hdocument'', hroot'.trans hroot, fun hr ↦ hretired' (hretired hr)⟩
  authority hauthority := by
    obtain ⟨authority', hauthority', hl, hr⟩ := h.authority hauthority
    obtain ⟨authority'', hauthority'', hl', hr'⟩ := h'.authority hauthority'
    exact ⟨authority'', hauthority'', hl'.trans hl, hr'.trans hr⟩
  controlReceipt hr := h'.controlReceipt (h.controlReceipt hr)
  createReceipt hr := h'.createReceipt (h.createReceipt hr)
  update hu := h'.update (h.update hu)

/-- Parents stay where they are. -/
theorem parent? (h : Persists t t') {d : DocumentId} {c p : CapabilityId}
    (hp : t.parent? d c = some p) : t'.parent? d c = some p := by
  obtain ⟨row, hrow, hparent⟩ := Tables.parent?_eq_some_iff.mp hp
  obtain ⟨row', hrow', hkeep⟩ := h.capability hrow
  exact Tables.parent?_eq_some_iff.mpr ⟨row', hrow', hkeep.parent.trans hparent⟩

/-- So ancestors stay ancestors. -/
theorem descends (h : Persists t t') {d : DocumentId} {c c' : CapabilityId}
    (hd : Ancestry.Descends (t.parent? d) c c') : Ancestry.Descends (t'.parent? d) c c' := by
  obtain ⟨n, hn⟩ := hd
  induction n generalizing c with
  | zero => exact ⟨0, hn⟩
  | succ n ih =>
    rw [Ancestry.ancestor_succ, Option.bind_eq_some_iff] at hn
    obtain ⟨x, hx, hn⟩ := hn
    exact (Ancestry.Descends.of_parent (h.parent? hx)).trans (ih hn)

end Persists

/-! ## Every effect keeps everything -/

section Effects

variable {sha256 : List UInt8 → Bytes verifierLength}

theorem Created.attached {r : CreateCommand} (h : Created sha256 t t' r)
    (hfree : t.capability? r.documentId r.rootCapabilityId = none) :
    Attached t t' (r.rootRow sha256) .full :=
  ⟨hfree, h.capabilities, h.capabilityOperations⟩

theorem Granted.attached {r : GrantCommand} {revision : ControlRevision}
    (h : Granted sha256 t t' r revision) :
    Attached t t' (r.descendantRow sha256 revision) r.operations :=
  ⟨h.descendant_fresh, h.capabilities, h.capabilityOperations⟩

theorem Created.persists {r : CreateCommand} (h : Created sha256 t t' r)
    (hfree : t.capability? r.documentId r.rootCapabilityId = none) : Persists t t' where
  capability hrow := ⟨_, (h.attached hfree).capability?_old hrow, .refl _⟩
  operations hrow := (h.attached hfree).hasOperation_old hrow
  document {d document} hdocument := by
    refine ⟨document, ?_, rfl, id⟩
    rw [document?_of_append h.documents h.document_fresh, if_neg, hdocument]
    rintro rfl
    rw [show t.document? r.documentRow.documentId = none from h.document_fresh] at hdocument
    exact absurd hdocument (by simp)
  authority hauthority := ⟨_, by rw [h.createAuthorities]; exact hauthority, rfl, rfl⟩
  controlReceipt hr := by rw [h.controlReceipts]; exact hr
  createReceipt hr := Table.find?_of_rows_append_list h.createReceipts hr
  update hu := by rw [h.updates]; exact hu

theorem Granted.persists {r : GrantCommand} {revision : ControlRevision}
    (h : Granted sha256 t t' r revision) : Persists t t' where
  capability hrow := ⟨_, h.attached.capability?_old hrow, .refl _⟩
  operations hrow := h.attached.hasOperation_old hrow
  document hdocument :=
    ⟨_, by rw [document?_of_setRevision h.documents, hdocument]; rfl, by simp, by simp⟩
  authority hauthority := ⟨_, by rw [h.createAuthorities]; exact hauthority, rfl, rfl⟩
  controlReceipt hr := Table.find?_of_rows_append_list h.controlReceipts hr
  createReceipt hr := by rw [h.createReceipts]; exact hr
  update hu := by rw [h.updates]; exact hu

theorem Revoked.persists {r : RevokeCommand} {revision : ControlRevision}
    (h : Revoked sha256 t t' r revision) : Persists t t' where
  capability {d c row} hrow := by
    refine ⟨_, by rw [capability?_of_revokeIn h.capabilities, hrow]; rfl, ?_⟩
    exact ⟨by simp, by simp, by simp, by simp, by simp,
      fun hr ↦ CapabilityRow.revokeIn_revoked.mpr (Or.inl hr)⟩
  operations _ operation := by rw [Tables.hasOperation, h.capabilityOperations]; rfl
  document hdocument :=
    ⟨_, by rw [document?_of_setRevision h.documents, hdocument]; rfl, by simp, by simp⟩
  authority hauthority := ⟨_, by rw [h.createAuthorities]; exact hauthority, rfl, rfl⟩
  controlReceipt hr := Table.find?_of_rows_append_list h.controlReceipts hr
  createReceipt hr := by rw [h.createReceipts]; exact hr
  update hu := by rw [h.updates]; exact hu

theorem Accepted.persists {c : CapabilityId} {a : Authenticator} {update : ImmutableUpdate}
    {row : UpdateRow} (h : Accepted sha256 t t' c a update row) : Persists t t' where
  capability hrow := ⟨_, by rw [Tables.capability?, h.capabilities]; exact hrow, .refl _⟩
  operations _ operation := by rw [Tables.hasOperation, h.capabilityOperations]; rfl
  document hdocument :=
    ⟨_, by rw [Tables.document?, h.documents]; exact hdocument, rfl, id⟩
  authority hauthority := ⟨_, by rw [h.createAuthorities]; exact hauthority, rfl, rfl⟩
  controlReceipt hr := by rw [h.controlReceipts]; exact hr
  createReceipt hr := by rw [h.createReceipts]; exact hr
  update hu := Table.find?_of_rows_append_list h.updates hu

end Effects

/-! ## The operator -/

@[simp] theorem DocumentRow.retireIn_root {d : DocumentId} {row : DocumentRow} :
    (row.retireIn d).rootCapabilityId = row.rootCapabilityId := by
  rw [retireIn]; split <;> rfl

@[simp] theorem DocumentRow.retireIn_controlRevision {d : DocumentId} {row : DocumentRow} :
    (row.retireIn d).controlRevision = row.controlRevision := by
  rw [retireIn]; split <;> rfl

theorem DocumentRow.retireIn_retired {d : DocumentId} {row : DocumentRow} :
    (row.retireIn d).retired = true ↔ row.retired = true ∨ row.documentId = d := by
  rw [retireIn]
  split
  · rename_i h; simp [h]
  · rename_i h; simp [h]

theorem document?_retireDocument (t : Tables) (d d' : DocumentId) :
    (retireDocument t d).document? d' = (t.document? d').map (DocumentRow.retireIn d) :=
  Table.find?_update t.documents _ (DocumentRow.key_retireIn d) d'

theorem persists_retireDocument (t : Tables) (d : DocumentId) :
    Persists t (retireDocument t d) where
  capability hrow := ⟨_, hrow, .refl _⟩
  operations _ _ := rfl
  document hdocument :=
    ⟨_, by rw [document?_retireDocument, hdocument]; rfl, by simp,
      fun hr ↦ DocumentRow.retireIn_retired.mpr (Or.inl hr)⟩
  authority hauthority := ⟨_, hauthority, rfl, rfl⟩
  controlReceipt := id
  createReceipt := id
  update := id

theorem persists_disableCreateAuthority (t : Tables) (i : CreateAuthorityId) :
    Persists t (disableCreateAuthority t i) where
  capability hrow := ⟨_, hrow, .refl _⟩
  operations _ _ := rfl
  document hdocument := ⟨_, hdocument, rfl, id⟩
  authority {i' authority} hauthority := by
    refine ⟨authority.disableIn i, ?_, ?_, ?_⟩
    · rw [disableCreateAuthority, Table.find?_update, hauthority]
      rfl
    · rw [CreateAuthorityRow.disableIn]; split <;> rfl
    · rw [CreateAuthorityRow.disableIn]; split <;> rfl
  controlReceipt := id
  createReceipt := id
  update := id

theorem provisionCreateAuthority_eq_ok {provision : CreateAuthorityProvision}
    (h : provisionCreateAuthority t provision = .ok t') :
    ∃ createAuthorities, t' = { t with createAuthorities } := by
  rw [provisionCreateAuthority] at h
  split at h
  · split at h
    · exact absurd h (by simp)
    · exact ⟨_, (Except.ok.inj h).symm⟩
  · obtain ⟨-, rfl⟩ := Tables.insertCreateAuthority_eq_ok_iff.mp h
    exact ⟨_, rfl⟩

theorem persists_provisionCreateAuthority {provision : CreateAuthorityProvision}
    (h : provisionCreateAuthority t provision = .ok t') : Persists t t' := by
  rw [provisionCreateAuthority] at h
  split at h
  · split at h
    · exact absurd h (by simp)
    · rw [← Except.ok.inj h]
      exact .refl t
  · obtain ⟨hfree, rfl⟩ := Tables.insertCreateAuthority_eq_ok_iff.mp h
    exact
      { capability := fun hrow ↦ ⟨_, hrow, .refl _⟩
        operations := fun _ _ ↦ rfl
        document := fun hdocument ↦ ⟨_, hdocument, rfl, id⟩
        authority := fun hauthority ↦ ⟨_, Table.find?_of_rows_append_list
          (Table.rows_insert _ _ hfree) hauthority, rfl, rfl⟩
        controlReceipt := id
        createReceipt := id
        update := id }

end Renee
