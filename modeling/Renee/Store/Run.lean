import Renee.Library.Sha256
import Renee.Store.Preservation
import Renee.Store.ValidateSpec

/-!
# Runs of the durable state

A `Mutation` is anything that can change the tables: the four writing requests with whatever
arguments, the two statements of an operator, and a close followed by an open.  `Tables.run` carries
out a list of them, one after another, from any tables; a database starts out empty.

* `Effect` is what a mutation does when it does anything, and `Tables.apply_spec` says there is
  nothing else.  Invariants of runs are shown on `Effect` and carried over by `run_induction`.
* `wellFormed_run` and `persists_run` are the two facts every later result about reachable tables
  starts from.
* `validate_run` is what they were for: whatever is done to a database, it can be opened again.
-/

set_option autoImplicit false

namespace Renee

open ByteString Relational Ancestry

/-! ## Mutations -/

/-- The arguments of `accept`: an update with the bytes it was decoded from. -/
structure AcceptCommand where
  capabilityId : CapabilityId
  authenticator : Authenticator
  update : ImmutableUpdate
  encodedRecord : List UInt8
  decoded : decodeUpdateRecord encodedRecord = .ok update

/-- What can change the tables. -/
inductive Mutation
  | create (r : CreateCommand)
  | grant (r : GrantCommand)
  | revoke (r : RevokeCommand)
  | accept (r : AcceptCommand)
  | retire (d : DocumentId)
  | disableCreateAuthority (i : CreateAuthorityId)
  /-- Close the store and open it again. -/
  | reopen (provision : CreateAuthorityProvision)

section Hash

variable (sha256 : List UInt8 → Bytes verifierLength)

/-- The tables a mutation leaves.  A database that cannot be opened stays as it is. -/
def Tables.apply (t : Tables) : Mutation → Tables
  | .create r => (createDocument sha256 t r).2
  | .grant r => (grantCapability sha256 t r).2
  | .revoke r => (revokeCapability sha256 t r).2
  | .accept r =>
    (Renee.accept sha256 t r.capabilityId r.authenticator r.update r.encodedRecord).2
  | .retire d => retireDocument t d
  | .disableCreateAuthority i => Renee.disableCreateAuthority t i
  | .reopen provision =>
    match openTables t provision with
    | .ok t' => t'
    | .error _ => t

/-- The tables a sequence of mutations leaves. -/
def Tables.run (t : Tables) (mutations : List Mutation) : Tables :=
  mutations.foldl (Tables.apply sha256) t

/-- What a mutation does to the tables when it does anything. -/
inductive Effect (t t' : Tables) : Mutation → Prop
  | created {r : CreateCommand} (h : Created sha256 t t' r) : Effect t t' (.create r)
  | granted {r : GrantCommand} {revision : ControlRevision} (h : Granted sha256 t t' r revision) :
    Effect t t' (.grant r)
  | revoked {r : RevokeCommand} {revision : ControlRevision}
    (h : Revoked sha256 t t' r revision) : Effect t t' (.revoke r)
  | accepted {r : AcceptCommand} {row : UpdateRow}
    (h : Accepted sha256 t t' r.capabilityId r.authenticator r.update row)
    (hrecord : row.update? = some r.update) (hbytes : row.encodedRecord = r.encodedRecord) :
    Effect t t' (.accept r)
  | retired {d : DocumentId} (h : t' = retireDocument t d) : Effect t t' (.retire d)
  | disabled {i : CreateAuthorityId} (h : t' = disableCreateAuthority t i) :
    Effect t t' (.disableCreateAuthority i)
  | provisioned {provision : CreateAuthorityProvision}
    (h : provisionCreateAuthority t provision = .ok t') : Effect t t' (.reopen provision)

end Hash

section Runs

variable {sha256 : List UInt8 → Bytes verifierLength} {t t' : Tables} {m : Mutation}

theorem provisionCreateAuthority_of_openTables {provision : CreateAuthorityProvision}
    (h : openTables t provision = .ok t') : provisionCreateAuthority t provision = .ok t' := by
  simp only [openTables, Guard.bind_eq_ok] at h
  obtain ⟨-, -, -, -, h⟩ := h
  exact h

/-- **A mutation has its effect or none.** -/
theorem Tables.apply_spec (sha256 : List UInt8 → Bytes verifierLength) (t : Tables)
    (m : Mutation) :
    t.apply sha256 m = t ∨ Effect sha256 t (t.apply sha256 m) m := by
  cases m with
  | create r =>
    rcases createDocument_spec (Prod.eta (createDocument sha256 t r)).symm with ⟨-, h⟩ | ⟨-, h⟩
    · exact Or.inr (.created h)
    · exact Or.inl h
  | grant r =>
    rcases grantCapability_spec (Prod.eta (grantCapability sha256 t r)).symm with ⟨-, _, h⟩ | ⟨-, h⟩
    · exact Or.inr (.granted h)
    · exact Or.inl h
  | revoke r =>
    rcases revokeCapability_spec (Prod.eta (revokeCapability sha256 t r)).symm with
      ⟨-, _, h⟩ | ⟨-, h⟩
    · exact Or.inr (.revoked h)
    · exact Or.inl h
  | accept r =>
    rcases accept_spec (Prod.eta (Renee.accept sha256 t r.capabilityId r.authenticator r.update
      r.encodedRecord)).symm with ⟨-, row, hbytes, h⟩ | ⟨-, h⟩
    · refine Or.inr (.accepted h ?_ hbytes)
      rw [UpdateRow.update?_eq_some_iff, hbytes]
      exact r.decoded
    · exact Or.inl h
  | retire d => exact Or.inr (.retired rfl)
  | disableCreateAuthority i => exact Or.inr (.disabled rfl)
  | reopen provision =>
    rw [Tables.apply]
    split
    · rename_i t' h
      exact Or.inr (.provisioned (provisionCreateAuthority_of_openTables h))
    · exact Or.inl rfl

theorem Effect.wellFormed (h : Effect sha256 t t' m) (hw : WellFormed t) : WellFormed t' := by
  cases h with
  | created h => exact h.wellFormed hw
  | granted h => exact h.wellFormed hw
  | revoked h => exact h.wellFormed hw
  | accepted h hrecord _ => exact h.wellFormed hw hrecord
  | retired h => exact h ▸ wellFormed_retireDocument hw
  | disabled h => exact h ▸ wellFormed_disableCreateAuthority hw
  | provisioned h => exact wellFormed_provisionCreateAuthority h hw

theorem Effect.persists (h : Effect sha256 t t' m) (hw : WellFormed t) : Persists t t' := by
  cases h with
  | created h => exact h.persists (hw.control.capability?_of_document? h.document_fresh _)
  | granted h => exact h.persists
  | revoked h => exact h.persists
  | accepted h _ _ => exact h.persists
  | retired h => exact h ▸ persists_retireDocument t _
  | disabled h => exact h ▸ persists_disableCreateAuthority t _
  | provisioned h => exact persists_provisionCreateAuthority h

/-- **The rule for runs**: what holds of nothing done and survives every effect on well-formed
tables, with the mutations done so far as the history, holds at the end. -/
theorem run_induction_history {P : List Mutation → Tables → Prop}
    (hnone : ∀ done m t, P done t → P (done ++ [m]) t)
    (hstep : ∀ done m t t', WellFormed t → P done t → Effect sha256 t t' m → P (done ++ [m]) t')
    (hw : WellFormed t) (h : P [] t) (mutations : List Mutation) :
    WellFormed (t.run sha256 mutations) ∧ P mutations (t.run sha256 mutations) := by
  induction mutations using List.reverseRecOn with
  | nil => exact ⟨hw, h⟩
  | append_singleton done m ih =>
    obtain ⟨hw', hP⟩ := ih
    have hrun : t.run sha256 (done ++ [m]) = (t.run sha256 done).apply sha256 m := by
      rw [Tables.run, List.foldl_append]
      rfl
    rw [hrun]
    rcases (t.run sha256 done).apply_spec sha256 m with heq | heffect
    · rw [heq]
      exact ⟨hw', hnone done m _ hP⟩
    · exact ⟨heffect.wellFormed hw', hstep done m _ _ hw' hP heffect⟩

/-- The rule where the history does not matter. -/
theorem run_induction {P : Tables → Prop}
    (hstep : ∀ t t' m, WellFormed t → P t → Effect sha256 t t' m → P t') (hw : WellFormed t)
    (h : P t) (mutations : List Mutation) :
    WellFormed (t.run sha256 mutations) ∧ P (t.run sha256 mutations) :=
  run_induction_history (P := fun _ ↦ P) (fun _ _ _ hP ↦ hP)
    (fun _ m t t' hw hP heffect ↦ hstep t t' m hw hP heffect) hw h mutations

theorem wellFormed_run (hw : WellFormed t) (mutations : List Mutation) :
    WellFormed (t.run sha256 mutations) :=
  (run_induction (P := fun _ ↦ True) (fun _ _ _ _ _ _ ↦ trivial) hw trivial mutations).1

/-- What the tables hold is never taken away. -/
theorem persists_run (hw : WellFormed t) (mutations : List Mutation) :
    Persists t (t.run sha256 mutations) :=
  (run_induction (P := Persists t) (fun _ _ _ hw hp heffect ↦ hp.trans (heffect.persists hw)) hw
    (.refl t) mutations).2

/-- A capability that an effect brings about is the root of a creation or the descendant of a
grant. -/
theorem Effect.capability_new (h : Effect sha256 t t' m) (hw : WellFormed t) {d : DocumentId}
    {c : CapabilityId} {row : CapabilityRow} (hnone : t.capability? d c = none)
    (hrow : t'.capability? d c = some row) :
    (∃ r, m = .create r ∧ Created sha256 t t' r ∧ d = r.documentId ∧ c = r.rootCapabilityId ∧
      row = r.rootRow sha256) ∨
    ∃ r revision, m = .grant r ∧ Granted sha256 t t' r revision ∧ d = r.documentId ∧
      c = r.descendantCapabilityId ∧ row = r.descendantRow sha256 revision := by
  -- no other effect touches which capabilities there are
  have habsurd : ∀ {P : Prop}, (t'.capability? d c = none) → P := fun h ↦
    absurd (h.symm.trans hrow) (by simp)
  cases h with
  | @created r h =>
    have hat := h.attached (hw.control.capability?_of_document? h.document_fresh _)
    rcases hat.capability?_cases hrow with ⟨rfl, rfl, rfl⟩ | hold
    · exact Or.inl ⟨r, rfl, h, rfl, rfl, rfl⟩
    · exact absurd (hnone.symm.trans hold) (by simp)
  | @granted r revision h =>
    rcases h.attached.capability?_cases hrow with ⟨rfl, rfl, rfl⟩ | hold
    · exact Or.inr ⟨r, revision, rfl, h, rfl, rfl, rfl⟩
    · exact absurd (hnone.symm.trans hold) (by simp)
  | revoked h =>
    exact habsurd (by rw [capability?_of_revokeIn h.capabilities, hnone]; rfl)
  | accepted h _ _ => exact habsurd (by rw [Tables.capability?, h.capabilities]; exact hnone)
  | retired h => exact habsurd (by rw [h]; exact hnone)
  | disabled h => exact habsurd (by rw [h]; exact hnone)
  | provisioned h =>
    obtain ⟨createAuthorities, rfl⟩ := provisionCreateAuthority_eq_ok h
    exact habsurd hnone

/-- The chain of a capability is there in full when the capability is, so it stays as it is. -/
theorem Persists.ancestor_eq (hp : Persists t t') (hw : ControlWellFormed t) {d : DocumentId}
    {c : CapabilityId} {row : CapabilityRow} (hrow : t.capability? d c = some row) (n : ℕ) :
    ancestor (t'.parent? d) n c = ancestor (t.parent? d) n c := by
  refine ancestor_congr (fun x hx ↦ ?_) n
  obtain ⟨above, habove⟩ := (hw.forest d).exists_of_descends hrow hx
  obtain ⟨above', habove', hkeep⟩ := hp.capability habove
  rw [Tables.parent?_eq habove, Tables.parent?_eq habove', hkeep.parent]

theorem Persists.descends_iff (hp : Persists t t') (hw : ControlWellFormed t) {d : DocumentId}
    {c x : CapabilityId} {row : CapabilityRow} (hrow : t.capability? d c = some row) :
    Descends (t'.parent? d) c x ↔ Descends (t.parent? d) c x :=
  exists_congr fun n ↦ by rw [hp.ancestor_eq hw hrow]

theorem Tables.run_append (t : Tables) (before after : List Mutation) :
    t.run sha256 (before ++ after) = (t.run sha256 before).run sha256 after :=
  List.foldl_append

/-! ## What is durable can be opened -/

/-- **Whatever is done to a database, it can be opened again.**  Validation accepts the tables any
run leaves: each of the clauses is there, and each of the limits is kept — that on bytes too, which
a creation does not look at. -/
theorem validate_run (sha256 : List UInt8 → Bytes verifierLength) (mutations : List Mutation) :
    let t := Tables.empty.run sha256 mutations
    validate t = .ok () ∧ foreignKeysHold t = true ∧
    (∀ provision, openTables t provision = provisionCreateAuthority t provision) ∧
    -- one root capability for each document
    (∀ d document, t.document? d = some document →
      ∃! c, ∃ row, t.capability? d c = some row ∧ row.parentCapabilityId = none) ∧
    -- that every chain reaches within the bound
    (∀ d c row, t.capability? d c = some row →
      (∃ document, t.document? d = some document ∧
        Descends (t.parent? d) c document.rootCapabilityId) ∧
      Within (t.parent? d) maxCapabilityDepth c) ∧
    -- along edges that attenuate, age and pass revocation on
    (∀ d c row p, t.capability? d c = some row → row.parentCapabilityId = some p →
      ∃ row', t.capability? d p = some row' ∧
        (loadOperationSet t d p).allows (loadOperationSet t d c) = true ∧
        row'.createdRevision.get < row.createdRevision.get ∧
        (row'.revoked = true → row.revoked = true)) ∧
    -- the revision counts the receipts, which agree with what they name
    (∀ d document, t.document? d = some document →
      document.controlRevision.get = receiptCount t d + 1) ∧
    (∀ receipt ∈ t.controlReceipts.rows, ControlReceiptAgrees t receipt) ∧
    (∀ receipt ∈ t.createReceipts.rows, CreateReceiptAgrees t receipt) ∧
    -- positions are consecutive, and the derived tables are derived from the records
    (∀ d, (t.log d).map (fun row ↦ row.acceptanceSequence.get) =
      List.range' 1 ((nextSequence t d).get - 1)) ∧
    t.updateLoroRanges.rows.Perm (t.updates.rows.flatMap UpdateRow.rangeRows) ∧
    (∀ d peer, (t.documentLoroPeers.find? (d, peer)).isSome = true ↔
      ∃ row ∈ t.log d, peer ∈ row.peers) ∧
    -- every limit on one document, one capability and one authority
    (∀ d, capabilityCount t d ≤ maxCapabilitiesPerDocument ∧
      receiptCount t d ≤ maxControlReceiptsPerDocument ∧ peerCount t d ≤ maxLoroPeers ∧
      documentControlBytes t d ≤ maxDocumentControlBytes) ∧
    (∀ d p, childCount t d p ≤ maxDirectCapabilityChildren) ∧
    (∀ i, authorityDocumentCount t i ≤ maxDocumentsPerCreateAuthority) ∧
    -- and every limit on the store
    t.documents.rows.length ≤ maxGlobalDocuments ∧
    t.createReceipts.rows.length ≤ maxGlobalCreateReceipts ∧
    t.capabilities.rows.length ≤ maxGlobalCapabilities ∧
    t.controlReceipts.rows.length ≤ maxGlobalControlReceipts ∧
    globalControlBytes t ≤ maxGlobalControlBytes := by
  intro t
  have hw : WellFormed t := wellFormed_run wellFormed_empty mutations
  have hc := hw.control
  have hl := hw.log
  refine ⟨validate_of_wellFormed hw, foreignKeysHold_of_wellFormed hw, openTables_of_wellFormed hw,
    ?_, fun d c row hrow ↦ ⟨hc.descends_root hrow, hc.within hrow⟩, ?_, fun d _ ↦ hc.revision,
    fun _ ↦ hc.receipt, fun _ ↦ hc.createReceipt, fun d ↦ ?_, hl.ranges, fun d peer ↦ hl.peers,
    fun d ↦ ⟨hc.capabilityCount_le d, hc.receiptCount_le d, hl.peerCount_le d,
      documentControlBytes_le hc d⟩, hc.childCount_le, hc.authorityDocumentCount_le,
    hc.documents_le, ?_, hc.capabilities_le, hc.receipts_le, globalControlBytes_le hc⟩
  · intro d document hdocument
    obtain ⟨root, hroot, hnone, -⟩ := hc.root hdocument
    refine ⟨_, ⟨root, hroot, hnone⟩, ?_⟩
    rintro c ⟨row, hrow, hnone'⟩
    obtain ⟨document', hdocument', rfl⟩ := hc.root_unique hrow hnone'
    rw [Option.some_inj.mp (hdocument.symm.trans hdocument')]
  · intro d c row p hrow hp
    obtain ⟨row', hrow', hlt, hops, hrev⟩ := hc.edge hrow hp
    refine ⟨row', hrow', OperationSet.allows_iff.mpr
      ⟨hc.loadOperationSet_isEmpty hrow, fun operation ↦ ?_⟩, hlt, hrev⟩
    rw [contains_loadOperationSet, contains_loadOperationSet]
    exact hops operation
  · rw [hl.nextSequence_eq, Nat.add_sub_cancel]
    exact hl.positions d
  · have hmax : maxGlobalDocuments ≤ maxGlobalCreateReceipts := by decide
    rw [← hc.createReceipts_length]
    exact hc.documents_le.trans hmax

end Runs

/-! ## A small deployment

One create authority, one document, a root capability and one below it: enough to run every
operation on. -/

namespace Sample

def bytes (n : ℕ) (b : UInt8) : Bytes n := ⟨List.replicate n b, List.length_replicate⟩

def secret (b : UInt8) : Authenticator := ⟨bytes _ b⟩
def authority : CreateAuthorityId := ⟨bytes _ 1⟩
def document : DocumentId := ⟨bytes _ 2⟩
def root : CapabilityId := ⟨bytes _ 3⟩
def child : CapabilityId := ⟨bytes _ 4⟩

def provision : CreateAuthorityProvision :=
  let verifiers := deriveCreate Sha256.hash authority (secret 1)
  ⟨authority, verifiers.live, verifiers.receipt⟩

def create : CreateCommand := ⟨authority, secret 1, ⟨bytes _ 1⟩, document, root, secret 2⟩
def grant : GrantCommand := ⟨document, root, secret 2, ⟨bytes _ 2⟩, child, secret 3, .full⟩
def revoke : RevokeCommand := ⟨document, root, secret 2, ⟨bytes _ 3⟩, child⟩

/-- A grant by the child. -/
def childGrant : GrantCommand :=
  ⟨document, child, secret 3, ⟨bytes _ 4⟩, ⟨bytes _ 5⟩, secret 4, .one .read⟩

/-- Up to and including the grant. -/
def setup : List Mutation := [.reopen provision, .create create, .grant grant]

/-- A second document, whose root has the identifier and the secret of the first one's. -/
def otherCreate : CreateCommand :=
    { create with requestId := ⟨bytes _ 2⟩, documentId := ⟨bytes _ 6⟩ }

/-- The same grant, on the second document. -/
def otherGrant : GrantCommand := { grant with documentId := ⟨bytes _ 6⟩ }

/-- Both documents, and in the first one a grant by the child. -/
def families : List Mutation :=
  setup ++ [.grant childGrant, .create otherCreate, .grant otherGrant]

end Sample

end Renee
