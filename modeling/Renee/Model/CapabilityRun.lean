import Renee.Model.CapabilityAgreement

/-!
# The store beside the capability oracle

`Conformance` is a store and an oracle that receive the same requests, as the conformance tests run
them.  Documents are created in both; grants and revocations follow.

* `simulates_sendAll` is the run lemma: as long as no chain has 64 nodes the two stay related.
* `capability_model_agrees_iff` says exactly when they agree: the oracle gives the outcomes and the
  decisions of the store in every state of a run if and only if no state of it has a chain of
  64 nodes.
* `deep_chain_denied` is a run that has one.  The oracle itself grants its last capability and then
  does not authorize it.
-/

set_option autoImplicit false

namespace Renee

open ByteString Relational Ancestry

/-! ## Running both -/

/-- A grant of something, or a revocation. -/
inductive CapabilityRequest
  | grant (r : GrantCommand) (nonempty : r.operations.isEmpty = false)
  | revoke (r : RevokeCommand)

/-- What documents are set up with. -/
inductive SetupStep
  /-- Open the store with a create authority. -/
  | provision (provision : CreateAuthorityProvision)
  | create (r : CreateCommand)

/-- A store and an oracle. -/
structure Conformance where
  tables : Tables
  model : CapabilityModel

section Hash

variable (sha256 : List UInt8 → Bytes verifierLength)

namespace CapabilityRequest

/-- What the store does. -/
def store (t : Tables) : CapabilityRequest → Except StoreError StoreControlOutcome × Tables
  | .grant r _ => grantCapability sha256 t r
  | .revoke r => revokeCapability sha256 t r

/-- What the oracle does. -/
def oracle (m : CapabilityModel) : CapabilityRequest → ControlOutcome × CapabilityModel
  | .grant r _ => m.grant sha256 r
  | .revoke r => m.revoke sha256 r

end CapabilityRequest

namespace Conformance

/-- A document the store creates is created in the oracle, with the same root. -/
def setUp (s : Conformance) : SetupStep → Conformance
  | .provision provision => { s with tables := s.tables.apply sha256 (.reopen provision) }
  | .create r =>
    match createDocument sha256 s.tables r with
    | (.ok .inserted, tables) => ⟨tables, (s.model.createDocument sha256 r.documentId
        r.rootCapabilityId r.rootAuthenticator).2⟩
    | (_, tables) => { s with tables }

/-- Both with some documents. -/
def start (setup : List SetupStep) : Conformance :=
  setup.foldl (setUp sha256) ⟨.empty, .empty⟩

/-- One request, to both. -/
def send (s : Conformance) (q : CapabilityRequest) : Conformance :=
  ⟨(q.store sha256 s.tables).2, (q.oracle sha256 s.model).2⟩

def sendAll (s : Conformance) (requests : List CapabilityRequest) : Conformance :=
  requests.foldl (send sha256) s

/-- A request gets the same answer from both. -/
def OutcomesAgree (s : Conformance) (q : CapabilityRequest) : Prop :=
  (q.store sha256 s.tables).1 = .ok (q.oracle sha256 s.model).1.toStore

/-- Both authorize the same operations of the same capabilities for the same secrets. -/
def DecisionsAgree (s : Conformance) : Prop :=
  ∀ d c a operation, s.model.authorizes sha256 d c a operation = true ↔
    authorizeDocument sha256 s.tables d c a operation = .authorized

/-- Related, and in order. -/
structure Related (s : Conformance) : Prop where
  wellFormed : WellFormed s.tables
  simulates : Simulates s.tables s.model

end Conformance

end Hash

/-! ## What a run keeps -/

namespace Conformance

variable {sha256 : List UInt8 → Bytes verifierLength} {s : Conformance}

theorem Related.decisionsAgree (h : s.Related) (hs : s.tables.Shallow) :
    s.DecisionsAgree sha256 := fun d c a operation ↦ by
  rw [h.simulates.authorizes_eq h.wellFormed.control hs, authorize, decide_eq_true_eq]

/-- One request on shallow tables. -/
theorem Related.send (h : s.Related) (hs : s.tables.Shallow) {q : CapabilityRequest}
    (hlimit : (q.store sha256 s.tables).1 ≠ .ok .limitExceeded) :
    s.OutcomesAgree sha256 q ∧ (s.send sha256 q).Related := by
  have hw := h.wellFormed
  cases q with
  | grant r hne =>
    obtain ⟨houtcome, hsim⟩ := grant_agrees h.simulates hw.control hs hne hlimit
    exact ⟨houtcome, wellFormed_run hw [.grant r], hsim⟩
  | revoke r =>
    obtain ⟨houtcome, hsim⟩ := revoke_agrees h.simulates hw.control hs hlimit
    exact ⟨houtcome, wellFormed_run hw [.revoke r], hsim⟩

theorem related_empty : (⟨.empty, .empty⟩ : Conformance).Related ∧ Tables.empty.Shallow :=
  ⟨⟨wellFormed_empty, ⟨fun _ ↦ rfl, fun h ↦ absurd h (by simp [Tables.empty, Tables.document?]),
    fun h ↦ absurd h (by simp [CapabilityModel.empty])⟩⟩,
    fun _ _ _ h ↦ absurd h (by simp [Tables.empty, Tables.capability?])⟩

theorem Related.setUp (h : s.Related) (hs : s.tables.Shallow) (step : SetupStep) :
    (s.setUp sha256 step).Related ∧ (s.setUp sha256 step).tables.Shallow := by
  have hw := h.wellFormed
  cases step with
  | provision provision =>
    have hw' : WellFormed (s.tables.run sha256 [.reopen provision]) := wellFormed_run hw _
    rcases s.tables.apply_spec sha256 (.reopen provision) with heq | heffect
    · rw [Conformance.setUp, heq]
      exact ⟨h, hs⟩
    · cases heffect with
      | provisioned hp =>
        obtain ⟨createAuthorities, heq⟩ := provisionCreateAuthority_eq_ok hp
        have hsim := h.simulates
        rw [Conformance.setUp, heq]
        rw [show s.tables.run sha256 [.reopen provision] = s.tables.apply sha256
          (.reopen provision) from rfl, heq] at hw'
        exact ⟨⟨hw', hsim.revision, hsim.active, fun hm ↦
          ⟨(hsim.document hm).capability, (hsim.document hm).receipt⟩⟩, hs⟩
  | create r =>
    rw [Conformance.setUp]
    rcases createDocument_spec (Prod.eta (createDocument sha256 s.tables r)).symm with
      ⟨hresult, hc⟩ | ⟨hresult, heq⟩
    · have hat := hc.attached (hw.control.capability?_of_document? hc.document_fresh _)
      rw [← Prod.eta (createDocument sha256 s.tables r), hresult]
      refine ⟨⟨hc.wellFormed hw, hc.simulates hw.control h.simulates⟩, fun d c row hrow ↦ ?_⟩
      rcases hat.capability?_cases hrow with ⟨rfl, rfl, rfl⟩ | hold
      · refine within_succ_iff (n := maxCapabilityDepth - 2).mpr fun p hp ↦ ?_
        rw [Tables.parent?_eq hrow] at hp
        exact absurd hp (by simp [CreateCommand.rootRow])
      · exact hat.within_old hw.control hold (hs d c row hold)
    · split
      · rename_i hinserted
        exact absurd (congrArg Prod.fst hinserted) hresult
      · rename_i tables _ htables
        obtain rfl : tables = s.tables := by rw [← heq, htables]
        exact ⟨h, hs⟩

variable (sha256) in
theorem related_start (setup : List SetupStep) :
    (start sha256 setup).Related ∧ (start sha256 setup).tables.Shallow :=
  List.foldlRecOn (motive := fun s : Conformance ↦ s.Related ∧ s.tables.Shallow) setup _
    related_empty fun _ h step _ ↦ h.1.setUp h.2 step

theorem sendAll_append_singleton (s : Conformance) (before : List CapabilityRequest)
    (q : CapabilityRequest) :
    s.sendAll sha256 (before ++ [q]) = (s.sendAll sha256 before).send sha256 q := by
  rw [sendAll, List.foldl_append, List.foldl_cons, List.foldl_nil]
  rfl

/-- The capability a grant adds is authorized by the store. -/
theorem Related.authorized_of_granted (h : s.Related) {r : GrantCommand}
    {revision : ControlRevision} {t : Tables} (hg : Granted sha256 s.tables t r revision)
    {m : CapabilityModel} (hsim : Simulates t m) {operation : Operation}
    (hop : r.operations.contains operation = true) :
    authorizeDocument sha256 t r.documentId r.descendantCapabilityId r.descendantAuthenticator
      operation = .authorized := by
  have hw := h.wellFormed.control
  have hw' := hg.controlWellFormed hw
  have hrow := hg.attached.capability?_self
  obtain ⟨-, document, -, hdocument, -, hactive⟩ := hsim.document_of_capability hw' hrow
  have hauth : authorize sha256 t r.documentId r.descendantCapabilityId r.descendantAuthenticator
      operation = true := by
    refine (hw'.forest _).authorize_iff.mpr
      ⟨⟨_, hrow, rfl, verifyLive_derive, ?_⟩, document, hdocument, hactive⟩
    exact (hg.attached.hasOperation_self hw operation).trans hop
  exact of_decide_eq_true hauth

/-- **A chain of 64 nodes shows**: where the decisions agree afterwards, there is none. -/
theorem Related.shallow_send (h : s.Related) (hs : s.tables.Shallow) {q : CapabilityRequest}
    (hsim : Simulates (s.send sha256 q).tables (s.send sha256 q).model)
    (hagree : (s.send sha256 q).DecisionsAgree sha256) : (s.send sha256 q).tables.Shallow := by
  have hw := h.wellFormed.control
  intro d c row hrow
  cases q with
  | grant r hne =>
    rcases s.tables.apply_spec sha256 (.grant r) with heq | heffect
    · rw [show (s.send sha256 (.grant r hne)).tables = s.tables from heq] at hrow ⊢
      exact hs d c row hrow
    · cases heffect with
      | granted hg =>
        have hat := hg.attached
        rcases hat.capability?_cases hrow with ⟨rfl, rfl, rfl⟩ | hold
        · obtain ⟨operation, hop⟩ : ∃ operation, r.operations.contains operation = true := by
            by_contra hnone
            have hempty : r.operations.isEmpty = true :=
              OperationSet.isEmpty_iff.mpr (by simpa using hnone)
            rw [hne] at hempty
            exact absurd hempty (by simp)
          have hauth := (hagree _ _ r.descendantAuthenticator operation).mpr
            (h.authorized_of_granted hg hsim hop)
          exact ((hsim.authorizes_iff (hg.controlWellFormed hw)).mp hauth).2
        · exact hat.within_old hw hold (hs d c row hold)
  | revoke r =>
    rcases s.tables.apply_spec sha256 (.revoke r) with heq | heffect
    · rw [show (s.send sha256 (.revoke r)).tables = s.tables from heq] at hrow ⊢
      exact hs d c row hrow
    · cases heffect with
      | revoked hr =>
        obtain ⟨old, hold, -⟩ := hr.capability?_some hrow
        rw [show (s.send sha256 (.revoke r)).tables.parent? d = s.tables.parent? d from
          hr.parent?_eq d]
        exact hs d c old hold

/-- **The two stay related while no chain has 64 nodes.** -/
theorem simulates_sendAll (h : s.Related) {requests : List CapabilityRequest}
    (hlimit : ∀ before q, before ++ [q] <+: requests →
      (q.store sha256 (s.sendAll sha256 before).tables).1 ≠ .ok .limitExceeded)
    (hshallow : ∀ before, before <+: requests → before ≠ requests →
      (s.sendAll sha256 before).tables.Shallow) {before : List CapabilityRequest}
    (hbefore : before <+: requests) : (s.sendAll sha256 before).Related := by
  induction before using List.reverseRecOn with
  | nil => exact h
  | append_singleton before q ih =>
    have hprefixed := (List.prefix_append before [q]).trans hbefore
    have hne : before ≠ requests := by
      rintro rfl
      exact absurd hbefore.length_le (by simp)
    rw [sendAll_append_singleton]
    exact ((ih hprefixed).send (hshallow before hprefixed hne) (hlimit before q hbefore)).2

end Conformance

/-! ## When they agree -/

open Conformance in
/-- **The store and the oracle agree exactly on runs without a chain of 64 nodes.**  Any documents
are created in both, and grants and revocations follow of which the store answers none
`LimitExceeded`.  Every request gets the same outcome from both and every decision is the same
after every prefix, if and only if in no state of the run a capability is the last of 64 on its
chain. -/
theorem capability_model_agrees_iff (sha256 : List UInt8 → Bytes verifierLength)
    (setup : List SetupStep) (requests : List CapabilityRequest)
    (hlimit : ∀ before q, before ++ [q] <+: requests →
      (q.store sha256 ((start sha256 setup).sendAll sha256 before).tables).1 ≠
        .ok .limitExceeded) :
    ((∀ before q, before ++ [q] <+: requests →
        ((start sha256 setup).sendAll sha256 before).OutcomesAgree sha256 q) ∧
      ∀ before, before <+: requests →
        ((start sha256 setup).sendAll sha256 before).DecisionsAgree sha256) ↔
    ∀ before, before <+: requests →
      ((start sha256 setup).sendAll sha256 before).tables.Shallow := by
  obtain ⟨hstart, hshallow⟩ := related_start sha256 setup
  constructor
  · rintro ⟨-, hdecisions⟩
    -- shallow so far, so related one request on, so shallow there
    suffices hboth : ∀ before, before <+: requests →
        ((start sha256 setup).sendAll sha256 before).Related ∧
          ((start sha256 setup).sendAll sha256 before).tables.Shallow from
      fun before hbefore ↦ (hboth before hbefore).2
    intro before
    induction before using List.reverseRecOn with
    | nil => exact fun _ ↦ ⟨hstart, hshallow⟩
    | append_singleton before q ih =>
      intro hbefore
      obtain ⟨hrelated, hs⟩ := ih ((List.prefix_append before [q]).trans hbefore)
      have hagree := hdecisions _ hbefore
      rw [sendAll_append_singleton] at hagree ⊢
      have hnext := (hrelated.send hs (hlimit before q hbefore)).2
      exact ⟨hnext, hrelated.shallow_send hs hnext.simulates hagree⟩
  · intro hall
    have hrelated : ∀ before, before <+: requests →
        ((start sha256 setup).sendAll sha256 before).Related := fun _ hbefore ↦
      simulates_sendAll hstart hlimit (fun b hb _ ↦ hall b hb) hbefore
    refine ⟨fun before q hbefore ↦ ?_, fun before hbefore ↦ ?_⟩
    · have hprefixed := (List.prefix_append before [q]).trans hbefore
      exact ((hrelated before hprefixed).send (hall before hprefixed) (hlimit before q hbefore)).1
    · exact (hrelated before hbefore).decisionsAgree (hall before hbefore)

/-! ## The deepest chain

A root and 63 grants, each by the capability granted last.  The store admits them all. -/

namespace Chain

/-- SHA-256, at the length of a verifier. -/
@[irreducible] def sha256 : List UInt8 → Bytes verifierLength := Sha256.hash

def node (i : ℕ) : CapabilityId := ⟨Bytes.ofNat _ i⟩

theorem node_inj {i j : ℕ} (hi : i ≤ maxCapabilityDepth) (hj : j ≤ maxCapabilityDepth)
    (h : node i = node j) : i = j := by
  have hsmall : ∀ {k}, k ≤ maxCapabilityDepth → k < 256 ^ identifierLength := fun hk ↦
    lt_of_le_of_lt hk (by decide)
  have hnat := congrArg (fun c : CapabilityId ↦ c.bytes.toNat) h
  rwa [node, node, Bytes.toNat_ofNat (hsmall hi), Bytes.toNat_ofNat (hsmall hj)] at hnat

def create : CreateCommand :=
  ⟨Sample.authority, Sample.secret 1, ⟨Sample.bytes _ 1⟩, Sample.document, node 0, Sample.secret 2⟩

def provision : CreateAuthorityProvision :=
  let verifiers := deriveCreate sha256 Sample.authority (Sample.secret 1)
  ⟨Sample.authority, verifiers.live, verifiers.receipt⟩

def setup : List SetupStep := [.provision provision, .create create]

/-- The grant below the capability `i`. -/
def link (i : ℕ) : GrantCommand :=
  ⟨Sample.document, node i, Sample.secret 2, ⟨Sample.bytes _ 2⟩, node (i + 1), Sample.secret 2,
    .full⟩

def request (i : ℕ) : CapabilityRequest := .grant (link i) rfl

def requests (n : ℕ) : List CapabilityRequest := (List.range n).map request

/-- The tables after `n` of the grants. -/
structure Built (sha256 : List UInt8 → Bytes verifierLength) (t : Tables) (n : ℕ) : Prop where
  capability : ∀ i ≤ n, ∃ row, t.capability? Sample.document (node i) = some row ∧
    row.revoked = false ∧
    row.liveVerifier = (derive sha256 Sample.document (node i) (Sample.secret 2)).live
  operation : ∀ i ≤ n, ∀ operation, t.hasOperation Sample.document (node i) operation = true
  root : t.parent? Sample.document (node 0) = none
  parent : ∀ i < n, t.parent? Sample.document (node (i + 1)) = some (node i)
  only : ∀ d c row, t.capability? d c = some row → d = Sample.document ∧ ∃ i ≤ n, c = node i
  receipts : ∀ receipt ∈ t.controlReceipts.rows, ∃ i < n, receipt.issuerCapabilityId = node i
  length_capabilities : t.capabilities.rows.length = n + 1
  length_receipts : t.controlReceipts.rows.length = n

namespace Built

variable {sha256 : List UInt8 → Bytes verifierLength} {t : Tables} {n : ℕ}
  (h : Built sha256 t n)
include h

theorem ancestor_node {i : ℕ} (hi : i ≤ n) :
    ancestor (t.parent? Sample.document) i (node i) = some (node 0) := by
  induction i with
  | zero => rfl
  | succ i ih =>
    rw [ancestor_succ_of_some (h.parent i (by omega))]
    exact ih (by omega)

theorem within_iff {i k : ℕ} (hi : i ≤ n) :
    Within (t.parent? Sample.document) k (node i) ↔ i < k := by
  constructor
  · intro hw
    by_contra hki
    have hnone := hw.mono (Nat.le_of_not_lt hki)
    rw [Within, h.ancestor_node hi] at hnone
    exact absurd hnone (by simp)
  · intro hik
    refine Within.mono ?_ (Nat.succ_le_of_lt hik)
    rw [Within, ancestor_succ', h.ancestor_node hi, Option.bind_some, h.root]

theorem shallow_iff : t.Shallow ↔ n < maxCapabilityDepth - 1 := by
  constructor
  · intro hs
    obtain ⟨row, hrow, -⟩ := h.capability n le_rfl
    exact (h.within_iff le_rfl).mp (hs _ _ row hrow)
  · intro hn d c row hrow
    obtain ⟨rfl, i, hi, rfl⟩ := h.only d c row hrow
    exact (h.within_iff hi).mpr (by omega)

theorem bears {i : ℕ} (hi : i ≤ n) (operation : Operation) :
    t.Bears sha256 Sample.document (node i) (Sample.secret 2) operation := by
  obtain ⟨row, hrow, hrev, hlive⟩ := h.capability i hi
  exact ⟨row, hrow, hrev, decide_eq_true hlive, h.operation i hi operation⟩

/-- Far from every limit. -/
theorem within_limits (hw : ControlWellFormed t) (hn : n < maxCapabilityDepth - 1) :
    controlLimitsExceeded t Sample.document (some (node n)) true (link n).operations.countOnes
      ((link n).input sha256).length = false := by
  have hcaps := h.length_capabilities
  have hreceipts := h.length_receipts
  have hbytes := controlBytesWhere_le hw fun d ↦ decide (d = Sample.document)
  have hglobal := controlBytesWhere_le hw fun _ ↦ true
  rw [← documentControlBytes_eq] at hbytes
  rw [← globalControlBytes_eq] at hglobal
  have hcapsLe := List.length_filter_le (fun row : CapabilityRow ↦
    decide (row.documentId = Sample.document)) t.capabilities.rows
  have hreceiptsLe := List.length_filter_le (fun row : ControlReceiptRow ↦
    decide (row.documentId = Sample.document)) t.controlReceipts.rows
  simp only [List.filter_true] at hglobal
  have hchild : childCount t Sample.document (node n) ≤ t.capabilities.rows.length :=
    List.countP_le_length
  have hcount : capabilityCount t Sample.document ≤ t.capabilities.rows.length :=
    List.countP_le_length
  have hreceiptCount : receiptCount t Sample.document ≤ t.controlReceipts.rows.length :=
    List.countP_le_length
  have hinput : ((link n).input sha256).length = 82 := length_grantInput ..
  have hones : (link n).operations.countOnes = 10 := show OperationSet.full.countOnes = 10 by decide
  simp only [maxCapabilityDepth] at hn
  rw [controlLimitsExceeded, hinput, hones, if_neg, if_neg]
  · simp only [additionalControlBytes, if_true, Bool.or_eq_false_iff, decide_eq_false_iff_not,
      not_lt, identifierLength, verifierLength, maxDocumentControlBytes, maxGlobalControlBytes]
    omega
  · simp only [maxCapabilitiesPerDocument, maxGlobalCapabilities, maxControlReceiptsPerDocument,
      maxGlobalControlReceipts]
    omega
  · rw [Option.any_some, decide_eq_true_eq, maxDirectCapabilityChildren]
    omega

/-- **The next grant is admitted.** -/
theorem granted (hw : ControlWellFormed t) (hn : n < maxCapabilityDepth - 1)
    {document : DocumentRow} (hdocument : t.document? Sample.document = some document)
    (hactive : document.retired = false) :
    (grantCapability sha256 t (link n)).1 = .ok .inserted := by
  obtain ⟨row, hrow, -⟩ := h.capability n le_rfl
  have hfresh : t.capability? Sample.document (node (n + 1)) = none := by
    rw [Option.eq_none_iff_forall_ne_some]
    intro old hold
    obtain ⟨-, i, hi, heq⟩ := h.only _ _ _ hold
    exact absurd (node_inj (by omega) (by omega) heq) (by omega)
  have hrequest : t.controlReceipts.find? (Sample.document, node n, (link n).requestId) = none := by
    refine Table.find?_eq_none_iff.mpr fun receipt hreceipt hkey ↦ ?_
    obtain ⟨i, hi, heq⟩ := h.receipts receipt hreceipt
    have hissuer : receipt.issuerCapabilityId = node n := congrArg (fun k ↦ k.2.1) hkey
    exact absurd (node_inj (by omega) (by omega) (heq.symm.trans hissuer)) (by omega)
  have hfree : ∀ operation,
      t.hasOperation Sample.document (node (n + 1)) operation = false := by
    intro operation
    rw [← Bool.not_eq_true]
    intro hop
    obtain ⟨old, hold⟩ := hw.operation_capability hop
    rw [hfresh] at hold
    exact absurd hold (by simp)
  have hrevision : document.controlRevision.get + 1 < 2 ^ 64 := by
    have hget := hw.revision hdocument
    have hcount := hw.receiptCount_le Sample.document
    simp only [maxControlReceiptsPerDocument] at hcount
    omega
  have hauth : authorize sha256 t Sample.document (node n) (Sample.secret 2) .grant = true :=
    (hw.forest _).authorize_iff.mpr ⟨h.bears le_rfl .grant, document, hdocument, hactive⟩
  have hallows : (loadOperationSet t Sample.document (node n)).allows .full = true :=
    OperationSet.allows_iff.mpr ⟨by decide, fun operation _ ↦ by
      rw [contains_loadOperationSet, h.operation n le_rfl]⟩
  have hcapacity : issuerHasDescendantCapacity t Sample.document (node n) = true :=
    (hw.forest _).issuerHasDescendantCapacity_iff.mpr
      ⟨⟨row, hrow⟩, (h.within_iff le_rfl).mpr hn⟩
  have hadmitted : GrantAdmitted sha256 t (link n) ⟨_, Nat.succ_pos _, hrevision⟩ :=
    { operations := rfl
      request_fresh := hrequest
      authorized := hauth
      next_revision := nextControlRevision_eq_some_iff.mpr ⟨document, hdocument, hactive, rfl⟩
      attenuated := hallows
      descendant_fresh := hfresh
      capacity := hcapacity }
  exact grantCapability_ok hadmitted (Option.isSome_iff_exists.mpr ⟨row, hrow⟩) hfree
    (h.within_limits hw hn)

theorem succ {t' : Tables} {revision : ControlRevision} (hw : ControlWellFormed t)
    (hn : n < maxCapabilityDepth - 1) (hg : Granted sha256 t t' (link n) revision) :
    Built sha256 t' (n + 1) := by
  have hat := hg.attached
  have hself : t'.capability? Sample.document (node (n + 1)) =
      some ((link n).descendantRow sha256 revision) := hat.capability?_self
  have hold : ∀ i ≤ n, ¬((link n).documentId = Sample.document ∧
      (link n).descendantCapabilityId = node i) := fun i hi he ↦
    absurd (node_inj (by omega) (by omega) he.2) (by omega)
  refine ⟨fun i hi ↦ ?_, fun i hi operation ↦ ?_, ?_, fun i hi ↦ ?_, fun d c row hrow ↦ ?_,
    fun receipt hreceipt ↦ ?_, ?_, ?_⟩
  · rcases Nat.lt_succ_iff_lt_or_eq.mp (Nat.lt_succ_of_le hi) with hi | rfl
    · obtain ⟨row, hrow, hkeep⟩ := h.capability i (by omega)
      exact ⟨row, hat.capability?_old hrow, hkeep⟩
    · exact ⟨_, hself, rfl, rfl⟩
  · rcases Nat.lt_succ_iff_lt_or_eq.mp (Nat.lt_succ_of_le hi) with hi | rfl
    · obtain ⟨row, hrow, -⟩ := h.capability i (by omega)
      rw [hat.hasOperation_old hrow]
      exact h.operation i (by omega) operation
    · exact (hat.hasOperation_self hw operation).trans OperationSet.contains_full
  · rw [hat.parent?_old (hold 0 (by omega))]
    exact h.root
  · rcases Nat.lt_succ_iff_lt_or_eq.mp hi with hi | rfl
    · rw [hat.parent?_old (hold (i + 1) (by omega))]
      exact h.parent i hi
    · exact Tables.parent?_eq hself
  · rcases hat.capability?_cases hrow with ⟨rfl, rfl, -⟩ | hold
    · exact ⟨rfl, n + 1, le_rfl, rfl⟩
    · obtain ⟨hd, i, hi, hc⟩ := h.only d c row hold
      exact ⟨hd, i, by omega, hc⟩
  · rw [hg.controlReceipts, List.mem_append, List.mem_singleton] at hreceipt
    rcases hreceipt with hreceipt | rfl
    · obtain ⟨i, hi, hissuer⟩ := h.receipts receipt hreceipt
      exact ⟨i, by omega, hissuer⟩
    · exact ⟨n, by omega, rfl⟩
  · rw [hg.capabilities, List.length_append, h.length_capabilities]
    rfl
  · rw [hg.controlReceipts, List.length_append, h.length_receipts]
    rfl

end Built

open Conformance

/-- The document as it is created. -/
theorem built_zero : Built sha256 (start sha256 setup).tables 0 := by
  -- what the operator leaves for the creation
  let opened := Tables.empty.apply sha256 (.reopen provision)
  have hresult : (createDocument sha256 opened create).1 = .ok .inserted := by decide +kernel
  have hrows : opened.capabilities.rows = [] := by decide +kernel
  have hreceipts : opened.controlReceipts.rows = [] := by decide +kernel
  have hw : WellFormed (Tables.empty.run sha256 [.reopen provision]) :=
    wellFormed_run wellFormed_empty _
  have hstart : (start sha256 setup).tables = (createDocument sha256 opened create).2 := by
    show (Conformance.setUp sha256 ⟨opened, .empty⟩ (.create create)).tables = _
    rw [Conformance.setUp, ← Prod.eta (createDocument sha256 opened create), hresult]
  rw [hstart]
  rcases createDocument_spec (Prod.eta (createDocument sha256 opened create)).symm with
    ⟨-, hc⟩ | ⟨hne, -⟩
  · have hat := hc.attached (hw.control.capability?_of_document? hc.document_fresh _)
    refine ⟨fun i hi ↦ ?_, fun i hi operation ↦ ?_, ?_, fun i hi ↦ absurd hi (by omega),
      fun d c row hrow ↦ ?_, fun receipt hreceipt ↦ ?_, ?_, ?_⟩
    · obtain rfl := Nat.le_zero.mp hi
      exact ⟨_, hat.capability?_self, rfl, rfl⟩
    · obtain rfl := Nat.le_zero.mp hi
      exact (hat.hasOperation_self hw.control operation).trans OperationSet.contains_full
    · exact hat.parent?_self
    · rcases hat.capability?_cases hrow with ⟨rfl, rfl, -⟩ | hold
      · exact ⟨rfl, 0, le_rfl, rfl⟩
      · have hmem := Table.mem_of_find?_eq_some hold
        rw [hrows] at hmem
        exact absurd hmem List.not_mem_nil
    · rw [hc.controlReceipts, hreceipts] at hreceipt
      exact absurd hreceipt List.not_mem_nil
    · rw [hc.capabilities, hrows]
      rfl
    · rw [hc.controlReceipts, hreceipts]
      rfl
  · exact absurd hresult hne

/-- **Every grant up to the 64th node is admitted, by both.** -/
theorem built {n : ℕ} (hn : n < maxCapabilityDepth) :
    let s := (start sha256 setup).sendAll sha256 (requests n)
    s.Related ∧ Built sha256 s.tables n ∧
      ∀ i < n, (((request i).store sha256
        ((start sha256 setup).sendAll sha256 (requests i)).tables).1 = .ok .inserted) := by
  induction n with
  | zero => exact ⟨(related_start sha256 setup).1, built_zero, fun i hi ↦ absurd hi (by omega)⟩
  | succ n ih =>
    obtain ⟨hrelated, hbuilt, hinserted⟩ := ih (by omega)
    have hw := hrelated.wellFormed.control
    have hshallow : n < maxCapabilityDepth - 1 := by omega
    obtain ⟨row, hrow, -⟩ := hbuilt.capability n le_rfl
    obtain ⟨-, document, -, hdocument, -, hactive⟩ :=
      hrelated.simulates.document_of_capability hw hrow
    have hgranted := hbuilt.granted hw hshallow hdocument hactive
    have hlimit : ((request n).store sha256
        ((start sha256 setup).sendAll sha256 (requests n)).tables).1 ≠ .ok .limitExceeded :=
      fun hlimit ↦ absurd (hgranted.symm.trans hlimit) (by simp)
    have hnext := (hrelated.send (hbuilt.shallow_iff.mpr hshallow) hlimit).2
    have hrequests : requests (n + 1) = requests n ++ [request n] := by
      rw [requests, List.range_succ, List.map_append]
      rfl
    rw [hrequests, sendAll_append_singleton]
    refine ⟨hnext, ?_, fun i hi ↦ ?_⟩
    · rcases grantCapability_spec (Prod.eta (grantCapability sha256 _ (link n))).symm with
        ⟨-, revision, hg⟩ | ⟨hne, -⟩
      · exact hbuilt.succ hw hshallow hg
      · exact absurd hgranted hne
    · rcases Nat.lt_succ_iff_lt_or_eq.mp hi with hi | rfl
      · exact hinserted i hi
      · exact hgranted

/-- What precedes a request of the chain. -/
theorem eq_of_prefix {n : ℕ} {before : List CapabilityRequest} {q : CapabilityRequest}
    (h : before ++ [q] <+: requests n) :
    ∃ i < n, before = requests i ∧ q = request i := by
  have hlen := h.length_le
  simp only [List.length_append, List.length_singleton, requests, List.length_map,
    List.length_range] at hlen
  have htake := List.prefix_iff_eq_take.mp h
  rw [requests, ← List.map_take, List.take_range, List.length_append, List.length_singleton,
    min_eq_left hlen, List.range_succ, List.map_append] at htake
  obtain ⟨hbefore, hq⟩ := List.append_inj' htake rfl
  exact ⟨before.length, hlen, hbefore, (List.cons.inj hq).1⟩

end Chain

open Conformance Chain in
/-- The grants of the chain are all admitted, so no limit was met; but a chain of 64 nodes is not
shallow, and there the two no longer agree. -/
theorem capability_model_agrees_iff_sample :
    ¬((∀ before q, before ++ [q] <+: requests 63 →
        ((start sha256 setup).sendAll sha256 before).OutcomesAgree sha256 q) ∧
      ∀ before, before <+: requests 63 →
        ((start sha256 setup).sendAll sha256 before).DecisionsAgree sha256) := by
  obtain ⟨-, hbuilt, hinserted⟩ := built (n := 63) (by decide)
  have hlimit : ∀ before q, before ++ [q] <+: requests 63 →
      (q.store sha256 ((start sha256 setup).sendAll sha256 before).tables).1 ≠
        .ok .limitExceeded := by
    intro before q hbefore
    obtain ⟨i, hi, rfl, rfl⟩ := eq_of_prefix hbefore
    rw [hinserted i hi]
    simp
  intro hagree
  have hall := (capability_model_agrees_iff sha256 setup (requests 63) hlimit).mp hagree
  exact absurd (hbuilt.shallow_iff.mp (hall _ (List.prefix_refl _))) (by decide)

open Conformance Chain in
/-- **The oracle denies what it has granted.**  After 63 grants, all of them admitted, the store
authorizes the last capability and the oracle does not. -/
theorem deep_chain_denied :
    (∀ i < 63, ((request i).store sha256
      ((start sha256 setup).sendAll sha256 (requests i)).tables).1 = .ok .inserted) ∧
    let s := (start sha256 setup).sendAll sha256 (requests 63)
    authorizeDocument sha256 s.tables Sample.document (node 63) (Sample.secret 2) .read =
        .authorized ∧
      s.model.authorizes sha256 Sample.document (node 63) (Sample.secret 2) .read = false := by
  obtain ⟨hrelated, hbuilt, hinserted⟩ := built (n := 63) (by decide)
  have hw := hrelated.wellFormed.control
  obtain ⟨row, hrow, -⟩ := hbuilt.capability 63 le_rfl
  obtain ⟨-, document, -, hdocument, -, hactive⟩ :=
    hrelated.simulates.document_of_capability hw hrow
  refine ⟨hinserted, of_decide_eq_true ((hw.forest _).authorize_iff.mpr
    ⟨hbuilt.bears le_rfl .read, document, hdocument, hactive⟩), ?_⟩
  rw [← Bool.not_eq_true, hrelated.simulates.authorizes_iff hw, hbuilt.within_iff le_rfl]
  exact fun h ↦ absurd h.2 (by decide)

end Renee
