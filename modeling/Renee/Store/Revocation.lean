import Renee.Store.Run

/-!
# Revocation

A revocation that commits revokes its target and everything below it, and nothing else; and it does
so for good.

* `Revoked.isRevoked_iff` and `Revoked.authorizeDocument_eq` are about the moment of the revocation:
  which capabilities are revoked afterwards, and that whoever is not keeps its authority.
* A revoked capability stays revoked across runs (`Tables.IsRevoked.run`), and can do nothing
  (`Tables.IsRevoked.authorizeDocument_eq`, `not_granted_of_isRevoked`, `not_revoked_of_isRevoked`).
* Nothing is created below it either: a new capability hangs from an active one, and everything
  below a revoked capability is revoked (`not_descends_of_isRevoked`).
-/

set_option autoImplicit false

namespace Renee

open ByteString Relational Ancestry

variable {sha256 : List UInt8 → Bytes verifierLength} {t t' : Tables} {d : DocumentId}
  {c x : CapabilityId}

/-- A capability that has been revoked. -/
def Tables.IsRevoked (t : Tables) (d : DocumentId) (c : CapabilityId) : Prop :=
  ∃ row, t.capability? d c = some row ∧ row.revoked = true

/-! ## At the moment of the revocation -/

/-- What descends from an existing capability exists. -/
theorem exists_of_descends_to {row : CapabilityRow} (hrow : t.capability? d x = some row)
    (hd : Descends (t.parent? d) c x) : ∃ row', t.capability? d c = some row' := by
  rcases descends_iff_eq_or_parent.mp hd with rfl | ⟨p, hp, -⟩
  · exact ⟨row, hrow⟩
  · obtain ⟨row', hrow', -⟩ := Tables.parent?_eq_some_iff.mp hp
    exact ⟨row', hrow'⟩

theorem Revoked.target {r : RevokeCommand} {revision : ControlRevision}
    (h : Revoked sha256 t t' r revision) (hw : ControlWellFormed t) :
    t.Active r.documentId r.targetCapabilityId ∧
      Descends (t.parent? r.documentId) r.targetCapabilityId r.issuerCapabilityId :=
  (hw.forest _).isActiveDescendant_iff.mp h.descendant

/-- **The revoked capabilities are those that were and those below the target.** -/
theorem Revoked.isRevoked_iff {r : RevokeCommand} {revision : ControlRevision}
    (h : Revoked sha256 t t' r revision) (hw : ControlWellFormed t) (d : DocumentId)
    (c : CapabilityId) :
    t'.IsRevoked d c ↔ t.IsRevoked d c ∨
      (d = r.documentId ∧ Descends (t.parent? d) c r.targetCapabilityId) := by
  obtain ⟨⟨target, htarget, -⟩, -⟩ := h.target hw
  constructor
  · rintro ⟨row', hrow', hrev⟩
    obtain ⟨row, hrow, -⟩ := h.capability?_some hrow'
    exact ((h.revoked_iff hw hrow hrow').mp hrev).imp_left fun hr ↦ ⟨row, hrow, hr⟩
  · intro hcase
    have hexists : ∃ row, t.capability? d c = some row := by
      rcases hcase with ⟨row, hrow, -⟩ | ⟨rfl, hd⟩
      · exact ⟨row, hrow⟩
      · exact exists_of_descends_to htarget hd
    obtain ⟨row, hrow⟩ := hexists
    obtain ⟨row', hrow', -⟩ := h.persists.capability hrow
    refine ⟨row', hrow', (h.revoked_iff hw hrow hrow').mpr (hcase.imp_left ?_)⟩
    rintro ⟨row₀, hrow₀, hr⟩
    rwa [Option.some_inj.mp (hrow.symm.trans hrow₀)]

/-- What a capability bears does not change for those that are not below the target. -/
theorem Revoked.bears_iff {r : RevokeCommand} {revision : ControlRevision}
    (h : Revoked sha256 t t' r revision) (hw : ControlWellFormed t)
    (hout : ¬(d = r.documentId ∧ Descends (t.parent? d) c r.targetCapabilityId))
    (a : Authenticator) (operation : Operation) :
    t'.Bears sha256 d c a operation ↔ t.Bears sha256 d c a operation := by
  simp only [Tables.Bears, h.hasOperation_eq]
  cases hrow : t.capability? d c with
  | none => simp [capability?_of_revokeIn h.capabilities, hrow]
  | some row =>
    obtain ⟨row', hrow', hkeep⟩ := h.persists.capability hrow
    have hrev : row'.revoked = row.revoked := by
      rw [Bool.eq_iff_iff, h.revoked_iff hw hrow hrow']
      exact or_iff_left hout
    simp [hrow', hrev, hkeep.liveVerifier]

/-- **Whoever is not below the target keeps its authority.** -/
theorem Revoked.authorizeDocument_eq {r : RevokeCommand} {revision : ControlRevision}
    (h : Revoked sha256 t t' r revision) (hw : ControlWellFormed t)
    (hout : ¬(d = r.documentId ∧ Descends (t.parent? d) c r.targetCapabilityId))
    (a : Authenticator) (operation : Operation) :
    authorizeDocument sha256 t' d c a operation = authorizeDocument sha256 t d c a operation := by
  have hdocument : documentAuthorization t' d = documentAuthorization t d := by
    rw [documentAuthorization, documentAuthorization, document?_of_setRevision h.documents]
    cases t.document? d <;> simp
  rw [((h.controlWellFormed hw).forest d).authorizeDocument_eq, (hw.forest d).authorizeDocument_eq,
    hdocument]
  have hbears := h.bears_iff hw hout a operation
  by_cases hb : t.Bears sha256 d c a operation
  · rw [if_pos hb, if_pos (hbears.mpr hb)]
  · rw [if_neg hb, if_neg (fun hb' ↦ hb (hbears.mp hb'))]

/-- **A capability stays active unless it lies below the target of a revocation.** -/
theorem Effect.active {m : Mutation} (heffect : Effect sha256 t t' m) (hw : WellFormed t)
    (ha : t.Active d c) (hout : ∀ r, m = .revoke r →
      ¬(d = r.documentId ∧ Descends (t.parent? d) c r.targetCapabilityId)) : t'.Active d c := by
  obtain ⟨row, hrow, hactive⟩ := ha
  cases heffect with
  | created h =>
    have hat := h.attached (hw.control.capability?_of_document? h.document_fresh _)
    exact ⟨row, hat.capability?_old hrow, hactive⟩
  | granted h => exact ⟨row, h.attached.capability?_old hrow, hactive⟩
  | @revoked r revision h =>
    obtain ⟨row', hrow', -⟩ := h.persists.capability hrow
    refine ⟨row', hrow', Bool.eq_false_iff.mpr fun hrev ↦ ?_⟩
    rcases (h.revoked_iff hw.control hrow hrow').mp hrev with hr | hbelow
    · exact absurd (hactive.symm.trans hr) (by simp)
    · exact hout r rfl hbelow
  | accepted h _ _ => exact ⟨row, by rw [Tables.capability?, h.capabilities]; exact hrow, hactive⟩
  | retired h => exact ⟨row, by rw [h]; exact hrow, hactive⟩
  | disabled h => exact ⟨row, by rw [h]; exact hrow, hactive⟩
  | provisioned h =>
    obtain ⟨createAuthorities, rfl⟩ := provisionCreateAuthority_eq_ok h
    exact ⟨row, hrow, hactive⟩

/-! ## Ever after -/

theorem Tables.IsRevoked.persists (h : t.IsRevoked d c) (hp : Persists t t') :
    t'.IsRevoked d c := by
  obtain ⟨row, hrow, hrev⟩ := h
  obtain ⟨row', hrow', hkeep⟩ := hp.capability hrow
  exact ⟨row', hrow', hkeep.revoked hrev⟩

/-- **Revocation is for good.** -/
theorem Tables.IsRevoked.run (h : t.IsRevoked d c) (hw : WellFormed t)
    (mutations : List Mutation) : (t.run sha256 mutations).IsRevoked d c :=
  h.persists (persists_run hw mutations)

/-- What is below a revoked capability is revoked. -/
theorem Tables.IsRevoked.of_descends (h : t.IsRevoked d x) (hw : ControlWellFormed t)
    (hd : Descends (t.parent? d) c x) : t.IsRevoked d c := by
  obtain ⟨row, hrow, hrev⟩ := h
  obtain ⟨row', hrow'⟩ := exists_of_descends_to hrow hd
  refine ⟨row', hrow', ?_⟩
  by_contra hactive
  obtain ⟨row'', hrow'', hrev''⟩ :=
    (hw.forest d).active_of_descends ⟨row', hrow', by simpa using hactive⟩ hd
  rw [Option.some_inj.mp (hrow.symm.trans hrow''), hrev''] at hrev
  exact absurd hrev (by simp)

/-- **A revoked capability is authorized for nothing.** -/
theorem Tables.IsRevoked.authorizeDocument_eq (h : t.IsRevoked d c) (a : Authenticator)
    (operation : Operation) : authorizeDocument sha256 t d c a operation = .denied := by
  by_contra hne
  obtain ⟨row, hrow, hactive, -⟩ := Tables.bears_of_authorizeDocument hne
  obtain ⟨row', hrow', hrev⟩ := h
  rw [Option.some_inj.mp (hrow'.symm.trans hrow), hactive] at hrev
  exact absurd hrev (by simp)

theorem Tables.IsRevoked.not_authorize (h : t.IsRevoked d c) (a : Authenticator)
    (operation : Operation) : authorize sha256 t d c a operation = false := by
  rw [authorize, h.authorizeDocument_eq]
  rfl

theorem not_granted_of_isRevoked {r : GrantCommand}
    (h : t.IsRevoked r.documentId r.issuerCapabilityId) :
    (grantCapability sha256 t r).1 ≠ .ok .inserted := by
  rcases grantCapability_spec (Prod.eta (grantCapability sha256 t r)).symm with
    ⟨-, _, hgranted⟩ | ⟨hne, -⟩
  · exact absurd hgranted.authorized (by rw [h.not_authorize]; simp)
  · exact hne

theorem not_revoked_of_isRevoked {r : RevokeCommand}
    (h : t.IsRevoked r.documentId r.issuerCapabilityId) :
    (revokeCapability sha256 t r).1 ≠ .ok .inserted := by
  rcases revokeCapability_spec (Prod.eta (revokeCapability sha256 t r)).symm with
    ⟨-, _, hrevoked⟩ | ⟨hne, -⟩
  · exact absurd hrevoked.authorized (by rw [h.not_authorize]; simp)
  · exact hne

/-- One effect attaches nothing below a revoked capability. -/
theorem Effect.not_descends_of_isRevoked {m : Mutation} (heffect : Effect sha256 t t' m)
    (hw : WellFormed t) (h : t.IsRevoked d x) {row : CapabilityRow}
    (hnone : t.capability? d c = none) (hrow : t'.capability? d c = some row) :
    ¬Descends (t'.parent? d) c x := by
  intro hd
  have ⟨rowx, hrowx, _⟩ := h
  have hne : c ≠ x := fun hcx ↦ by
    rw [← hcx, hnone] at hrowx
    exact absurd hrowx (by simp)
  obtain ⟨p, hp, hpd⟩ := (descends_iff_eq_or_parent.mp hd).resolve_left hne
  rw [Tables.parent?_eq hrow] at hp
  rcases heffect.capability_new hw hnone hrow with
    ⟨r, -, -, -, -, rfl⟩ | ⟨r, revision, -, hgranted, rfl, rfl, rfl⟩
  · exact absurd hp (by simp [CreateCommand.rootRow])
  · -- the issuer would be below the revoked capability, and so revoked itself
    obtain rfl : r.issuerCapabilityId = p := by simpa [GrantCommand.descendantRow] using hp
    obtain ⟨issuer, -, hissuer, -⟩ := hw.control.active_of_authorize hgranted.authorized
    have hbelow := (heffect.persists hw).descends_iff hw.control hissuer |>.mp hpd
    have hrevoked := h.of_descends hw.control hbelow
    exact absurd hgranted.authorized (by rw [hrevoked.not_authorize]; simp)

/-- **Nothing is ever created below a revoked capability.** -/
theorem not_descends_of_isRevoked (hw : WellFormed t) (h : t.IsRevoked d x)
    (mutations : List Mutation) {row : CapabilityRow} (hnone : t.capability? d c = none)
    (hrow : (t.run sha256 mutations).capability? d c = some row) :
    ¬Descends ((t.run sha256 mutations).parent? d) c x := by
  let P : Tables → Prop := fun t' ↦ t'.IsRevoked d x ∧ ∀ c row, t.capability? d c = none →
    t'.capability? d c = some row → ¬Descends (t'.parent? d) c x
  have hstep : ∀ t₁ t₂ m, WellFormed t₁ → P t₁ → Effect sha256 t₁ t₂ m → P t₂ := by
    rintro t₁ t₂ m hw₁ ⟨hrev, hnew⟩ heffect
    have hp := heffect.persists hw₁
    refine ⟨hrev.persists hp, fun c row hnone hrow ↦ ?_⟩
    cases hmid : t₁.capability? d c with
    | none => exact heffect.not_descends_of_isRevoked hw₁ hrev hmid hrow
    | some row₁ =>
      rw [hp.descends_iff hw₁.control hmid]
      exact hnew c row₁ hnone hmid
  have hstart : P t := ⟨h, fun c row hnone hrow ↦ absurd (hnone.symm.trans hrow) (by simp)⟩
  exact (run_induction hstep hw hstart mutations).2.2 c row hnone hrow

/-- **Revocation is exact and permanent.**  In any reachable store, a revocation that newly commits
revokes its target and what is below it, leaves the authority of every other capability alone, and
whatever happens afterwards, no member of that subtree is authorized for anything, issues a grant or
a revocation that commits, or has a capability created below it. -/
theorem revocation_exact (before : List Mutation) (r : RevokeCommand)
    (hcommit : (revokeCapability sha256 (Tables.empty.run sha256 before) r).1 = .ok .inserted) :
    let t := Tables.empty.run sha256 before
    let t' := (revokeCapability sha256 t r).2
    (∀ d c, t'.IsRevoked d c ↔ t.IsRevoked d c ∨
      (d = r.documentId ∧ Descends (t.parent? d) c r.targetCapabilityId)) ∧
    (∀ d c, ¬(d = r.documentId ∧ Descends (t.parent? d) c r.targetCapabilityId) →
      ∀ a operation, authorizeDocument sha256 t' d c a operation =
        authorizeDocument sha256 t d c a operation) ∧
    ∀ after c, Descends (t.parent? r.documentId) c r.targetCapabilityId →
      let t'' := t'.run sha256 after
      (∀ a operation, authorizeDocument sha256 t'' r.documentId c a operation = .denied) ∧
      (∀ g : GrantCommand, g.documentId = r.documentId → g.issuerCapabilityId = c →
        (grantCapability sha256 t'' g).1 ≠ .ok .inserted) ∧
      (∀ v : RevokeCommand, v.documentId = r.documentId → v.issuerCapabilityId = c →
        (revokeCapability sha256 t'' v).1 ≠ .ok .inserted) ∧
      ∀ c', t'.capability? r.documentId c' = none →
        (∃ row, t''.capability? r.documentId c' = some row) →
          ¬Descends (t''.parent? r.documentId) c' c := by
  intro t t'
  have hw : WellFormed t := wellFormed_run wellFormed_empty before
  rcases revokeCapability_spec (Prod.eta (revokeCapability sha256 t r)).symm with
    ⟨-, revision, hrevoked⟩ | ⟨hne, -⟩
  swap
  · exact absurd hcommit hne
  have hw' : WellFormed t' := hrevoked.wellFormed hw
  refine ⟨hrevoked.isRevoked_iff hw.control,
    fun d c hout ↦ hrevoked.authorizeDocument_eq hw.control hout, fun after c hd ↦ ?_⟩
  intro t''
  have hc : t'.IsRevoked r.documentId c :=
    (hrevoked.isRevoked_iff hw.control _ _).mpr (Or.inr ⟨rfl, hd⟩)
  have hc'' : t''.IsRevoked r.documentId c := hc.run hw' after
  refine ⟨hc''.authorizeDocument_eq, ?_, ?_, ?_⟩
  · rintro g hgd rfl
    rw [← hgd] at hc''
    exact not_granted_of_isRevoked hc''
  · rintro v hvd rfl
    rw [← hvd] at hc''
    exact not_revoked_of_isRevoked hc''
  · rintro c' hnone ⟨row, hrow⟩
    exact not_descends_of_isRevoked hw' hc after hnone hrow

/-- The root revokes the child: the grandchild goes with it, also after the store has been opened
again, and the root and the child of the other document stay. -/
theorem revocation_exact_sample :
    let t := Tables.empty.run Sha256.hash Sample.families
    let t' := (revokeCapability Sha256.hash t Sample.revoke).2
    let grandchild := Sample.childGrant.descendantCapabilityId
    t'.IsRevoked Sample.document Sample.child ∧ t'.IsRevoked Sample.document grandchild ∧
      ¬t'.IsRevoked Sample.document Sample.root ∧
      authorizeDocument Sha256.hash t' Sample.otherGrant.documentId Sample.child (Sample.secret 3)
        .update = .authorized ∧
      authorizeDocument Sha256.hash (t'.run Sha256.hash [.reopen Sample.provision]) Sample.document
        grandchild (Sample.secret 4) .read = .denied := by
  intro t t' grandchild
  have hview : (revokeCapability Sha256.hash t Sample.revoke).1 = .ok .inserted ∧
      t.parent? Sample.document grandchild = some Sample.child ∧
      t.parent? Sample.document Sample.root = none ∧
      (t.capability? Sample.document Sample.root).all (fun row ↦ !row.revoked) = true ∧
      authorizeDocument Sha256.hash t Sample.otherGrant.documentId Sample.child (Sample.secret 3)
        .update = .authorized := by decide +kernel
  obtain ⟨hcommit, hparent, hroot, hactive, hauth⟩ := hview
  obtain ⟨hrevoked, hkept, hever⟩ := revocation_exact Sample.families Sample.revoke hcommit
  have hbelow : Descends (t.parent? Sample.document) grandchild Sample.child := .of_parent hparent
  refine ⟨(hrevoked _ _).mpr (Or.inr ⟨rfl, .refl _⟩), (hrevoked _ _).mpr (Or.inr ⟨rfl, hbelow⟩),
    fun h ↦ ?_, ?_, (hever [.reopen Sample.provision] grandchild hbelow).1 _ _⟩
  · rcases (hrevoked _ _).mp h with ⟨row, hrow, hrev⟩ | ⟨-, hd⟩
    · rw [hrow, Option.all_some, hrev] at hactive
      exact absurd hactive (by decide)
    · rcases descends_iff_eq_or_parent.mp hd with heq | ⟨p, hp, -⟩
      · exact absurd heq (by decide)
      · exact absurd (hroot.symm.trans hp) (by simp)
  · exact (hkept _ _ (fun h ↦ absurd h.1 (by decide)) _ _).trans hauth

end Renee
