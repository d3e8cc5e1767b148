import Renee.Library.Ancestry
import Renee.Store.Verifier

/-!
# Authorization

The walks over capability chains that every request begins with, each bounded by
`maxCapabilityDepth` nodes, and what they compute on tables whose parent links form a forest.

* `authorizeDocument` is the walk from a presented capability to its root.
* `isActiveDescendant`, `isDescendantOrSelf` and `issuerHasDescendantCapacity` are the three walks
  of the control operations.
* `Tables.Forest` is what they rely on: parents exist, revocation is closed downwards, and no chain
  has more than `maxCapabilityDepth` nodes.  On such tables the bound never cuts a walk short, and
  the walk from a presented capability need only look at its first node:
  `Forest.authorizeDocument_eq`, `Forest.isActiveDescendant_iff`,
  `Forest.isDescendantOrSelf_iff` and `Forest.issuerHasDescendantCapacity_iff`.
-/

set_option autoImplicit false

namespace Renee

open Ancestry

/-! ## The walks -/

/-- What a document's authority amounts to. -/
inductive DocumentAuthorization
  | authorized
  | denied
  | retired
deriving DecidableEq

/-- What is left to decide at the root of a chain. -/
def documentAuthorization (t : Tables) (d : DocumentId) : DocumentAuthorization :=
  match t.document? d with
  | some document => if document.retired then .retired else .authorized
  | none => .denied

/-- Whether the parents of a revoked target can be followed up to the issuer, through active
capabilities only. -/
def isActiveDescendantFrom (t : Tables) (d : DocumentId) (issuer : CapabilityId) :
    ℕ → CapabilityId → Bool
  | 0, _ => false
  | steps + 1, current =>
    match t.capability? d current with
    | none => false
    | some row =>
      if row.revoked then false
      else if current = issuer then true
      else match row.parentCapabilityId with
        | none => false
        | some parent => isActiveDescendantFrom t d issuer steps parent

def isActiveDescendant (t : Tables) (d : DocumentId) (issuer target : CapabilityId) : Bool :=
  isActiveDescendantFrom t d issuer maxCapabilityDepth target

/-- Whether the parents of `candidate` lead to `ancestor`. -/
def isDescendantOrSelf (t : Tables) (d : DocumentId) (ancestor candidate : CapabilityId) : Bool :=
  reaches (t.parent? d) ancestor maxCapabilityDepth candidate

/-- Whether the chain ends before its last admissible node. -/
def issuerHasDescendantCapacityFrom (t : Tables) (d : DocumentId) : ℕ → CapabilityId → Bool
  | 0, _ => false
  | steps + 1, current =>
    match t.capability? d current with
    | none => false
    | some row =>
      match row.parentCapabilityId with
      | none => decide (0 < steps)
      | some parent => issuerHasDescendantCapacityFrom t d steps parent

def issuerHasDescendantCapacity (t : Tables) (d : DocumentId) (issuer : CapabilityId) : Bool :=
  issuerHasDescendantCapacityFrom t d maxCapabilityDepth issuer

section Hash

variable (sha256 : List UInt8 → ByteString.Bytes verifierLength)

/-- The walk to the root, `steps` nodes from the end of its bound.  Secret and operation are looked
at when the walk starts, revocation at every node. -/
def authorizeFrom (t : Tables) (d : DocumentId) (presented : CapabilityId) (a : Authenticator)
    (operation : Operation) : ℕ → CapabilityId → DocumentAuthorization
  | 0, _ => .denied
  | steps + 1, current =>
    match t.capability? d current with
    | none => .denied
    | some row =>
      if row.revoked then .denied
      else if steps + 1 = maxCapabilityDepth ∧
          ¬(verifyLive sha256 row.liveVerifier d presented a = true ∧
            t.hasOperation d presented operation = true) then .denied
      else match row.parentCapabilityId with
        | none => documentAuthorization t d
        | some parent => authorizeFrom t d presented a operation steps parent

def authorizeDocument (t : Tables) (d : DocumentId) (c : CapabilityId) (a : Authenticator)
    (operation : Operation) : DocumentAuthorization :=
  authorizeFrom sha256 t d c a operation maxCapabilityDepth c

def authorize (t : Tables) (d : DocumentId) (c : CapabilityId) (a : Authenticator)
    (operation : Operation) : Bool :=
  authorizeDocument sha256 t d c a operation = .authorized

end Hash

/-- The operations a capability has, as a set. -/
def loadOperationSet (t : Tables) (d : DocumentId) (c : CapabilityId) : OperationSet :=
  (t.capabilityOperations.rows.filter fun row ↦ row.documentId = d ∧ row.capabilityId = c).foldl
    (fun operations row ↦ operations.union (.one row.operation)) .empty

theorem contains_loadOperationSet {t : Tables} {d : DocumentId} {c : CapabilityId}
    {operation : Operation} :
    (loadOperationSet t d c).contains operation = t.hasOperation d c operation := by
  -- the accumulated set holds the operations of the rows gone through
  have hfold : ∀ (rows : List CapabilityOperationRow) (s : OperationSet),
      (rows.foldl (fun operations row ↦ operations.union (.one row.operation)) s).contains
        operation = (s.contains operation || rows.any fun row ↦ row.operation = operation) := by
    intro rows
    induction rows with
    | nil => simp
    | cons row rows ih => intro s; simp [ih, Bool.or_assoc]
  rw [loadOperationSet, hfold, OperationSet.contains_empty, Bool.false_or, Bool.eq_iff_iff,
    Tables.hasOperation_iff]
  simp only [List.any_eq_true, List.mem_filter, decide_eq_true_eq]
  constructor
  · rintro ⟨row, ⟨hrow, rfl, rfl⟩, rfl⟩
    exact hrow
  · exact fun h ↦ ⟨_, ⟨h, rfl, rfl⟩, rfl⟩

/-! ## Forests -/

namespace Tables

/-- The capabilities of a document form a forest that revocation is closed downwards in. -/
structure Forest (t : Tables) (d : DocumentId) : Prop where
  /-- A parent exists, and a capability under a revoked one is revoked. -/
  parent : ∀ {c row p}, t.capability? d c = some row → row.parentCapabilityId = some p →
    ∃ row', t.capability? d p = some row' ∧ (row'.revoked = true → row.revoked = true)
  /-- No chain is too long. -/
  within : ∀ {c row}, t.capability? d c = some row → Within (t.parent? d) maxCapabilityDepth c

/-- A capability that has not been revoked. -/
def Active (t : Tables) (d : DocumentId) (c : CapabilityId) : Prop :=
  ∃ row, t.capability? d c = some row ∧ row.revoked = false

variable {t : Tables} {d : DocumentId} {c : CapabilityId}

theorem parent?_eq {row : CapabilityRow} (h : t.capability? d c = some row) :
    t.parent? d c = row.parentCapabilityId := by
  rw [parent?, h, Option.bind_some]

theorem parent?_eq_some_iff {p : CapabilityId} :
    t.parent? d c = some p ↔
      ∃ row, t.capability? d c = some row ∧ row.parentCapabilityId = some p := by
  rw [parent?, Option.bind_eq_some_iff]

namespace Forest

variable {issuer : CapabilityId} {row : CapabilityRow} (h : t.Forest d)
include h

/-- **Every ancestor of an active capability is active.** -/
theorem active_of_descends (ha : t.Active d c) {x : CapabilityId}
    (hd : Descends (t.parent? d) c x) : t.Active d x := by
  refine hd.closed (fun y p hp hy ↦ ?_) ha
  obtain ⟨row, hrow, hact⟩ := hy
  obtain ⟨row', hrow', hrev⟩ := h.parent hrow ((parent?_eq hrow).symm.trans hp)
  refine ⟨row', hrow', ?_⟩
  cases hr : row'.revoked
  · rfl
  · rw [hrev hr] at hact; exact absurd hact (by simp)

/-- Ancestors exist. -/
theorem exists_of_descends (hrow : t.capability? d c = some row) {x : CapabilityId}
    (hd : Descends (t.parent? d) c x) : ∃ row', t.capability? d x = some row' := by
  refine hd.closed (P := fun x ↦ ∃ row', t.capability? d x = some row') ?_ ⟨row, hrow⟩
  rintro y p hp ⟨row', hrow'⟩
  obtain ⟨row'', hrow'', -⟩ := h.parent hrow' ((parent?_eq hrow').symm.trans hp)
  exact ⟨row'', hrow''⟩

theorem isDescendantOrSelf_iff (hrow : t.capability? d c = some row) {x : CapabilityId} :
    isDescendantOrSelf t d x c = true ↔ Descends (t.parent? d) c x :=
  (h.within hrow).reaches_iff

/-- **A target can be revoked when it is active and below the issuer.** -/
theorem isActiveDescendant_iff :
    isActiveDescendant t d issuer c = true ↔
      t.Active d c ∧ Descends (t.parent? d) c issuer := by
  suffices hfrom : ∀ steps c, (∀ row, t.capability? d c = some row →
      Within (t.parent? d) steps c) → (isActiveDescendantFrom t d issuer steps c = true ↔
        t.Active d c ∧ Descends (t.parent? d) c issuer) from
    hfrom _ c fun _ hrow ↦ h.within hrow
  intro steps
  induction steps with
  | zero =>
    intro c hw
    refine ⟨fun h ↦ absurd h (by simp [isActiveDescendantFrom]), fun ⟨⟨row, hrow, _⟩, _⟩ ↦ ?_⟩
    exact absurd (hw row hrow) not_within_zero
  | succ steps ih =>
    intro c hw
    rw [isActiveDescendantFrom]
    cases hrow : t.capability? d c with
    | none => simp [Active, hrow]
    | some row =>
      have hactive : t.Active d c ↔ row.revoked = false := by simp [Active, hrow]
      simp only [hactive]
      cases hrev : row.revoked with
      | true => simp
      | false =>
        simp only [Bool.false_eq_true, if_false, true_and]
        by_cases hci : c = issuer
        · simp only [hci, if_true, true_iff]
          exact Descends.refl issuer
        rw [if_neg hci, descends_iff_eq_or_parent, parent?_eq hrow]
        cases hp : row.parentCapabilityId with
        | none => simp [hci]
        | some p =>
          obtain ⟨row', hrow', hclosed⟩ := h.parent hrow hp
          have hact' : t.Active d p :=
            h.active_of_descends ⟨row, hrow, hrev⟩ (Descends.of_parent ((parent?_eq hrow).trans hp))
          simp only [Option.some_inj, exists_eq_left', hci, false_or]
          rw [ih p fun _ _ ↦ within_succ_iff.mp (hw row hrow) p ((parent?_eq hrow).trans hp)]
          exact and_iff_right hact'

theorem issuerHasDescendantCapacity_iff :
    issuerHasDescendantCapacity t d issuer = true ↔
      (∃ row, t.capability? d issuer = some row) ∧
        Within (t.parent? d) (maxCapabilityDepth - 1) issuer := by
  suffices hfrom : ∀ steps c, (issuerHasDescendantCapacityFrom t d (steps + 1) c = true ↔
      (∃ row, t.capability? d c = some row) ∧ Within (t.parent? d) steps c) from
    hfrom (maxCapabilityDepth - 1) issuer
  intro steps
  induction steps with
  | zero =>
    intro c
    refine ⟨fun hc ↦ absurd hc ?_, fun hw ↦ absurd hw.2 not_within_zero⟩
    rw [issuerHasDescendantCapacityFrom]
    cases hrow : t.capability? d c with
    | none => simp
    | some row => cases hp : row.parentCapabilityId <;> simp [hp, issuerHasDescendantCapacityFrom]
  | succ steps ih =>
    intro c
    rw [issuerHasDescendantCapacityFrom, within_succ_iff]
    cases hrow : t.capability? d c with
    | none => simp
    | some row =>
      rw [parent?_eq hrow]
      cases hp : row.parentCapabilityId with
      | none => simp [hp]
      | some p =>
        obtain ⟨row', hrow', -⟩ := h.parent hrow hp
        simp [hp, ih, hrow']

end Forest

/-! ## What the decision is -/

/-- The presented capability, on its own, bears the secret and the operation and is active. -/
def Bears (sha256 : List UInt8 → ByteString.Bytes verifierLength) (t : Tables) (d : DocumentId)
    (c : CapabilityId) (a : Authenticator) (operation : Operation) : Prop :=
  ∃ row, t.capability? d c = some row ∧ row.revoked = false ∧
    verifyLive sha256 row.liveVerifier d c a = true ∧ t.hasOperation d c operation = true

section Hash

variable {sha256 : List UInt8 → ByteString.Bytes verifierLength} {a : Authenticator}
  {operation : Operation}

/-- Whatever the tables are, nothing is authorized that the presented capability does not bear. -/
theorem bears_of_authorizeDocument (h : authorizeDocument sha256 t d c a operation ≠ .denied) :
    t.Bears sha256 d c a operation := by
  rw [authorizeDocument, maxCapabilityDepth, authorizeFrom] at h
  split at h
  · exact absurd rfl h
  rename_i row hrow
  split at h
  · exact absurd rfl h
  rename_i hrev
  split at h
  · exact absurd rfl h
  rename_i hsecret
  have hboth := not_and.mp hsecret rfl
  rw [Decidable.not_not] at hboth
  exact ⟨row, hrow, by simpa using hrev, hboth.1, hboth.2⟩

/-- The walk ends at the root once it has started. -/
theorem Forest.authorizeFrom_eq (h : t.Forest d) {steps : ℕ} {current : CapabilityId}
    (hsteps : steps < maxCapabilityDepth) (hw : Within (t.parent? d) steps current)
    (hact : t.Active d current) :
    authorizeFrom sha256 t d c a operation steps current = documentAuthorization t d := by
  induction steps generalizing current with
  | zero => exact absurd hw not_within_zero
  | succ steps ih =>
    obtain ⟨row, hrow, hrev⟩ := hact
    rw [authorizeFrom, hrow]
    simp only [hrev, Bool.false_eq_true, if_false]
    rw [if_neg (fun hs ↦ absurd hs.1 (by omega))]
    cases hp : row.parentCapabilityId with
    | none => rfl
    | some p =>
      have hparent : t.parent? d current = some p := (parent?_eq hrow).trans hp
      exact ih (by omega) (within_succ_iff.mp hw p hparent)
        (h.active_of_descends ⟨row, hrow, hrev⟩ (Descends.of_parent hparent))

open Classical in
/-- **The decision is made at the presented capability.**  The rest of the walk finds the root of
the document, and the answer is the state of the document. -/
theorem Forest.authorizeDocument_eq (h : t.Forest d) :
    authorizeDocument sha256 t d c a operation =
      if t.Bears sha256 d c a operation then documentAuthorization t d else .denied := by
  split
  · rename_i hb
    obtain ⟨row, hrow, hrev, hsecret, hop⟩ := hb
    rw [authorizeDocument, maxCapabilityDepth, authorizeFrom, hrow]
    simp only [hrev, Bool.false_eq_true, if_false]
    rw [if_neg (fun hs ↦ hs.2 ⟨hsecret, hop⟩)]
    cases hp : row.parentCapabilityId with
    | none => rfl
    | some p =>
      have hparent : t.parent? d c = some p := (parent?_eq hrow).trans hp
      exact h.authorizeFrom_eq (by decide) (within_succ_iff.mp (h.within hrow) p hparent)
        (h.active_of_descends ⟨row, hrow, hrev⟩ (Descends.of_parent hparent))
  · rename_i hb
    exact Decidable.not_not.mp fun hne ↦ hb (bears_of_authorizeDocument hne)

theorem Forest.authorize_iff (h : t.Forest d) :
    authorize sha256 t d c a operation = true ↔
      t.Bears sha256 d c a operation ∧
        ∃ document, t.document? d = some document ∧ document.retired = false := by
  rw [authorize, decide_eq_true_eq, h.authorizeDocument_eq]
  have hdoc : documentAuthorization t d = .authorized ↔
      ∃ document, t.document? d = some document ∧ document.retired = false := by
    rw [documentAuthorization]
    cases t.document? d with
    | none => simp
    | some document => cases hr : document.retired <;> simp [hr]
  split
  · rename_i hb
    rw [hdoc]
    exact (and_iff_right hb).symm
  · rename_i hb
    exact ⟨fun h ↦ absurd h (by simp), fun h ↦ absurd h.1 hb⟩

end Hash

end Tables

end Renee
