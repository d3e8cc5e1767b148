import Renee.Store.Locality
import Renee.Store.Readable

/-!
# What a document sees of the passes

The passes of all documents are in one list, where they share quotas and must not share tokens.  A
pagination request nevertheless concerns the passes of its document only.

* It keeps the passes of every other document, and adds none (`EnumerationEffect.perm_of_ne`,
  `VectorEffect.perm_of_ne`).
* What it answers depends on the passes of its document and on the part of the tables that the
  document sees (`enumeratePasses_local`, `vectorBackfillPasses_local`), but for the values of the
  tokens that are drawn, and unless it is refused because of the passes of others.
-/

set_option autoImplicit false

namespace Renee

open ByteString TokenRegistry

/-! ## Responses up to tokens -/

/-- A response without the value of its token. -/
def AuthorizedStoredUpdatePage.withoutToken (response : AuthorizedStoredUpdatePage) :
    AuthorizedStoredUpdatePage :=
  { response with nextCursor := response.nextCursor.map fun _ ↦ [] }

def AuthorizedVectorBackfillPage.withoutToken (response : AuthorizedVectorBackfillPage) :
    AuthorizedVectorBackfillPage :=
  { response with nextCursor := response.nextCursor.map fun _ ↦ [] }

def StoreEnumerateOutcome.withoutToken : StoreEnumerateOutcome → StoreEnumerateOutcome
  | .authorized response => .authorized response.withoutToken
  | outcome => outcome

def StoreVectorBackfillOutcome.withoutToken :
    StoreVectorBackfillOutcome → StoreVectorBackfillOutcome
  | .authorized response => .authorized response.withoutToken
  | outcome => outcome

/-! ## Pages -/

section Pages

variable {t u : Tables} {d : DocumentId} (h : t.restrict d = u.restrict d)
include h

theorem highWaterSequenceIn_congr : highWaterSequenceIn t d = highWaterSequenceIn u d := by
  rw [← highWaterSequenceIn_restrict, h, highWaterSequenceIn_restrict]

theorem enumerateIn_congr (lower terminal : AcceptanceSequence) (nextOrdinal limit : ℕ) :
    enumerateIn t d lower terminal nextOrdinal limit =
      enumerateIn u d lower terminal nextOrdinal limit := by
  rw [← enumerateIn_restrict, h, enumerateIn_restrict]

theorem vectorBackfillIn_congr (position terminal : AcceptanceSequence) (v : LoroOplogVersion)
    (limit : ℕ) : vectorBackfillIn t d position terminal v limit =
      vectorBackfillIn u d position terminal v limit := by
  rw [← vectorBackfillIn_restrict, h, vectorBackfillIn_restrict]

theorem selectEnumerationWindow_congr (pass : EnumerationPass) (mode : EnumerationTokenMode) :
    selectEnumerationWindow t d pass mode = selectEnumerationWindow u d pass mode := by
  simp only [selectEnumerationWindow, highWaterSequenceIn_congr h]

end Pages

/-! ## Enumeration -/

/-- Whether a pass is one of the document. -/
def EnumerationPass.isOf (d : DocumentId) (pass : EnumerationPass) : Bool :=
  decide (pass.documentId = d)

section Enumeration

variable {t u : Tables} {generation : StoreGeneration} {r : EnumerateRequest}
  {m m' : Moment enumerationContinuationLength} {passes passes' : List EnumerationPass}
  {result : Except StoreError StoreEnumerateOutcome} {d : DocumentId}

theorem EnumerationPass.isOf_of_owns {pass : EnumerationPass} (h : r.owns pass)
    (hne : r.documentId ≠ d) : pass.isOf d = false :=
  decide_eq_false fun heq ↦ hne (h.2.1.symm.trans heq)

/-- **The passes of another document are kept.** -/
theorem EnumerationEffect.perm_of_ne
    (h : EnumerationEffect t generation r m passes result passes') (hne : r.documentId ≠ d) :
    (passes'.filter (EnumerationPass.isOf d)).Perm (passes.filter (EnumerationPass.isOf d)) := by
  have hothers : (r.others passes).filter (EnumerationPass.isOf d) =
      passes.filter (EnumerationPass.isOf d) := by
    rw [EnumerateRequest.others, List.filter_filter]
    refine List.filter_congr fun pass _ ↦ ?_
    by_cases howns : r.owns pass
    · rw [EnumerationPass.isOf_of_owns howns hne, Bool.false_and]
    · rw [decide_eq_true howns, Bool.and_true]
  cases h with
  | cleared => exact List.Perm.of_eq hothers
  | @started terminal page token =>
    have hnew : (r.newPass generation m.now terminal page token).isOf d = false :=
      EnumerationPass.isOf_of_owns ⟨rfl, rfl, rfl⟩ hne
    rw [List.filter_append, hothers, List.filter_singleton, hnew]
    exact List.Perm.of_eq (List.append_nil _)
  | refused => exact List.Perm.refl _
  | repeated => exact List.Perm.refl _
  | atTail => exact List.Perm.refl _
  | removed _ hindex hholds =>
    exact filter_swapRemove_perm hindex (EnumerationPass.isOf_of_owns hholds.owns hne)
  | advanced _ hindex hholds =>
    have hold := EnumerationPass.isOf_of_owns hholds.owns hne
    exact filter_set_perm hindex hold hold

/-- The bounds on the passes that other documents may exhaust. -/
def EnumerateRequest.Crowded (r : EnumerateRequest) (passes : List EnumerationPass) : Prop :=
  maxEnumerationPasses ≤ (r.others passes).length ∨
    maxEnumerationPassesPerChannel ≤ (r.others passes).countP fun pass ↦
      pass.channelId = r.channel.id

/-- What is left of admission is a matter of the document. -/
theorem canAdmitEnumerationPass_iff_of_not_crowded (h : ¬r.Crowded passes) :
    canAdmitEnumerationPass (r.others passes) r.channel.id r.documentId r.capabilityId = true ↔
      ((r.others passes).countP fun pass ↦ pass.documentId = r.documentId) <
        maxEnumerationPassesPerDocument ∧
      ((r.others passes).countP fun pass ↦
        pass.documentId = r.documentId ∧ pass.capabilityId = r.capabilityId) <
          maxEnumerationPassesPerAuthority := by
  rw [EnumerateRequest.Crowded, not_or, not_le, not_le] at h
  rw [canAdmitEnumerationPass_iff]
  exact ⟨fun hadmitted ↦ hadmitted.2.2, fun hdocument ↦ ⟨h.1, h.2, hdocument⟩⟩

/-- Where there are fewer passes there is a token, too. -/
theorem exists_mintEnumerationToken {draw : ℕ → Option EnumerationToken}
    (hsub : ∀ pass ∈ passes', pass ∈ passes)
    (h : ∃ token, mintEnumerationToken draw passes = .ok (some token)) :
    ∃ token, mintEnumerationToken draw passes' = .ok (some token) := by
  refine exists_mint_of_taken (fun x hx ↦ ?_) h
  obtain ⟨pass, hpass, hx⟩ := List.any_eq_true.mp hx
  exact List.any_eq_true.mpr ⟨pass, hsub pass hpass, hx⟩

/-- What two lists of passes have in common when a document sees the same of both. -/
structure EnumerateRequest.Alike (r : EnumerateRequest) (generation : StoreGeneration)
    (m m' : Moment enumerationContinuationLength) (passes passes' : List EnumerationPass) :
    Prop where
  perm : (passes.filter (EnumerationPass.isOf r.documentId)).Perm
    (passes'.filter (EnumerationPass.isOf r.documentId))
  wellFormed : EnumerationPassesWellFormed passes
  wellFormed' : EnumerationPassesWellFormed passes'
  unexpired : ∀ pass ∈ passes, m.now < pass.expiresAt
  unexpired' : ∀ pass ∈ passes', m'.now < pass.expiresAt
  mint : ∃ token, mintEnumerationToken m.draw passes = .ok (some token)
  mint' : ∃ token, mintEnumerationToken m'.draw passes' = .ok (some token)

theorem EnumerateRequest.Alike.symm (h : r.Alike generation m m' passes passes') :
    r.Alike generation m' m passes' passes :=
  ⟨h.perm.symm, h.wellFormed', h.wellFormed, h.unexpired', h.unexpired, h.mint', h.mint⟩

/-- The passes that a request may use are in both lists. -/
theorem EnumerateRequest.Alike.holds (h : r.Alike generation m m' passes passes')
    {pass : EnumerationPass} (hpass : pass ∈ passes) (hholds : r.Holds generation m.now pass) :
    pass ∈ passes' ∧ r.Holds generation m'.now pass := by
  have hmem : pass ∈ passes'.filter (EnumerationPass.isOf r.documentId) :=
    h.perm.mem_iff.mp (List.mem_filter.mpr ⟨hpass, decide_eq_true hholds.owns.2.1⟩)
  have hpass' := (List.mem_filter.mp hmem).1
  exact ⟨hpass', hholds.owns, hholds.generation, h.unexpired' pass hpass'⟩

/-- A count of passes of the document is the same in both lists. -/
theorem EnumerateRequest.Alike.countP_others (h : r.Alike generation m m' passes passes')
    {p : EnumerationPass → Bool} (hp : ∀ pass, p pass = true → pass.documentId = r.documentId) :
    (r.others passes).countP p = (r.others passes').countP p := by
  have hcount : ∀ l : List EnumerationPass, (r.others l).countP p =
      ((l.filter (EnumerationPass.isOf r.documentId)).filter fun pass ↦ ¬r.owns pass).countP p := by
    intro l
    rw [EnumerateRequest.others, List.countP_filter, List.filter_filter, List.countP_filter]
    refine List.countP_congr fun pass _ ↦ ?_
    simp only [Bool.and_eq_true, EnumerationPass.isOf, decide_eq_true_eq]
    exact ⟨fun hboth ↦ ⟨hboth.1, hboth.2, hp pass hboth.1⟩, fun hboth ↦ ⟨hboth.1, hboth.2.1⟩⟩
  rw [hcount, hcount]
  exact (h.perm.filter _).countP_eq _

/-- There is room in both lists, where it is not the others that take it up. -/
theorem EnumerateRequest.Alike.canAdmit (h : r.Alike generation m m' passes passes')
    (hadmitted : canAdmitEnumerationPass (r.others passes) r.channel.id r.documentId
      r.capabilityId = true)
    (hcrowded : canAdmitEnumerationPass (r.others passes') r.channel.id r.documentId
      r.capabilityId = false → ¬r.Crowded passes') :
    canAdmitEnumerationPass (r.others passes') r.channel.id r.documentId r.capabilityId = true := by
  refine Bool.not_eq_false _ ▸ fun hfull ↦ ?_
  have hnot := Bool.eq_false_iff.mp hfull
  rw [Ne, canAdmitEnumerationPass_iff_of_not_crowded (hcrowded hfull)] at hnot
  obtain ⟨-, -, hdocument, hauthority⟩ := canAdmitEnumerationPass_iff.mp hadmitted
  rw [h.countP_others fun _ ↦ of_decide_eq_true] at hdocument
  rw [h.countP_others fun _ hp ↦ (of_decide_eq_true hp).1] at hauthority
  exact hnot ⟨hdocument, hauthority⟩

variable (ht : t.restrict r.documentId = u.restrict r.documentId)
include ht

theorem enumerateOrigin_local (h : r.Alike generation m m' passes passes')
    (hcrowded : (enumerateOrigin t generation r m passes).1 = .ok .backpressure →
      ¬r.Crowded passes)
    (hcrowded' : (enumerateOrigin u generation r m' passes').1 = .ok .backpressure →
      ¬r.Crowded passes') :
    (enumerateOrigin t generation r m passes).1.map StoreEnumerateOutcome.withoutToken =
      (enumerateOrigin u generation r m' passes').1.map StoreEnumerateOutcome.withoutToken := by
  obtain ⟨token, hmint⟩ : ∃ token, mintEnumerationToken m.draw (r.others passes) =
      .ok (some token) :=
    exists_mintEnumerationToken (fun pass hpass ↦ (List.mem_filter.mp hpass).1) h.mint
  obtain ⟨token', hmint'⟩ : ∃ token, mintEnumerationToken m'.draw (r.others passes') =
      .ok (some token) :=
    exists_mintEnumerationToken (fun pass hpass ↦ (List.mem_filter.mp hpass).1) h.mint'
  rw [EnumerateRequest.others] at hmint hmint'
  simp only [enumerateOrigin, highWaterSequenceIn_congr ht, enumerateIn_congr ht, hmint, hmint']
    at hcrowded hcrowded' ⊢
  cases hterminal : highWaterSequenceIn u r.documentId with
  | none => rfl
  | some terminal =>
    simp only [hterminal] at hcrowded hcrowded' ⊢
    cases hpage : enumerateIn u r.documentId .origin terminal 0 r.metadataByteLimit with
    | error e => rfl
    | ok page =>
      simp only [hpage] at hcrowded hcrowded' ⊢
      by_cases hne : page.updates = []
      · simp only [if_pos hne]
      simp only [if_neg hne, ← EnumerateRequest.others.eq_def] at hcrowded hcrowded' ⊢
      cases hadmitted : canAdmitEnumerationPass (r.others passes) r.channel.id r.documentId
        r.capabilityId with
      | true =>
        rw [h.canAdmit hadmitted fun hfull ↦ hcrowded' (by rw [hfull]; rfl)]
        rfl
      | false =>
        have hfull' : canAdmitEnumerationPass (r.others passes') r.channel.id r.documentId
            r.capabilityId = false := by
          refine Bool.eq_false_iff.mpr fun hadmitted' ↦ ?_
          have hback := h.symm.canAdmit hadmitted' fun hfull ↦ hcrowded (by rw [hfull]; rfl)
          exact absurd (hadmitted.symm.trans hback) (by simp)
        rw [hfull']
        rfl

theorem enumerateToken_local (h : r.Alike generation m m' passes passes')
    (mode : EnumerationTokenMode) (encoded : List UInt8) :
    (enumerateToken t generation r m mode encoded passes).1.map StoreEnumerateOutcome.withoutToken =
      (enumerateToken u generation r m' mode encoded passes').1.map
        StoreEnumerateOutcome.withoutToken := by
  by_cases hheld : ∃ pass ∈ passes, r.Holds generation m.now pass ∧ ∃ token : EnumerationToken,
      token.toList = encoded ∧ enumerationPassContainsToken pass token mode = true
  · obtain ⟨pass, hpass, hholds, token, rfl, hcontains⟩ := hheld
    obtain ⟨hpass', hholds'⟩ := h.holds hpass hholds
    rw [enumerationPassContainsToken, Bool.or_eq_true, decide_eq_true_eq, Option.any_eq_true]
      at hcontains
    rcases hcontains with ⟨rfl, rfl⟩ | ⟨retry, hretry, hmatch⟩
    · obtain ⟨next, hmint⟩ := h.mint
      obtain ⟨next', hmint'⟩ := h.mint'
      rw [enumerateToken_current h.wellFormed hpass hholds,
        enumerateToken_current h.wellFormed' hpass' hholds', selectEnumerationWindow_congr ht]
      cases selectEnumerationWindow u r.documentId pass pass.current.mode with
      | invalid => rfl
      | atTail => rfl
      | window lower terminal nextOrdinal =>
        simp only [enumerateIn_congr ht, hmint, hmint']
        cases enumerateIn u r.documentId lower terminal nextOrdinal r.metadataByteLimit with
        | error e => cases e <;> rfl
        | ok page =>
          simp only
          split <;> rfl
    · obtain ⟨rfl, rfl⟩ := of_decide_eq_true hmatch
      rw [enumerateToken_retry h.wellFormed hpass hholds hretry,
        enumerateToken_retry h.wellFormed' hpass' hholds' hretry]
  · have hnone : ∀ pass ∈ passes, r.Holds generation m.now pass → ∀ token : EnumerationToken,
        token.toList = encoded → enumerationPassContainsToken pass token mode = false :=
      fun pass hpass hholds token htoken ↦ Bool.eq_false_iff.mpr fun hcontains ↦
        hheld ⟨pass, hpass, hholds, token, htoken, hcontains⟩
    rw [enumerateToken_invalid hnone, enumerateToken_invalid fun pass hpass hholds ↦ by
      obtain ⟨hback, hholds⟩ := h.symm.holds hpass hholds
      exact hnone pass hback hholds]

/-- **What an enumeration request is answered is a matter of its document.** -/
theorem enumeratePasses_local (h : r.Alike generation m m' passes passes')
    (hcrowded : (enumeratePasses t generation r m passes).1 = .ok .backpressure →
      ¬r.Crowded passes)
    (hcrowded' : (enumeratePasses u generation r m' passes').1 = .ok .backpressure →
      ¬r.Crowded passes') :
    (enumeratePasses t generation r m passes).1.map StoreEnumerateOutcome.withoutToken =
      (enumeratePasses u generation r m' passes').1.map StoreEnumerateOutcome.withoutToken := by
  rw [enumeratePasses] at hcrowded ⊢
  rw [enumeratePasses] at hcrowded' ⊢
  cases hstart : r.start with
  | origin =>
    simp only [hstart] at hcrowded hcrowded' ⊢
    exact enumerateOrigin_local ht h hcrowded hcrowded'
  | continuation encoded => exact enumerateToken_local ht h .continuation encoded
  | afterTail encoded => exact enumerateToken_local ht h .afterTail encoded

end Enumeration

/-! ## Vector backfill -/

/-- Whether a pass is one of the document. -/
def VectorBackfillPass.isOf (d : DocumentId) (pass : VectorBackfillPass) : Bool :=
  decide (pass.documentId = d)

section VectorBackfill

variable {t u : Tables} {r : VectorBackfillRequest} {m m' : Moment vectorContinuationLength}
  {passes passes' : List VectorBackfillPass}
  {result : Except StoreError StoreVectorBackfillOutcome} {d : DocumentId}

theorem VectorBackfillPass.isOf_of_owns {pass : VectorBackfillPass} (h : r.owns pass)
    (hne : r.documentId ≠ d) : pass.isOf d = false :=
  decide_eq_false fun heq ↦ hne (h.2.1.symm.trans heq)

/-- **The passes of another document are kept.** -/
theorem VectorEffect.perm_of_ne (h : VectorEffect t r m passes result passes')
    (hne : r.documentId ≠ d) : (passes'.filter (VectorBackfillPass.isOf d)).Perm
      (passes.filter (VectorBackfillPass.isOf d)) := by
  have hothers : (r.others passes).filter (VectorBackfillPass.isOf d) =
      passes.filter (VectorBackfillPass.isOf d) := by
    rw [VectorBackfillRequest.others, List.filter_filter]
    refine List.filter_congr fun pass _ ↦ ?_
    by_cases howns : r.owns pass
    · rw [VectorBackfillPass.isOf_of_owns howns hne, Bool.false_and]
    · rw [decide_eq_true howns, Bool.and_true]
  cases h with
  | vacant => exact List.Perm.refl _
  | complete => exact List.Perm.refl _
  | failed => exact List.Perm.refl _
  | cleared => exact List.Perm.of_eq hothers
  | @started terminal position page token =>
    have hnew : (r.newPass m.now position terminal token).isOf d = false :=
      VectorBackfillPass.isOf_of_owns ⟨rfl, rfl, rfl, rfl⟩ hne
    rw [List.filter_append, hothers, List.filter_singleton, hnew]
    exact List.Perm.of_eq (List.append_nil _)
  | refused => exact List.Perm.refl _
  | repeated => exact List.Perm.refl _
  | removed _ hindex hholds =>
    exact filter_swapRemove_perm hindex (VectorBackfillPass.isOf_of_owns hholds.owns hne)
  | advanced _ hindex hholds =>
    have hold := VectorBackfillPass.isOf_of_owns hholds.owns hne
    exact filter_set_perm hindex hold hold

/-- The bounds on the passes that other documents may exhaust. -/
def VectorBackfillRequest.Crowded (r : VectorBackfillRequest) (passes : List VectorBackfillPass) :
    Prop :=
  maxVectorPasses ≤ (r.others passes).length ∨
    maxVectorPassesPerChannel ≤ (r.others passes).countP fun pass ↦ pass.channelId = r.channel.id

/-- What is left of admission is a matter of the document. -/
theorem canAdmitVectorPass_iff_of_not_crowded (h : ¬r.Crowded passes) :
    canAdmitVectorPass (r.others passes) r.channel.id r.documentId r.capabilityId = true ↔
      ((r.others passes).countP fun pass ↦ pass.documentId = r.documentId) <
        maxVectorPassesPerDocument ∧
      ((r.others passes).countP fun pass ↦
        pass.documentId = r.documentId ∧ pass.capabilityId = r.capabilityId) <
          maxVectorPassesPerAuthority := by
  rw [VectorBackfillRequest.Crowded, not_or, not_le, not_le] at h
  rw [canAdmitVectorPass_iff]
  exact ⟨fun hadmitted ↦ hadmitted.2.2, fun hdocument ↦ ⟨h.1, h.2, hdocument⟩⟩

/-- Where there are fewer passes there is a token, too. -/
theorem exists_mintVectorToken {draw : ℕ → Option VectorToken}
    (hsub : ∀ pass ∈ passes', pass ∈ passes)
    (h : ∃ token, mintVectorToken draw passes = .ok (some token)) :
    ∃ token, mintVectorToken draw passes' = .ok (some token) := by
  refine exists_mint_of_taken (fun x hx ↦ ?_) h
  obtain ⟨pass, hpass, hx⟩ := List.any_eq_true.mp hx
  exact List.any_eq_true.mpr ⟨pass, hsub pass hpass, hx⟩

/-- What two lists of passes have in common when a document sees the same of both. -/
structure VectorBackfillRequest.Alike (r : VectorBackfillRequest)
    (m m' : Moment vectorContinuationLength) (passes passes' : List VectorBackfillPass) :
    Prop where
  perm : (passes.filter (VectorBackfillPass.isOf r.documentId)).Perm
    (passes'.filter (VectorBackfillPass.isOf r.documentId))
  wellFormed : VectorPassesWellFormed passes
  wellFormed' : VectorPassesWellFormed passes'
  unexpired : ∀ pass ∈ passes, m.now < pass.expiresAt
  unexpired' : ∀ pass ∈ passes', m'.now < pass.expiresAt
  mint : ∃ token, mintVectorToken m.draw passes = .ok (some token)
  mint' : ∃ token, mintVectorToken m'.draw passes' = .ok (some token)

theorem VectorBackfillRequest.Alike.symm (h : r.Alike m m' passes passes') :
    r.Alike m' m passes' passes :=
  ⟨h.perm.symm, h.wellFormed', h.wellFormed, h.unexpired', h.unexpired, h.mint', h.mint⟩

/-- The passes that a request may use are in both lists. -/
theorem VectorBackfillRequest.Alike.holds (h : r.Alike m m' passes passes')
    {pass : VectorBackfillPass} (hpass : pass ∈ passes) (hholds : r.Holds m.now pass) :
    pass ∈ passes' ∧ r.Holds m'.now pass := by
  have hmem : pass ∈ passes'.filter (VectorBackfillPass.isOf r.documentId) :=
    h.perm.mem_iff.mp (List.mem_filter.mpr ⟨hpass, decide_eq_true hholds.owns.2.1⟩)
  have hpass' := (List.mem_filter.mp hmem).1
  exact ⟨hpass', hholds.owns, h.unexpired' pass hpass'⟩

/-- A count of passes of the document is the same in both lists. -/
theorem VectorBackfillRequest.Alike.countP_others (h : r.Alike m m' passes passes')
    {p : VectorBackfillPass → Bool} (hp : ∀ pass, p pass = true → pass.documentId = r.documentId) :
    (r.others passes).countP p = (r.others passes').countP p := by
  have hcount : ∀ l : List VectorBackfillPass, (r.others l).countP p =
      ((l.filter (VectorBackfillPass.isOf r.documentId)).filter fun pass ↦ ¬r.owns pass).countP
        p := by
    intro l
    rw [VectorBackfillRequest.others, List.countP_filter, List.filter_filter, List.countP_filter]
    refine List.countP_congr fun pass _ ↦ ?_
    simp only [Bool.and_eq_true, VectorBackfillPass.isOf, decide_eq_true_eq]
    exact ⟨fun hboth ↦ ⟨hboth.1, hboth.2, hp pass hboth.1⟩, fun hboth ↦ ⟨hboth.1, hboth.2.1⟩⟩
  rw [hcount, hcount]
  exact (h.perm.filter _).countP_eq _

/-- There is room in both lists, where it is not the others that take it up. -/
theorem VectorBackfillRequest.Alike.canAdmit (h : r.Alike m m' passes passes')
    (hadmitted : canAdmitVectorPass (r.others passes) r.channel.id r.documentId
      r.capabilityId = true)
    (hcrowded : canAdmitVectorPass (r.others passes') r.channel.id r.documentId
      r.capabilityId = false → ¬r.Crowded passes') :
    canAdmitVectorPass (r.others passes') r.channel.id r.documentId r.capabilityId = true := by
  refine Bool.not_eq_false _ ▸ fun hfull ↦ ?_
  have hnot := Bool.eq_false_iff.mp hfull
  rw [Ne, canAdmitVectorPass_iff_of_not_crowded (hcrowded hfull)] at hnot
  obtain ⟨-, -, hdocument, hauthority⟩ := canAdmitVectorPass_iff.mp hadmitted
  rw [h.countP_others fun _ ↦ of_decide_eq_true] at hdocument
  rw [h.countP_others fun _ hp ↦ (of_decide_eq_true hp).1] at hauthority
  exact hnot ⟨hdocument, hauthority⟩

variable (ht : t.restrict r.documentId = u.restrict r.documentId)
include ht

theorem vectorBackfillOrigin_local (h : r.Alike m m' passes passes')
    (hcrowded : (vectorBackfillOrigin t r m passes).1 = .ok .backpressure → ¬r.Crowded passes)
    (hcrowded' : (vectorBackfillOrigin u r m' passes').1 = .ok .backpressure →
      ¬r.Crowded passes') :
    (vectorBackfillOrigin t r m passes).1.map StoreVectorBackfillOutcome.withoutToken =
      (vectorBackfillOrigin u r m' passes').1.map StoreVectorBackfillOutcome.withoutToken := by
  obtain ⟨token, hmint⟩ : ∃ token, mintVectorToken m.draw (r.others passes) =
      .ok (some token) :=
    exists_mintVectorToken (fun pass hpass ↦ (List.mem_filter.mp hpass).1) h.mint
  obtain ⟨token', hmint'⟩ : ∃ token, mintVectorToken m'.draw (r.others passes') =
      .ok (some token) :=
    exists_mintVectorToken (fun pass hpass ↦ (List.mem_filter.mp hpass).1) h.mint'
  rw [VectorBackfillRequest.others] at hmint hmint'
  simp only [vectorBackfillOrigin, highWaterSequenceIn_congr ht, vectorBackfillIn_congr ht, hmint,
    hmint'] at hcrowded hcrowded' ⊢
  cases hterminal : highWaterSequenceIn u r.documentId with
  | none => rfl
  | some terminal =>
    simp only [hterminal] at hcrowded hcrowded' ⊢
    cases hpage : vectorBackfillIn u r.documentId .origin terminal r.oplogVersion
      r.metadataByteLimit with
    | error e => rfl
    | ok page =>
      simp only [hpage] at hcrowded hcrowded' ⊢
      cases hmore : page.hasMore with
      | false => rfl
      | true =>
        simp only [hmore, if_true] at hcrowded hcrowded' ⊢
        cases hlast : page.lastExaminedSequence with
        | none => rfl
        | some position =>
          simp only [hlast, ← VectorBackfillRequest.others.eq_def] at hcrowded hcrowded' ⊢
          cases hadmitted : canAdmitVectorPass (r.others passes) r.channel.id r.documentId
            r.capabilityId with
          | true =>
            rw [h.canAdmit hadmitted fun hfull ↦ hcrowded' (by rw [hfull]; rfl)]
            rfl
          | false =>
            have hfull' : canAdmitVectorPass (r.others passes') r.channel.id r.documentId
                r.capabilityId = false := by
              refine Bool.eq_false_iff.mpr fun hadmitted' ↦ ?_
              have hback := h.symm.canAdmit hadmitted' fun hfull ↦ hcrowded (by rw [hfull]; rfl)
              exact absurd (hadmitted.symm.trans hback) (by simp)
            rw [hfull']
            rfl

theorem vectorBackfillToken_local (h : r.Alike m m' passes passes') (encoded : List UInt8) :
    (vectorBackfillToken t r m encoded passes).1.map StoreVectorBackfillOutcome.withoutToken =
      (vectorBackfillToken u r m' encoded passes').1.map
        StoreVectorBackfillOutcome.withoutToken := by
  by_cases hheld : ∃ pass ∈ passes, r.Holds m.now pass ∧ ∃ token : VectorToken,
      token.toList = encoded ∧ vectorPassContainsToken pass token = true
  · obtain ⟨pass, hpass, hholds, token, rfl, hcontains⟩ := hheld
    obtain ⟨hpass', hholds'⟩ := h.holds hpass hholds
    rw [vectorPassContainsToken, Bool.or_eq_true, Option.any_eq_true, Option.any_eq_true]
      at hcontains
    rcases hcontains with ⟨current, hcurrent, hmatch⟩ | ⟨retry, hretry, hmatch⟩
    · obtain rfl := of_decide_eq_true hmatch
      obtain ⟨next, hmint⟩ := h.mint
      obtain ⟨next', hmint'⟩ := h.mint'
      rw [vectorBackfillToken_current h.wellFormed hpass hholds hcurrent,
        vectorBackfillToken_current h.wellFormed' hpass' hholds' hcurrent,
        vectorBackfillIn_congr ht]
      cases vectorBackfillIn u r.documentId current.position pass.terminalSequence r.oplogVersion
        r.metadataByteLimit with
      | error e => cases e <;> rfl
      | ok page =>
        simp only [nextVectorPosition, hmint, hmint']
        cases page.hasMore with
        | false => rfl
        | true => cases page.lastExaminedSequence <;> rfl
    · obtain rfl := of_decide_eq_true hmatch
      rw [vectorBackfillToken_retry h.wellFormed hpass hholds hretry,
        vectorBackfillToken_retry h.wellFormed' hpass' hholds' hretry]
  · have hnone : ∀ pass ∈ passes, r.Holds m.now pass → ∀ token : VectorToken,
        token.toList = encoded → vectorPassContainsToken pass token = false :=
      fun pass hpass hholds token htoken ↦ Bool.eq_false_iff.mpr fun hcontains ↦
        hheld ⟨pass, hpass, hholds, token, htoken, hcontains⟩
    rw [vectorBackfillToken_invalid hnone, vectorBackfillToken_invalid fun pass hpass hholds ↦ by
      obtain ⟨hback, hholds⟩ := h.symm.holds hpass hholds
      exact hnone pass hback hholds]

/-- **What a vector-backfill request is answered is a matter of its document.** -/
theorem vectorBackfillPasses_local (h : r.Alike m m' passes passes')
    (hcrowded : (vectorBackfillPasses t r m passes).1 = .ok .backpressure → ¬r.Crowded passes)
    (hcrowded' : (vectorBackfillPasses u r m' passes').1 = .ok .backpressure →
      ¬r.Crowded passes') :
    (vectorBackfillPasses t r m passes).1.map StoreVectorBackfillOutcome.withoutToken =
      (vectorBackfillPasses u r m' passes').1.map StoreVectorBackfillOutcome.withoutToken := by
  rw [vectorBackfillPasses] at hcrowded ⊢
  rw [vectorBackfillPasses] at hcrowded' ⊢
  cases hstart : r.start with
  | origin =>
    simp only [hstart] at hcrowded hcrowded' ⊢
    exact vectorBackfillOrigin_local ht h hcrowded hcrowded'
  | continuation encoded => exact vectorBackfillToken_local ht h encoded

end VectorBackfill

end Renee
