import Renee.Gateway.IdentitySpec

/-!
# Rotation sustains itself, if it is punctual

A rotation announces the leaf after next for a week from now, whenever that is.  If it comes in the
first week of the leaf it moves on to, the new windows overlap; if it comes in the second week,
which `prepare` admits, they do not, and the manifest that has been persisted is one that no
preparation will ever load again.

* `Sustained` is what a successful preparation owes: its manifest loads as long as it is in the
  directory, and its leaf is valid until the deadline it returns.
* `rotation_sustained_iff`: in a run of punctual preparations every successful one is `Sustained`,
  and after such a run a successful preparation is `Sustained` exactly if it is punctual.
-/

set_option autoImplicit false

namespace Renee.Gateway

open ByteString Fallible

/-! ## Runs of preparations -/

/-- Nothing has been prepared yet. -/
def Directory.empty : Directory := fun _ ↦ none

/-- What a successful preparation owes. -/
structure Sustained (k : Cryptography) (d : Directory) (c : Circumstances)
    (prepared : PreparedGatewayIdentity k) : Prop where
  /-- What was handed out is what was persisted. -/
  manifest : d .manifest = some prepared.manifest
  /-- It can be loaded as long as it is there. -/
  loads : ∀ later : List Circumstances, (run k d later) .manifest = d .manifest →
    (advertised k (run k d later)).isSome = true
  /-- The leaf is valid now and until the deadline. -/
  leaf : ∃ certificate, (k.certificateChain prepared.transport).head? = some certificate ∧
    k.notBefore certificate ≤ c.now.unixTimestamp.toInt ∧
    c.now.unixTimestamp.toInt + prepared.rotationDelay < k.notAfter certificate

/-- Every successful preparation of a run is sustained. -/
def SustainedRun (k : Cryptography) : Directory → List Circumstances → Prop
  | _, [] => True
  | d, c :: steps => (∀ prepared, ((prepare k c).run d).1 = .ok prepared →
      Sustained k (after k d c) c prepared) ∧ SustainedRun k (after k d c) steps

/-- Every preparation of a run is punctual. -/
def PunctualRun (k : Cryptography) : Directory → List Circumstances → Prop
  | _, [] => True
  | d, c :: steps => Punctual k d c ∧ PunctualRun k (after k d c) steps

instance decidablePunctualRun (k : Cryptography) :
    ∀ (d : Directory) (steps : List Circumstances), Decidable (PunctualRun k d steps)
  | _, [] => inferInstanceAs (Decidable True)
  | d, c :: steps =>
    have := decidablePunctualRun k (after k d c) steps
    inferInstanceAs (Decidable (_ ∧ _))

/-- The clock never goes back. -/
def NondecreasingClock (steps : List Circumstances) : Prop :=
  steps.IsChain fun c c' ↦ c.now.unixTimestampNanos ≤ c'.now.unixTimestampNanos

/-! ## The control key stays -/

section ControlKey

variable {k : Cryptography} {c : Circumstances} {encoded : List UInt8}

/-- The file of the control key. -/
def Keyed (encoded : List UInt8) (d : Directory) : Prop := d .controlKey = some encoded

theorem Keyed.update {d : Directory} (h : Keyed encoded d) {file : File} (hne : file ≠ .controlKey)
    (contents : List UInt8) : Keyed encoded (Function.update d file (some contents)) := by
  rw [Keyed, Function.update_of_ne hne.symm]
  exact h

theorem generateLeaf_keyed {epoch : U32} {notBefore : OffsetDateTime} :
    Triple (Keyed encoded) (generateLeaf k c epoch notBefore) (fun _ ↦ Keyed encoded)
      (Keyed encoded) :=
  (generateLeaf_triple (fun _ hd ↦ hd) fun _ contents hd ↦ hd.update (by simp) contents).mono
    (fun _ hd ↦ hd) (fun _ _ hd ↦ hd.1) fun _ hd ↦ hd

theorem persistManifest_keyed {m : CertificateManifest} {control : k.KeyPair} :
    Triple (Keyed encoded) (persistManifest k c m control) (fun _ ↦ Keyed encoded)
      (Keyed encoded) :=
  atomicWrite_triple (fun _ hd ↦ hd.update (by simp) _) (fun _ hd ↦ hd.update (by simp) _)
    fun _ hd ↦ hd

theorem initializeManifest_keyed {control : k.KeyPair} :
    Triple (Keyed encoded) (initializeManifest k c control) (fun _ ↦ Keyed encoded)
      (Keyed encoded) := by
  have hsame : ∀ d, Keyed encoded d → Keyed encoded d := fun _ hd ↦ hd
  refine Triple.ofOption_bind hsame fun _ _ ↦ Triple.bind generateLeaf_keyed fun _ ↦ ?_
  refine Triple.ofOption_bind hsame fun _ _ ↦ Triple.bind generateLeaf_keyed fun _ ↦ ?_
  exact Triple.bind persistManifest_keyed fun _ ↦ Triple.pure hsame

theorem activateManifest_keyed {m : CertificateManifest} {control : k.KeyPair} :
    Triple (Keyed encoded) (activateManifest k c control m) (fun _ ↦ Keyed encoded)
      (Keyed encoded) := by
  have hsame : ∀ d, Keyed encoded d → Keyed encoded d := fun _ hd ↦ hd
  rw [activateManifest]
  split
  · refine Triple.ofOption_bind hsame fun _ _ ↦ Triple.ofOption_bind hsame fun _ _ ↦ ?_
    refine Triple.bind generateLeaf_keyed fun _ ↦ ?_
    exact Triple.bind persistManifest_keyed fun _ ↦ Triple.pure hsame
  · exact Triple.pure hsame

/-- **A preparation never replaces the control key.** -/
theorem prepare_keyed :
    Triple (Keyed encoded) (prepare k c) (fun _ ↦ Keyed encoded) (Keyed encoded) := by
  have hsame : ∀ d, Keyed encoded d → Keyed encoded d := fun _ hd ↦ hd
  refine Triple.reject_bind hsame fun _ ↦ ?_
  refine Triple.bind (Q := fun _ ↦ Keyed encoded) ?_ fun control ↦ ?_
  · refine Triple.bind (Q := fun file d ↦ file = some encoded ∧ Keyed encoded d)
      (read_triple (fun _ hd ↦ ⟨hd, hd⟩) hsame) fun file ↦ Triple.assume (fun _ hd ↦ hd.1) ?_
    rintro rfl
    exact Triple.ofOption (fun _ hd ↦ hd.2) fun _ _ _ hd ↦ hd.2
  refine Triple.bind (Q := fun _ ↦ Keyed encoded) ?_ fun m ↦ ?_
  · refine Triple.bind (read_triple (Q := fun _ ↦ Keyed encoded) hsame hsame) fun file ↦ ?_
    cases file with
    | some bytes => exact Triple.ofExcept hsame fun _ _ _ hd ↦ hd
    | none => exact initializeManifest_keyed
  refine Triple.reject_bind hsame fun _ ↦ Triple.reject_bind hsame fun _ ↦ ?_
  refine Triple.bind activateManifest_keyed fun m' ↦ Triple.reject_bind hsame fun _ ↦ ?_
  exact serve_kept

theorem keyed_run {d : Directory} (h : Keyed encoded d) (steps : List Circumstances) :
    Keyed encoded (run k d steps) :=
  run_of_triple (fun _ ↦ prepare_keyed) h steps

end ControlKey

/-! ## Runs -/

section Runs

variable {k : Cryptography} {d : Directory} {c : Circumstances}

/-- **One preparation.**  From a directory that can be prepared, a successful preparation is
sustained exactly if it is punctual. -/
theorem sustained_iff (hk : k.Lawful) (hsound : Sound k d) {prepared : PreparedGatewayIdentity k}
    (hprepared : ((prepare k c).run d).1 = .ok prepared) :
    Sustained k (after k d c) c prepared ↔ Punctual k d c := by
  obtain ⟨control, m, hadvertises, hoverlap, hopen, hserves⟩ :=
    (prepare_spec hk).ok (s := d) ⟨hsound, Iff.rfl⟩ (Prod.ext hprepared rfl)
  have hadvertised := hadvertises.advertised hk
  constructor
  · intro hsustained
    by_contra hlate
    have hloads := hsustained.loads [] rfl
    rw [run, List.foldl_nil, after, hadvertised, if_neg (fun h ↦ hlate (hoverlap.mp h))] at hloads
    exact absurd hloads (by simp)
  · intro hpunctual
    have hover := hoverlap.mpr hpunctual
    refine ⟨hadvertises.manifest.trans (congrArg some hserves.manifest.symm), fun later hsame ↦
      ?_, ?_⟩
    · obtain ⟨encoded, hfile, hkey⟩ := hadvertises.controlKey
      have hlater : (run k (after k d c) later) .controlKey = some encoded := keyed_run hfile later
      rw [advertised, hlater, hsame]
      rw [advertised, hfile] at hadvertised
      rw [after]
      rw [hadvertised, if_pos hover]
      rfl
    · obtain ⟨certificate, hcertificate, hstart, hend⟩ := hserves.leaf
      have hdeadline := hserves.deadline
      rw [CertificateManifest.Overlaps] at hover
      exact ⟨certificate, hcertificate, by omega, by omega⟩

/-- A punctual preparation leaves a directory that can be prepared, whether it succeeds or not. -/
theorem sound_after (hk : k.Lawful) (hsound : Sound k d) (hpunctual : Punctual k d c) :
    Sound k (after k d c) := by
  have hrun := prepare_spec (c := c) hk d ⟨hsound, Iff.rfl⟩
  rw [after]
  split at hrun
  · rename_i heq
    rw [heq]
    obtain ⟨control, m, hadvertises, hoverlap, -⟩ := hrun
    exact hadvertises.sound (hoverlap.mpr hpunctual)
  · rename_i heq
    rw [heq]
    exact hrun hpunctual

theorem sound_run (hk : k.Lawful) {steps : List Circumstances} (hsound : Sound k d)
    (hpunctual : PunctualRun k d steps) : Sound k (run k d steps) := by
  induction steps generalizing d with
  | nil => exact hsound
  | cons c steps ih => exact ih (sound_after hk hsound hpunctual.1) hpunctual.2

theorem sustainedRun (hk : k.Lawful) {steps : List Circumstances} (hsound : Sound k d)
    (hpunctual : PunctualRun k d steps) : SustainedRun k d steps := by
  induction steps generalizing d with
  | nil => trivial
  | cons c steps ih =>
    exact ⟨fun _ hprepared ↦ (sustained_iff hk hsound hprepared).mpr hpunctual.1,
      ih (sound_after hk hsound hpunctual.1) hpunctual.2⟩

end Runs

/-- **Rotation sustains itself exactly while it is punctual.**  From an empty directory, whatever
the clock shows and whatever fails, in a run of punctual preparations every successful one leaves a
manifest that can be loaded and serves a leaf that is valid until its deadline; and after such a
run, a successful preparation does so exactly if it is punctual. -/
theorem rotation_sustained_iff (k : Cryptography) (hk : k.Lawful) (steps : List Circumstances)
    (hpunctual : PunctualRun k .empty steps) :
    SustainedRun k .empty steps ∧ ∀ c prepared,
      ((prepare k c).run (run k .empty steps)).1 = .ok prepared →
        (Sustained k (after k (run k .empty steps) c) c prepared ↔
          Punctual k (run k .empty steps) c) := by
  have hsound : Sound k Directory.empty := sound_of_vacant rfl
  exact ⟨sustainedRun hk hsound hpunctual, fun c prepared hprepared ↦
    sustained_iff hk (sound_run hk hsound hpunctual) hprepared⟩

/-! ## A gateway that is started again after two weeks -/

namespace Sample

/-- A certificate is read back from the two fields of its file. -/
def loadPem (pem : List UInt8) : Option (I64 × I64) :=
  match copyArray 8 pem 0, copyArray 8 pem 8 with
  | .ok notBefore, .ok notAfter => some (.fromBeBytes notBefore, .fromBeBytes notAfter)
  | _, _ => none

theorem loadPem_append (first last : I64) :
    loadPem (first.toBeBytes ++ (last.toBeBytes ++ [])) = some (first, last) := by
  have hfirst : (first.toBeBytes ++ (last.toBeBytes ++ [])).drop 0 =
      first.toBeBytes ++ (last.toBeBytes ++ []) := rfl
  have hlast := drop_field hfirst (I64.length_toBeBytes _)
  rw [loadPem, copyArray_eq ⟨_, I64.length_toBeBytes first⟩ hfirst,
    copyArray_eq ⟨_, I64.length_toBeBytes last⟩ hlast]
  exact congrArg some (Prod.ext (I64.fromBeBytes_toBeBytes first rfl)
    (I64.fromBeBytes_toBeBytes last rfl))

/-- A signature scheme and a certificate library that are easy to compute: a signature is a mark,
and a certificate its validity period. -/
def cryptography : Cryptography where
  KeyPair := Unit
  Certificate := I64 × I64
  Identity := I64 × I64
  generatePkcs8 := fun _ ↦ some []
  fromPkcs8 := fun _ ↦ some ()
  publicKey := fun _ ↦ List.replicate 32 0
  sign := fun _ _ ↦ List.replicate 64 1
  verify := fun _ _ signature ↦ decide (signature = List.replicate 64 1)
  selfSigned := fun notBefore notAfter _ ↦ some (notBefore.unixTimestamp, notAfter.unixTimestamp)
  certificateChain := fun identity ↦ [identity]
  hash := fun certificate ↦
    ⟨certificate.1.toBeBytes ++ certificate.2.toBeBytes ++ List.replicate 16 0, by simp; rfl⟩
  toPem := fun certificate ↦ certificate.1.toBeBytes ++ (certificate.2.toBeBytes ++ [])
  toSecretPem := fun _ ↦ []
  loadPemfiles := fun pem _ ↦ loadPem pem
  notBefore := fun certificate ↦ certificate.1.toInt
  notAfter := fun certificate ↦ certificate.2.toInt

theorem cryptography_lawful : cryptography.Lawful where
  length_sign := fun _ _ ↦ List.length_replicate
  verify_sign := fun _ _ ↦ decide_eq_true (p := List.replicate 64 (1 : UInt8) = _) rfl
  loadPemfiles_bundle := by
    rintro notBefore notAfter entropy identity -
    refine ⟨identity, ?_, rfl⟩
    have hbundle : cryptography.bundle identity =
        identity.1.toBeBytes ++ (identity.2.toBeBytes ++ []) := by
      change (identity.1.toBeBytes ++ (identity.2.toBeBytes ++ [])) ++ [] ++ [] = _
      rw [List.append_nil, List.append_nil]
    rw [hbundle]
    exact loadPem_append ..
  validity := by
    rintro notBefore notAfter entropy identity h certificate hcertificate
    obtain rfl := Option.some_inj.mp h
    rw [List.mem_singleton.mp hcertificate]
    exact ⟨rfl, rfl⟩

/-- A preparation at a second at which nothing fails. -/
def moment (seconds : ℤ) (h : -377705116800 ≤ seconds ∧ seconds ≤ 253402300799) :
    Circumstances where
  now := ⟨seconds * 10 ^ 9, by omega, by omega⟩
  createsDirectory := true
  reads := fun _ ↦ true
  writes := fun _ ↦ .written
  keyEntropy := 0
  leafEntropy := fun _ ↦ 0

/-- The first start. -/
def start : Circumstances := Sample.moment 2000000000 (by decide)

/-- A start one week later, when the next leaf takes over. -/
def punctual : Circumstances := Sample.moment (2000000000 + 604800) (by decide)

/-- A start two weeks after the first, a week into the window of the next leaf. -/
def late : Circumstances := Sample.moment (2000000000 + 1209600) (by decide)

end Sample

/-- A gateway that is started again after a week. -/
theorem rotation_sustained_sample :
    SustainedRun Sample.cryptography .empty [Sample.start, Sample.punctual] :=
  (rotation_sustained_iff Sample.cryptography Sample.cryptography_lawful
    [Sample.start, Sample.punctual] (by decide +kernel)).1

/-- A gateway that is started again after two weeks persists a manifest that it will never load
again, and serves a leaf that is not valid until the deadline. -/
theorem rotation_not_sustained : ¬∀ (k : Cryptography), k.Lawful → ∀ steps : List Circumstances,
    NondecreasingClock steps → SustainedRun k .empty steps := by
  intro h
  have hclock : NondecreasingClock [Sample.start, Sample.late] :=
    List.isChain_cons_cons.mpr ⟨by decide, .singleton _⟩
  obtain ⟨-, hlate, -⟩ := h Sample.cryptography Sample.cryptography_lawful _ hclock
  let d := after Sample.cryptography .empty Sample.start
  -- the late start succeeds, and leaves a manifest that is refused
  have hrun : ((prepare Sample.cryptography Sample.late).run d).1.isOk = true ∧
      (advertised Sample.cryptography (after Sample.cryptography d Sample.late)).isSome =
        false := by
    decide +kernel
  obtain ⟨hok, hrefused⟩ := hrun
  cases hprepared : ((prepare Sample.cryptography Sample.late).run d).1 with
  | error e =>
    rw [hprepared] at hok
    exact absurd hok (by simp [Except.isOk, Except.toBool])
  | ok prepared =>
    have hloads := (hlate prepared hprepared).loads [] rfl
    exact absurd (hloads.symm.trans hrefused) (by simp)

end Renee.Gateway
