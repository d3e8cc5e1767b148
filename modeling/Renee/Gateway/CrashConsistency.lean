import Renee.Gateway.Rotation

/-!
# The identity survives interruptions

A preparation writes the key, the leaves and the manifest one after the other, and may be
interrupted between any two of these writes.  What an interruption leaves is what a failure leaves:
one before a write is the failure of that write, one after it a write that has been made and does
not return.  No preparation writes a file twice, so the outcomes of its `Circumstances` are all the
interruptions there are.

The order of the writes is what counts.  A leaf is written before a manifest that names it, and a
rotation writes only the leaf after the two that the manifest on disk names; so a manifest that is
there is `Intact` at every point of every run, whether its windows overlap or not.

* `intact_run`: what a run of preparations leaves, however each of them ends.
* `prepare_raises`: what a preparation may fail with after that.
* `gateway_identity_crash_consistent`: both together.
-/

set_option autoImplicit false

namespace Renee.Gateway

open ByteString Fallible

/-! ## Intact directories -/

/-- A leaf file holds the certificate that the manifest names. -/
def Holds (k : Cryptography) (d : Directory) (e : CertificateEpoch) : Prop :=
  ∃ pem identity, d (.leaf e.epoch) = some pem ∧ k.loadPemfiles pem pem = some identity ∧
    requireLeafHash k identity e.hash = .ok ()

/-- The manifest is complete and signed by the key of the directory, and both its leaves are
there. -/
structure Intact (k : Cryptography) (d : Directory) (control : k.KeyPair)
    (m : CertificateManifest) : Prop where
  controlKey : ControlKey k d control
  manifest : d .manifest = some (encodeSignedManifest k m control)
  current : Holds k d m.current
  next : Holds k d m.next

/-- A manifest that is there has been advertised by a preparation, be it usable or not. -/
def Advertised (k : Cryptography) (d : Directory) : Prop :=
  d .manifest ≠ none → ∃ control m, Advertises k d control m

section Intact

variable {k : Cryptography} {d : Directory} {control : k.KeyPair} {m : CertificateManifest}
  {e : CertificateEpoch}

theorem leafHash_eq_ok {identity : k.Identity} {certificate : k.Certificate} {error : GatewayError}
    (h : (k.certificateChain identity).head? = some certificate) :
    leafHash k identity error = .ok (k.hash certificate) := by
  rw [leafHash, h]

/-- A leaf that was written for its epoch loads, with its hash. -/
theorem Leaf.holds (hk : k.Lawful) (h : Leaf k d e) : Holds k d e := by
  obtain ⟨notBefore, notAfter, entropy, identity, certificate, hidentity, hcertificate, hhash,
    hstored, -, -⟩ := h.stored
  obtain ⟨loaded, hloaded, hchain⟩ := hk.loadPemfiles_bundle _ _ _ _ hidentity
  refine ⟨_, loaded, hstored, hloaded, ?_⟩
  rw [← hchain] at hcertificate
  rw [requireLeafHash, leafHash_eq_ok hcertificate, hhash]
  exact if_neg (not_not.mpr rfl)

theorem Advertises.intact (hk : k.Lawful) (h : Advertises k d control m) :
    Intact k d control m where
  controlKey := h.controlKey
  manifest := h.manifest
  current := h.current.holds hk
  next := h.next.holds hk

theorem Advertises.advertised_of (h : Advertises k d control m) : Advertised k d :=
  fun _ ↦ ⟨control, m, h⟩

theorem advertised_of_vacant (h : d .manifest = none) : Advertised k d := fun hne ↦ absurd h hne

theorem Sound.advertised_of (h : Sound k d) : Advertised k d := fun hne ↦ by
  obtain ⟨control, m, hadvertises, -⟩ := h hne
  exact ⟨control, m, hadvertises⟩

end Intact

/-! ## What a preparation leaves -/

section Runs

variable {k : Cryptography} {c : Circumstances} {control : k.KeyPair} {m : CertificateManifest}

theorem loadOrCreateControlKey_advertised :
    Triple (Advertised k) (loadOrCreateControlKey k c)
      (fun control d ↦ ControlKey k d control ∧ Advertised k d) (Advertised k) := by
  refine Triple.bind (Q := fun encoded d ↦ d .controlKey = encoded ∧ Advertised k d)
    (read_triple (fun d hd ↦ ⟨rfl, hd⟩) fun d hd ↦ hd) fun encoded ↦ ?_
  cases encoded with
  | some encoded =>
    exact Triple.ofOption (fun d hd ↦ hd.2) fun control d hkey hd ↦ ⟨⟨_, hd.1, hkey⟩, hd.2⟩
  | none =>
    -- without a key there is no manifest, and a key that is written now leaves it so
    have hmanifest : ∀ d, d .controlKey = none ∧ Advertised k d → d .manifest = none := by
      rintro d ⟨hnone, hadvertised⟩
      by_contra hne
      obtain ⟨control, m, hadvertises⟩ := hadvertised hne
      obtain ⟨encoded, hfile, -⟩ := hadvertises.controlKey
      exact absurd (hnone.symm.trans hfile) (by simp)
    have hwrite : ∀ document d, d .controlKey = none ∧ Advertised k d →
        Function.update d .controlKey (some document) .manifest = none := fun document d hd ↦ by
      rw [Function.update_of_ne (by simp)]
      exact hmanifest d hd
    refine Triple.ofOption_bind (fun d hd ↦ hd.2) fun document _ ↦ ?_
    refine Triple.bind (Q := fun _ d ↦ d .controlKey = some document ∧ d .manifest = none)
      (atomicWrite_triple (fun d hd ↦ ⟨Function.update_self .., hwrite document d hd⟩)
        (fun d hd ↦ advertised_of_vacant (hwrite document d hd)) fun d hd ↦ hd.2) fun _ ↦ ?_
    exact Triple.ofOption (fun d hd ↦ advertised_of_vacant hd.2) fun control d hkey hd ↦
      ⟨⟨_, hd.1, hkey⟩, advertised_of_vacant hd.2⟩

theorem loadManifest_advertised (hk : k.Lawful) :
    Triple (fun d ↦ ControlKey k d control ∧ Advertised k d) (loadManifest k c control)
      (fun m d ↦ Advertises k d control m) (Advertised k) := by
  refine Triple.bind (Q := fun encoded d ↦ d .manifest = encoded ∧ ControlKey k d control ∧
    Advertised k d) (read_triple (fun d hd ↦ ⟨rfl, hd⟩) fun d hd ↦ hd.2) fun encoded ↦ ?_
  cases encoded with
  | some encoded =>
    refine Triple.ofExcept (fun d hd ↦ hd.2.2) fun m d hdecode ⟨hfile, hkey, hadvertised⟩ ↦ ?_
    obtain ⟨control', m', hadvertises⟩ := hadvertised (by rw [hfile]; simp)
    obtain rfl := hkey.unique hadvertises.controlKey
    obtain rfl := Option.some_inj.mp (hfile.symm.trans hadvertises.manifest)
    rw [decodeAndVerifyManifest_encode hk] at hdecode
    cases hvalid : validateManifest m'.current m'.next with
    | error e =>
      rw [hvalid] at hdecode
      exact absurd hdecode (by simp [Except.map])
    | ok u =>
      rw [hvalid] at hdecode
      rw [← Except.ok.inj hdecode]
      exact hadvertises
  | none =>
    exact Triple.mono initializeManifest_triple (fun d hd ↦ ⟨hd.1, hd.2.1⟩) (fun m d hd ↦ hd.1)
      fun d hd ↦ hd.advertised_of

theorem activateManifest_advertised :
    Triple (Advertises k · control m) (activateManifest k c control m)
      (fun m' d ↦ Advertises k d control m') (Advertised k) := by
  rw [activateManifest]
  split
  · exact Triple.mono (rotateManifest_triple (fun d hd ↦ hd.advertised_of)
      fun d m' _ _ hd ↦ hd.advertised_of) (fun _ hd ↦ hd) (fun _ _ hd ↦ hd.1) fun _ hd ↦ hd
  · exact Triple.pure fun d hd ↦ hd

/-- **However a preparation ends**, a manifest that is there has been advertised. -/
theorem prepare_advertised (hk : k.Lawful) :
    Triple (Advertised k) (prepare k c) (fun _ ↦ Advertised k) (Advertised k) := by
  have hadvertised : ∀ {control m} d, Advertises k d control m → Advertised k d :=
    fun _ hd ↦ hd.advertised_of
  refine Triple.reject_bind (fun _ hd ↦ hd) fun _ ↦ ?_
  refine Triple.bind loadOrCreateControlKey_advertised fun control ↦ ?_
  refine Triple.bind (loadManifest_advertised hk) fun m ↦ ?_
  refine Triple.reject_bind hadvertised fun _ ↦ Triple.reject_bind hadvertised fun _ ↦ ?_
  refine Triple.bind activateManifest_advertised fun m' ↦ Triple.reject_bind hadvertised fun _ ↦ ?_
  exact serve_kept.mono (fun _ hd ↦ hd) (fun _ d hd ↦ hadvertised d hd) hadvertised

theorem advertised_run (hk : k.Lawful) {d : Directory} (h : Advertised k d)
    (steps : List Circumstances) : Advertised k (run k d steps) :=
  run_of_triple (fun _ ↦ prepare_advertised hk) h steps

/-! ## What a preparation may fail with -/

/-- The failures that are not the fault of a leaf: the operation of the file system that is to blame
has failed, or it is not about files and not about the hash of a leaf. -/
structure Excused (c : Circumstances) (e : GatewayError) : Prop where
  io : ∀ operation, e = .io operation → c.Fails operation
  certificate : e ≠ .other "leaf identity has no certificate"
  hash : e ≠ .other "leaf identity does not match its signed manifest"

variable {P : Directory → Prop}

theorem excused_of_fails (operation : FileOperation) (h : c.Fails operation) :
    Excused c (.io operation) where
  io := fun _ heq ↦ GatewayError.io.inj heq ▸ h
  certificate := by simp
  hash := by simp

theorem read_raises {file : File} : Raises P (read c file) (Excused c) := by
  intro d _ e d' hrun
  simp only [Action.run, read] at hrun
  split at hrun
  · exact absurd (congrArg Prod.fst hrun) (by simp)
  · rename_i hreads
    rw [← Except.error.inj (Prod.mk.inj hrun).1]
    exact excused_of_fails (.read file) (Bool.eq_false_iff.mpr hreads)

theorem atomicWrite_raises {file : File} {contents : List UInt8} :
    Raises P (atomicWrite c file contents) (Excused c) := by
  intro d _ e d' hrun
  have hfails : c.writes file ≠ .written → Excused c (.io (.write file)) :=
    excused_of_fails (.write file)
  simp only [Action.run, atomicWrite] at hrun
  split at hrun
  · exact absurd (congrArg Prod.fst hrun) (by simp)
  · rename_i hwrites
    rw [← Except.error.inj (Prod.mk.inj hrun).1]
    exact hfails (by rw [hwrites]; simp)
  · rename_i hwrites
    rw [← Except.error.inj (Prod.mk.inj hrun).1]
    exact hfails (by rw [hwrites]; simp)

theorem loadOrCreateControlKey_raises : Raises P (loadOrCreateControlKey k c) (Excused c) := by
  refine Raises.bind_any read_raises fun encoded ↦ ?_
  cases encoded with
  | some encoded => exact Raises.ofOption fun _ ↦ ⟨by simp, by simp, by simp⟩
  | none =>
    refine Raises.ofOption_bind (fun _ ↦ ⟨by simp, by simp, by simp⟩) fun document _ ↦ ?_
    exact Raises.bind_any atomicWrite_raises fun _ ↦
      Raises.ofOption fun _ ↦ ⟨by simp, by simp, by simp⟩

theorem generateLeaf_raises {epoch : U32} {notBefore : OffsetDateTime} :
    Raises P (generateLeaf k c epoch notBefore) (Excused c) := by
  refine Raises.ofOption_bind (fun _ ↦ ⟨by simp, by simp, by simp⟩) fun notAfter _ ↦ ?_
  refine Raises.ofOption_bind (fun _ ↦ ⟨by simp, by simp, by simp⟩) fun identity _ ↦ ?_
  refine Raises.ofExcept_bind (fun e he ↦ ?_) fun hash _ ↦
    Raises.bind_any atomicWrite_raises fun _ ↦ Raises.pure
  rw [leafHash] at he
  split at he
  · rw [← Except.error.inj he]
    exact ⟨by simp, by simp, by simp⟩
  · exact absurd he (by simp)

theorem initializeManifest_raises : Raises P (initializeManifest k c control) (Excused c) := by
  refine Raises.ofOption_bind (fun _ ↦ ⟨by simp, by simp, by simp⟩) fun _ _ ↦ ?_
  refine Raises.bind_any generateLeaf_raises fun _ ↦ ?_
  refine Raises.ofOption_bind (fun _ ↦ ⟨by simp, by simp, by simp⟩) fun _ _ ↦ ?_
  exact Raises.bind_any generateLeaf_raises fun _ ↦
    Raises.bind_any atomicWrite_raises fun _ ↦ Raises.pure

theorem activateManifest_raises : Raises P (activateManifest k c control m) (Excused c) := by
  rw [activateManifest]
  split
  · refine Raises.ofOption_bind (fun _ ↦ ⟨by simp, by simp, by simp⟩) fun _ _ ↦ ?_
    refine Raises.ofOption_bind (fun _ ↦ ⟨by simp, by simp, by simp⟩) fun _ _ ↦ ?_
    exact Raises.bind_any generateLeaf_raises fun _ ↦
      Raises.bind_any atomicWrite_raises fun _ ↦ Raises.pure
  · exact Raises.pure

/-- The manifest that is loaded is one that was signed, so all that can be wrong with it is that its
windows do not overlap. -/
theorem loadManifest_raises (hk : k.Lawful) :
    Raises (fun d ↦ ControlKey k d control ∧ Advertised k d) (loadManifest k c control)
      (Excused c) := by
  refine Raises.bind (Q := fun encoded d ↦ d .manifest = encoded ∧ ControlKey k d control ∧
    Advertised k d) (E := fun _ ↦ True) read_raises
    (read_triple (fun d hd ↦ ⟨rfl, hd⟩) fun _ _ ↦ trivial) fun encoded ↦ ?_
  cases encoded with
  | none => exact initializeManifest_raises
  | some encoded =>
    refine Raises.assume (fun d ⟨hfile, hkey, hadvertised⟩ ↦ ?_) Raises.ofExcept
    intro e hdecode
    obtain ⟨control', m', hadvertises⟩ := hadvertised (by rw [hfile]; simp)
    obtain rfl := hkey.unique hadvertises.controlKey
    obtain rfl := Option.some_inj.mp (hfile.symm.trans hadvertises.manifest)
    rw [decodeAndVerifyManifest_encode hk, validateManifest] at hdecode
    split at hdecode
    · rw [← Except.error.inj hdecode]
      exact ⟨by simp, by simp, by simp⟩
    · exact absurd hdecode (by simp [Except.map])

/-- **What is served is there**, and is what the manifest names. -/
theorem serve_raises (hk : k.Lawful) :
    Raises (Advertises k · control m) (serve k c control m) (Excused c) := by
  refine Raises.bind (Q := fun encoded d ↦ d (.leaf m.current.epoch) = encoded ∧
    Advertises k d control m) (E := fun _ ↦ True) read_raises
    (read_triple (fun d hd ↦ ⟨rfl, hd⟩) fun _ _ ↦ trivial) fun encoded ↦ ?_
  refine Raises.assume (p := ∃ pem identity, encoded = some pem ∧
    k.loadPemfiles pem pem = some identity ∧ requireLeafHash k identity m.current.hash = .ok ())
    (fun d ⟨hfile, hd⟩ ↦ ?_) fun ⟨pem, identity, hpem, hload, hrequire⟩ ↦ ?_
  · obtain ⟨pem, identity, hstored, hload, hrequire⟩ := (hd.intact hk).current
    exact ⟨pem, identity, hfile.symm.trans hstored, hload, hrequire⟩
  subst hpem
  refine Raises.ofOption_bind (fun hnone ↦ absurd hnone (by simp)) fun pem' hpem' ↦ ?_
  obtain rfl := Option.some_inj.mp hpem'
  refine Raises.ofOption_bind (fun _ ↦ ⟨by simp, by simp, by simp⟩) fun transport htransport ↦ ?_
  obtain rfl := Option.some_inj.mp (hload.symm.trans htransport)
  refine Raises.ofExcept_bind (fun e he ↦ absurd (hrequire.symm.trans he) (by simp)) fun _ _ ↦ ?_
  refine Raises.reject_bind (fun _ ↦ ⟨by simp, by simp, by simp⟩) fun _ ↦ ?_
  refine Raises.reject_bind (fun _ ↦ ⟨by simp, by simp, by simp⟩) fun _ ↦ ?_
  exact Raises.ofOption_bind (fun _ ↦ ⟨by simp, by simp, by simp⟩) fun _ _ ↦ Raises.pure

/-- **No preparation fails for want of a leaf.** -/
theorem prepare_raises (hk : k.Lawful) : Raises (Advertised k) (prepare k c) (Excused c) := by
  refine Raises.reject_bind (excused_of_fails .createDirectory) fun _ ↦ ?_
  refine Raises.bind loadOrCreateControlKey_raises loadOrCreateControlKey_advertised
    fun control ↦ ?_
  refine Raises.bind (loadManifest_raises hk) (loadManifest_advertised hk) fun m ↦ ?_
  refine Raises.reject_bind (fun _ ↦ ⟨by simp, by simp, by simp⟩) fun _ ↦ ?_
  refine Raises.reject_bind (fun _ ↦ ⟨by simp, by simp, by simp⟩) fun _ ↦ ?_
  refine Raises.bind activateManifest_raises activateManifest_advertised fun m' ↦ ?_
  exact Raises.reject_bind (fun _ ↦ ⟨by simp, by simp, by simp⟩) fun _ ↦ serve_raises hk

end Runs

/-- **The identity of the gateway is crash-consistent.**  From a directory without a manifest, after
any run of preparations, each at whatever time and interrupted at whatever write:

* a manifest that is there is complete and signed, and the leaf files of both its epochs hold the
  certificates whose hashes it names;
* no preparation that comes then fails on a leaf that is missing or is not the one of its
  manifest. -/
theorem gateway_identity_crash_consistent (k : Cryptography) (hk : k.Lawful) (d : Directory)
    (hvacant : d .manifest = none) (steps : List Circumstances) :
    ((run k d steps) .manifest ≠ none → ∃ control m, Intact k (run k d steps) control m) ∧
    ∀ c e, ((prepare k c).run (run k d steps)).1 = .error e → Excused c e := by
  have hadvertised := advertised_run hk (advertised_of_vacant hvacant) steps
  constructor
  · intro hne
    obtain ⟨control, m, hadvertises⟩ := hadvertised hne
    exact ⟨control, m, hadvertises.intact hk⟩
  · exact fun c e hrun ↦ prepare_raises hk _ hadvertised e _ (Prod.ext hrun rfl)

/-- A rotation that is interrupted between its leaf and its manifest. -/
def Sample.interrupted : Circumstances :=
  { Sample.punctual with writes := fun file ↦ if file = .manifest then .failed else .written }

/-- The leaf after next is there, and the manifest is the old one. -/
theorem gateway_identity_crash_consistent_sample :
    (run Sample.cryptography .empty [Sample.start, Sample.interrupted] (.leaf 3)).isSome = true ∧
      ∃ control m, Intact Sample.cryptography
        (run Sample.cryptography .empty [Sample.start, Sample.interrupted]) control m :=
  ⟨by decide +kernel, (gateway_identity_crash_consistent Sample.cryptography
    Sample.cryptography_lawful .empty rfl [Sample.start, Sample.interrupted]).1 (by decide +kernel)⟩

end Renee.Gateway
