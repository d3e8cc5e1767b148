import Renee.Gateway.Identity
import Mathlib.Tactic.Linarith

/-!
# What a preparation does

The files of a gateway that has been prepared are `Advertises`: the manifest was signed by the key
of the directory, and both leaves it speaks of are there, each for the window of its epoch.  A
manifest can be loaded again when the window of the next leaf starts before the one of the current
leaf ends.

* `decodeAndVerifyManifest_encode`: a signed manifest decodes to what was signed, if it is valid.
* `prepare_spec` follows a preparation through the program: what it leaves is `Advertises` again,
  the leaf it serves is valid now and its deadline lies in the future; and the new manifest can be
  loaded again exactly when the preparation was `Punctual`.
-/

set_option autoImplicit false

namespace Renee.Gateway

open ByteString Fallible

/-! ## The manifest is read back -/

theorem I64.fromBeBytes_toBeBytes (x : I64) {bytes : Bytes 8} (h : bytes.toList = x.toBeBytes) :
    I64.fromBeBytes bytes = x := by
  have hle := x.le_toInt
  have hlt := x.toInt_lt
  have hbytes : bytes.toNat = (x.toInt % 2 ^ 64).toNat := by
    rw [Bytes.toNat, h, I64.toBeBytes, ofBe_toBe]
    omega
  rw [I64.fromBeBytes]
  split
  · exact I64.ext (by simp only; omega)
  · exact I64.ext (by simp only; omega)

@[simp] theorem I64.length_toBeBytes (x : I64) : x.toBeBytes.length = 8 := length_toBe ..

theorem copyArray_eq {length offset : ℕ} {input rest : List UInt8} (bytes : Bytes length)
    (h : input.drop offset = bytes.toList ++ rest) : copyArray length input offset = .ok bytes := by
  rw [copyArray, Bytes.slice?_eq_some bytes h]

@[simp] theorem length_encodeEpoch (e : CertificateEpoch) :
    (encodeEpoch e).length = certificateFieldLength := by
  simp only [encodeEpoch, List.length_append, length_toBe, I64.length_toBeBytes, e.hash.length_eq]
  rfl

theorem decodeEpoch_eq {encoded rest : List UInt8} {offset : ℕ} (e : CertificateEpoch)
    (h : encoded.drop offset = encodeEpoch e ++ rest) : decodeEpoch encoded offset = .ok e := by
  simp only [encodeEpoch, List.append_assoc] at h
  have hnotBefore := drop_field h (length_toBe ..)
  have hnotAfter := drop_field hnotBefore (I64.length_toBeBytes _)
  have hhash := drop_field hnotAfter (I64.length_toBeBytes _)
  rw [decodeEpoch, copyArray_eq (Bytes.ofNat 4 e.epoch) h,
    copyArray_eq ⟨_, I64.length_toBeBytes _⟩ hnotBefore,
    copyArray_eq ⟨_, I64.length_toBeBytes _⟩ hnotAfter, copyArray_eq e.hash hhash]
  refine congrArg Except.ok (CertificateEpoch.ext (Fin.ext ?_) rfl ?_ ?_)
  · exact Bytes.toNat_ofNat e.epoch.isLt
  · exact I64.fromBeBytes_toBeBytes _ rfl
  · exact I64.fromBeBytes_toBeBytes _ rfl

@[simp] theorem length_signedManifest (m : CertificateManifest) :
    (signedManifest m).length = signedManifestLength := by
  simp only [signedManifest, List.length_append, length_toBe, length_encodeEpoch]
  rfl

/-- **A signed manifest decodes to what was signed**, if that is valid. -/
theorem decodeAndVerifyManifest_encode {k : Cryptography} (hk : k.Lawful) (m : CertificateManifest)
    (control : k.KeyPair) :
    decodeAndVerifyManifest k (encodeSignedManifest k m control) control =
      (validateManifest m.current m.next).map fun _ ↦ m := by
  have hlength : (encodeSignedManifest k m control).length = manifestLength := by
    rw [encodeSignedManifest, List.length_append, length_signedManifest, hk.length_sign]
    rfl
  have hsigned : (encodeSignedManifest k m control).take signedManifestLength =
      signedManifest m := by
    rw [encodeSignedManifest, ← length_signedManifest m, List.take_left]
  have hsignature : (encodeSignedManifest k m control).drop signedManifestLength =
      k.sign control (signedManifest m) := by
    rw [encodeSignedManifest, ← length_signedManifest m, List.drop_left]
  have hmagic : (encodeSignedManifest k m control).take manifestMagic.length = manifestMagic := by
    rw [encodeSignedManifest, signedManifest, List.append_assoc, List.take_left]
  have hversion : (encodeSignedManifest k m control).drop 8 =
    (Bytes.ofNat 2 manifestVersion).toList ++
      (encodeEpoch m.current ++ (encodeEpoch m.next ++ k.sign control (signedManifest m))) := by
    simp only [encodeSignedManifest, signedManifest, List.append_assoc]
    rw [List.drop_left' (show manifestMagic.length = 8 from rfl)]
    rfl
  have hcurrent := drop_field hversion (Bytes.length_eq _)
  have hnext := drop_field hcurrent (length_encodeEpoch _)
  rw [decodeAndVerifyManifest, if_neg (by rw [hlength, hmagic]; simp), copyArray_eq _ hversion,
    hsigned, hsignature, hk.verify_sign, decodeEpoch_eq _ hcurrent, decodeEpoch_eq _ hnext]
  have hversionNat : (Bytes.ofNat 2 manifestVersion).toNat = manifestVersion :=
    Bytes.toNat_ofNat (by decide)
  simp only [bind, Except.bind, hversionNat, ne_eq, not_true_eq_false, if_false,
    Bool.true_eq_false]
  cases validateManifest m.current m.next <;> rfl

/-! ## What is in the directory -/

section Directory

variable (k : Cryptography)

/-- The leaf of an epoch is there: a certificate for its window, of its hash. -/
structure Leaf (d : Directory) (e : CertificateEpoch) : Prop where
  lifetime : e.notAfter.toInt = e.notBefore.toInt + certificateLifetime
  stored : ∃ notBefore notAfter entropy identity certificate,
    k.selfSigned notBefore notAfter entropy = some identity ∧
    (k.certificateChain identity).head? = some certificate ∧ k.hash certificate = e.hash ∧
    d (.leaf e.epoch) = some (k.bundle identity) ∧ e.notBefore = notBefore.unixTimestamp ∧
    e.notAfter = notAfter.unixTimestamp

/-- A key is the control key of the directory. -/
def ControlKey (d : Directory) (control : k.KeyPair) : Prop :=
  ∃ encoded, d .controlKey = some encoded ∧ k.fromPkcs8 encoded = some control

/-- The files are those of a gateway that has been prepared. -/
structure Advertises (d : Directory) (control : k.KeyPair) (m : CertificateManifest) : Prop where
  controlKey : ControlKey k d control
  manifest : d .manifest = some (encodeSignedManifest k m control)
  epochs : m.current.epoch.val + 1 = m.next.epoch.val
  current : Leaf k d m.current
  next : Leaf k d m.next

/-- The windows of a manifest overlap. -/
def CertificateManifest.Overlaps (m : CertificateManifest) : Prop :=
  m.next.notBefore.toInt < m.current.notAfter.toInt

instance (m : CertificateManifest) : Decidable m.Overlaps := inferInstanceAs (Decidable (_ < _))

/-- The directory can be prepared again: a manifest that is there can be loaded. -/
def Sound (d : Directory) : Prop :=
  d .manifest ≠ none → ∃ control m, Advertises k d control m ∧ m.Overlaps

/-- The manifest a preparation would load. -/
def advertised (d : Directory) : Option CertificateManifest :=
  match (d .controlKey).bind k.fromPkcs8 with
  | none => none
  | some control =>
    match d .manifest with
    | none => none
    | some encoded => (decodeAndVerifyManifest k encoded control).toOption

/-- A preparation does not come in the second week of the next leaf. -/
def CertificateManifest.Punctual (m : CertificateManifest) (now : OffsetDateTime) : Prop :=
  now.unixTimestamp.toInt < m.next.notBefore.toInt + certificateEpochStep ∨
    m.next.notAfter.toInt ≤ now.unixTimestamp.toInt

instance (m : CertificateManifest) (now : OffsetDateTime) : Decidable (m.Punctual now) :=
  inferInstanceAs (Decidable (_ ∨ _))

/-- A preparation is punctual if it does not come in the second week of the next leaf of the
manifest in the directory. -/
def Punctual (d : Directory) (c : Circumstances) : Prop :=
  ∀ m ∈ advertised k d, m.Punctual c.now

instance (d : Directory) (c : Circumstances) : Decidable (Punctual k d c) :=
  inferInstanceAs (Decidable (∀ m ∈ advertised k d, m.Punctual c.now))

end Directory

section Sound

variable {k : Cryptography} {d d' : Directory} {control : k.KeyPair} {m : CertificateManifest}
  {e : CertificateEpoch}

theorem Leaf.congr (h : Leaf k d e) (hfile : d' (.leaf e.epoch) = d (.leaf e.epoch)) :
    Leaf k d' e :=
  ⟨h.lifetime, by rw [hfile]; exact h.stored⟩

theorem Leaf.update (h : Leaf k d e) {file : File} (hne : file ≠ .leaf e.epoch)
    (contents : List UInt8) : Leaf k (Function.update d file (some contents)) e :=
  h.congr (Function.update_of_ne hne.symm ..)

theorem ControlKey.update (h : ControlKey k d control) {file : File} (hne : file ≠ .controlKey)
    (contents : List UInt8) : ControlKey k (Function.update d file (some contents)) control := by
  rw [ControlKey, Function.update_of_ne hne.symm]
  exact h

/-- A leaf of another epoch can be written. -/
theorem Advertises.update_leaf (h : Advertises k d control m) {epoch : U32}
    (hepoch : m.next.epoch.val < epoch.val) (contents : List UInt8) :
    Advertises k (Function.update d (.leaf epoch) (some contents)) control m where
  controlKey := h.controlKey.update (by simp) contents
  manifest := by
    rw [Function.update_of_ne (by simp)]
    exact h.manifest
  epochs := h.epochs
  current := h.current.update (fun heq ↦ by
    have hlt := h.epochs
    have hsame := congrArg Fin.val (File.leaf.inj heq)
    omega) contents
  next := h.next.update (fun heq ↦ by
    have hsame := congrArg Fin.val (File.leaf.inj heq)
    omega) contents

/-- A manifest is written when its leaves are there. -/
theorem advertises_update_manifest (hkey : ControlKey k d control)
    (hepochs : m.current.epoch.val + 1 = m.next.epoch.val) (hcurrent : Leaf k d m.current)
    (hnext : Leaf k d m.next) :
    Advertises k (Function.update d .manifest (some (encodeSignedManifest k m control))) control
      m where
  controlKey := hkey.update (by simp) _
  manifest := Function.update_self ..
  epochs := hepochs
  current := hcurrent.update (by simp) _
  next := hnext.update (by simp) _

theorem Advertises.validateManifest_eq_ok_iff (h : Advertises k d control m) :
    validateManifest m.current m.next = .ok () ↔ m.Overlaps := by
  have hcurrent := h.current.lifetime
  have hnext := h.next.lifetime
  have hlife : certificateLifetime = 1209600 := rfl
  have hepochs := h.epochs
  rw [validateManifest, CertificateManifest.Overlaps]
  split
  · rename_i hbad
    exact ⟨fun h ↦ absurd h (by simp), fun hoverlap ↦ absurd ⟨hepochs, by omega, by omega, hoverlap,
      by omega, by omega⟩ hbad⟩
  · rename_i hgood
    exact ⟨fun _ ↦ (not_not.mp hgood).2.2.2.1, fun _ ↦ rfl⟩

theorem Advertises.advertised (hk : k.Lawful) (h : Advertises k d control m) :
    advertised k d = if m.Overlaps then some m else none := by
  obtain ⟨encoded, hfile, hkey⟩ := h.controlKey
  have hvalid := h.validateManifest_eq_ok_iff
  rw [Gateway.advertised, hfile, Option.bind_some, hkey, h.manifest]
  simp only [decodeAndVerifyManifest_encode hk]
  split
  · rename_i hoverlap
    rw [hvalid.mpr hoverlap]
    rfl
  · rename_i hapart
    cases hresult : validateManifest m.current m.next with
    | error e => rfl
    | ok u => exact absurd (hvalid.mp hresult) hapart

theorem Advertises.sound (h : Advertises k d control m) (hoverlap : m.Overlaps) : Sound k d :=
  fun _ ↦ ⟨control, m, h, hoverlap⟩

theorem sound_of_vacant (h : d .manifest = none) : Sound k d := fun hne ↦ absurd h hne

end Sound

/-! ## The steps of a preparation -/

section Steps

variable {k : Cryptography} {c : Circumstances} {control : k.KeyPair} {m : CertificateManifest}
  {P E : Directory → Prop}

theorem read_triple {file : File} {Q : Option (List UInt8) → Directory → Prop}
    (h : ∀ d, P d → Q (d file) d) (herror : ∀ d, P d → E d) : Triple P (read c file) Q E := by
  intro d hd
  cases hreads : c.reads file with
  | false => simpa [Action.run, read, hreads] using herror d hd
  | true => simpa [Action.run, read, hreads] using h d hd

theorem atomicWrite_triple {file : File} {contents : List UInt8} {Q : Unit → Directory → Prop}
    (h : ∀ d, P d → Q () (Function.update d file (some contents)))
    (hwritten : ∀ d, P d → E (Function.update d file (some contents))) (hfailed : ∀ d, P d → E d) :
    Triple P (atomicWrite c file contents) Q E := by
  intro d hd
  cases hwrites : c.writes file with
  | written => simpa only [Action.run, atomicWrite, hwrites] using h d hd
  | failed => simpa only [Action.run, atomicWrite, hwrites] using hfailed d hd
  | unsynchronized => simpa only [Action.run, atomicWrite, hwrites] using hwritten d hd

theorem addSeconds_eq_some {t t' : OffsetDateTime} {seconds : ℤ}
    (h : t.addSeconds seconds = some t') :
    t'.unixTimestamp.toInt = t.unixTimestamp.toInt + seconds := by
  rw [OffsetDateTime.addSeconds] at h
  split at h
  · obtain rfl := Option.some_inj.mp h
    simp only [OffsetDateTime.unixTimestamp]
    omega
  · exact absurd h (by simp)

/-- A leaf has been generated for an epoch, from a moment on. -/
structure Generated (k : Cryptography) (d : Directory) (epoch : U32) (notBefore : OffsetDateTime)
    (e : CertificateEpoch) : Prop where
  leaf : Leaf k d e
  epoch_eq : e.epoch = epoch
  notBefore_eq : e.notBefore = notBefore.unixTimestamp

theorem Generated.update {d : Directory} {epoch : U32} {notBefore : OffsetDateTime}
    {e : CertificateEpoch} (h : Generated k d epoch notBefore e) {file : File}
    (hne : file ≠ .leaf epoch) (contents : List UInt8) :
    Generated k (Function.update d file (some contents)) epoch notBefore e :=
  ⟨h.leaf.update (h.epoch_eq ▸ hne) contents, h.epoch_eq, h.notBefore_eq⟩

/-- A leaf is there when it has been generated, and only its file has been written. -/
theorem generateLeaf_triple {epoch : U32} {notBefore : OffsetDateTime} (herror : ∀ d, P d → E d)
    (hwrite : ∀ d contents, P d → P (Function.update d (.leaf epoch) (some contents))) :
    Triple P (generateLeaf k c epoch notBefore)
      (fun e d ↦ P d ∧ Generated k d epoch notBefore e) E := by
  refine Triple.ofOption_bind herror fun notAfter hnotAfter ↦ ?_
  refine Triple.ofOption_bind herror fun identity hidentity ↦ ?_
  refine Triple.ofExcept_bind herror fun hash hhash ↦ ?_
  obtain ⟨certificate, hcertificate, rfl⟩ : ∃ certificate,
      (k.certificateChain identity).head? = some certificate ∧ k.hash certificate = hash := by
    rw [leafHash] at hhash
    split at hhash
    · exact absurd hhash (by simp)
    · rename_i certificate hcertificate
      exact ⟨certificate, hcertificate, Except.ok.inj hhash⟩
  refine Triple.bind (Q := fun _ d ↦ P d ∧ d (.leaf epoch) = some (k.bundle identity))
    (atomicWrite_triple (fun d hd ↦ ⟨hwrite d _ hd, Function.update_self ..⟩)
      (fun d hd ↦ herror _ (hwrite d _ hd)) herror) fun _ ↦ Triple.pure fun d ⟨hd, hfile⟩ ↦ ?_
  exact ⟨hd, ⟨addSeconds_eq_some hnotAfter, notBefore, notAfter, _, identity, certificate,
    hidentity, hcertificate, rfl, hfile, rfl, rfl⟩, rfl, rfl⟩

/-- A manifest is written when its leaves are there; before that, the directory is as it was. -/
theorem persistManifest_triple (hkey : ∀ d, P d → ControlKey k d control)
    (hepochs : m.current.epoch.val + 1 = m.next.epoch.val)
    (hcurrent : ∀ d, P d → Leaf k d m.current) (hnext : ∀ d, P d → Leaf k d m.next)
    (herror : ∀ d, P d → E d) (hwritten : ∀ d, Advertises k d control m → E d) :
    Triple P (persistManifest k c m control) (fun _ d ↦ Advertises k d control m) E := by
  have hwrite : ∀ d, P d → Advertises k (Function.update d .manifest
      (some (encodeSignedManifest k m control))) control m := fun d hd ↦
    advertises_update_manifest (hkey d hd) hepochs (hcurrent d hd) (hnext d hd)
  exact atomicWrite_triple hwrite (fun d hd ↦ hwritten _ (hwrite d hd)) herror

/-- There is a key, and no manifest yet. -/
def Vacant (k : Cryptography) (control : k.KeyPair) (d : Directory) : Prop :=
  d .manifest = none ∧ ControlKey k d control

theorem Vacant.update_leaf {d : Directory} (h : Vacant k control d) (epoch : U32)
    (contents : List UInt8) :
    Vacant k control (Function.update d (.leaf epoch) (some contents)) :=
  ⟨by rw [Function.update_of_ne (by simp)]; exact h.1, h.2.update (by simp) contents⟩

/-- **The first manifest**: its windows overlap, and its first window is open. -/
theorem initializeManifest_triple :
    Triple (Vacant k control) (initializeManifest k c control)
      (fun m d ↦ Advertises k d control m ∧ m.Overlaps ∧
        m.current.notBefore.toInt ≤ c.now.unixTimestamp.toInt ∧
        m.next.notBefore.toInt = c.now.unixTimestamp.toInt + certificateEpochStep) (Sound k) := by
  have hvacant : ∀ d, Vacant k control d → Sound k d := fun d hd ↦ sound_of_vacant hd.1
  refine Triple.ofOption_bind hvacant fun currentStart hcurrentStart ↦ ?_
  refine Triple.bind (generateLeaf_triple hvacant fun d contents hd ↦ hd.update_leaf 1 contents)
    fun current ↦ ?_
  refine Triple.ofOption_bind (fun d hd ↦ hvacant d hd.1) fun nextStart hnextStart ↦ ?_
  refine Triple.bind (generateLeaf_triple (fun d hd ↦ hvacant d hd.1) fun d contents hd ↦
    ⟨hd.1.update_leaf 2 contents, hd.2.update (by simp) contents⟩) fun next ↦ ?_
  -- the second window starts a week from now, and the first ends almost two weeks from now
  have hlife : certificateLifetime = 1209600 := rfl
  have hstep : certificateEpochStep = 604800 := rfl
  have hskew : clockSkewAllowance = 300 := rfl
  refine Triple.assume (p := (⟨current, next⟩ : CertificateManifest).Overlaps ∧
    current.epoch.val + 1 = next.epoch.val ∧
      current.notBefore.toInt ≤ c.now.unixTimestamp.toInt ∧
      next.notBefore.toInt = c.now.unixTimestamp.toInt + certificateEpochStep) ?_
    fun ⟨hoverlap, hepochs, hopen, hweek⟩ ↦ ?_
  · rintro d ⟨⟨-, hcurrent⟩, hnext⟩
    have hend := hcurrent.leaf.lifetime
    have hfirst := addSeconds_eq_some hcurrentStart
    have hsecond := addSeconds_eq_some hnextStart
    rw [← hcurrent.notBefore_eq] at hfirst
    rw [← hnext.notBefore_eq] at hsecond
    refine ⟨?_, by rw [hcurrent.epoch_eq, hnext.epoch_eq]; decide, by omega, hsecond⟩
    simp only [CertificateManifest.Overlaps]
    omega
  · refine Triple.bind (persistManifest_triple (fun d hd ↦ hd.1.1.2) hepochs
      (fun d hd ↦ hd.1.2.leaf) (fun d hd ↦ hd.2.leaf) (fun d hd ↦ hvacant d hd.1.1)
      fun d hadvertises ↦ hadvertises.sound hoverlap) fun _ ↦ Triple.pure fun d hd ↦ ?_
    exact ⟨hd, hoverlap, hopen, hweek⟩

/-- **The next manifest**: the next leaf becomes the current one, and the window after it starts a
week from now.  Whether the two overlap depends on when that is. -/
theorem rotateManifest_triple (hadvertises : ∀ d, Advertises k d control m → E d)
    (hrotated : ∀ d m', m'.current = m.next →
      m'.next.notBefore.toInt = c.now.unixTimestamp.toInt + certificateEpochStep →
        Advertises k d control m' → E d) :
    Triple (Advertises k · control m) (rotateManifest k c control m)
      (fun m' d ↦ Advertises k d control m' ∧ m'.current = m.next ∧
        m'.next.notBefore.toInt = c.now.unixTimestamp.toInt + certificateEpochStep) E := by
  refine Triple.ofOption_bind hadvertises fun nextEpoch hnextEpoch ↦ ?_
  obtain hsucc : nextEpoch.val = m.next.epoch.val + 1 := by
    rw [checkedSucc] at hnextEpoch
    split at hnextEpoch
    · rw [← Option.some_inj.mp hnextEpoch]
    · exact absurd hnextEpoch (by simp)
  refine Triple.ofOption_bind hadvertises fun nextStart hnextStart ↦ ?_
  refine Triple.bind (generateLeaf_triple hadvertises fun d contents hd ↦
    hd.update_leaf (by omega) contents) fun next ↦ ?_
  refine Triple.assume (p := m.next.epoch.val + 1 = next.epoch.val ∧
    next.notBefore.toInt = c.now.unixTimestamp.toInt + certificateEpochStep) ?_
    fun ⟨hepochs, hweek⟩ ↦ ?_
  · rintro d ⟨-, hnext⟩
    rw [hnext.epoch_eq, hnext.notBefore_eq, hsucc]
    exact ⟨rfl, addSeconds_eq_some hnextStart⟩
  · refine Triple.bind (persistManifest_triple (m := ⟨m.next, next⟩) (fun d hd ↦ hd.1.controlKey)
      hepochs (fun d hd ↦ hd.1.next) (fun d hd ↦ hd.2.leaf) (fun d hd ↦ hadvertises d hd.1)
      fun d hd ↦ hrotated d _ rfl hweek hd) fun _ ↦ Triple.pure fun d hd ↦ ?_
    exact ⟨hd, rfl, hweek⟩

theorem ControlKey.unique {d : Directory} {control' : k.KeyPair} (h : ControlKey k d control)
    (h' : ControlKey k d control') : control = control' := by
  obtain ⟨encoded, hfile, hkey⟩ := h
  obtain ⟨encoded', hfile', hkey'⟩ := h'
  rw [Option.some_inj.mp (hfile.symm.trans hfile'), hkey'] at hkey
  exact Option.some_inj.mp hkey.symm

/-- Where there is no manifest, a preparation is punctual. -/
theorem punctual_of_vacant {d : Directory} (h : d .manifest = none) : Punctual k d c := by
  intro m hm
  rw [advertised, h] at hm
  split at hm <;> exact absurd hm (by simp)

theorem Advertises.punctual_iff {d : Directory} (hk : k.Lawful) (h : Advertises k d control m)
    (hoverlap : m.Overlaps) : Punctual k d c ↔ m.Punctual c.now := by
  rw [Punctual, h.advertised hk, if_pos hoverlap]
  simp

/-- **The key is there afterwards**, and a directory without one has no manifest. -/
theorem loadOrCreateControlKey_triple {p : Prop} :
    Triple (fun d ↦ Sound k d ∧ (Punctual k d c ↔ p)) (loadOrCreateControlKey k c)
      (fun control d ↦ ControlKey k d control ∧ Sound k d ∧ (Punctual k d c ↔ p))
      (fun d ↦ p → Sound k d) := by
  refine Triple.bind (Q := fun encoded d ↦ d .controlKey = encoded ∧ Sound k d ∧
    (Punctual k d c ↔ p)) (read_triple (fun d hd ↦ ⟨rfl, hd⟩) fun d hd _ ↦ hd.1) fun encoded ↦ ?_
  cases encoded with
  | some encoded =>
    exact Triple.ofOption (fun d hd _ ↦ hd.2.1) fun control d hkey hd ↦ ⟨⟨_, hd.1, hkey⟩, hd.2⟩
  | none =>
    have hmanifest : ∀ d, d .controlKey = none ∧ Sound k d ∧ (Punctual k d c ↔ p) →
        d .manifest = none ∧ p := by
      rintro d ⟨hnone, hsound, hp⟩
      have hvacant : d .manifest = none := by
        by_contra hne
        obtain ⟨control, m, hadvertises, -⟩ := hsound hne
        obtain ⟨encoded, hfile, -⟩ := hadvertises.controlKey
        exact absurd (hnone.symm.trans hfile) (by simp)
      exact ⟨hvacant, hp.mp (punctual_of_vacant hvacant)⟩
    refine Triple.ofOption_bind (fun d hd _ ↦ hd.2.1) fun document _ ↦ ?_
    refine Triple.bind (Q := fun _ d ↦ d .controlKey = some document ∧ d .manifest = none ∧ p)
      (atomicWrite_triple (fun d hd ↦ ⟨Function.update_self .., ?_, (hmanifest d hd).2⟩)
        (fun d hd _ ↦ sound_of_vacant ?_) fun d hd _ ↦ hd.2.1) fun _ ↦ ?_
    · rw [Function.update_of_ne (by simp)]
      exact (hmanifest d hd).1
    · rw [Function.update_of_ne (by simp)]
      exact (hmanifest d hd).1
    · refine Triple.ofOption (fun d hd _ ↦ sound_of_vacant hd.2.1) fun control d hkey hd ↦ ?_
      exact ⟨⟨_, hd.1, hkey⟩, sound_of_vacant hd.2.1,
        iff_of_true (punctual_of_vacant hd.2.1) hd.2.2⟩

/-- **A manifest is there afterwards**, and it can be loaded. -/
theorem loadManifest_triple (hk : k.Lawful) {p : Prop} :
    Triple (fun d ↦ ControlKey k d control ∧ Sound k d ∧ (Punctual k d c ↔ p))
      (loadManifest k c control)
      (fun m d ↦ Advertises k d control m ∧ m.Overlaps ∧ (m.Punctual c.now ↔ p)) (Sound k) := by
  refine Triple.bind (Q := fun encoded d ↦ d .manifest = encoded ∧ ControlKey k d control ∧
    Sound k d ∧ (Punctual k d c ↔ p)) (read_triple (fun d hd ↦ ⟨rfl, hd⟩) fun d hd ↦ hd.2.1)
    fun encoded ↦ ?_
  cases encoded with
  | some encoded =>
    refine Triple.ofExcept (fun d hd ↦ hd.2.2.1) fun m d hdecode ⟨hfile, hkey, hsound, hp⟩ ↦ ?_
    obtain ⟨control', m', hadvertises, hoverlap⟩ := hsound (by rw [hfile]; simp)
    obtain rfl := hkey.unique hadvertises.controlKey
    obtain rfl := Option.some_inj.mp (hfile.symm.trans hadvertises.manifest)
    rw [decodeAndVerifyManifest_encode hk, hadvertises.validateManifest_eq_ok_iff.mpr hoverlap]
      at hdecode
    obtain rfl := Except.ok.inj hdecode
    exact ⟨hadvertises, hoverlap, (hadvertises.punctual_iff hk hoverlap).symm.trans hp⟩
  | none =>
    refine Triple.assume (p := p) (fun d hd ↦ hd.2.2.2.mp (punctual_of_vacant hd.1)) fun hp ↦ ?_
    refine Triple.mono initializeManifest_triple (fun d hd ↦ ⟨hd.1, hd.2.1⟩)
      (fun m d ⟨hadvertises, hoverlap, _, hweek⟩ ↦ ⟨hadvertises, hoverlap, iff_of_true ?_ hp⟩)
      fun _ hd ↦ hd
    have hstep : certificateEpochStep = 604800 := rfl
    exact Or.inl (by omega)

/-- **What is handed out**: the leaf of the current epoch, valid for its window, until the next one
starts. -/
structure Serves (k : Cryptography) (now : OffsetDateTime) (control : k.KeyPair)
    (m : CertificateManifest) (prepared : PreparedGatewayIdentity k) : Prop where
  manifest : prepared.manifest = encodeSignedManifest k m control
  leaf : ∃ certificate, (k.certificateChain prepared.transport).head? = some certificate ∧
    k.notBefore certificate = m.current.notBefore.toInt ∧
    k.notAfter certificate = m.current.notAfter.toInt
  deadline : now.unixTimestamp.toInt + prepared.rotationDelay = m.next.notBefore.toInt

theorem serve_triple (hk : k.Lawful) (hpre : ∀ d, P d → Advertises k d control m)
    (hnext : c.now.unixTimestamp.toInt < m.next.notBefore.toInt) (herror : ∀ d, P d → E d) :
    Triple P (serve k c control m) (fun prepared d ↦ P d ∧ Serves k c.now control m prepared)
      E := by
  refine Triple.bind (Q := fun encoded d ↦ d (.leaf m.current.epoch) = encoded ∧ P d)
    (read_triple (fun d hd ↦ ⟨rfl, hd⟩) herror) fun encoded ↦ ?_
  have herror' : ∀ d, d (.leaf m.current.epoch) = encoded ∧ P d → E d := fun d hd ↦ herror d hd.2
  refine Triple.ofOption_bind herror' fun pem hpem ↦ ?_
  refine Triple.ofOption_bind herror' fun transport htransport ↦ ?_
  refine Triple.ofExcept_bind herror' fun _ _ ↦ ?_
  refine Triple.reject_bind herror' fun _ ↦ Triple.reject_bind herror' fun hpos ↦ ?_
  refine Triple.ofOption_bind herror' fun key _ ↦ Triple.pure fun d ⟨hfile, hd⟩ ↦ ⟨hd, rfl, ?_, ?_⟩
  · obtain ⟨notBefore, notAfter, entropy, identity, certificate, hidentity, hcertificate, -,
      hstored, hstart, hend⟩ := (hpre d hd).current.stored
    obtain rfl : pem = k.bundle identity := by
      rw [hpem, hstored] at hfile
      exact (Option.some_inj.mp hfile).symm
    obtain ⟨loaded, hloaded, hchain⟩ := hk.loadPemfiles_bundle _ _ _ _ hidentity
    obtain rfl : loaded = transport := Option.some_inj.mp (hloaded.symm.trans htransport)
    obtain ⟨hfirst, hlast⟩ := hk.validity _ _ _ _ hidentity certificate
      (List.mem_of_mem_head? (Option.mem_def.mpr hcertificate))
    exact ⟨certificate, by rw [hchain, hcertificate], by rw [hfirst, hstart], by rw [hlast, hend]⟩
  · simp only
    omega

/-- What is served leaves the files alone. -/
theorem serve_kept :
    Triple P (serve k c control m) (fun _ ↦ P) P := by
  have hsame : ∀ d, P d → P d := fun _ hd ↦ hd
  refine Triple.bind (read_triple (Q := fun _ ↦ P) hsame hsame) fun _ ↦ ?_
  refine Triple.ofOption_bind hsame fun _ _ ↦ Triple.ofOption_bind hsame fun _ _ ↦ ?_
  refine Triple.ofExcept_bind hsame fun _ _ ↦ Triple.reject_bind hsame fun _ ↦ ?_
  refine Triple.reject_bind hsame fun _ ↦ Triple.ofOption_bind hsame fun _ _ ↦ Triple.pure hsame

/-- The manifest a preparation serves: the loaded one, or the next. -/
theorem activateManifest_triple {p : Prop} (hoverlap : m.Overlaps) (hp : m.Punctual c.now ↔ p)
    (hopen : m.current.notBefore.toInt ≤ c.now.unixTimestamp.toInt)
    (hlast : c.now.unixTimestamp.toInt < m.next.notAfter.toInt) :
    Triple (Advertises k · control m) (activateManifest k c control m)
      (fun m' d ↦ Advertises k d control m' ∧ (m'.Overlaps ↔ p) ∧
        m'.current.notBefore.toInt ≤ c.now.unixTimestamp.toInt ∧
        c.now.unixTimestamp.toInt < m'.next.notBefore.toInt) (fun d ↦ p → Sound k d) := by
  have hlife : certificateLifetime = 1209600 := rfl
  have hstep : certificateEpochStep = 604800 := rfl
  rw [activateManifest]
  split
  · rename_i hdue
    -- the new windows overlap if the next leaf has more than a week left
    have hrotated : ∀ d m', m'.current = m.next →
        m'.next.notBefore.toInt = c.now.unixTimestamp.toInt + certificateEpochStep →
          Advertises k d control m' → (m'.Overlaps ↔ p) := by
      intro d m' hcurrent hweek hadvertises
      have hlifetime := hadvertises.current.lifetime
      rw [hcurrent] at hlifetime
      rw [← hp, CertificateManifest.Overlaps, CertificateManifest.Punctual, hcurrent]
      omega
    refine Triple.mono (rotateManifest_triple (fun d hd _ ↦ hd.sound hoverlap)
      fun d m' hcurrent hweek hd hpunctual ↦
        hd.sound ((hrotated d m' hcurrent hweek hd).mpr hpunctual)) (fun _ hd ↦ hd) ?_ fun _ hd ↦ hd
    rintro m' d ⟨hd, hcurrent, hweek⟩
    exact ⟨hd, hrotated d m' hcurrent hweek hd, by rw [hcurrent]; omega, by omega⟩
  · rename_i hearly
    refine Triple.pure fun d hd ↦ ⟨hd, iff_of_true hoverlap (hp.mp (Or.inl ?_)), hopen, by omega⟩
    omega

/-- **A preparation, from a directory that can be prepared**: it leaves one that can be prepared
again exactly if it is punctual, and what it hands out is valid from now on. -/
theorem prepare_spec (hk : k.Lawful) {p : Prop} :
    Triple (fun d ↦ Sound k d ∧ (Punctual k d c ↔ p)) (prepare k c)
      (fun prepared d ↦ ∃ control m, Advertises k d control m ∧ (m.Overlaps ↔ p) ∧
        m.current.notBefore.toInt ≤ c.now.unixTimestamp.toInt ∧ Serves k c.now control m prepared)
      (fun d ↦ p → Sound k d) := by
  refine Triple.reject_bind (fun d hd _ ↦ hd.1) fun _ ↦ ?_
  refine Triple.bind loadOrCreateControlKey_triple fun control ↦ ?_
  refine Triple.bind ((loadManifest_triple hk).mono (fun _ hd ↦ hd) (fun _ _ hd ↦ hd)
    fun d hd (_ : p) ↦ hd) fun m ↦ ?_
  refine Triple.assume (p := m.Overlaps ∧ (m.Punctual c.now ↔ p)) (fun d hd ↦ hd.2)
    fun ⟨hoverlap, hp⟩ ↦ ?_
  have hsound : ∀ d, Advertises k d control m ∧ m.Overlaps ∧ (m.Punctual c.now ↔ p) → p →
      Sound k d := fun d hd _ ↦ hd.1.sound hoverlap
  refine Triple.reject_bind hsound fun hopen ↦ Triple.reject_bind hsound fun hlast ↦ ?_
  refine Triple.bind ((activateManifest_triple hoverlap hp (not_lt.mp hopen) (not_le.mp hlast)).mono
    (fun d hd ↦ hd.1) (fun _ _ hd ↦ hd) fun _ hd ↦ hd) fun m' ↦ ?_
  have hsound' : ∀ d, (Advertises k d control m' ∧ (m'.Overlaps ↔ p) ∧
      m'.current.notBefore.toInt ≤ c.now.unixTimestamp.toInt ∧
      c.now.unixTimestamp.toInt < m'.next.notBefore.toInt) → p → Sound k d :=
    fun d hd hp ↦ hd.1.sound (hd.2.1.mpr hp)
  refine Triple.reject_bind hsound' fun _ ↦ ?_
  refine Triple.assume (fun d hd ↦ hd.2.2.2) fun hnext ↦ ?_
  refine (serve_triple hk (fun d hd ↦ hd.1) hnext hsound').mono (fun _ hd ↦ hd) ?_ fun _ hd ↦ hd
  rintro prepared d ⟨⟨hadvertises, hoverlap', hopen', -⟩, hserves⟩
  exact ⟨control, m', hadvertises, hoverlap', hopen', hserves⟩

/-- What every preparation keeps, however it ends, a run of them keeps. -/
theorem run_of_triple (h : ∀ c, Triple P (prepare k c) (fun _ ↦ P) P) {d : Directory} (hd : P d)
    (steps : List Circumstances) : P (run k d steps) := by
  induction steps generalizing d with
  | nil => exact hd
  | cons c steps ih =>
    refine ih ?_
    have hrun := h c d hd
    rw [after]
    split at hrun
    · rename_i heq
      rw [heq]
      exact hrun
    · rename_i heq
      rw [heq]
      exact hrun

end Steps

end Renee.Gateway
