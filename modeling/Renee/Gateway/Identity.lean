import Renee.Library.Bytes
import Renee.Library.Fallible
import Mathlib.Algebra.Group.Int.Defs
import Mathlib.Logic.Function.Basic

/-!
# The identity of the gateway

The gateway keeps, in one directory, the key that signs its certificate manifests, the manifest, and
the leaf certificates the manifest speaks of: the current one and the next.  `prepare` is what a
process does when it starts: it loads or creates the three, moves on to the next leaf when its time
has come, and hands out the leaf to serve with the time after which to start again.

* A `Directory` is what the files hold, and `Circumstances` what happens to one preparation besides:
  its clock, its random source, and every operation of the file system that fails.  A preparation
  that fails leaves the files as they are by then.
* `Cryptography` is the signature scheme and the certificate library, which are not of this program;
  `Cryptography.Lawful` is what it relies on.
* Times are nanoseconds since the epoch, the manifest has whole seconds.
-/

set_option autoImplicit false

namespace Renee.Gateway

open ByteString Fallible

/-! ## Integers and clocks -/

/-- An epoch number. -/
abbrev U32 := Fin (2 ^ 32)

/-- A signed 64-bit integer. -/
@[ext] structure I64 where
  toInt : ℤ
  le_toInt : -2 ^ 63 ≤ toInt
  toInt_lt : toInt < 2 ^ 63
deriving DecidableEq

namespace I64

/-- The two's complement, most significant byte first. -/
def toBeBytes (x : I64) : List UInt8 := toBe 8 (x.toInt % 2 ^ 64).toNat

def fromBeBytes (bytes : Bytes 8) : I64 :=
  if h : bytes.toNat < 2 ^ 63 then ⟨bytes.toNat, by omega, by omega⟩
  else ⟨bytes.toNat - 2 ^ 64, by omega, by have := bytes.toNat_lt; omega⟩

end I64

/-- A moment, as nanoseconds since the epoch; the calendar spans the years from -9999 to 9999. -/
@[ext] structure OffsetDateTime where
  unixTimestampNanos : ℤ
  le_seconds : -377705116800 ≤ unixTimestampNanos / 10 ^ 9
  seconds_le : unixTimestampNanos / 10 ^ 9 ≤ 253402300799
deriving DecidableEq

namespace OffsetDateTime

/-- The whole seconds since the epoch. -/
def unixTimestamp (t : OffsetDateTime) : I64 where
  toInt := t.unixTimestampNanos / 10 ^ 9
  le_toInt := by have := t.le_seconds; omega
  toInt_lt := by have := t.seconds_le; omega

/-- The moment so many seconds later, if the calendar reaches it; the arithmetic of the source
panics otherwise. -/
def addSeconds (t : OffsetDateTime) (seconds : ℤ) : Option OffsetDateTime :=
  if h : -377705116800 ≤ (t.unixTimestampNanos + seconds * 10 ^ 9) / 10 ^ 9 ∧
      (t.unixTimestampNanos + seconds * 10 ^ 9) / 10 ^ 9 ≤ 253402300799 then
    some ⟨_, h.1, h.2⟩
  else none

end OffsetDateTime

/-! ## Constants -/

def publicKeyLength : ℕ := 32

def hashLength : ℕ := 32

def signatureLength : ℕ := 64

/-- `RNECERT` and a zero byte. -/
def manifestMagic : List UInt8 := [82, 78, 69, 67, 69, 82, 84, 0]

def manifestVersion : ℕ := 1

def certificateFieldLength : ℕ := 4 + 8 + 8 + hashLength

def signedManifestLength : ℕ := 8 + 2 + 2 * certificateFieldLength

def manifestLength : ℕ := signedManifestLength + signatureLength

/-- Fourteen days. -/
def certificateLifetime : ℤ := 14 * 86400

/-- Seven days. -/
def certificateEpochStep : ℤ := 7 * 86400

/-- Five minutes. -/
def clockSkewAllowance : ℤ := 5 * 60

/-! ## The world around a preparation -/

/-- The signature scheme and the certificate library. -/
structure Cryptography where
  KeyPair : Type
  Certificate : Type
  Identity : Type
  /-- A new key, from the random source. -/
  generatePkcs8 : ℕ → Option (List UInt8)
  fromPkcs8 : List UInt8 → Option KeyPair
  publicKey : KeyPair → List UInt8
  sign : KeyPair → List UInt8 → List UInt8
  /-- Whether a public key verifies a message and its signature. -/
  verify : List UInt8 → List UInt8 → List UInt8 → Bool
  /-- A new self-signed identity for a validity period, from the random source. -/
  selfSigned : OffsetDateTime → OffsetDateTime → ℕ → Option Identity
  certificateChain : Identity → List Certificate
  hash : Certificate → Bytes hashLength
  toPem : Certificate → List UInt8
  toSecretPem : Identity → List UInt8
  /-- The identity of a certificate file and a key file. -/
  loadPemfiles : List UInt8 → List UInt8 → Option Identity
  /-- The first second at which a certificate is valid. -/
  notBefore : Certificate → ℤ
  /-- The last one. -/
  notAfter : Certificate → ℤ

/-- The text of the leaf file: the certificates and the key. -/
def Cryptography.bundle (k : Cryptography) (identity : k.Identity) : List UInt8 :=
  (k.certificateChain identity).flatMap k.toPem ++ k.toSecretPem identity

/-- What the program relies on. -/
structure Cryptography.Lawful (k : Cryptography) : Prop where
  length_sign : ∀ key message, (k.sign key message).length = signatureLength
  verify_sign : ∀ key message, k.verify (k.publicKey key) message (k.sign key message) = true
  /-- The file that was written for an identity loads its certificates. -/
  loadPemfiles_bundle : ∀ notBefore notAfter entropy identity,
    k.selfSigned notBefore notAfter entropy = some identity →
      ∃ loaded, k.loadPemfiles (k.bundle identity) (k.bundle identity) = some loaded ∧
        k.certificateChain loaded = k.certificateChain identity
  /-- A certificate is valid in the whole seconds it was made for. -/
  validity : ∀ notBefore notAfter entropy identity,
    k.selfSigned notBefore notAfter entropy = some identity →
      ∀ certificate ∈ k.certificateChain identity,
        k.notBefore certificate = notBefore.unixTimestamp.toInt ∧
          k.notAfter certificate = notAfter.unixTimestamp.toInt

/-- The files of the directory. -/
inductive File
  | controlKey
  | manifest
  | leaf (epoch : U32)
deriving DecidableEq

abbrev Directory := File → Option (List UInt8)

/-- What becomes of an atomic write: it may fail before the file is renamed, or after. -/
inductive WriteOutcome
  | written
  | failed
  | unsynchronized
deriving DecidableEq

/-- What happens to one preparation. -/
structure Circumstances where
  now : OffsetDateTime
  /-- The directory can be created and synchronized. -/
  createsDirectory : Bool
  /-- A file can be read, if it is there. -/
  reads : File → Bool
  writes : File → WriteOutcome
  /-- What the random source yields for the control key. -/
  keyEntropy : ℕ
  /-- What it yields for the leaf of an epoch. -/
  leafEntropy : U32 → ℕ

/-- An operation of the file system. -/
inductive FileOperation
  | createDirectory
  | read (file : File)
  | write (file : File)
deriving DecidableEq

/-- It fails. -/
def Circumstances.Fails (c : Circumstances) : FileOperation → Prop
  | .createDirectory => c.createsDirectory = false
  | .read file => c.reads file = false
  | .write file => c.writes file ≠ .written

inductive GatewayError
  /-- The operation of the file system that failed, or that did not find its file. -/
  | io (operation : FileOperation)
  | other (message : String)
  | invalidData
  /-- The certificate library failed. -/
  | certificate
  /-- The calendar does not reach a moment. -/
  | outOfRange
deriving DecidableEq

/-- A program on the directory. -/
abbrev Program := Action GatewayError Directory

def createDirectory (c : Circumstances) : Program Unit :=
  Action.reject (c.createsDirectory = false) (.io .createDirectory)

/-- The contents of a file, or nothing if it is not there. -/
def read (c : Circumstances) (file : File) : Program (Option (List UInt8)) := fun d ↦
  if c.reads file then (.ok (d file), d) else (.error (.io (.read file)), d)

/-- Replace the contents of a file. -/
def atomicWrite (c : Circumstances) (file : File) (contents : List UInt8) : Program Unit := fun d ↦
  match c.writes file with
  | .written => (.ok (), Function.update d file (some contents))
  | .failed => (.error (.io (.write file)), d)
  | .unsynchronized => (.error (.io (.write file)), Function.update d file (some contents))

/-! ## The manifest -/

@[ext] structure CertificateEpoch where
  epoch : U32
  hash : Bytes hashLength
  notAfter : I64
  notBefore : I64
deriving DecidableEq

@[ext] structure CertificateManifest where
  current : CertificateEpoch
  next : CertificateEpoch
deriving DecidableEq

def encodeEpoch (epoch : CertificateEpoch) : List UInt8 :=
  toBe 4 epoch.epoch ++ (epoch.notBefore.toBeBytes ++ (epoch.notAfter.toBeBytes ++
    epoch.hash.toList))

/-- What is signed. -/
def signedManifest (manifest : CertificateManifest) : List UInt8 :=
  manifestMagic ++ (toBe 2 manifestVersion ++ (encodeEpoch manifest.current ++
    encodeEpoch manifest.next))

def copyArray (length : ℕ) (input : List UInt8) (offset : ℕ) :
    Except GatewayError (Bytes length) :=
  match Bytes.slice? length input offset with
  | none => .error (.other "certificate manifest is truncated")
  | some bytes => .ok bytes

def decodeEpoch (encoded : List UInt8) (offset : ℕ) : Except GatewayError CertificateEpoch := do
  let epoch ← copyArray 4 encoded offset
  let notBefore ← copyArray 8 encoded (offset + 4)
  let notAfter ← copyArray 8 encoded (offset + 12)
  let hash ← copyArray hashLength encoded (offset + 20)
  pure ⟨⟨epoch.toNat, epoch.toNat_lt⟩, hash, .fromBeBytes notAfter, .fromBeBytes notBefore⟩

def validateManifest (current next : CertificateEpoch) : Except GatewayError Unit :=
  if ¬(current.epoch.val + 1 = next.epoch.val ∧ current.notBefore.toInt < current.notAfter.toInt ∧
      next.notBefore.toInt < next.notAfter.toInt ∧ next.notBefore.toInt < current.notAfter.toInt ∧
      current.notAfter.toInt - current.notBefore.toInt = certificateLifetime ∧
      next.notAfter.toInt - next.notBefore.toInt = certificateLifetime) then
    .error (.other "certificate manifest epochs are invalid")
  else .ok ()

section Cryptography

variable (k : Cryptography)

def encodeSignedManifest (manifest : CertificateManifest) (control : k.KeyPair) : List UInt8 :=
  signedManifest manifest ++ k.sign control (signedManifest manifest)

def decodeAndVerifyManifest (encoded : List UInt8) (control : k.KeyPair) :
    Except GatewayError CertificateManifest :=
  if encoded.length ≠ manifestLength ∨ encoded.take manifestMagic.length ≠ manifestMagic then
    .error (.other "certificate manifest framing is invalid")
  else do
    let version ← copyArray 2 encoded 8
    if version.toNat ≠ manifestVersion then
      .error (.other "certificate manifest version is unsupported")
    else if k.verify (k.publicKey control) (encoded.take signedManifestLength)
        (encoded.drop signedManifestLength) = false then
      .error (.other "certificate manifest signature is invalid")
    else do
      let current ← decodeEpoch encoded 10
      let next ← decodeEpoch encoded (10 + certificateFieldLength)
      validateManifest current next
      pure ⟨current, next⟩

/-! ## A preparation -/

def loadOrCreateControlKey (c : Circumstances) : Program k.KeyPair := do
  match ← read c .controlKey with
  | some encoded =>
    Action.ofOption (k.fromPkcs8 encoded) (.other "gateway control key is malformed")
  | none =>
    let document ← Action.ofOption (k.generatePkcs8 c.keyEntropy)
      (.other "gateway control key generation failed")
    atomicWrite c .controlKey document
    Action.ofOption (k.fromPkcs8 document) (.other "generated gateway control key is malformed")

/-- The hash of the first certificate, which is the leaf. -/
def leafHash (identity : k.Identity) (e : GatewayError) : Except GatewayError (Bytes hashLength) :=
  match (k.certificateChain identity).head? with
  | none => .error e
  | some certificate => .ok (k.hash certificate)

def generateLeaf (c : Circumstances) (epoch : U32) (notBefore : OffsetDateTime) :
    Program CertificateEpoch := do
  let notAfter ← Action.ofOption (notBefore.addSeconds certificateLifetime) .outOfRange
  let identity ← Action.ofOption (k.selfSigned notBefore notAfter (c.leafEntropy epoch))
    .certificate
  let hash ← Action.ofExcept (leafHash k identity (.other "generated identity has no certificate"))
  atomicWrite c (.leaf epoch) (k.bundle identity)
  pure ⟨epoch, hash, notAfter.unixTimestamp, notBefore.unixTimestamp⟩

def persistManifest (c : Circumstances) (manifest : CertificateManifest) (control : k.KeyPair) :
    Program Unit :=
  atomicWrite c .manifest (encodeSignedManifest k manifest control)

def initializeManifest (c : Circumstances) (control : k.KeyPair) : Program CertificateManifest := do
  let currentStart ← Action.ofOption (c.now.addSeconds (-clockSkewAllowance)) .outOfRange
  let current ← generateLeaf k c 1 currentStart
  let nextStart ← Action.ofOption (c.now.addSeconds certificateEpochStep) .outOfRange
  let next ← generateLeaf k c 2 nextStart
  persistManifest k c ⟨current, next⟩ control
  pure ⟨current, next⟩

/-- The next epoch number. -/
def checkedSucc (epoch : U32) : Option U32 :=
  if h : epoch.val + 1 < 2 ^ 32 then some ⟨epoch.val + 1, h⟩ else none

def rotateManifest (c : Circumstances) (control : k.KeyPair) (manifest : CertificateManifest) :
    Program CertificateManifest := do
  let nextEpoch ← Action.ofOption (checkedSucc manifest.next.epoch)
    (.other "certificate epoch exhausted")
  let nextStart ← Action.ofOption (c.now.addSeconds certificateEpochStep) .outOfRange
  let next ← generateLeaf k c nextEpoch nextStart
  persistManifest k c ⟨manifest.next, next⟩ control
  pure ⟨manifest.next, next⟩

/-- The manifest of the directory, or a first one. -/
def loadManifest (c : Circumstances) (control : k.KeyPair) : Program CertificateManifest := do
  match ← read c .manifest with
  | some encoded => Action.ofExcept (decodeAndVerifyManifest k encoded control)
  | none => initializeManifest k c control

/-- Move on to the next leaf when its window has started. -/
def activateManifest (c : Circumstances) (control : k.KeyPair) (manifest : CertificateManifest) :
    Program CertificateManifest :=
  if c.now.unixTimestamp.toInt ≥ manifest.next.notBefore.toInt then
    rotateManifest k c control manifest
  else pure manifest

def requireLeafHash (identity : k.Identity) (expected : Bytes hashLength) :
    Except GatewayError Unit := do
  let actual ← leafHash k identity (.other "leaf identity has no certificate")
  if actual ≠ expected then .error (.other "leaf identity does not match its signed manifest")
  else .ok ()

/-- Prepared gateway credential state for one process generation. -/
structure PreparedGatewayIdentity where
  /-- Durable control public key used by Carbon to authenticate manifests. -/
  controlPublicKey : Bytes publicKeyLength
  /-- Signed current/next certificate manifest. -/
  manifest : List UInt8
  /-- Seconds until this process must restart onto the already-advertised next leaf. -/
  rotationDelay : ℕ
  /-- Active WebTransport leaf identity. -/
  transport : k.Identity

/-- Load the leaf of the current epoch and hand it out. -/
def serve (c : Circumstances) (control : k.KeyPair) (manifest : CertificateManifest) :
    Program (PreparedGatewayIdentity k) := do
  let encoded ← read c (.leaf manifest.current.epoch)
  let pem ← Action.ofOption encoded (.io (.read (.leaf manifest.current.epoch)))
  let transport ← Action.ofOption (k.loadPemfiles pem pem) .certificate
  Action.ofExcept (requireLeafHash k transport manifest.current.hash)
  let rotationSeconds := manifest.next.notBefore.toInt - c.now.unixTimestamp.toInt
  Action.reject (¬(-2 ^ 63 ≤ rotationSeconds ∧ rotationSeconds < 2 ^ 63))
    (.other "certificate rotation deadline underflow")
  Action.reject (rotationSeconds < 0) .invalidData
  let controlPublicKey ← Action.ofOption (Bytes.ofList? publicKeyLength (k.publicKey control))
    (.other "control public key has an invalid length")
  pure ⟨controlPublicKey, encodeSignedManifest k manifest control, rotationSeconds.toNat, transport⟩

/-- Loads or initializes the durable control identity and two overlapping leaves. -/
def prepare (c : Circumstances) : Program (PreparedGatewayIdentity k) := do
  createDirectory c
  let control ← loadOrCreateControlKey k c
  let manifest ← loadManifest k c control
  Action.reject (c.now.unixTimestamp.toInt < manifest.current.notBefore.toInt)
    (.other "system clock precedes the current certificate epoch")
  Action.reject (c.now.unixTimestamp.toInt ≥ manifest.next.notAfter.toInt)
    (.other "gateway was offline beyond its advertised certificate overlap")
  let manifest ← activateManifest k c control manifest
  Action.reject (c.now.unixTimestamp.toInt ≥ manifest.current.notAfter.toInt)
    (.other "current WebTransport certificate is expired")
  serve k c control manifest

/-- The directory after a preparation, whether it succeeds or not. -/
def after (d : Directory) (c : Circumstances) : Directory := ((prepare k c).run d).2

/-- The directory after one preparation after another. -/
def run (d : Directory) (steps : List Circumstances) : Directory := steps.foldl (after k) d

end Cryptography

end Renee.Gateway
