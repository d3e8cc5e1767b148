import Renee.Supervisor.RestartBudget

/-!
# The children of the supervisor

Two permanent children, `stored` and `gatewayd`, in the order in which they are started.  A
`ChildSpec` is what it takes to start one, and the configuration of the operator gives the first
ones (`Configuration.childSpecs`).

A child announces in one line that it is ready, and at which address (`readinessField`).
`stabilizeReadyChild` writes that address over the `--bind` of the specification a replacement will
be started from, and for the gateway also over the one that later generations start from.

* Arguments and paths are the bytes of an `OsString`.  What a child prints is text.
* A `Launch` is what comes of starting a process, as far as the supervisor waits for it.
* Diagnostics and lifecycle events are written, and nothing depends on them; they are left out.
-/

set_option autoImplicit false

namespace Renee.Supervisor

/-! ## Specifications -/

/-- Arbitrary bytes without a zero byte. -/
abbrev OsString := List UInt8

/-- The bytes of a text. -/
def osString (text : String) : OsString := text.toUTF8.data.toList

/-- What a permanent child does. -/
inductive Role
  | stored
  | gatewayd
deriving DecidableEq

def Role.name : Role → String
  | .stored => "stored"
  | .gatewayd => "gatewayd"

/-- Immutable information needed to recreate one permanent child. -/
@[ext] structure ChildSpec where
  arguments : List OsString
  executable : OsString
  role : Role
deriving DecidableEq

/-- Validated operator configuration, as far as children are started from it. -/
structure Configuration where
  bindAddress : String
  certificate : Option OsString
  createAuthorityId : OsString
  createLiveVerifier : OsString
  createReceiptVerifier : OsString
  gatewayd : OsString
  localIdentity : OsString
  privateKey : Option OsString
  sessiond : OsString
  storeDatabase : OsString
  stored : OsString

/-- The certificate of the gateway, or the identity it keeps itself. -/
def Configuration.identityArguments (c : Configuration) : List OsString :=
  match c.certificate, c.privateKey with
  | some certificate, some privateKey =>
    [osString "--certificate", certificate, osString "--private-key", privateKey]
  | _, _ => [osString "--local-identity", c.localIdentity]

/-- The children, in the order in which they are started. -/
def Configuration.childSpecs (c : Configuration) : List ChildSpec :=
  [{ arguments :=
      [osString "--bind", osString "127.0.0.1:0", osString "--database", c.storeDatabase,
        osString "--create-authority-id", c.createAuthorityId,
        osString "--create-live-verifier", c.createLiveVerifier,
        osString "--create-receipt-verifier", c.createReceiptVerifier]
     executable := c.stored
     role := .stored },
   { arguments := [osString "--bind", osString c.bindAddress] ++ c.identityArguments ++
      [osString "--sessiond", c.sessiond]
     executable := c.gatewayd
     role := .gatewayd }]

/-! ## Readiness -/

inductive ErrorKind
  | invalidData
  | other
  /-- A failure that the operating system reports. -/
  | os (code : ℕ)
deriving DecidableEq

/-- A process the supervisor has a handle on; its process ID is gone once it has been waited for. -/
structure Child where
  id : Option ℕ
deriving DecidableEq

/-- What comes of starting a process. -/
inductive Launch
  /-- It could not be spawned, or its standard output could not be taken. -/
  | unspawned (error : ErrorKind)
  /-- Its first line is read, or reading fails or takes too long. -/
  | spawned (child : Child) (line : Except ErrorKind String)

def childReadinessMaxBytes : ℕ := 4096

/-- The characters that `char::is_whitespace` accepts. -/
def isWhitespace (c : Char) : Bool :=
  (9 ≤ c.toNat && c.toNat ≤ 13) || c.toNat == 0x20 || c.toNat == 0x85 || c.toNat == 0xa0 ||
    c.toNat == 0x1680 || (0x2000 ≤ c.toNat && c.toNat ≤ 0x200a) || c.toNat == 0x2028 ||
    c.toNat == 0x2029 || c.toNat == 0x202f || c.toNat == 0x205f || c.toNat == 0x3000

/-- The characters that `u8::is_ascii_whitespace` accepts. -/
def isAsciiWhitespace (c : Char) : Bool :=
  c.toNat == 9 || c.toNat == 10 || c.toNat == 12 || c.toNat == 13 || c.toNat == 0x20

def trimEnd (text : String) : String :=
  String.ofList (text.toList.reverse.dropWhile isWhitespace).reverse

/-- Check the line in which a child says that it is ready. -/
def readReadiness (role : Role) (line : Except ErrorKind String) : Except ErrorKind String := do
  let record ← line
  let bytesRead := (osString record).length
  if bytesRead = 0 then .error .other
  else if bytesRead > childReadinessMaxBytes ∨ record.toList.getLast? ≠ some '\n' then
    .error .invalidData
  else
    let record := trimEnd record
    let expected := "READY " ++ role.name
    if record ≠ expected ∧ (expected ++ " ").toList.isPrefixOf record.toList = false then
      .error .invalidData
    else .ok record

/-- Start a child and wait until it is ready. -/
def spawnReadyChild (spec : ChildSpec) : Launch → Except ErrorKind (Child × String)
  | .unspawned error => .error error
  | .spawned child line => (readReadiness spec.role line).map fun record ↦ (child, record)

/-- The two sides of the first separator. -/
def splitOnce (separator : Char) : List Char → Option (List Char × List Char)
  | [] => none
  | c :: text =>
    if c = separator then some ([], text)
    else (splitOnce separator text).map fun (before, after) ↦ (c :: before, after)

/-- The value of the first field of that name that has one. -/
def readinessField (record name : String) : Option String :=
  (record.toList.splitOnP isAsciiWhitespace).findSome? fun field ↦
    match splitOnce '=' field with
    | none => none
    | some (candidate, value) =>
      if candidate = name.toList ∧ value ≠ [] then some (String.ofList value) else none

/-! ## Addresses in specifications -/

/-- Replace the argument that stands after the name, from an argument that is to be replaced or
not. -/
def replaceNext (name replacement : OsString) : Bool → List OsString → Bool × List OsString
  | _, [] => (false, [])
  | true, _ :: arguments => (true, replacement :: arguments)
  | false, argument :: arguments =>
    let (replaced, arguments) := replaceNext name replacement (decide (argument = name)) arguments
    (replaced, argument :: arguments)

/-- Replace the value of a named argument, and say whether there is one. -/
def replaceArgumentValue (arguments : List OsString) (name : String) (replacement : OsString) :
    Bool × List OsString :=
  replaceNext (osString name) replacement false arguments

/-- Settle the address a child has announced: in the specification it runs by, and for the gateway
also in the original. -/
def stabilizeReadyChild (readiness : String) (active original : ChildSpec) :
    Except ErrorKind (Option String) × ChildSpec × ChildSpec :=
  match readinessField readiness "address" with
  | none => (.error .invalidData, active, original)
  | some address =>
    match replaceArgumentValue active.arguments "--bind" (osString address) with
    | (false, arguments) => (.error .invalidData, { active with arguments }, original)
    | (true, arguments) =>
      let active := { active with arguments }
      match active.role with
      | .stored => (.ok (some address), active, original)
      | .gatewayd =>
        -- a port is resolved once for the lifetime of the supervisor
        match replaceArgumentValue original.arguments "--bind" (osString address) with
        | (false, arguments) => (.error .invalidData, active, { original with arguments })
        | (true, arguments) => (.ok none, active, { original with arguments })

/-! ## Managed children -/

/-- One live child plus the restart history that follows that logical role. -/
structure ManagedChild where
  child : Option Child
  restartBudget : RestartBudget
  spec : ChildSpec

namespace ManagedChild

def fromStarted (spec : ChildSpec) (child : Child) (restartBudget : RestartBudget) : ManagedChild :=
  ⟨some child, restartBudget, spec⟩

def pidField (m : ManagedChild) : Except ErrorKind String :=
  match m.child.bind Child.id with
  | none => .error .other
  | some pid => .ok (m.spec.role.name ++ "-pid=" ++ toString pid)

/-- Whether the child has exited, given what waiting for it says. -/
def pollExit (m : ManagedChild) (status : Except ErrorKind (Option ℕ)) :
    Except ErrorKind (Option ℕ) :=
  match m.child with
  | none => .ok none
  | some _ => status

end ManagedChild

end Renee.Supervisor
