import Mathlib.Logic.Function.Basic
import Smolweb.Lib.Path
import Smolweb.Misfin.Identity

/-!
# Persisted identities

`identity.rs`, and `identity_path_for_spec`, `sanitize_filename` and `decode_hex` of `helpers.rs`:
one JSON file for each identity, below a root directory. `rcgen` and `serde_json` come in as
`IdentityCrates`; what the file system and the random numbers do in a call comes in as `Io`.
-/

namespace Smolweb.Misfin

structure MisfinIdentitySpec where
  address : MisfinAddress
  blurb : Option Text
  deriving Repr, DecidableEq

structure MisfinIdentityStatus where
  address : Text
  path : Option Text
  /-- `exists`. -/
  present : Bool
  blurb : Option Text
  certificateFingerprint : Option Text
  deriving Repr, DecidableEq

structure MisfinIdentityMaterial where
  certificateDer : Bytes
  privateKeyPkcs8Der : Bytes
  deriving Repr, DecidableEq

structure PersistedMisfinIdentity where
  address : Text
  blurb : Option Text
  certificateDerHex : Text
  privateKeyDerHex : Text
  deriving Repr, DecidableEq

structure MisfinClientIdentity where
  certificateChain : List Bytes
  privateKeyDer : Bytes
  deriving Repr, DecidableEq

def MisfinClientIdentity.material (identity : MisfinClientIdentity) : MisfinIdentityMaterial where
  certificateDer := identity.certificateChain.head?.getD []
  privateKeyPkcs8Der := identity.privateKeyDer

/-- What `spec_certificate_params` sets; a date is a year, a month and a day. -/
structure CertificateParams where
  subjectAltNames : List Text
  userId : Text
  commonName : Text
  notBefore : Nat × Nat × Nat
  notAfter : Nat × Nat × Nat
  deriving Repr, DecidableEq

/-- The functions of other crates that the identity store calls, and SHA-256. What is drawn at
random is an argument. -/
structure IdentityCrates extends Crates where
  KeyPair : Type
  /-- `KeyPair::generate`. -/
  generateKeyPair : (random : Bytes) → Except Text KeyPair
  /-- `KeyPair::serialize_der`. -/
  serializeDer : KeyPair → Bytes
  /-- What `CertificateParams::new` has against some names, if anything. -/
  paramsError : List Text → Option Text
  /-- `CertificateParams::self_signed`, and the certificate's `der`. -/
  selfSigned : CertificateParams → KeyPair → (random : Bytes) → Except Text Bytes
  /-- `serde_json::to_string_pretty`. -/
  toStringPretty : PersistedMisfinIdentity → Except Text Text
  /-- `serde_json::from_str`. -/
  fromStr : Text → Except Text PersistedMisfinIdentity

/-- What happens in a call: the error of each operation that fails, and the random numbers. -/
structure Io where
  createDirAll : Option Text := none
  /-- Reading a file to load the identity, and to report it. -/
  loadRead : Option Text := none
  statusRead : Option Text := none
  keyRandom : Bytes
  signRandom : Bytes
  /-- A write that fails: the length of what is in the file then, if the file was opened. -/
  write : Option (Text × Option Nat) := none
  removeFile : Option Text := none

/-- The files by their paths. `minted` is ghost state: the identities made so far, each with its
spec. -/
structure Disk where
  files : Text → Option Bytes
  minted : List (MisfinIdentitySpec × MisfinClientIdentity)

/-! ## Names of files -/

/-- A character that a file name keeps. -/
def isPlain (character : Char) : Bool :=
  character.isAlphanum || character == '-' || character == '_' || character == '.' ||
    character == '@'

def sanitizeFilename (input : Text) : Text :=
  input.map fun character => if isPlain character then character else '_'

def identityPathForSpec (spec : MisfinIdentitySpec) (identityRoot : Text) : Text :=
  Path.push '/' identityRoot (sanitizeFilename spec.address.asAddrSpec ++ ".json".toList)

/-! ## Hexadecimal digits -/

def fromHexDigit (byte : UInt8) : Except Text UInt8 :=
  if 48 ≤ byte ∧ byte ≤ 57 then .ok (byte - 48)
  else if 97 ≤ byte ∧ byte ≤ 102 then .ok (byte - 97 + 10)
  else if 65 ≤ byte ∧ byte ≤ 70 then .ok (byte - 65 + 10)
  else .error ("Invalid hex digit '".toList ++ Char.ofNat byte.toNat :: "'.".toList)

/-- The loop of `decode_hex`, two bytes at a time. -/
def decodeHexBytes : Bytes → Except Text Bytes
  | high :: low :: rest => do
    let high ← fromHexDigit high
    let low ← fromHexDigit low
    let output ← decodeHexBytes rest
    return (high <<< 4 ||| low) :: output
  | _ => .ok []

def decodeHex (input : Text) : Except Text Bytes :=
  let bytes := Utf8.encode input
  if bytes.length % 2 ≠ 0 then .error "Hex payload length must be even.".toList
  else decodeHexBytes bytes

/-! ## Minting -/

section Store

variable (crates : IdentityCrates) (io : Io) (spec : MisfinIdentitySpec) (identityRoot : Text)

def specCertificateParams : Except Text CertificateParams :=
  match crates.paramsError [spec.address.host] with
  | some error => .error ("Misfin certificate params failed: ".toList ++ error)
  | none => .ok {
      subjectAltNames := [spec.address.host]
      userId := spec.address.mailbox
      commonName := spec.blurb.getD spec.address.asAddrSpec
      notBefore := (2024, 1, 1)
      notAfter := (2099, 12, 31) }

def generateIdentity : Except Text MisfinClientIdentity :=
  match crates.generateKeyPair io.keyRandom with
  | .error error => .error ("Misfin key generation failed: ".toList ++ error)
  | .ok keyPair => do
    let params ← specCertificateParams crates spec
    match crates.selfSigned params keyPair io.signRandom with
    | .error error =>
      .error ("Misfin identity certificate generation failed: ".toList ++ error)
    | .ok cert => .ok {
        certificateChain := [cert]
        privateKeyDer := crates.serializeDer keyPair }

/-! ## The files -/

/-- An error about a file. -/
def fileError (action path error : Text) : Text :=
  "Failed to ".toList ++ action ++ " Misfin identity '".toList ++ path ++ "': ".toList ++ error

/-- `read_to_string` and `from_str`, with the file's content. -/
def readPersisted (readError : Option Text) (path : Text) (content : Bytes) :
    Except Text PersistedMisfinIdentity :=
  match readError with
  | some error => .error (fileError "read".toList path error)
  | none =>
    match Utf8.decode content with
    | none => .error (fileError "read".toList path "stream did not contain valid UTF-8".toList)
    | some content =>
      match crates.fromStr content with
      | .error error => .error (fileError "parse".toList path error)
      | .ok persisted => .ok persisted

def persistedIdentity (identity : MisfinClientIdentity) : PersistedMisfinIdentity where
  address := spec.address.asAddrSpec
  blurb := spec.blurb
  certificateDerHex := encodeHex (identity.certificateChain.head?.getD [])
  privateKeyDerHex := encodeHex identity.privateKeyDer

/-- `fs::write`. -/
def Disk.write (path content : Text) (disk : Disk) : Except Text Unit × Disk :=
  let holding (bytes : Bytes) : Disk :=
    { disk with files := Function.update disk.files path (some bytes) }
  match io.write with
  | none => (.ok (), holding (Utf8.encode content))
  | some (error, none) => (.error (fileError "persist".toList path error), disk)
  | some (error, some length) =>
    (.error (fileError "persist".toList path error), holding ((Utf8.encode content).take length))

def loadIdentity (path : Text) (content : Bytes) : Except Text MisfinClientIdentity := do
  let persisted ← readPersisted crates io.loadRead path content
  let certificate ← decodeHex persisted.certificateDerHex
  let privateKeyDer ← decodeHex persisted.privateKeyDerHex
  return { certificateChain := [certificate], privateKeyDer }

/-- The end of `load_or_create_identity`, where there is no file. -/
def createIdentity (path : Text) (disk : Disk) : Except Text MisfinClientIdentity × Disk :=
  match generateIdentity crates io spec with
  | .error error => (.error error, disk)
  | .ok identity =>
    let disk := { disk with minted := disk.minted ++ [(spec, identity)] }
    match crates.toStringPretty (persistedIdentity spec identity) with
    | .error error => (.error (fileError "serialize".toList path error), disk)
    | .ok content =>
      match disk.write io path content with
      | (.error error, disk) => (.error error, disk)
      | (.ok (), disk) => (.ok identity, disk)

def loadOrCreateIdentity (disk : Disk) : Except Text MisfinClientIdentity × Disk :=
  match io.createDirAll with
  | some error =>
    (.error ("Failed to create Misfin identity directory: ".toList ++ error), disk)
  | none =>
    let path := identityPathForSpec spec identityRoot
    match disk.files path with
    | some content => (loadIdentity crates io path content, disk)
    | none => createIdentity crates io spec path disk

def identityMaterialWithRoot (disk : Disk) : Except Text MisfinIdentityMaterial × Disk :=
  let (identity, disk) := loadOrCreateIdentity crates io spec identityRoot disk
  (identity.map MisfinClientIdentity.material, disk)

def identityStatusWithRoot (disk : Disk) : Except Text MisfinIdentityStatus :=
  let path := identityPathForSpec spec identityRoot
  match disk.files path with
  | none => .ok {
      address := spec.address.asAddrSpec
      path := some path
      present := false
      blurb := spec.blurb
      certificateFingerprint := none }
  | some content => do
    let persisted ← readPersisted crates io.statusRead path content
    let certificateDer ← decodeHex persisted.certificateDerHex
    return {
      address := persisted.address
      path := some path
      present := true
      blurb := persisted.blurb
      certificateFingerprint := some (sha256Hex crates.toCrates certificateDer) }

def ensureIdentityWithRoot (disk : Disk) : Except Text MisfinIdentityStatus × Disk :=
  match loadOrCreateIdentity crates io spec identityRoot disk with
  | (.error error, disk) => (.error error, disk)
  | (.ok _, disk) => (identityStatusWithRoot crates io spec identityRoot disk, disk)

def forgetIdentityWithRoot (disk : Disk) : Except Text Bool × Disk :=
  let path := identityPathForSpec spec identityRoot
  match disk.files path with
  | none => (.ok false, disk)
  | some _ =>
    match io.removeFile with
    | some error => (.error (fileError "remove".toList path error), disk)
    | none => (.ok true, { disk with files := Function.update disk.files path none })

def rotateIdentityWithRoot (disk : Disk) : Except Text MisfinIdentityStatus × Disk :=
  match forgetIdentityWithRoot io spec identityRoot disk with
  | (.error error, disk) => (.error error, disk)
  | (.ok _, disk) => ensureIdentityWithRoot crates io spec identityRoot disk

end Store

/-! ## Calls -/

/-- A call of the crate's interface, with what happens in it. -/
inductive Call where
  | ensure (spec : MisfinIdentitySpec) (io : Io)
  | rotate (spec : MisfinIdentitySpec) (io : Io)
  | forget (spec : MisfinIdentitySpec) (io : Io)
  | status (spec : MisfinIdentitySpec) (io : Io)
  | material (spec : MisfinIdentitySpec) (io : Io)

inductive Answer where
  | status (result : Except Text MisfinIdentityStatus)
  | removed (result : Except Text Bool)
  | material (result : Except Text MisfinIdentityMaterial)

namespace Call

def spec : Call → MisfinIdentitySpec
  | ensure spec _ | rotate spec _ | forget spec _ | status spec _ | material spec _ => spec

def perform (crates : IdentityCrates) (identityRoot : Text) (disk : Disk) : Call → Answer × Disk
  | ensure spec io => (ensureIdentityWithRoot crates io spec identityRoot disk).map .status id
  | rotate spec io => (rotateIdentityWithRoot crates io spec identityRoot disk).map .status id
  | forget spec io => (forgetIdentityWithRoot io spec identityRoot disk).map .removed id
  | status spec io => (.status (identityStatusWithRoot crates io spec identityRoot disk), disk)
  | material spec io => (identityMaterialWithRoot crates io spec identityRoot disk).map .material id

/-- The disk after some calls, one after the other. -/
def run (crates : IdentityCrates) (identityRoot : Text) (disk : Disk) (calls : List Call) : Disk :=
  calls.foldl (fun disk call => (call.perform crates identityRoot disk).2) disk

end Call

end Smolweb.Misfin
