import Smolweb.Misfin.Address
import Mathlib.Algebra.Group.Nat.Defs

/-!
# The identity in a certificate

`x509_identity.rs`, and `sha256_hex` of `helpers.rs`. The X.509 parser, ASN.1 time and SHA-256 are
other crates' and come in as `Crates`, with the URL parser of the server.
-/

namespace Smolweb.Misfin

/-- The type of a subject attribute, as far as it is told apart. -/
inductive AttrType where
  | userId
  | commonName
  | other
  deriving Repr, DecidableEq

/-- A name in SUBJECT_ALT_NAME, as far as it is told apart. -/
inductive GeneralName where
  | dnsName (name : Text)
  | other
  deriving Repr, DecidableEq

/-- What is read of a parsed X.509 certificate: the subject's attributes, each with its string
where `as_str` succeeds; the names of the SUBJECT_ALT_NAME extension where it is read; and the
validity window in seconds. -/
structure X509Certificate where
  subject : List (AttrType × Option Text)
  subjectAlternativeName : Option (List GeneralName)
  notBefore : Int
  notAfter : Int
  deriving Repr, DecidableEq

/-- The functions of other crates that the server calls. -/
structure Crates where
  /-- `url::Url::parse`, where it succeeds. -/
  parseUrl : Text → Option Url
  /-- `X509Certificate::from_der`, where it succeeds. -/
  fromDer : Bytes → Option X509Certificate
  /-- Whether `ASN1Time::from_timestamp` takes a number of seconds. -/
  isTimestamp : Int → Bool
  /-- `Sha256::digest`. -/
  sha256 : Bytes → Bytes

/-- `nibble_to_hex`, of a value below sixteen. -/
def nibbleToHex (value : UInt8) : Char :=
  if value ≤ 9 then Char.ofNat ('0'.toNat + value.toNat)
  else Char.ofNat ('a'.toNat + (value.toNat - 10))

def encodeHex (bytes : Bytes) : Text :=
  bytes.flatMap fun (b : UInt8) => [nibbleToHex (b >>> 4), nibbleToHex (b &&& 0x0F)]

/-- `sha256_hex`: a certificate's fingerprint. -/
def sha256Hex (crates : Crates) (bytes : Bytes) : Text := encodeHex (crates.sha256 bytes)

structure CertificateIdentity where
  mailbox : Option Text
  hosts : List Text
  blurb : Option Text
  /-- Whether the validity window excludes now. -/
  expired : Bool
  deriving Repr, DecidableEq

/-- The attribute loop of `parse_certificate_identity`: the first USER_ID and the first
COMMON_NAME that are strings. -/
def subjectNames : List (AttrType × Option Text) → (mailbox blurb : Option Text) →
    Option Text × Option Text
  | [], mailbox, blurb => (mailbox, blurb)
  | (.userId, value) :: rest, mailbox, blurb => subjectNames rest (mailbox.or value) blurb
  | (.commonName, value) :: rest, mailbox, blurb => subjectNames rest mailbox (blurb.or value)
  | (.other, _) :: rest, mailbox, blurb => subjectNames rest mailbox blurb

/-- `now_unix as i64`. -/
def asI64 (n : Nat) : Int := Int.bmod n (2 ^ 64)

/-- `parse_certificate_identity`; its only error is a certificate that does not parse. -/
def parseCertificateIdentity (crates : Crates) (der : Bytes) (now : Nat) :
    Option CertificateIdentity := do
  let certificate ← crates.fromDer der
  let (mailbox, blurb) := subjectNames certificate.subject none none
  let hosts := (certificate.subjectAlternativeName.getD []).filterMap fun
    | .dnsName dns => some (toAsciiLowercase dns)
    | .other => none
  let now := asI64 now
  let expired := crates.isTimestamp now &&
    !(decide (certificate.notBefore ≤ now) && decide (now ≤ certificate.notAfter))
  some { mailbox, hosts, blurb, expired }

def claimedAddress (identity : CertificateIdentity) : Option MisfinAddress := do
  let mailbox ← identity.mailbox
  let host ← identity.hosts.head?
  (MisfinAddress.parse (mailbox ++ '@' :: host)).toOption

end Smolweb.Misfin
