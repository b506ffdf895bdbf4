import Smolweb.Scorpion.Request
import Smolweb.Scorpion.Status

/-!
# Status lines

`response.rs`: a status code and the parameters its class has, the last of which may contain
spaces, and the accessors that give the parameters their meaning.
-/

namespace Smolweb.Scorpion

/-- A declared file size; the server may not know it. -/
inductive Size where
  | known (size : UInt64)
  | unknown
  deriving Repr, DecidableEq

def Size.parse (t : Text) : Option Size :=
  if t = ['?'] then some .unknown else (parseU64 t).map .known

/-- `Display`. -/
def Size.render : Size → Text
  | .known size => Text.decimal size.toNat
  | .unknown => ['?']

inductive ScopeMatch where
  | exact
  | anyQuery
  | beneath
  | unspecified
  deriving Repr, DecidableEq

def ScopeMatch.fromChar : Char → Option ScopeMatch
  | '=' => some .exact
  | '+' => some .anyQuery
  | '*' => some .beneath
  | '-' => some .unspecified
  | _ => none

/-- Which URLs a client certificate should be offered for. -/
structure CertificateScope where
  matchKind : ScopeMatch
  url : Text
  deriving Repr, DecidableEq

def CertificateScope.parse : Text → Option CertificateScope
  | [] => none
  | c :: url => (ScopeMatch.fromChar c).map fun matchKind => ⟨matchKind, url⟩

inductive ResponseError where
  | malformed
  | unknownStatusClass
  | missingParameters
  | malformedSize
  | tooLong
  deriving Repr, DecidableEq

/-- The parameters of a successful response. -/
structure Success where
  /-- The size of the whole file, also on a partial response. -/
  size : Size
  mediaType : Text
  version : Option Text
  deriving Repr, DecidableEq

/-- A parsed status line. -/
structure Header where
  status : Status
  parameters : List Text
  deriving Repr, DecidableEq

namespace Header

def parse (line : Text) : Except ResponseError Header :=
  match Text.stripLineEnd line with
  | a :: b :: rest =>
    if a.isDigit && b.isDigit then
      match Status.new (a.toNat - 48) (b.toNat - 48) with
      | none => .error .unknownStatusClass
      | some status =>
        match rest with
        | [] => .ok ⟨status, splitParameters status []⟩
        | c :: rest => if c = ' ' then .ok ⟨status, splitParameters status rest⟩
          else .error .malformed
    else .error .malformed
  | _ => .error .malformed

def toWire (h : Header) : Bytes :=
  h.status.toAscii ++ h.parameters.flatMap (fun parameter => 32 :: Utf8.encode parameter) ++ crlf

/-- A `2x` or `8x` response's declared size, type and version; `none` for any other class. -/
def success (h : Header) : Option (Except ResponseError Success) :=
  if h.status.major = .success ∨ h.status.major = .accepted then
    -- 8x omits its parameters entirely when the file was deleted
    if h.parameters.isEmpty ∧ h.status.major = .accepted then some (.ok ⟨.unknown, [], none⟩)
    else match h.parameters with
      | size :: mediaType :: rest =>
        match Size.parse size with
        | none => some (.error .malformedSize)
        | some size => some (.ok ⟨size, mediaType, rest.head?⟩)
      | _ => some (.error .missingParameters)
  else none

/-- A `3x` response's target URL. -/
def redirect (h : Header) : Option Text :=
  if h.status.major = .redirect then h.parameters.head? else none

/-- A `1x` response's prompt text. -/
def prompt (h : Header) : Option Text :=
  if h.status.major = .input then h.parameters.head? else none

/-- A `6x` response's scope hint and explanation. -/
def certificateRequest (h : Header) : Option (Option CertificateScope × Option Text) :=
  if h.status.major = .certificateRequired then
    some (h.parameters.head?.bind CertificateScope.parse, h.parameters[1]?)
  else none

/-- The free text that a `4x` or `5x` carries. -/
def message (h : Header) : Option Text :=
  match h.status.major with
  | .permanentError => h.parameters.head?
  | .temporaryError => h.parameters[1]?
  | _ => none

end Header

end Smolweb.Scorpion
