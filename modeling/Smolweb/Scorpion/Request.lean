import Smolweb.Lib.Crlf
import Smolweb.Lib.Decimal

/-!
# Requests

`request.rs`: a subprotocol letter, the parameter that letter allows, a space and an absolute URL.
The parameter is untyped on the wire; `Parameter.parse` reads it by the letter before it.
-/

namespace Smolweb.Scorpion

/-- `str::parse::<u64>`. -/
def parseU64 (t : Text) : Option UInt64 := (Text.parseUnsigned maxU64 t).map UInt64.ofNat

inductive Subprotocol where
  | receive
  | send
  | interactive
  | metadata
  deriving Repr, DecidableEq

namespace Subprotocol

/-- `R`, `S`, `I` or `M`. -/
def byte : Subprotocol → UInt8
  | .receive => 82
  | .send => 83
  | .interactive => 73
  | .metadata => 77

def fromByte (b : UInt8) : Option Subprotocol :=
  if b = 82 then some .receive
  else if b = 83 then some .send
  else if b = 73 then some .interactive
  else if b = 77 then some .metadata
  else none

/-- `u8::try_from(c).ok().and_then(Subprotocol::from_byte)`. -/
def fromChar (c : Char) : Option Subprotocol :=
  if c.toNat < 256 then fromByte (UInt8.ofNat c.toNat) else none

end Subprotocol

/-- A byte range; `stop` is the first byte not wanted, `none` the end of the file. -/
structure Range where
  start : UInt64
  stop : Option UInt64
  deriving Repr, DecidableEq

namespace Range

/-- `end.saturating_sub(start)`, when the range has an end. -/
def len (r : Range) : Option Nat := r.stop.map fun stop => stop.toNat - r.start.toNat

def parse (t : Text) : Option Range := do
  let (start, stop) ← t.splitOnce '-'
  let start ← parseU64 start
  if stop.isEmpty then some ⟨start, none⟩
  else
    let stop ← parseU64 stop
    some ⟨start, some stop⟩

/-- `Display`. -/
def render (r : Range) : Text :=
  match r.stop with
  | some stop => Text.decimal r.start.toNat ++ '-' :: Text.decimal stop.toNat
  | none => Text.decimal r.start.toNat ++ ['-']

end Range

/-- What stands between the subprotocol letter and the space. -/
inductive Parameter where
  | none
  | range (range : Range)
  | version (version : Text)
  | hmac (hmac version : Text)
  | capabilities (codes : Text)
  | desiredType (kind : Text)
  deriving Repr, DecidableEq

inductive RequestError where
  | malformed
  | unknownSubprotocol
  | malformedRange
  | relativeUrl
  | tooLong
  deriving Repr, DecidableEq

namespace Parameter

def render : Parameter → Text
  | .none => []
  | .range r => r.render
  | .version v => v
  | .hmac h v => h ++ '@' :: v
  | .capabilities codes => codes
  | .desiredType kind => kind

def parse (subprotocol : Subprotocol) (t : Text) : Except RequestError Parameter :=
  if t.isEmpty then .ok .none
  else match subprotocol with
    | .receive =>
      match Range.parse t with
      | some r => .ok (.range r)
      | .none => .error .malformedRange
    | .send =>
      match t.splitOnce '@' with
      | some (h, v) => .ok (.hmac h v)
      | .none => .ok (.version t)
    | .interactive => .ok (.capabilities t)
    | .metadata => .ok (.desiredType t)

end Parameter

def isSchemeChar (c : Char) : Bool := c.isAlphanum || c == '+' || c == '-' || c == '.'

/-- Whether a URL begins with a scheme. -/
def hasScheme (url : Text) : Bool :=
  match url.splitOnce ':' with
  | none => false
  | some (scheme, _) =>
    match scheme with
    | [] => false
    | first :: rest => first.isAlpha && rest.all isSchemeChar

def stripFragment (url : Text) : Text :=
  match url.splitOnce '#' with
  | some (head, _) => head
  | none => url

structure Request where
  subprotocol : Subprotocol
  parameter : Parameter
  url : Text
  deriving Repr, DecidableEq

namespace Request

def receive (url : Text) : Request := ⟨.receive, .none, url⟩

def receiveRange (url : Text) (range : Range) : Request := ⟨.receive, .range range, url⟩

def metadata (url : Text) : Request := ⟨.metadata, .none, url⟩

def send (url : Text) (version : Option Text) : Request :=
  ⟨.send, version.elim .none .version, url⟩

def interactive (url : Text) (capabilities : Option Text) : Request :=
  ⟨.interactive, capabilities.elim .none .capabilities, url⟩

def toWire (r : Request) : Bytes :=
  r.subprotocol.byte :: Utf8.encode r.parameter.render ++
    32 :: Utf8.encode (stripFragment r.url) ++ crlf

def parse (line : Text) : Except RequestError Request :=
  match Text.stripLineEnd line with
  | [] => .error .malformed
  | first :: rest =>
    match Subprotocol.fromChar first with
    | none => .error .unknownSubprotocol
    | some subprotocol =>
      match Text.splitOnce ' ' rest with
      | none => .error .malformed
      | some (parameter, url) =>
        if url.isEmpty then .error .malformed
        else if !hasScheme url then .error .relativeUrl
        else do
          let parameter ← Parameter.parse subprotocol parameter
          .ok ⟨subprotocol, parameter, url⟩

end Request

end Smolweb.Scorpion
