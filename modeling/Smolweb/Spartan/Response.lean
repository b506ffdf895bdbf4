import Smolweb.Lib.Crlf
import Smolweb.Lib.Decimal
import Smolweb.Lib.Fields

/-!
# Spartan responses

The `Status` of `lib.rs`, the responses that `server.rs` writes and `parse_response` of `client.rs`.
-/

namespace Smolweb.Spartan

inductive Status where
  | success
  | redirect
  | clientError
  | serverError
  deriving Repr, DecidableEq

def Status.code : Status → Nat
  | .success => 2
  | .redirect => 3
  | .clientError => 4
  | .serverError => 5

def Status.fromCode (code : Nat) : Option Status :=
  match code with
  | 2 => some .success
  | 3 => some .redirect
  | 4 => some .clientError
  | 5 => some .serverError
  | _ => none

/-- What a handler answers. -/
inductive SpartanResponse where
  | success (mime : Text) (body : Bytes)
  | redirect (path : Text)
  | clientError (message : Text)
  | serverError (message : Text)
  deriving Repr, DecidableEq

namespace SpartanResponse

def status : SpartanResponse → Status
  | success .. => .success
  | redirect .. => .redirect
  | clientError .. => .clientError
  | serverError .. => .serverError

def metaText : SpartanResponse → Text
  | success mime _ => mime
  | redirect path => path
  | clientError message => message
  | serverError message => message

def body : SpartanResponse → Bytes
  | success _ body => body
  | redirect _ | clientError _ | serverError _ => []

def encode (response : SpartanResponse) : Bytes :=
  Utf8.encode (Text.decimal response.status.code ++ [' '] ++ response.metaText ++ ['\r', '\n']) ++
    response.body

end SpartanResponse

/-- A response as the client reads it. -/
structure Response where
  status : Status
  metaText : Text
  body : Bytes
  deriving Repr, DecidableEq

/-- The `ClientError::Protocol` of `parse_response`. -/
inductive ProtocolError where
  | noCrlf
  | notUtf8
  | badStatus (line : Text)
  | unknownDigit (code : Nat)
  deriving Repr, DecidableEq

/-- The error's text; `debug` is how a string is shown by `{:?}`. -/
def ProtocolError.message (debug : Text → Text) : ProtocolError → Text
  | .noCrlf => "status line has no CRLF".toList
  | .notUtf8 => "status line is not UTF-8".toList
  | .badStatus line => "bad status line: ".toList ++ debug line
  | .unknownDigit code => "unknown status digit: ".toList ++ Text.decimal code

/-- `parse_response`. -/
def parseResponse (raw : Bytes) : Except ProtocolError Response :=
  match crlfPosition raw with
  | none => .error .noCrlf
  | some split =>
    match Utf8.decode (raw.take split) with
    | none => .error .notUtf8
    | some line =>
      let (code, metaText) :=
        match Text.splitOnce ' ' line with
        | some (code, metaText) => (code, Text.trim metaText)
        | none => (line, [])
      match Text.parseUnsigned 255 code with
      | none => .error (.badStatus line)
      | some code =>
        match Status.fromCode code with
        | none => .error (.unknownDigit code)
        | some status => .ok {
            status
            metaText
            -- a success alone carries a body
            body := if status = .success then raw.drop (split + 2) else [] }

end Smolweb.Spartan
