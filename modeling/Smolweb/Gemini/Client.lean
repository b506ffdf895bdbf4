import Smolweb.Lib.Crlf
import Smolweb.Lib.Decimal
import Smolweb.Lib.Duplex
import Smolweb.Lib.Url

/-!
# The gemini exchange

`exchange` and `parse_response` of `client.rs`: the absolute URL on a line of its own, then a
header of two digits and a meta string, and after a success the body, to the end of the stream.
-/

namespace Smolweb.Gemini

/-- The largest request line, in bytes, its CRLF included. -/
def maxRequest : Nat := 1024

/-- The status classes, one per leading digit. -/
inductive Status where
  | input
  | success
  | redirect
  | temporaryFailure
  | permanentFailure
  | certificateRequired
  deriving Repr, DecidableEq

def Status.fromCode (code : UInt8) : Option Status :=
  match (code / 10).toNat with
  | 1 => some .input
  | 2 => some .success
  | 3 => some .redirect
  | 4 => some .temporaryFailure
  | 5 => some .permanentFailure
  | 6 => some .certificateRequired
  | _ => none

structure Response where
  status : Status
  code : UInt8
  metaText : Text
  body : Bytes
  deriving Repr, DecidableEq

/-- The `ClientError::Protocol` of an exchange. -/
inductive ProtocolError where
  | requestTooLong
  | noCrlf
  | notUtf8
  | badStatus (header : Text)
  | unknownClass (code : UInt8)
  deriving Repr, DecidableEq

/-- The error's text; `debug` is how a string is shown by `{:?}`. -/
def ProtocolError.message (debug : Text → Text) : ProtocolError → Text
  | .requestTooLong => "request exceeds ".toList ++ Text.decimal maxRequest ++ " bytes".toList
  | .noCrlf => "response header has no CRLF".toList
  | .notUtf8 => "response header is not UTF-8".toList
  | .badStatus header => "bad gemini status: ".toList ++ debug header
  | .unknownClass code => "unknown gemini status class: ".toList ++ Text.decimal code.toNat

/-- `parse_response`. -/
def parseResponse (raw : Bytes) : Except ProtocolError Response :=
  match crlfPosition raw with
  | none => .error .noCrlf
  | some split =>
    match Utf8.decode (raw.take split) with
    | none => .error .notUtf8
    | some header =>
      match Text.splitCode header with
      | none => .error (.badStatus header)
      | some (code, rest) =>
        let code := UInt8.ofNat code
        match Status.fromCode code with
        | none => .error (.unknownClass code)
        | some status => .ok {
            status
            code
            metaText := Text.trimStart rest
            -- for anything but a success the meta is the payload
            body := if status = .success then raw.drop (split + 2) else [] }

abbrev ClientM := DuplexM UInt8 ProtocolError

/-- `exchange`, on a stream that neither refuses a write nor fails a read. -/
def exchange (url : UrlRecord) : ClientM Response := do
  let request := Utf8.encode (url.display ++ ['\r', '\n'])
  if maxRequest < request.length then throw .requestTooLong
  else
    DuplexM.write request
    let raw ← DuplexM.readToEnd
    match parseResponse raw with
    | .error e => throw e
    | .ok response => pure response

end Smolweb.Gemini
