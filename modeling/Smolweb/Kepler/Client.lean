import Smolweb.Kepler.Wire
import Smolweb.Lib.Fetch

/-!
# The kepler client

`client.rs`: `kepler://` is plaintext, `keplers://` the same exchange inside TLS, if the crate is
built with it. The crate `url` is a parameter of `fetch`; a connection or a read that fails ends a
fetch at once and is left out.
-/

namespace Smolweb.Kepler

def defaultPort : Nat := 2009

def defaultTlsPort : Nat := 10009

inductive ClientError where
  | badUrl (message : Text)
  | connect (message : Text)
  | protocol (message : Text)
  deriving Repr, DecidableEq

structure Response where
  header : Header
  body : Bytes
  deriving Repr, DecidableEq

abbrev ClientM := DuplexM UInt8 ClientError

/-- `exchange` from the request on: what the reply says. -/
def readResponse : ClientM Response := do
  let text ← readHeaderLine (.protocol "header line is unreasonable".toList)
    (.protocol "header is not UTF-8".toList) maxUri
  match parseHeader text with
  | .error e => throw (.protocol e)
  | .ok header =>
    match header with
    | .success _ cache _ =>
      if cache.hasLength then do
        let body ← DuplexM.readUpTo cache.length.toInt.toNat
        pure { header, body }
      else do
        let body ← DuplexM.readToEnd
        pure { header, body }
    | _ => pure { header, body := [] }

def exchange (request : Bytes) : ClientM Response := do
  DuplexM.write request
  readResponse

/-- Whether a scheme is the encrypted one, if it is one of the two. -/
def isSecure (scheme : Text) : Option Bool :=
  if scheme = "kepler".toList then some false
  else if scheme = "keplers".toList then some true
  else none

/-- `fetch`, up to the connection; `tls` is the crate's feature. -/
def fetch (parse : UrlParser) (tls : Bool) (url : Text) (lastCached : Int64) (language : Text) :
    Except ClientError (Fetch ClientError Response) :=
  match parse url with
  | .error e => .error (.badUrl e)
  | .ok parsed =>
    if maxUri < (Utf8.encode url).length then
      .error (.badUrl ("URI exceeds ".toList ++ Text.decimal maxUri ++ " bytes".toList))
    else if parsed.fragment.isSome then
      .error (.badUrl "kepler URIs carry no fragment".toList)
    else
      match parsed.host with
      | none => .error (.badUrl "kepler URL has no host".toList)
      | some host =>
        match isSecure parsed.scheme with
        | none => .error (.badUrl ("scheme ".toList ++ parsed.scheme ++ " is not kepler".toList))
        | some secure =>
          let port := parsed.port.getD (if secure then defaultTlsPort else defaultPort)
          let line := requestLine url lastCached language
          if secure && !tls then
            .error (.connect "keplers:// needs the `tls` feature".toList)
          else .ok { host, port, exchange := exchange (Utf8.encode line) }

end Smolweb.Kepler
