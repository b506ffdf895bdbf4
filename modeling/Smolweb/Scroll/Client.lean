import Smolweb.Lib.Fetch
import Smolweb.Scroll.Wire

/-!
# The scroll client

`client.rs`: one request over TLS, whose trust is gemini's `tofu_connect`. The crate `url` is a
parameter of `fetch`; a connection or a read that fails ends a fetch at once and is left out.
-/

namespace Smolweb.Scroll

inductive ClientError where
  | badUrl (message : Text)
  | protocol (message : Text)
  deriving Repr, DecidableEq

structure Response where
  header : Header
  body : Bytes
  deriving Repr, DecidableEq

abbrev ClientM := DuplexM UInt8 ClientError

def readLine : ClientM Text :=
  readHeaderLine (.protocol "header line is unreasonable".toList)
    (.protocol "header is not UTF-8".toList) 4096

/-- `exchange` from the request on: what the reply says. -/
def readResponse : ClientM Response := do
  let statusLine ← readLine
  match parseStatusLine statusLine with
  | .error e => throw (.protocol e)
  | .ok (code, status, metaText) =>
    if status ≠ .success then pure { header := .metadata code status metaText, body := [] }
    else do
      let author ← readLine
      let published ← readLine
      let modified ← readLine
      let body ← DuplexM.readToEnd
      pure { header := .success (finishSuccess code metaText author published modified), body }

def exchange (url : Text) (languages : List Text) (metadata : Bool) : ClientM Response := do
  DuplexM.write (Utf8.encode (requestLine url languages metadata))
  readResponse

/-- `fetch`, up to the connection. -/
def fetch (parse : UrlParser) (url : Text) (languages : List Text) (metadata : Bool) :
    Except ClientError (Fetch ClientError Response) := do
  let (parsed, host) ← checkUrl parse "scroll".toList .badUrl
    (fun scheme => "scheme ".toList ++ scheme ++ " is not scroll".toList)
    "scroll URL has no host".toList url
  .ok { host, port := parsed.port.getD defaultPort, exchange := exchange url languages metadata }

end Smolweb.Scroll
