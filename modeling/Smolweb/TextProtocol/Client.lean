import Smolweb.Lib.Fetch

/-!
# The text protocol

The header of `lib.rs` and its client. The crate `url` is a parameter of `fetch`; a connection or
a read that fails ends a fetch at once and is left out.
-/

namespace Smolweb.TextProtocol

def defaultPort : Nat := 1961

/-- The three status codes. -/
inductive Status where
  | ok
  | redirect
  | nok
  deriving Repr, DecidableEq

def Status.fromCode (code : Text) : Option Status :=
  if code = "20".toList then some .ok
  else if code = "30".toList then some .redirect
  else if code = "40".toList then some .nok
  else none

structure Header where
  status : Status
  /-- Mimetype, redirect target or error description, by status. -/
  metaText : Text
  deriving Repr, DecidableEq

def parseHeader (line : Text) : Option Header := do
  let line := Text.trimEndMatches Text.isLineBreak line
  let (code, metaText) := (Text.splitOnce ' ' line).getD (line, [])
  let status ← Status.fromCode code
  some { status, metaText := Text.trim metaText }

def requestLine (iri : Text) : Text := iri ++ ['\r', '\n']

inductive ClientError where
  | badUrl (message : Text)
  | protocol (message : Text)
  /-- A protocol error that quotes the line: none of the three statuses. -/
  | notAStatus (line : Text)
  deriving Repr, DecidableEq

structure Response where
  header : Header
  body : Bytes
  deriving Repr, DecidableEq

abbrev ClientM := DuplexM UInt8 ClientError

/-- `exchange` from the request on: what the reply says. -/
def readResponse : ClientM Response := do
  let text ← readHeaderLine (.protocol "header line is unreasonable".toList)
    (.protocol "header is not UTF-8".toList) 4096
  match parseHeader text with
  | none => throw (.notAStatus text)
  | some header =>
    if header.status = .ok then do
      let body ← DuplexM.readToEnd
      pure { header, body }
    else pure { header, body := [] }

def exchange (iri : Text) : ClientM Response := do
  DuplexM.write (Utf8.encode (requestLine iri))
  readResponse

/-- `fetch`, up to the connection. -/
def fetch (parse : UrlParser) (iri : Text) : Except ClientError (Fetch ClientError Response) := do
  let (parsed, host) ← checkUrl parse "text".toList .badUrl
    (fun scheme => "scheme ".toList ++ scheme ++ " is not text".toList)
    "text IRI has no host".toList iri
  .ok { host, port := parsed.port.getD defaultPort, exchange := exchange iri }

end Smolweb.TextProtocol
