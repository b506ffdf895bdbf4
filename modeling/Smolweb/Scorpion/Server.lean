import Smolweb.Lib.Duplex
import Smolweb.Scorpion.Document
import Smolweb.Scorpion.Response

/-!
# The server

`server.rs`: what a source answers, the status line and body it becomes on the wire, and one
connection. A read or write that fails is left out.
-/

namespace Smolweb.Scorpion

inductive Reply where
  | content (body : Bytes) (mediaType : Text) (version : Option Text)
  /-- Part of a file; `total` is the size of the whole file. -/
  | partialContent (body : Bytes) (total : UInt64) (mediaType : Text)
  | redirect (url : Text) (permanent : Bool)
  | input (prompt : Text)
  | status (status : Status) (message : Text)
  deriving Repr, DecidableEq

namespace Reply

/-- A document, encoded and typed as Scorpion's own format. -/
def document (blocks : List Block) : Except DocumentError Reply :=
  (encode blocks).map fun body => .content body "application/x-scorpion".toList none

/-- Plain UTF-8 text. -/
def text (body : Text) : Reply :=
  .content (Utf8.encode body) "text/plain;charset=utf-8".toList none

def notFound : Reply := .status .NOT_FOUND "not found".toList

def render : Reply → Header × Bytes
  | .content body mediaType version =>
    (⟨.OK, [(Size.known (UInt64.ofNat body.length)).render, mediaType] ++ version.toList⟩, body)
  | .partialContent body total mediaType =>
    (⟨.PARTIAL, [Text.decimal total.toNat, mediaType]⟩, body)
  | .redirect url permanent =>
    (⟨if permanent then .PERMANENT_REDIRECT else .TEMPORARY_REDIRECT, [url]⟩, [])
  | .input prompt => (⟨.INPUT, [prompt]⟩, [])
  | .status code message => (⟨code, if message.isEmpty then [] else [message]⟩, [])

/-- `write_reply`: the bytes of the status line and of the body. -/
def toWire (reply : Reply) : Bytes := reply.render.1.toWire ++ reply.render.2

end Reply

/-- Where a server's answers come from; only `R` has no default. -/
structure Source where
  receive : Text → Option Range → Reply
  metadata : Text → Option Text → Reply := fun _ _ =>
    .status .BAD_REQUEST "meta is not implemented".toList
  send : Text → Parameter → Reply := fun _ _ =>
    .status .BAD_REQUEST "send is not implemented".toList
  interactive : Text → Text → Reply := fun _ _ =>
    .status .BAD_REQUEST "interactive is not implemented".toList

/-- The dispatch of `serve_connection`. -/
def Source.answer (source : Source) (request : Request) : Reply :=
  match request.subprotocol, request.parameter with
  | .receive, .range range => source.receive request.url (some range)
  | .receive, _ => source.receive request.url none
  | .metadata, .desiredType kind => source.metadata request.url (some kind)
  | .metadata, _ => source.metadata request.url none
  | .send, parameter => source.send request.url parameter
  | .interactive, .capabilities codes => source.interactive request.url codes
  | .interactive, _ => source.interactive request.url []

/-- `Display`. -/
def RequestError.display : RequestError → Text
  | .malformed => "request line is malformed".toList
  | .unknownSubprotocol => "first byte is not a known subprotocol".toList
  | .malformedRange => "range parameter is malformed".toList
  | .relativeUrl => "request URL has no scheme, and the scheme is mandatory".toList
  | .tooLong => "request line exceeds the permitted length".toList

/-- The errors that end a connection without a reply. -/
inductive ServeError where
  /-- The stream ended before a request line began. -/
  | unexpectedEof
  | tooLong
  | notUtf8
  deriving Repr, DecidableEq

/-- `MAX_REQUEST_LINE`. -/
def maxRequestLine : Nat := 8192

/-- The loop of `read_request_line` over the bytes to come. -/
def requestLoop (max : Nat) : (line unread : Bytes) → Except ServeError Bytes × Bytes
  | line, [] => (if line.isEmpty then .error .unexpectedEof else .ok line, [])
  | line, b :: rest =>
    if b = 10 then (.ok line, rest)
    else if max ≤ line.length then (.error .tooLong, rest)
    else requestLoop max (line ++ [b]) rest

def readRequestBytes (max : Nat) : DuplexM UInt8 ServeError Bytes := fun s =>
  let r := requestLoop max [] s.unread
  (r.1, { s with unread := r.2 })

/-- `read_request_line`: the line without its CR. -/
def readRequestLine (max : Nat) : DuplexM UInt8 ServeError Text := do
  let line ← readRequestBytes max
  let line := if line.getLast? = some 13 then line.dropLast else line
  match Utf8.decode line with
  | some text => pure text
  | none => throw .notUtf8

def writeReply (reply : Reply) : DuplexM UInt8 ServeError Unit := DuplexM.write reply.toWire

/-- `serve_connection`: the request that was served, if the line was one. -/
def serveConnection (source : Source) : DuplexM UInt8 ServeError (Option Request) := do
  let line ← readRequestLine maxRequestLine
  match Request.parse line with
  | .error error => do
    writeReply (.status .BAD_REQUEST error.display)
    return none
  | .ok request => do
    writeReply (source.answer request)
    return some request

end Smolweb.Scorpion
