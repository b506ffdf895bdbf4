import Smolweb.Gemini.Client

/-!
# The gemini server

`handle_connection`, `parse_request` and `write_reply` of `server.rs`, from the end of the TLS
handshake on. What a handler answers is a parameter, as is the crate `url`.
-/

namespace Smolweb.Gemini

/-- A request, from a peer of any kind. -/
structure Request (P : Type) where
  url : UrlRecord
  peer : P

structure Reply where
  code : UInt8
  metaText : Text
  body : Bytes
  deriving Repr, DecidableEq

namespace Reply

/-- Any status that carries no body. -/
def header (code : UInt8) (metaText : Text) : Reply := { code, metaText, body := [] }

def status (reply : Reply) : Option Status := Status.fromCode reply.code

def headerLine (reply : Reply) : Text :=
  Text.decimal reply.code.toNat ++ [' '] ++ reply.metaText ++ ['\r', '\n']

end Reply

structure ServerConfig where
  /-- The longest request line, in bytes, its LF not counted. -/
  maxRequestLine : Nat := 1024
  deriving Repr

abbrev ServerM := DuplexM UInt8 Empty

def writeReply (reply : Reply) : ServerM Unit := do
  DuplexM.write (Utf8.encode reply.headerLine)
  if reply.status = some .success then DuplexM.write reply.body

/-- `parse_request`; the error is the reason that goes into the reply. -/
def parseRequest (parse : Text → Except Text UrlRecord) (line : Bytes) : Except Text UrlRecord :=
  match Utf8.decode line with
  | none => .error "request is not UTF-8".toList
  | some text =>
    match parse (Text.trimEndMatches Text.isLineBreak text) with
    | .error e => .error e
    | .ok url =>
      if url.scheme ≠ "gemini".toList then
        .error ("scheme ".toList ++ url.scheme ++ " is not gemini".toList)
      else if url.host.isNone then .error "request has no host".toList
      else if url.fragment.isSome then .error "request carries a fragment".toList
      else .ok url

/-- The request line as far as it is read, or `none` once it is too long. -/
def readRequest (config : ServerConfig) : ServerM (Option Bytes) :=
  DuplexM.readLine 10 config.maxRequestLine

def handleConnection {P : Type} (parse : Text → Except Text UrlRecord)
    (handler : Request P → Reply) (peer : P) (config : ServerConfig) : ServerM Unit := do
  match ← readRequest config with
  | none => writeReply (.header 59 "request exceeds 1024 bytes".toList)
  | some line =>
    match parseRequest parse line with
    | .ok url => writeReply (handler { url, peer })
    | .error reason => writeReply (.header 59 reason)

end Smolweb.Gemini
