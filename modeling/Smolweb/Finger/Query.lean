import Smolweb.Lib.Duplex
import Smolweb.Lib.Fetch
import Smolweb.Lib.Lines

/-!
# Finger

The `Query` of `lib.rs`, the exchange of `client.rs` and the server of `server.rs`. What a handler
answers is a parameter, as is the crate `url`; connections and reads that fail are left out.
-/

namespace Smolweb.Finger

def defaultPort : Nat := 79

/-- What a finger request asks for. -/
structure Query where
  /-- `none` for the listing of the host. -/
  user : Option Text := none
  /-- The switch `/W`. -/
  verbose : Bool := false
  deriving Repr, DecidableEq

def Query.wire (query : Query) : Text :=
  let user := query.user.getD []
  match query.verbose, user.isEmpty with
  | true, true => "/W\r\n".toList
  | true, false => "/W ".toList ++ user ++ ['\r', '\n']
  | false, _ => user ++ ['\r', '\n']

/-! ## The client -/

inductive ClientError where
  | badUrl (message : Text)
  deriving Repr, DecidableEq

structure Response where
  body : Bytes
  deriving Repr, DecidableEq

abbrev ClientM := DuplexM UInt8 ClientError

/-- `query`, once connected. -/
def exchange (request : Query) : ClientM Response := do
  DuplexM.write (Utf8.encode request.wire)
  let body ← DuplexM.readToEnd
  pure { body }

/-- The path names the user, or else the userinfo does. -/
def queryFromUrl (url : UrlRecord) : Query :=
  let fromPath := url.path.dropWhile (· == '/')
  let user :=
    if !fromPath.isEmpty then some fromPath
    else if !url.username.isEmpty then some url.username
    else none
  { user, verbose := false }

/-- `fetch`, up to the connection. -/
def fetch (parse : Text → Except Text UrlRecord) (url : Text) :
    Except ClientError (Fetch ClientError Response) :=
  match parse url with
  | .error e => .error (.badUrl e)
  | .ok url =>
    match url.host with
    | none => .error (.badUrl "finger URL has no host".toList)
    | some host =>
      .ok { host, port := url.port.getD defaultPort, exchange := exchange (queryFromUrl url) }

/-! ## The server -/

/-- A request, from a peer of any kind. -/
structure Request (P : Type) where
  query : Query
  peer : P
  deriving Repr, DecidableEq

structure ServerConfig where
  maxRequestLine : Nat := 512
  deriving Repr

abbrev ServerM := DuplexM UInt8 Empty

def parseQuery (line : Bytes) : Query :=
  let text := Text.trimEndMatches Text.isLineBreak (Utf8.decodeLossy line)
  let (verbose, rest) :=
    match Text.stripPrefix "/W".toList text with
    | some rest => (true, Text.trimStart rest)
    | none => (false, text)
  let user := Text.trim rest
  { user := if user.isEmpty then none else some user, verbose }

def handleConnection {P : Type} (handler : Request P → Bytes) (peer : P)
    (config : ServerConfig) : ServerM Unit :=
  -- the line is given up as soon as it is as long as the limit
  DuplexM.answerLine 10 (config.maxRequestLine - 1) fun line =>
    handler { query := parseQuery line, peer }

end Smolweb.Finger
