import Smolweb.Lib.Capped
import Smolweb.Lib.Decimal
import Smolweb.Lib.Duplex
import Smolweb.Lib.Fetch
import Smolweb.Lib.Percent
import Smolweb.Lib.Url
import Smolweb.Spartan.Response

/-!
# The spartan client

`split_url`, `request_host`, `request` and the two calls of `client.rs` that make one. The crates
they rely on are parameters (`Crates`); connections, writes and reads that fail are left out.
-/

namespace Smolweb.Spartan

def spartanPort : Nat := 300

/-- The crates `url`, `percent-encoding` and `idna`. -/
structure Crates where
  parseUrl : UrlParser
  percentDecode : Text → Bytes
  domainToAscii : Text → Except Text Text

def isAscii (t : Text) : Bool := t.all fun c => c.toNat < 128

/-- `request_host`: the host as it goes on the request line; the error is the text of a
`ClientError::BadUrl`. -/
def requestHost (crates : Crates) (raw : Text) : Except Text Text :=
  if isAscii raw && !raw.contains '%' then .ok raw
  else
    match Utf8.decode (crates.percentDecode raw) with
    | none => .error "host is not UTF-8".toList
    | some decoded =>
      if isAscii decoded then .ok decoded
      else
        match crates.domainToAscii decoded with
        | .error e => .error ("IDN conversion failed: ".toList ++ e)
        | .ok host => .ok host

/-- The parts of a URL that a request is made of. -/
structure UrlParts where
  host : Text
  port : Nat
  path : Text
  queryData : Option Bytes
  deriving Repr, DecidableEq

/-- `split_url`; the error is the text of a `ClientError::BadUrl`. -/
def splitUrl (crates : Crates) (input : Text) : Except Text UrlParts :=
  match crates.parseUrl input with
  | .error e => .error e
  | .ok url =>
    if url.scheme ≠ "spartan".toList then
      .error ("expected spartan:// scheme, got ".toList ++ url.scheme ++ "://".toList)
    else
      match url.host with
      | none => .error "URL has no host".toList
      | some raw =>
        match requestHost crates raw with
        | .error e => .error e
        | .ok host => .ok {
            host
            port := url.port.getD spartanPort
            path := if url.path.isEmpty then ['/'] else url.path
            queryData := url.query.map crates.percentDecode }

def requestLine (host path : Text) (length : Nat) : Text :=
  host ++ [' '] ++ path ++ [' '] ++ Text.decimal length ++ ['\r', '\n']

/-- What `request` writes. -/
def writeRequest {ε : Type} (host path : Text) (data : Bytes) : DuplexM UInt8 ε Unit := do
  DuplexM.write (Utf8.encode (requestLine host path data.length))
  if !data.isEmpty then DuplexM.write data

/-! ## The exchange -/

structure FetchOptions where
  maxBody : Nat := 16 * 1024 * 1024
  deriving Repr

inductive ClientError where
  | badUrl (message : Text)
  | protocol (e : ProtocolError)
  | bodyTooLarge (max : Nat)
  deriving Repr, DecidableEq

abbrev ClientM := DuplexM UInt8 ClientError

/-- `request`, once connected. The cap counts the status line too. -/
def request (host path : Text) (data : Bytes) (options : FetchOptions) : ClientM Response := do
  writeRequest host path data
  match ← DuplexM.readCapped options.maxBody with
  | none => throw (.bodyTooLarge options.maxBody)
  | some raw =>
    match parseResponse raw with
    | .error e => throw (.protocol e)
    | .ok response => pure response

/-- `submit`, up to the connection; the URL's query is ignored. -/
def submit (crates : Crates) (url : Text) (data : Bytes) (options : FetchOptions) :
    Except ClientError (Fetch ClientError Response) :=
  match splitUrl crates url with
  | .error e => .error (.badUrl e)
  | .ok { host, port, path, .. } => .ok { host, port, exchange := request host path data options }

/-- `fetch`, up to the connection; the URL's query is the data. -/
def fetch (crates : Crates) (url : Text) (options : FetchOptions) :
    Except ClientError (Fetch ClientError Response) :=
  match splitUrl crates url with
  | .error e => .error (.badUrl e)
  | .ok { host, port, path, queryData } =>
    .ok { host, port, exchange := request host path (queryData.getD []) options }

end Smolweb.Spartan
