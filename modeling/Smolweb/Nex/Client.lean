import Smolweb.Lib.Capped
import Smolweb.Lib.Decimal
import Smolweb.Lib.Fetch

/-!
# The Nex client

`client.rs`: a path is sent and whatever comes back is the answer. The crate `url` is a parameter;
connections, writes and reads that fail are left out.
-/

namespace Smolweb.Nex

def nexPort : Nat := 1900

structure FetchOptions where
  maxBody : Nat := 16 * 1024 * 1024
  deriving Repr

inductive ClientError where
  | badUrl (message : Text)
  | bodyTooLarge (max : Nat)
  deriving Repr, DecidableEq

abbrev ClientM := DuplexM UInt8 ClientError

/-- `fetch_path`, once connected. -/
def fetchPath (path : Text) (options : FetchOptions) : ClientM Bytes := do
  DuplexM.write (Utf8.encode (path ++ ['\r', '\n']))
  match ← DuplexM.readCapped options.maxBody with
  | none => throw (.bodyTooLarge options.maxBody)
  | some body => pure body

/-- `fetch`, up to the connection. -/
def fetch (parse : UrlParser) (url : Text) (options : FetchOptions) :
    Except ClientError (Fetch ClientError Bytes) := do
  let (parsed, host) ← checkUrl parse "nex".toList .badUrl
    (fun scheme => "expected nex:// scheme, got ".toList ++ scheme ++ "://".toList)
    "URL has no host".toList url
  .ok { host, port := parsed.port.getD nexPort, exchange := fetchPath parsed.path options }

end Smolweb.Nex
