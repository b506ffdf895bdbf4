import Smolweb.Guppy.Client
import Smolweb.Lib.Fetch

/-!
# Starting a guppy transaction

`fetch` of `client.rs`, up to the transaction: the checks of the URL, which is parsed by the crate
`url`, and the request datagram. Binding and connecting the socket are left out.
-/

namespace Smolweb.Guppy

/-- `GUPPY_PORT`. -/
def guppyPort : Nat := 6775

/-- The errors of `fetch` before its transaction. -/
inductive FetchError where
  | badUrl (message : Text)
  | requestTooLong (requestBytes max : Nat)
  deriving Repr, DecidableEq

/-- What a transaction starts from. -/
structure Transaction where
  host : Text
  port : Nat
  request : Text
  deriving Repr, DecidableEq

def fetch (parse : UrlParser) (url : Text) : Except FetchError Transaction := do
  let (parsed, host) ← checkUrl parse "guppy".toList .badUrl
    (fun scheme => "expected guppy:// scheme, got ".toList ++ scheme ++ "://".toList)
    "URL has no host".toList url
  let request := url ++ ['\r', '\n']
  if maxRequestBytes < (Utf8.encode request).length then
    .error (.requestTooLong (Utf8.encode request).length maxRequestBytes)
  else .ok { host, port := parsed.port.getD guppyPort, request }

end Smolweb.Guppy
