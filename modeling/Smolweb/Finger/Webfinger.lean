import Smolweb.Lib.Text

/-!
# WebFinger

The request URL of `webfinger.rs`.
-/

namespace Smolweb.Finger

def wellKnownPath : Text := "/.well-known/webfinger".toList

/-- The set `RESOURCE`: what is not alphanumeric, but for four signs. -/
def isReserved (c : Char) : Bool := !(c.isAlphanum || "-._~".toList.contains c)

def acct (user host : Text) : Text := "acct:".toList ++ user ++ ['@'] ++ host

/-- `percentEncode` is `utf8_percent_encode` of a crate. -/
def requestUrl (percentEncode : (Char → Bool) → Text → Text) (host resource : Text)
    (rels : List Text) : Text :=
  let url := "https://".toList ++ host ++ wellKnownPath ++ "?resource=".toList ++
    percentEncode isReserved resource
  rels.foldl (fun url rel => url ++ "&rel=".toList ++ percentEncode isReserved rel) url

end Smolweb.Finger
