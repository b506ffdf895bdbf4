import Smolweb.Gemini.Client
import Smolweb.Lib.Fetch

/-!
# Titan uploads

`titan.rs`: a line with the URL, the size of the body, and its MIME type and a token where there
are any; then the body. The answer is a gemini response. Connections, writes and reads that fail
are left out.
-/

namespace Smolweb.Titan

open Gemini

def defaultPort : Nat := 1965

def requestLine (url : UrlRecord) (size : Nat) (mime : Text) (token : Option Text) : Text :=
  url.display ++ ";size=".toList ++ Text.decimal size ++
    (if mime.isEmpty then [] else ";mime=".toList ++ mime) ++
    (token.elim [] fun token => ";token=".toList ++ token) ++ ['\r', '\n']

/-- `upload_inner`, up to the connection; the error is the text of a `ClientError::BadUrl`. -/
def uploadInner (url : UrlRecord) (body : Bytes) (mime : Text) (token : Option Text) :
    Except Text (Fetch ProtocolError Response) :=
  match url.host with
  | none => .error "titan URL has no host".toList
  | some host => .ok {
      host
      port := url.port.getD defaultPort
      exchange := do
        DuplexM.write (Utf8.encode (requestLine url body.length mime token))
        if !body.isEmpty then DuplexM.write body
        let raw ← DuplexM.readToEnd
        MonadExcept.ofExcept (parseResponse raw) }

def fetch (url : UrlRecord) : Except Text (Fetch ProtocolError Response) :=
  uploadInner url [] [] none

def upload (url : UrlRecord) (body : Bytes) (mime : Text) (token : Option Text) :
    Except Text (Fetch ProtocolError Response) :=
  uploadInner url body mime token

end Smolweb.Titan
