import Smolweb.Gopher.Plus
import Smolweb.Lib.Fetch

/-!
# The gopher client

`client.rs`: a plain fetch and a Gopher+ transaction. The crate `url` is a parameter of both;
a connection that fails or breaks ends them at once and is left out.
-/

namespace Smolweb.Gopher

def defaultPort : Nat := 70

inductive ClientError where
  | badUrl (message : Text)
  | io (message : Text)
  | badPlusHeader (message : Text)
  /-- The server's error text. -/
  | plusError (message : Text)
  deriving Repr, DecidableEq

structure Response where
  mime : Text
  body : Bytes
  deriving Repr, DecidableEq

abbrev ClientM := DuplexM UInt8 ClientError

/-- `split_path`: the item type and the selector; an empty path is the root menu. -/
def splitPath (url : Url) : Char × Text :=
  let trimmed := match url.path with
    | '/' :: rest => rest
    | path => path
  match trimmed with
  | itemType :: selector => (itemType, selector)
  | [] => ('1', [])

def mimeForItemType : Char → Text
  | '0' => "text/plain".toList
  | '1' | '7' => "application/gopher-menu".toList
  | 'h' => "text/html".toList
  | 'g' => "image/gif".toList
  | 'I' | ':' => "image/*".toList
  | 's' | '<' => "audio/*".toList
  | _ => "application/octet-stream".toList

/-- `send_and_read`. -/
def sendAndRead (request : Bytes) : ClientM Bytes := do
  DuplexM.write request
  DuplexM.readToEnd

/-- What precedes a connection in both transactions; `tls` is the crate's feature. The URL's
scheme is looked at only to find out whether it is the encrypted one. -/
def connectTo {α : Type} (parse : UrlParser) (tls : Bool) (url : Text)
    (exchange : Url → ClientM α) : Except ClientError (Fetch ClientError α) :=
  match parse url with
  | .error e => .error (.badUrl e)
  | .ok url =>
    match url.host with
    | none => .error (.badUrl "gopher URL has no host".toList)
    | some host =>
      if url.scheme = "gophers".toList ∧ !tls then
        .error (.badUrl "gophers:// needs the `tls` feature".toList)
      else .ok { host, port := url.port.getD defaultPort, exchange := exchange url }

/-- The request of a fetch: the selector, and after a TAB the query if there is one. -/
def requestLine (url : Url) : Text :=
  (splitPath url).2 ++ (url.query.elim [] fun query => '\t' :: query) ++ ['\r', '\n']

def fetch (parse : UrlParser) (tls : Bool) (url : Text) :
    Except ClientError (Fetch ClientError Response) :=
  connectTo parse tls url fun url => do
    let body ← sendAndRead (Utf8.encode (requestLine url))
    pure { mime := mimeForItemType (splitPath url).1, body }

/-! ## Gopher+ -/

structure PlusReply where
  header : PlusHeader
  body : Bytes
  deriving Repr, DecidableEq

/-- `strip_period_terminator`: the newline before a last line of one period stays. -/
def stripPeriodTerminator (body : Bytes) : Bytes :=
  if [13, 10, 46, 13, 10] <:+ body then body.take (body.length - 5 + 2)
  else if [10, 46, 10] <:+ body then body.take (body.length - 3 + 1)
  else if [13, 10, 46] <:+ body then body.take (body.length - 3 + 2)
  else if [10, 46] <:+ body then body.take (body.length - 2 + 1)
  else body

/-- `plus_over`. -/
def plusOver (request : Bytes) : ClientM (PlusHeader × Bytes) := do
  DuplexM.write request
  let line ← DuplexM.readThrough 10
  match Utf8.decode line with
  | none => throw (.io "stream did not contain valid UTF-8".toList)
  | some headerLine =>
    if headerLine.isEmpty then
      throw (.badPlusHeader "the server closed without a header".toList)
    else
      match parseHeader headerLine with
      | .error e => throw (.badPlusHeader e)
      | .ok header =>
        let body ← match header with
          | .length count => DuplexM.readUpTo count
          | _ => DuplexM.readToEnd
        match header with
        | .periodTerminated | .error => pure (header, stripPeriodTerminator body)
        | _ => pure (header, body)

/-- The request of a Gopher+ transaction; the search field is there even if it is empty. -/
def plusLine (selector search : Text) (request : PlusRequest) : Text :=
  selector ++ ['\t'] ++ search ++ ['\t'] ++ request.token ++ ['\r', '\n']

def fetchPlus (parse : UrlParser) (tls : Bool) (url : Text) (request : PlusRequest) :
    Except ClientError (Fetch ClientError PlusReply) :=
  connectTo parse tls url fun url => do
    let selector := (splitPath url).2
    let search := url.query.getD []
    let (header, body) ← plusOver (Utf8.encode (plusLine selector search request))
    if header = .error then throw (.plusError (Text.trim (Utf8.decodeLossy body)))
    else pure { header, body }

end Smolweb.Gopher
