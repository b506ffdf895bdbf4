import Smolweb.Lib.Decimal
import Smolweb.Lib.Lines

/-!
# Scroll on the wire

The request line a client writes and a server reads, and the response header the client reads, as
in `wire.rs`: gemini's, with the languages the client accepts in the request and three lines of
metadata after a success.
-/

namespace Smolweb.Scroll

def defaultPort : Nat := 5699

inductive Status where
  | input
  | success
  | redirect
  | temporaryFailure
  | permanentFailure
  | certificateRequired
  deriving Repr, DecidableEq

def Status.fromCode (code : Nat) : Option Status :=
  match code / 10 with
  | 1 => some .input
  | 2 => some .success
  | 3 => some .redirect
  | 4 => some .temporaryFailure
  | 5 => some .permanentFailure
  | 6 => some .certificateRequired
  | _ => none

/-- The languages, most preferred first, after a `+` if only the abstract is wanted. -/
def requestLine (uri : Text) (languages : List Text) (metadata : Bool) : Text :=
  let plus := if metadata then ['+'] else []
  uri ++ [' '] ++ plus ++ Text.joinFields ',' languages ++ ['\r', '\n']

/-- A parsed request. -/
structure Request where
  uri : Text
  languages : List Text
  metadata : Bool
  deriving Repr, DecidableEq

/-- `parse_request`. -/
def parseRequest (line : Text) : Option Request :=
  let line := Text.trimEndMatches Text.isLineBreak line
  -- a byte order mark may not lead
  if ['\uFEFF'] <+: line then none
  else
    let (uri, rest) := (Text.splitOnce ' ' line).getD (line, [])
    if uri.isEmpty then none
    else
      let (metadata, list) :=
        match Text.stripPrefix ['+'] rest with
        | some list => (true, list)
        | none => (false, rest)
      some {
        uri
        languages := ((list.splitOn ',').map Text.trim).filter fun l => !l.isEmpty
        metadata }

/-- A success's status line and the three lines after it; a blank one is `none`. -/
structure SuccessHeader where
  code : Nat
  mimetype : Text
  author : Option Text
  published : Option Text
  modified : Option Text
  deriving Repr, DecidableEq

inductive Header where
  | success (header : SuccessHeader)
  | metadata (code : Nat) (status : Status) (metaText : Text)
  deriving Repr, DecidableEq

/-- `parse_status_line`; the error is the line. -/
def parseStatusLine (line : Text) : Except Text (Nat × Status × Text) :=
  let line := Text.trimEndMatches Text.isLineBreak line
  match Text.splitCode line with
  | none => .error line
  | some (code, rest) =>
    match Status.fromCode code with
    | none => .error line
    | some status => .ok (code, status, Text.trimStart rest)

def finishSuccess (code : Nat) (mimetype author published modified : Text) : SuccessHeader :=
  let optional line :=
    let line := Text.trim (Text.trimEndMatches Text.isLineBreak line)
    if line.isEmpty then none else some line
  { code, mimetype
    author := optional author
    published := optional published
    modified := optional modified }

end Smolweb.Scroll
