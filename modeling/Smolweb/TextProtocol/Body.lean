import Smolweb.Lib.Lines

/-!
# The body of a text page

`parse_body` of `lib.rs`: text, whose only structure is the link line.
-/

namespace Smolweb.TextProtocol

/-- A link line: the IRI, its attributes, and a label. -/
structure LinkLine where
  url : Text
  /-- Split at the first `=`, in order. -/
  attributes : List (Text × Text)
  label : Option Text
  deriving Repr, DecidableEq

inductive Line where
  /-- Ordinary text, verbatim. -/
  | text (t : Text)
  | link (link : LinkLine)
  deriving Repr, DecidableEq

/-- A turn of the loop of `parse_link`, on the attributes and the parts of the label so far. -/
def tokenStep (state : List (Text × Text) × List Text) (token : Text) :
    List (Text × Text) × List Text :=
  match Text.splitOnce '=' token with
  | some (key, value) =>
    -- a label that has begun goes on, whatever is in it
    if state.2.isEmpty && !key.isEmpty then (state.1 ++ [(key, value)], state.2)
    else (state.1, state.2 ++ [token])
  | none => (state.1, state.2 ++ [token])

def parseLink (rest : Text) : LinkLine :=
  let tokens := Text.words rest
  let (attributes, labelParts) := tokens.tail.foldl tokenStep ([], [])
  { url := tokens.headD []
    attributes
    label := if labelParts.isEmpty then none else some (Text.joinFields ' ' labelParts) }

def parseBody (body : Text) : List Line :=
  (Text.lines body).map fun line =>
    match Text.stripPrefix "=>".toList line with
    | some rest => .link (parseLink rest)
    | none => .text line

end Smolweb.TextProtocol
