import Smolweb.Lib.Decimal
import Smolweb.Lib.Fields
import Smolweb.Lib.Utf8

/-!
# Gopher+

The response header and the request tokens of `plus.rs`.
-/

namespace Smolweb.Gopher

/-- The first line of a Gopher+ reply. -/
inductive PlusHeader where
  /-- The body is exactly this many bytes. -/
  | length (count : Nat)
  /-- The body ends at a `.` on a line of its own. -/
  | periodTerminated
  | untilClose
  | error
  deriving Repr, DecidableEq

/-- `parse_header`; the error is the line. -/
def parseHeader (line : Text) : Except Text PlusHeader :=
  let line := Text.trimEndMatches Text.isLineBreak line
  match Text.splitAtByte 1 line with
  | none => .error line
  | some (sign, token) =>
    let token := Text.firstWord token
    if sign = ['-'] then .ok .error
    else if sign = ['+'] then
      if token = "-1".toList then .ok .periodTerminated
      else if token = "-2".toList then .ok .untilClose
      else
        match Text.parseUnsigned maxU64 token with
        | some count => .ok (.length count)
        | none => .error line
    else .error line

/-- What a Gopher+ retrieval asks for: an item, in one of its views, or attribute blocks. -/
inductive PlusRequest where
  | item (view : Option Text)
  | attributes
  | directoryAttributes
  deriving Repr, DecidableEq

namespace PlusRequest

def token : PlusRequest → Text
  | .item none => ['+']
  | .item (some view) => '+' :: view
  | .attributes => ['!']
  | .directoryAttributes => ['$']

/-- What follows a `$` is a filter, which is ignored. -/
def fromToken (token : Text) : Option PlusRequest :=
  match Text.trimEndMatches Text.isLineBreak token with
  | '+' :: view => some (.item (if view.isEmpty then none else some view))
  | '!' :: _ => some .attributes
  | '$' :: _ => some .directoryAttributes
  | _ => none

end PlusRequest

end Smolweb.Gopher
