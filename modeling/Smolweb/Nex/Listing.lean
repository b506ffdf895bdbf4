import Smolweb.Lib.Lines

/-!
# Nex directory listings

`listing.rs`.
-/

namespace Smolweb.Nex

inductive ListingLine where
  | link (url : Text) (label : Option Text)
  | text (line : Text)
  deriving Repr, DecidableEq

/-- What `parse_listing` makes of one line. -/
def parseLine (line : Text) : ListingLine :=
  let line := Text.trimEndMatches (· == '\r') line
  match Text.stripPrefix "=> ".toList line with
  | some rest =>
    if (Text.trim rest).isEmpty then .text line
    else
      let rest := Text.trimStart rest
      let url := rest.takeWhile fun c => !Text.isWhitespace c
      match rest.drop url.length with
      | _ :: label =>
        let label := Text.trim label
        .link url (if label.isEmpty then none else some label)
      | [] => .link rest none
  | none => .text line

def parseListing (text : Text) : List ListingLine := (Text.lines text).map parseLine

end Smolweb.Nex
