import Smolweb.Lib.Lines

/-!
# Gemtext

`gemtext.rs`: the lines of a document, with preformatted blocks grouped.
-/

namespace Smolweb.Gemtext

inductive GemLine where
  | heading (level : Nat) (text : Text)
  | text (text : Text)
  | link (url label : Text)
  | item (text : Text)
  | quote (text : Text)
  | pre (alt : Option Text) (text : Text)
  | blank
  deriving Repr, DecidableEq

/-- What begins and ends a preformatted block. -/
def fence : Text := "```".toList

/-- A bare `=>` is no link. -/
def parseLink (rest : Text) : Option GemLine :=
  let rest := Text.trimStart rest
  if rest.isEmpty then none
  else
    match rest.findIdx? Text.isWhitespace with
    | some idx => some (.link (rest.take idx) (Text.trim (rest.drop idx)))
    | none => some (.link rest [])

def trimmedOrNone (value : Text) : Option Text :=
  let trimmed := Text.trim value
  if trimmed.isEmpty then none else some trimmed

/-- The lines read so far, and the alt text and the text of the block that is open. -/
abbrev ParseState : Type := List GemLine × Option (Option Text × Text)

/-- A turn of the loop of `parse`. -/
def parseStep (state : ParseState) (line : Text) : ParseState :=
  match state with
  | (out, some (alt, text)) =>
    if fence <+: line then (out ++ [.pre alt text], none)
    else (out, some (alt, text ++ line ++ ['\n']))
  | (out, none) =>
    match Text.stripPrefix fence line with
    | some rest => (out, some (trimmedOrNone rest, []))
    | none =>
      match Text.stripPrefix "### ".toList line with
      | some t => (out ++ [.heading 3 (Text.trim t)], none)
      | none =>
        match Text.stripPrefix "## ".toList line with
        | some t => (out ++ [.heading 2 (Text.trim t)], none)
        | none =>
          match Text.stripPrefix "# ".toList line with
          | some t => (out ++ [.heading 1 (Text.trim t)], none)
          | none =>
            match Text.stripPrefix "=>".toList line with
            | some rest =>
              match parseLink rest with
              | some link => (out ++ [link], none)
              | none => (out, none)
            | none =>
              match Text.stripPrefix "* ".toList line with
              | some t => (out ++ [.item (Text.trim t)], none)
              | none =>
                match Text.stripPrefix "> ".toList line with
                | some t => (out ++ [.quote (Text.trim t)], none)
                | none =>
                  if line.isEmpty then (out ++ [.blank], none) else (out ++ [.text line], none)

def parse (body : Text) : List GemLine :=
  match (Text.lines body).foldl parseStep ([], none) with
  | (out, some (alt, text)) => out ++ [.pre alt text]
  | (out, none) => out

end Smolweb.Gemtext
