import Smolweb.Lib.Lines

/-!
# Scrolltext

`scrolltext.rs`: the lines of a document, with code blocks grouped, and the inline markup within a
line.
-/

namespace Smolweb.Scroll

inductive Polarity where
  | positive
  | neutral
  | negative
  deriving Repr, DecidableEq

/-- What a link declares of its target, at the end of its label. -/
structure Relation where
  polarity : Polarity
  tag : Option Text
  deriving Repr, DecidableEq

inductive ScrollLine where
  | heading (level : Nat) (text : Text)
  | text (text : Text)
  | blank
  | quote (depth : Nat) (text : Text)
  | listItem (depth : Nat) (ordinal : Option Text) (text : Text)
  | link (url label : Text) (relation : Option Relation)
  | inputLink (url prompt : Text)
  | thematicBreak
  | codeBlock (tag : Option Text) (lines : List Text)
  deriving Repr, DecidableEq

/-- What begins and ends a code block. -/
def fence : Text := "```".toList

/-- How many times a line begins with a mark. -/
def markCount (mark : Char) (t : Text) : Nat := (t.takeWhile fun c => c == mark).length

def isEscapable (rest : Text) : Bool :=
  let stars := markCount '*' rest
  if 1 ≤ stars && stars ≤ 4 then true
  else
    let hashes := markCount '#' rest
    if 1 ≤ hashes && hashes ≤ 5 then true
    else ['>'] <+: rest || "=>".toList <+: rest || "=:".toList <+: rest || fence <+: rest ||
      rest == "---".toList

def splitLink (rest : Text) : Text × Text :=
  let rest := Text.trimStart rest
  match Text.splitOnceWhere Text.isWhitespace rest with
  | some (url, label) => (url, Text.trim label)
  | none => (rest, [])

def splitRelation (label : Text) : Text × Option Relation :=
  let trimmed := Text.trimEnd label
  match Text.rsplitOnce '[' trimmed with
  | none => (label, none)
  | some (before, bracketed) =>
    match Text.stripSuffix [']'] bracketed with
    | none => (label, none)
    | some inner =>
      let (polarity, tag) :=
        match Text.stripPrefix ['+'] inner with
        | some tag => (Polarity.positive, tag)
        | none =>
          match Text.stripPrefix ['-'] inner with
          | some tag => (.negative, tag)
          | none => (.neutral, inner)
      -- `[]` is just brackets
      if tag.isEmpty && polarity == .neutral then (label, none)
      else (Text.trimEnd before, some { polarity, tag := if tag.isEmpty then none else some tag })

def splitOrdinal (text : Text) : Option Text × Text :=
  let digits := (text.takeWhile Char.isDigit).length
  let markerLen :=
    if 0 < digits then digits else if text.head?.any Char.isAlpha then 1 else 0
  if 0 < markerLen && ['.'] <+: text.drop markerLen then
    (some (text.take (markerLen + 1)), Text.trimStart (text.drop (markerLen + 1)))
  else (none, text)

def parseLine (raw : Text) : ScrollLine :=
  if (Text.trim raw).isEmpty then .blank
  else
    match Text.stripPrefix ['\\'] raw with
    | some rest => if isEscapable rest then .text rest else .text raw
    | none =>
      if raw = "---".toList then .thematicBreak
      else if ['#'] <+: raw then
        let level := markCount '#' raw
        if level ≤ 5 then .heading level (Text.trimStart (raw.drop level)) else .text raw
      else if ['>'] <+: raw then
        let depth := markCount '>' raw
        .quote (min depth 255) (Text.trimStart (raw.drop depth))
      else
        match Text.stripPrefix "=>".toList raw with
        | some rest =>
          let (url, label) := splitLink rest
          let (label, relation) := splitRelation label
          .link url label relation
        | none =>
          match Text.stripPrefix "=:".toList raw with
          | some rest =>
            let (url, prompt) := splitLink rest
            .inputLink url prompt
          | none =>
            let stars := markCount '*' raw
            if 1 ≤ stars && stars ≤ 4 then
              match raw.drop stars with
              | c :: text =>
                if c == ' ' || c == '\t' then
                  let (ordinal, text) := splitOrdinal text
                  .listItem stars ordinal text
                else .text raw
              | [] => .text raw
            else .text raw

/-- The lines read so far, and the tag and the lines of the code block that is open. -/
abbrev ParseState : Type := List ScrollLine × Option (Option Text × List Text)

/-- A turn of the loop of `parse`. -/
def parseStep (state : ParseState) (raw : Text) : ParseState :=
  match state with
  | (lines, some (tag, collected)) =>
    if fence <+: raw then (lines ++ [.codeBlock tag collected], none)
    else (lines, some (tag, collected ++ [raw]))
  | (lines, none) =>
    match Text.stripPrefix fence raw with
    | some rest =>
      let tag := Text.trim rest
      (lines, some (if tag.isEmpty then none else some tag, []))
    | none => (lines ++ [parseLine raw], none)

def parse (text : Text) : List ScrollLine :=
  match (Text.lines text).foldl parseStep ([], none) with
  | (lines, some (tag, collected)) => lines ++ [.codeBlock tag collected]
  | (lines, none) => lines

/-! ## Inline markup -/

inductive SpanKind where
  | plain
  | strong
  | emphasis
  | code
  deriving Repr, DecidableEq

structure Span where
  kind : SpanKind
  text : Text
  deriving Repr, DecidableEq

def isInlineWhitespace (c : Char) : Bool := Text.isWhitespace c || c == '\u200B'

def isSymbolic (c : Char) : Bool := Text.isAsciiPunctuation c

/-- What a character opens and closes. -/
def toggleKind (c : Char) : Option SpanKind :=
  if c = '*' then some .strong
  else if c = '_' then some .emphasis
  else if c = '\x60' then some .code
  else none

/-- What the loop of `spans` keeps: the spans so far, the text of the next one and its kind. -/
structure SpanState where
  out : List Span
  current : Text
  kind : SpanKind
  deriving Repr, DecidableEq

def SpanState.flush (s : SpanState) : SpanState :=
  if s.current.isEmpty then s else { s with out := s.out ++ [⟨s.kind, s.current⟩], current := [] }

/-- What the character at an index toggles, if it does. -/
def toggles (chars : Text) (kind : SpanKind) (index : Nat) : Option SpanKind :=
  match chars[index]? with
  | none => none
  | some c =>
    match toggleKind c with
    | none => none
    | some candidate =>
      -- inside code, only the backtick closes
      if kind = .code ∧ candidate ≠ .code then none
      else
        let before := if index = 0 then none else chars[index - 1]?
        let after := chars[index + 1]?
        let good := fun neighbour : Option Char =>
          neighbour.any fun n => !isInlineWhitespace n && n != c
        let bothSymbols := before.any isSymbolic && after.any isSymbolic
        if !bothSymbols && (good before || good after) then some candidate else none

/-- A turn of the loop of `spans`. -/
def spanStep (chars : Text) (s : SpanState) (index : Nat) : SpanState :=
  match toggles chars s.kind index with
  | some candidate =>
    { s.flush with kind := if s.kind = candidate then .plain else candidate }
  | none => { s with current := s.current ++ chars[index]?.toList }

/-- What the loop has when it comes to an index. -/
def spanState (chars : Text) : Nat → SpanState
  | 0 => ⟨[], [], .plain⟩
  | index + 1 => spanStep chars (spanState chars index) index

def spans (line : Text) : List Span := (spanState line line.length).flush.out

end Smolweb.Scroll
