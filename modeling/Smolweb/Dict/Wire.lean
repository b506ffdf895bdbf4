import Smolweb.Lib.Decimal

/-!
# DICT lines

The status lines, quoted parameters and dot-stuffed text blocks of `wire.rs`.
-/

namespace Smolweb.Dict

/-- `MAX_LINE`: the cap on a command line, in bytes. -/
def maxLine : Nat := 1024

/-- A response status line: a three-digit code and the rest of the line. -/
structure Status where
  code : Nat
  text : Text
  deriving Repr, DecidableEq

def Status.isSuccess (s : Status) : Bool := 200 ≤ s.code && s.code < 300

/-- The codes that `client.rs` and `wire.rs` name. -/
def databasesFollow : Nat := 110
def strategiesFollow : Nat := 111
def definitionsFollow : Nat := 150
def definitionFollows : Nat := 151
def matchesFollow : Nat := 152
def banner : Nat := 220
def noMatch : Nat := 552

/-- `line.trim_end_matches(['\r', '\n'])`. -/
def trimLine (line : Text) : Text := Text.trimEndMatches Text.isLineBreak line

/-- `parse_status`: nothing if the line does not begin with three digits. -/
def parseStatus (line : Text) : Option Status := do
  let (digits, rest) ← Text.splitAtByte 3 (trimLine line)
  if digits.all Char.isDigit then
    let code ← Text.parseUnsigned maxU16 digits
    some ⟨code, Text.trimStart rest⟩
  else none

/-- `is_terminator`: whether a line ends a text block. -/
def isTerminator (line : Text) : Bool := trimLine line == ['.']

def unstuff : Text → Text
  | '.' :: '.' :: rest => '.' :: rest
  | line => line

def stuff : Text → Text
  | '.' :: rest => '.' :: '.' :: rest
  | line => line

/-- The variables of the loop in `split_params`. -/
structure SplitState where
  params : List Text
  current : Text
  inQuotes : Bool
  escaped : Bool
  started : Bool
  deriving Repr, DecidableEq

namespace SplitState

/-- What an unquoted space, and the end of the text, do: a parameter that has begun is complete. -/
def flush (s : SplitState) : SplitState :=
  if s.started || !s.current.isEmpty then
    { s with params := s.params ++ [s.current], current := [], started := false }
  else s

def next (s : SplitState) (c : Char) : SplitState :=
  if s.escaped then { s with current := s.current ++ [c], escaped := false }
  else if c = '\\' ∧ s.inQuotes then { s with escaped := true }
  else if c = '"' then { s with inQuotes := !s.inQuotes, started := true }
  else if Text.isWhitespace c ∧ ¬s.inQuotes then s.flush
  else { s with current := s.current ++ [c] }

end SplitState

/-- `split_params`: the parameters of a list, with double-quoted strings resolved. -/
def splitParams (text : Text) : List Text :=
  (text.foldl SplitState.next ⟨[], [], false, false, false⟩).flush.params

/-- One database that the server offers, or one strategy. -/
structure Database where
  name : Text
  description : Text
  deriving Repr, DecidableEq

def parseDatabases (lines : List Text) : List Database :=
  lines.filterMap fun line => do
    let params := splitParams line
    let name ← params.head?
    if name.isEmpty then none else some ⟨name, params[1]?.getD []⟩

structure Match where
  database : Text
  word : Text
  deriving Repr, DecidableEq

def parseMatches (lines : List Text) : List Match :=
  lines.filterMap fun line => do
    let params := splitParams line
    some ⟨← params.head?, ← params[1]?⟩

/-- One definition: its header and the text block that followed. -/
structure Definition where
  word : Text
  database : Text
  databaseDescription : Text
  /-- The definition body, unstuffed, line by line. -/
  text : List Text
  deriving Repr, DecidableEq

/-- `parse_definition_header`: `word database name`. -/
def parseDefinitionHeader (status : Status) : Option (Text × Text × Text) := do
  let params := splitParams status.text
  some (← params.head?, ← params[1]?, params[2]?.getD [])

/-! ## Lines -/

@[simp] theorem unstuff_stuff (line : Text) : unstuff (stuff line) = line := by
  unfold stuff
  split
  · rfl
  · next h =>
    unfold unstuff
    split
    · next rest => exact absurd rfl (h ('.' :: rest))
    · rfl

theorem stuff_ne_terminator (line : Text) : stuff line ≠ ['.'] := by
  unfold stuff
  split
  · simp
  · next h => exact fun he => h [] he

end Smolweb.Dict
