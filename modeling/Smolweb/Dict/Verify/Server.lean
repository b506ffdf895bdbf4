import Smolweb.Dict.Client
import Smolweb.Dict.Verify.Params

/-!
# What a DICT server says

Responses as a server writes them, and what the session's readers make of each part: a line, a
status line, a dot-stuffed text block, a list of definitions. Every reader reads exactly the part
it is for (`DuplexM.Exchange`).
-/

namespace Smolweb.Dict

open DuplexM

/-! ## Responses -/

/-- The text of a line. -/
structure Line where
  text : Text
  clean : text.OneLine

def lineBytes (text : Text) : Bytes := Utf8.encode text ++ crlf

/-- A status line: a code and what follows it. -/
structure StatusLine where
  code : Nat
  rest : Line
  three : 100 ≤ code ∧ code < 1000

namespace StatusLine

def bytes (s : StatusLine) : Bytes := lineBytes (Text.decimal s.code ++ s.rest.text)

def status (s : StatusLine) : Status := ⟨s.code, Text.trimStart s.rest.text⟩

end StatusLine

def greet (greeting : Line) : StatusLine := ⟨220, greeting, by decide⟩

def blockBytes (lines : List Line) : Bytes :=
  (lines.flatMap fun line => lineBytes (stuff line.text)) ++ lineBytes ['.']

/-- One definition: `151 word database name` and a text block. -/
structure Entry where
  header : Line
  word : Text
  database : Text
  /-- The name, and what else the header says. -/
  more : List Text
  written : Params header.text (word :: database :: more)
  body : List Line

namespace Entry

def status (e : Entry) : StatusLine := ⟨151, e.header, by decide⟩

def bytes (e : Entry) : Bytes := e.status.bytes ++ blockBytes e.body

def definition (e : Entry) : Definition :=
  ⟨e.word, e.database, e.more.headD [], e.body.map Line.text⟩

end Entry

/-- The responses that are a text block between two status lines. -/
inductive Listing where
  | databases
  | strategies
  | found
  deriving Repr, DecidableEq

def Listing.code : Listing → Nat
  | .databases => 110
  | .strategies => 111
  | .found => 152

def Listing.status (kind : Listing) (rest : Line) : StatusLine :=
  ⟨kind.code, rest, by cases kind <;> decide⟩

/-- The line that ends a response. -/
structure Success where
  line : StatusLine
  success : 200 ≤ line.code ∧ line.code < 300

inductive Response where
  | single (line : StatusLine)
    (h : 200 ≤ line.code ∧ line.code < 300 ∨ 400 ≤ line.code ∧ line.code < 600)
  | listing (kind : Listing) (rest : Line) (lines : List Line) (done : Success)
  | definitions (rest : Line) (entries : List Entry) (done : Success)

namespace Response

def first : Response → StatusLine
  | .single line _ => line
  | .listing kind rest _ _ => kind.status rest
  | .definitions rest _ _ => ⟨150, rest, by decide⟩

def others : Response → Bytes
  | .single _ _ => []
  | .listing _ _ lines done => blockBytes lines ++ done.line.bytes
  | .definitions _ entries done => entries.flatMap Entry.bytes ++ done.line.bytes

def bytes (r : Response) : Bytes := r.first.bytes ++ r.others

end Response

/-! ## Lines -/

theorem lf_not_mem_line {t : Text} (h : t.OneLine) :
    10 ∉ Utf8.encode t ++ [13] := by
  have hlf : '\n' ∉ t := (Text.oneLine_iff_not_mem.mp h).2
  rw [List.mem_append, not_or]
  exact ⟨Utf8.lf_not_mem_encode hlf, by decide⟩

theorem exchange_readLine {t : Text} (h : t.OneLine) :
    Exchange readLine [] (lineBytes t) (.ok (t ++ ['\r', '\n'])) := by
  have hbytes : lineBytes t = Utf8.encode t ++ [13] ++ [10] := by
    simp only [lineBytes, crlf, List.append_assoc, List.cons_append, List.nil_append]
  have hdecode : Utf8.decode (lineBytes t) = some (t ++ ['\r', '\n']) := by
    rw [lineBytes, decode_append_crlf, Utf8.decode_encode, Option.map_some]
  have hne : lineBytes t ≠ [] := by simp [lineBytes, crlf]
  have hread : Exchange (DuplexM.readThrough 10 : Client Bytes) [] (lineBytes t)
      (.ok (lineBytes t)) := by
    rw [hbytes]
    exact .readThrough (lf_not_mem_line h)
  refine hread.bind_silent ?_
  rw [if_neg hne, hdecode]
  exact .pure _

theorem trimLine_crlf {t : Text} (h : t.OneLine) : trimLine (t ++ ['\r', '\n']) = t :=
  h.trimEnd_crlf

/-! ## Status lines -/

theorem length_decimal_three {n : Nat} (h : 100 ≤ n ∧ n < 1000) : (Text.decimal n).length = 3 := by
  have hall : ∀ n < 1000, 100 ≤ n → (Text.decimal n).length = 3 := by decide +kernel
  exact hall n h.2 h.1

theorem utf8Size_of_isDigit {c : Char} (h : c.isDigit = true) : c.utf8Size = 1 := by
  have := Text.toNat_of_isDigit h
  rw [Char.utf8Size_eq_one_iff]
  exact UInt32.le_iff_toNat_le.mpr (show c.toNat ≤ 127 by omega)

theorem splitAtByte_decimal {n : Nat} (h : 100 ≤ n ∧ n < 1000) (rest : Text) :
    Text.splitAtByte 3 (Text.decimal n ++ rest) = some (Text.decimal n, rest) := by
  have hlen := length_decimal_three h
  have hdigit c (hc : c ∈ Text.decimal n) : c.utf8Size = 1 :=
    utf8Size_of_isDigit (Text.isDigit_of_mem_decimal hc)
  match hd : Text.decimal n with
  | [] | [_] | [_, _] | _ :: _ :: _ :: _ :: _ => simp [hd] at hlen
  | [a, b, c] =>
    rw [hd] at hdigit
    simp [Text.splitAtByte, hdigit a (by simp), hdigit b (by simp), hdigit c (by simp)]

namespace StatusLine

theorem clean (s : StatusLine) : (Text.decimal s.code ++ s.rest.text).OneLine := by
  exact (Text.oneLine_decimal s.code).append s.rest.clean

theorem parseStatus_eq (s : StatusLine) :
    parseStatus (Text.decimal s.code ++ s.rest.text ++ ['\r', '\n']) = some s.status := by
  have hmax : s.code ≤ maxU16 := by
    have := s.three.2
    unfold maxU16
    omega
  simp only [parseStatus, trimLine_crlf s.clean, splitAtByte_decimal s.three, Option.bind_eq_bind,
    Option.bind_some, Text.all_isDigit_decimal, if_true, Text.parseUnsigned_decimal hmax]
  rfl

end StatusLine

theorem exchange_readStatus (s : StatusLine) : Exchange readStatus [] s.bytes (.ok s.status) := by
  refine (exchange_readLine s.clean).bind_silent ?_
  rw [s.parseStatus_eq]
  exact .pure _

theorem exchange_over (greeting : Line) :
    Exchange Session.over [] (greet greeting).bytes (.ok (greet greeting).status) := by
  refine (exchange_readStatus _).bind_silent ?_
  have hcode : ¬(greet greeting).status.code ≠ banner := not_not.mpr rfl
  rw [if_neg hcode]
  exact .pure _

theorem Success.isSuccess (done : Success) : done.line.status.isSuccess = true := by
  obtain ⟨h1, h2⟩ := done.success
  simp [Status.isSuccess, StatusLine.status, h1, h2]

theorem exchange_expectOk (done : Success) : Exchange expectOk [] done.line.bytes (.ok ()) := by
  refine (exchange_readStatus done.line).bind_silent ?_
  rw [if_pos done.isSuccess]
  exact .pure _

/-! ## Text blocks -/

theorem stuff_clean (line : Line) : Text.OneLine (stuff line.text) := by
  intro c hc
  unfold stuff at hc
  split at hc
  · next h =>
    rcases List.mem_cons.mp hc with rfl | hc
    · decide
    · exact line.clean c (h ▸ hc)
  · exact line.clean c hc

theorem exchange_textLine (line : Line) :
    Exchange textLine [] (lineBytes (stuff line.text)) (.ok (some line.text)) := by
  refine (exchange_readLine (stuff_clean line)).bind_silent ?_
  have hend : isTerminator (stuff line.text ++ ['\r', '\n']) = false := by
    rw [isTerminator, trimLine_crlf (stuff_clean line), beq_eq_false_iff_ne]
    exact stuff_ne_terminator _
  rw [hend, trimLine_crlf (stuff_clean line), unstuff_stuff]
  exact .pure _

/-- **A text block is read as it was before stuffing**, and to its end. -/
theorem exchange_readTextBlock (lines : List Line) :
    Exchange readTextBlock [] (blockBytes lines) (.ok (lines.map Line.text)) := by
  have hlast : Exchange textLine [] (lineBytes ['.']) (.ok none) :=
    (exchange_readLine (by decide)).bind_silent (.pure _)
  have := Exchange.collect (readLine_consumes.bind fun _ => .pure _)
    (lines.map fun line => (lineBytes (stuff line.text), line.text))
    (by
      intro t ht
      obtain ⟨line, -, rfl⟩ := List.mem_map.mp ht
      exact exchange_textLine line) hlast
  rw [List.flatMap_map, List.map_map] at this
  exact this

/-! ## Definitions -/

theorem exchange_nextDefinition (e : Entry) :
    Exchange nextDefinition [] e.bytes (.ok (some e.definition)) := by
  have hheader : parseDefinitionHeader e.status.status =
      some (e.word, e.database, e.more.headD []) := by
    have := splitParams_trimStart e.written
    simp only [parseDefinitionHeader, StatusLine.status, Entry.status, this]
    cases e.more <;> rfl
  refine (exchange_readStatus e.status).bind_read ?_
  have hcode : e.status.status.code = definitionFollows := rfl
  rw [definitionRest, if_pos hcode, hheader]
  exact (exchange_readTextBlock e.body).bind_silent (.pure _)

theorem exchange_lastDefinition (done : Success) :
    Exchange nextDefinition [] done.line.bytes (.ok none) := by
  refine (exchange_readStatus done.line).bind_silent ?_
  have hcode : done.line.status.code ≠ definitionFollows := by
    have := done.success.1
    show done.line.code ≠ 151
    omega
  rw [definitionRest, if_neg hcode, if_pos done.isSuccess]
  exact .pure _

/-- **Definitions are read as they were written**, and to the end of the response. -/
theorem exchange_definitions (entries : List Entry) (done : Success) :
    Exchange (DuplexM.collect nextDefinition nextDefinition_consumes) []
      (entries.flatMap Entry.bytes ++ done.line.bytes) (.ok (entries.map Entry.definition)) := by
  have := Exchange.collect nextDefinition_consumes
    (entries.map fun e => (e.bytes, e.definition))
    (by
      intro t ht
      obtain ⟨e, -, rfl⟩ := List.mem_map.mp ht
      exact exchange_nextDefinition e) (exchange_lastDefinition done)
  rw [List.flatMap_map, List.map_map] at this
  exact this

end Smolweb.Dict
