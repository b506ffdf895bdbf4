import Smolweb.Dict.Verify.Synchrony
import Smolweb.Lib.Fetch
import Smolweb.Lib.Fields

/-!
# DICT commands

`quote` writes a parameter of the grammar (`param_quote`), so that a server that splits a command
line finds in it the parameters that were meant (`splitParams_joinFields_quote`). It leaves line
breaks as they are, so that a call writes one command iff no argument has any, or nothing at all
where the line is too long (`writesOne_iff`).
-/

namespace Smolweb.Dict

open DuplexM

/-! ## Quoting -/

/-- What `quote` writes between its quotes. -/
def escape (param : Text) : Text := replace '"' ['\\', '"'] (replace '\\' ['\\', '\\'] param)

theorem replace_cons (c : Char) (by_ : Text) (d : Char) (t : Text) :
    replace c by_ (d :: t) = (if d = c then by_ else [d]) ++ replace c by_ t :=
  List.flatMap_cons

theorem quoted_escape (param : Text) : Quoted (escape param) param := by
  induction param with
  | nil => exact .nil
  | cons c param ih =>
    rw [escape, replace_cons]
    by_cases hbackslash : c = '\\'
    · subst hbackslash
      exact .escaped ih
    · rw [if_neg hbackslash, List.singleton_append, replace_cons]
      by_cases hquote : c = '"'
      · subst hquote
        exact .escaped ih
      · rw [if_neg hquote]
        exact .plain hquote hbackslash ih

/-- **A quoted parameter** is one parameter, with the value that was quoted. -/
theorem param_quote (param : Text) : Param (quote param) param := by
  unfold quote
  split
  · exact .quoted (quoted_escape param)
  · next h =>
    simp only [Bool.or_eq_true, List.isEmpty_iff, List.any_eq_true, beq_iff_eq, not_or,
      not_exists, not_and] at h
    refine .atom h.1 fun c hc => ?_
    exact ⟨(h.2 c hc).2, Bool.not_eq_true _ ▸ (h.2 c hc).1⟩

theorem params_joinFields_quote (params : List Text) :
    Params (Text.joinFields ' ' (params.map quote)) params := by
  have hblank : Blank [] := by simp [Blank]
  induction params with
  | nil => exact .blank hblank
  | cons p params ih =>
    cases params with
    | nil => exact .last hblank (param_quote p)
    | cons q params =>
      exact .cons hblank (param_quote p) (by decide) (ih.space (by decide))

/-- **Quoting round trips**: the parameters come back, whatever is in them. -/
theorem splitParams_joinFields_quote (params : List Text) :
    splitParams (Text.joinFields ' ' (params.map quote)) = params :=
  splitParams_eq (params_joinFields_quote params)

example : splitParams "DEFINE \"a \\\"b\" c\\d \"\"".toList =
    ["DEFINE".toList, "a \"b".toList, "c\\d".toList, []] := by decide

/-! ## One command -/

theorem isRequestLine_sent {c : Call} (h : ¬TooLong c.line) : IsRequestLine c.sent ↔ c.Clean := by
  rw [sent_of_not_tooLong h, ← encode_crlf, ← Utf8.encode_append, isRequestLine_encode,
    oneLine_line]

theorem length_sent {c : Call} (h : ¬TooLong c.line) : c.sent ≠ [] ∧ c.sent.length ≤ maxLine := by
  rw [TooLong, Nat.not_lt] at h
  rw [sent_of_not_tooLong (Nat.not_lt.mpr h), List.length_append]
  exact ⟨by simp [crlf], h⟩

/-- A call writes a single line of at most 1024 bytes, or it fails and writes nothing. -/
def Call.WritesOne (c : Call) (s : Duplex UInt8) : Prop :=
  (∃ out, (c.exec.on s).2.written = s.written ++ out ∧ IsRequestLine out ∧
      out.length ≤ maxLine) ∨
    ((∃ e, (c.exec.on s).1 = .error e) ∧ (c.exec.on s).2.written = s.written)

/-- **One command or none**: what a call writes is one command, or nothing where it fails, iff its
line is too long to send or its arguments have no line break. -/
theorem writesOne_iff (c : Call) (s : Duplex UInt8) :
    c.WritesOne s ↔ TooLong c.line ∨ c.Clean := by
  have hwritten := exec_written_sent c s
  by_cases htooLong : TooLong c.line
  · have hexec := exec_tooLong htooLong s.written s.unread
    rw [List.nil_append, List.append_nil] at hexec
    refine iff_of_true (.inr ⟨⟨_, congrArg Prod.fst hexec⟩, ?_⟩) (.inl htooLong)
    rw [hwritten, sent_of_tooLong htooLong, List.append_nil]
  · obtain ⟨hne, hlen⟩ := length_sent htooLong
    rw [Call.WritesOne, hwritten, ← isRequestLine_sent htooLong]
    constructor
    · rintro (⟨out, hout, hrequest, -⟩ | ⟨-, hnothing⟩)
      · rw [List.append_cancel_left hout]
        exact .inr hrequest
      · exact absurd (List.append_right_eq_self.mp hnothing) hne
    · rintro (h | hrequest)
      · exact absurd h htooLong
      · exact .inl ⟨_, rfl, hrequest, hlen⟩

/-- A word with a second command in it. -/
def smuggled : Call := .define "wn".toList "a\r\nQUIT".toList

theorem not_writesOne_smuggled : ¬smuggled.WritesOne ⟨[], []⟩ := by
  have htooLong : ¬TooLong smuggled.line := by
    rw [TooLong]
    decide
  have hwritten := exec_written_sent smuggled ⟨[], []⟩
  rintro (⟨out, hout, hrequest, -⟩ | ⟨-, hnothing⟩)
  · rw [hwritten] at hout
    rw [← List.append_cancel_left hout, isRequestLine_sent htooLong] at hrequest
    exact absurd hrequest (by decide)
  · rw [hwritten, List.append_right_eq_self] at hnothing
    exact (length_sent htooLong).1 hnothing

end Smolweb.Dict
