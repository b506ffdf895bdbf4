import Smolweb.Gemini.Gemtext
import Smolweb.Lib.Fenced
import Smolweb.Scroll.Scrolltext

/-!
# Documents with code blocks

Scrolltext and gemtext are read line by line, and a fence is all that reaches over a line. So a
document is read apart wherever its blocks are closed, and what stands between two fences is one
block, whatever it looks like (`parse_compositional`).
-/

namespace Smolweb

/-- What a fence says of its block: nothing, or the text behind it, trimmed. -/
def fenceTag (rest : Text) : Option Text :=
  if (Text.trim rest).isEmpty then none else some (Text.trim rest)

theorem fenceTag_getD {tag : Option Text} (h : ∀ t, tag = some t → t.IsTrimmed ∧ t ≠ []) :
    fenceTag (tag.getD []) = tag := by
  cases tag with
  | none => rfl
  | some t =>
    obtain ⟨⟨htrim, -⟩, hne⟩ := h t rfl
    simp [fenceTag, htrim, hne]

theorem isTrimmed_of_fenceTag {rest : Text} (hlf : '\n' ∉ rest) :
    ∀ t, fenceTag rest = some t → t.IsTrimmed ∧ t ≠ [] := by
  intro t h
  unfold fenceTag at h
  split at h
  · cases h
  · next hne =>
    obtain rfl := Option.some.inj h
    exact ⟨Text.isTrimmed_trim hlf, by simpa using hne⟩

/-- Lines that are read as they were meant, block by block, make a text that is. -/
theorem read_writeLines {β γ : Type} (f : Fenced Text β γ) {lines : γ → List Text} {doc : List γ}
    (hlf : ∀ c ∈ doc, ∀ line ∈ lines c, '\n' ∉ line)
    (hread : ∀ c ∈ doc, f.Closed (lines c) ∧ f.read (lines c) = [c]) :
    f.read (Text.lines (Text.writeLines (doc.flatMap lines))) = doc := by
  have hall : ∀ line ∈ doc.flatMap lines, '\n' ∉ line := by
    intro line hline
    obtain ⟨c, hc, hline⟩ := List.mem_flatMap.mp hline
    exact hlf c hc line hline
  have hlines := Text.lines_writeLines hall []
  rw [List.append_nil] at hlines
  rw [hlines]
  change f.read (doc.flatMap lines ++ []) = doc
  rw [List.append_nil]
  exact f.read_flatMap hread

namespace Gemtext

/-- Gemtext's preformatted blocks. -/
def blocks : Fenced Text (Option Text × Text) GemLine where
  fence line := fence <+: line
  opens line := (fenceTag (line.drop fence.length), [])
  add block line := (block.1, block.2 ++ line ++ ['\n'])
  close block := .pre block.1 block.2
  line line := (parseStep ([], none) line).1

theorem parseStep_of_not_fence {line : Text} (h : ¬fence <+: line) (out : List GemLine) :
    parseStep (out, none) line = (out ++ (parseStep ([], none) line).1, none) := by
  have hfence : Text.stripPrefix fence line = none := if_neg h
  simp only [parseStep, hfence]
  cases Text.stripPrefix "### ".toList line with
  | some t => rfl
  | none =>
    cases Text.stripPrefix "## ".toList line with
    | some t => rfl
    | none =>
      cases Text.stripPrefix "# ".toList line with
      | some t => rfl
      | none =>
        cases Text.stripPrefix "=>".toList line with
        | some rest =>
          dsimp only
          cases parseLink rest with
          | some link => rfl
          | none => rw [List.append_nil]
        | none =>
          cases Text.stripPrefix "* ".toList line with
          | some t => rfl
          | none =>
            cases Text.stripPrefix "> ".toList line with
            | some t => rfl
            | none =>
              cases line.isEmpty <;> rfl

theorem parseStep_eq : parseStep = blocks.step := by
  funext s line
  obtain ⟨out, _ | ⟨alt, text⟩⟩ := s
  · by_cases h : fence <+: line
    · have hfence : Text.stripPrefix fence line = some (line.drop fence.length) := if_pos h
      simp [parseStep, Fenced.step, blocks, h, hfence, trimmedOrNone, fenceTag]
    · rw [parseStep_of_not_fence h]
      simp [Fenced.step, blocks, h]
  · by_cases h : fence <+: line
    · simp [parseStep, Fenced.step, blocks, h]
    · simp [parseStep, Fenced.step, blocks, h]

theorem parse_eq (t : Text) : parse t = blocks.read (Text.lines t) := by
  rw [parse, parseStep_eq, Fenced.read]
  obtain ⟨out, _ | ⟨alt, text⟩⟩ := (Text.lines t).foldl blocks.step ([], none)
  · rfl
  · rfl

theorem add_pre (alt : Option Text) (text : Text) (body : List Text) :
    body.foldl blocks.add (alt, text) = (alt, text ++ body.flatMap fun line => line ++ ['\n']) := by
  induction body generalizing text with
  | nil => simp
  | cons line body ih =>
    rw [List.foldl_cons]
    change body.foldl blocks.add (alt, text ++ line ++ ['\n']) = _
    rw [ih]
    simp

theorem parse_block {t tag closing : Text} {body : List Text}
    (hlines : Text.lines t = (fence ++ tag) :: (body ++ [fence ++ closing]))
    (hbody : ∀ line ∈ body, ¬fence <+: line) :
    parse t = [.pre (fenceTag tag) (body.flatMap fun line => line ++ ['\n'])] := by
  have hopens : blocks.opens (fence ++ tag) = (fenceTag tag, []) := by simp [blocks]
  rw [parse_eq, hlines, Fenced.read_block, hopens, add_pre]
  · rfl
  · exact decide_eq_true (List.prefix_append fence tag)
  · exact fun line h => decide_eq_false (hbody line h)
  · exact decide_eq_true (List.prefix_append fence closing)

end Gemtext

namespace Scroll

/-- Scrolltext's code blocks. -/
def blocks : Fenced Text (Option Text × List Text) ScrollLine where
  fence raw := fence <+: raw
  opens raw := (fenceTag (raw.drop fence.length), [])
  add block raw := (block.1, block.2 ++ [raw])
  close block := .codeBlock block.1 block.2
  line raw := [parseLine raw]

theorem parseStep_eq : parseStep = blocks.step := by
  funext s raw
  obtain ⟨lines, _ | ⟨tag, collected⟩⟩ := s
  · by_cases h : fence <+: raw
    · have hfence : Text.stripPrefix fence raw = some (raw.drop fence.length) := if_pos h
      simp [parseStep, Fenced.step, blocks, h, hfence, fenceTag]
    · have hfence : Text.stripPrefix fence raw = none := if_neg h
      simp [parseStep, Fenced.step, blocks, h, hfence]
  · by_cases h : fence <+: raw
    · simp [parseStep, Fenced.step, blocks, h]
    · simp [parseStep, Fenced.step, blocks, h]

theorem parse_eq (t : Text) : parse t = blocks.read (Text.lines t) := by
  rw [parse, parseStep_eq, Fenced.read]
  obtain ⟨lines, _ | ⟨tag, collected⟩⟩ := (Text.lines t).foldl blocks.step ([], none)
  · rfl
  · rfl

theorem add_codeBlock (tag : Option Text) (collected body : List Text) :
    body.foldl blocks.add (tag, collected) = (tag, collected ++ body) := by
  induction body generalizing collected with
  | nil => simp
  | cons raw body ih =>
    rw [List.foldl_cons]
    change body.foldl blocks.add (tag, collected ++ [raw]) = _
    rw [ih]
    simp

theorem parse_block {t tag closing : Text} {body : List Text}
    (hlines : Text.lines t = (fence ++ tag) :: (body ++ [fence ++ closing]))
    (hbody : ∀ raw ∈ body, ¬fence <+: raw) : parse t = [.codeBlock (fenceTag tag) body] := by
  have hopens : blocks.opens (fence ++ tag) = (fenceTag tag, []) := by simp [blocks]
  rw [parse_eq, hlines, Fenced.read_block, hopens, add_codeBlock]
  · rfl
  · exact decide_eq_true (List.prefix_append fence tag)
  · exact fun raw h => decide_eq_false (hbody raw h)
  · exact decide_eq_true (List.prefix_append fence closing)

end Scroll

/-! ## Both parsers -/

/-- A text that breaks off between two lines. -/
def Text.EndsLine (t : Text) : Prop := t = [] ∨ t.getLast? = some '\n'

theorem Text.EndsLine.lines_append {a : Text} (h : a.EndsLine) (b : Text) :
    Text.lines (a ++ b) = Text.lines a ++ Text.lines b := by
  obtain rfl | h := h
  · rfl
  · obtain ⟨a, rfl⟩ := List.getLast?_eq_some_iff.mp h
    rw [List.append_assoc, List.singleton_append, Text.lines_append]

/-- The lines of a text that begin with three backticks. -/
def fenceLines (t : Text) : Nat := (Text.lines t).countP fun line => "```".toList <+: line

/-- **Documents are read apart** where their fences are closed, and two fences make one block of the
lines between them, as they stand. -/
theorem parse_compositional :
    (∀ a b : Text, a.EndsLine → Even (fenceLines a) →
      Scroll.parse (a ++ b) = Scroll.parse a ++ Scroll.parse b ∧
        Gemtext.parse (a ++ b) = Gemtext.parse a ++ Gemtext.parse b) ∧
    ∀ (t tag closing : Text) (body : List Text),
      Text.lines t = ("```".toList ++ tag) :: (body ++ ["```".toList ++ closing]) →
      (∀ line ∈ body, ¬"```".toList <+: line) →
        Scroll.parse t = [.codeBlock (fenceTag tag) body] ∧
          Gemtext.parse t =
            [.pre (fenceTag tag) (body.flatMap fun line => line ++ ['\n'])] := by
  constructor
  · intro a b ha hfences
    have hscroll : Scroll.blocks.Closed (Text.lines a) := Scroll.blocks.closed_iff.mpr hfences
    have hgemtext : Gemtext.blocks.Closed (Text.lines a) := Gemtext.blocks.closed_iff.mpr hfences
    constructor
    · rw [Scroll.parse_eq, Scroll.parse_eq, Scroll.parse_eq, ha.lines_append,
        Fenced.read_append _ hscroll]
    · rw [Gemtext.parse_eq, Gemtext.parse_eq, Gemtext.parse_eq, ha.lines_append,
        Fenced.read_append _ hgemtext]
  · intro t tag closing body hlines hbody
    exact ⟨Scroll.parse_block hlines hbody, Gemtext.parse_block hlines hbody⟩

theorem parse_compositional_verbatim :
    let a := "``` sh \n# a\r\n```\n".toList
    Scroll.parse (a ++ "# b".toList) =
        [.codeBlock (some "sh".toList) ["# a".toList], .heading 1 "b".toList] ∧
      Gemtext.parse (a ++ "# b".toList) =
        [.pre (some "sh".toList) "# a\n".toList, .heading 1 "b".toList] := by
  intro a
  have hlines : Text.lines a =
      ("```".toList ++ " sh ".toList) :: (["# a".toList] ++ ["```".toList ++ []]) := by
    decide +kernel
  obtain ⟨hscroll, hgemtext⟩ := parse_compositional.1 a "# b".toList (.inr (by decide +kernel))
    (by decide +kernel)
  obtain ⟨hcode, hpre⟩ := parse_compositional.2 a _ _ _ hlines (by decide +kernel)
  constructor
  · rw [hscroll, hcode]
    decide +kernel
  · rw [hgemtext, hpre]
    decide +kernel

end Smolweb
