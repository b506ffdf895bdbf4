import Smolweb.TextProtocol.Body

/-!
# Bodies, written and read

Every text is a body. A link line's tokens are attributes up to the first that has none in front of
an `=`, and its label from there on. So a body is what is read of it exactly if its link lines are
such (`body_read_iff`).
-/

namespace Smolweb.TextProtocol

/-- A token that no attribute is: nothing comes before the first `=`, if it has one. -/
def IsPlain (token : Text) : Prop :=
  ∀ key value, Text.splitOnce '=' token = some (key, value) → key = []

/-- A key and a value that are one token, with an `=` between them. -/
structure IsAttribute (a : Text × Text) : Prop where
  key : a.1 ≠ [] ∧ '=' ∉ a.1
  word : ∀ c ∈ a.1 ++ a.2, Text.isWhitespace c = false

structure LinkLine.Normal (link : LinkLine) : Prop where
  url : link.url.IsWord ∨ (link.url = [] ∧ link.attributes = [] ∧ link.label = none)
  attributes : ∀ a ∈ link.attributes, IsAttribute a
  label : ∀ t, link.label = some t → ∃ part parts, t = Text.joinFields ' ' (part :: parts) ∧
    IsPlain part ∧ ∀ w ∈ part :: parts, w.IsWord

inductive Line.Normal : Line → Prop
  | text {t : Text} (hlf : '\n' ∉ t) (hmark : ¬"=>".toList <+: t) : Normal (.text t)
  | link {link : LinkLine} (h : link.Normal) : Normal (.link link)

/-! ## Writing -/

def attributeToken (a : Text × Text) : Text := a.1 ++ '=' :: a.2

/-- What a link line says, in its order. -/
def LinkLine.tokens (link : LinkLine) : List Text :=
  link.url :: link.attributes.map attributeToken ++ link.label.toList

def Line.write : Line → Text
  | .text t => t
  | .link l => "=>".toList ++ l.tokens.flatMap (' ' :: ·)

def writeBody (lines : List Line) : Text := Text.writeLines (lines.map Line.write)

/-! ## Reading what was written -/

theorem IsAttribute.isWord {a : Text × Text} (h : IsAttribute a) : (attributeToken a).IsWord := by
  refine ⟨by simp [attributeToken], fun c hc => ?_⟩
  rcases List.mem_append.mp hc with hc | hc
  · exact h.word c (List.mem_append_left _ hc)
  · rcases List.mem_cons.mp hc with rfl | hc
    · rfl
    · exact h.word c (List.mem_append_right _ hc)

theorem foldl_attributes {attributes : List (Text × Text)} (h : ∀ a ∈ attributes, IsAttribute a)
    (before : List (Text × Text)) :
    (attributes.map attributeToken).foldl tokenStep (before, []) = (before ++ attributes, []) := by
  induction attributes generalizing before with
  | nil => simp
  | cons a attributes ih =>
    obtain ⟨ha, hattributes⟩ := List.forall_mem_cons.mp h
    have hstep : tokenStep (before, []) (attributeToken a) = (before ++ [a], []) := by
      simp only [tokenStep, attributeToken, Text.splitOnce_append ha.key.2]
      simp [ha.key.1]
    rw [List.map_cons, List.foldl_cons, hstep, ih hattributes]
    simp

/-- A label that has begun takes all tokens. -/
theorem foldl_label (attributes : List (Text × Text)) {seen : List Text} (hseen : seen ≠ [])
    (tokens : List Text) :
    tokens.foldl tokenStep (attributes, seen) = (attributes, seen ++ tokens) := by
  induction tokens generalizing seen with
  | nil => simp
  | cons token tokens ih =>
    have hstep : tokenStep (attributes, seen) token = (attributes, seen ++ [token]) := by
      unfold tokenStep
      cases Text.splitOnce '=' token with
      | some p => simp [hseen]
      | none => rfl
    rw [List.foldl_cons, hstep, ih (by simp)]
    simp

theorem tokenStep_of_isPlain {part : Text} (h : IsPlain part)
    (attributes : List (Text × Text)) : tokenStep (attributes, []) part = (attributes, [part]) := by
  unfold tokenStep
  cases hsplit : Text.splitOnce '=' part with
  | some p => simp [h p.1 p.2 hsplit]
  | none => rfl

theorem parseLink_tokens {link : LinkLine} (h : link.Normal) :
    parseLink (link.tokens.flatMap (' ' :: ·)) = link := by
  obtain ⟨url, attributes, label⟩ := link
  obtain ⟨hurl, hattributes, hlabel⟩ := h
  simp only at hurl hattributes hlabel
  have hattributeTokens : (attributes.map attributeToken).flatMap Text.words =
      attributes.map attributeToken := by
    clear hurl
    induction attributes with
    | nil => rfl
    | cons a attributes ih =>
      obtain ⟨ha, hattributes⟩ := List.forall_mem_cons.mp hattributes
      rw [List.map_cons, List.flatMap_cons, ha.isWord.words_eq, ih hattributes]
      rfl
  have htokens : (LinkLine.tokens ⟨url, attributes, label⟩).flatMap Text.words =
      Text.words url ++ (attributes.map attributeToken ++ label.toList.flatMap Text.words) := by
    rw [LinkLine.tokens, List.cons_append, List.flatMap_cons, List.flatMap_append,
      hattributeTokens]
  rw [parseLink, Text.words_flatMap_space, htokens]
  obtain hurl | ⟨rfl, rfl, rfl⟩ := hurl
  · rw [hurl.words_eq, List.singleton_append, List.tail_cons, List.foldl_append,
      foldl_attributes hattributes, List.nil_append]
    cases label with
    | none => rfl
    | some t =>
      obtain ⟨part, parts, rfl, hplain, hparts⟩ := hlabel t rfl
      rw [Option.toList_some, List.flatMap_singleton, Text.words_joinFields hparts,
        List.foldl_cons, tokenStep_of_isPlain hplain, foldl_label _ (by simp)]
      rfl
  · rfl

theorem parse_write {l : Line} (h : l.Normal) :
    (match Text.stripPrefix "=>".toList l.write with
      | some rest => Line.link (parseLink rest)
      | none => Line.text l.write) = l := by
  cases h with
  | @text t hlf hmark =>
    have hnone : Text.stripPrefix "=>".toList t = none := if_neg hmark
    simp only [Line.write, hnone]
  | @link link h => simp only [Line.write, Text.stripPrefix_append, parseLink_tokens h]

theorem lf_not_mem_write {l : Line} (h : l.Normal) : '\n' ∉ l.write := by
  cases h with
  | text hlf hmark => exact hlf
  | @link link h =>
    have htoken : ∀ token ∈ link.tokens, '\n' ∉ token := by
      intro token htoken
      rcases List.mem_cons.mp htoken with rfl | htoken
      · obtain hurl | ⟨hurl, -, -⟩ := h.url
        · exact hurl.lf_not_mem
        · simp [hurl]
      · rcases List.mem_append.mp htoken with htoken | htoken
        · obtain ⟨a, ha, rfl⟩ := List.mem_map.mp htoken
          exact (h.attributes a ha).isWord.lf_not_mem
        · obtain ⟨part, parts, rfl, -, hparts⟩ := h.label token (Option.mem_toList.mp htoken)
          intro hm
          rcases Text.mem_of_mem_joinFields hm with hm | ⟨w, hw, hm⟩
          · cases hm
          · exact (hparts w hw).lf_not_mem hm
    have hmark : '\n' ∉ "=>".toList := by decide
    simp only [Line.write, List.mem_append, List.mem_flatMap, hmark, false_or]
    rintro ⟨token, hmem, hlf⟩
    exact htoken token hmem (by simpa using hlf)

theorem parseBody_writeBody {lines : List Line} (h : ∀ l ∈ lines, l.Normal) :
    parseBody (writeBody lines) = lines := by
  have hlf : ∀ line ∈ lines.map Line.write, '\n' ∉ line := by
    intro line hline
    obtain ⟨l, hl, rfl⟩ := List.mem_map.mp hline
    exact lf_not_mem_write (h l hl)
  have hlines := Text.lines_writeLines hlf []
  rw [List.append_nil] at hlines
  rw [parseBody, writeBody, hlines]
  change (lines.map Line.write ++ []).map _ = lines
  rw [List.append_nil, List.map_map]
  refine (List.map_congr_left fun l hl => ?_).trans (List.map_id lines)
  exact parse_write (h l hl)

/-! ## What is read -/

/-- Attributes and parts of a label that a link line can have. -/
structure Gathered (state : List (Text × Text) × List Text) : Prop where
  attributes : ∀ a ∈ state.1, IsAttribute a
  words : ∀ w ∈ state.2, w.IsWord
  plain : ∀ part, state.2.head? = some part → IsPlain part

theorem Gathered.tokenStep {state : List (Text × Text) × List Text} (h : Gathered state)
    {token : Text} (htoken : token.IsWord) : Gathered (tokenStep state token) := by
  have hlabel (hplain : state.2 = [] → IsPlain token) :
      Gathered (state.1, state.2 ++ [token]) := by
    refine ⟨h.attributes, ?_, fun part hpart => ?_⟩
    · intro w hw
      rcases List.mem_append.mp hw with hw | hw
      · exact h.words w hw
      · obtain rfl := List.mem_singleton.mp hw
        exact htoken
    · cases hparts : state.2 with
      | nil =>
        obtain rfl : token = part := by simpa [hparts] using hpart
        exact hplain hparts
      | cons first parts =>
        obtain rfl : first = part := by simpa [hparts] using hpart
        exact h.plain first (by simp [hparts])
  unfold TextProtocol.tokenStep
  cases hsplit : Text.splitOnce '=' token with
  | none =>
    refine hlabel fun _ key value heq => ?_
    rw [hsplit] at heq
    cases heq
  | some p =>
    obtain ⟨key, value⟩ := p
    dsimp only
    split
    · next hattribute =>
      rw [Bool.and_eq_true, List.isEmpty_iff, Bool.not_eq_true', List.isEmpty_eq_false_iff]
        at hattribute
      obtain ⟨rfl, hkey⟩ := Text.splitOnce_eq_some_iff.mp hsplit
      refine ⟨fun a ha => ?_, h.words, h.plain⟩
      rcases List.mem_append.mp ha with ha | ha
      · exact h.attributes a ha
      · obtain rfl := List.mem_singleton.mp ha
        refine ⟨⟨hattribute.2, hkey⟩, fun c hc => htoken.2 c ?_⟩
        rcases List.mem_append.mp hc with hc | hc
        · exact List.mem_append_left _ hc
        · exact List.mem_append_right _ (List.mem_cons_of_mem _ hc)
    · next hattribute =>
      refine hlabel fun hnil key' value' heq => ?_
      rw [hsplit] at heq
      obtain ⟨rfl, rfl⟩ := Prod.mk.inj (Option.some.inj heq)
      simpa [hnil] using hattribute

theorem gathered_foldl {tokens : List Text} (htokens : ∀ token ∈ tokens, token.IsWord)
    {state : List (Text × Text) × List Text} (h : Gathered state) :
    Gathered (tokens.foldl tokenStep state) := by
  induction tokens generalizing state with
  | nil => exact h
  | cons token tokens ih =>
    obtain ⟨htoken, htokens⟩ := List.forall_mem_cons.mp htokens
    exact ih htokens (h.tokenStep htoken)

theorem normal_parseLink (rest : Text) : (parseLink rest).Normal := by
  have hwords : ∀ w ∈ Text.words rest, w.IsWord := fun w hw => Text.of_mem_words hw
  unfold parseLink
  generalize Text.words rest = tokens at hwords
  cases tokens with
  | nil => exact ⟨.inr ⟨rfl, rfl, rfl⟩, by simp, by simp⟩
  | cons url tokens =>
    obtain ⟨hurl, htokens⟩ := List.forall_mem_cons.mp hwords
    have h : Gathered (tokens.foldl tokenStep ([], [])) :=
      gathered_foldl htokens ⟨by simp, by simp, by simp⟩
    refine ⟨.inl hurl, h.attributes, fun t ht => ?_⟩
    dsimp only at ht
    split at ht
    · cases ht
    · next hne =>
      obtain ⟨part, parts, hparts⟩ :=
        List.exists_cons_of_ne_nil fun hnil => hne (List.isEmpty_iff.mpr hnil)
      rw [List.tail_cons] at hparts
      refine ⟨part, parts, ?_, h.plain part (by rw [hparts]; rfl), hparts ▸ h.words⟩
      rw [← Option.some.inj ht, List.tail_cons, hparts]

theorem normal_of_parseBody (t : Text) : ∀ l ∈ parseBody t, l.Normal := by
  intro l hl
  obtain ⟨line, hline, rfl⟩ := List.mem_map.mp hl
  split
  · exact .link (normal_parseLink _)
  · next hnone =>
    exact .text (Text.lf_not_mem_of_mem_lines hline) (Text.not_prefix_of_stripPrefix hnone)

/-- **A body is read of what is written of it** exactly if its link lines are such as are read,
and its text is no link line and no two lines; and all that is read, of any text, is so. -/
theorem body_read_iff :
    (∀ lines, parseBody (writeBody lines) = lines ↔ ∀ l ∈ lines, l.Normal) ∧
      ∀ t, ∀ l ∈ parseBody t, l.Normal := by
  refine ⟨fun lines => ⟨fun h => ?_, parseBody_writeBody⟩, normal_of_parseBody⟩
  rw [← h]
  exact normal_of_parseBody (writeBody lines)

end Smolweb.TextProtocol
