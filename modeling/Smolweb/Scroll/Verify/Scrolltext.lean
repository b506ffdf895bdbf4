import Smolweb.Scroll.Verify.Escaping
import Smolweb.Verify.Documents

/-!
# Scrolltext, written and read

As with gemtext, what is read of any text is in a normal form, and a document is read of what is
written of it exactly if all its lines are (`scrolltext_read_iff`). A text that looks like markup is
in normal form too: it is written with the backslash that takes the markup away.
-/

namespace Smolweb.Scroll

/-! ## Normal forms -/

/-- A list marker: digits or one letter, and a dot. -/
inductive IsMarker : Text → Prop
  | digits {ds : Text} (hne : ds ≠ []) (hdigits : ∀ c ∈ ds, c.isDigit = true) :
    IsMarker (ds ++ ['.'])
  | letter {c : Char} (hletter : c.isAlpha = true) : IsMarker [c, '.']

structure Relation.Normal (r : Relation) : Prop where
  tag : ∀ t, r.tag = some t → t ≠ [] ∧ '[' ∉ t ∧ '\n' ∉ t
  /-- A neutral relation has a tag, which could not be taken for a polarity. -/
  neutral : r.polarity = .neutral → ∃ c t, r.tag = some (c :: t) ∧ c ≠ '+' ∧ c ≠ '-'

/-- A text of which only what comes behind matters, on one line. -/
def IsRest (t : Text) : Prop := Text.trimStart t = t ∧ '\n' ∉ t

inductive ScrollLine.Normal : ScrollLine → Prop
  | heading {level : Nat} {text : Text} (hlevel : 1 ≤ level ∧ level ≤ 5) (htext : IsRest text) :
    Normal (.heading level text)
  | text {text : Text} (hne : Text.trim text ≠ []) (hlf : '\n' ∉ text)
    (hbackslash : ∀ rest, text = '\\' :: rest → isEscapable rest = false) : Normal (.text text)
  | blank : Normal .blank
  | quote {depth : Nat} {text : Text} (hdepth : 1 ≤ depth ∧ depth ≤ 255) (htext : IsRest text) :
    Normal (.quote depth text)
  | item {depth : Nat} {text : Text} (hdepth : 1 ≤ depth ∧ depth ≤ 4) (hlf : '\n' ∉ text)
    (htext : splitOrdinal text = (none, text)) : Normal (.listItem depth none text)
  | marked {depth : Nat} {marker text : Text} (hdepth : 1 ≤ depth ∧ depth ≤ 4)
    (hmarker : IsMarker marker) (htext : IsRest text) :
    Normal (.listItem depth (some marker) text)
  | bareLink : Normal (.link [] [] none)
  | link {url label : Text} (hurl : url.IsWord) (hlabel : label.IsTrimmed)
    (hrelation : splitRelation label = (label, none)) : Normal (.link url label none)
  | related {url label : Text} {relation : Relation} (hurl : url.IsWord)
    (hlabel : label.IsTrimmed) (hrelation : relation.Normal) :
    Normal (.link url label (some relation))
  | bareInputLink : Normal (.inputLink [] [])
  | inputLink {url prompt : Text} (hurl : url.IsWord) (hprompt : prompt.IsTrimmed) :
    Normal (.inputLink url prompt)
  | thematicBreak : Normal .thematicBreak
  | codeBlock {tag : Option Text} {lines : List Text}
    (htag : ∀ t, tag = some t → t.IsTrimmed ∧ t ≠ [])
    (hlines : ∀ line ∈ lines, '\n' ∉ line ∧ ¬fence <+: line) : Normal (.codeBlock tag lines)

/-! ## Writing -/

def Polarity.text : Polarity → Text
  | .positive => ['+']
  | .neutral => []
  | .negative => ['-']

def Relation.inner (r : Relation) : Text := r.polarity.text ++ r.tag.getD []

def Relation.text (r : Relation) : Text := '[' :: r.inner ++ [']']

/-- The lines of a document's line, or of its code block, as an author writes them. -/
def ScrollLine.lines : ScrollLine → List Text
  | .heading level t => [List.replicate level '#' ++ ' ' :: t]
  | .text t => [if isEscapable t then '\\' :: t else t]
  | .blank => [[]]
  | .quote depth t => [List.replicate depth '>' ++ ' ' :: t]
  | .listItem depth ordinal t =>
    [List.replicate depth '*' ++ ' ' :: ordinal.elim t fun marker => marker ++ ' ' :: t]
  | .link url label relation =>
    ['=' :: '>' :: ' ' :: url ++
      ' ' :: relation.elim label fun relation => label ++ ' ' :: relation.text]
  | .inputLink url prompt => ['=' :: ':' :: ' ' :: url ++ ' ' :: prompt]
  | .thematicBreak => ["---".toList]
  | .codeBlock tag lines => (fence ++ tag.getD []) :: (lines ++ [fence])

def write (doc : List ScrollLine) : Text := Text.writeLines (doc.flatMap ScrollLine.lines)

/-! ## Reading what was written -/

theorem markCount_replicate {mark c : Char} (h : c ≠ mark) (n : Nat) (t : Text) :
    markCount mark (List.replicate n mark ++ c :: t) = n := by
  have hmarks : ∀ d ∈ List.replicate n mark, (d == mark) = true := by
    intro d hd
    rw [List.eq_of_mem_replicate hd, beq_self_eq_true]
  rw [markCount, List.takeWhile_append_of_pos hmarks, List.takeWhile_cons_of_neg (by simpa using h)]
  simp

theorem trim_ne_nil {c : Char} (h : Text.isWhitespace c = false) (t : Text) :
    (Text.trim (c :: t)).isEmpty = false := by
  have hstart : Text.trimStart (c :: t) = c :: t :=
    Text.trimStart_eq_self_iff.mpr fun d hd => by
      obtain rfl : c = d := by simpa using hd
      exact h
  have hkeep : Text.trim (c :: t) = c :: Text.trimEnd t := by
    rw [Text.trim, hstart]
    exact Text.trimEndMatches_append_cons h [] t
  rw [hkeep]
  rfl

theorem stripPrefix_cons_ne {c d : Char} (h : c ≠ d) (t mark : Text) :
    Text.stripPrefix (c :: mark) (d :: t) = none :=
  if_neg fun hp => h (List.cons_prefix_cons.mp hp).1

/-- What a line of markup begins with is no whitespace, and takes no part in fences or escapes. -/
structure IsMark (mark : Char) : Prop where
  space : Text.isWhitespace mark = false
  backslash : '\\' ≠ mark
  fence : '`' ≠ mark
  lf : '\n' ≠ mark

theorem isMark : ∀ mark ∈ ['#', '>', '*', '='], IsMark mark := by
  simp only [List.mem_cons, List.not_mem_nil, or_false, forall_eq_or_imp, forall_eq]
  refine ⟨?_, ?_, ?_, ?_⟩ <;> constructor <;> decide

/-- A run of a mark, with at least one, and a space. -/
theorem run_cons {mark : Char} (h : IsMark mark) {n : Nat} (hn : 1 ≤ n) (text : Text) :
    ∃ u, List.replicate n mark ++ ' ' :: text = mark :: u ∧ markCount mark (mark :: u) = n ∧
      (mark :: u).drop n = ' ' :: text := by
  have hspace : ' ' ≠ mark := by
    rintro rfl
    cases h.space
  obtain ⟨m, rfl⟩ := Nat.exists_eq_add_of_le' hn
  have hcons : List.replicate (m + 1) mark ++ ' ' :: text =
      mark :: (List.replicate m mark ++ ' ' :: text) := rfl
  refine ⟨_, hcons, ?_, ?_⟩
  · rw [← hcons, markCount_replicate hspace]
  · rw [← hcons]
    simp

theorem parseLine_heading {level : Nat} {text : Text} (hlevel : 1 ≤ level ∧ level ≤ 5)
    (htext : Text.trimStart text = text) :
    parseLine (List.replicate level '#' ++ ' ' :: text) = .heading level text := by
  have hmark := isMark '#' (by simp)
  obtain ⟨u, hu, hcount, hdrop⟩ := run_cons hmark hlevel.1 text
  rw [hu]
  unfold parseLine
  simp only [trim_ne_nil hmark.space, stripPrefix_cons_ne hmark.backslash]
  simp [hcount, hdrop, hlevel.2, Text.trimStart_space, htext]

theorem parseLine_quote {depth : Nat} {text : Text} (hdepth : 1 ≤ depth ∧ depth ≤ 255)
    (htext : Text.trimStart text = text) :
    parseLine (List.replicate depth '>' ++ ' ' :: text) = .quote depth text := by
  have hmark := isMark '>' (by simp)
  obtain ⟨u, hu, hcount, hdrop⟩ := run_cons hmark hdepth.1 text
  rw [hu]
  unfold parseLine
  simp only [trim_ne_nil hmark.space, stripPrefix_cons_ne hmark.backslash]
  simp [hcount, hdrop, hdepth.2, Text.trimStart_space, htext]

theorem parseLine_listItem {depth : Nat} (hdepth : 1 ≤ depth ∧ depth ≤ 4) (text : Text) :
    parseLine (List.replicate depth '*' ++ ' ' :: text) =
      .listItem depth (splitOrdinal text).1 (splitOrdinal text).2 := by
  have hmark := isMark '*' (by simp)
  have hequals : '=' ≠ '*' := by decide
  obtain ⟨u, hu, hcount, hdrop⟩ := run_cons hmark hdepth.1 text
  rw [hu]
  unfold parseLine
  simp only [trim_ne_nil hmark.space, stripPrefix_cons_ne hmark.backslash]
  simp [stripPrefix_cons_ne hequals, hcount, hdrop, hdepth.1, hdepth.2]

theorem parseLine_link (rest : Text) : parseLine ('=' :: '>' :: rest) =
    .link (splitLink rest).1 (splitRelation (splitLink rest).2).1
      (splitRelation (splitLink rest).2).2 := by
  have hstrip : Text.stripPrefix ['=', '>'] ('=' :: '>' :: rest) = some rest :=
    Text.stripPrefix_append ['=', '>'] rest
  have hmark := isMark '=' (by simp)
  unfold parseLine
  simp only [trim_ne_nil hmark.space, stripPrefix_cons_ne hmark.backslash]
  simp [hstrip]

theorem parseLine_inputLink (rest : Text) : parseLine ('=' :: ':' :: rest) =
    .inputLink (splitLink rest).1 (splitLink rest).2 := by
  have hstrip : Text.stripPrefix ['=', ':'] ('=' :: ':' :: rest) = some rest :=
    Text.stripPrefix_append ['=', ':'] rest
  have hlink : Text.stripPrefix ['=', '>'] ('=' :: ':' :: rest) = none := rfl
  have hmark := isMark '=' (by simp)
  unfold parseLine
  simp only [trim_ne_nil hmark.space, stripPrefix_cons_ne hmark.backslash]
  simp [hstrip, hlink]

theorem splitLink_word {url : Text} (hurl : url.IsWord) (label : Text) :
    splitLink (' ' :: url ++ ' ' :: label) = (url, Text.trim label) := by
  have hstart : Text.trimStart (' ' :: url ++ ' ' :: label) = url ++ ' ' :: label := by
    rw [List.cons_append, Text.trimStart_space]
    refine Text.trimStart_append_eq_self hurl.1 (Text.trimStart_eq_self_iff.mpr fun c hc => ?_) _
    exact hurl.2 c (List.mem_of_head? hc)
  rw [splitLink, hstart, Text.splitOnceWhere_append hurl.2 (by decide)]

theorem bracket_not_mem_inner {r : Relation} (h : r.Normal) : '[' ∉ r.inner := by
  have hpolarity : '[' ∉ r.polarity.text := by cases r.polarity <;> decide
  have htag : '[' ∉ r.tag.getD [] := by
    cases ht : r.tag with
    | none => simp
    | some t => exact (h.tag t ht).2.1
  exact fun hm => (List.mem_append.mp hm).elim hpolarity htag

/-- What stands in the brackets of a label says the polarity and the tag. -/
theorem splitRelation_inner {r : Relation} (h : r.Normal) (before : Text) :
    splitRelation (before ++ r.text) = (Text.trimEnd before, some r) := by
  have hclose : '[' ∉ r.inner ++ [']'] := by simp [bracket_not_mem_inner h]
  have htrim : Text.trimEnd (before ++ r.text) = before ++ '[' :: (r.inner ++ [']']) := by
    have hassoc : before ++ r.text = (before ++ '[' :: r.inner) ++ [']'] := by
      simp [Relation.text]
    rw [hassoc, Text.trimEnd, Text.trimEndMatches_concat_of_neg (by decide)]
    simp
  unfold splitRelation
  simp only [htrim, Text.rsplitOnce_append hclose, Text.stripSuffix_append]
  obtain ⟨polarity, tag⟩ := r
  have htag (t : Text) (ht : tag = some t) : t ≠ [] := (h.tag t ht).1
  have hsame : (if (tag.getD []).isEmpty = true then none else some (tag.getD [])) = tag := by
    cases tag with
    | none => rfl
    | some t => simp [htag t rfl]
  cases polarity with
  | positive =>
    have hplus : Text.stripPrefix ['+'] (Relation.inner ⟨.positive, tag⟩) =
        some (tag.getD []) := Text.stripPrefix_append ['+'] _
    have hpolarity : (Polarity.positive == .neutral) = false := rfl
    simp only [hplus, hpolarity, Bool.and_false, Bool.false_eq_true, if_false, hsame]
  | negative =>
    have hplus : Text.stripPrefix ['+'] (Relation.inner ⟨.negative, tag⟩) = none :=
      stripPrefix_cons_ne (by decide) _ _
    have hminus : Text.stripPrefix ['-'] (Relation.inner ⟨.negative, tag⟩) =
        some (tag.getD []) := Text.stripPrefix_append ['-'] _
    have hpolarity : (Polarity.negative == .neutral) = false := rfl
    simp only [hplus, hminus, hpolarity, Bool.and_false, Bool.false_eq_true, if_false, hsame]
  | neutral =>
    obtain ⟨c, t, ht, hc, hc'⟩ := h.neutral rfl
    obtain rfl : tag = some (c :: t) := ht
    have hplus : Text.stripPrefix ['+'] (Relation.inner ⟨.neutral, some (c :: t)⟩) = none :=
      stripPrefix_cons_ne hc.symm _ _
    have hminus : Text.stripPrefix ['-'] (Relation.inner ⟨.neutral, some (c :: t)⟩) = none :=
      stripPrefix_cons_ne hc'.symm _ _
    simp only [hplus, hminus]
    rfl

theorem trim_label {label : Text} (h : Text.trim label = label) (r : Relation) :
    ∃ before, Text.trim (label ++ ' ' :: r.text) = before ++ r.text ∧
      Text.trimEnd before = label := by
  have hend (t : Text) : Text.trimEnd (t ++ r.text) = t ++ r.text := by
    have hassoc : t ++ r.text = (t ++ '[' :: r.inner) ++ [']'] := by simp [Relation.text]
    rw [hassoc, Text.trimEnd, Text.trimEndMatches_concat_of_neg (by decide)]
  have htrimmed := Text.trim_eq_self_iff.mp h
  by_cases hnil : label = []
  · subst hnil
    refine ⟨[], ?_, rfl⟩
    have hstart : Text.trimStart r.text = r.text := Text.trimStart_eq_self_iff.mpr (by
      intro c hc
      obtain rfl : '[' = c := by simpa [Relation.text] using hc
      decide)
    rw [List.nil_append, List.nil_append, Text.trim_space, Text.trim, hstart]
    exact hend []
  · refine ⟨label ++ [' '], ?_, ?_⟩
    · have hstart := Text.trimStart_append_eq_self hnil
        (Text.trimStart_eq_self_iff.mpr htrimmed.1) (' ' :: r.text)
      have hassoc : label ++ ' ' :: r.text = (label ++ [' ']) ++ r.text := by simp
      rw [Text.trim, hstart, hassoc, hend]
    · rw [Text.trimEnd, Text.trimEndMatches_concat_of_pos (by decide)]
      exact Text.trimEndMatches_eq_self_iff.mpr htrimmed.2

theorem isDigit_of_isAlpha {c : Char} (h : c.isAlpha = true) : c.isDigit = false := by
  have hascii : ∀ n < 58, 48 ≤ n → (Char.ofNat n).isAlpha = false := by decide
  cases hdigit : c.isDigit with
  | false => rfl
  | true =>
    obtain ⟨hzero, hnine⟩ := Char.isDigit_iff_toNat.mp hdigit
    have hletter := hascii c.toNat (Nat.lt_succ_of_le hnine) hzero
    rw [Char.ofNat_toNat, h] at hletter
    cases hletter

theorem splitOrdinal_marker {marker text : Text} (hmarker : IsMarker marker)
    (htext : Text.trimStart text = text) :
    splitOrdinal (marker ++ ' ' :: text) = (some marker, text) := by
  have hspace : Text.trimStart (' ' :: text) = text := by
    rw [Text.trimStart_space, htext]
  cases hmarker with
  | @digits ds hne hdigits =>
    have htake : ((ds ++ ['.'] ++ ' ' :: text).takeWhile Char.isDigit) = ds := by
      rw [List.append_assoc, List.takeWhile_append_of_pos hdigits, List.singleton_append,
        List.takeWhile_cons_of_neg (by decide), List.append_nil]
    have hpos : 0 < ds.length := List.length_pos_of_ne_nil hne
    have hdrop : (ds ++ ['.'] ++ ' ' :: text).drop ds.length = '.' :: ' ' :: text := by simp
    have hdrop' : (ds ++ ['.'] ++ ' ' :: text).drop (ds.length + 1) = ' ' :: text := by
      rw [← List.drop_drop, hdrop]
      rfl
    have htake' : (ds ++ ['.'] ++ ' ' :: text).take (ds.length + 1) = ds ++ ['.'] := by
      exact List.take_left' (by simp)
    unfold splitOrdinal
    simp only [htake, hpos, if_true, decide_true, hdrop, hdrop', htake', hspace]
    simp
  | @letter c hletter =>
    have hdigit := isDigit_of_isAlpha hletter
    have htake : ([c, '.'] ++ ' ' :: text).takeWhile Char.isDigit = [] :=
      List.takeWhile_cons_of_neg (by simp [hdigit])
    unfold splitOrdinal
    simp only [htake]
    simp [hletter, hspace]

theorem parseLine_backslash {t : Text} (h : isEscapable t = true) :
    parseLine ('\\' :: t) = .text t := by
  have hstrip : Text.stripPrefix ['\\'] ('\\' :: t) = some t := Text.stripPrefix_append ['\\'] t
  unfold parseLine
  have hspace : Text.isWhitespace '\\' = false := rfl
  simp [trim_ne_nil hspace, hstrip, h]

/-- A text that is not escapable is read as it stands. -/
theorem parseLine_text {t : Text} (hne : Text.trim t ≠ [])
    (hbackslash : ∀ rest, t = '\\' :: rest → isEscapable rest = false)
    (h : isEscapable t = false) : parseLine t = .text t := by
  have hplain : ¬ isEscapable t = true := by simp [h]
  rw [isEscapable_iff] at hplain
  simp only [not_or] at hplain
  obtain ⟨hstars, hhashes, hquote, hlink, hinput, -, hbreak⟩ := hplain
  unfold parseLine
  rw [if_neg (mt List.isEmpty_iff.mp hne)]
  cases hstrip : Text.stripPrefix ['\\'] t with
  | some rest =>
    have hrest := hbackslash rest (Text.stripPrefix_eq_some_iff.mp hstrip)
    simp [hrest]
  | none =>
    have hlink' : Text.stripPrefix "=>".toList t = none := if_neg hlink
    have hinput' : Text.stripPrefix "=:".toList t = none := if_neg hinput
    simp only [if_neg hbreak, if_neg hquote, hlink', hinput']
    split
    · next hhash =>
      have hlevel : ¬ markCount '#' t ≤ 5 := fun hle => hhashes ⟨markCount_pos hhash, hle⟩
      rw [if_neg hlevel]
    · rw [if_neg (by simpa using hstars)]

theorem not_fence_cons {c : Char} (hc : '`' ≠ c) (t : Text) : ¬fence <+: c :: t :=
  fun hp => hc (List.cons_prefix_cons.mp hp).1

theorem not_fence_run {mark : Char} (hmark : IsMark mark) {n : Nat} (hn : 1 ≤ n) (t : Text) :
    ¬fence <+: List.replicate n mark ++ ' ' :: t := by
  obtain ⟨u, hu, -⟩ := run_cons hmark hn t
  rw [hu]
  exact not_fence_cons hmark.fence u

theorem read_codeBlock {tag : Option Text} {lines : List Text}
    (htag : ∀ t, tag = some t → t.IsTrimmed ∧ t ≠ [])
    (hlines : ∀ line ∈ lines, '\n' ∉ line ∧ ¬fence <+: line) :
    blocks.Closed (ScrollLine.codeBlock tag lines).lines ∧
      blocks.read (ScrollLine.codeBlock tag lines).lines = [.codeBlock tag lines] := by
  have hopening : blocks.fence (fence ++ tag.getD []) = true :=
    decide_eq_true (show fence <+: fence ++ tag.getD [] from List.prefix_append _ _)
  have hclosing : blocks.fence fence = true :=
    decide_eq_true (show fence <+: fence from List.prefix_rfl)
  have hinside : ∀ line ∈ lines, blocks.fence line = false := fun line hline =>
    decide_eq_false (hlines line hline).2
  have hopens : blocks.opens (fence ++ tag.getD []) = (tag, []) := by
    simp [blocks, fenceTag_getD htag]
  rw [ScrollLine.lines]
  refine ⟨blocks.closed_block hopening hinside hclosing, ?_⟩
  rw [blocks.read_block hopening hinside hclosing, hopens, add_codeBlock]
  rfl

/-- What was written of a line in normal form is read as that. -/
theorem read_lines {l : ScrollLine} (h : l.Normal) :
    blocks.Closed l.lines ∧ blocks.read l.lines = [l] := by
  have hsingle {line : Text} (hfence : ¬fence <+: line) {l : ScrollLine}
      (hline : parseLine line = l) : blocks.Closed [line] ∧ blocks.read [line] = [l] := by
    have hfalse : blocks.fence line = false := decide_eq_false hfence
    exact ⟨blocks.closed_line hfalse,
      (blocks.read_line hfalse).trans (congrArg (fun l => [l]) hline)⟩
  have hlink (t : Text) : ¬fence <+: '=' :: t := not_fence_cons (isMark '=' (by simp)).fence t
  cases h with
  | @heading level text hlevel htext =>
    exact hsingle (not_fence_run (isMark '#' (by simp)) hlevel.1 _)
      (parseLine_heading hlevel htext.1)
  | @text text hne hlf hbackslash =>
    cases hescapable : isEscapable text with
    | true =>
      have hlines : (ScrollLine.text text).lines = ['\\' :: text] := by
        simp [ScrollLine.lines, hescapable]
      rw [hlines]
      exact hsingle (not_fence_backslash text) (parseLine_backslash hescapable)
    | false =>
      have hlines : (ScrollLine.text text).lines = [text] := by
        simp [ScrollLine.lines, hescapable]
      have hfence : ¬fence <+: text := by
        intro hfence
        rw [isEscapable_iff.mpr (.inr (.inr (.inr (.inr (.inr (.inl hfence))))))] at hescapable
        cases hescapable
      rw [hlines]
      exact hsingle hfence (parseLine_text hne hbackslash hescapable)
  | blank => exact hsingle (by simp [fence]) rfl
  | @quote depth text hdepth htext =>
    exact hsingle (not_fence_run (isMark '>' (by simp)) hdepth.1 _)
      (parseLine_quote hdepth htext.1)
  | @item depth text hdepth hlf htext =>
    refine hsingle (not_fence_run (isMark '*' (by simp)) hdepth.1 _)
      ((parseLine_listItem hdepth _).trans ?_)
    rw [Option.elim_none, htext]
  | @marked depth marker text hdepth hmarker htext =>
    refine hsingle (not_fence_run (isMark '*' (by simp)) hdepth.1 _)
      ((parseLine_listItem hdepth _).trans ?_)
    rw [Option.elim_some, splitOrdinal_marker hmarker htext.1]
  | bareLink => exact hsingle (hlink _) (parseLine_link _)
  | @link url label hurl hlabel hrelation =>
    refine hsingle (hlink _) ((parseLine_link (' ' :: url ++ ' ' :: label)).trans ?_)
    rw [splitLink_word hurl, hlabel.1, hrelation]
  | @related url label relation hurl hlabel hrelation =>
    refine hsingle (hlink _)
      ((parseLine_link (' ' :: url ++ ' ' :: (label ++ ' ' :: relation.text))).trans ?_)
    obtain ⟨before, htrim, hbefore⟩ := trim_label hlabel.1 relation
    rw [splitLink_word hurl, htrim, splitRelation_inner hrelation, hbefore]
  | bareInputLink => exact hsingle (hlink _) (parseLine_inputLink _)
  | @inputLink url prompt hurl hprompt =>
    refine hsingle (hlink _)
      ((parseLine_inputLink (' ' :: url ++ ' ' :: prompt)).trans ?_)
    rw [splitLink_word hurl, hprompt.1]
  | thematicBreak => exact hsingle (by simp [fence]) rfl
  | codeBlock htag hlines => exact read_codeBlock htag hlines

theorem lf_not_mem_marker {marker : Text} (h : IsMarker marker) : '\n' ∉ marker := by
  cases h with
  | digits hne hdigits =>
    intro hm
    rcases List.mem_append.mp hm with hm | hm
    · exact absurd (hdigits _ hm) (by decide)
    · cases List.mem_singleton.mp hm
  | letter hletter =>
    intro hm
    rcases List.mem_cons.mp hm with rfl | hm
    · exact absurd hletter (by decide)
    · cases List.mem_singleton.mp hm

theorem Relation.Normal.lf_not_mem_text {r : Relation} (h : r.Normal) : '\n' ∉ r.text := by
  have hpolarity : '\n' ∉ r.polarity.text := by cases r.polarity <;> decide
  have htag : '\n' ∉ r.tag.getD [] := by
    cases ht : r.tag with
    | none => simp
    | some t => exact (h.tag t ht).2.2
  simp [Relation.text, Relation.inner, hpolarity, htag]

theorem lf_not_mem_lines {l : ScrollLine} (h : l.Normal) : ∀ line ∈ l.lines, '\n' ∉ line := by
  have hfence : '\n' ∉ fence := by decide
  have hrun {mark : Char} (hmark : IsMark mark) (n : Nat) {t : Text} (ht : '\n' ∉ t) :
      ∀ line ∈ [List.replicate n mark ++ ' ' :: t], '\n' ∉ line := by
    intro line hline
    obtain rfl := List.mem_singleton.mp hline
    simp [ht, hmark.lf]
  cases h with
  | heading hlevel htext => exact hrun (isMark '#' (by simp)) _ htext.2
  | @text text hne hlf hbackslash =>
    intro line hline
    obtain rfl := List.mem_singleton.mp hline
    split <;> simp [hlf]
  | blank => simp [ScrollLine.lines]
  | quote hdepth htext => exact hrun (isMark '>' (by simp)) _ htext.2
  | item hdepth hlf htext => exact hrun (isMark '*' (by simp)) _ hlf
  | marked hdepth hmarker htext =>
    exact hrun (isMark '*' (by simp)) _ (by simp [lf_not_mem_marker hmarker, htext.2])
  | bareLink => simp [ScrollLine.lines]
  | link hurl hlabel hrelation => simp [ScrollLine.lines, hurl.lf_not_mem, hlabel.2]
  | related hurl hlabel hrelation =>
    simp [ScrollLine.lines, hurl.lf_not_mem, hlabel.2, hrelation.lf_not_mem_text]
  | bareInputLink => simp [ScrollLine.lines]
  | inputLink hurl hprompt => simp [ScrollLine.lines, hurl.lf_not_mem, hprompt.2]
  | thematicBreak => simp [ScrollLine.lines]
  | @codeBlock tag lines htag hlines =>
    intro line hline
    rcases List.mem_cons.mp hline with rfl | hline
    · cases tag with
      | none => simpa using hfence
      | some t => simp [hfence, (htag t rfl).1.2]
    · rcases List.mem_append.mp hline with hline | hline
      · exact (hlines line hline).1
      · obtain rfl := List.mem_singleton.mp hline
        exact hfence

theorem parse_write {doc : List ScrollLine} (h : ∀ l ∈ doc, l.Normal) :
    parse (write doc) = doc := by
  rw [parse_eq, write]
  exact read_writeLines blocks (fun l hl => lf_not_mem_lines (h l hl))
    fun l hl => read_lines (h l hl)

/-! ## What is read -/

theorem isRest_trimStart {t : Text} (h : '\n' ∉ t) : IsRest (Text.trimStart t) :=
  ⟨Text.trimStart_eq_self_iff.mpr fun _ hc => Text.head_trimStart hc,
    fun hm => h ((Text.trimStart_suffix t).subset hm)⟩

/-- A link's target is a word, unless there is nothing at all. -/
theorem splitLink_normal {rest : Text} (hlf : '\n' ∉ rest) :
    splitLink rest = ([], []) ∨
      ((splitLink rest).1.IsWord ∧ (splitLink rest).2.IsTrimmed) := by
  obtain ⟨htrim, hlf⟩ := isRest_trimStart hlf
  unfold splitLink
  generalize Text.trimStart rest = t at htrim hlf
  dsimp only
  cases hsplit : Text.splitOnceWhere Text.isWhitespace t with
  | none =>
    have hnone := Text.splitOnceWhere_eq_none_iff.mp hsplit
    by_cases hnil : t = []
    · exact .inl (by rw [hnil])
    · exact .inr ⟨⟨hnil, hnone⟩, rfl, List.not_mem_nil⟩
  | some p =>
    obtain ⟨url, label⟩ := p
    obtain ⟨⟨c, rfl, hc⟩, hurl⟩ := Text.splitOnceWhere_eq_some hsplit
    refine .inr ⟨⟨?_, hurl⟩, Text.isTrimmed_trim fun hm => hlf (by simp [hm])⟩
    rintro rfl
    rw [Text.trimStart_eq_self_iff.mp htrim c rfl] at hc
    cases hc

/-- A trimmed label that ends in brackets: what stands before them, and what they say. -/
theorem normal_of_brackets {label before inner tag : Text} {polarity : Polarity}
    (h : label.IsTrimmed) (hlabel : label = before ++ '[' :: (inner ++ [']']))
    (hbracket : '[' ∉ inner) (htag : tag ⊆ inner) (hne : polarity = .neutral → tag ≠ [])
    (hneutral : polarity = .neutral → ∀ c t, tag = c :: t → c ≠ '+' ∧ c ≠ '-') :
    Relation.Normal ⟨polarity, if tag.isEmpty then none else some tag⟩ ∧
      (Text.trimEnd before).IsTrimmed := by
  obtain ⟨htrim, hlf⟩ := h
  subst hlabel
  have hbefore : Text.trimEnd before <+: before := Text.trimEndMatches_initial _ before
  refine ⟨⟨fun t ht => ?_, fun hpolarity => ?_⟩, ?_, fun hm => hlf ?_⟩
  · dsimp only at ht
    split at ht
    · cases ht
    · next hnil =>
      obtain rfl := Option.some.inj ht
      exact ⟨by simpa using hnil, fun hm => hbracket (htag hm), fun hm => hlf (by simp [htag hm])⟩
  · obtain ⟨c, t, rfl⟩ := List.exists_cons_of_ne_nil (hne hpolarity)
    exact ⟨c, t, rfl, hneutral hpolarity c t rfl⟩
  · rw [Text.trim_eq_self_iff] at htrim ⊢
    refine ⟨fun c hc => htrim.1 c ?_, fun c hc => ?_⟩
    · obtain ⟨u, hu⟩ := hbefore
      rw [← hu, List.append_assoc, List.head?_append, hc, Option.some_or]
    · have hidempotent : Text.trimEnd (Text.trimEnd before) = Text.trimEnd before :=
        List.rdropWhile_idempotent ..
      exact Text.trimEndMatches_eq_self_iff.mp hidempotent c hc
  · exact List.mem_append_left _ (hbefore.subset hm)

theorem splitRelation_normal {label : Text} (h : label.IsTrimmed) :
    splitRelation label = (label, none) ∨ ∃ text relation,
      splitRelation label = (text, some relation) ∧ text.IsTrimmed ∧ relation.Normal := by
  have hend : Text.trimEnd label = label :=
    Text.trimEndMatches_eq_self_iff.mpr (Text.trim_eq_self_iff.mp h.1).2
  unfold splitRelation
  simp only [hend]
  cases hsplit : Text.rsplitOnce '[' label with
  | none => exact .inl rfl
  | some p =>
    obtain ⟨before, bracketed⟩ := p
    obtain ⟨hlabel, hbracket⟩ := Text.rsplitOnce_eq_some hsplit
    dsimp only
    cases hstrip : Text.stripSuffix [']'] bracketed with
    | none => exact .inl rfl
    | some inner =>
      obtain rfl := Text.eq_append_of_stripSuffix hstrip
      have hinner : '[' ∉ inner := fun hm => hbracket (List.mem_append_left _ hm)
      have hsubset {mark tag : Text} (htag : Text.stripPrefix mark inner = some tag) :
          tag ⊆ inner := by
        rw [Text.stripPrefix_eq_some_iff.mp htag]
        exact List.subset_append_right _ _
      dsimp only
      cases hplus : Text.stripPrefix ['+'] inner with
      | some tag =>
        have hnormal : Relation.Normal ⟨.positive, _⟩ ∧ _ :=
          normal_of_brackets h hlabel hinner (hsubset hplus) (by simp) (by simp)
        dsimp only
        exact .inr ⟨_, _, if_neg (by simp), hnormal.2, hnormal.1⟩
      | none =>
        cases hminus : Text.stripPrefix ['-'] inner with
        | some tag =>
          have hnormal : Relation.Normal ⟨.negative, _⟩ ∧ _ :=
            normal_of_brackets h hlabel hinner (hsubset hminus) (by simp) (by simp)
          dsimp only
          exact .inr ⟨_, _, if_neg (by simp), hnormal.2, hnormal.1⟩
        | none =>
          by_cases hnil : inner = []
          · subst hnil
            exact .inl rfl
          · have hsign {mark : Char} (hmark : Text.stripPrefix [mark] inner = none) {c : Char}
                {t : Text} (ht : inner = c :: t) : c ≠ mark := by
              rintro rfl
              exact Text.not_prefix_of_stripPrefix hmark ⟨t, ht.symm⟩
            have hnormal : Relation.Normal ⟨.neutral, _⟩ ∧ _ :=
              normal_of_brackets h hlabel hinner (List.Subset.refl inner) (fun _ => hnil)
                fun _ c t ht => ⟨hsign hplus ht, hsign hminus ht⟩
            dsimp only
            exact .inr ⟨_, _, if_neg (by simp [hnil]), hnormal.2, hnormal.1⟩

theorem splitOrdinal_normal {text : Text} (hlf : '\n' ∉ text) :
    splitOrdinal text = (none, text) ∨ ∃ marker rest,
      splitOrdinal text = (some marker, rest) ∧ IsMarker marker ∧ IsRest rest := by
  have hrest (n : Nat) : IsRest (Text.trimStart (text.drop n)) :=
    isRest_trimStart fun hm => hlf (List.mem_of_mem_drop hm)
  obtain ⟨ds, rest, htext, htake, hdigits⟩ : ∃ ds rest, text = ds ++ rest ∧
      text.takeWhile Char.isDigit = ds ∧ ∀ c ∈ ds, c.isDigit = true :=
    ⟨_, _, List.takeWhile_append_dropWhile.symm, rfl, fun c hc => List.mem_takeWhile_imp hc⟩
  unfold splitOrdinal
  simp only [htake]
  by_cases hpos : 0 < ds.length
  · simp only [if_pos hpos]
    split
    · next hdot =>
      simp only [Bool.and_eq_true, decide_eq_true_eq] at hdot
      obtain ⟨-, more, hmore⟩ := hdot
      rw [htext, List.drop_left] at hmore
      have hmarker : text.take (ds.length + 1) = ds ++ ['.'] := by
        rw [htext, ← hmore, ← List.append_assoc]
        exact List.take_left' (by simp)
      exact .inr ⟨_, _, rfl, hmarker ▸ .digits (List.ne_nil_of_length_pos hpos) hdigits,
        hrest _⟩
    · exact .inl rfl
  · simp only [if_neg hpos]
    clear htext htake
    cases text with
    | nil => exact .inl rfl
    | cons c t =>
      cases hletter : c.isAlpha with
      | false => exact .inl (by simp [hletter])
      | true =>
        by_cases hdot : ['.'] <+: t
        · obtain ⟨more, rfl⟩ := hdot
          exact .inr ⟨[c, '.'], Text.trimStart more, by simp [hletter], .letter hletter, hrest 2⟩
        · exact .inl (by simp [hletter, hdot])

/-- What is escapable begins with a mark. -/
theorem head_of_isEscapable {t : Text} (h : isEscapable t = true) :
    ∃ c u, t = c :: u ∧ Text.isWhitespace c = false ∧ c ≠ '\\' := by
  have hcount {mark : Char} (hmark : 1 ≤ markCount mark t) : ∃ u, t = mark :: u := by
    cases t with
    | nil => cases hmark
    | cons c u =>
      by_cases hc : c = mark
      · exact ⟨u, by rw [hc]⟩
      · simp [markCount, hc] at hmark
  rcases isEscapable_iff.mp h with
    ⟨hstars, -⟩ | ⟨hhashes, -⟩ | ⟨u, rfl⟩ | ⟨u, rfl⟩ | ⟨u, rfl⟩ | ⟨u, rfl⟩ | rfl
  · obtain ⟨u, rfl⟩ := hcount hstars
    exact ⟨'*', u, rfl, rfl, by decide⟩
  · obtain ⟨u, rfl⟩ := hcount hhashes
    exact ⟨'#', u, rfl, rfl, by decide⟩
  · exact ⟨'>', u, rfl, rfl, by decide⟩
  · exact ⟨'=', '>' :: u, rfl, rfl, by decide⟩
  · exact ⟨'=', ':' :: u, rfl, rfl, by decide⟩
  · exact ⟨'`', '`' :: '`' :: u, rfl, rfl, by decide⟩
  · exact ⟨'-', ['-', '-'], rfl, rfl, by decide⟩

theorem normal_of_isEscapable {rest : Text} (h : isEscapable rest = true) (hlf : '\n' ∉ rest) :
    (ScrollLine.text rest).Normal := by
  obtain ⟨c, u, rfl, hspace, hbackslash⟩ := head_of_isEscapable h
  refine .text (fun hnil => ?_) hlf fun rest' heq => absurd (List.cons.inj heq).1 hbackslash
  have hne := trim_ne_nil hspace u
  rw [hnil] at hne
  cases hne

theorem normal_link {rest : Text} (hlf : '\n' ∉ rest) :
    (ScrollLine.link (splitLink rest).1 (splitRelation (splitLink rest).2).1
      (splitRelation (splitLink rest).2).2).Normal := by
  rcases splitLink_normal hlf with hnil | ⟨hurl, hlabel⟩
  · rw [hnil]
    exact .bareLink
  · rcases splitRelation_normal hlabel with hnone | ⟨text, relation, hsome, htext, hrelation⟩
    · rw [hnone]
      exact .link hurl hlabel hnone
    · rw [hsome]
      exact .related hurl htext hrelation

theorem normal_inputLink {rest : Text} (hlf : '\n' ∉ rest) :
    (ScrollLine.inputLink (splitLink rest).1 (splitLink rest).2).Normal := by
  rcases splitLink_normal hlf with hnil | ⟨hurl, hprompt⟩
  · rw [hnil]
    exact .bareInputLink
  · exact .inputLink hurl hprompt

theorem normal_listItem {depth : Nat} (hdepth : 1 ≤ depth ∧ depth ≤ 4) {text : Text}
    (hlf : '\n' ∉ text) :
    (ScrollLine.listItem depth (splitOrdinal text).1 (splitOrdinal text).2).Normal := by
  rcases splitOrdinal_normal hlf with hnone | ⟨marker, rest, hsome, hmarker, hrest⟩
  · rw [hnone]
    exact .item hdepth hlf hnone
  · rw [hsome]
    exact .marked hdepth hmarker hrest

/-- **A line** is read as one in normal form, whatever it is. -/
theorem normal_parseLine {raw : Text} (hlf : '\n' ∉ raw) : (parseLine raw).Normal := by
  have hdrop (n : Nat) : '\n' ∉ raw.drop n := fun hm => hlf (List.mem_of_mem_drop hm)
  have hrest {mark rest : Text} (h : Text.stripPrefix mark raw = some rest) : '\n' ∉ rest := by
    rw [Text.stripPrefix_eq_some_iff.mp h] at hlf
    exact fun hm => hlf (List.mem_append_right mark hm)
  unfold parseLine
  split
  · exact .blank
  next hblank =>
  have hne : Text.trim raw ≠ [] := fun hnil => hblank (List.isEmpty_iff.mpr hnil)
  split
  · next rest hstrip =>
    split
    · next hescapable => exact normal_of_isEscapable hescapable (hrest hstrip)
    · next hescapable =>
      refine .text hne hlf fun rest' heq => ?_
      rw [heq, show Text.stripPrefix ['\\'] ('\\' :: rest') = some rest' from
        Text.stripPrefix_append ['\\'] rest'] at hstrip
      rw [Option.some.inj hstrip]
      simpa using hescapable
  next hstrip =>
  have htext : (ScrollLine.text raw).Normal := by
    refine .text hne hlf fun rest heq => ?_
    rw [heq, show Text.stripPrefix ['\\'] ('\\' :: rest) = some rest from
      Text.stripPrefix_append ['\\'] rest] at hstrip
    cases hstrip
  split
  · exact .thematicBreak
  split
  · next hhash =>
    dsimp only
    split
    · next hlevel => exact .heading ⟨markCount_pos hhash, hlevel⟩ (isRest_trimStart (hdrop _))
    · exact htext
  split
  · next hquote =>
    have hdepth := markCount_pos hquote
    exact .quote ⟨by omega, by omega⟩ (isRest_trimStart (hdrop _))
  split
  · next hlink => exact normal_link (hrest hlink)
  split
  · next hinput => exact normal_inputLink (hrest hinput)
  dsimp only
  split
  · next hstars =>
    have hstars : 1 ≤ markCount '*' raw ∧ markCount '*' raw ≤ 4 := by simpa using hstars
    split
    · next c text heq =>
      split
      · have htext : '\n' ∉ text := fun hm => hdrop _ (heq ▸ List.mem_cons_of_mem c hm)
        exact normal_listItem hstars htext
      · exact htext
    · exact htext
  · exact htext

/-- What can be in a code block that is open. -/
def Collected (block : Option Text × List Text) : Prop :=
  (∀ t, block.1 = some t → t.IsTrimmed ∧ t ≠ []) ∧
    ∀ line ∈ block.2, '\n' ∉ line ∧ ¬fence <+: line

theorem normal_of_parse (t : Text) : ∀ l ∈ parse t, l.Normal := by
  rw [parse_eq]
  refine blocks.forall_read (Q := Collected) ?_ ?_ ?_ ?_
  · intro line hline _
    have hlf : '\n' ∉ line.drop fence.length := fun hm =>
      Text.lf_not_mem_of_mem_lines hline (List.mem_of_mem_drop hm)
    exact ⟨isTrimmed_of_fenceTag hlf, by simp [blocks]⟩
  · rintro line hline hfence ⟨tag, collected⟩ ⟨htag, hlines⟩
    refine ⟨htag, fun l hl => ?_⟩
    rcases List.mem_append.mp hl with hl | hl
    · exact hlines l hl
    · obtain rfl := List.mem_singleton.mp hl
      exact ⟨Text.lf_not_mem_of_mem_lines hline, of_decide_eq_false hfence⟩
  · rintro ⟨tag, collected⟩ ⟨htag, hlines⟩
    exact .codeBlock htag hlines
  · intro line hline _ l hl
    obtain rfl := List.mem_singleton.mp hl
    exact normal_parseLine (Text.lf_not_mem_of_mem_lines hline)

/-- **A document is read of what is written of it** exactly if all its lines are in normal form,
which all lines are that are read of any text. -/
theorem scrolltext_read_iff :
    (∀ doc, parse (write doc) = doc ↔ ∀ l ∈ doc, l.Normal) ∧ ∀ t, ∀ l ∈ parse t, l.Normal := by
  refine ⟨fun doc => ⟨fun h => ?_, parse_write⟩, normal_of_parse⟩
  rw [← h]
  exact normal_of_parse (write doc)

end Smolweb.Scroll
