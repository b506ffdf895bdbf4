import Smolweb.Gopher.Attributes
import Smolweb.Lib.Lenient

/-!
# Attribute blocks, written and read

The three parsers of Gopher+ attributes take more than the format allows, and make normal forms of
it: blocks (`blocks_read_iff`), and in two of them views (`views_read_iff`) and questions
(`asks_read_iff`). A value is what is read of it exactly if it is in normal form.
-/

namespace Smolweb.Gopher

/-! ## Blocks -/

structure AttributeBlock.Normal (b : AttributeBlock) : Prop where
  name : Text.IsTrimmed b.name
  colon : ':' ∉ b.name
  head : ∀ h, b.head = some h → Text.IsTrimmed h ∧ h ≠ []
  lines : ∀ line ∈ b.lines, '\n' ∉ line

/-- The lines of a block as a server writes them. -/
def AttributeBlock.text (b : AttributeBlock) : List Text :=
  ('+' :: b.name ++ ':' :: b.head.elim [] (' ' :: ·)) :: b.lines.map (' ' :: ·)

theorem openBlock_text {name : Text} {head : Option Text} (hname : Text.trim name = name)
    (hcolon : ':' ∉ name) (hhead : ∀ h, head = some h → Text.trim h = h ∧ h ≠ []) :
    openBlock (name ++ ':' :: head.elim [] (' ' :: ·)) = ⟨name, head, []⟩ := by
  unfold openBlock
  simp only [Text.splitOnce_append hcolon, hname]
  cases head with
  | none => rfl
  | some h =>
    obtain ⟨htrim, hne⟩ := hhead h rfl
    rw [Option.elim_some, Text.trim_cons (by decide), htrim, if_neg (by simpa using hne)]

theorem pushLine_space (blocks : List AttributeBlock) (block : AttributeBlock) (content : Text) :
    pushLine (blocks ++ [block]) (' ' :: content) =
      blocks ++ [{ block with lines := block.lines ++ [content] }] := by
  have hplus : Text.stripPrefix ['+'] (' ' :: content) = none :=
    if_neg fun h => absurd (List.cons_prefix_cons.mp h).1 (by decide)
  have hspace : Text.stripPrefix [' '] (' ' :: content) = some content :=
    Text.stripPrefix_append [' '] content
  simp only [pushLine, hplus, hspace, List.getLast?_concat, List.dropLast_concat]

theorem foldl_pushLine_spaces (blocks : List AttributeBlock) (block : AttributeBlock)
    (contents : List Text) : (contents.map (' ' :: ·)).foldl pushLine (blocks ++ [block]) =
      blocks ++ [{ block with lines := block.lines ++ contents }] := by
  induction contents generalizing block with
  | nil => simp
  | cons content contents ih =>
    rw [List.map_cons, List.foldl_cons, pushLine_space, ih]
    simp

theorem foldl_pushLine_text {block : AttributeBlock} (h : block.Normal)
    (blocks : List AttributeBlock) : block.text.foldl pushLine blocks = blocks ++ [block] := by
  have hopen := openBlock_text h.name.1 h.colon fun head hhead =>
    ⟨(h.head head hhead).1.1, (h.head head hhead).2⟩
  have hpush : pushLine blocks ('+' :: block.name ++ ':' :: block.head.elim [] (' ' :: ·)) =
      blocks ++ [⟨block.name, block.head, []⟩] := by
    have hplus : Text.stripPrefix ['+']
        ('+' :: block.name ++ ':' :: block.head.elim [] (' ' :: ·)) =
          some (block.name ++ ':' :: block.head.elim [] (' ' :: ·)) :=
      Text.stripPrefix_append ['+'] _
    simp only [pushLine, hplus, hopen]
  rw [AttributeBlock.text, List.foldl_cons, hpush, foldl_pushLine_spaces, List.nil_append]

/-- Attributes as a server sends them: the blocks and a `.`, and whatever comes after it. -/
def writeAttributes (blocks : List AttributeBlock) (rest : Text) : Text :=
  Text.writeLines (blocks.flatMap AttributeBlock.text) ++ ('.' :: '\r' :: '\n' :: rest)

theorem parseAttributes_writeAttributes {blocks : List AttributeBlock}
    (h : ∀ block ∈ blocks, block.Normal) (rest : Text) :
    parseAttributes (writeAttributes blocks rest) = blocks := by
  have hlines : ∀ line ∈ blocks.flatMap AttributeBlock.text, '\n' ∉ line ∧ line ≠ ['.'] := by
    intro line hline
    obtain ⟨block, hblock, hmem⟩ := List.mem_flatMap.mp hline
    obtain ⟨⟨-, hname⟩, -, hhead, hlines⟩ := h block hblock
    rcases List.mem_cons.mp hmem with rfl | hmem
    · refine ⟨?_, by simp⟩
      cases hb : block.head with
      | none => simp [hname]
      | some head => simp [hname, (hhead head hb).1.2]
    · obtain ⟨content, hcontent, rfl⟩ := List.mem_map.mp hmem
      exact ⟨by simp [hlines content hcontent], by simp⟩
  have hend : Text.lines ('.' :: '\r' :: '\n' :: rest) = ['.'] :: Text.lines rest :=
    Text.lines_append_lf (a := ['.', '\r']) (by decide) rest
  have hfold (acc : List AttributeBlock) :
      (blocks.flatMap AttributeBlock.text).foldl pushLine acc = acc ++ blocks := by
    clear hlines hend
    induction blocks generalizing acc with
    | nil => simp
    | cons block blocks ih =>
      obtain ⟨hblock, hblocks⟩ := List.forall_mem_cons.mp h
      rw [List.flatMap_cons, List.foldl_append, foldl_pushLine_text hblock, ih hblocks]
      simp
  rw [parseAttributes, writeAttributes,
    Text.lines_writeLines fun line hline => (hlines line hline).1, hend,
    List.takeWhile_append_of_pos (by simpa using fun line hline => (hlines line hline).2),
    List.takeWhile_cons_of_neg (by simp), List.append_nil, hfold, List.nil_append]

theorem normal_openBlock {rest : Text} (h : '\n' ∉ rest) : (openBlock rest).Normal := by
  unfold openBlock
  cases hsplit : Text.splitOnce ':' rest with
  | none =>
    have hcolon := Text.splitOnce_eq_none_iff.mp hsplit
    exact ⟨Text.isTrimmed_trim h, fun hm => hcolon (Text.mem_of_mem_trim hm), by simp, by simp⟩
  | some p =>
    obtain ⟨name, head⟩ := p
    obtain ⟨rfl, hcolon⟩ := Text.splitOnce_eq_some_iff.mp hsplit
    rw [List.mem_append, List.mem_cons, not_or, not_or] at h
    obtain ⟨hname, -, hhead⟩ := h
    refine ⟨Text.isTrimmed_trim hname, fun hm => hcolon (Text.mem_of_mem_trim hm), ?_, by simp⟩
    intro head' heq
    simp only at heq
    split at heq
    · cases heq
    · next hne =>
      cases heq
      exact ⟨Text.isTrimmed_trim hhead, by simpa using hne⟩

/-- **Every block that is read is in normal form.** -/
theorem normal_pushLine {blocks : List AttributeBlock} (h : ∀ block ∈ blocks, block.Normal)
    {line : Text} (hline : '\n' ∉ line) : ∀ block ∈ pushLine blocks line, block.Normal := by
  unfold pushLine
  split
  · next rest hplus =>
    rw [Text.stripPrefix_eq_some_iff.mp hplus] at hline
    have hrest := normal_openBlock fun hm => hline (List.mem_append_right _ hm)
    intro block hblock
    rcases List.mem_append.mp hblock with hblock | hblock
    · exact h block hblock
    · rwa [List.mem_singleton.mp hblock]
  · split
    · next content last hspace hlast =>
      rw [Text.stripPrefix_eq_some_iff.mp hspace] at hline
      have hcontent : '\n' ∉ content := fun hm => hline (List.mem_append_right _ hm)
      intro block hblock
      rcases List.mem_append.mp hblock with hblock | hblock
      · exact h block (List.dropLast_subset _ hblock)
      · obtain ⟨hname, hcolon, hhead, hlines⟩ := h last (List.mem_of_getLast? hlast)
        rw [List.mem_singleton.mp hblock]
        refine ⟨hname, hcolon, hhead, fun line hm => ?_⟩
        rcases List.mem_append.mp hm with hm | hm
        · exact hlines line hm
        · rwa [List.mem_singleton.mp hm]
    · exact h

theorem normal_parseAttributes {text : Text} :
    ∀ block ∈ parseAttributes text, block.Normal := by
  have hlines : ∀ line ∈ (Text.lines text).takeWhile (· ≠ ['.']), '\n' ∉ line := fun line hline =>
    Text.lf_not_mem_of_mem_lines ((List.takeWhile_subset _) hline)
  have hfold (ls : List Text) (hls : ∀ line ∈ ls, '\n' ∉ line) (blocks : List AttributeBlock)
      (h : ∀ block ∈ blocks, block.Normal) : ∀ block ∈ ls.foldl pushLine blocks, block.Normal := by
    induction ls generalizing blocks with
    | nil => exact h
    | cons line ls ih =>
      obtain ⟨hline, hls⟩ := List.forall_mem_cons.mp hls
      exact ih hls _ (normal_pushLine h hline)
  exact hfold _ hlines [] (by simp)

/-- The format of a list of blocks, with `rest` after it. -/
def blocksFormat (rest : Text) : Lenient Text (List AttributeBlock) where
  read text := some (parseAttributes text)
  write blocks := writeAttributes blocks rest
  Normal blocks := ∀ block ∈ blocks, block.Normal
  read_write blocks h := congrArg some (parseAttributes_writeAttributes h rest)
  normal_of_read text blocks h := by
    cases h
    exact normal_parseAttributes

/-! ## Views -/

structure View.Normal (v : View) : Prop where
  mime_ne_nil : v.mime ≠ []
  mime : ∀ c ∈ v.mime, Text.isWhitespace c = false ∧ c ≠ ':'
  language : ∀ l, v.language = some l → Text.trim l = l ∧ l ≠ [] ∧ ':' ∉ l
  size : ∀ s, v.size = some s → Text.trim s = s ∧ s ≠ []

def View.label (v : View) : Text := v.mime ++ v.language.elim [] (' ' :: ·)

def View.text (v : View) : Text := v.label ++ v.size.elim [] (':' :: ' ' :: ·)

theorem trim_eq_nil_iff {t : Text} : Text.trim t = [] ↔ ∀ c ∈ t, Text.isWhitespace c = true := by
  induction t with
  | nil => simp [Text.trim, Text.trimEnd]
  | cons c t ih =>
    cases hc : Text.isWhitespace c with
    | true => simp [Text.trim_cons hc, ih, hc]
    | false =>
      have hstart : Text.trimStart (c :: t) = c :: t :=
        Text.trimStart_eq_self_iff.mpr fun d hd => by
          cases hd
          exact hc
      have hend : Text.trimEndMatches Text.isWhitespace (c :: t) =
          c :: Text.trimEndMatches Text.isWhitespace t :=
        Text.trimEndMatches_append_cons hc [] t
      simp [Text.trim, Text.trimEnd, hstart, hend, hc]

theorem trim_label {v : View} (h : v.Normal) : Text.trim v.label = v.label := by
  obtain ⟨hne, hmime, hlanguage, -⟩ := h
  unfold View.label
  cases hv : v.language with
  | none =>
    rw [Option.elim_none, List.append_nil]
    exact Text.trim_of_forall fun c hc => (hmime c hc).1
  | some l =>
    obtain ⟨htrim, hl, -⟩ := hlanguage l hv
    rw [Option.elim_some, Text.trim_eq_self_iff]
    constructor
    · intro c hc
      rw [List.head?_append_of_ne_nil _ hne] at hc
      exact (hmime c (List.mem_of_head? hc)).1
    · intro c hc
      rw [List.getLast?_append_of_ne_nil _ (List.cons_ne_nil ' ' l),
        List.getLast?_cons_of_ne_nil hl] at hc
      exact (Text.trim_eq_self_iff.mp htrim).2 c hc

theorem mimeAndLanguage_label {v : View} (h : v.Normal) :
    mimeAndLanguage v.label = (v.mime, v.language) := by
  have hspace : ∀ c ∈ v.mime, Text.isWhitespace c = false := fun c hc => (h.mime c hc).1
  unfold View.label mimeAndLanguage
  cases hv : v.language with
  | none => rw [Option.elim_none, List.append_nil, Text.splitOnceWhere_eq_none_iff.mpr hspace]
  | some l =>
    rw [Option.elim_some, Text.splitOnceWhere_append hspace (by decide)]
    simp only [Text.trim_of_forall hspace, (h.language l hv).1]

theorem labelAndSize_text {v : View} (h : v.Normal) :
    labelAndSize v.text = (v.label, v.size.getD []) := by
  have hcolon : ':' ∉ v.label := by
    have hmime : ':' ∉ v.mime := fun hm => (h.mime ':' hm).2 rfl
    unfold View.label
    cases hv : v.language with
    | none => simpa using hmime
    | some l => simpa [hmime] using (h.language l hv).2.2
  unfold labelAndSize View.text
  cases hv : v.size with
  | none =>
    rw [Option.elim_none, List.append_nil, Text.splitOnce_eq_none_iff.mpr hcolon]
    simp only [trim_label h, Option.getD_none]
  | some s =>
    rw [Option.elim_some, Text.splitOnce_append hcolon]
    simp only [trim_label h, Text.trim_cons (show Text.isWhitespace ' ' = true by decide),
      (h.size s hv).1, Option.getD_some]

theorem parseView_text {v : View} (h : v.Normal) : parseView v.text = some v := by
  have hlabel : v.label.isEmpty = false := by simp [View.label, h.mime_ne_nil]
  have hsize : (if (v.size.getD []).isEmpty then none else some (v.size.getD [])) = v.size := by
    cases hv : v.size with
    | none => rfl
    | some s => simp [(h.size s hv).2]
  simp only [parseView, labelAndSize_text h, mimeAndLanguage_label h, hlabel, hsize,
    Bool.false_eq_true, if_false]

theorem normal_labelAndSize (line : Text) :
    Text.trim (labelAndSize line).1 = (labelAndSize line).1 ∧ ':' ∉ (labelAndSize line).1 ∧
      Text.trim (labelAndSize line).2 = (labelAndSize line).2 := by
  unfold labelAndSize
  cases hsplit : Text.splitOnce ':' line with
  | none =>
    have hcolon := Text.splitOnce_eq_none_iff.mp hsplit
    exact ⟨Text.trim_trim line, fun hm => hcolon (Text.mem_of_mem_trim hm), rfl⟩
  | some p =>
    obtain ⟨-, hcolon⟩ := Text.splitOnce_eq_some_iff.mp hsplit
    exact ⟨Text.trim_trim _, fun hm => hcolon (Text.mem_of_mem_trim hm), Text.trim_trim _⟩

/-- A label that is trimmed falls into parts that are. -/
theorem normal_mimeAndLanguage {label : Text} (hlabel : Text.trim label = label)
    (hne : label ≠ []) (hcolon : ':' ∉ label) : (mimeAndLanguage label).1 ≠ [] ∧
      (∀ c ∈ (mimeAndLanguage label).1, Text.isWhitespace c = false ∧ c ≠ ':') ∧
      ∀ l, (mimeAndLanguage label).2 = some l → Text.trim l = l ∧ l ≠ [] ∧ ':' ∉ l := by
  unfold mimeAndLanguage
  cases hsplit : Text.splitOnceWhere Text.isWhitespace label with
  | none =>
    have hlabels := Text.splitOnceWhere_eq_none_iff.mp hsplit
    exact ⟨hne, fun c hc => ⟨hlabels c hc, fun he => hcolon (he ▸ hc)⟩, by simp⟩
  | some p =>
    obtain ⟨⟨c, heq, hc⟩, hmime⟩ := Text.splitOnceWhere_eq_some hsplit
    have htrim := Text.trim_of_forall hmime
    have hends := Text.trim_eq_self_iff.mp hlabel
    simp only [htrim, Option.some.injEq, forall_eq']
    refine ⟨?_, fun d hd => ?_, Text.trim_trim _, ?_, fun hm => hcolon ?_⟩
    · -- a label does not begin with whitespace
      intro hnil
      rw [heq, hnil] at hends
      exact absurd (hends.1 c rfl) (by simp [hc])
    · refine ⟨hmime d hd, ?_⟩
      rintro rfl
      exact hcolon (heq ▸ List.mem_append_left _ hd)
    · -- nor does it end in whitespace
      rw [Ne, trim_eq_nil_iff]
      intro hall
      obtain ⟨d, hd⟩ : ∃ d, (c :: p.2).getLast? = some d :=
        ⟨_, List.getLast?_eq_some_getLast (List.cons_ne_nil c p.2)⟩
      have hlast := hends.2 d (by rw [heq, List.getLast?_append, hd, Option.some_or])
      rcases List.mem_cons.mp (List.mem_of_getLast? hd) with rfl | hm
      · simp [hc] at hlast
      · simp [hall d hm] at hlast
    · rw [heq]
      exact List.mem_append_right _ (List.mem_cons_of_mem c (Text.mem_of_mem_trim hm))

theorem normal_parseView {line : Text} {v : View} (h : parseView line = some v) : v.Normal := by
  obtain ⟨htrim, hcolon, hsize⟩ := normal_labelAndSize line
  unfold parseView at h
  simp only at h
  split at h
  · cases h
  next hne =>
  cases h
  obtain ⟨hmime, hchars, hlanguage⟩ :=
    normal_mimeAndLanguage htrim (by simpa using hne) hcolon
  refine ⟨hmime, hchars, hlanguage, fun s hs => ?_⟩
  simp only at hs
  split at hs
  · cases hs
  · next hsne =>
    cases hs
    exact ⟨hsize, by simpa using hsne⟩

def viewFormat : Lenient Text View where
  read := parseView
  write := View.text
  Normal := View.Normal
  read_write _ := parseView_text
  normal_of_read _ _ := normal_parseView

/-! ## Forms -/

/-- A prompt and its tail, between TABs; what has no prompt has no tail. -/
structure NormalPrompt (prompt : Text) (tail : List Text) : Prop where
  trim : Text.trim prompt = prompt
  tab : '\t' ∉ prompt
  nil : prompt = [] → tail = []
  tail : ∀ f ∈ tail, Text.trim f = f ∧ f ≠ [] ∧ '\t' ∉ f

def directives : List Text := ["Ask".toList, "AskP".toList, "AskL".toList, "AskF".toList,
  "Select".toList, "Choose".toList, "ChooseF".toList, "Note".toList]

namespace AskDirective

def Normal : AskDirective → Prop
  | ask prompt default | askPassword prompt default | askLong prompt default
  | askFile prompt default => NormalPrompt prompt default.toList
  | select prompt options | choose prompt options => NormalPrompt prompt options
  | chooseFile prompt => NormalPrompt prompt []
  | note text => Text.trim text = text
  | unknown directive rest => Text.trim directive = directive ∧ ':' ∉ directive ∧
      directive ∉ directives ∧ Text.trimStart rest = rest

def directive : AskDirective → Text
  | ask .. => "Ask".toList
  | askPassword .. => "AskP".toList
  | askLong .. => "AskL".toList
  | askFile .. => "AskF".toList
  | select .. => "Select".toList
  | choose .. => "Choose".toList
  | chooseFile .. => "ChooseF".toList
  | note .. => "Note".toList
  | unknown directive _ => directive

def rest : AskDirective → Text
  | ask prompt default | askPassword prompt default | askLong prompt default
  | askFile prompt default => prompt ++ default.toList.flatMap ('\t' :: ·)
  | select prompt options | choose prompt options => prompt ++ options.flatMap ('\t' :: ·)
  | chooseFile prompt => prompt
  | note text => text
  | unknown _ rest => rest

def text (q : AskDirective) : Text := q.directive ++ ':' :: ' ' :: q.rest

end AskDirective

theorem splitOn_tabs {prompt : Text} {tail : List Text} (hprompt : '\t' ∉ prompt)
    (htail : ∀ f ∈ tail, '\t' ∉ f) :
    (prompt ++ tail.flatMap ('\t' :: ·)).splitOn '\t' = prompt :: tail := by
  induction tail generalizing prompt with
  | nil => rw [List.flatMap_nil, List.append_nil, List.splitOn_eq_singleton hprompt]
  | cons f tail ih =>
    obtain ⟨hf, htail⟩ := List.forall_mem_cons.mp htail
    rw [List.flatMap_cons, List.cons_append, List.splitOn_append_cons_self_of_not_mem hprompt,
      ih hf htail]

theorem NormalPrompt.promptAndTail {prompt : Text} {tail : List Text}
    (h : NormalPrompt prompt tail) :
    promptAndTail (prompt ++ tail.flatMap ('\t' :: ·)) = (prompt, tail) := by
  have hmap : tail.map Text.trim = tail :=
    (List.map_congr_left fun f hf => (h.tail f hf).1).trans (List.map_id tail)
  have hfilter : (tail.filter fun f => !f.isEmpty) = tail :=
    List.filter_eq_self.mpr fun f hf => by simp [(h.tail f hf).2.1]
  simp only [Gopher.promptAndTail, splitOn_tabs h.tab fun f hf => (h.tail f hf).2.2,
    List.headD_cons, List.tail_cons, h.trim, hmap, hfilter]

theorem NormalPrompt.trimStart {prompt : Text} {tail : List Text} (h : NormalPrompt prompt tail) :
    Text.trimStart (prompt ++ tail.flatMap ('\t' :: ·)) = prompt ++ tail.flatMap ('\t' :: ·) := by
  by_cases hne : prompt = []
  · rw [hne, h.nil hne]
    rfl
  · exact Text.trimStart_append_eq_self hne
      (Text.trimStart_eq_self_iff.mpr (Text.trim_eq_self_iff.mp h.trim).1) _

/-- What is read of a rest is in normal form. -/
theorem normal_promptAndTail {rest : Text} (h : Text.trimStart rest = rest) :
    NormalPrompt (promptAndTail rest).1 (promptAndTail rest).2 := by
  obtain ⟨first, fields, hsplit⟩ := List.exists_cons_of_ne_nil (List.splitOn_ne_nil '\t' rest)
  have htab (f : Text) (hf : f ∈ first :: fields) : '\t' ∉ f :=
    Text.not_mem_of_mem_splitOn (hsplit ▸ hf)
  simp only [promptAndTail, hsplit, List.headD_cons, List.tail_cons]
  refine ⟨Text.trim_trim _, fun hm => htab first List.mem_cons_self (Text.mem_of_mem_trim hm),
    fun hnil => ?_, fun f hf => ?_⟩
  · -- the rest does not begin with whitespace, of which TAB is one
    have hall := trim_eq_nil_iff.mp hnil
    have hhead := Text.trimStart_eq_self_iff.mp h
    have hrest : rest = [] := by
      cases rest with
      | nil => rfl
      | cons c t =>
        have hc := hhead c rfl
        have hne : c ≠ '\t' := by
          rintro rfl
          exact absurd hc (by decide)
        rw [List.splitOn_cons_eq_if_modifyHead, if_neg (by simpa using hne)] at hsplit
        obtain ⟨piece, pieces, hpieces⟩ :=
          List.exists_cons_of_ne_nil (List.splitOn_ne_nil '\t' t)
        rw [hpieces, List.modifyHead_cons, List.cons.injEq] at hsplit
        rw [← hsplit.1] at hall
        rw [hall c List.mem_cons_self] at hc
        cases hc
    rw [hrest, List.splitOn_nil, List.cons.injEq] at hsplit
    rw [← hsplit.2]
    rfl
  · obtain ⟨hmap, hne⟩ := List.mem_filter.mp hf
    obtain ⟨g, hg, rfl⟩ := List.mem_map.mp hmap
    exact ⟨Text.trim_trim g, by simpa using hne,
      fun hm => htab g (List.mem_cons_of_mem first hg) (Text.mem_of_mem_trim hm)⟩

theorem normal_directiveAndRest (line : Text) :
    Text.trim (directiveAndRest line).1 = (directiveAndRest line).1 ∧
      ':' ∉ (directiveAndRest line).1 ∧
      Text.trimStart (directiveAndRest line).2 = (directiveAndRest line).2 := by
  unfold directiveAndRest
  cases hsplit : Text.splitOnce ':' line with
  | none =>
    have hcolon := Text.splitOnce_eq_none_iff.mp hsplit
    exact ⟨Text.trim_trim line, fun hm => hcolon (Text.mem_of_mem_trim hm), rfl⟩
  | some p =>
    obtain ⟨-, hcolon⟩ := Text.splitOnce_eq_some_iff.mp hsplit
    refine ⟨Text.trim_trim _, fun hm => hcolon (Text.mem_of_mem_trim hm), ?_⟩
    exact Text.trimStart_eq_self_iff.mpr fun c => Text.head_trimStart

/-- A default is the first field of the tail. -/
theorem NormalPrompt.head {prompt : Text} {tail : List Text} (h : NormalPrompt prompt tail) :
    NormalPrompt prompt tail.head?.toList := by
  refine ⟨h.trim, h.tab, fun hnil => by rw [h.nil hnil]; rfl, fun f hf => h.tail f ?_⟩
  exact List.mem_of_head? (Option.mem_toList.mp hf)

theorem normal_parseAskLine (line : Text) : (parseAskLine line).Normal := by
  obtain ⟨htrim, hcolon, hrest⟩ := normal_directiveAndRest line
  have hprompt := normal_promptAndTail hrest
  unfold parseAskLine
  simp only
  split
  · exact hprompt.head
  next hask =>
  split
  · exact hprompt.head
  next haskP =>
  split
  · exact hprompt.head
  next haskL =>
  split
  · exact hprompt.head
  next haskF =>
  split
  · exact hprompt
  next hselect =>
  split
  · exact hprompt
  next hchoose =>
  split
  · exact ⟨hprompt.trim, hprompt.tab, fun _ => rfl, by simp⟩
  next hchooseF =>
  split
  · exact Text.trim_trim _
  next hnote =>
  refine ⟨htrim, hcolon, ?_, hrest⟩
  simp only [directives, List.mem_cons, List.not_mem_nil, or_false, not_or]
  exact ⟨hask, haskP, haskL, haskF, hselect, hchoose, hchooseF, hnote⟩

theorem normal_directive {q : AskDirective} (h : q.Normal) :
    Text.trim q.directive = q.directive ∧ ':' ∉ q.directive := by
  have hkeyword : ∀ d ∈ directives, Text.trim d = d ∧ ':' ∉ d := by decide
  cases q with
  | ask => exact hkeyword "Ask".toList (by decide)
  | askPassword => exact hkeyword "AskP".toList (by decide)
  | askLong => exact hkeyword "AskL".toList (by decide)
  | askFile => exact hkeyword "AskF".toList (by decide)
  | select => exact hkeyword "Select".toList (by decide)
  | choose => exact hkeyword "Choose".toList (by decide)
  | chooseFile => exact hkeyword "ChooseF".toList (by decide)
  | note => exact hkeyword "Note".toList (by decide)
  | unknown directive rest => exact ⟨h.1, h.2.1⟩

theorem directiveAndRest_text {q : AskDirective} (h : q.Normal) :
    directiveAndRest q.text = (q.directive, q.rest) := by
  obtain ⟨hdirective, hcolon⟩ := normal_directive h
  have hrest : Text.trimStart q.rest = q.rest := by
    cases q with
    | unknown directive rest => exact h.2.2.2
    | note text => exact Text.trimStart_eq_self_iff.mpr (Text.trim_eq_self_iff.mp h).1
    | chooseFile prompt => exact Text.trimStart_eq_self_iff.mpr (Text.trim_eq_self_iff.mp h.trim).1
    | _ => exact NormalPrompt.trimStart h
  unfold directiveAndRest AskDirective.text
  rw [Text.splitOnce_append hcolon]
  simp only [hdirective, Text.trimStart_cons (show Text.isWhitespace ' ' = true by decide), hrest]

theorem parseAskLine_text {q : AskDirective} (h : q.Normal) : parseAskLine q.text = q := by
  simp only [parseAskLine, directiveAndRest_text h]
  cases q with
  | ask prompt default =>
    simp only [AskDirective.rest, NormalPrompt.promptAndTail h, Option.head?_toList]
    rfl
  | askPassword prompt default =>
    simp only [AskDirective.rest, NormalPrompt.promptAndTail h, Option.head?_toList]
    rfl
  | askLong prompt default =>
    simp only [AskDirective.rest, NormalPrompt.promptAndTail h, Option.head?_toList]
    rfl
  | askFile prompt default =>
    simp only [AskDirective.rest, NormalPrompt.promptAndTail h, Option.head?_toList]
    rfl
  | select prompt options =>
    simp only [AskDirective.rest, NormalPrompt.promptAndTail h]
    rfl
  | choose prompt options =>
    simp only [AskDirective.rest, NormalPrompt.promptAndTail h]
    rfl
  | chooseFile prompt =>
    have hprompt := NormalPrompt.promptAndTail h
    rw [List.flatMap_nil, List.append_nil] at hprompt
    simp only [AskDirective.rest, hprompt]
    rfl
  | note text =>
    have htrim : Text.trim text = text := h
    simp only [AskDirective.rest, htrim]
    rfl
  | unknown directive rest =>
    obtain ⟨-, -, hdirective, -⟩ := h
    simp only [directives, List.mem_cons, List.not_mem_nil, or_false, not_or] at hdirective
    obtain ⟨hask, haskP, haskL, haskF, hselect, hchoose, hchooseF, hnote⟩ := hdirective
    refine (if_neg hask).trans <| (if_neg haskP).trans <| (if_neg haskL).trans <|
      (if_neg haskF).trans <| (if_neg hselect).trans <| (if_neg hchoose).trans <|
      (if_neg hchooseF).trans <| (if_neg hnote).trans rfl

def askFormat : Lenient Text AskDirective where
  read line := some (parseAskLine line)
  write := AskDirective.text
  Normal := AskDirective.Normal
  read_write _ h := congrArg some (parseAskLine_text h)
  normal_of_read line q h := by
    cases h
    exact normal_parseAskLine line

/-! ## What is read as it was written -/

/-- **The three formats of attributes** are read as they were written iff what was written is in
normal form, the blocks also with anything after their `.`; and all that is ever read is in normal
form. -/
theorem attributes_read_iff :
    (∀ (blocks : List AttributeBlock) (rest : Text),
      parseAttributes (writeAttributes blocks rest) = blocks ↔
        ∀ block ∈ blocks, block.Normal) ∧
    (∀ (block : AttributeBlock) (views : List View),
      parseViews { block with lines := views.map View.text } = views ↔
        ∀ view ∈ views, view.Normal) ∧
    (∀ (block : AttributeBlock) (form : List AskDirective),
      parseAsk { block with lines := form.map AskDirective.text } = form ↔
        ∀ q ∈ form, q.Normal) ∧
    ∀ text, ∀ block ∈ parseAttributes text, block.Normal ∧
      (∀ view ∈ parseViews block, view.Normal) ∧ ∀ q ∈ parseAsk block, q.Normal := by
  refine ⟨fun blocks rest => ?_, fun block views => viewFormat.filterMap_read_iff views,
    fun block form => ?_, fun text block hblock => ⟨normal_parseAttributes block hblock, ?_, ?_⟩⟩
  · have hiff := (blocksFormat rest).read_write_iff blocks
    exact Option.some_inj.symm.trans hiff
  · have hiff := askFormat.filterMap_read_iff form
    rwa [show askFormat.read = some ∘ parseAskLine from rfl, List.filterMap_eq_map] at hiff
  · intro view hview
    obtain ⟨line, -, hread⟩ := List.mem_filterMap.mp hview
    exact normal_parseView hread
  · intro q hq
    obtain ⟨line, -, rfl⟩ := List.mem_map.mp hq
    exact normal_parseAskLine line

end Smolweb.Gopher
