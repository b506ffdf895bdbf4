import Smolweb.Verify.Documents

/-!
# Gemtext, written and read

The parser takes any text and makes a document of it, whose lines are in a normal form: texts are
trimmed where the format does not keep what surrounds them, a plain line begins with no mark, and no
line of a block closes it. A document is what is read of it exactly if it is one of those
(`documents_read_iff`).
-/

namespace Smolweb.Gemtext

/-! ## Writing -/

/-- What a line begins with that is not plain. -/
def marks : List Text :=
  [fence, "### ".toList, "## ".toList, "# ".toList, "=>".toList, "* ".toList, "> ".toList]

inductive GemLine.Normal : GemLine → Prop
  | heading {level : Nat} {text : Text} (hlevel : level = 1 ∨ level = 2 ∨ level = 3)
    (htext : text.IsTrimmed) : Normal (.heading level text)
  | text {text : Text} (hne : text ≠ []) (hlf : '\n' ∉ text)
    (hmarks : ∀ mark ∈ marks, ¬mark <+: text) : Normal (.text text)
  | link {url label : Text} (hne : url ≠ []) (hurl : ∀ c ∈ url, Text.isWhitespace c = false)
    (hlabel : label.IsTrimmed) : Normal (.link url label)
  | item {text : Text} (htext : text.IsTrimmed) : Normal (.item text)
  | quote {text : Text} (htext : text.IsTrimmed) : Normal (.quote text)
  | pre {alt : Option Text} {body : List Text}
    (halt : ∀ t, alt = some t → t.IsTrimmed ∧ t ≠ [])
    (hbody : ∀ line ∈ body, '\n' ∉ line ∧ ¬fence <+: line) :
    Normal (.pre alt (body.flatMap fun line => line ++ ['\n']))
  | blank : Normal .blank

/-- The lines of a document's line, or of its block, as an author writes them. -/
def GemLine.lines : GemLine → List Text
  | .heading level t => [List.replicate level '#' ++ ' ' :: t]
  | .text t => [t]
  | .link url label =>
    ['=' :: '>' :: ' ' :: url ++ if label.isEmpty then [] else ' ' :: label]
  | .item t => ['*' :: ' ' :: t]
  | .quote t => ['>' :: ' ' :: t]
  | .pre alt t => (fence ++ alt.getD []) :: ((t.splitOn '\n').dropLast ++ [fence])
  | .blank => [[]]

def write (doc : List GemLine) : Text := Text.writeLines (doc.flatMap GemLine.lines)

/-! ## Reading what was written -/

theorem parseStep_heading {level : Nat} (hlevel : level = 1 ∨ level = 2 ∨ level = 3)
    (text : Text) : parseStep ([], none) (List.replicate level '#' ++ ' ' :: text) =
      ([.heading level (Text.trim text)], none) := by
  rcases hlevel with rfl | rfl | rfl
  · rfl
  · rfl
  · rfl

theorem parseStep_item (text : Text) :
    parseStep ([], none) ('*' :: ' ' :: text) = ([.item (Text.trim text)], none) := rfl

theorem parseStep_quote (text : Text) :
    parseStep ([], none) ('>' :: ' ' :: text) = ([.quote (Text.trim text)], none) := rfl

theorem parseStep_link (rest : Text) :
    parseStep ([], none) ('=' :: '>' :: rest) = ((parseLink rest).toList, none) := by
  have hother (mark : Text) (h : mark ∈ [fence, "### ".toList, "## ".toList, "# ".toList]) :
      Text.stripPrefix mark ('=' :: '>' :: rest) = none := by
    simp only [List.mem_cons, List.not_mem_nil, or_false] at h
    rcases h with rfl | rfl | rfl | rfl <;> rfl
  have hlink : Text.stripPrefix "=>".toList ('=' :: '>' :: rest) = some rest := rfl
  simp only [List.mem_cons, List.not_mem_nil, or_false, forall_eq_or_imp, forall_eq] at hother
  obtain ⟨h1, h2, h3, h4⟩ := hother
  simp only [parseStep, h1, h2, h3, h4, hlink]
  cases parseLink rest <;> rfl

theorem parseStep_text {text : Text} (hne : text ≠ []) (hmarks : ∀ mark ∈ marks, ¬mark <+: text) :
    parseStep ([], none) text = ([.text text], none) := by
  have hstrip (mark : Text) (h : mark ∈ marks) : Text.stripPrefix mark text = none :=
    if_neg (hmarks mark h)
  simp only [marks, List.mem_cons, List.not_mem_nil, or_false, forall_eq_or_imp,
    forall_eq] at hstrip
  obtain ⟨h1, h2, h3, h4, h5, h6, h7⟩ := hstrip
  simp only [parseStep, h1, h2, h3, h4, h5, h6, h7, List.isEmpty_eq_false_iff.mpr hne]
  rfl

theorem parseLink_url {url label : Text} (hne : url ≠ [])
    (hurl : ∀ c ∈ url, Text.isWhitespace c = false) (hlabel : Text.trim label = label) :
    parseLink (' ' :: url ++ if label.isEmpty then [] else ' ' :: label) =
      some (.link url label) := by
  have hnone : url.findIdx? Text.isWhitespace = none := List.findIdx?_eq_none_iff.mpr hurl
  have hstart (tail : Text) : Text.trimStart (' ' :: (url ++ tail)) = url ++ tail := by
    rw [Text.trimStart_space]
    refine Text.trimStart_append_eq_self hne (Text.trimStart_eq_self_iff.mpr fun c hc => ?_) tail
    exact hurl c (List.mem_of_head? hc)
  have hempty (tail : Text) : (url ++ tail).isEmpty = false :=
    List.isEmpty_eq_false_iff.mpr (List.append_ne_nil_of_left_ne_nil hne tail)
  rw [List.cons_append, parseLink, hstart]
  simp only [hempty, Bool.false_eq_true, if_false]
  by_cases hnil : label = []
  · subst hnil
    rw [List.isEmpty_nil, if_pos rfl, List.append_nil, hnone]
  · have hfind : (url ++ ' ' :: label).findIdx? Text.isWhitespace = some url.length := by
      rw [List.findIdx?_append, hnone, Option.none_or, List.findIdx?_cons]
      simp [show Text.isWhitespace ' ' = true from rfl]
    rw [if_neg (by simpa using hnil), hfind]
    simp [Text.trim_space, hlabel]

theorem splitOn_block {body : List Text} (h : ∀ line ∈ body, '\n' ∉ line) :
    (body.flatMap fun line => line ++ ['\n']).splitOn '\n' = body ++ [[]] := by
  induction body with
  | nil => rfl
  | cons line body ih =>
    obtain ⟨hline, hbody⟩ := List.forall_mem_cons.mp h
    rw [List.flatMap_cons, List.append_assoc, List.singleton_append,
      List.splitOn_append_cons_self_of_not_mem hline, ih hbody]
    rfl

theorem read_pre {alt : Option Text} {body : List Text}
    (halt : ∀ t, alt = some t → t.IsTrimmed ∧ t ≠ [])
    (hbody : ∀ line ∈ body, '\n' ∉ line ∧ ¬fence <+: line) :
    let l := GemLine.pre alt (body.flatMap fun line => line ++ ['\n'])
    blocks.Closed l.lines ∧ blocks.read l.lines = [l] := by
  intro l
  have hlines : (GemLine.pre alt (body.flatMap fun line => line ++ ['\n'])).lines =
      (fence ++ alt.getD []) :: (body ++ [fence]) := by
    simp only [GemLine.lines, splitOn_block fun line hline => (hbody line hline).1,
      List.dropLast_concat]
  have hopening : blocks.fence (fence ++ alt.getD []) = true :=
    decide_eq_true (show fence <+: fence ++ alt.getD [] from List.prefix_append _ _)
  have hclosing : blocks.fence fence = true :=
    decide_eq_true (show fence <+: fence from List.prefix_rfl)
  have hinside : ∀ line ∈ body, blocks.fence line = false := fun line hline =>
    decide_eq_false (hbody line hline).2
  have hopens : blocks.opens (fence ++ alt.getD []) = (alt, []) := by
    simp [blocks, fenceTag_getD halt]
  rw [hlines]
  refine ⟨blocks.closed_block hopening hinside hclosing, ?_⟩
  rw [blocks.read_block hopening hinside hclosing, hopens, add_pre]
  rfl

/-- What was written of a line in normal form is read as that. -/
theorem read_lines {l : GemLine} (h : l.Normal) :
    blocks.Closed l.lines ∧ blocks.read l.lines = [l] := by
  have hsingle {line : Text} (hfence : ¬fence <+: line) {l : GemLine}
      (hline : parseStep ([], none) line = ([l], none)) :
      blocks.Closed [line] ∧ blocks.read [line] = [l] := by
    have hfalse : blocks.fence line = false := decide_eq_false hfence
    exact ⟨blocks.closed_line hfalse, (blocks.read_line hfalse).trans (congrArg Prod.fst hline)⟩
  cases h with
  | @heading level text hlevel htext =>
    refine hsingle ?_ ((parseStep_heading hlevel text).trans ?_)
    · rcases hlevel with rfl | rfl | rfl <;> simp [fence]
    · rw [htext.1]
  | text hne hlf hmarks =>
    exact hsingle (hmarks fence List.mem_cons_self) (parseStep_text hne hmarks)
  | @link url label hne hurl hlabel =>
    refine hsingle (by simp [fence]) ((parseStep_link _).trans ?_)
    exact congrArg (fun link => (Option.toList link, none)) (parseLink_url hne hurl hlabel.1)
  | @item text htext =>
    refine hsingle (by simp [fence]) ((parseStep_item text).trans ?_)
    rw [htext.1]
  | @quote text htext =>
    refine hsingle (by simp [fence]) ((parseStep_quote text).trans ?_)
    rw [htext.1]
  | pre halt hbody => exact read_pre halt hbody
  | blank => exact hsingle (by simp [fence]) rfl

theorem lf_not_mem_lines {l : GemLine} (h : l.Normal) : ∀ line ∈ l.lines, '\n' ∉ line := by
  have hfence : '\n' ∉ fence := by decide
  cases h with
  | @heading level text hlevel htext => simp [GemLine.lines, htext.2]
  | text hne hlf hmarks => simpa [GemLine.lines] using hlf
  | @link url label hne hurl hlabel =>
    have hlf : '\n' ∉ url := fun hmem => absurd (hurl _ hmem) (by decide)
    intro line hline
    obtain rfl := List.mem_singleton.mp hline
    split <;> simp [hlf, hlabel.2]
  | item htext => simp [GemLine.lines, htext.2]
  | quote htext => simp [GemLine.lines, htext.2]
  | @pre alt body halt hbody =>
    intro line hline
    simp only [GemLine.lines, splitOn_block fun line hline => (hbody line hline).1,
      List.dropLast_concat] at hline
    rcases List.mem_cons.mp hline with rfl | hline
    · cases alt with
      | none => simpa using hfence
      | some t => simp [hfence, (halt t rfl).1.2]
    · rcases List.mem_append.mp hline with hline | hline
      · exact (hbody line hline).1
      · exact List.mem_singleton.mp hline ▸ hfence
  | blank => simp [GemLine.lines]

theorem parse_write {doc : List GemLine} (h : ∀ l ∈ doc, l.Normal) : parse (write doc) = doc := by
  rw [parse_eq, write]
  exact read_writeLines blocks (fun l hl => lf_not_mem_lines (h l hl))
    fun l hl => read_lines (h l hl)

/-! ## What is read -/

theorem normal_of_parseLink {rest : Text} (hlf : '\n' ∉ rest) {link : GemLine}
    (h : parseLink rest = some link) : link.Normal := by
  have hlf' : '\n' ∉ Text.trimStart rest := fun hm => hlf ((Text.trimStart_suffix rest).subset hm)
  have hhead {c : Char} (hc : (Text.trimStart rest).head? = some c) :
      Text.isWhitespace c = false := Text.head_trimStart hc
  unfold parseLink at h
  generalize Text.trimStart rest = t at hlf' hhead h
  dsimp only at h
  split at h
  · cases h
  · next hne =>
    have hne : t ≠ [] := fun hnil => hne (List.isEmpty_iff.mpr hnil)
    split at h
    · next idx hidx =>
      obtain rfl := Option.some.inj h
      obtain ⟨hlt, hspace, hbefore⟩ := List.findIdx?_eq_some_iff_getElem.mp hidx
      refine .link ?_ ?_ (Text.isTrimmed_trim fun hm => hlf' (List.mem_of_mem_drop hm))
      · -- The first character is no whitespace, so the URL has at least that one.
        intro hnil
        obtain rfl : idx = 0 := by simpa [hne] using hnil
        rw [hhead (List.head?_eq_getElem? ▸ List.getElem?_eq_getElem hlt)] at hspace
        cases hspace
      · intro c hc
        obtain ⟨i, hi, rfl⟩ := List.mem_take_iff_getElem.mp hc
        have hlt : i < idx := by omega
        simpa using hbefore i hlt
    · next hnone =>
      obtain rfl := Option.some.inj h
      exact .link hne (List.findIdx?_eq_none_iff.mp hnone) ⟨rfl, List.not_mem_nil⟩

/-- A line outside of the blocks gives nothing but normal forms. -/
theorem normal_of_line {line : Text} (hfence : ¬fence <+: line) (hlf : '\n' ∉ line) :
    ∀ l ∈ (parseStep ([], none) line).1, l.Normal := by
  have hrest {mark rest : Text} (h : Text.stripPrefix mark line = some rest) : '\n' ∉ rest := by
    rw [Text.stripPrefix_eq_some_iff.mp h] at hlf
    exact fun hm => hlf (List.mem_append_right mark hm)
  have htrim {mark rest : Text} (h : Text.stripPrefix mark line = some rest) :
      (Text.trim rest).IsTrimmed := Text.isTrimmed_trim (hrest h)
  have hnot {mark : Text} := @Text.not_prefix_of_stripPrefix mark line
  have hnofence : Text.stripPrefix fence line = none := if_neg hfence
  simp only [parseStep, hnofence]
  cases h3 : Text.stripPrefix "### ".toList line with
  | some t => simpa using GemLine.Normal.heading (.inr (.inr rfl)) (htrim h3)
  | none =>
    cases h2 : Text.stripPrefix "## ".toList line with
    | some t => simpa using GemLine.Normal.heading (.inr (.inl rfl)) (htrim h2)
    | none =>
      cases h1 : Text.stripPrefix "# ".toList line with
      | some t => simpa using GemLine.Normal.heading (.inl rfl) (htrim h1)
      | none =>
        cases hlink : Text.stripPrefix "=>".toList line with
        | some rest =>
          dsimp only
          cases hparse : parseLink rest with
          | some link => simpa using normal_of_parseLink (hrest hlink) hparse
          | none => simp
        | none =>
          cases hitem : Text.stripPrefix "* ".toList line with
          | some t => simpa using GemLine.Normal.item (htrim hitem)
          | none =>
            cases hquote : Text.stripPrefix "> ".toList line with
            | some t => simpa using GemLine.Normal.quote (htrim hquote)
            | none =>
              cases hempty : line.isEmpty with
              | true => simpa using GemLine.Normal.blank
              | false =>
                have hmarks : ∀ mark ∈ marks, ¬mark <+: line := by
                  simp only [marks, List.mem_cons, List.not_mem_nil, or_false, forall_eq_or_imp,
                    forall_eq]
                  exact ⟨hfence, hnot h3, hnot h2, hnot h1, hnot hlink, hnot hitem, hnot hquote⟩
                simpa using GemLine.Normal.text (List.isEmpty_eq_false_iff.mp hempty) hlf hmarks

/-- What can be in a block that is open. -/
def Gathered (block : Option Text × Text) : Prop :=
  (∀ t, block.1 = some t → t.IsTrimmed ∧ t ≠ []) ∧
    ∃ body : List Text, block.2 = body.flatMap (fun line => line ++ ['\n']) ∧
      ∀ line ∈ body, '\n' ∉ line ∧ ¬fence <+: line

theorem normal_of_parse (t : Text) : ∀ l ∈ parse t, l.Normal := by
  rw [parse_eq]
  refine blocks.forall_read (Q := Gathered) ?_ ?_ ?_ ?_
  · intro line hline _
    have hlf : '\n' ∉ line.drop fence.length := fun hm =>
      Text.lf_not_mem_of_mem_lines hline (List.mem_of_mem_drop hm)
    exact ⟨isTrimmed_of_fenceTag hlf, [], rfl, by simp⟩
  · rintro line hline hfence ⟨alt, text⟩ ⟨halt, body, hbody, hlines⟩
    refine ⟨halt, body ++ [line], ?_, ?_⟩
    · change text ++ line ++ ['\n'] = _
      simp only at hbody
      simp [hbody]
    · intro l hl
      rcases List.mem_append.mp hl with hl | hl
      · exact hlines l hl
      · obtain rfl := List.mem_singleton.mp hl
        exact ⟨Text.lf_not_mem_of_mem_lines hline, of_decide_eq_false hfence⟩
  · rintro ⟨alt, text⟩ ⟨halt, body, hbody, hlines⟩
    obtain rfl : text = _ := hbody
    exact .pre halt hlines
  · intro line hline hfence l hl
    exact normal_of_line (of_decide_eq_false hfence) (Text.lf_not_mem_of_mem_lines hline) l hl

/-- **A document is read of what is written of it** exactly if all its lines are in normal form,
which all lines are that are read of any text. -/
theorem documents_read_iff :
    (∀ doc, parse (write doc) = doc ↔ ∀ l ∈ doc, l.Normal) ∧ ∀ t, ∀ l ∈ parse t, l.Normal := by
  refine ⟨fun doc => ⟨fun h => ?_, parse_write⟩, normal_of_parse⟩
  rw [← h]
  exact normal_of_parse (write doc)

end Smolweb.Gemtext
