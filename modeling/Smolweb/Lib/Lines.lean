import Smolweb.Lib.Fields

/-!
# Lines and words

`lines` is `str::lines`: each line without the `"\n"` or `"\r\n"` that ends it, and no line after
the last line break. Lines joined by line breaks are the lines again, but for an empty one at the
end (`lines_joinFields`). `words` is `str::split_whitespace`.
-/

namespace Smolweb

namespace Text

/-- A text without the one CR that may end it. -/
def stripCr (t : Text) : Text := if ['\r'] <:+ t then t.dropLast else t

def lines (t : Text) : List Text :=
  let pieces := t.splitOn '\n'
  let last := pieces.getLastD []
  pieces.dropLast.map stripCr ++ if last.isEmpty then [] else [last]

def words (t : Text) : List Text := (t.splitOnP isWhitespace).filter fun w => !w.isEmpty

/-- `str::strip_prefix`. -/
def stripPrefix (mark t : Text) : Option Text :=
  if mark <+: t then some (t.drop mark.length) else none

/-- `str::strip_suffix`. -/
def stripSuffix (mark t : Text) : Option Text :=
  if mark <:+ t then some (t.take (t.length - mark.length)) else none

/-- A text that trimming leaves alone, and that is part of a line. -/
def IsTrimmed (t : Text) : Prop := trim t = t ∧ '\n' ∉ t

/-- A text that is one word. -/
def IsWord (w : Text) : Prop := w ≠ [] ∧ ∀ c ∈ w, isWhitespace c = false

/-! ## Lines -/

theorem isTrimmed_trim {t : Text} (h : '\n' ∉ t) : IsTrimmed (trim t) :=
  ⟨trim_trim t, fun hm => h (mem_of_mem_trim hm)⟩

theorem stripCr_of_getLast {t : Text} (h : t.getLast? ≠ some '\r') : stripCr t = t := by
  rw [stripCr, if_neg]
  rintro ⟨u, rfl⟩
  simp at h

theorem lines_append_lf {a : Text} (h : '\n' ∉ a) (t : Text) :
    lines (a ++ '\n' :: t) = stripCr a :: lines t := by
  obtain ⟨piece, pieces, hsplit⟩ := List.exists_cons_of_ne_nil (List.splitOn_ne_nil '\n' t)
  rw [lines, lines, List.splitOn_append_cons_self_of_not_mem h, hsplit]
  simp

theorem lines_of_not_mem {a : Text} (h : '\n' ∉ a) : lines a = if a.isEmpty then [] else [a] := by
  rw [lines, List.splitOn_eq_singleton h]
  simp

theorem lf_not_mem_of_mem_lines {t l : Text} (h : l ∈ lines t) : '\n' ∉ l := by
  unfold lines at h
  simp only [List.mem_append, List.mem_map] at h
  rcases h with ⟨piece, hpiece, rfl⟩ | h
  · have hfree := not_mem_of_mem_splitOn (List.mem_of_mem_dropLast hpiece)
    unfold stripCr
    split
    · exact fun hm => hfree (List.mem_of_mem_dropLast hm)
    · exact hfree
  · have hne := List.splitOn_ne_nil '\n' t
    split at h
    · cases h
    · rw [List.mem_singleton.mp h, List.getLastD_eq_getLast?, List.getLast?_eq_some_getLast hne,
        Option.getD_some]
      exact not_mem_of_mem_splitOn (List.getLast_mem hne)

/-- What is left of lines that were joined: all of them, but for an empty one at the end. -/
theorem lines_joinFields {ts : List Text}
    (h : ∀ t ∈ ts, '\n' ∉ t ∧ t.getLast? ≠ some '\r') :
    lines (joinFields '\n' ts) = if ts.getLast? = some [] then ts.dropLast else ts := by
  induction ts with
  | nil => rfl
  | cons t ts ih =>
    obtain ⟨hlf, hcr⟩ := h t List.mem_cons_self
    cases ts with
    | nil =>
      rw [joinFields, lines_of_not_mem hlf]
      cases t <;> rfl
    | cons u ts =>
      rw [joinFields_cons t (List.cons_ne_nil u ts), lines_append_lf hlf,
        ih fun v hv => h v (List.mem_cons_of_mem t hv), stripCr_of_getLast hcr,
        List.getLast?_cons_cons]
      split
      · rfl
      · rfl

theorem lines_concat (a : Text) : lines (a ++ ['\n']) = (a.splitOn '\n').map stripCr := by
  rw [lines, List.splitOn_append_cons_self]
  simp

/-- A line break ends a line whatever follows. -/
theorem lines_append (a t : Text) : lines (a ++ '\n' :: t) = lines (a ++ ['\n']) ++ lines t := by
  obtain ⟨piece, pieces, hsplit⟩ := List.exists_cons_of_ne_nil (List.splitOn_ne_nil '\n' t)
  rw [lines_concat, lines, lines, List.splitOn_append_cons_self, hsplit]
  simp [List.dropLast_append_of_ne_nil, List.getLast?_cons]

/-- Lines, each ended by CRLF. -/
def writeLines (lines : List Text) : Text := lines.flatMap (· ++ ['\r', '\n'])

theorem lines_writeLines {ls : List Text} (h : ∀ line ∈ ls, '\n' ∉ line) (rest : Text) :
    lines (writeLines ls ++ rest) = ls ++ lines rest := by
  induction ls with
  | nil => rfl
  | cons line ls ih =>
    obtain ⟨hline, hls⟩ := List.forall_mem_cons.mp h
    have hlf : '\n' ∉ line ++ ['\r'] := by simp [hline]
    have happend : writeLines (line :: ls) ++ rest =
        line ++ ['\r'] ++ '\n' :: (writeLines ls ++ rest) := by simp [writeLines]
    have hstrip : stripCr (line ++ ['\r']) = line := by
      rw [stripCr, if_pos ⟨line, rfl⟩, List.dropLast_concat]
    rw [happend, lines_append_lf hlf, hstrip, ih hls]
    rfl

theorem trimEndMatches_stripCr (t : Text) :
    trimEndMatches (· == '\r') (stripCr t) = trimEndMatches (· == '\r') t := by
  unfold stripCr
  split
  · next h =>
    obtain ⟨u, rfl⟩ := h
    rw [List.dropLast_concat, trimEndMatches_concat_of_pos (by decide)]
  · rfl

@[simp] theorem stripPrefix_append (mark t : Text) : stripPrefix mark (mark ++ t) = some t := by
  rw [stripPrefix, if_pos (List.prefix_append mark t), List.drop_left]

theorem stripPrefix_eq_some_iff {mark t rest : Text} :
    stripPrefix mark t = some rest ↔ t = mark ++ rest := by
  constructor
  · intro h
    unfold stripPrefix at h
    split at h
    · next hmark =>
      obtain ⟨u, rfl⟩ := hmark
      rw [List.drop_left, Option.some_inj] at h
      rw [h]
    · cases h
  · rintro rfl
    exact stripPrefix_append mark rest

theorem stripSuffix_append (mark t : Text) : stripSuffix mark (t ++ mark) = some t := by
  rw [stripSuffix, if_pos (List.suffix_append t mark)]
  simp

theorem eq_append_of_stripSuffix {mark t rest : Text} (h : stripSuffix mark t = some rest) :
    t = rest ++ mark := by
  unfold stripSuffix at h
  split at h
  · next hmark =>
    obtain ⟨u, rfl⟩ := hmark
    obtain rfl := Option.some.inj h
    simp
  · cases h

theorem prefix_of_stripPrefix {mark t rest : Text} (h : stripPrefix mark t = some rest) :
    mark <+: t :=
  ⟨rest, (stripPrefix_eq_some_iff.mp h).symm⟩

theorem not_prefix_of_stripPrefix {mark t : Text} (h : stripPrefix mark t = none) :
    ¬mark <+: t := by
  intro hmark
  rw [stripPrefix, if_pos hmark] at h
  cases h

/-- Trimming the end leaves a mark at the start that it does not end in. -/
theorem stripPrefix_trimEndMatches {p : Char → Bool} {mark : Text} {c : Char} (hc : p c = false)
    (t : Text) : stripPrefix (mark ++ [c]) (trimEndMatches p t) =
      (stripPrefix (mark ++ [c]) t).map (trimEndMatches p) := by
  by_cases h : mark ++ [c] <+: t
  · obtain ⟨rest, rfl⟩ := h
    rw [List.append_assoc, List.singleton_append, trimEndMatches_append_cons hc, stripPrefix,
      stripPrefix, if_pos ⟨trimEndMatches p rest, by simp⟩, if_pos ⟨rest, by simp⟩]
    simp
  · have hnot : ¬ mark ++ [c] <+: trimEndMatches p t :=
      fun hm => h (hm.trans (trimEndMatches_initial p t))
    rw [stripPrefix, stripPrefix, if_neg h, if_neg hnot]
    rfl

/-! ## Words -/

@[simp] theorem words_nil : words [] = [] := rfl

/-- No word reaches over whitespace. -/
theorem words_append_cons {c : Char} (h : isWhitespace c = true) (s t : Text) :
    words (s ++ c :: t) = words s ++ words t := by
  rw [words, words, words, List.splitOnP_append_cons s t h, List.filter_append]

theorem words_cons {c : Char} (h : isWhitespace c = true) (t : Text) : words (c :: t) = words t :=
  words_append_cons h [] t

theorem words_of_forall {w : Text} (hne : w ≠ []) (h : ∀ c ∈ w, isWhitespace c = false) :
    words w = [w] := by
  rw [words, List.splitOnP_eq_singleton h]
  simp [hne]

theorem words_trimStart (t : Text) : words (trimStart t) = words t := by
  induction t with
  | nil => rfl
  | cons c t ih =>
    by_cases h : isWhitespace c = true
    · rw [words_cons h, ← ih, trimStart, List.dropWhile_cons_of_pos h]
      rfl
    · rw [trimStart, List.dropWhile_cons_of_neg h]

theorem words_trimEnd (t : Text) : words (trimEnd t) = words t := by
  induction t using List.reverseRecOn with
  | nil => rfl
  | append_singleton t c ih =>
    unfold trimEnd at ih ⊢
    cases h : isWhitespace c with
    | true =>
      rw [trimEndMatches_concat_of_pos h, ih, words_append_cons h, words_nil, List.append_nil]
    | false => rw [trimEndMatches_concat_of_neg h]

theorem words_trim (t : Text) : words (trim t) = words t := by
  rw [trim, words_trimEnd, words_trimStart]

theorem IsWord.words_eq {w : Text} (h : w.IsWord) : words w = [w] := words_of_forall h.1 h.2

theorem IsWord.lf_not_mem {w : Text} (h : w.IsWord) : '\n' ∉ w := fun hm =>
  absurd (h.2 _ hm) (by decide)

/-- Texts that a space comes before have the words that each of them has. -/
theorem words_flatMap_space (ts : List Text) :
    words (ts.flatMap (' ' :: ·)) = ts.flatMap words := by
  have hspace : isWhitespace ' ' = true := by decide
  induction ts with
  | nil => rfl
  | cons t ts ih =>
    rw [List.flatMap_cons, List.flatMap_cons, List.cons_append, words_cons hspace]
    cases ts with
    | nil => simp
    | cons u ts =>
      rw [List.flatMap_cons, List.cons_append, words_cons hspace] at ih
      rw [List.flatMap_cons, List.cons_append, words_append_cons hspace, ih]

theorem words_joinFields {ws : List Text} (h : ∀ w ∈ ws, w.IsWord) :
    words (joinFields ' ' ws) = ws := by
  induction ws with
  | nil => rfl
  | cons w ws ih =>
    obtain ⟨hw, hws⟩ := List.forall_mem_cons.mp h
    cases ws with
    | nil => exact hw.words_eq
    | cons v ws =>
      rw [joinFields_cons w (List.cons_ne_nil v ws), words_append_cons (by decide), hw.words_eq,
        ih hws]
      rfl

/-- A word is not empty, and no character of it is whitespace. -/
theorem of_mem_words {t w : Text} (h : w ∈ words t) :
    w ≠ [] ∧ ∀ c ∈ w, isWhitespace c = false := by
  obtain ⟨hmem, hne⟩ := List.mem_filter.mp h
  refine ⟨by simpa using hne, ?_⟩
  clear h hne
  induction t generalizing w with
  | nil =>
    rw [List.splitOnP_nil, List.mem_singleton] at hmem
    simp [hmem]
  | cons d t ih =>
    rw [List.splitOnP_cons_eq_if_modifyHead] at hmem
    split at hmem
    · rcases List.mem_cons.mp hmem with rfl | hmem
      · simp
      · exact ih hmem
    · next hd =>
      obtain ⟨head, tail, hsplit⟩ :=
        List.exists_cons_of_ne_nil (List.splitOnP_ne_nil isWhitespace t)
      rw [hsplit, List.modifyHead_cons] at hmem
      rw [hsplit] at ih
      rcases List.mem_cons.mp hmem with rfl | hmem
      · intro c hc
        rcases List.mem_cons.mp hc with rfl | hc
        · simpa using hd
        · exact ih List.mem_cons_self c hc
      · exact ih (List.mem_cons_of_mem _ hmem)

end Text

end Smolweb
