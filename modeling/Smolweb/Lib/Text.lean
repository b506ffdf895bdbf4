import Mathlib.Data.List.DropRight
import Mathlib.Data.List.Infix

/-!
# Text as lists of characters

A `str` is a sequence of Unicode scalar values, so it is modelled by `List Char`. This file gives
the string operations that line-oriented protocols are parsed with: trimming (`trim`,
`trimStart`, `trimEnd`, `trimEndMatches`), splitting at the first separator (`splitOnce`) and
slicing at a byte offset (`splitAtByte`), each with the rules the parsers' proofs use.
-/

namespace Smolweb

/-- A string: its characters in order. -/
abbrev Text := List Char

namespace Text

/-- The Unicode property `White_Space`. -/
def isWhitespace (c : Char) : Bool :=
  let n := c.toNat
  (0x09 ≤ n && n ≤ 0x0D) || n == 0x20 || n == 0x85 || n == 0xA0 || n == 0x1680 ||
    (0x2000 ≤ n && n ≤ 0x200A) || n == 0x2028 || n == 0x2029 || n == 0x202F || n == 0x205F ||
    n == 0x3000

/-- `char::is_ascii_punctuation`. -/
def isAsciiPunctuation (c : Char) : Bool :=
  let n := c.toNat
  (0x21 ≤ n && n ≤ 0x2F) || (0x3A ≤ n && n ≤ 0x40) || (0x5B ≤ n && n ≤ 0x60) ||
    (0x7B ≤ n && n ≤ 0x7E)

def trimStart (t : Text) : Text := t.dropWhile isWhitespace

/-- `str::trim_end_matches` for a set of characters. -/
def trimEndMatches (p : Char → Bool) (t : Text) : Text := t.rdropWhile p

def trimEnd (t : Text) : Text := trimEndMatches isWhitespace t

def trim (t : Text) : Text := trimEnd (trimStart t)

/-- The set `['\r', '\n']` a line is trimmed of. -/
def isLineBreak (c : Char) : Bool := c == '\r' || c == '\n'

/-- A text without line breaks. -/
def OneLine (t : Text) : Prop := ∀ c ∈ t, isLineBreak c = false

theorem oneLine_iff {t : Text} : t.OneLine ↔ t.all (fun c => !isLineBreak c) = true := by
  simp [OneLine]

instance (t : Text) : Decidable t.OneLine := decidable_of_iff _ oneLine_iff.symm

theorem oneLine_iff_not_mem {t : Text} : t.OneLine ↔ '\r' ∉ t ∧ '\n' ∉ t := by
  constructor
  · intro h
    refine ⟨fun hr => ?_, fun hn => ?_⟩
    · exact absurd (h _ hr) (by decide)
    · exact absurd (h _ hn) (by decide)
  · rintro ⟨hr, hn⟩ c hc
    simp only [isLineBreak, Bool.or_eq_false_iff, beq_eq_false_iff_ne]
    refine ⟨?_, ?_⟩
    · rintro rfl
      exact hr hc
    · rintro rfl
      exact hn hc

@[simp] theorem oneLine_nil : OneLine [] := by simp [OneLine]

@[simp] theorem oneLine_cons {c : Char} {t : Text} :
    OneLine (c :: t) ↔ isLineBreak c = false ∧ t.OneLine := by
  simp [OneLine]

@[simp] theorem oneLine_append {s t : Text} : (s ++ t).OneLine ↔ s.OneLine ∧ t.OneLine := by
  simp [oneLine_iff_not_mem, and_assoc, and_left_comm]

theorem OneLine.append {s t : Text} (hs : s.OneLine) (ht : t.OneLine) : (s ++ t).OneLine :=
  oneLine_append.mpr ⟨hs, ht⟩

/-- `str::split_once` at a character: what stands before and after its first occurrence. -/
def splitOnce (sep : Char) : Text → Option (Text × Text)
  | [] => none
  | c :: t => if c = sep then some ([], t) else (splitOnce sep t).map fun p => (c :: p.1, p.2)

/-- `str::split_once` at a set of characters. -/
def splitOnceWhere (p : Char → Bool) : Text → Option (Text × Text)
  | [] => none
  | c :: t => if p c then some ([], t) else (splitOnceWhere p t).map fun q => (c :: q.1, q.2)

/-- `str::rsplit_once` at a character: what stands before and after its last occurrence. -/
def rsplitOnce (sep : Char) (t : Text) : Option (Text × Text) :=
  (splitOnce sep t.reverse).map fun p => (p.2.reverse, p.1.reverse)

/-- `(s.get(..n), s.get(n..))`: the string cut at byte offset `n`, which must fall on a
character boundary within it. -/
def splitAtByte : Nat → Text → Option (Text × Text)
  | 0, t => some ([], t)
  | _ + 1, [] => none
  | n + 1, c :: t =>
    if c.utf8Size ≤ n + 1 then
      (splitAtByte (n + 1 - c.utf8Size) t).map fun p => (c :: p.1, p.2)
    else none
termination_by _ t => t.length

theorem splitAtByte_one {c : Char} (h : c.utf8Size = 1) (t : Text) :
    splitAtByte 1 (c :: t) = some ([c], t) := by
  rw [splitAtByte, if_pos (Nat.le_of_eq h), h, splitAtByte]
  rfl

theorem length_le_of_splitAtByte {n : Nat} {t a b : Text} (h : splitAtByte n t = some (a, b)) :
    a.length ≤ n := by
  induction n, t using splitAtByte.induct generalizing a b with
  | case1 t =>
    rw [splitAtByte] at h
    cases h
    exact Nat.le_refl 0
  | case2 n =>
    rw [splitAtByte] at h
    cases h
  | case3 n c t hsize ih =>
    rw [splitAtByte, if_pos hsize, Option.map_eq_some_iff] at h
    obtain ⟨⟨a', b'⟩, hrest, heq⟩ := h
    cases heq
    have hpos := c.utf8Size_pos
    have hlength := ih hrest
    simp only [List.length_cons]
    omega
  | case4 n c t hsize =>
    rw [splitAtByte, if_neg hsize] at h
    cases h

theorem append_of_splitAtByte {n : Nat} {t a b : Text} (h : splitAtByte n t = some (a, b)) :
    a ++ b = t := by
  induction n, t using splitAtByte.induct generalizing a b with
  | case1 t =>
    rw [splitAtByte] at h
    cases h
    rfl
  | case2 n =>
    rw [splitAtByte] at h
    cases h
  | case3 n c t hsize ih =>
    rw [splitAtByte, if_pos hsize, Option.map_eq_some_iff] at h
    obtain ⟨⟨a', b'⟩, hrest, heq⟩ := h
    cases heq
    rw [List.cons_append, ih hrest]
  | case4 n c t hsize =>
    rw [splitAtByte, if_neg hsize] at h
    cases h

/-- The first word, `split_whitespace().next()`; empty if there is none. -/
def firstWord (t : Text) : Text := (trimStart t).takeWhile fun c => !isWhitespace c

/-- The text without the one `"\r\n"` or `'\n'` that may end it. -/
def stripLineEnd (t : Text) : Text :=
  if ['\r', '\n'] <:+ t then t.dropLast.dropLast
  else if ['\n'] <:+ t then t.dropLast
  else t

theorem stripLineEnd_crlf (t : Text) : stripLineEnd (t ++ ['\r', '\n']) = t := by
  have hdrop : (t ++ ['\r', '\n']).dropLast.dropLast = t := by
    rw [List.dropLast_append_cons]
    simp
  rw [stripLineEnd, if_pos (List.suffix_append ..), hdrop]

theorem stripLineEnd_of_not_mem {t : Text} (h : '\n' ∉ t) : stripLineEnd t = t := by
  have hcrlf : ¬['\r', '\n'] <:+ t := fun hs => h (hs.subset (by simp))
  have hlf : ¬['\n'] <:+ t := fun hs => h (hs.subset (by simp))
  rw [stripLineEnd, if_neg hcrlf, if_neg hlf]

/-! ## Splitting -/

theorem splitOnce_eq_none_iff {sep : Char} {t : Text} : splitOnce sep t = none ↔ sep ∉ t := by
  induction t with
  | nil => simp [splitOnce]
  | cons c t ih =>
    by_cases h : c = sep
    · simp [splitOnce, h]
    · simp [splitOnce, h, ih, Ne.symm h]

/-- The first separator is the one after a prefix that holds none. -/
theorem splitOnce_append {sep : Char} {a : Text} (h : sep ∉ a) (b : Text) :
    splitOnce sep (a ++ sep :: b) = some (a, b) := by
  induction a with
  | nil => simp [splitOnce]
  | cons c a ih =>
    obtain ⟨hc, ha⟩ := List.ne_and_not_mem_of_not_mem_cons h
    simp [splitOnce, Ne.symm hc, ih ha]

theorem splitOnce_eq_some_iff {sep : Char} {t a b : Text} :
    splitOnce sep t = some (a, b) ↔ t = a ++ sep :: b ∧ sep ∉ a := by
  constructor
  · intro h
    induction t generalizing a with
    | nil => simp [splitOnce] at h
    | cons c t ih =>
      by_cases hc : c = sep
      · simp only [splitOnce, hc, ite_true, Option.some.injEq, Prod.mk.injEq] at h
        obtain ⟨rfl, rfl⟩ := h
        simp [hc]
      · simp only [splitOnce, hc, ite_false, Option.map_eq_some_iff, Prod.mk.injEq,
          Prod.exists] at h
        obtain ⟨a', b', hs, rfl, rfl⟩ := h
        obtain ⟨rfl, ha⟩ := ih hs
        exact ⟨rfl, by simp [Ne.symm hc, ha]⟩
  · rintro ⟨rfl, ha⟩
    exact splitOnce_append ha b

theorem splitOnceWhere_eq_none_iff {p : Char → Bool} {t : Text} :
    splitOnceWhere p t = none ↔ ∀ c ∈ t, p c = false := by
  induction t with
  | nil => simp [splitOnceWhere]
  | cons d t ih =>
    cases hd : p d with
    | true => simp [splitOnceWhere, hd]
    | false => simp [splitOnceWhere, hd, ih]

theorem splitOnceWhere_append {p : Char → Bool} {a : Text} (ha : ∀ c ∈ a, p c = false) {c : Char}
    (hc : p c = true) (b : Text) : splitOnceWhere p (a ++ c :: b) = some (a, b) := by
  induction a with
  | nil => simp [splitOnceWhere, hc]
  | cons d a ih =>
    obtain ⟨hd, ha⟩ := List.forall_mem_cons.mp ha
    simp [splitOnceWhere, hd, ih ha]

theorem splitOnceWhere_eq_some {p : Char → Bool} {t a b : Text}
    (h : splitOnceWhere p t = some (a, b)) :
    (∃ c, t = a ++ c :: b ∧ p c = true) ∧ ∀ c ∈ a, p c = false := by
  induction t generalizing a with
  | nil => cases h
  | cons d t ih =>
    unfold splitOnceWhere at h
    split at h
    · next hd =>
      obtain ⟨rfl, rfl⟩ := Prod.mk.inj (Option.some.inj h)
      exact ⟨⟨d, rfl, hd⟩, by simp⟩
    · next hd =>
      obtain ⟨⟨a', b'⟩, hsplit, heq⟩ := Option.map_eq_some_iff.mp h
      obtain ⟨rfl, rfl⟩ := Prod.mk.inj heq
      obtain ⟨⟨c, rfl, hc⟩, ha⟩ := ih hsplit
      exact ⟨⟨c, rfl, hc⟩, List.forall_mem_cons.mpr ⟨by simpa using hd, ha⟩⟩

theorem rsplitOnce_append {sep : Char} {b : Text} (h : sep ∉ b) (a : Text) :
    rsplitOnce sep (a ++ sep :: b) = some (a, b) := by
  have hreverse : (a ++ sep :: b).reverse = b.reverse ++ sep :: a.reverse := by simp
  rw [rsplitOnce, hreverse, splitOnce_append (by simpa using h)]
  simp

theorem rsplitOnce_eq_some {sep : Char} {t a b : Text} (h : rsplitOnce sep t = some (a, b)) :
    t = a ++ sep :: b ∧ sep ∉ b := by
  obtain ⟨⟨b', a'⟩, hsplit, heq⟩ := Option.map_eq_some_iff.mp h
  obtain ⟨hreverse, hb⟩ := splitOnce_eq_some_iff.mp hsplit
  obtain ⟨rfl, rfl⟩ := Prod.mk.inj heq
  refine ⟨?_, by simpa using hb⟩
  rw [← List.reverse_reverse t, hreverse]
  simp

/-! ## Trimming -/

@[simp] theorem trimStart_nil : trimStart [] = [] := rfl

@[simp] theorem trimEndMatches_nil (p : Char → Bool) : trimEndMatches p [] = [] :=
  List.rdropWhile_nil p

theorem trimEndMatches_concat_of_pos {p : Char → Bool} {c : Char} (h : p c = true) (t : Text) :
    trimEndMatches p (t ++ [c]) = trimEndMatches p t :=
  List.rdropWhile_concat_pos p t c h

theorem trimEndMatches_append {p : Char → Bool} (t : Text) {u : Text} (h : ∀ c ∈ u, p c = true) :
    trimEndMatches p (t ++ u) = trimEndMatches p t := by
  induction u using List.reverseRecOn with
  | nil => simp
  | append_singleton u c ih =>
    rw [← List.append_assoc, trimEndMatches_concat_of_pos (h c (by simp))]
    exact ih fun d hd => h d (by simp [hd])

theorem trimEndMatches_concat_of_neg {p : Char → Bool} {c : Char} (h : p c = false) (t : Text) :
    trimEndMatches p (t ++ [c]) = t ++ [c] :=
  List.rdropWhile_concat_neg p t c (by simp [h])

theorem trimEndMatches_append_cons {p : Char → Bool} {c : Char} (h : p c = false) (t u : Text) :
    trimEndMatches p (t ++ c :: u) = t ++ c :: trimEndMatches p u := by
  induction u using List.reverseRecOn with
  | nil => rw [trimEndMatches_concat_of_neg h, trimEndMatches_nil]
  | append_singleton u d ih =>
    rw [← List.cons_append, ← List.append_assoc]
    cases hd : p d with
    | true => rw [trimEndMatches_concat_of_pos hd, trimEndMatches_concat_of_pos hd, ih]
    | false =>
      rw [trimEndMatches_concat_of_neg hd, trimEndMatches_concat_of_neg hd]
      simp

theorem trimEndMatches_eq_self_iff {p : Char → Bool} {t : Text} :
    trimEndMatches p t = t ↔ ∀ c, t.getLast? = some c → p c = false := by
  rw [trimEndMatches, List.rdropWhile_eq_self_iff]
  constructor
  · intro h c hc
    obtain ⟨u, rfl⟩ := List.getLast?_eq_some_iff.mp hc
    simpa using h (by simp)
  · intro h hne
    simpa using h _ (List.getLast?_eq_some_getLast hne)

/-- What is not trimmed has no end that is. -/
theorem trimEndMatches_eq_self_of_suffix {p : Char → Bool} {t u : Text} (hu : u <:+ t)
    (ht : trimEndMatches p t = t) : trimEndMatches p u = u := by
  obtain ⟨v, rfl⟩ := hu
  rw [trimEndMatches_eq_self_iff] at ht ⊢
  intro c hc
  apply ht c
  rw [List.getLast?_append, hc, Option.some_or]

/-- What ends a line is trimmed off, and no more. -/
theorem OneLine.trimEnd_append {t : Text} (h : t.OneLine) {ending : Text}
    (hending : ∀ c ∈ ending, isLineBreak c = true) :
    trimEndMatches isLineBreak (t ++ ending) = t := by
  rw [trimEndMatches_append t hending, trimEndMatches_eq_self_iff]
  intro c hc
  exact h c (List.mem_of_getLast? hc)

theorem OneLine.trimEnd_eq {t : Text} (h : t.OneLine) : trimEndMatches isLineBreak t = t := by
  have happend := @OneLine.trimEnd_append t h [] (by simp)
  rwa [List.append_nil] at happend

theorem OneLine.trimEnd_crlf {t : Text} (h : t.OneLine) :
    trimEndMatches isLineBreak (t ++ ['\r', '\n']) = t :=
  h.trimEnd_append (by simp [isLineBreak])

theorem trimEndMatches_initial (p : Char → Bool) (t : Text) : trimEndMatches p t <+: t :=
  List.rdropWhile_prefix p t

theorem trimStart_suffix (t : Text) : trimStart t <:+ t := List.dropWhile_suffix _

theorem trimStart_eq_self_iff {t : Text} :
    trimStart t = t ↔ ∀ c, t.head? = some c → isWhitespace c = false := by
  cases t with
  | nil => simp
  | cons c t =>
    by_cases h : isWhitespace c = true
    · simp only [trimStart, List.dropWhile_cons_of_pos h, List.head?_cons, Option.some.injEq,
        forall_eq', h, reduceCtorEq, iff_false]
      intro he
      have hl : (List.dropWhile isWhitespace t).length ≤ t.length :=
        (List.dropWhile_suffix isWhitespace).length_le
      rw [he, List.length_cons] at hl
      omega
    · simp [trimStart, h]

theorem trimStart_append_eq_self {t : Text} (hne : t ≠ []) (ht : trimStart t = t) (u : Text) :
    trimStart (t ++ u) = t ++ u := by
  rw [trimStart_eq_self_iff] at ht ⊢
  intro c hc
  rw [List.head?_append_of_ne_nil _ hne] at hc
  exact ht c hc

theorem trim_eq_self_iff {t : Text} : trim t = t ↔
    (∀ c, t.head? = some c → isWhitespace c = false) ∧
      ∀ c, t.getLast? = some c → isWhitespace c = false := by
  rw [← trimStart_eq_self_iff, ← trimEndMatches_eq_self_iff]
  constructor
  · intro h
    have h1 : (trim t).length ≤ (trimStart t).length := (trimEndMatches_initial _ _).length_le
    have hs : trimStart t = t := (trimStart_suffix t).eq_of_length_le (by rw [h] at h1; exact h1)
    exact ⟨hs, by rw [trim, hs] at h; exact h⟩
  · rintro ⟨hs, he⟩
    rw [trim, hs]
    exact he

theorem trimStart_cons {c : Char} (h : isWhitespace c = true) (t : Text) :
    trimStart (c :: t) = trimStart t :=
  List.dropWhile_cons_of_pos h

theorem trim_cons {c : Char} (h : isWhitespace c = true) (t : Text) : trim (c :: t) = trim t := by
  rw [trim, trimStart_cons h, ← trim]

theorem trimStart_space (t : Text) : trimStart (' ' :: t) = trimStart t := trimStart_cons rfl t

theorem trim_space (t : Text) : trim (' ' :: t) = trim t := trim_cons rfl t

theorem isWhitespace_of_isLineBreak {c : Char} (h : isLineBreak c = true) :
    isWhitespace c = true := by
  simp only [isLineBreak, Bool.or_eq_true, beq_iff_eq] at h
  rcases h with rfl | rfl <;> rfl

/-- What is trimmed ends no line. -/
theorem trimEnd_of_trim {t : Text} (h : trim t = t) : trimEndMatches isLineBreak t = t := by
  rw [trimEndMatches_eq_self_iff]
  intro c hc
  have hlast := (trim_eq_self_iff.mp h).2 c hc
  rw [← Bool.not_eq_true] at hlast ⊢
  exact fun hbreak => hlast (isWhitespace_of_isLineBreak hbreak)

/-- A text without whitespace is not trimmed. -/
theorem trim_of_forall {t : Text} (h : ∀ c ∈ t, isWhitespace c = false) : trim t = t :=
  trim_eq_self_iff.mpr
    ⟨fun c hc => h c (List.mem_of_head? hc), fun c hc => h c (List.mem_of_getLast? hc)⟩

theorem mem_of_mem_trim {t : Text} {c : Char} (h : c ∈ trim t) : c ∈ t :=
  (trimStart_suffix t).subset ((trimEndMatches_initial _ _).subset h)

theorem head_trimStart {t : Text} {c : Char} (h : (trimStart t).head? = some c) :
    isWhitespace c = false := by
  have hself : trimStart (trimStart t) = trimStart t := List.dropWhile_idempotent ..
  exact trimStart_eq_self_iff.mp hself c h

theorem trim_trim (t : Text) : trim (trim t) = trim t := by
  apply trim_eq_self_iff.mpr
  constructor
  · intro c hc
    obtain ⟨rest, hrest⟩ := trimEndMatches_initial isWhitespace (trimStart t)
    apply head_trimStart (t := t)
    rw [← hrest, List.head?_append]
    change ((trim t).head?.or rest.head?) = some c
    rw [hc, Option.some_or]
  · have hself : trimEnd (trim t) = trim t := List.rdropWhile_idempotent ..
    exact trimEndMatches_eq_self_iff.mp hself

/-! ## The first word -/

theorem firstWord_sublist (t : Text) : (firstWord t).Sublist t :=
  (List.takeWhile_prefix _).sublist.trans (trimStart_suffix t).sublist

theorem isWhitespace_of_mem_firstWord {t : Text} {c : Char} (h : c ∈ firstWord t) :
    isWhitespace c = false := by
  simpa using List.mem_takeWhile_imp h

theorem firstWord_eq_self_iff {t : Text} :
    firstWord t = t ↔ ∀ c ∈ t, isWhitespace c = false := by
  constructor
  · intro h c hc
    rw [← h] at hc
    exact isWhitespace_of_mem_firstWord hc
  · intro h
    rw [firstWord, trimStart_eq_self_iff.mpr fun c hc => h c (List.mem_of_head? hc),
      List.takeWhile_eq_self_iff]
    simpa using h

theorem firstWord_eq_nil_iff {t : Text} : firstWord t = [] ↔ trim t = [] := by
  unfold firstWord trim
  cases h : trimStart t with
  | nil => simp [trimEnd]
  | cons c rest =>
    have hc : isWhitespace c = false := head_trimStart (by rw [h, List.head?_cons])
    have hkeep : trimEnd (c :: rest) = c :: trimEnd rest := trimEndMatches_append_cons hc [] rest
    rw [hkeep, List.takeWhile_cons_of_pos (by simp [hc])]
    simp

/-- What is put behind a text goes to the first word or stays outside. -/
theorem firstWord_concat {c : Char} (h : isWhitespace c = false) (t : Text) :
    firstWord (t ++ [c]) = firstWord t ∨ firstWord (t ++ [c]) = firstWord t ++ [c] := by
  unfold firstWord trimStart
  rw [List.dropWhile_append]
  split
  · next hnil =>
    rw [List.isEmpty_iff.mp hnil]
    right
    simp [h]
  · rw [List.takeWhile_append]
    split
    · next hall =>
      right
      rw [(List.takeWhile_prefix _).eq_of_length hall]
      simp [h]
    · exact .inl rfl

/-- The first word is not changed by whitespace that is trimmed off the end. -/
theorem firstWord_trimEndMatches {p : Char → Bool} (hp : ∀ c, p c = true → isWhitespace c = true)
    (t : Text) : firstWord (trimEndMatches p t) = firstWord t := by
  induction t using List.reverseRecOn with
  | nil => rw [trimEndMatches_nil]
  | append_singleton t c ih =>
    cases hc : p c with
    | false => rw [trimEndMatches_concat_of_neg hc]
    | true =>
      rw [trimEndMatches_concat_of_pos hc, ih]
      have hspace := hp c hc
      unfold firstWord trimStart
      rw [List.dropWhile_append]
      split
      · next hnil =>
        rw [List.isEmpty_iff.mp hnil]
        simp [hspace]
      · rw [List.takeWhile_append]
        split
        · next hall =>
          rw [(List.takeWhile_prefix _).eq_of_length hall]
          simp [hspace]
        · rfl

end Text

end Smolweb
