import Smolweb.Lib.Lines
import Smolweb.Lib.Url
import Smolweb.Lib.Utf8

/-!
# Paths of parsed URLs

What the URL standard makes of the text behind the host of a URL whose scheme is not special: the
end is trimmed and tabs and newlines are removed, the path ends at the first `?` or `#`, its dot
segments are resolved, and the characters of the path percent-encode set are encoded (`urlPath`).
A parser with these rules is `Hierarchical`.
-/

namespace Smolweb

namespace UrlPath

def isControlOrSpace (c : Char) : Bool := c.toNat ≤ 0x20

/-- What is left of the end of a URL before it is parsed. -/
def clean (t : Text) : Text := stripTabOrNewline (Text.trimEndMatches isControlOrSpace t)

def isPathChar (c : Char) : Bool := c != '?' && c != '#'

/-- The part up to the first `?` or `#`. -/
def pathPart (t : Text) : Text := t.takeWhile isPathChar

/-- Whether the path ends at a `?`. -/
def hasQuery (t : Text) : Bool := (t.dropWhile isPathChar).head? == some '?'

def singleDots : List Text := [".".toList, "%2e".toList, "%2E".toList]

def doubleDots : List Text :=
  ["..".toList, ".%2e".toList, ".%2E".toList, "%2e.".toList, "%2E.".toList, "%2e%2e".toList,
    "%2e%2E".toList, "%2E%2e".toList, "%2E%2E".toList]

def isSingleDot (segment : Text) : Bool := singleDots.contains segment

def isDoubleDot (segment : Text) : Bool := doubleDots.contains segment

/-- An upper case hex digit. -/
def hexDigit (n : UInt8) : Char :=
  if n < 10 then Char.ofNat (48 + n.toNat) else Char.ofNat (55 + n.toNat)

def percentByte (b : UInt8) : Text := ['%', hexDigit (b >>> 4), hexDigit (b &&& 0x0F)]

section Encode

-- The characters of the path percent-encode set that are in ASCII and no controls.
variable (inSet : Char → Bool)

def isEncoded (c : Char) : Bool := inSet c || c.toNat < 0x20 || 0x7E < c.toNat

def encodeChar (c : Char) : Text :=
  if isEncoded inSet c then (Utf8.encode [c]).flatMap percentByte else [c]

def encode (t : Text) : Text := t.flatMap (encodeChar inSet)

/-- The path state: `path` are the segments so far. -/
def pathSegments : (path segments : List Text) → List Text
  | path, [] => path
  | path, [segment] =>
    if isDoubleDot segment then path.dropLast ++ [[]]
    else if isSingleDot segment then path ++ [[]]
    else path ++ [encode inSet segment]
  | path, segment :: rest =>
    if isDoubleDot segment then pathSegments path.dropLast rest
    else if isSingleDot segment then pathSegments path rest
    else pathSegments (path ++ [encode inSet segment]) rest

/-- The path of what stands between the slash behind the host and the query. -/
def urlPath (t : Text) : Text := (pathSegments inSet [] (t.splitOn '/')).flatMap ('/' :: ·)

end Encode

/-- What is in the path percent-encode set and what is not, as far as it matters here. -/
structure PathSet (inSet : Char → Bool) : Prop where
  space : inSet ' ' = true
  question : inSet '?' = true
  number : inSet '#' = true
  slash : inSet '/' = false
  dot : inSet '.' = false
  percent : inSet '%' = false
  alphanum : ∀ c, c.isAlphanum = true → inSet c = false

/-! ## Encoding -/

variable {inSet : Char → Bool}

theorem encodeChar_of_not_encoded {c : Char} (h : isEncoded inSet c = false) :
    encodeChar inSet c = [c] := by
  rw [encodeChar, h]
  rfl

theorem encode_of_not_encoded {t : Text} (h : ∀ c ∈ t, isEncoded inSet c = false) :
    encode inSet t = t := by
  induction t with
  | nil => rfl
  | cons c t ih =>
    rw [encode, List.flatMap_cons, encodeChar_of_not_encoded (h c List.mem_cons_self), ← encode,
      ih fun d hd => h d (List.mem_cons_of_mem c hd)]
    rfl

@[simp] theorem encode_append (s t : Text) :
    encode inSet (s ++ t) = encode inSet s ++ encode inSet t :=
  List.flatMap_append

theorem encode_cons (c : Char) (t : Text) :
    encode inSet (c :: t) = encodeChar inSet c ++ encode inSet t := List.flatMap_cons

/-- What the documentation of an encoder says: a character is encoded or left, one by one. -/
structure Encodes (inSet : Char → Bool) (percentEncode : Text → Text) : Prop where
  nil : percentEncode [] = []
  cons : ∀ c t, percentEncode (c :: t) = encodeChar inSet c ++ percentEncode t

theorem encodes_encode (inSet : Char → Bool) : Encodes inSet (encode inSet) where
  nil := rfl
  cons := encode_cons

theorem Encodes.eq {percentEncode : Text → Text} (h : Encodes inSet percentEncode) :
    percentEncode = encode inSet := by
  funext t
  induction t with
  | nil => exact h.nil
  | cons c t ih => rw [h.cons, encode_cons, ih]

theorem length_percentBytes (b : Bytes) : (b.flatMap percentByte).length = 3 * b.length := by
  induction b with
  | nil => rfl
  | cons x b ih =>
    rw [List.flatMap_cons, List.length_append, ih, List.length_cons]
    change 3 + _ = _
    omega

theorem length_encodeChar {c : Char} (h : isEncoded inSet c = true) :
    ∃ k, 1 ≤ k ∧ (encodeChar inSet c).length = 3 * k := by
  refine ⟨(Utf8.encode [c]).length, ?_, ?_⟩
  · rw [Utf8.encode_cons, Utf8.encode_nil, List.append_nil, String.length_utf8EncodeChar]
    exact Char.utf8Size_pos c
  · rw [encodeChar, if_pos h, length_percentBytes]

theorem length_le_encode (t : Text) : t.length ≤ (encode inSet t).length := by
  induction t with
  | nil => exact Nat.le_refl _
  | cons c t ih =>
    rw [encode_cons, List.length_append, List.length_cons]
    cases hc : isEncoded inSet c with
    | false =>
      rw [encodeChar_of_not_encoded hc, List.length_singleton]
      omega
    | true =>
      obtain ⟨k, hk, hlength⟩ := length_encodeChar hc
      omega

theorem of_mem_percentByte {b : UInt8} {c : Char} (h : c ∈ percentByte b) :
    c = '%' ∨ c.isAlphanum = true ∧ 0x20 ≤ c.toNat ∧ c.toNat ≤ 0x7E := by
  have hall : ∀ b, (percentByte b).all fun c =>
      c == '%' || c.isAlphanum && decide (0x20 ≤ c.toNat) && decide (c.toNat ≤ 0x7E) :=
    byte_all (by decide +kernel)
  simpa [and_assoc] using List.all_eq_true.mp (hall b) c h

/-- Nothing that is encoded stays. -/
theorem not_encoded_of_mem_encode (hset : PathSet inSet) {t : Text} {c : Char}
    (h : c ∈ encode inSet t) : isEncoded inSet c = false := by
  obtain ⟨d, -, hc⟩ := List.mem_flatMap.mp h
  unfold encodeChar at hc
  split at hc
  · obtain ⟨b, -, hb⟩ := List.mem_flatMap.mp hc
    rcases of_mem_percentByte hb with rfl | ⟨halphanum, hlow, hhigh⟩
    · simp [isEncoded, hset.percent]
    · simp [isEncoded, hset.alphanum c halphanum, hlow, hhigh]
  · next hnot =>
    rw [List.mem_singleton.mp hc]
    simpa using hnot

theorem slash_not_mem_encode {t : Text} (h : '/' ∉ t) : '/' ∉ encode inSet t := by
  intro hm
  obtain ⟨d, hd, hc⟩ := List.mem_flatMap.mp hm
  unfold encodeChar at hc
  split at hc
  · obtain ⟨b, -, hb⟩ := List.mem_flatMap.mp hc
    rcases of_mem_percentByte hb with hpercent | ⟨halphanum, -⟩
    · exact absurd hpercent (by decide)
    · exact absurd halphanum (by decide)
  · rw [List.mem_singleton.mp hc] at h
    exact h hd

/-! ## Segments -/

/-- A segment that moves in the path and is no part of it. -/
def isDots (segment : Text) : Bool := isSingleDot segment || isDoubleDot segment

/-- What becomes of segments of which none is a dot segment. -/
theorem pathSegments_of_not_dots {segments : List Text} (path : List Text)
    (h : ∀ s ∈ segments, isDots s = false) :
    pathSegments inSet path segments = path ++ segments.map (encode inSet) := by
  fun_induction pathSegments inSet path segments with
  | case1 path => simp
  | case2 path s hdouble => simp [isDots, hdouble] at h
  | case3 path s hdouble hsingle => simp [isDots, hsingle] at h
  | case4 path s hdouble hsingle => simp
  | case5 path s rest hrest hdouble ih =>
    have hs := h s List.mem_cons_self
    simp [isDots, hdouble] at hs
  | case6 path s rest hrest hdouble hsingle ih =>
    have hs := h s List.mem_cons_self
    simp [isDots, hsingle] at hs
  | case7 path s rest hrest hdouble hsingle ih =>
    rw [ih fun t ht => h t (List.mem_cons_of_mem s ht)]
    simp

/-- No segment is added. -/
theorem length_pathSegments_le (path segments : List Text) (h : segments ≠ []) :
    (pathSegments inSet path segments).length ≤ path.length + segments.length := by
  fun_induction pathSegments inSet path segments with
  | case1 path => exact absurd rfl h
  | case2 path s hdouble => simp
  | case3 path s hdouble hsingle => simp
  | case4 path s hdouble hsingle => simp
  | case5 path s rest hrest hdouble ih =>
    have hle := ih (by simpa using hrest)
    simp only [List.length_dropLast, List.length_cons] at hle ⊢
    omega
  | case6 path s rest hrest hdouble hsingle ih =>
    have hle := ih (by simpa using hrest)
    simp only [List.length_cons]
    omega
  | case7 path s rest hrest hdouble hsingle ih =>
    have hle := ih (by simpa using hrest)
    simp only [List.length_append, List.length_cons, List.length_nil] at hle ⊢
    omega

theorem encode_dots (hset : PathSet inSet) {s : Text} (h : isDots s = true) :
    encode inSet s = s := by
  have hall : ∀ s ∈ singleDots ++ doubleDots, s.all fun c =>
      c == '.' || c == '%' || c.isAlphanum && decide (0x20 ≤ c.toNat) && decide (c.toNat ≤ 0x7E) :=
    List.all_eq_true.mp (by decide)
  have hmem : s ∈ singleDots ++ doubleDots := by
    simpa [isDots, isSingleDot, isDoubleDot] using h
  apply encode_of_not_encoded
  intro c hc
  have hplain := List.all_eq_true.mp (hall s hmem) c hc
  simp only [Bool.or_eq_true, beq_iff_eq, Bool.and_eq_true, decide_eq_true_eq] at hplain
  rcases hplain with (rfl | rfl) | ⟨⟨halphanum, hlow⟩, hhigh⟩
  · simp [isEncoded, hset.dot]
  · simp [isEncoded, hset.percent]
  · simp [isEncoded, hset.alphanum c halphanum, hlow, hhigh]

theorem length_singleDot {s : Text} (h : isSingleDot s = true) : s.length = 1 ∨ s.length = 3 := by
  have hall : singleDots.all fun s => s.length == 1 || s.length == 3 := by decide
  have hlength := List.all_eq_true.mp hall s (by simpa [isSingleDot] using h)
  simpa using hlength

theorem length_dots_pos {s : Text} (h : isDots s = true) : 1 ≤ s.length := by
  cases s with
  | nil => cases h
  | cons c s => simp

/-- Every dot segment makes the path shorter than what it was read from. -/
theorem weight_pathSegments (hset : PathSet inSet) (path segments : List Text) :
    Text.weight (pathSegments inSet path segments) ≤
        Text.weight path + Text.weight (segments.map (encode inSet)) ∧
      (Text.weight (pathSegments inSet path segments) =
        Text.weight path + Text.weight (segments.map (encode inSet)) →
          ∀ s ∈ segments, isDots s = false) := by
  fun_induction pathSegments inSet path segments with
  | case1 path => simp
  | case2 path s hdouble =>
    have hdots : isDots s = true := by simp [isDots, hdouble]
    have hpos := length_dots_pos hdots
    have hdrop := Text.weight_dropLast_le path
    simp only [Text.weight_append, List.map_cons, encode_dots hset hdots, Text.weight_cons,
      List.map_nil, Text.weight_nil, List.length_nil]
    omega
  | case3 path s hdouble hsingle =>
    have hdots : isDots s = true := by simp [isDots, hsingle]
    have hpos := length_dots_pos hdots
    simp only [Text.weight_append, List.map_cons, encode_dots hset hdots, Text.weight_cons,
      List.map_nil, Text.weight_nil, List.length_nil]
    omega
  | case4 path s hdouble hsingle => simp [isDots, hdouble, hsingle]
  | case5 path s rest hrest hdouble ih =>
    have hdots : isDots s = true := by simp [isDots, hdouble]
    have hpos := length_dots_pos hdots
    have hdrop := Text.weight_dropLast_le path
    simp only [List.map_cons, encode_dots hset hdots, Text.weight_cons]
    omega
  | case6 path s rest hrest hdouble hsingle ih =>
    have hdots : isDots s = true := by simp [isDots, hsingle]
    have hpos := length_dots_pos hdots
    simp only [List.map_cons, encode_dots hset hdots, Text.weight_cons]
    omega
  | case7 path s rest hrest hdouble hsingle ih =>
    obtain ⟨hle, heq⟩ := ih
    simp only [Text.weight_append, Text.weight_cons, Text.weight_nil, List.map_cons] at hle heq ⊢
    refine ⟨by omega, fun h => List.forall_mem_cons.mpr ⟨?_, heq (by omega)⟩⟩
    simp [isDots, hdouble, hsingle]

/-- A path with a segment for every segment it was read from is empty or lost one dot segment at
most, the last one. -/
theorem weight_of_length_le (hset : PathSet inSet) {path segments : List Text}
    (hne : segments ≠ [])
    (h : path.length + segments.length ≤ (pathSegments inSet path segments).length) :
    pathSegments inSet path segments = [[]] ∨ ∃ loss, (loss = 0 ∨ loss = 1 ∨ loss = 3) ∧
      Text.weight (pathSegments inSet path segments) + loss =
        Text.weight path + Text.weight (segments.map (encode inSet)) := by
  fun_induction pathSegments inSet path segments with
  | case1 path => exact absurd rfl hne
  | case2 path s hdouble =>
    have hempty : path = [] := by
      simp only [List.length_append, List.length_dropLast, List.length_cons, List.length_nil] at h
      apply List.eq_nil_of_length_eq_zero
      omega
    exact .inl (by rw [hempty]; rfl)
  | case3 path s hdouble hsingle =>
    have hdots : isDots s = true := by simp [isDots, hsingle]
    refine .inr ⟨s.length, .inr (length_singleDot hsingle), ?_⟩
    simp only [Text.weight_append, List.map_cons, encode_dots hset hdots, Text.weight_cons,
      List.map_nil, Text.weight_nil, List.length_nil]
    omega
  | case4 path s hdouble hsingle => exact .inr ⟨0, .inl rfl, by simp⟩
  | case5 path s rest hrest hdouble ih =>
    have hle := @length_pathSegments_le inSet path.dropLast rest (by simpa using hrest)
    simp only [List.length_dropLast, List.length_cons] at h hle
    omega
  | case6 path s rest hrest hdouble hsingle ih =>
    have hle := @length_pathSegments_le inSet path rest (by simpa using hrest)
    simp only [List.length_cons] at h
    omega
  | case7 path s rest hrest hdouble hsingle ih =>
    simp only [List.length_append, List.length_cons, List.length_nil] at h ih
    rcases ih (by simpa using hrest) (by omega) with hnil | ⟨loss, hloss, hweight⟩
    · exact .inl hnil
    · refine .inr ⟨loss, hloss, ?_⟩
      rw [hweight]
      simp only [Text.weight_append, Text.weight_cons, Text.weight_nil, List.map_cons]
      omega

/-- Where a segment of a path comes from. -/
theorem of_mem_pathSegments {path segments : List Text} {s : Text}
    (h : s ∈ pathSegments inSet path segments) :
    s ∈ path ∨ s = [] ∨ ∃ t ∈ segments, s = encode inSet t := by
  have hmem (u : Text) (rest : List Text) (ht : ∃ t ∈ rest, s = encode inSet t) :
      ∃ t ∈ u :: rest, s = encode inSet t := by
    obtain ⟨t, ht, hs⟩ := ht
    exact ⟨t, List.mem_cons_of_mem u ht, hs⟩
  fun_induction pathSegments inSet path segments with
  | case1 path => exact .inl h
  | case2 path u hdouble =>
    rcases List.mem_append.mp h with h | h
    · exact .inl (List.mem_of_mem_dropLast h)
    · exact .inr (.inl (List.mem_singleton.mp h))
  | case3 path u hdouble hsingle =>
    rcases List.mem_append.mp h with h | h
    · exact .inl h
    · exact .inr (.inl (List.mem_singleton.mp h))
  | case4 path u hdouble hsingle =>
    rcases List.mem_append.mp h with h | h
    · exact .inl h
    · exact .inr (.inr ⟨u, List.mem_cons_self, List.mem_singleton.mp h⟩)
  | case5 path u rest hrest hdouble ih =>
    rcases ih h with h | h | h
    · exact .inl (List.mem_of_mem_dropLast h)
    · exact .inr (.inl h)
    · exact .inr (.inr (hmem u rest h))
  | case6 path u rest hrest hdouble hsingle ih =>
    exact (ih h).imp_right (Or.imp_right (hmem u rest))
  | case7 path u rest hrest hdouble hsingle ih =>
    rcases ih h with h | h | h
    · rcases List.mem_append.mp h with h | h
      · exact .inl h
      · exact .inr (.inr ⟨u, List.mem_cons_self, List.mem_singleton.mp h⟩)
    · exact .inr (.inl h)
    · exact .inr (.inr (hmem u rest h))

/-! ## Paths -/

/-- Segments as they are written, each behind a slash. -/
def slashed (segments : List Text) : Text := segments.flatMap ('/' :: ·)

theorem urlPath_eq (t : Text) : urlPath inSet t = slashed (pathSegments inSet [] (t.splitOn '/')) :=
  rfl

theorem pathSegments_ne_nil {path segments : List Text} (h : segments ≠ []) :
    pathSegments inSet path segments ≠ [] := by
  fun_induction pathSegments inSet path segments with
  | case1 path => exact absurd rfl h
  | case2 path s hdouble => simp
  | case3 path s hdouble hsingle => simp
  | case4 path s hdouble hsingle => simp
  | case5 path s rest hrest hdouble ih => exact ih (by simpa using hrest)
  | case6 path s rest hrest hdouble hsingle ih => exact ih (by simpa using hrest)
  | case7 path s rest hrest hdouble hsingle ih => exact ih (by simpa using hrest)

theorem urlPath_eq_cons (t : Text) : ∃ path, urlPath inSet t = '/' :: path := by
  obtain ⟨s, rest, hsegments⟩ := List.exists_cons_of_ne_nil
    (@pathSegments_ne_nil inSet [] _ (List.splitOn_ne_nil '/' t))
  exact ⟨s ++ slashed rest, by rw [urlPath_eq, hsegments]; rfl⟩

theorem length_slashed (segments : List Text) :
    (slashed segments).length = Text.weight segments := by
  induction segments with
  | nil => rfl
  | cons s rest ih =>
    rw [slashed, List.flatMap_cons, ← slashed, List.length_append, ih, Text.weight_cons,
      List.length_cons]

theorem count_slashed {segments : List Text} (h : ∀ s ∈ segments, '/' ∉ s) :
    (slashed segments).count '/' = segments.length := by
  induction segments with
  | nil => rfl
  | cons s rest ih =>
    rw [slashed, List.flatMap_cons, ← slashed, List.count_append,
      ih fun t ht => h t (List.mem_cons_of_mem s ht), List.count_cons_self,
      List.count_eq_zero.mpr (h s List.mem_cons_self), List.length_cons]
    omega

theorem slashed_splitOn (t : Text) : slashed (t.splitOn '/') = '/' :: t := by
  induction t with
  | nil => rfl
  | cons c t ih =>
    rw [List.splitOn_cons_eq_if_modifyHead]
    split
    · next hc =>
      rw [slashed, List.flatMap_cons, ← slashed, ih, beq_iff_eq.mp hc]
      rfl
    · obtain ⟨head, tail, hsplit⟩ := List.exists_cons_of_ne_nil (List.splitOn_ne_nil '/' t)
      rw [hsplit] at ih ⊢
      simp only [slashed, List.modifyHead_cons, List.flatMap_cons, List.cons_append,
        List.cons.injEq, true_and] at ih ⊢
      exact ih

theorem encode_slashed (hset : PathSet inSet) (segments : List Text) :
    encode inSet (slashed segments) = slashed (segments.map (encode inSet)) := by
  have hslash : isEncoded inSet '/' = false := by simp [isEncoded, hset.slash]
  induction segments with
  | nil => rfl
  | cons s rest ih =>
    rw [slashed, List.flatMap_cons, ← slashed, encode_append, ih, encode_cons,
      encodeChar_of_not_encoded hslash]
    rfl

theorem weight_splitOn (hset : PathSet inSet) (t : Text) :
    Text.weight ((t.splitOn '/').map (encode inSet)) = (encode inSet t).length + 1 := by
  have hslash : isEncoded inSet '/' = false := by simp [isEncoded, hset.slash]
  rw [← length_slashed, ← encode_slashed hset, slashed_splitOn, encode_cons,
    encodeChar_of_not_encoded hslash]
  simp

/-- A text that a path holds as it is: nothing in it is encoded, and it has no dot segment. -/
structure Verbatim (inSet : Char → Bool) (t : Text) : Prop where
  noEncoded : ∀ c ∈ t, isEncoded inSet c = false
  noDots : ∀ s ∈ t.splitOn '/', isDots s = false

theorem verbatim_iff {t : Text} : Verbatim inSet t ↔
    ((t.all fun c => !isEncoded inSet c) && (t.splitOn '/').all fun s => !isDots s) = true := by
  rw [Bool.and_eq_true, List.all_eq_true, List.all_eq_true]
  constructor
  · intro h
    exact ⟨fun c hc => by simp [h.noEncoded c hc], fun s hs => by simp [h.noDots s hs]⟩
  · intro h
    exact ⟨fun c hc => by simpa using h.1 c hc, fun s hs => by simpa using h.2 s hs⟩

instance {t : Text} : Decidable (Verbatim inSet t) := decidable_of_iff' _ verbatim_iff

theorem urlPath_of_verbatim {t : Text} (h : Verbatim inSet t) : urlPath inSet t = '/' :: t := by
  have hsame : (t.splitOn '/').map (encode inSet) = t.splitOn '/' := by
    have hid : (t.splitOn '/').map (encode inSet) = (t.splitOn '/').map id :=
      List.map_congr_left fun s hs => encode_of_not_encoded fun c hc =>
        h.noEncoded c ((Text.sublist_of_mem_splitOn hs).subset hc)
    rw [hid, List.map_id]
  rw [urlPath_eq, pathSegments_of_not_dots [] h.noDots, List.nil_append, hsame, slashed_splitOn]

theorem slash_not_mem_pathSegments {t s : Text}
    (h : s ∈ pathSegments inSet [] (t.splitOn '/')) : '/' ∉ s := by
  rcases of_mem_pathSegments h with h | rfl | ⟨u, hu, rfl⟩
  · cases h
  · exact List.not_mem_nil
  · exact slash_not_mem_encode (Text.not_mem_of_mem_splitOn hu)

/-- Without a dot segment nothing is lost. -/
theorem length_urlPath (hset : PathSet inSet) {t : Text}
    (h : ∀ s ∈ t.splitOn '/', isDots s = false) :
    (urlPath inSet t).length = (encode inSet t).length + 1 := by
  rw [urlPath_eq, pathSegments_of_not_dots [] h, List.nil_append, length_slashed,
    weight_splitOn hset]

theorem isDots_singleton {c : Char} (h : c ≠ '.') : isDots [c] = false := by
  simp [isDots, isSingleDot, isDoubleDot, singleDots, doubleDots, h]

theorem not_encoded_of_mem_urlPath (hset : PathSet inSet) {t : Text} {c : Char}
    (h : c ∈ urlPath inSet t) : isEncoded inSet c = false := by
  obtain ⟨s, hs, hc⟩ := List.mem_flatMap.mp h
  rcases List.mem_cons.mp hc with rfl | hc
  · simp [isEncoded, hset.slash]
  · rcases of_mem_pathSegments hs with hs | rfl | ⟨u, -, rfl⟩
    · cases hs
    · cases hc
    · exact not_encoded_of_mem_encode hset hc

/-- No path is longer than what it is read from is when it is encoded. -/
theorem length_urlPath_le (hset : PathSet inSet) (t : Text) :
    (urlPath inSet t).length ≤ (encode inSet t).length + 1 := by
  have hle := (weight_pathSegments hset [] (t.splitOn '/')).1
  rw [weight_splitOn hset, Text.weight_nil, Nat.zero_add] at hle
  rwa [urlPath_eq, length_slashed]

/-- A path that only differs in the first character has a segment for every one it is read from. -/
theorem length_splitOn_le {x c : Char} {t : Text} (h : urlPath inSet (c :: t) = '/' :: x :: t)
    (hslash : c ≠ '/') : ((c :: t).splitOn '/').length ≤
      (pathSegments inSet [] ((c :: t).splitOn '/')).length := by
  have hcount := congrArg (List.count '/') h
  rw [urlPath_eq, count_slashed fun s hs => slash_not_mem_pathSegments hs, List.count_cons_self,
    List.count_cons] at hcount
  have hsegments := congrArg (List.count '/') (slashed_splitOn (c :: t))
  rw [count_slashed fun s hs => Text.not_mem_of_mem_splitOn hs, List.count_cons_self,
    List.count_cons_of_ne hslash] at hsegments
  omega

/-- **The path is the text behind its first character** only if the text is verbatim. -/
theorem verbatim_of_urlPath (hset : PathSet inSet) {x c : Char} {t : Text}
    (h : urlPath inSet (c :: t) = '/' :: x :: t) : Verbatim inSet (c :: t) := by
  have hrest : ∀ d ∈ t, isEncoded inSet d = false := fun d hd =>
    not_encoded_of_mem_urlPath hset (h ▸ List.mem_cons_of_mem _ (List.mem_cons_of_mem x hd))
  have hweight := weight_splitOn hset (c :: t)
  rw [encode_cons, encode_of_not_encoded hrest, List.length_append] at hweight
  have hlength := congrArg List.length h
  rw [urlPath_eq, length_slashed] at hlength
  simp only [List.length_cons] at hlength
  have hfirst : isEncoded inSet c = false := by
    by_contra hencoded
    have hencoded : isEncoded inSet c = true := by simpa using hencoded
    have hslash : c ≠ '/' := by
      rintro rfl
      simp [isEncoded, hset.slash] at hencoded
    have hle := length_splitOn_le h hslash
    obtain ⟨k, hk, hlong⟩ := length_encodeChar hencoded
    -- An encoded character is longer by more than the last segment can lose.
    rcases weight_of_length_le hset (List.splitOn_ne_nil '/' (c :: t))
      (by rwa [List.length_nil, Nat.zero_add]) with hnil | ⟨loss, hloss, heq⟩
    · rw [urlPath_eq, hnil] at h
      cases h
    · rw [Text.weight_nil] at heq
      omega
  have hall : ∀ d ∈ c :: t, isEncoded inSet d = false :=
    List.forall_mem_cons.mpr ⟨hfirst, hrest⟩
  refine ⟨hall, (weight_pathSegments hset [] _).2 ?_⟩
  rw [encodeChar_of_not_encoded hfirst, List.length_singleton] at hweight
  rw [Text.weight_nil]
  omega

/-! ## The end of a URL -/

theorem isEncoded_of_isControlOrSpace (hset : PathSet inSet) {c : Char}
    (h : isControlOrSpace c = true) : isEncoded inSet c = true := by
  rw [isControlOrSpace, decide_eq_true_eq] at h
  rcases Nat.lt_or_ge c.toNat 0x20 with hlt | hge
  · simp [isEncoded, hlt]
  · have hspace : c = ' ' := Char.toNat_inj.mp (Nat.le_antisymm h hge)
    simp [isEncoded, hspace, hset.space]

theorem isControlOrSpace_of_isTabOrNewline {c : Char} (h : isTabOrNewline c = true) :
    isControlOrSpace c = true := by
  simp only [isTabOrNewline, Bool.or_eq_true, beq_iff_eq] at h
  rcases h with (rfl | rfl) | rfl
  · decide
  · decide
  · decide

/-- A path character that is not encoded is read as it is. -/
theorem not_special_of_not_encoded (hset : PathSet inSet) {c : Char}
    (h : isEncoded inSet c = false) : isControlOrSpace c = false ∧ isPathChar c = true := by
  constructor
  · cases hc : isControlOrSpace c with
    | false => rfl
    | true =>
      rw [isEncoded_of_isControlOrSpace hset hc] at h
      cases h
  · rw [isPathChar, Bool.and_eq_true, bne_iff_ne, bne_iff_ne]
    constructor
    · rintro rfl
      simp [isEncoded, hset.question] at h
    · rintro rfl
      simp [isEncoded, hset.number] at h

theorem not_isTabOrNewline {c : Char} (h : isControlOrSpace c = false) :
    isTabOrNewline c = false := by
  cases hc : isTabOrNewline c with
  | false => rfl
  | true =>
    rw [isControlOrSpace_of_isTabOrNewline hc] at h
    cases h

/-- Only the end is trimmed. -/
theorem clean_of_last {t : Text} (h : ∀ c, t.getLast? = some c → isControlOrSpace c = false) :
    clean t = stripTabOrNewline t := by
  rw [clean, Text.trimEndMatches_eq_self_iff.mpr h]

theorem stripTabOrNewline_of_forall {t : Text} (h : ∀ c ∈ t, isTabOrNewline c = false) :
    stripTabOrNewline t = t := by
  rw [stripTabOrNewline, List.filter_eq_self]
  simpa using h

theorem pathPart_of_forall {t : Text} (h : ∀ c ∈ t, isPathChar c = true) :
    pathPart t = t ∧ hasQuery t = false := by
  refine ⟨List.takeWhile_eq_self_iff.mpr h, ?_⟩
  rw [hasQuery, List.dropWhile_eq_nil_iff.mpr h]
  rfl

/-! ## Parsers -/

/-- A name of letters, digits, hyphens and dots. -/
def IsHostName (host : Text) : Prop :=
  host ≠ [] ∧ ∀ c ∈ host, c.isAlphanum = true ∨ c = '-' ∨ c = '.'

theorem IsHostName.not_mem {host : Text} (h : IsHostName host) {c : Char}
    (hc : c.isAlphanum = false) (hdash : c ≠ '-') (hdot : c ≠ '.') : c ∉ host := by
  intro hm
  rcases h.2 c hm with halphanum | hother | hother
  · rw [hc] at halphanum
    cases halphanum
  · exact hdash hother
  · exact hdot hother

def portNumber (port : Text) : Nat := Nat.ofDigitChars 10 port 0

/-- A decimal port number. -/
def IsPort (port : Text) : Prop :=
  port ≠ [] ∧ (∀ c ∈ port, c.isDigit = true) ∧ portNumber port ≤ maxU16

theorem IsPort.not_mem {port : Text} (h : IsPort port) {c : Char} (hc : c.isDigit = false) :
    c ∉ port := by
  intro hm
  rw [h.2.1 c hm] at hc
  cases hc

/-- A URL of a scheme with a host and a path. -/
def hierarchical (scheme host : Text) (port : Option Text) (rest : Text) : Text :=
  scheme ++ "://".toList ++ (host ++ port.elim [] fun port => ':' :: port) ++ '/' :: rest

/-- A parser that reads the URLs of a scheme, one that is not special, by the standard. -/
structure Hierarchical (scheme : Text) (inSet : Char → Bool) (parse : UrlParser) : Prop where
  parse_eq : ∀ {host port} (rest : Text), IsHostName host → (∀ p, port = some p → IsPort p) →
    ∃ url, parse (hierarchical scheme host port rest) = .ok url ∧ url.scheme = scheme ∧
      url.host = some host ∧ url.port = port.map portNumber ∧
      url.path = urlPath inSet (pathPart (clean rest)) ∧ url.query.isSome = hasQuery (clean rest)

/-- A parser that reads nothing else. -/
def parseHierarchical (scheme : Text) (inSet : Char → Bool) : UrlParser := fun t =>
  match (Text.stripPrefix (scheme ++ "://".toList) t).bind (Text.splitOnce '/') with
  | none => .error "relative URL without a base".toList
  | some (authority, rest) =>
    let (host, port) := match Text.splitOnce ':' authority with
      | some (host, port) => (host, some port)
      | none => (authority, none)
    let rest := clean rest
    .ok {
      scheme
      host := some host
      port := port.map portNumber
      path := urlPath inSet (pathPart rest)
      query := if hasQuery rest then
        some (((rest.dropWhile isPathChar).drop 1).takeWhile (· != '#')) else none
      fragment := (Text.splitOnce '#' rest).map Prod.snd }

theorem hierarchical_parseHierarchical (scheme : Text) (inSet : Char → Bool) :
    Hierarchical scheme inSet (parseHierarchical scheme inSet) := by
  constructor
  intro host port rest hhost hport
  have hcolon : ':' ∉ host := hhost.not_mem (by decide) (by decide) (by decide)
  have hslash : '/' ∉ host ++ port.elim [] fun port => ':' :: port := by
    rw [List.mem_append, not_or]
    refine ⟨hhost.not_mem (by decide) (by decide) (by decide), ?_⟩
    cases port with
    | none => exact List.not_mem_nil
    | some p =>
      exact List.not_mem_cons_of_ne_of_not_mem (by decide) ((hport p rfl).not_mem (by decide))
  have hauthority : Text.splitOnce ':' (host ++ port.elim [] fun port => ':' :: port) =
      port.map (host, ·) := by
    cases port with
    | none =>
      rw [Option.elim_none, List.append_nil, Option.map_none]
      exact Text.splitOnce_eq_none_iff.mpr hcolon
    | some p => exact Text.splitOnce_append hcolon p
  have hstrip : (Text.stripPrefix (scheme ++ "://".toList)
      (hierarchical scheme host port rest)).bind (Text.splitOnce '/') =
        some (host ++ port.elim [] (fun port => ':' :: port), rest) := by
    rw [hierarchical, List.append_assoc (scheme ++ "://".toList), Text.stripPrefix_append,
      Option.bind_some, Text.splitOnce_append hslash]
  rw [parseHierarchical]
  simp only [hstrip, hauthority]
  cases port with
  | none =>
    simp only [Option.elim_none, List.append_nil, Option.map_none]
    refine ⟨_, rfl, rfl, rfl, rfl, rfl, ?_⟩
    cases hasQuery (clean rest) <;> rfl
  | some p =>
    refine ⟨_, rfl, rfl, rfl, rfl, rfl, ?_⟩
    cases hasQuery (clean rest) <;> rfl

end UrlPath

end Smolweb
