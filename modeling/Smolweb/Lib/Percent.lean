import Smolweb.Lib.Utf8

/-!
# Percent-decoding

The algorithm of the URL standard on bytes: a percent sign and the two hex digits after it are one
byte, and every other byte stands for itself, percent signs without digits too (`decode`). A decoder
of texts that is documented to do so (`Decodes`) is this one.
-/

namespace Smolweb

namespace Percent

def hexValue (b : UInt8) : Option UInt8 :=
  if 48 ≤ b && b ≤ 57 then some (b - 48)
  else if 65 ≤ b && b ≤ 70 then some (b - 55)
  else if 97 ≤ b && b ≤ 102 then some (b - 87)
  else none

/-- The byte that two hex digits stand for. -/
def escape (high low : UInt8) : Option UInt8 := do
  let h ← hexValue high
  let l ← hexValue low
  some (h * 16 + l)

def decodeBytes : Bytes → Bytes
  | [] => []
  | [a] => [a]
  | [a, b] => [a, b]
  | a :: b :: c :: rest =>
    match if a = 37 then escape b c else none with
    | some x => x :: decodeBytes rest
    | none => a :: decodeBytes (b :: c :: rest)

def decode (t : Text) : Bytes := decodeBytes (Utf8.encode t)

theorem decodeBytes_of_not_mem {b : Bytes} (h : 37 ∉ b) : decodeBytes b = b := by
  induction b with
  | nil => rfl
  | cons a rest ih =>
    obtain ⟨ha, hrest⟩ := List.ne_and_not_mem_of_not_mem_cons h
    match rest with
    | [] => rfl
    | [b] => rfl
    | b :: c :: rest =>
      rw [decodeBytes, if_neg (Ne.symm ha), ih hrest]

theorem decode_of_not_mem {t : Text} (h : '%' ∉ t) : decode t = Utf8.encode t := by
  apply decodeBytes_of_not_mem
  intro hm
  exact h ((Utf8.mem_encode_ascii (c := '%') (by decide)).mp hm)

theorem decodeBytes_cons {a : UInt8} (h : a ≠ 37) (rest : Bytes) :
    decodeBytes (a :: rest) = a :: decodeBytes rest := by
  match rest with
  | [] => rfl
  | [b] => rfl
  | b :: c :: rest => rw [decodeBytes, if_neg h]

theorem decodeBytes_append_of_not_mem {a : Bytes} (h : 37 ∉ a) (rest : Bytes) :
    decodeBytes (a ++ rest) = a ++ decodeBytes rest := by
  induction a with
  | nil => rfl
  | cons b a ih =>
    obtain ⟨hb, ha⟩ := List.ne_and_not_mem_of_not_mem_cons h
    rw [List.cons_append, decodeBytes_cons (Ne.symm hb), ih ha, List.cons_append]

theorem length_decodeBytes_le (b : Bytes) : (decodeBytes b).length ≤ b.length := by
  fun_induction decodeBytes b with
  | case1 => exact Nat.le_refl _
  | case2 => exact Nat.le_refl _
  | case3 => exact Nat.le_refl _
  | case4 a b c rest x _ ih => simp only [List.length_cons]; omega
  | case5 a b c rest _ ih => simp only [List.length_cons] at ih ⊢; omega

theorem escape_eq_none {high low : UInt8} (h : hexValue high = none ∨ hexValue low = none) :
    escape high low = none := by
  unfold escape
  rcases h with h | h
  · rw [h]
    rfl
  · cases hexValue high with
    | none => rfl
    | some _ =>
      rw [h]
      rfl

section Separator

variable {x : UInt8} (hpercent : x ≠ 37) (hdigit : hexValue x = none) (rest : Bytes)
include hpercent hdigit

theorem decodeBytes_cons_cons (a : UInt8) :
    decodeBytes (a :: x :: rest) = a :: x :: decodeBytes rest := by
  match rest with
  | [] => rfl
  | c :: rest =>
    rw [decodeBytes, escape_eq_none (.inl hdigit), ite_self]
    simp only [decodeBytes_cons hpercent]

/-- A byte that is in no escape separates what is decoded before it from what is decoded after it.
-/
theorem decodeBytes_append_cons (a : Bytes) :
    decodeBytes (a ++ x :: rest) = decodeBytes a ++ x :: decodeBytes rest := by
  fun_induction decodeBytes a with
  | case1 => exact decodeBytes_cons hpercent rest
  | case2 a => exact decodeBytes_cons_cons hpercent hdigit rest a
  | case3 a b =>
    simp only [List.cons_append, List.nil_append]
    rw [decodeBytes, escape_eq_none (.inr hdigit), ite_self]
    simp only [decodeBytes_cons_cons hpercent hdigit]
  | case4 a b c tail y hy ih =>
    simp only [List.cons_append]
    rw [decodeBytes, hy]
    simp only [ih]
  | case5 a b c tail hnone ih =>
    simp only [List.cons_append] at ih ⊢
    rw [decodeBytes, hnone]
    simp only [ih]

end Separator

/-! ## Decoders of texts -/

def digitValue (c : Char) : Option UInt8 :=
  if c.toNat < 128 then hexValue (UInt8.ofNat c.toNat) else none

/-- The byte that the two characters behind a percent sign stand for. -/
def escaped : Text → Option UInt8
  | high :: low :: _ => do
    let h ← digitValue high
    let l ← digitValue low
    some (h * 16 + l)
  | _ => none

/-- What the documentation of a decoder says: `%` and two hex digits are a byte, and any other
character is its own bytes. -/
structure Decodes (decode : Text → Bytes) : Prop where
  nil : decode [] = []
  escape : ∀ {t b}, escaped t = some b → decode ('%' :: t) = b :: decode (t.drop 2)
  other : ∀ {c t}, (c = '%' → escaped t = none) → decode (c :: t) = Utf8.encode [c] ++ decode t

/-- The documentation leaves nothing open. -/
theorem Decodes.unique {decode decode' : Text → Bytes} (h : Decodes decode)
    (h' : Decodes decode') : decode = decode' := by
  funext t
  -- what is left behind an escape is shorter by more than a character
  induction hn : t.length using Nat.strong_induction_on generalizing t with
  | h n ih =>
    cases t with
    | nil => rw [h.nil, h'.nil]
    | cons c t =>
      rw [List.length_cons] at hn
      by_cases hother : c = '%' → escaped t = none
      · rw [h.other hother, h'.other hother, ih t.length (by omega) t rfl]
      · rw [Classical.not_imp] at hother
        obtain ⟨rfl, hsome⟩ := hother
        obtain ⟨b, hb⟩ := Option.ne_none_iff_exists'.mp hsome
        have hlength := List.length_drop (i := 2) (l := t)
        rw [h.escape hb, h'.escape hb, ih (t.drop 2).length (by omega) _ rfl]

theorem hexValue_of_ge {b : UInt8} (h : 128 ≤ b.toNat) : hexValue b = none := by
  have hall : ∀ b : UInt8, 128 ≤ b.toNat → hexValue b = none := byte_all (by decide +kernel)
  exact hall b h

/-- Only a digit starts with the byte of one. -/
theorem digitValue_eq {c : Char} {b : UInt8} {rest : Bytes}
    (h : String.utf8EncodeChar c = b :: rest) : digitValue c = hexValue b := by
  unfold digitValue
  split
  · next hascii =>
    rw [Utf8.encodeChar_ascii hascii] at h
    rw [(List.cons.inj h).1]
  · next hnot =>
    have hbyte := Utf8.byte_encodeChar (Nat.not_lt.mp hnot) b (h ▸ List.mem_cons_self)
    rw [hexValue_of_ge hbyte]

theorem encode_of_digitValue {c : Char} {x : UInt8} (h : digitValue c = some x) :
    ∃ b, String.utf8EncodeChar c = [b] ∧ hexValue b = some x := by
  unfold digitValue at h
  split at h
  · next hascii => exact ⟨_, Utf8.encodeChar_ascii hascii, h⟩
  · cases h

/-- The bytes behind a percent sign are an escape exactly if the characters are. -/
theorem escape_of_encode {t : Text} {high low : UInt8} {rest : Bytes}
    (h : Utf8.encode t = high :: low :: rest) : escape high low = escaped t := by
  cases t with
  | nil => cases h
  | cons c t =>
    rw [Utf8.encode_cons] at h
    obtain ⟨b, bytes, hc⟩ := List.exists_cons_of_ne_nil (@String.utf8EncodeChar_ne_nil c)
    rw [hc, List.cons_append, List.cons.injEq] at h
    obtain ⟨rfl, h⟩ := h
    have hhigh := digitValue_eq hc
    cases hdigit : digitValue c with
    | none =>
      rw [escape_eq_none (.inl (hhigh ▸ hdigit))]
      cases t with
      | nil => rfl
      | cons d t =>
        rw [escaped, hdigit]
        rfl
    | some x =>
      obtain ⟨a, hone, -⟩ := encode_of_digitValue hdigit
      rw [hone, List.cons.injEq] at hc
      obtain ⟨rfl, rfl⟩ := hc
      rw [List.nil_append] at h
      cases t with
      | nil => cases h
      | cons d t =>
        rw [Utf8.encode_cons] at h
        obtain ⟨b, bytes, hd⟩ := List.exists_cons_of_ne_nil (@String.utf8EncodeChar_ne_nil d)
        rw [hd, List.cons_append, List.cons.injEq] at h
        obtain ⟨rfl, -⟩ := h
        rw [escape, escaped, hhigh, digitValue_eq hd]

theorem decodeBytes_percent {b : Bytes}
    (h : ∀ high low rest, b = high :: low :: rest → escape high low = none) :
    decodeBytes (37 :: b) = 37 :: decodeBytes b := by
  rcases b with _ | ⟨high, _ | ⟨low, rest⟩⟩
  · rfl
  · rfl
  · rw [decodeBytes, if_pos rfl, h high low rest rfl]

/-- **The algorithm** does what is documented. -/
theorem decodes_decode : Decodes decode where
  nil := rfl
  escape {t b} h := by
    rcases t with _ | ⟨c, _ | ⟨d, t⟩⟩
    · cases h
    · cases h
    · obtain ⟨x, hx, h⟩ := Option.bind_eq_some_iff.mp h
      obtain ⟨y, hy, h⟩ := Option.bind_eq_some_iff.mp h
      obtain ⟨high, hhigh, hxbyte⟩ := encode_of_digitValue hx
      obtain ⟨low, hlow, hybyte⟩ := encode_of_digitValue hy
      have hencode : Utf8.encode ('%' :: c :: d :: t) = 37 :: high :: low :: Utf8.encode t := by
        simp only [Utf8.encode_cons, hhigh, hlow]
        rfl
      have hescape : Percent.escape high low = some b := by
        rw [Percent.escape, hxbyte, hybyte]
        exact h
      rw [decode, hencode, decodeBytes, if_pos rfl, hescape]
      rfl
  other {c t} h := by
    rw [decode, Utf8.encode_cons, decode, Utf8.encode_cons, Utf8.encode_nil, List.append_nil]
    by_cases hc : c = '%'
    · subst hc
      apply decodeBytes_percent
      intro high low rest hencode
      rw [escape_of_encode hencode, h rfl]
    · apply decodeBytes_append_of_not_mem
      intro hmem
      have hpercent : UInt8.ofNat '%'.toNat ∈ Utf8.encode [c] := by
        rwa [Utf8.encode_cons, Utf8.encode_nil, List.append_nil]
      exact hc (List.mem_singleton.mp ((Utf8.mem_encode_ascii (by decide)).mp hpercent)).symm

theorem Decodes.eq {decode : Text → Bytes} (h : Decodes decode) : decode = Percent.decode :=
  h.unique decodes_decode

end Percent

end Smolweb
