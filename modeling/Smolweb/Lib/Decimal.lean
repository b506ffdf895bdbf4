import Mathlib.Algebra.Ring.Nat
import Smolweb.Lib.Text

/-!
# Decimal numbers in text

`decimal` is how a formatter prints an unsigned integer, `parseUnsigned` how `str::parse` reads
one of a given width back: an optional plus sign, one or more digits, no overflow.
-/

namespace Smolweb

/-- The largest `u16`, `u32` and `u64`. -/
def maxU16 : Nat := 0xFFFF
def maxU32 : Nat := 0xFFFFFFFF
def maxU64 : Nat := 0xFFFFFFFFFFFFFFFF

namespace Text

/-- `format!("{n}")` for an unsigned integer. -/
def decimal (n : Nat) : Text := Nat.toDigits 10 n

/-- `str::parse` for an unsigned integer type whose largest value is `max`. -/
def parseUnsigned (max : Nat) (t : Text) : Option Nat :=
  let digits := match t with
    | '+' :: rest => rest
    | _ => t
  if digits.isEmpty || !digits.all Char.isDigit then none
  else
    let n := Nat.ofDigitChars 10 digits 0
    if n ≤ max then some n else none

/-- `format!("{n}")` for an `i64`. -/
def decimalI64 (n : Int64) : Text :=
  if n.toInt < 0 then '-' :: decimal n.toInt.natAbs else decimal n.toInt.natAbs

/-- `str::parse` for `i64`: an optional sign, one or more digits, no overflow. -/
def parseI64 (t : Text) : Option Int64 :=
  let (negative, digits) := match t with
    | '-' :: rest => (true, rest)
    | '+' :: rest => (false, rest)
    | _ => (false, t)
  if digits.isEmpty || !digits.all Char.isDigit then none
  else
    let n := Nat.ofDigitChars 10 digits 0
    if negative then if n ≤ 0x8000000000000000 then some (Int64.ofInt (-n)) else none
    else if n < 0x8000000000000000 then some (Int64.ofInt n) else none

/-- A line's two leading digits, as a number, and what follows them. -/
def splitCode : Text → Option (Nat × Text)
  | tens :: ones :: rest =>
    if tens.isDigit && ones.isDigit then
      some ((tens.toNat - 48) * 10 + (ones.toNat - 48), rest)
    else none
  | _ => none

theorem isDigit_of_mem_decimal {n : Nat} {c : Char} (h : c ∈ decimal n) : c.isDigit = true :=
  Nat.isDigit_of_mem_toDigits (by decide) (by decide) h

theorem toNat_of_isDigit {c : Char} (h : c.isDigit = true) : 48 ≤ c.toNat ∧ c.toNat ≤ 57 := by
  simp only [Char.isDigit, ge_iff_le, Bool.and_eq_true, decide_eq_true_eq,
    UInt32.le_iff_toNat_le] at h
  exact h

theorem not_mem_decimal {n : Nat} {c : Char} (h : c.isDigit = false) : c ∉ decimal n := by
  intro hm
  rw [isDigit_of_mem_decimal hm] at h
  cases h

theorem oneLine_decimal (n : Nat) : (decimal n).OneLine := by
  rw [oneLine_iff_not_mem]
  exact ⟨not_mem_decimal (by decide), not_mem_decimal (by decide)⟩

theorem oneLine_decimalI64 (n : Int64) : (decimalI64 n).OneLine := by
  unfold decimalI64
  split
  · exact oneLine_cons.mpr ⟨by decide, oneLine_decimal _⟩
  · exact oneLine_decimal _

theorem decimal_ne_nil (n : Nat) : decimal n ≠ [] := Nat.toDigits_ne_nil

theorem all_isDigit_decimal (n : Nat) : (decimal n).all Char.isDigit = true :=
  List.all_eq_true.mpr fun _ => isDigit_of_mem_decimal

theorem ofDigitChars_decimal (n : Nat) : Nat.ofDigitChars 10 (decimal n) 0 = n :=
  Nat.ofDigitChars_ten_toDigits

/-- What is printed reads back. -/
theorem parseUnsigned_decimal {max n : Nat} (h : n ≤ max) :
    parseUnsigned max (decimal n) = some n := by
  have hdigits : (match decimal n with
      | '+' :: rest => rest
      | _ => decimal n) = decimal n := by
    split
    · next rest heq =>
      exact absurd (heq ▸ List.mem_cons_self) (not_mem_decimal (n := n) (c := '+') (by decide))
    · rfl
  simp only [parseUnsigned, hdigits, all_isDigit_decimal, ofDigitChars_decimal, h,
    List.isEmpty_eq_false_iff.mpr (decimal_ne_nil n), Bool.not_true, Bool.or_self,
    Bool.false_eq_true, ite_false, ite_true]

/-- Digits stand for less than the power of ten they are as many as. -/
theorem ofDigitChars_lt {t : Text} (h : ∀ c ∈ t, c.isDigit = true) :
    Nat.ofDigitChars 10 t 0 < 10 ^ t.length := by
  induction t with
  | nil => simp
  | cons c t ih =>
    have hrest := ih fun d hd => h d (List.mem_cons_of_mem c hd)
    have hdigit := (toNat_of_isDigit (h c List.mem_cons_self)).2
    have hzero : '0'.toNat = 48 := rfl
    rw [Nat.ofDigitChars_cons, Nat.ofDigitChars_eq_ofDigitChars_zero, List.length_cons,
      Nat.pow_succ, hzero]
    have hle : 10 ^ t.length * (10 * 0 + (c.toNat - 48)) ≤ 10 ^ t.length * 9 :=
      Nat.mul_le_mul_left _ (by omega)
    omega

theorem parseUnsigned_lt {max n : Nat} {t : Text} (h : parseUnsigned max t = some n) :
    n < 10 ^ t.length := by
  obtain ⟨digits, hlength, hn⟩ : ∃ digits : Text, digits.length ≤ t.length ∧
      (if digits.isEmpty || !digits.all Char.isDigit then none
        else if Nat.ofDigitChars 10 digits 0 ≤ max then some (Nat.ofDigitChars 10 digits 0)
        else none) = some n := by
    unfold parseUnsigned at h
    simp only at h
    split at h
    · exact ⟨_, Nat.le_succ _, h⟩
    · exact ⟨t, Nat.le_refl _, h⟩
  split at hn
  · cases hn
  next hdigits =>
  simp only [Bool.or_eq_true, Bool.not_eq_true', not_or, Bool.not_eq_false, List.all_eq_true]
    at hdigits
  split at hn
  · cases hn
    exact Nat.lt_of_lt_of_le (ofDigitChars_lt hdigits.2)
      (Nat.pow_le_pow_right (by decide) hlength)
  · cases hn

/-! ## Two digits -/

theorem splitCode_append {t : Text} {n : Nat} (h : splitCode t = some (n, [])) (rest : Text) :
    splitCode (t ++ rest) = some (n, rest) := by
  match t with
  | [] => cases h
  | [c] => cases h
  | tens :: ones :: u =>
    simp only [splitCode, List.cons_append] at h ⊢
    split at h
    · next hdigits =>
      rw [if_pos hdigits]
      simp only [Option.some.injEq, Prod.mk.injEq] at h
      obtain ⟨rfl, rfl⟩ := h
      rfl
    · cases h

theorem splitCode_suffix {t rest : Text} {n : Nat} (h : splitCode t = some (n, rest)) :
    rest <:+ t := by
  unfold splitCode at h
  split at h
  · next tens ones rest' =>
    split at h
    · cases h
      exact (List.suffix_cons ones _).trans (List.suffix_cons tens _)
    · cases h
  · cases h

theorem splitCode_decimal {n : Nat} (hlow : 10 ≤ n) (hhigh : n < 100) (rest : Text) :
    splitCode (decimal n ++ rest) = some (n, rest) :=
  splitCode_append ((by decide : ∀ n < 100, 10 ≤ n → splitCode (decimal n) = some (n, [])) n
    hhigh hlow) rest

/-! ## Signed numbers -/

/-- The sign a number does not have. -/
theorem decimal_ne_cons {n : Nat} {c : Char} (h : c.isDigit = false) (t : Text) :
    decimal n ≠ c :: t := by
  intro he
  exact not_mem_decimal h (he ▸ List.mem_cons_self)

theorem parseI64_decimal {n : Nat} (h : n < 0x8000000000000000) :
    parseI64 (decimal n) = some (Int64.ofInt n) := by
  have hsign : (match decimal n with
      | '-' :: rest => (true, rest)
      | '+' :: rest => (false, rest)
      | _ => (false, decimal n)) = (false, decimal n) := by
    split
    · next rest he => exact absurd he (decimal_ne_cons (by decide) rest)
    · next rest he => exact absurd he (decimal_ne_cons (by decide) rest)
    · rfl
  simp only [parseI64, hsign, all_isDigit_decimal, ofDigitChars_decimal, h,
    List.isEmpty_eq_false_iff.mpr (decimal_ne_nil n), Bool.not_true, Bool.or_self,
    Bool.false_eq_true, ite_false, ite_true]

theorem parseI64_neg_decimal {n : Nat} (h : n ≤ 0x8000000000000000) :
    parseI64 ('-' :: decimal n) = some (Int64.ofInt (-n)) := by
  simp only [parseI64, all_isDigit_decimal, ofDigitChars_decimal, h,
    List.isEmpty_eq_false_iff.mpr (decimal_ne_nil n), Bool.not_true, Bool.or_self,
    Bool.false_eq_true, ite_false, ite_true]

/-- What is printed reads back. -/
theorem parseI64_decimalI64 (n : Int64) : parseI64 (decimalI64 n) = some n := by
  have hlow := n.le_toInt
  have hhigh := n.toInt_lt
  unfold decimalI64
  split
  · next hneg =>
    have hn : -(n.toInt.natAbs : Int) = n.toInt := by omega
    rw [parseI64_neg_decimal (by omega), hn, Int64.ofInt_toInt]
  · next hneg =>
    have hn : (n.toInt.natAbs : Int) = n.toInt := by omega
    rw [parseI64_decimal (by omega), hn, Int64.ofInt_toInt]

theorem not_mem_decimalI64 {n : Int64} {c : Char} (h : c.isDigit = false) (hc : c ≠ '-') :
    c ∉ decimalI64 n := by
  unfold decimalI64
  split
  · exact List.not_mem_cons_of_ne_of_not_mem hc (not_mem_decimal h)
  · exact not_mem_decimal h

/-! ## Reading a number back -/

theorem parseUnsigned_le {max n : Nat} {t : Text} (h : parseUnsigned max t = some n) :
    n ≤ max := by
  unfold parseUnsigned at h
  generalize (match t with
    | '+' :: rest => rest
    | _ => t) = digits at h
  simp only at h
  split at h
  · cases h
  · split at h
    · next hle =>
      cases h
      exact hle
    · cases h

theorem decimal_injective {m n : Nat} (h : decimal m = decimal n) : m = n := by
  have hm := ofDigitChars_decimal m
  rw [h, ofDigitChars_decimal] at hm
  exact hm.symm

/-- A number ends where no digit follows. -/
theorem decimal_append_inj {m n : Nat} {s t : Text} (hs : ∀ c ∈ s.head?, c.isDigit = false)
    (ht : ∀ c ∈ t.head?, c.isDigit = false) (h : decimal m ++ s = decimal n ++ t) :
    m = n ∧ s = t := by
  have hdigits {k : Nat} {r : Text} (hr : ∀ c ∈ r.head?, c.isDigit = false) :
      (decimal k ++ r).takeWhile Char.isDigit = decimal k := by
    rw [List.takeWhile_append_of_pos fun c => isDigit_of_mem_decimal]
    cases r with
    | nil => rw [List.takeWhile_nil, List.append_nil]
    | cons c r => rw [List.takeWhile_cons_of_neg (by simp [hr c rfl]), List.append_nil]
  have hmn : decimal m = decimal n := by rw [← hdigits hs, h, hdigits ht]
  obtain rfl := decimal_injective hmn
  exact ⟨rfl, List.append_cancel_left h⟩

/-- A digit is no whitespace, so a printed number survives any trimming. -/
theorem isWhitespace_of_isDigit {c : Char} (h : c.isDigit = true) : isWhitespace c = false := by
  obtain ⟨h1, h2⟩ := toNat_of_isDigit h
  have : ∀ m, (c.toNat == m) = true → m = c.toNat := by
    intro m hm
    exact (beq_iff_eq.mp hm).symm
  simp only [isWhitespace, Bool.or_eq_false_iff, Bool.and_eq_false_iff, decide_eq_false_iff_not,
    beq_eq_false_iff_ne]
  omega

theorem isLineBreak_of_isDigit {c : Char} (h : c.isDigit = true) : isLineBreak c = false := by
  obtain ⟨hlow, -⟩ := toNat_of_isDigit h
  simp only [isLineBreak, Bool.or_eq_false_iff, beq_eq_false_iff_ne]
  constructor
  · rintro rfl
    exact absurd hlow (by decide)
  · rintro rfl
    exact absurd hlow (by decide)

theorem decimalI64_ne_nil (n : Int64) : decimalI64 n ≠ [] := by
  unfold decimalI64
  split
  · exact List.cons_ne_nil _ _
  · exact decimal_ne_nil _

theorem trimStart_decimalI64 (n : Int64) : trimStart (decimalI64 n) = decimalI64 n := by
  rw [trimStart_eq_self_iff]
  intro c hc
  have hmem := List.mem_of_head? hc
  unfold decimalI64 at hmem
  split at hmem
  · rcases List.mem_cons.mp hmem with rfl | hmem
    · rfl
    · exact isWhitespace_of_isDigit (isDigit_of_mem_decimal hmem)
  · exact isWhitespace_of_isDigit (isDigit_of_mem_decimal hmem)

theorem trim_decimal (n : Nat) : trim (decimal n) = decimal n := by
  rw [trim_eq_self_iff]
  constructor
  · intro c hc
    exact isWhitespace_of_isDigit (isDigit_of_mem_decimal (List.mem_of_head? hc))
  · intro c hc
    exact isWhitespace_of_isDigit (isDigit_of_mem_decimal (List.mem_of_getLast? hc))

end Text

end Smolweb
