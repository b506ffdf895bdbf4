import Smolweb.Lib.Utf8
import Mathlib.Algebra.Group.Nat.Defs

/-!
# Big-endian numbers

`toBytes` writes a number in a field of a fixed width and `ofBytes` reads a field; they are inverse
to each other on the numbers that fit.
-/

namespace Smolweb

namespace BigEndian

/-- The number a field holds. -/
def ofBytes (b : Bytes) : Nat := b.foldl (fun n x => n * 256 + x.toNat) 0

/-- The last `width` bytes of a number. -/
def toBytes : (width n : Nat) → Bytes
  | 0, _ => []
  | width + 1, n => toBytes width (n / 256) ++ [UInt8.ofNat n]

@[simp] theorem length_toBytes (width n : Nat) : (toBytes width n).length = width := by
  induction width generalizing n with
  | zero => rfl
  | succ width ih => simp [toBytes, ih]

theorem ofBytes_concat (b : Bytes) (x : UInt8) :
    ofBytes (b ++ [x]) = ofBytes b * 256 + x.toNat := by
  simp [ofBytes]

theorem ofBytes_toBytes {width n : Nat} (h : n < 256 ^ width) : ofBytes (toBytes width n) = n := by
  induction width generalizing n with
  | zero =>
    have : n = 0 := by simpa using h
    subst this
    rfl
  | succ width ih =>
    have hdiv : n / 256 < 256 ^ width := by
      rw [Nat.div_lt_iff_lt_mul (by decide), ← Nat.pow_succ]
      exact h
    rw [toBytes, ofBytes_concat, ih hdiv, UInt8.toNat_ofNat']
    omega

theorem toBytes_ofBytes (b : Bytes) : toBytes b.length (ofBytes b) = b := by
  induction b using List.reverseRecOn with
  | nil => rfl
  | append_singleton b x ih =>
    have hx := x.toNat_lt
    rw [List.length_append, List.length_singleton, toBytes, ofBytes_concat,
      show (ofBytes b * 256 + x.toNat) / 256 = ofBytes b by omega, ih]
    congr 2
    apply UInt8.toNat_inj.mp
    rw [UInt8.toNat_ofNat']
    omega

theorem ofBytes_lt (b : Bytes) : ofBytes b < 256 ^ b.length := by
  induction b using List.reverseRecOn with
  | nil => simp [ofBytes]
  | append_singleton b x ih =>
    have hx := x.toNat_lt
    rw [ofBytes_concat, List.length_append, List.length_singleton, Nat.pow_succ]
    omega

@[simp] theorem ofBytes_zero_cons (b : Bytes) : ofBytes (0 :: b) = ofBytes b := by
  simp [ofBytes]

theorem toBytes_succ_of_lt {width n : Nat} (h : n < 256 ^ width) :
    toBytes (width + 1) n = 0 :: toBytes width n := by
  have hfield := toBytes_ofBytes (0 :: toBytes width n)
  rwa [ofBytes_zero_cons, ofBytes_toBytes h, List.length_cons, length_toBytes] at hfield

end BigEndian

end Smolweb
