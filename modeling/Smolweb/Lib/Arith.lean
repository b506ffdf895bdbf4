import Smolweb.Lib.Decimal

/-!
# Machine arithmetic in either build profile

Unsigned arithmetic that leaves its type panics where overflow checks are compiled in and wraps
around where they are not. Both are modelled: every definition that adds or subtracts machine
integers takes an `Overflow` and returns `none` for a panic.
-/

namespace Smolweb

/-- What the build does on arithmetic overflow. -/
inductive Overflow where
  | checked
  | wrapping
  deriving Repr, DecidableEq

/-- `usize::div_ceil`. -/
def divCeil (a b : Nat) : Nat := a / b + if a % b = 0 then 0 else 1

theorem divCeil_step {a b : Nat} (hb : 0 < b) (ha : 0 < a) :
    divCeil a b = divCeil (a - b) b + 1 := by
  unfold divCeil
  rcases Nat.lt_or_ge a b with hlt | hge
  · have hsub : a - b = 0 := by omega
    simp [hsub, Nat.div_eq_of_lt hlt, Nat.mod_eq_of_lt hlt]
    omega
  · obtain ⟨c, rfl⟩ := Nat.exists_eq_add_of_le hge
    rw [Nat.add_sub_cancel_left, Nat.add_comm b c, Nat.add_div_right c hb, Nat.add_mod_right]
    omega

namespace Overflow

/-- `a + b` on the type whose largest value is `max`. -/
def add (o : Overflow) (max a b : Nat) : Option Nat :=
  if a + b ≤ max then some (a + b)
  else match o with
    | .checked => none
    | .wrapping => some ((a + b) % (max + 1))

/-- `a - b` on the type whose largest value is `max`. -/
def sub (o : Overflow) (max a b : Nat) : Option Nat :=
  if b ≤ a then some (a - b)
  else match o with
    | .checked => none
    | .wrapping => some ((max + 1 + a - b) % (max + 1))

@[simp] theorem add_of_le (o : Overflow) {max a b : Nat} (h : a + b ≤ max) :
    o.add max a b = some (a + b) := by
  simp [add, h]

@[simp] theorem sub_of_le (o : Overflow) (max : Nat) {a b : Nat} (h : b ≤ a) :
    o.sub max a b = some (a - b) := by
  simp [sub, h]

/-- Where overflow panics, a sum is the sum. -/
theorem checked_add_eq_some {max a b n : Nat} (h : checked.add max a b = some n) :
    a + b ≤ max ∧ n = a + b := by
  unfold add at h
  split at h
  · next hle =>
    cases h
    exact ⟨hle, rfl⟩
  · cases h

theorem checked_sub_eq_some {max a b n : Nat} (h : checked.sub max a b = some n) :
    b ≤ a ∧ n = a - b := by
  unfold sub at h
  split at h
  · next hle =>
    cases h
    exact ⟨hle, rfl⟩
  · cases h

/-- What is computed without a panic is computed in every build. -/
theorem add_of_checked (o : Overflow) {max a b n : Nat} (h : checked.add max a b = some n) :
    o.add max a b = some n := by
  obtain ⟨hle, rfl⟩ := checked_add_eq_some h
  exact add_of_le o hle

theorem sub_of_checked (o : Overflow) {max a b n : Nat} (h : checked.sub max a b = some n) :
    o.sub max a b = some n := by
  obtain ⟨hle, rfl⟩ := checked_sub_eq_some h
  exact sub_of_le o max hle

/-- Adding one to a value of the type either gives its successor or, past the largest value,
never more than zero. -/
theorem add_one_eq_some {o : Overflow} {max a n : Nat} (ha : a ≤ max)
    (h : o.add max a 1 = some n) : (n = a + 1 ∧ a < max) ∨ (n = 0 ∧ a = max) := by
  unfold add at h
  split at h
  · cases h
    left
    omega
  · have : a = max := by omega
    subst this
    cases o
    · cases h
    · simp only [Option.some.injEq, Nat.mod_self] at h
      exact Or.inr ⟨h.symm, rfl⟩

theorem add_one_eq_mod {o : Overflow} {max a n : Nat} (ha : a ≤ max)
    (h : o.add max a 1 = some n) : n = (a + 1) % (max + 1) := by
  rcases add_one_eq_some ha h with ⟨rfl, hlt⟩ | ⟨rfl, rfl⟩
  · exact (Nat.mod_eq_of_lt (by omega)).symm
  · exact (Nat.mod_self _).symm

end Overflow

end Smolweb
