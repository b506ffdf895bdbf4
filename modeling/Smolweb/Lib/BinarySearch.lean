import Mathlib.Data.List.Basic
import Mathlib.Order.Basic

/-!
# Binary search by key

`slice::binary_search_by_key`, as the standard library runs it: halve the range until one
position is left, then compare once more.
-/

namespace Smolweb

/-- The position the halving ends at, from a range of `size` elements at `base`. -/
def narrow {α : Type} (key : α → Nat) (target : Nat) (l : List α) : (fuel size base : Nat) → Nat
  | 0, _, base => base
  | fuel + 1, size, base =>
    if 1 < size then
      let half := size / 2
      let above := match l[base + half]? with
        | some a => decide (target < key a)
        | none => true
      narrow key target l fuel (size - half) (if above then base else base + half)
    else base

/-- The index of an element whose key is `target`, in a list sorted by key. -/
def binarySearchByKey {α : Type} (key : α → Nat) (target : Nat) (l : List α) : Option Nat :=
  let base := narrow key target l l.length l.length 0
  match l[base]? with
  | some a => if key a = target then some base else none
  | none => none

/-- Only an element with the key that was asked for is found. -/
theorem binarySearchByKey_some {α : Type} {key : α → Nat} {target i : Nat} {l : List α}
    (h : binarySearchByKey key target l = some i) : ∃ a, l[i]? = some a ∧ key a = target := by
  simp only [binarySearchByKey] at h
  split at h
  · next a ha =>
    split at h
    · next hk =>
      cases h
      exact ⟨a, ha, hk⟩
    · cases h
  · cases h

section

variable {α : Type} {key : α → Nat} {target : Nat} {l : List α}

/-- The halving keeps an element it looks for, wherever in the range the element is. -/
theorem narrow_eq (hsorted : l.Pairwise fun a b => key a < key b) {i : Nat} {a : α}
    (ha : l[i]? = some a) (hkey : key a = target) :
    ∀ fuel size base : Nat, size ≤ fuel → base ≤ i → i < base + size →
      base + size ≤ l.length → narrow key target l fuel size base = i := by
  intro fuel
  induction fuel with
  | zero => intros; omega
  | succ fuel ih =>
    intro size base hfuel hlo hhi hlen
    unfold narrow
    split
    · have hmid : base + size / 2 < l.length := by omega
      obtain ⟨hi, rfl⟩ := List.getElem?_eq_some_iff.mp ha
      simp only [List.getElem?_eq_getElem hmid, decide_eq_true_eq]
      -- the keys ascend, so the comparison at the middle tells on which side of it `i` is
      split
      · next habove =>
        have hlt : i < base + size / 2 := by
          by_contra hge
          rcases Nat.eq_or_lt_of_le (Nat.le_of_not_lt hge) with heq | hgt
          · simp only [heq] at habove
            omega
          · have := List.pairwise_iff_getElem.mp hsorted _ _ hmid hi hgt
            omega
        exact ih (size - size / 2) base (by omega) hlo (by omega) (by omega)
      · next habove =>
        have hle : base + size / 2 ≤ i := by
          by_contra hlt
          have := List.pairwise_iff_getElem.mp hsorted _ _ hi hmid (Nat.lt_of_not_le hlt)
          omega
        exact ih (size - size / 2) (base + size / 2) (by omega) hle (by omega) (by omega)
    · omega

/-- **In a list with ascending keys every element is found.** -/
theorem binarySearchByKey_eq (hsorted : l.Pairwise fun a b => key a < key b) {i : Nat} {a : α}
    (ha : l[i]? = some a) : binarySearchByKey key (key a) l = some i := by
  obtain ⟨hi, -⟩ := List.getElem?_eq_some_iff.mp ha
  have hnarrow := narrow_eq hsorted ha rfl l.length l.length 0 (Nat.le_refl _) (Nat.zero_le i)
    (by omega) (by omega)
  simp only [binarySearchByKey, hnarrow, ha, if_true]

/-- When no key is above the target, the halving ends at the last element. -/
theorem narrow_last (hle : ∀ a ∈ l, key a ≤ target) :
    ∀ fuel size base : Nat, size ≤ fuel → 0 < size → base + size = l.length →
      narrow key target l fuel size base + 1 = l.length := by
  intro fuel
  induction fuel with
  | zero => intros; omega
  | succ fuel ih =>
    intro size base hfuel hpos hlen
    unfold narrow
    split
    · have hmid : base + size / 2 < l.length := by omega
      have hkey := hle _ (List.getElem_mem hmid)
      simp only [List.getElem?_eq_getElem hmid, decide_eq_true_eq, Nat.not_lt.mpr hkey, if_false]
      exact ih (size - size / 2) (base + size / 2) (by omega) (by omega) (by omega)
    · omega

/-- An element that is not the last one is missed when its key is above those that follow it. -/
theorem binarySearchByKey_eq_none (hle : ∀ a ∈ l, key a ≤ target) {last : α}
    (hlast : l.getLast? = some last) (hne : key last ≠ target) :
    binarySearchByKey key target l = none := by
  have hpos : 0 < l.length := by
    cases l with
    | nil => cases hlast
    | cons a l => simp
  have hnarrow := narrow_last hle l.length l.length 0 (Nat.le_refl _) hpos (by omega)
  rw [List.getLast?_eq_getElem?, show l.length - 1 = narrow key target l l.length l.length 0 by
    omega] at hlast
  simp only [binarySearchByKey, hlast, if_neg hne]

end

end Smolweb
