import Mathlib.Algebra.Group.Nat.Even
import Mathlib.Data.List.Induction
import Mathlib.Data.List.TakeWhile

/-!
# One register for many toggles

A toggle that is on is put out by its own key; any other key puts it out too, but lights its own.
So what is on is the last key that was pressed, if it was pressed an odd number of times in a row
(`after_eq`). That every key was pressed an even number of times does not put everything out: there
the keys that were pressed last matter (`after_eq_base_iff`).
-/

namespace Smolweb.Toggle

variable {κ : Type} [DecidableEq κ] {base : κ} {keys : List κ}

/-- What is on after a key is pressed, where `base` is nothing. -/
def press (base on key : κ) : κ := if on = key then base else key

/-- What is on after some keys are pressed. -/
def after (base : κ) (keys : List κ) : κ := keys.foldl (press base) base

/-- How often the last key was pressed in a row. -/
def lastRun (keys : List κ) : Nat :=
  (keys.reverse.takeWhile fun key => keys.getLast? = some key).length

theorem after_concat (keys : List κ) (key : κ) :
    after base (keys ++ [key]) = press base (after base keys) key := by
  rw [after, List.foldl_append]
  rfl

theorem lastRun_concat (keys : List κ) (key : κ) :
    lastRun (keys ++ [key]) = if keys.getLast? = some key then lastRun keys + 1 else 1 := by
  rw [lastRun, List.reverse_append, List.getLast?_concat]
  simp only [List.reverse_singleton, List.singleton_append, List.takeWhile_cons, decide_true,
    if_true, List.length_cons]
  split
  · next h =>
    rw [lastRun, h]
  · next h =>
    cases hlast : keys.reverse with
    | nil => rfl
    | cons last rest =>
      have hne : ¬key = last := by
        rintro rfl
        rw [← List.head?_reverse, hlast] at h
        exact h rfl
      simp [hne]

/-- **What is on** is the last key, if its run is odd. -/
theorem after_eq (h : base ∉ keys) :
    after base keys = if Even (lastRun keys) then base else keys.getLast?.getD base := by
  induction keys using List.reverseRecOn with
  | nil => rfl
  | append_singleton keys key ih =>
    obtain ⟨hkeys, hkey⟩ := not_or.mp (mt List.mem_append.mpr h)
    have hne : base ≠ key := fun he => hkey (List.mem_singleton.mpr he)
    rw [after_concat, ih hkeys, lastRun_concat, press]
    by_cases hlast : keys.getLast? = some key
    · rw [if_pos hlast, hlast]
      by_cases heven : Even (lastRun keys)
      · simp [heven, hne, Nat.even_add_one]
      · simp [heven, Nat.even_add_one]
    · have hon : ¬(if Even (lastRun keys) then base else keys.getLast?.getD base) = key := by
        split
        · exact hne
        · cases hl : keys.getLast? with
          | none => exact hne
          | some last =>
            rw [hl] at hlast
            exact fun he => hlast (congrArg some he)
      rw [if_neg hon, if_neg hlast]
      simp

theorem after_eq_base_iff (h : base ∉ keys) : after base keys = base ↔ Even (lastRun keys) := by
  rw [after_eq h]
  split
  · next heven => simp [heven]
  · next hodd =>
    refine iff_of_false ?_ hodd
    cases hlast : keys.getLast? with
    | none =>
      rw [List.getLast?_eq_none_iff.mp hlast] at hodd
      exact absurd Even.zero hodd
    | some last =>
      intro he
      rw [Option.getD_some] at he
      exact h (he ▸ List.mem_of_getLast? hlast)

end Smolweb.Toggle
