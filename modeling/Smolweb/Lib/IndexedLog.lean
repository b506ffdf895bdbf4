import Mathlib.Data.Finset.Sort
import Mathlib.Logic.Function.Basic

/-!
# A log kept in a table and an index

A log is its entries in order. It can be kept as a table of entries by number together with an
index of the numbers of each owner (`IndexedLog`). Appending one entry to table and index appends
it to the log (`IndexedLog.append`), and reading an owner's entries by ascending number selects
them from the log (`IndexedLog.select`).
-/

namespace Smolweb

variable {α κ : Type} [DecidableEq κ]

/-- `table` and `index` keep `log`, each entry indexed under its owner. -/
structure IndexedLog (owner : α → κ) (table : Nat → Option α) (index : κ → Finset Nat)
    (log : List α) : Prop where
  table : ∀ n, table n = log[n]?
  index : ∀ k n, n ∈ index k ↔ ∃ a, log[n]? = some a ∧ owner a = k

/-- The numbers of the entries that an owner has in a log. -/
def numbersOf (owner : α → κ) (k : κ) (log : List α) : List Nat :=
  (List.range log.length).filter fun n => log[n]?.any fun a => owner a = k

theorem mem_numbersOf {owner : α → κ} {k : κ} {log : List α} {n : Nat} :
    n ∈ numbersOf owner k log ↔ ∃ a, log[n]? = some a ∧ owner a = k := by
  simp only [numbersOf, List.mem_filter, List.mem_range, Option.any_eq_true, decide_eq_true_eq]
  constructor
  · exact fun h => h.2
  · rintro ⟨a, ha, hk⟩
    exact ⟨(List.getElem?_eq_some_iff.mp ha).1, a, ha, hk⟩

theorem numbersOf_concat (owner : α → κ) (k : κ) (log : List α) (a : α) :
    numbersOf owner k (log ++ [a]) =
      numbersOf owner k log ++ if owner a = k then [log.length] else [] := by
  have hold : (List.range log.length).filter
      (fun n => (log ++ [a])[n]?.any fun a => owner a = k) = numbersOf owner k log := by
    apply List.filter_congr
    intro n hn
    rw [List.getElem?_append_left (List.mem_range.mp hn)]
  rw [numbersOf, List.length_append, List.length_singleton, List.range_succ, List.filter_append,
    hold]
  congr 1
  by_cases hk : owner a = k <;> simp [hk]

theorem filterMap_numbersOf (owner : α → κ) (k : κ) (log : List α) :
    (numbersOf owner k log).filterMap (log[·]?) = log.filter fun a => owner a = k := by
  induction log using List.reverseRecOn with
  | nil => rfl
  | append_singleton log a ih =>
    have hold : (numbersOf owner k log).filterMap ((log ++ [a])[·]?) =
        (numbersOf owner k log).filterMap (log[·]?) := by
      apply List.filterMap_congr
      intro n hn
      obtain ⟨b, hb, -⟩ := mem_numbersOf.mp hn
      rw [List.getElem?_append_left (List.getElem?_eq_some_iff.mp hb).1]
    rw [numbersOf_concat, List.filterMap_append, hold, ih, List.filter_append]
    by_cases hk : owner a = k <;> simp [hk]

namespace IndexedLog

variable {owner : α → κ} {table : Nat → Option α} {index : κ → Finset Nat} {log : List α}

omit [DecidableEq κ] in
theorem nil (owner : α → κ) : IndexedLog owner (fun _ => none) (fun _ => ∅) [] where
  table n := by simp
  index k n := by simp

/-- **Appending.** -/
theorem append (h : IndexedLog owner table index log) (a : α) :
    IndexedLog owner (Function.update table log.length (some a))
      (Function.update index (owner a) (insert log.length (index (owner a)))) (log ++ [a]) where
  table n := by
    by_cases hn : n = log.length
    · rw [hn, Function.update_self, List.getElem?_concat_length]
    · rw [Function.update_of_ne hn, h.table, List.getElem?_append]
      split
      · rfl
      · rw [List.getElem?_eq_none (by omega), List.getElem?_eq_none (by simp; omega)]
  index k n := by
    have hmem : n ∈ Function.update index (owner a) (insert log.length (index (owner a))) k ↔
        (n = log.length ∧ owner a = k) ∨ n ∈ index k := by
      by_cases hk : k = owner a
      · subst hk
        simp
      · simp [Function.update_of_ne hk, Ne.symm hk]
    rw [hmem, h.index, ← mem_numbersOf, ← mem_numbersOf, numbersOf_concat, List.mem_append]
    by_cases hk : owner a = k <;> simp [hk, or_comm]

/-- **Selecting**: the entries of an owner by ascending number are its part of the log. -/
theorem select (h : IndexedLog owner table index log) (k : κ) :
    ((index k).sort (· ≤ ·)).filterMap table = log.filter fun a => owner a = k := by
  have hnodup : (numbersOf owner k log).Nodup := List.nodup_range.filter _
  have hset : index k = (numbersOf owner k log).toFinset := by
    ext n
    rw [List.mem_toFinset, mem_numbersOf, h.index]
  have hsort : (index k).sort (· ≤ ·) = numbersOf owner k log := by
    rw [hset]
    apply (List.toFinset_sort (· ≤ ·) hnodup).mpr
    exact (List.pairwise_le_range).filter _
  rw [hsort, funext h.table]
  exact filterMap_numbersOf owner k log

omit [DecidableEq κ] in
/-- Every indexed number has an entry of that owner. -/
theorem entry (h : IndexedLog owner table index log) {k : κ} {n : Nat} (hn : n ∈ index k) :
    ∃ a, table n = some a ∧ owner a = k := by
  rw [h.table]
  exact (h.index k n).mp hn

end IndexedLog

end Smolweb
