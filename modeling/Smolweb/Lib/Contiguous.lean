import Mathlib.Data.List.Sort
import Std.Data.TreeMap.Lemmas

/-!
# Ordered maps with a contiguous run of keys

A map whose least keys are all the numbers from `lo` to `hi - 1` lists them first, in order, and
then the entries from `hi` on (`toList_eq_run_append`).
-/

namespace Smolweb

variable {β : Type}

/-- The entries of the keys from `hi` on, in order. -/
def entriesFrom (m : Std.TreeMap Nat β) (hi : Nat) : List (Nat × β) :=
  m.toList.filter fun e => decide (hi ≤ e.1)

theorem pairwise_lt_toList (m : Std.TreeMap Nat β) :
    m.toList.Pairwise fun a b => a.1 < b.1 :=
  (Std.TreeMap.ordered_keys_toList (t := m)).imp fun h => Nat.compare_eq_lt.mp h

theorem mem_toList_iff {m : Std.TreeMap Nat β} {k : Nat} {v : β} :
    (k, v) ∈ m.toList ↔ m[k]? = some v :=
  Std.TreeMap.mem_toList_iff_getElem?_eq_some

/-- **A contiguous run comes first**: when no key is below `lo` and every number from `lo` to
`hi - 1` is a key with the value `f` gives it, the map lists that run and then what is left. -/
theorem toList_eq_run_append {m : Std.TreeMap Nat β} {lo hi : Nat} {f : Nat → β}
    (hlo : ∀ k v, m[k]? = some v → lo ≤ k) (hrun : ∀ k, lo ≤ k → k < hi → m[k]? = some (f k)) :
    m.toList = (List.range' lo (hi - lo)).map (fun k => (k, f k)) ++ entriesFrom m hi := by
  have hsorted : ((List.range' lo (hi - lo)).map (fun k => (k, f k)) ++
      entriesFrom m hi).Pairwise fun a b => a.1 < b.1 := by
    refine List.pairwise_append.mpr ⟨?_, (pairwise_lt_toList m).filter _, ?_⟩
    · rw [List.pairwise_map]
      exact List.pairwise_lt_range'
    · intro a ha b hb
      obtain ⟨k, hk, rfl⟩ := List.mem_map.mp ha
      have hk' := List.mem_range'_1.mp hk
      have hb' : hi ≤ b.1 := by simpa using (List.mem_filter.mp hb).2
      show k < b.1
      omega
  refine List.Pairwise.eq_of_mem_iff (pairwise_lt_toList m) hsorted ?_
  rintro ⟨k, v⟩
  rw [List.mem_append, mem_toList_iff]
  constructor
  · intro h
    by_cases hk : k < hi
    · have hv := hrun k (hlo k v h) hk
      rw [h, Option.some.injEq] at hv
      have := hlo k v h
      exact Or.inl (List.mem_map.mpr ⟨k, List.mem_range'_1.mpr (by omega), by rw [hv]⟩)
    · exact Or.inr (List.mem_filter.mpr ⟨mem_toList_iff.mpr h, by simpa using hk⟩)
  · rintro (h | h)
    · obtain ⟨j, hj, heq⟩ := List.mem_map.mp h
      obtain ⟨rfl, rfl⟩ := Prod.mk.inj heq
      have := List.mem_range'_1.mp hj
      exact hrun j this.1 (by omega)
    · exact mem_toList_iff.mp (List.mem_filter.mp h).1

end Smolweb
