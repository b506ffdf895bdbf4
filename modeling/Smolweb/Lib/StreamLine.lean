import Mathlib.Data.List.TakeWhile
import Smolweb.Lib.Duplex

/-!
# The lines of a stream

Where a stream is read line by line, the end of the stream ends a line too. `on_readThrough` and
`on_readLine` say what is read off any stream, whether or not a separator follows its first line.
-/

namespace Smolweb.DuplexM

variable {β ε γ : Type} [DecidableEq β] {sep : β} {l : List β}

/-- What stands before the first `sep`; all of it if there is none. -/
def firstLine (sep : β) (l : List β) : List β := l.takeWhile (· ≠ sep)

/-- What comes after the first `sep`; nothing if there is none. -/
def afterLine (sep : β) (l : List β) : List β := l.drop ((firstLine sep l).length + 1)

/-- The line numbered `n`; past the last line there are empty ones. -/
def nthLine (sep : β) : Nat → List β → List β
  | 0, l => firstLine sep l
  | n + 1, l => nthLine sep n (afterLine sep l)

theorem not_mem_firstLine : sep ∉ firstLine sep l := by
  intro h
  simpa using List.mem_takeWhile_imp h

theorem firstLine_append {a : List β} (h : sep ∉ a) (rest : List β) :
    firstLine sep (a ++ sep :: rest) = a :=
  takeWhile_append_sep h rest

theorem afterLine_append {a : List β} (h : sep ∉ a) (rest : List β) :
    afterLine sep (a ++ sep :: rest) = rest := by
  rw [afterLine, firstLine_append h]
  simp

/-- A line and what comes after it can be told apart. -/
theorem append_sep_inj {a b x y : List β} (ha : sep ∉ a) (hb : sep ∉ b)
    (h : a ++ sep :: x = b ++ sep :: y) : a = b ∧ x = y := by
  refine ⟨?_, ?_⟩
  · rw [← firstLine_append ha x, h, firstLine_append hb]
  · rw [← afterLine_append ha x, h, afterLine_append hb]

theorem firstLine_of_not_mem (h : sep ∉ l) : firstLine sep l = l := by
  rw [firstLine, List.takeWhile_eq_self_iff]
  intro b hb
  exact decide_eq_true fun he => h (he ▸ hb)

theorem afterLine_of_not_mem (h : sep ∉ l) : afterLine sep l = [] := by
  rw [afterLine, firstLine_of_not_mem h, List.drop_of_length_le (Nat.le_succ _)]

/-- A stream with a `sep` is its first line and what comes after it. -/
theorem firstLine_append_afterLine (h : sep ∈ l) :
    firstLine sep l ++ sep :: afterLine sep l = l := by
  obtain ⟨a, rest, rfl, ha⟩ := List.eq_append_cons_of_mem h
  rw [firstLine_append ha, afterLine_append ha]

/-- A stream is one line and what comes after its `sep`, or one line that never ends. -/
theorem firstLine_cases (sep : β) (l : List β) : l = firstLine sep l ++ sep :: afterLine sep l ∨
    l = firstLine sep l ∧ afterLine sep l = [] := by
  by_cases h : sep ∈ l
  · exact .inl (firstLine_append_afterLine h).symm
  · exact .inr ⟨(firstLine_of_not_mem h).symm, afterLine_of_not_mem h⟩

theorem count_afterLine : (afterLine sep l).count sep = l.count sep - 1 := by
  by_cases h : sep ∈ l
  · obtain ⟨a, rest, rfl, ha⟩ := List.eq_append_cons_of_mem h
    rw [afterLine_append ha, List.count_append, List.count_eq_zero_of_not_mem ha,
      List.count_cons_self]
    omega
  · rw [afterLine_of_not_mem h, List.count_nil, List.count_eq_zero_of_not_mem h]

/-! ## Reading them -/

/-- **Reading through a separator** reads the first line, and the separator if there is one. -/
theorem on_readThrough (s : Duplex β) : (readThrough sep : DuplexM β ε (List β)).on s =
    (.ok (s.unread.take ((firstLine sep s.unread).length + 1)),
      { s with unread := afterLine sep s.unread }) := by
  obtain ⟨unread, written⟩ := s
  by_cases h : sep ∈ unread
  · obtain ⟨a, rest, rfl, ha⟩ := List.eq_append_cons_of_mem h
    have hread := Exchange.readThrough (ε := ε) ha written rest
    rw [List.append_assoc, List.singleton_append, List.append_nil] at hread
    have htake : (a ++ sep :: rest).take (a.length + 1) = a ++ [sep] := by
      rw [List.take_length_add_append]
      rfl
    simp only [hread, firstLine_append ha, afterLine_append ha, htake]
  · have hdrop : unread.drop unread.length = [] := List.drop_length
    have hfirst : unread.takeWhile (fun b => decide (b ≠ sep)) = unread := firstLine_of_not_mem h
    simp only [firstLine_of_not_mem h, afterLine_of_not_mem h, readThrough, on, hfirst, hdrop,
      List.take_of_length_le (Nat.le_succ _)]

theorem on_readThrough_bind (f : List β → DuplexM β ε γ) (s : Duplex β) :
    (readThrough sep >>= f).on s =
      (f (s.unread.take ((firstLine sep s.unread).length + 1))).on
        { s with unread := afterLine sep s.unread } := by
  rw [on_bind, on_readThrough]

theorem lineLoop_end {cap : Nat} {a : List β} (h : sep ∉ a) (line : List β)
    (hlen : line.length + a.length ≤ cap) : lineLoop sep cap line a = (some (line ++ a), []) := by
  have hpass := lineLoop_pass h line [] hlen
  rwa [List.append_nil] at hpass

theorem lineLoop_eq_some {cap : Nat} (h : (firstLine sep l).length ≤ cap) :
    lineLoop sep cap [] l = (some (firstLine sep l), afterLine sep l) := by
  by_cases hsep : sep ∈ l
  · obtain ⟨a, rest, rfl, ha⟩ := List.eq_append_cons_of_mem hsep
    rw [firstLine_append ha] at h ⊢
    rw [afterLine_append ha]
    exact Exchange.lineLoop_append ha [] rest (by simpa using h)
  · rw [firstLine_of_not_mem hsep] at h ⊢
    rw [afterLine_of_not_mem hsep]
    exact lineLoop_end hsep [] (by simpa using h)

theorem lineLoop_eq_none {cap : Nat} (h : cap < (firstLine sep l).length) :
    (lineLoop sep cap [] l).1 = none := by
  have hsplit : l = firstLine sep l ++ l.dropWhile (· ≠ sep) :=
    List.takeWhile_append_dropWhile.symm
  rw [hsplit]
  exact Exchange.lineLoop_none not_mem_firstLine [] _ (Nat.zero_le cap) (by simpa using h)

/-- **Reading a line** reads the first one, if it is not too long. -/
theorem on_readLine {cap : Nat} {s : Duplex β} (h : (firstLine sep s.unread).length ≤ cap) :
    (readLine sep cap : DuplexM β ε (Option (List β))).on s =
      (.ok (some (firstLine sep s.unread)), { s with unread := afterLine sep s.unread }) := by
  simp only [readLine, on, lineLoop_eq_some h]

theorem on_readLine_none {cap : Nat} {s : Duplex β} (h : cap < (firstLine sep s.unread).length) :
    ((readLine sep cap : DuplexM β ε (Option (List β))).on s).1 = .ok none :=
  congrArg Except.ok (lineLoop_eq_none h)

end Smolweb.DuplexM
