import Mathlib.Algebra.GroupWithZero.Nat
import Smolweb.Lib.Text

/-!
# Fields separated by one character

A line of `n` leading fields and a last one that may itself hold the separator. `splitFields`
takes it apart and drops an empty remainder, `joinFields` puts it together. Splitting inverts
joining on `Fields` (`splitFields_joinFields`); joining gives back what was split unless the text
ended in an empty leading field (`splitFields_joinFields_iff`).
-/

namespace Smolweb

namespace Text

/-- Up to `n` fields off the front, each ended by `sep`, and what remains. -/
def splitLeading (sep : Char) : Nat → Text → List Text × Text
  | 0, t => ([], t)
  | n + 1, t =>
    match splitOnce sep t with
    | some (head, tail) =>
      let p := splitLeading sep n tail
      (head :: p.1, p.2)
    | none => ([], t)

/-- The leading fields, and the remainder unless it is empty. -/
def splitFields (sep : Char) (n : Nat) (t : Text) : List Text :=
  let p := splitLeading sep n t
  if p.2.isEmpty then p.1 else p.1 ++ [p.2]

/-- `str::splitn`, into at most `n + 1` fields. -/
def splitN (sep : Char) (n : Nat) (t : Text) : List Text :=
  let p := splitLeading sep n t
  p.1 ++ [p.2]

/-- The fields with one separator between any two. -/
def joinFields (sep : Char) : List Text → Text
  | [] => []
  | [t] => t
  | t :: u :: ts => t ++ sep :: joinFields sep (u :: ts)

/-- At most `n + 1` fields; a field that another one follows is free of separators, and so are
the first `n`; the last is not empty. -/
def Fields (sep : Char) : Nat → List Text → Prop
  | _, [] => True
  | 0, ts => ∃ t, ts = [t] ∧ t ≠ []
  | _ + 1, [t] => sep ∉ t ∧ t ≠ []
  | n + 1, t :: u :: ts => sep ∉ t ∧ Fields sep n (u :: ts)

/-- The text ends in an empty one of the first `n` fields. -/
def EndsInEmptyField (sep : Char) : Nat → Text → Prop
  | 0, _ => False
  | n + 1, t => t = [sep] ∨ ∃ head tail, splitOnce sep t = some (head, tail) ∧
      EndsInEmptyField sep n tail

variable {sep : Char} {n : Nat} {t : Text}

/-- No field of a split text holds the separator. -/
theorem not_mem_of_mem_splitOn {f : Text} (h : f ∈ t.splitOn sep) : sep ∉ f := by
  induction t generalizing f with
  | nil =>
    rw [List.splitOn_nil, List.mem_singleton] at h
    simp [h]
  | cons c t ih =>
    rw [List.splitOn_cons_eq_if_modifyHead] at h
    split at h
    · rcases List.mem_cons.mp h with rfl | h
      · simp
      · exact ih h
    · next hc =>
      obtain ⟨head, tail, hsplit⟩ := List.exists_cons_of_ne_nil (List.splitOn_ne_nil sep t)
      rw [hsplit, List.modifyHead_cons] at h
      rw [hsplit] at ih
      rcases List.mem_cons.mp h with rfl | h
      · have hhead := ih List.mem_cons_self
        intro hm
        rcases List.mem_cons.mp hm with rfl | hm
        · exact hc BEq.rfl
        · exact hhead hm
      · exact ih (List.mem_cons_of_mem _ h)

theorem sublist_of_mem_splitOn {sep : Char} {t f : Text} (h : f ∈ t.splitOn sep) :
    f.Sublist t := by
  induction t generalizing f with
  | nil =>
    rw [List.splitOn_nil, List.mem_singleton] at h
    simp [h]
  | cons c t ih =>
    rw [List.splitOn_cons_eq_if_modifyHead] at h
    split at h
    · rcases List.mem_cons.mp h with rfl | h
      · exact List.nil_sublist _
      · exact (ih h).cons c
    · obtain ⟨head, tail, hsplit⟩ := List.exists_cons_of_ne_nil (List.splitOn_ne_nil sep t)
      rw [hsplit, List.modifyHead_cons] at h
      rw [hsplit] at ih
      rcases List.mem_cons.mp h with rfl | h
      · exact (ih List.mem_cons_self).cons_cons c
      · exact (ih (List.mem_cons_of_mem _ h)).cons c

theorem splitN_append {a : Text} (h : sep ∉ a) (t : Text) :
    splitN sep (n + 1) (a ++ sep :: t) = a :: splitN sep n t := by
  simp only [splitN, splitLeading, splitOnce_append h, List.cons_append]

theorem splitFields_zero : splitFields sep 0 t = if t.isEmpty then [] else [t] := by
  simp only [splitFields, splitLeading]
  rfl

theorem splitFields_of_not_mem (h : sep ∉ t) :
    splitFields sep n t = if t.isEmpty then [] else [t] := by
  cases n with
  | zero => exact splitFields_zero
  | succ n =>
    simp only [splitFields, splitLeading, splitOnce_eq_none_iff.mpr h]
    rfl

theorem splitFields_of_splitOnce {head tail : Text} (h : splitOnce sep t = some (head, tail)) :
    splitFields sep (n + 1) t = head :: splitFields sep n tail := by
  simp only [splitFields, splitLeading, h]
  split <;> rfl

@[simp] theorem splitFields_nil : splitFields sep n [] = [] :=
  splitFields_of_not_mem (by simp)

theorem joinFields_cons (t : Text) {ts : List Text} (h : ts ≠ []) :
    joinFields sep (t :: ts) = t ++ sep :: joinFields sep ts := by
  cases ts with
  | nil => exact absurd rfl h
  | cons u ts => rfl

theorem mem_of_mem_joinFields {ts : List Text} {c : Char} (h : c ∈ joinFields sep ts) :
    c = sep ∨ ∃ t ∈ ts, c ∈ t := by
  induction ts with
  | nil => cases h
  | cons t ts ih =>
    cases ts with
    | nil => exact .inr ⟨t, List.mem_cons_self, h⟩
    | cons u ts =>
      rw [joinFields_cons t (List.cons_ne_nil u ts), List.mem_append, List.mem_cons] at h
      rcases h with h | h | h
      · exact .inr ⟨t, List.mem_cons_self, h⟩
      · exact .inl h
      · rcases ih h with h | ⟨v, hv, h⟩
        · exact .inl h
        · exact .inr ⟨v, List.mem_cons_of_mem t hv, h⟩

/-- What was joined is split where it was joined; of nothing, an empty text is left. -/
theorem splitOn_joinFields {ts : List Text} (h : ∀ t ∈ ts, sep ∉ t) :
    (joinFields sep ts).splitOn sep = if ts = [] then [[]] else ts := by
  induction ts with
  | nil => rfl
  | cons t ts ih =>
    have ht := h t List.mem_cons_self
    cases ts with
    | nil =>
      rw [joinFields, List.splitOn_eq_singleton ht]
      rfl
    | cons u ts =>
      rw [joinFields_cons t (List.cons_ne_nil u ts),
        List.splitOn_append_cons_self_of_not_mem ht, ih fun v hv => h v (List.mem_cons_of_mem t hv)]
      rfl

/-- The length of fields with a separator for each of them. -/
def weight (ts : List Text) : Nat := (ts.map fun t => t.length + 1).sum

@[simp] theorem weight_nil : weight [] = 0 := rfl

@[simp] theorem weight_cons (t : Text) (ts : List Text) :
    weight (t :: ts) = t.length + 1 + weight ts := by
  rw [weight, List.map_cons, List.sum_cons, ← weight]

@[simp] theorem weight_append (ts us : List Text) : weight (ts ++ us) = weight ts + weight us := by
  rw [weight, List.map_append, List.sum_append_nat, ← weight, ← weight]

theorem weight_dropLast_le (ts : List Text) : weight ts.dropLast ≤ weight ts := by
  cases h : ts.getLast? with
  | none => rw [List.getLast?_eq_none_iff.mp h, List.dropLast_nil]
  | some t =>
    obtain ⟨us, rfl⟩ := List.getLast?_eq_some_iff.mp h
    rw [List.dropLast_concat, weight_append]
    omega

theorem length_joinFields {ts : List Text} (h : ts ≠ []) :
    (joinFields sep ts).length + 1 = weight ts := by
  induction ts with
  | nil => exact absurd rfl h
  | cons t ts ih =>
    cases ts with
    | nil => simp [weight, joinFields]
    | cons u ts =>
      have hrest := ih (List.cons_ne_nil u ts)
      rw [joinFields_cons t (List.cons_ne_nil u ts)]
      simp only [weight, List.map_cons, List.sum_cons, List.length_append, List.length_cons]
        at hrest ⊢
      omega

theorem weight_pos {ts : List Text} (h : t ∈ ts) : t.length + 1 ≤ weight ts := by
  obtain ⟨before, after, rfl⟩ := List.append_of_mem h
  simp only [weight, List.map_append, List.map_cons, List.sum_append_nat, List.sum_cons]
  omega

/-- **Splitting inverts joining.** -/
theorem splitFields_joinFields {ts : List Text} (h : Fields sep n ts) :
    splitFields sep n (joinFields sep ts) = ts := by
  induction ts generalizing n with
  | nil => exact splitFields_nil
  | cons t ts ih =>
    cases n with
    | zero =>
      obtain ⟨u, hu, hne⟩ := h
      obtain ⟨rfl, rfl⟩ := List.cons.inj hu
      simp [joinFields, splitFields_zero, hne]
    | succ n =>
      cases ts with
      | nil =>
        obtain ⟨hsep, hne⟩ := h
        simp [joinFields, splitFields_of_not_mem hsep, hne]
      | cons u ts =>
        obtain ⟨hsep, hrest⟩ := h
        have hsplit : splitOnce sep (joinFields sep (t :: u :: ts)) =
            some (t, joinFields sep (u :: ts)) := splitOnce_append hsep _
        rw [splitFields_of_splitOnce hsplit, ih hrest]

theorem splitFields_eq_nil_iff : splitFields sep n t = [] ↔ t = [] := by
  cases n with
  | zero => simp [splitFields_zero]
  | succ n =>
    cases hs : splitOnce sep t with
    | none => simp [splitFields_of_not_mem (splitOnce_eq_none_iff.mp hs)]
    | some p =>
      obtain ⟨rfl, -⟩ := splitOnce_eq_some_iff.mp (show splitOnce sep t = some (p.1, p.2) from hs)
      simp [splitFields_of_splitOnce hs]

/-- **Joining what was split and splitting again**: the fields come back exactly if none of the
leading ones was empty at the end of the text. -/
theorem splitFields_joinFields_iff :
    splitFields sep n (joinFields sep (splitFields sep n t)) = splitFields sep n t ↔
      ¬EndsInEmptyField sep n t := by
  induction n generalizing t with
  | zero =>
    simp only [EndsInEmptyField, not_false_eq_true, iff_true]
    by_cases ht : t = []
    · simp [ht, joinFields]
    · simp [splitFields_zero, ht, joinFields]
  | succ n ih =>
    cases hs : splitOnce sep t with
    | none =>
      have hsep := splitOnce_eq_none_iff.mp hs
      have hempty : ¬EndsInEmptyField sep (n + 1) t := by
        rintro (rfl | ⟨head, tail, hsome, -⟩)
        · exact hsep (by simp)
        · rw [hs] at hsome
          cases hsome
      refine iff_of_true ?_ hempty
      by_cases ht : t = []
      · simp [ht, joinFields]
      · simp [splitFields_of_not_mem hsep, ht, joinFields]
    | some p =>
      obtain ⟨head, tail⟩ := p
      obtain ⟨rfl, hsep⟩ := splitOnce_eq_some_iff.mp hs
      have hends : EndsInEmptyField sep (n + 1) (head ++ sep :: tail) ↔
          (head = [] ∧ tail = []) ∨ EndsInEmptyField sep n tail := by
        simp only [EndsInEmptyField, hs, Option.some.injEq, Prod.mk.injEq]
        refine or_congr ?_ ⟨?_, fun h => ⟨head, tail, ⟨rfl, rfl⟩, h⟩⟩
        · cases head <;> simp
        · rintro ⟨_, _, ⟨rfl, rfl⟩, h⟩
          exact h
      rw [splitFields_of_splitOnce hs, hends]
      by_cases htail : tail = []
      · subst htail
        have hnil : ¬EndsInEmptyField sep n [] := ih.mp (by simp [joinFields])
        have hjoin : joinFields sep [head] = head := rfl
        rw [splitFields_nil, hjoin, splitFields_of_not_mem hsep]
        by_cases hhead : head = [] <;> simp [hhead, hnil]
      · have hne : splitFields sep n tail ≠ [] := fun h => htail (splitFields_eq_nil_iff.mp h)
        rw [joinFields_cons head hne, splitFields_of_splitOnce (splitOnce_append hsep _)]
        simp [htail, ih]

/-- The second field of a text is shorter than the text. -/
theorem length_second_lt {u : Text} (h : (splitFields sep 1 t)[1]? = some u) :
    u.length < t.length := by
  cases hs : splitOnce sep t with
  | none =>
    rw [splitFields_of_not_mem (splitOnce_eq_none_iff.mp hs)] at h
    split at h <;> simp at h
  | some p =>
    obtain ⟨rfl, -⟩ := splitOnce_eq_some_iff.mp (show _ = some (p.1, p.2) from hs)
    rw [splitFields_of_splitOnce hs, splitFields_zero] at h
    split at h
    · simp at h
    · simp only [List.getElem?_cons_succ, List.getElem?_cons_zero, Option.some.injEq] at h
      rw [← h, List.length_append, List.length_cons]
      omega

theorem endsInEmptyField_one : EndsInEmptyField sep 1 t ↔ t = [sep] := by
  simp [EndsInEmptyField]

theorem endsInEmptyField_two :
    EndsInEmptyField sep 2 t ↔ t = [sep] ∨ ∃ word, sep ∉ word ∧ t = word ++ [sep, sep] := by
  rw [EndsInEmptyField]
  refine or_congr_right ⟨?_, ?_⟩
  · rintro ⟨head, tail, hs, htail⟩
    obtain ⟨rfl, hsep⟩ := splitOnce_eq_some_iff.mp hs
    exact ⟨head, hsep, by rw [endsInEmptyField_one.mp htail]⟩
  · rintro ⟨word, hsep, rfl⟩
    exact ⟨word, [sep], splitOnce_append hsep _, endsInEmptyField_one.mpr rfl⟩

theorem oneLine_joinFields {sep : Char} (h : isLineBreak sep = false) {ts : List Text} :
    (joinFields sep ts).OneLine ↔ ∀ t ∈ ts, t.OneLine := by
  induction ts with
  | nil => simp [joinFields]
  | cons t ts ih =>
    cases ts with
    | nil => simp [joinFields]
    | cons u ts =>
      rw [joinFields, oneLine_append, oneLine_cons, ih]
      simp [h]

end Text

end Smolweb
