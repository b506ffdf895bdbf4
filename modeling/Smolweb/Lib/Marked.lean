import Mathlib.Data.List.Infix

/-!
# Fields introduced by marks

A mark is a word whose first letter does not come again in it. A field that does not hold the mark
of the one after it ends where that mark begins, so both can be told from their concatenation
(`append_mark_inj`), also where the second one may be missing (`append_optional_inj`).
-/

namespace Smolweb.Marked

variable {α : Type} {c : α} {mark : List α}

/-- Whatever a field and a mark begin with is all of the field that stands before the mark. -/
theorem eq_nil_of_mark (hmark : c ∉ mark) {k x y : List α} (hk : ¬c :: mark <:+: k)
    (h : c :: mark ++ x = k ++ (c :: mark ++ y)) : k = [] := by
  cases k with
  | nil => rfl
  | cons d k =>
    exfalso
    rw [List.cons_append, List.cons_append] at h
    obtain ⟨rfl, htail⟩ := List.cons.inj h
    rcases List.append_eq_append_iff.mp htail with ⟨l, rfl, -⟩ | ⟨l, rfl, hl⟩
    · exact hk (List.prefix_append (c :: mark) l).isInfix
    · cases l with
      | nil =>
        rw [List.append_nil] at hk
        exact hk List.infix_rfl
      | cons d l =>
        -- the mark would begin again inside itself
        obtain ⟨rfl, -⟩ := List.cons.inj hl
        exact hmark (by simp)

/-- A field without the mark and what follows the mark can be told apart. -/
theorem append_mark_inj (hmark : c ∉ mark) {a b x y : List α} (ha : ¬c :: mark <:+: a)
    (hb : ¬c :: mark <:+: b) (h : a ++ (c :: mark ++ x) = b ++ (c :: mark ++ y)) :
    a = b ∧ x = y := by
  have hab : a = b := by
    rcases List.append_eq_append_iff.mp h with ⟨k, rfl, hk⟩ | ⟨k, rfl, hk⟩
    · have hin : ¬c :: mark <:+: k := fun hi => hb (hi.trans (List.suffix_append a k).isInfix)
      rw [eq_nil_of_mark hmark hin hk, List.append_nil]
    · have hin : ¬c :: mark <:+: k := fun hi => ha (hi.trans (List.suffix_append b k).isInfix)
      rw [eq_nil_of_mark hmark hin hk, List.append_nil]
  subst hab
  exact ⟨rfl, List.append_cancel_left (List.append_cancel_left h)⟩

/-- A field that is there only with its mark before it. -/
def optional (mark : List α) (field : Option (List α)) : List α :=
  field.elim [] (mark ++ ·)

theorem mark_infix (a x : List α) : mark <:+: a ++ (mark ++ x) :=
  ⟨a, x, List.append_assoc ..⟩

theorem append_optional_inj (hmark : c ∉ mark) {a b : List α} {x y : Option (List α)}
    (ha : ¬c :: mark <:+: a) (hb : ¬c :: mark <:+: b)
    (h : a ++ optional (c :: mark) x = b ++ optional (c :: mark) y) : a = b ∧ x = y := by
  cases x with
  | none =>
    rw [optional, Option.elim_none, List.append_nil] at h
    cases y with
    | none =>
      rw [optional, Option.elim_none, List.append_nil] at h
      exact ⟨h, rfl⟩
    | some y => exact absurd (h ▸ mark_infix b y) ha
  | some x =>
    cases y with
    | none =>
      rw [optional, optional, Option.elim_none, List.append_nil] at h
      exact absurd (h ▸ mark_infix a x) hb
    | some y =>
      obtain ⟨hab, hxy⟩ := append_mark_inj hmark ha hb h
      exact ⟨hab, congrArg some hxy⟩

end Smolweb.Marked
