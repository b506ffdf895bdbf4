import Smolweb.Scroll.Scrolltext

/-!
# Escaped lines

`is_escapable` says again, apart from `parse_line` and from the fences of `parse`, how a line of
each type begins. Whatever is parsed as one of those types is escapable (`isEscapable_of_isMarkup`),
so a backslash makes a text of it (`parse_backslash`).
-/

namespace Smolweb.Scroll

/-- A line of a type that a backslash takes away. -/
def IsMarkup : ScrollLine → Prop
  | .text _ | .blank => False
  | .heading .. | .quote .. | .listItem .. | .link .. | .inputLink .. | .thematicBreak
  | .codeBlock .. => True

theorem isEscapable_iff {rest : Text} : isEscapable rest = true ↔
    (1 ≤ markCount '*' rest ∧ markCount '*' rest ≤ 4) ∨
      (1 ≤ markCount '#' rest ∧ markCount '#' rest ≤ 5) ∨
      ['>'] <+: rest ∨ "=>".toList <+: rest ∨ "=:".toList <+: rest ∨ fence <+: rest ∨
      rest = "---".toList := by
  simp only [isEscapable, Bool.and_eq_true, decide_eq_true_eq]
  split
  · next h => simp [h]
  · next hstars =>
    split
    · next h => simp [h]
    · next hhashes =>
      rw [or_iff_right hstars, or_iff_right hhashes]
      simp [or_assoc]

theorem markCount_pos {mark : Char} {t : Text} (h : [mark] <+: t) : 1 ≤ markCount mark t := by
  obtain ⟨rest, rfl⟩ := h
  simp [markCount]

/-- **The two lists agree**: a line that is parsed as markup is escapable. -/
theorem isEscapable_of_isMarkup {raw : Text} (h : IsMarkup (parseLine raw)) :
    isEscapable raw = true := by
  rw [isEscapable_iff]
  unfold parseLine at h
  split at h
  · exact h.elim
  split at h
  · split at h <;> exact h.elim
  split at h
  · next hbreak => simp [hbreak]
  split at h
  · next hhash =>
    simp only at h
    split at h
    · next hlevel => exact .inr (.inl ⟨markCount_pos hhash, hlevel⟩)
    · exact h.elim
  split at h
  · next hquote => exact .inr (.inr (.inl hquote))
  split at h
  · next hlink => exact .inr (.inr (.inr (.inl (Text.prefix_of_stripPrefix hlink))))
  split at h
  · next hinput => exact .inr (.inr (.inr (.inr (.inl (Text.prefix_of_stripPrefix hinput)))))
  simp only [Bool.and_eq_true, decide_eq_true_eq] at h
  split at h
  · next hstars => exact .inl hstars
  · exact h.elim

theorem parse_of_not_fence {raw : Text} (hlf : '\n' ∉ raw) (hne : raw ≠ [])
    (hfence : ¬fence <+: raw) : parse raw = [parseLine raw] := by
  have hstrip : Text.stripPrefix fence raw = none := if_neg hfence
  rw [parse, Text.lines_of_not_mem hlf, if_neg (mt List.isEmpty_iff.mp hne)]
  simp [parseStep, hstrip]

theorem not_fence_backslash (l : Text) : ¬fence <+: '\\' :: l := by
  rintro ⟨rest, h⟩
  cases h

/-- A backslash gives a text, and takes itself away from a line that is escapable. -/
theorem parse_backslash {l : Text} (hlf : '\n' ∉ l) :
    parse ('\\' :: l) = [.text (if isEscapable l then l else '\\' :: l)] := by
  have hlf' : '\n' ∉ '\\' :: l := by simp [hlf]
  have htrim : Text.trim ('\\' :: l) ≠ [] := by
    intro h
    have hkeep : Text.trim ('\\' :: l) = '\\' :: Text.trimEnd l :=
      Text.trimEndMatches_append_cons rfl [] l
    rw [hkeep] at h
    cases h
  have hstrip : Text.stripPrefix ['\\'] ('\\' :: l) = some l := Text.stripPrefix_append ['\\'] l
  rw [parse_of_not_fence hlf' (List.cons_ne_nil _ _) (not_fence_backslash l), parseLine,
    if_neg (mt List.isEmpty_iff.mp htrim), hstrip]
  simp only
  split <;> rfl

theorem isEscapable_of_parse {l : Text} {x : ScrollLine} (hlf : '\n' ∉ l) (h : parse l = [x])
    (hx : IsMarkup x) : isEscapable l = true := by
  by_cases hfence : fence <+: l
  · exact isEscapable_iff.mpr (.inr (.inr (.inr (.inr (.inr (.inl hfence))))))
  · have hne : l ≠ [] := by
      rintro rfl
      cases h
    rw [parse_of_not_fence hlf hne hfence] at h
    exact isEscapable_of_isMarkup (List.head_eq_of_cons_eq h ▸ hx)

/-- **Escaping** covers every type of line, and makes nothing but a text of a text. -/
theorem parse_escaped (l : Text) (hlf : '\n' ∉ l) :
    (∀ x, parse l = [x] → IsMarkup x → parse ('\\' :: l) = [.text l]) ∧
      ((∃ t, parse l = [.text t]) → ¬['\\'] <+: l → ∃ t, parse ('\\' :: l) = [.text t]) := by
  constructor
  · intro x h hx
    rw [parse_backslash hlf, if_pos (isEscapable_of_parse hlf h hx)]
  · intro _ _
    exact ⟨_, parse_backslash hlf⟩

theorem parse_escaped_item : parse "** one".toList = [.listItem 2 none "one".toList] ∧
    parse ('\\' :: "** one".toList) = [.text "** one".toList] := by
  have hitem : parse "** one".toList = [.listItem 2 none "one".toList] := by decide +kernel
  exact ⟨hitem, (parse_escaped _ (by decide)).1 _ hitem trivial⟩

end Smolweb.Scroll
