import Mathlib.Algebra.GroupWithZero.Nat
import Mathlib.Data.List.Infix

/-!
# Records laid end to end

An iterator over the rest of a list yields the items of `Yields`, and then nothing. Where each
record can be told from what follows it (`Records`), a document that is cut short yields the
records that lie wholly inside the cut, and one error when the cut falls inside a record
(`Records.yields_cut`). No list yields more items than there is room for (`Records.yields_any`).
-/

namespace Smolweb

/-! ## Iterators -/

section

variable {σ ι : Type}

/-- From this state the iterator yields `items` in order, and then nothing. -/
inductive Yields (next : σ → Option ι × σ) : σ → List ι → Prop
  | done {s s' : σ} (h : next s = (none, s')) : Yields next s []
  | item {s s' : σ} {i : ι} {items : List ι} (h : next s = (some i, s'))
      (rest : Yields next s' items) : Yields next s (i :: items)

theorem Yields.unique {next : σ → Option ι × σ} {s : σ} {items items' : List ι}
    (h : Yields next s items) (h' : Yields next s items') : items = items' := by
  induction h generalizing items' with
  | done h =>
    cases h' with
    | done => rfl
    | item h₂ => simp [h] at h₂
  | item h _ ih =>
    cases h' with
    | done h₂ => simp [h] at h₂
    | item h₂ rest =>
      rw [h] at h₂
      cases h₂
      rw [ih rest]

end

/-! ## Cuts of a document -/

section

variable {α : Type} (size : α → Nat)

/-- The records that lie wholly inside the first `cut` places of a document. -/
def inside (cut : Nat) : List α → List α
  | [] => []
  | a :: as => if size a ≤ cut then a :: inside (cut - size a) as else []

/-- A record of the document ends at `cut`, or the document begins there. -/
def OnBoundary (as : List α) (cut : Nat) : Prop :=
  ∃ front, front <+: as ∧ (front.map size).sum = cut

theorem onBoundary_nil {cut : Nat} : OnBoundary size [] cut ↔ cut = 0 := by
  constructor
  · rintro ⟨front, hfront, rfl⟩
    rw [List.prefix_nil.mp hfront]
    rfl
  · rintro rfl
    exact ⟨[], List.prefix_rfl, rfl⟩

theorem onBoundary_cons {a : α} {as : List α} {cut : Nat} (h : size a ≤ cut) :
    OnBoundary size (a :: as) cut ↔ OnBoundary size as (cut - size a) := by
  constructor
  · rintro ⟨front, hfront, rfl⟩
    rcases List.prefix_cons_iff.mp hfront with rfl | ⟨front', rfl, hfront'⟩
    · exact ⟨[], List.nil_prefix, by simp⟩
    · exact ⟨front', hfront', by simp⟩
  · rintro ⟨front, hfront, heq⟩
    exact ⟨a :: front, List.cons_prefix_cons.mpr ⟨rfl, hfront⟩, by simp [heq]; omega⟩

theorem onBoundary_cons_of_lt {a : α} {as : List α} {cut : Nat} (h : cut < size a) :
    OnBoundary size (a :: as) cut ↔ cut = 0 := by
  constructor
  · rintro ⟨front, hfront, rfl⟩
    rcases List.prefix_cons_iff.mp hfront with rfl | ⟨front', rfl, -⟩
    · rfl
    · simp only [List.map_cons, List.sum_cons] at h
      omega
  · rintro rfl
    exact ⟨[], List.nil_prefix, rfl⟩

end

/-! ## Records -/

/-- `next` reads records off the front of a list. A record `a` is written as `wire a` and read as
`back a`; a read that fails is `short` and leaves nothing. -/
structure Records {α β γ ε : Type} (next : List γ → Option (Except ε β) × List γ)
    (wire : α → List γ) (back : α → β) (short : ε) (Valid : α → Prop) : Prop where
  next_nil : next [] = (none, [])
  next_wire : ∀ {a}, Valid a → ∀ rest, next (wire a ++ rest) = (some (.ok (back a)), rest)
  of_next_none : ∀ {rest rest'}, next rest = (none, rest') → rest = []
  of_next_ok : ∀ {rest b rest'}, next rest = (some (.ok b), rest') →
    ∃ a, Valid a ∧ rest = wire a ++ rest'
  of_next_error : ∀ {rest e rest'}, next rest = (some (.error e), rest') → e = short ∧ rest' = []

namespace Records

variable {α β γ ε : Type} {next : List γ → Option (Except ε β) × List γ} {wire : α → List γ}
  {back : α → β} {short : ε} {Valid : α → Prop}

/-- A record that is cut short is not read: nothing that could be read there ends before it. -/
theorem next_cut (R : Records next wire back short Valid) {a : α} (ha : Valid a) {cut : List γ}
    (hcut : cut <+: wire a) (hlt : cut.length < (wire a).length) (hne : cut ≠ []) :
    next cut = (some (.error short), []) := by
  rcases hn : next cut with ⟨_ | e | b, rest⟩
  · exact absurd (R.of_next_none hn) hne
  · obtain ⟨rfl, rfl⟩ := R.of_next_error hn
    rfl
  · -- the record read would be followed by all that is missing of `wire a`
    obtain ⟨a', ha', rfl⟩ := R.of_next_ok hn
    obtain ⟨missing, hmissing⟩ := hcut
    have h₁ := R.next_wire ha []
    have h₂ := R.next_wire ha' (rest ++ missing)
    rw [List.append_nil, ← hmissing, List.append_assoc, h₂] at h₁
    have : rest ++ missing = [] := congrArg Prod.snd h₁
    obtain ⟨rfl, rfl⟩ := List.append_eq_nil_iff.mp this
    rw [← hmissing, List.append_nil] at hlt
    exact absurd hlt (by simp)

/-- **A document that is cut short**: the records wholly inside are read, and then there is
nothing, or one error. -/
theorem yields_cut (R : Records next wire back short Valid) {size : α → Nat}
    (hsize : ∀ a, (wire a).length = size a) {as : List α} (h : ∀ a ∈ as, Valid a) {cut : List γ}
    (hcut : cut <+: as.flatMap wire) :
    (OnBoundary size as cut.length ∧
      Yields next cut ((inside size cut.length as).map fun a => .ok (back a))) ∨
    (¬ OnBoundary size as cut.length ∧
      Yields next cut (((inside size cut.length as).map fun a => .ok (back a)) ++
        [.error short])) := by
  induction as generalizing cut with
  | nil =>
    rw [List.flatMap_nil, List.prefix_nil] at hcut
    subst hcut
    exact .inl ⟨(onBoundary_nil _).mpr rfl, .done R.next_nil⟩
  | cons a as ih =>
    have ha := h a List.mem_cons_self
    rw [List.flatMap_cons] at hcut
    by_cases hle : size a ≤ cut.length
    · -- the first record is read, and what is left is a cut of the others
      obtain ⟨cut', rfl⟩ := List.prefix_of_prefix_length_le (List.prefix_append _ _) hcut
        (hsize a ▸ hle)
      have hstep := R.next_wire ha cut'
      have hcut' := (List.prefix_append_right_inj _).mp hcut
      rw [onBoundary_cons _ hle, inside, if_pos hle]
      simp only [List.length_append, hsize, Nat.add_sub_cancel_left, List.map_cons,
        List.cons_append]
      exact (ih (fun a' ha' => h a' (List.mem_cons_of_mem _ ha')) hcut').imp
        (fun hy => ⟨hy.1, .item hstep hy.2⟩) (fun hy => ⟨hy.1, .item hstep hy.2⟩)
    · have hlt : cut.length < size a := Nat.lt_of_not_le hle
      have hpre := List.prefix_of_prefix_length_le hcut (List.prefix_append _ _)
        (by rw [hsize]; omega)
      rw [onBoundary_cons_of_lt _ hlt]
      simp only [inside, if_neg hle, List.map_nil, List.nil_append]
      by_cases hnil : cut = []
      · subst hnil
        exact .inl ⟨rfl, .done R.next_nil⟩
      · exact .inr ⟨by simpa using hnil,
          .item (R.next_cut ha hpre (by rw [hsize]; exact hlt) hnil) (.done R.next_nil)⟩

/-- **The iterator ends** on every list, after at most one item for each record there is room for
and one more. -/
theorem yields_any (R : Records next wire back short Valid) {room : Nat} (hpos : 0 < room)
    (hroom : ∀ a, Valid a → room ≤ (wire a).length) (rest : List γ) :
    ∃ items, Yields next rest items ∧ items.length ≤ rest.length / room + 1 := by
  induction hn : rest.length using Nat.strong_induction_on generalizing rest with
  | _ n ih =>
    subst hn
    rcases hnext : next rest with ⟨_ | e | b, rest'⟩
    · exact ⟨[], .done hnext, by simp⟩
    · obtain ⟨rfl, rfl⟩ := R.of_next_error hnext
      exact ⟨[.error e], .item hnext (.done R.next_nil), by simp⟩
    · obtain ⟨a, ha, rfl⟩ := R.of_next_ok hnext
      have := hroom a ha
      have hlen : (wire a ++ rest').length = (wire a).length + rest'.length := List.length_append
      obtain ⟨items, hitems, hle⟩ := ih rest'.length (by omega) rest' rfl
      refine ⟨.ok b :: items, .item hnext hitems, ?_⟩
      have hdiv : rest'.length / room + 1 ≤ (wire a ++ rest').length / room := by
        rw [← Nat.add_div_right _ hpos]
        exact Nat.div_le_div_right (by omega)
      rw [List.length_cons]
      omega

end Records

end Smolweb
