import Smolweb.Lib.Toggle
import Smolweb.Scroll.Scrolltext

/-!
# Inline markup

Which characters of a line `spans` consumes can be read off the line alone (`acts_iff`). The spans
hold all the others, in order (`spans_text`). The kind of a span is what the consumed toggles leave
on, one after another, in the one variable there is for it (`kind_eq`), so that a span may be of a
kind whose toggles were all consumed an even number of times (`closesProperly_iff`).
-/

namespace Smolweb.Scroll

/-! ## What a character toggles -/

/-- The character before an index. -/
def before (chars : Text) (i : Nat) : Option Char := if i = 0 then none else chars[i - 1]?

/-- A neighbour that is neither whitespace nor the toggle itself. -/
def Favours (c : Char) (neighbour : Option Char) : Prop :=
  ∃ n ∈ neighbour, isInlineWhitespace n = false ∧ n ≠ c

instance (c : Char) (neighbour : Option Char) : Decidable (Favours c neighbour) :=
  inferInstanceAs (Decidable (∃ n ∈ neighbour, _ ∧ _))

def Symbolic (neighbour : Option Char) : Prop := ∃ n ∈ neighbour, isSymbolic n = true

instance (neighbour : Option Char) : Decidable (Symbolic neighbour) :=
  inferInstanceAs (Decidable (∃ n ∈ neighbour, _))

/-- The neighbours of an index let the toggle there act. -/
def Flanked (chars : Text) (i : Nat) (c : Char) : Prop :=
  (Favours c (before chars i) ∨ Favours c chars[i + 1]?) ∧
    ¬(Symbolic (before chars i) ∧ Symbolic chars[i + 1]?)

instance (chars : Text) (i : Nat) (c : Char) : Decidable (Flanked chars i c) :=
  inferInstanceAs (Decidable (_ ∧ ¬_))

theorem any_favours {c : Char} {neighbour : Option Char} :
    (neighbour.any fun n => !isInlineWhitespace n && n != c) = true ↔ Favours c neighbour := by
  cases neighbour <;> simp [Favours]

theorem any_symbolic {neighbour : Option Char} :
    neighbour.any isSymbolic = true ↔ Symbolic neighbour := by
  cases neighbour <;> simp [Symbolic]

/-- The test of the neighbours, as `spans` makes it. -/
def allows (chars : Text) (i : Nat) (c : Char) : Bool :=
  !((before chars i).any isSymbolic && chars[i + 1]?.any isSymbolic) &&
    ((before chars i).any (fun n => !isInlineWhitespace n && n != c) ||
      chars[i + 1]?.any fun n => !isInlineWhitespace n && n != c)

theorem allows_iff {chars : Text} {i : Nat} {c : Char} :
    allows chars i c = true ↔ Flanked chars i c := by
  rw [allows, Bool.and_eq_true, Bool.or_eq_true, any_favours, any_favours, Bool.not_eq_true',
    Bool.and_eq_false_iff, ← Bool.not_eq_true, ← Bool.not_eq_true, any_symbolic, any_symbolic,
    ← not_and_or, Flanked, and_comm]

/-- What acts at an index. -/
theorem toggles_eq_some_iff {chars : Text} {kind k : SpanKind} {i : Nat} :
    toggles chars kind i = some k ↔ ∃ c ∈ chars[i]?, toggleKind c = some k ∧
      (kind = .code → k = .code) ∧ Flanked chars i c := by
  unfold toggles
  cases hc : chars[i]? with
  | none => simp
  | some c =>
    cases hk : toggleKind c with
    | none => simp [hk]
    | some candidate =>
      simp only [Option.mem_def, Option.some.injEq, exists_eq_left', hk]
      by_cases hcode : kind = .code ∧ candidate ≠ .code
      · rw [if_pos hcode]
        refine iff_of_false (by simp) ?_
        rintro ⟨rfl, h, -⟩
        exact hcode.2 (h hcode.1)
      · rw [if_neg hcode]
        have hopen : kind = .code → candidate = .code := by
          intro h
          by_contra hne
          exact hcode ⟨h, hne⟩
        change (if allows chars i c then some candidate else none) = some k ↔ _
        by_cases h : Flanked chars i c
        · rw [if_pos (allows_iff.mpr h), Option.some_inj]
          constructor
          · rintro rfl
            exact ⟨rfl, hopen, h⟩
          · exact fun h => h.1
        · rw [if_neg (mt allows_iff.mp h)]
          exact iff_of_false (by simp) fun hk => h hk.2.2

/-! ## What is consumed -/

/-- How many backticks before an index toggle. Nothing else acts on whether they do. -/
def backticks (chars : Text) (i : Nat) : Nat :=
  (List.range i).countP fun j => chars[j]? = some '\x60' ∧ Flanked chars j '\x60'

/-- A code span is open at an index. -/
def CodeOpen (chars : Text) (i : Nat) : Prop := ¬Even (backticks chars i)

instance (chars : Text) (i : Nat) : Decidable (CodeOpen chars i) := inferInstanceAs (Decidable (¬_))

/-- The character at an index is consumed: it is a toggle, it is a backtick if a code span is open
there, and its neighbours let it act. -/
def Consumed (chars : Text) (i : Nat) : Prop :=
  ∃ c ∈ chars[i]?, (c = '*' ∨ c = '_' ∨ c = '\x60') ∧ (CodeOpen chars i → c = '\x60') ∧
    Flanked chars i c

instance (chars : Text) (i : Nat) : Decidable (Consumed chars i) :=
  inferInstanceAs (Decidable (∃ c ∈ chars[i]?, _ ∧ (CodeOpen chars i → _) ∧ _))

/-- The loop acts on the character at an index instead of emitting it. -/
def Acts (chars : Text) (i : Nat) : Prop := (toggles chars (spanState chars i).kind i).isSome = true

instance (chars : Text) (i : Nat) : Decidable (Acts chars i) :=
  inferInstanceAs (Decidable (_ = true))

theorem kind_succ (chars : Text) (i : Nat) : (spanState chars (i + 1)).kind =
    match toggles chars (spanState chars i).kind i with
    | some k => Toggle.press .plain (spanState chars i).kind k
    | none => (spanState chars i).kind := by
  rw [spanState, spanStep]
  cases toggles chars (spanState chars i).kind i <;> rfl

theorem toggleKind_eq_code_iff {c : Char} : toggleKind c = some .code ↔ c = '\x60' := by
  unfold toggleKind
  split
  · next h => simp [h]
  · split
    · next h => simp [h]
    · split
      · next h => simp [h]
      · next h => simp [h]

theorem backticks_succ (chars : Text) (i : Nat) : backticks chars (i + 1) = backticks chars i +
    if chars[i]? = some '\x60' ∧ Flanked chars i '\x60' then 1 else 0 := by
  rw [backticks, List.range_succ, List.countP_append, ← backticks, List.countP_singleton]
  simp only [decide_eq_true_eq]

/-- A backtick acts wherever its neighbours let it. -/
theorem toggles_eq_code_iff {chars : Text} {kind : SpanKind} {i : Nat} :
    toggles chars kind i = some .code ↔ chars[i]? = some '\x60' ∧ Flanked chars i '\x60' := by
  rw [toggles_eq_some_iff]
  constructor
  · rintro ⟨c, hc, hkind, -, hflanked⟩
    obtain rfl := toggleKind_eq_code_iff.mp hkind
    exact ⟨hc, hflanked⟩
  · rintro ⟨hc, hflanked⟩
    exact ⟨_, hc, toggleKind_eq_code_iff.mpr rfl, fun _ => rfl, hflanked⟩

theorem kind_eq_code_iff (chars : Text) (i : Nat) :
    (spanState chars i).kind = .code ↔ CodeOpen chars i := by
  induction i with
  | zero => simp [spanState, CodeOpen, backticks]
  | succ i ih =>
    rw [kind_succ, CodeOpen, backticks_succ]
    by_cases hcode : toggles chars (spanState chars i).kind i = some .code
    · rw [if_pos (toggles_eq_code_iff.mp hcode), hcode, Nat.even_add_one, not_not]
      simp only [Toggle.press]
      by_cases hopen : (spanState chars i).kind = .code
      · rw [if_pos hopen]
        exact iff_of_false (by simp) (ih.mp hopen)
      · rw [if_neg hopen]
        exact iff_of_true rfl (not_not.mp (mt ih.mpr hopen))
    · rw [if_neg (mt toggles_eq_code_iff.mpr hcode)]
      cases htoggles : toggles chars (spanState chars i).kind i with
      | none => exact ih
      | some k =>
        -- inside code, nothing else acts
        have hk : k ≠ .code := fun h => hcode (h ▸ htoggles)
        obtain ⟨-, -, -, hopen, -⟩ := toggles_eq_some_iff.mp htoggles
        have hkind : (spanState chars i).kind ≠ .code := fun h => hk (hopen h)
        refine iff_of_false ?_ (mt ih.mpr hkind)
        simp only [Toggle.press]
        split
        · simp
        · exact hk

theorem toggleKind_isSome_iff {c : Char} :
    (toggleKind c).isSome = true ↔ c = '*' ∨ c = '_' ∨ c = '\x60' := by
  unfold toggleKind
  split
  · next h => simp [h]
  · split
    · next h => simp [h]
    · split
      · next h => simp [h]
      · next h₁ h₂ h₃ => simp [h₁, h₂, h₃]

/-- **What the loop acts on** is what the line alone says is consumed. -/
theorem acts_iff {chars : Text} {i : Nat} : Acts chars i ↔ Consumed chars i := by
  rw [Acts, Option.isSome_iff_exists]
  constructor
  · rintro ⟨k, hk⟩
    obtain ⟨c, hc, hkind, hopen, hflanked⟩ := toggles_eq_some_iff.mp hk
    refine ⟨c, hc, toggleKind_isSome_iff.mp (Option.isSome_iff_exists.mpr ⟨k, hkind⟩), ?_, hflanked⟩
    intro h
    rw [hopen ((kind_eq_code_iff chars i).mpr h)] at hkind
    exact toggleKind_eq_code_iff.mp hkind
  · rintro ⟨c, hc, htoggle, hopen, hflanked⟩
    obtain ⟨k, hk⟩ := Option.isSome_iff_exists.mp (toggleKind_isSome_iff.mpr htoggle)
    refine ⟨k, toggles_eq_some_iff.mpr ⟨c, hc, hk, ?_, hflanked⟩⟩
    intro h
    have hcode := toggleKind_eq_code_iff.mpr (hopen ((kind_eq_code_iff chars i).mp h))
    exact Option.some_inj.mp (hk.symm.trans hcode)

/-! ## What is emitted -/

/-- The characters of a line that are not consumed, each with its index. -/
def emitted (chars : Text) : List (Char × Nat) := chars.zipIdx.filter fun p => ¬Acts chars p.2

/-- The characters of a span, each with the kind of the span. -/
def Span.styled (s : Span) : List (Char × SpanKind) := s.text.map fun c => (c, s.kind)

/-- The characters the loop has read and not consumed, each with the kind it has or will have. -/
def SpanState.styled (s : SpanState) : List (Char × SpanKind) :=
  s.out.flatMap Span.styled ++ s.current.map fun c => (c, s.kind)

@[simp] theorem flush_current (s : SpanState) : s.flush.current = [] := by
  unfold SpanState.flush
  split
  · next h => exact List.isEmpty_iff.mp h
  · rfl

theorem flush_out (s : SpanState) : s.flush.out.flatMap Span.styled = s.styled := by
  unfold SpanState.flush
  split
  · next h => simp [SpanState.styled, List.isEmpty_iff.mp h]
  · simp [SpanState.styled, Span.styled]

/-- **One turn** emits the character at its index, in the kind that is on, or consumes it. -/
theorem styled_succ {chars : Text} {i : Nat} (h : i < chars.length) :
    (spanState chars (i + 1)).styled = (spanState chars i).styled ++
      if Acts chars i then [] else [(chars[i], (spanState chars i).kind)] := by
  rw [spanState, spanStep]
  cases htoggles : toggles chars (spanState chars i).kind i with
  | some k =>
    have hacts : Acts chars i := Option.isSome_iff_exists.mpr ⟨k, htoggles⟩
    rw [if_pos hacts, List.append_nil, ← flush_out (spanState chars i)]
    simp [SpanState.styled]
  | none =>
    have hacts : ¬Acts chars i := by simp [Acts, htoggles]
    rw [if_neg hacts, List.getElem?_eq_getElem h]
    simp [SpanState.styled]

theorem styled_eq {chars : Text} {i : Nat} (h : i ≤ chars.length) : (spanState chars i).styled =
    ((chars.take i).zipIdx.filter fun p => ¬Acts chars p.2).map
      fun p => (p.1, (spanState chars p.2).kind) := by
  induction i with
  | zero => rfl
  | succ i ih =>
    have hlength : (chars.take i).length = i := by
      rw [List.length_take]
      omega
    rw [styled_succ h, ih (Nat.le_of_lt h), List.take_succ_eq_append_getElem h,
      List.zipIdx_append, List.filter_append, List.map_append, hlength]
    congr 1
    by_cases hacts : Acts chars i
    · simp [hacts]
    · simp [hacts]

/-- **What the spans hold** is what is emitted, each character in the kind that was on there. -/
theorem spans_styled (chars : Text) : (spans chars).flatMap Span.styled =
    (emitted chars).map fun p => (p.1, (spanState chars p.2).kind) := by
  rw [spans, flush_out, styled_eq (Nat.le_refl _), List.take_length]
  rfl

theorem flush_ne_nil {s : SpanState} (h : ∀ span ∈ s.out, span.text ≠ []) :
    ∀ span ∈ s.flush.out, span.text ≠ [] := by
  unfold SpanState.flush
  split
  · exact h
  · next hcurrent =>
    intro span hspan
    obtain hspan | hspan := List.mem_append.mp hspan
    · exact h span hspan
    · rw [List.mem_singleton.mp hspan]
      exact mt List.isEmpty_iff.mpr hcurrent

theorem spanState_ne_nil (chars : Text) (i : Nat) :
    ∀ span ∈ (spanState chars i).out, span.text ≠ [] := by
  induction i with
  | zero =>
    intro span h
    cases h
  | succ i ih =>
    rw [spanState, spanStep]
    cases toggles chars (spanState chars i).kind i with
    | some k => exact flush_ne_nil ih
    | none => exact ih

/-- **Inline markup loses no text**: no span is empty, and together they hold the line without the
characters that are consumed. These are the ones the loop acts on, and the kind it keeps is code
where a code span is open. -/
theorem spans_text (chars : Text) :
    (∀ span ∈ spans chars, span.text ≠ []) ∧
      (spans chars).flatMap Span.text =
        (chars.zipIdx.filter fun p => ¬Consumed chars p.2).map Prod.fst ∧
      ∀ i, (Acts chars i ↔ Consumed chars i) ∧
        ((spanState chars i).kind = .code ↔ CodeOpen chars i) := by
  refine ⟨flush_ne_nil (spanState_ne_nil chars _), ?_,
    fun i => ⟨acts_iff, kind_eq_code_iff chars i⟩⟩
  have hstyled : ∀ span : Span, span.text = span.styled.map Prod.fst := by
    intro span
    rw [Span.styled, List.map_map]
    exact (List.map_id _).symm
  calc (spans chars).flatMap Span.text
      = ((spans chars).flatMap Span.styled).map Prod.fst := by
        rw [List.map_flatMap]
        exact congrArg (List.flatMap · _) (funext hstyled)
    _ = (emitted chars).map Prod.fst := by
        rw [spans_styled, List.map_map]
        rfl
    _ = (chars.zipIdx.filter fun p => ¬Consumed chars p.2).map Prod.fst := by
        simp only [emitted, acts_iff]

/-! ## Styles that close -/

/-- How often a toggle is consumed before an index. -/
def timesConsumed (chars : Text) (c : Char) (i : Nat) : Nat :=
  (List.range i).countP fun j => chars[j]? = some c ∧ Acts chars j

/-- Every character that is emitted where each toggle was consumed an even number of times is in a
plain span. -/
def ClosesProperly (chars : Text) : Prop :=
  ∀ (k : Nat) (c : Char) (i : Nat), (emitted chars)[k]? = some (c, i) →
    (∀ toggle ∈ ['*', '_', '\x60'], Even (timesConsumed chars toggle i)) →
    ((spans chars).flatMap Span.styled)[k]? = some (c, SpanKind.plain)

/-- What the toggles consumed before an index open and close, one after another. -/
def pressed (chars : Text) (i : Nat) : List SpanKind :=
  (List.range i).filterMap fun j => if Consumed chars j then chars[j]?.bind toggleKind else none

theorem pressed_succ (chars : Text) (i : Nat) : pressed chars (i + 1) =
    pressed chars i ++ (toggles chars (spanState chars i).kind i).toList := by
  rw [pressed, List.range_succ, List.filterMap_append, ← pressed]
  apply congrArg (pressed chars i ++ ·)
  cases htoggles : toggles chars (spanState chars i).kind i with
  | none =>
    have hconsumed : ¬Consumed chars i := by simp [← acts_iff, Acts, htoggles]
    simp [hconsumed]
  | some k =>
    have hconsumed : Consumed chars i := acts_iff.mp (Option.isSome_iff_exists.mpr ⟨k, htoggles⟩)
    obtain ⟨c, hc, hk, -⟩ := toggles_eq_some_iff.mp htoggles
    rw [Option.mem_def] at hc
    simp [hconsumed, hc, hk]

theorem plain_notMem_pressed (chars : Text) (i : Nat) : SpanKind.plain ∉ pressed chars i := by
  intro h
  obtain ⟨j, -, hj⟩ := List.mem_filterMap.mp h
  split at hj
  · obtain ⟨c, -, hc⟩ := Option.bind_eq_some_iff.mp hj
    unfold toggleKind at hc
    grind
  · cases hj

/-- **The kind** is what the consumed toggles leave on. -/
theorem kind_eq (chars : Text) (i : Nat) :
    (spanState chars i).kind = Toggle.after SpanKind.plain (pressed chars i) := by
  induction i with
  | zero => rfl
  | succ i ih =>
    rw [kind_succ, pressed_succ]
    cases toggles chars (spanState chars i).kind i with
    | none =>
      rw [Option.toList_none, List.append_nil]
      exact ih
    | some k =>
      rw [Option.toList_some, Toggle.after_concat, ← ih]

theorem toggleKind_inj {c d : Char} {kind : SpanKind} (hc : toggleKind c = some kind)
    (hd : toggleKind d = some kind) : c = d := by
  unfold toggleKind at hc hd
  grind

theorem timesConsumed_eq {chars : Text} {c : Char} {kind : SpanKind} (hc : toggleKind c = some kind)
    (i : Nat) : timesConsumed chars c i = (pressed chars i).count kind := by
  induction i with
  | zero => rfl
  | succ i ih =>
    rw [timesConsumed, List.range_succ, List.countP_append, ← timesConsumed, ih, pressed_succ,
      List.count_append, List.countP_singleton]
    congr 1
    cases htoggles : toggles chars (spanState chars i).kind i with
    | none =>
      have hacts : ¬Acts chars i := by simp [Acts, htoggles]
      simp [hacts]
    | some k =>
      have hacts : Acts chars i := Option.isSome_iff_exists.mpr ⟨k, htoggles⟩
      obtain ⟨d, hd, hk, -⟩ := toggles_eq_some_iff.mp htoggles
      rw [Option.mem_def] at hd
      have hiff : d = c ↔ k = kind := by
        constructor
        · rintro rfl
          exact Option.some_inj.mp (hk.symm.trans hc)
        · rintro rfl
          exact toggleKind_inj hk hc
      simp [hacts, hd, hiff, List.count_singleton]

theorem evenly_iff {chars : Text} {i : Nat} :
    (∀ toggle ∈ ['*', '_', '\x60'], Even (timesConsumed chars toggle i)) ↔
      ∀ kind, Even ((pressed chars i).count kind) := by
  constructor
  · intro h kind
    cases kind with
    | plain =>
      rw [List.count_eq_zero_of_not_mem (plain_notMem_pressed chars i)]
      exact Even.zero
    | strong =>
      rw [← timesConsumed_eq (show toggleKind '*' = some .strong from rfl) i]
      exact h '*' (by simp)
    | emphasis =>
      rw [← timesConsumed_eq (show toggleKind '_' = some .emphasis from rfl) i]
      exact h '_' (by simp)
    | code =>
      rw [← timesConsumed_eq (show toggleKind '\x60' = some .code from rfl) i]
      exact h '\x60' (by simp)
  · intro h toggle htoggle
    obtain ⟨kind, hkind⟩ : ∃ kind, toggleKind toggle = some kind :=
      Option.isSome_iff_exists.mp (toggleKind_isSome_iff.mpr (by simpa using htoggle))
    rw [timesConsumed_eq hkind]
    exact h kind

theorem mem_emitted {chars : Text} {c : Char} {i : Nat} :
    (c, i) ∈ emitted chars ↔ chars[i]? = some c ∧ ¬Consumed chars i := by
  rw [emitted, List.mem_filter, List.mem_zipIdx_iff_getElem?, decide_eq_true_eq, acts_iff]

/-- **Styles close properly** on the lines where what was evenly consumed ends in an even run of one
toggle, wherever a character is emitted. -/
theorem closesProperly_iff (chars : Text) : ClosesProperly chars ↔
    ∀ i < chars.length, ¬Consumed chars i → (∀ kind, Even ((pressed chars i).count kind)) →
      Even (Toggle.lastRun (pressed chars i)) := by
  have hplain : ∀ i,
      (spanState chars i).kind = .plain ↔ Even (Toggle.lastRun (pressed chars i)) := by
    intro i
    rw [kind_eq]
    exact Toggle.after_eq_base_iff (plain_notMem_pressed chars i)
  have hkth : ∀ {k : Nat} {c : Char} {i : Nat}, (emitted chars)[k]? = some (c, i) →
      ((spans chars).flatMap Span.styled)[k]? = some (c, (spanState chars i).kind) := by
    intro k c i hk
    rw [spans_styled, List.getElem?_map, hk]
    rfl
  constructor
  · intro hcloses i hi hconsumed heven
    obtain ⟨k, hk⟩ := List.mem_iff_getElem?.mp
      (mem_emitted.mpr ⟨List.getElem?_eq_getElem hi, hconsumed⟩)
    have h := hcloses k _ i hk (evenly_iff.mpr heven)
    rw [hkth hk, Option.some_inj] at h
    exact (hplain i).mp (congrArg Prod.snd h)
  · intro hruns k c i hk heven
    obtain ⟨hc, hconsumed⟩ := mem_emitted.mp (List.mem_of_getElem? hk)
    obtain ⟨hi, -⟩ := List.getElem?_eq_some_iff.mp hc
    rw [hkth hk, (hplain i).mpr (hruns i hi hconsumed (evenly_iff.mp heven))]

/-- An emphasis that opens inside a strong text takes its place, and the star that should close the
strong text opens another. -/
theorem not_closesProperly_overlap : ¬ClosesProperly "*a _b_ c* d".toList := by
  intro h
  have heven : ∀ toggle ∈ ['*', '_', '\x60'],
      Even (timesConsumed "*a _b_ c* d".toList toggle 9) := by
    intro toggle htoggle
    simp only [List.mem_cons, List.not_mem_nil, or_false] at htoggle
    obtain rfl | rfl | rfl := htoggle
    · decide +kernel
    · decide +kernel
    · decide +kernel
  exact absurd (h 5 ' ' 9 (by decide +kernel) heven) (by decide +kernel)

end Smolweb.Scroll
