import Smolweb.Dict.Wire

/-!
# Quoted parameters

A parameter is written as an atom or between double quotes, with backslashes in front of what a
quoted string may not hold as it is (`Param`). A parameter list is parameters with white space
between them (`Params`), and `split_params` reads back what was written (`splitParams_eq`).
-/

namespace Smolweb.Dict

/-! ## Grammar -/

/-- What stands between double quotes, and what it stands for. -/
inductive Quoted : Text → Text → Prop where
  | nil : Quoted [] []
  | plain {c : Char} {w v : Text} (hq : c ≠ '"') (hb : c ≠ '\\') (h : Quoted w v) :
    Quoted (c :: w) (c :: v)
  | escaped {c : Char} {w v : Text} (h : Quoted w v) : Quoted ('\\' :: c :: w) (c :: v)

/-- A parameter as it is written, and its value. -/
inductive Param : Text → Text → Prop where
  | atom {w : Text} (hne : w ≠ []) (h : ∀ c ∈ w, c ≠ '"' ∧ Text.isWhitespace c = false) : Param w w
  | quoted {w v : Text} (h : Quoted w v) : Param ('"' :: w ++ ['"']) v

def Blank (t : Text) : Prop := ∀ c ∈ t, Text.isWhitespace c = true

/-- A line of parameters, and their values. -/
inductive Params : Text → List Text → Prop where
  | blank {t : Text} (h : Blank t) : Params t []
  | last {space w v : Text} (hs : Blank space) (hw : Param w v) : Params (space ++ w) [v]
  | cons {space w v rest : Text} {c : Char} {vs : List Text} (hs : Blank space) (hw : Param w v)
    (hc : Text.isWhitespace c = true) (h : Params (c :: rest) vs) :
    Params (space ++ (w ++ c :: rest)) (v :: vs)

theorem Blank.cons {c : Char} (hc : Text.isWhitespace c = true) {t : Text} (h : Blank t) :
    Blank (c :: t) :=
  List.forall_mem_cons.mpr ⟨hc, h⟩

/-- White space before a list does not change it. -/
theorem Params.space {t : Text} {vs : List Text} (h : Params t vs) {c : Char}
    (hc : Text.isWhitespace c = true) : Params (c :: t) vs := by
  cases h with
  | blank h => exact .blank (h.cons hc)
  | last hs hw => exact .last (hs.cons hc) hw
  | cons hs hw hd h => exact .cons (hs.cons hc) hw hd h

/-! ## Reading -/

namespace SplitState

/-- Between two parameters. -/
def between (params : List Text) : SplitState := ⟨params, [], false, false, false⟩

/-- A parameter has been read whole. -/
def Holds (s : SplitState) (params : List Text) (v : Text) : Prop :=
  s.params = params ∧ s.current = v ∧ s.inQuotes = false ∧ s.escaped = false ∧
    (s.started || !v.isEmpty) = true

theorem Holds.flush {s : SplitState} {params : List Text} {v : Text} (h : s.Holds params v) :
    s.flush = between (params ++ [v]) := by
  obtain ⟨rfl, rfl, hq, he, hs⟩ := h
  unfold SplitState.flush between
  rw [if_pos hs, hq, he]

theorem Holds.next {s : SplitState} {params : List Text} {v : Text} (h : s.Holds params v)
    {c : Char} (hc : Text.isWhitespace c = true) : s.next c = between (params ++ [v]) := by
  have hflush := h.flush
  obtain ⟨-, -, hq, he, -⟩ := h
  have hquote : c ≠ '"' := by
    rintro rfl
    exact absurd hc (by decide)
  unfold SplitState.next
  rw [if_neg (by simp [he]), if_neg (by simp [hq]), if_neg hquote, if_pos ⟨hc, by simp [hq]⟩,
    hflush]

theorem between_next (params : List Text) {c : Char} (hc : Text.isWhitespace c = true) :
    (between params).next c = between params := by
  have hquote : c ≠ '"' := by
    rintro rfl
    exact absurd hc (by decide)
  unfold SplitState.next
  rw [if_neg (by simp [between]), if_neg (by simp [between]), if_neg hquote,
    if_pos ⟨hc, by simp [between]⟩]
  rfl

theorem foldl_blank (params : List Text) {t : Text} (h : Blank t) :
    t.foldl SplitState.next (between params) = between params := by
  induction t with
  | nil => rfl
  | cons c t ih =>
    rw [List.foldl_cons, between_next params (h c List.mem_cons_self)]
    exact ih fun d hd => h d (List.mem_cons_of_mem _ hd)

theorem foldl_quoted {w v : Text} (h : Quoted w v) (params : List Text) (current : Text) :
    w.foldl SplitState.next ⟨params, current, true, false, true⟩ =
      ⟨params, current ++ v, true, false, true⟩ := by
  induction h generalizing current with
  | nil => rw [List.append_nil]; rfl
  | @plain c w v hq hb h ih =>
    have hnext : SplitState.next ⟨params, current, true, false, true⟩ c =
        ⟨params, current ++ [c], true, false, true⟩ := by
      simp [SplitState.next, hq, hb]
    rw [List.foldl_cons, hnext, ih, List.append_assoc, List.singleton_append]
  | @escaped c w v h ih =>
    have hnext : SplitState.next (SplitState.next ⟨params, current, true, false, true⟩ '\\') c =
        ⟨params, current ++ [c], true, false, true⟩ := by
      simp [SplitState.next]
    rw [List.foldl_cons, List.foldl_cons, hnext, ih, List.append_assoc, List.singleton_append]

theorem foldl_atom (params : List Text) {w : Text}
    (h : ∀ c ∈ w, c ≠ '"' ∧ Text.isWhitespace c = false) (current : Text) :
    w.foldl SplitState.next ⟨params, current, false, false, false⟩ =
      ⟨params, current ++ w, false, false, false⟩ := by
  induction w generalizing current with
  | nil => rw [List.append_nil]; rfl
  | cons c w ih =>
    obtain ⟨hq, hw⟩ := h c List.mem_cons_self
    have hnext : SplitState.next ⟨params, current, false, false, false⟩ c =
        ⟨params, current ++ [c], false, false, false⟩ := by
      simp [SplitState.next, hq, hw]
    rw [List.foldl_cons, hnext, ih fun d hd => h d (List.mem_cons_of_mem _ hd),
      List.append_assoc, List.singleton_append]

theorem foldl_param {w v : Text} (h : Param w v) (params : List Text) :
    (w.foldl SplitState.next (between params)).Holds params v := by
  cases h with
  | atom hne h =>
    rw [between, foldl_atom params h]
    exact ⟨rfl, rfl, rfl, rfl, by simpa using hne⟩
  | quoted h =>
    rename_i w
    have hopen : (between params).next '"' = ⟨params, [], true, false, true⟩ := rfl
    rw [List.cons_append, List.foldl_cons, hopen, List.foldl_append, foldl_quoted h]
    exact ⟨rfl, rfl, rfl, rfl, rfl⟩

theorem foldl_params {t : Text} {vs : List Text} (h : Params t vs) (params : List Text) :
    (t.foldl SplitState.next (between params)).flush = between (params ++ vs) := by
  induction h generalizing params with
  | blank h =>
    rw [foldl_blank params h, List.append_nil]
    rfl
  | last hs hw =>
    rw [List.foldl_append, foldl_blank params hs]
    exact (foldl_param hw params).flush
  | @cons space w v rest c vs hs hw hc h ih =>
    have hparam := (foldl_param hw params).next hc
    have hrest := ih (params ++ [v])
    rw [List.foldl_cons, between_next _ hc] at hrest
    rw [List.foldl_append, foldl_blank params hs, List.foldl_append, List.foldl_cons, hparam, hrest,
      List.append_assoc, List.singleton_append]

end SplitState

/-- **What is written is read back**: the parameters of a list are the values written. -/
theorem splitParams_eq {t : Text} {vs : List Text} (h : Params t vs) : splitParams t = vs := by
  have := SplitState.foldl_params h []
  unfold splitParams
  rw [show (⟨[], [], false, false, false⟩ : SplitState) = .between [] from rfl, this]
  rfl

/-- White space before a list is no part of it. -/
theorem splitParams_trimStart {t : Text} {vs : List Text} (h : Params t vs) :
    splitParams (Text.trimStart t) = vs := by
  have hsplit : t.takeWhile Text.isWhitespace ++ Text.trimStart t = t :=
    List.takeWhile_append_dropWhile
  have hblank : Blank (t.takeWhile Text.isWhitespace) := fun c hc => List.mem_takeWhile_imp hc
  have := splitParams_eq h
  unfold splitParams at this ⊢
  rw [← hsplit, List.foldl_append] at this
  rwa [show (⟨[], [], false, false, false⟩ : SplitState) = .between [] from rfl,
    SplitState.foldl_blank [] hblank] at this

end Smolweb.Dict
