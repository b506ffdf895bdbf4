import Mathlib.Data.List.Basic

/-!
# Block-wise transfers

A source is asked for what it holds from an offset on and answers with a block, an empty one at the
end. A loop that collects the blocks may take one of them for the last (`upTo`); what it then
collects is all there is iff nothing of worth follows that block (`flatMap_upTo_eq_iff`). Such loops
have no bound of their own: `Returns` says that a loop with fuel ends with a result.
-/

namespace Smolweb

/-! ## Loops with fuel -/

/-- With enough fuel the loop ends with this result. -/
def Returns {α : Type} (loop : Nat → Option α) (a : α) : Prop :=
  ∃ n, ∀ fuel, n ≤ fuel → loop fuel = some a

namespace Returns

variable {α : Type} {loop loop' : Nat → Option α} {a b : α}

theorem unique (ha : Returns loop a) (hb : Returns loop b) : a = b := by
  obtain ⟨n, hn⟩ := ha
  obtain ⟨m, hm⟩ := hb
  have h := (hn (n + m) (Nat.le_add_right n m)).symm.trans (hm (n + m) (Nat.le_add_left m n))
  exact Option.some.inj h

/-- A loop that ends in its first turn. -/
theorem of_turn (h : ∀ fuel, loop (fuel + 1) = some a) : Returns loop a := by
  refine ⟨1, fun fuel hfuel => ?_⟩
  obtain ⟨k, rfl⟩ := Nat.exists_eq_add_of_le' hfuel
  exact h k

/-- A loop that goes on as another one after its first turn. -/
theorem of_later (h : ∀ fuel, loop (fuel + 1) = loop' fuel) (hl : Returns loop' a) :
    Returns loop a := by
  obtain ⟨n, hn⟩ := hl
  refine ⟨n + 1, fun fuel hfuel => ?_⟩
  obtain ⟨k, rfl⟩ := Nat.exists_eq_add_of_le' hfuel
  rw [show k + (n + 1) = k + n + 1 from rfl, h]
  exact hn (k + n) (Nat.le_add_left n k)

end Returns

/-! ## Sources -/

/-- What answers a request for the data from an offset on. The request changes its state. -/
abbrev Source (σ ε α : Type) : Type := Nat → σ → Except ε (List α) × σ

/-- Asked at consecutive offsets, the source gives these blocks and then an empty one. -/
inductive Source.Serves {σ ε α : Type} (ask : Source σ ε α) : Nat → σ → List (List α) → Prop
  | done {offset : Nat} {s s' : σ} (h : ask offset s = (.ok [], s')) : Serves ask offset s []
  | block {offset : Nat} {s s' : σ} {b : List α} {bs : List (List α)} (hb : b ≠ [])
      (h : ask offset s = (.ok b, s')) (later : Serves ask (offset + b.length) s' bs) :
      Serves ask offset s (b :: bs)

namespace Source

variable {σ ε α : Type} {ask : Source σ ε α}

theorem Serves.ne_nil {offset : Nat} {s : σ} {blocks : List (List α)}
    (h : Serves ask offset s blocks) : ∀ b ∈ blocks, b ≠ [] := by
  induction h with
  | done h => simp
  | block hb h later ih =>
    intro b hmem
    rcases List.mem_cons.mp hmem with rfl | hmem
    · exact hb
    · exact ih b hmem

/-- The states that requests for blocks lead to. -/
inductive After (ask : Source σ ε α) (s : σ) : σ → Prop
  | refl : After ask s s
  | asked {s' : σ} (offset : Nat) (h : After ask s s') : After ask s (ask offset s').2

/-- However it was asked before, the source answers at any offset within `whole` with a part of it
that begins there, of one element at least and `cap` at most, and at the end with an empty block. -/
structure Holds (ask : Source σ ε α) (s : σ) (cap : Nat) (whole : List α) : Prop where
  part : ∀ s', After ask s s' → ∀ offset < whole.length, ∃ b, (ask offset s').1 = .ok b ∧
    b <+: whole.drop offset ∧ 0 < b.length ∧ b.length ≤ cap
  done : ∀ s', After ask s s' → (ask whole.length s').1 = .ok []

/-- **A source that holds something serves it**, in blocks of its own choice. -/
theorem Holds.serves {s : σ} {cap : Nat} {whole : List α} (h : Holds ask s cap whole) :
    ∃ blocks, Serves ask 0 s blocks ∧ blocks.flatten = whole ∧ ∀ b ∈ blocks, b.length ≤ cap := by
  suffices main : ∀ n offset s', whole.length ≤ offset + n → offset ≤ whole.length →
      After ask s s' → ∃ blocks, Serves ask offset s' blocks ∧
        blocks.flatten = whole.drop offset ∧ ∀ b ∈ blocks, b.length ≤ cap by
    obtain ⟨blocks, hserves, hflat, hcap⟩ :=
      main whole.length 0 s (Nat.le_add_left _ _) (Nat.zero_le _) .refl
    exact ⟨blocks, hserves, by rw [hflat, List.drop_zero], hcap⟩
  have atEnd : ∀ s', After ask s s' → ∃ blocks, Serves ask whole.length s' blocks ∧
      blocks.flatten = whole.drop whole.length ∧ ∀ b ∈ blocks, b.length ≤ cap := by
    intro s' hs
    refine ⟨[], .done (Prod.ext (h.done s' hs) rfl), ?_, by simp⟩
    rw [List.drop_length, List.flatten_nil]
  intro n
  -- on what is left from the offset on, which every block makes less
  induction n with
  | zero =>
    intro offset s' hn hle hs
    obtain rfl : offset = whole.length := by omega
    exact atEnd s' hs
  | succ n ih =>
    intro offset s' hn hle hs
    rcases Nat.lt_or_eq_of_le hle with hlt | rfl
    · obtain ⟨b, hb, ⟨rest, hrest⟩, hpos, hcap⟩ := h.part s' hs offset hlt
      have hlen : b.length + rest.length = whole.length - offset := by
        rw [← List.length_append, hrest, List.length_drop]
      obtain ⟨blocks, hserves, hflat, hcaps⟩ :=
        ih (offset + b.length) (ask offset s').2 (by omega) (by omega) (.asked offset hs)
      refine ⟨b :: blocks, .block (List.ne_nil_of_length_pos hpos) (Prod.ext hb rfl) hserves,
        ?_, ?_⟩
      · rw [List.flatten_cons, hflat, ← List.drop_drop, ← hrest, List.drop_left]
      · exact List.forall_mem_cons.mpr ⟨hcap, hcaps⟩
    · exact atEnd s' hs

end Source

/-! ## Stopping early -/

section

variable {β γ : Type} (stop : β → Prop) [DecidablePred stop]

/-- The blocks up to the first that looks like the last, that one included. -/
def upTo : List β → List β
  | [] => []
  | b :: bs => if stop b then [b] else b :: upTo bs

variable {stop}

theorem upTo_cons_of_stop {b : β} (h : stop b) (bs : List β) : upTo stop (b :: bs) = [b] :=
  if_pos h

theorem upTo_cons_of_not {b : β} (h : ¬stop b) (bs : List β) :
    upTo stop (b :: bs) = b :: upTo stop bs :=
  if_neg h

/-- **What stopping early leaves out**: nothing, iff a block that looks like the last is followed
only by blocks that are worth nothing. -/
theorem flatMap_upTo_eq_iff {f : β → List γ} {bs : List β} :
    (upTo stop bs).flatMap f = bs.flatMap f ↔ bs.Pairwise fun b c => stop b → f c = [] := by
  induction bs with
  | nil => simp [upTo]
  | cons b bs ih =>
    rw [List.pairwise_cons]
    by_cases h : stop b
    · rw [upTo_cons_of_stop h, List.flatMap_singleton, List.flatMap_cons, List.self_eq_append_right,
        List.flatMap_eq_nil_iff]
      constructor
      · intro hnil
        refine ⟨fun c hc _ => hnil c hc, ?_⟩
        exact List.pairwise_of_forall_mem_list fun _ _ c hc _ => hnil c hc
      · intro hpair c hc
        exact hpair.1 c hc h
    · rw [upTo_cons_of_not h, List.flatMap_cons, List.flatMap_cons, List.append_cancel_left_eq, ih]
      exact ⟨fun hbs => ⟨fun c _ hb => absurd hb h, hbs⟩, And.right⟩

end

/-- Where every block is worth something, none but the last may look like it. -/
theorem pairwise_stop_iff {β γ : Type} {stop : β → Prop} {f : β → List γ} {bs : List β}
    (hf : ∀ b ∈ bs, f b ≠ []) :
    (bs.Pairwise fun b c => stop b → f c = []) ↔ ∀ b ∈ bs.dropLast, ¬stop b := by
  induction bs with
  | nil => simp
  | cons b bs ih =>
    have hbs : ∀ c ∈ bs, f c ≠ [] := fun c hc => hf c (List.mem_cons_of_mem b hc)
    rw [List.pairwise_cons, ih hbs]
    cases bs with
    | nil => simp
    | cons c cs =>
      rw [List.dropLast_cons_cons, List.forall_mem_cons (l := (c :: cs).dropLast)]
      refine and_congr ?_ Iff.rfl
      constructor
      · intro hall hb
        exact hbs c List.mem_cons_self (hall c List.mem_cons_self hb)
      · intro hb d _ hstop
        exact absurd hstop hb

end Smolweb
