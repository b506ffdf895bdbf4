import Mathlib.Data.List.Basic

/-!
# Two parties over an unreliable datagram network

Every datagram ever sent stays in the history of its direction, and a step may take any entry of
that history: an entry never taken is lost, one taken twice is duplicated, and nothing fixes the
order in which entries are taken. The invariant rule is `Net.sat_run`, and `Net.run_induction` where
the invariant is about both parties at once; `Net.Leads` says what some schedule comes to.
-/

namespace Smolweb

/-- A party: how it moves on its own or on a datagram that arrives, and what it then sends. `κ` is
what the outside decides in that move, such as the time or the outcome of a send. -/
def Party (κ σ ι ω : Type) : Type := κ → Option ι → σ → σ × List ω

/-- The states of two parties and all datagrams sent so far. -/
structure Net (σ τ α β : Type) where
  left : σ
  right : τ
  toLeft : List α
  toRight : List β

/-- Whose move it is, and which entry of the history arrives, if any does. -/
inductive Move (κ μ : Type) where
  | left (choice : κ) (arrives : Option Nat)
  | right (choice : μ) (arrives : Option Nat)

namespace Net

variable {κ μ σ τ α β : Type}

def step (p : Party κ σ α β) (q : Party μ τ β α) (n : Net σ τ α β) : Move κ μ → Net σ τ α β
  | .left choice arrives =>
    let r := p choice (arrives.bind (n.toLeft[·]?)) n.left
    { n with left := r.1, toRight := n.toRight ++ r.2 }
  | .right choice arrives =>
    let r := q choice (arrives.bind (n.toRight[·]?)) n.right
    { n with right := r.1, toLeft := n.toLeft ++ r.2 }

def run (p : Party κ σ α β) (q : Party μ τ β α) (n : Net σ τ α β) (moves : List (Move κ μ)) :
    Net σ τ α β :=
  moves.foldl (step p q) n

/-- A property of each party's state and of each datagram. -/
structure Sat (P : σ → Prop) (Q : τ → Prop) (A : α → Prop) (B : β → Prop) (n : Net σ τ α β) :
    Prop where
  left : P n.left
  right : Q n.right
  toLeft : ∀ d ∈ n.toLeft, A d
  toRight : ∀ d ∈ n.toRight, B d

end Net

/-- A party keeps `P` and sends only what satisfies `B`, as long as what it takes satisfies `A`. -/
def Party.Keeps {κ σ ι ω : Type} (p : Party κ σ ι ω) (P : σ → Prop) (A : ι → Prop)
    (B : ω → Prop) : Prop :=
  ∀ choice incoming s, P s → (∀ d, incoming = some d → A d) →
    P (p choice incoming s).1 ∧ ∀ d ∈ (p choice incoming s).2, B d

namespace Net

variable {κ μ σ τ α β : Type} {p : Party κ σ α β} {q : Party μ τ β α}
  {P : σ → Prop} {Q : τ → Prop} {A : α → Prop} {B : β → Prop}

theorem of_arrives {history : List α} (h : ∀ d ∈ history, A d) {arrives : Option Nat} {d : α}
    (hd : arrives.bind (history[·]?) = some d) : A d := by
  obtain ⟨i, -, hi⟩ := Option.bind_eq_some_iff.mp hd
  exact h d (List.mem_of_getElem? hi)

theorem sat_step (hp : p.Keeps P A B) (hq : q.Keeps Q B A) {n : Net σ τ α β}
    (h : n.Sat P Q A B) (m : Move κ μ) : (n.step p q m).Sat P Q A B := by
  cases m with
  | left choice arrives =>
    obtain ⟨hl, hsent⟩ := hp choice _ n.left h.left fun d => of_arrives h.toLeft
    refine ⟨hl, h.right, h.toLeft, fun d hd => ?_⟩
    exact (List.mem_append.mp hd).elim (h.toRight d) (hsent d)
  | right choice arrives =>
    obtain ⟨hr, hsent⟩ := hq choice _ n.right h.right fun d => of_arrives h.toRight
    refine ⟨h.left, hr, fun d hd => ?_, h.toRight⟩
    exact (List.mem_append.mp hd).elim (h.toLeft d) (hsent d)

/-- **The invariant rule**: what both parties keep holds in every state that any schedule of
moves, losses, duplications and reorderings reaches. -/
theorem sat_run (hp : p.Keeps P A B) (hq : q.Keeps Q B A) {n : Net σ τ α β}
    (h : n.Sat P Q A B) (moves : List (Move κ μ)) : (n.run p q moves).Sat P Q A B := by
  induction moves generalizing n with
  | nil => exact h
  | cons m moves ih => exact ih (sat_step hp hq h m)

/-- What every move keeps holds after any moves. -/
theorem run_induction {I : Net σ τ α β → Prop} (hstep : ∀ n m, I n → I (n.step p q m))
    {n : Net σ τ α β} (h : I n) (moves : List (Move κ μ)) : I (n.run p q moves) := by
  induction moves generalizing n with
  | nil => exact h
  | cons m moves ih => exact ih (hstep n m h)

/-! ## What a schedule comes to -/

/-- Of all that was sent nothing will arrive any more. -/
def lost (n : Net σ τ α β) : Net σ τ α β := { n with toLeft := [], toRight := [] }

/-- Some schedule leads from one state to the other. -/
def Leads (p : Party κ σ α β) (q : Party μ τ β α) (n n' : Net σ τ α β) : Prop :=
  ∃ moves, n.run p q moves = n'

theorem Leads.trans {n n' n'' : Net σ τ α β} (h : Leads p q n n') (h' : Leads p q n' n'') :
    Leads p q n n'' := by
  obtain ⟨moves, rfl⟩ := h
  obtain ⟨more, rfl⟩ := h'
  exact ⟨moves ++ more, List.foldl_append⟩

theorem Leads.step (n : Net σ τ α β) (m : Move κ μ) : Leads p q n (n.step p q m) := ⟨[m], rfl⟩

end Net

end Smolweb
