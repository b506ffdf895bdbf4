import Mathlib.Data.List.Basic
import Mathlib.Data.List.Induction

/-!
# Concurrent programs over shared state

A program is a tree of atomic operations (`Prog`); a pool of them runs in any interleaving
(`Pool.run`). `Safe` is a rely-guarantee condition on one program, stable under what the others
may do; `Pool.sound_run` concludes from it for the whole pool.
-/

namespace Smolweb

/-- A program: it ends, or performs an atomic operation and goes on with its result. -/
inductive Prog {Op : Type} (Res : Op → Type) (α : Type) where
  | ret (a : α)
  | call (op : Op) (next : Res op → Prog Res α)

/-- What the operations do to the state; `none` is a panic that leaves it alone. `ι` is what the
outside decides in an operation. -/
def Semantics {Op : Type} (Res : Op → Type) (ι σ : Type) : Type :=
  (op : Op) → ι → σ → Option (Res op × σ)

variable {Op : Type} {Res : Op → Type} {ι σ α : Type}

/-- The program alone on the state, its `n`-th operation with the input `inputs n`. -/
def Prog.run (exec : Semantics Res ι σ) (inputs : Nat → ι) : Prog Res α → σ → Option (α × σ)
  | .ret a, s => some (a, s)
  | .call op next, s =>
    match exec op (inputs 0) s with
    | none => none
    | some (r, s') => (next r).run exec (fun n => inputs (n + 1)) s'

theorem Prog.run_ret_eq_some {exec : Semantics Res ι σ} {inputs : Nat → ι} {a b : α} {s t : σ} :
    (Prog.ret a : Prog Res α).run exec inputs s = some (b, t) ↔ a = b ∧ s = t := by
  simp [run]

theorem Prog.run_call_eq_some {exec : Semantics Res ι σ} {inputs : Nat → ι} {op : Op}
    {next : Res op → Prog Res α} {s t : σ} {a : α} :
    (Prog.call op next).run exec inputs s = some (a, t) ↔
      ∃ r s', exec op (inputs 0) s = some (r, s') ∧
        (next r).run exec (fun n => inputs (n + 1)) s' = some (a, t) := by
  rw [run]
  cases exec op (inputs 0) s with
  | none => simp
  | some r =>
    constructor
    · exact fun h => ⟨r.1, r.2, rfl, h⟩
    · rintro ⟨r', s', hr, h⟩
      cases hr
      exact h

/-- The program with its result mapped. -/
def Prog.map {β : Type} (f : α → β) : Prog Res α → Prog Res β
  | .ret a => .ret (f a)
  | .call op next => .call op fun r => (next r).map f

theorem Prog.run_map {β : Type} (f : α → β) (inputs : Nat → ι) (p : Prog Res α) (s : σ)
    (exec : Semantics Res ι σ) :
    (p.map f).run exec inputs s = (p.run exec inputs s).map fun r => (f r.1, r.2) := by
  induction p generalizing inputs s with
  | ret a => rfl
  | call op next ih =>
    simp only [map, run]
    cases exec op (inputs 0) s with
    | none => rfl
    | some r => exact ih r.1 _ _

/-- Whatever its operations return, the program ends with a result in `P`. -/
inductive Prog.Ends (P : α → Prop) : Prog Res α → Prop where
  | ret {a : α} : P a → Ends P (.ret a)
  | call {op : Op} {next : Res op → Prog Res α} : (∀ r, Ends P (next r)) → Ends P (.call op next)

theorem Prog.Ends.of_run {P : α → Prop} {exec : Semantics Res ι σ} {inputs : Nat → ι}
    {p : Prog Res α} (h : p.Ends P) {s t : σ} {a : α} (hrun : p.run exec inputs s = some (a, t)) :
    P a := by
  induction h generalizing inputs s with
  | ret hp =>
    obtain ⟨rfl, -⟩ := run_ret_eq_some.mp hrun
    exact hp
  | call _ ih =>
    obtain ⟨r, s', -, hnext⟩ := run_call_eq_some.mp hrun
    exact ih r hnext

/-- A shared state and the threads on it; a thread that panicked is gone. -/
structure Pool {Op : Type} (Res : Op → Type) (σ α : Type) where
  state : σ
  threads : List (Option (Prog Res α))

namespace Pool

/-- The operation a thread performs next. -/
def next? (p : Pool Res σ α) (i : Nat) : Option ((op : Op) × (Res op → Prog Res α)) :=
  match p.threads[i]? with
  | some (some (.call op next)) => some ⟨op, next⟩
  | _ => none

/-- The scheduler picks a thread, which performs its next operation, if it has one. -/
def step (exec : Semantics Res ι σ) (p : Pool Res σ α) (turn : Nat × ι) : Pool Res σ α :=
  match p.next? turn.1 with
  | none => p
  | some ⟨op, next⟩ =>
    match exec op turn.2 p.state with
    | none => { p with threads := p.threads.set turn.1 none }
    | some (r, s) => { state := s, threads := p.threads.set turn.1 (some (next r)) }

def run (exec : Semantics Res ι σ) (p : Pool Res σ α) (schedule : List (Nat × ι)) : Pool Res σ α :=
  schedule.foldl (step exec) p

theorem run_append (exec : Semantics Res ι σ) (p : Pool Res σ α) (as bs : List (Nat × ι)) :
    p.run exec (as ++ bs) = (p.run exec as).run exec bs :=
  List.foldl_append

theorem state_step {exec : Semantics Res ι σ} {p : Pool Res σ α} {turn : Nat × ι} {op : Op}
    {next : Res op → Prog Res α} {r : Res op} {s : σ} (hn : p.next? turn.1 = some ⟨op, next⟩)
    (he : exec op turn.2 p.state = some (r, s)) : (p.step exec turn).state = s := by
  simp only [step, hn, he]

/-- A condition on an operation, its input and the state before it, at every step of a run. -/
def Meets (exec : Semantics Res ι σ) (cond : Op → ι → σ → Prop) :
    Pool Res σ α → List (Nat × ι) → Prop
  | _, [] => True
  | p, turn :: turns =>
    (∀ op next, p.next? turn.1 = some ⟨op, next⟩ → cond op turn.2 p.state) ∧
      (p.step exec turn).Meets exec cond turns

end Pool

/-! ## One thread of a run -/

/-- The program after its operations were answered, one for each input. -/
def Prog.resume (answer : (op : Op) → ι → Res op) : Prog Res α → List ι → Prog Res α
  | p, [] => p
  | .ret a, _ :: _ => .ret a
  | .call op next, i :: inputs => (next (answer op i)).resume answer inputs

namespace Prog

variable {answer : (op : Op) → ι → Res op}

@[simp] theorem resume_nil (p : Prog Res α) : p.resume answer [] = p := by cases p <;> rfl

@[simp] theorem resume_ret (a : α) (inputs : List ι) :
    (ret a : Prog Res α).resume answer inputs = ret a := by
  cases inputs <;> rfl

@[simp] theorem resume_call (op : Op) (next : Res op → Prog Res α) (i : ι) (inputs : List ι) :
    (call op next).resume answer (i :: inputs) = (next (answer op i)).resume answer inputs :=
  rfl

theorem resume_append (p : Prog Res α) (as bs : List ι) :
    p.resume answer (as ++ bs) = (p.resume answer as).resume answer bs := by
  induction as generalizing p with
  | nil => rw [List.nil_append, resume_nil]
  | cons a as ih =>
    cases p with
    | ret b => simp
    | call op next => exact ih _

theorem resume_map {β : Type} (f : α → β) (p : Prog Res α) (inputs : List ι) :
    (p.map f).resume answer inputs = (p.resume answer inputs).map f := by
  induction inputs generalizing p with
  | nil => rw [resume_nil, resume_nil]
  | cons i inputs ih =>
    cases p with
    | ret a => rfl
    | call op next => exact ih _

theorem map_eq_call {β : Type} {f : α → β} {p : Prog Res α} {op : Op}
    {next : Res op → Prog Res β} (h : p.map f = .call op next) :
    ∃ next', p = .call op next' ∧ next = fun r => (next' r).map f := by
  cases p with
  | ret a => cases h
  | call op' next' =>
    cases h
    exact ⟨next', rfl, rfl⟩

end Prog

/-- The inputs of one thread's turns. -/
def turnsOf (i : Nat) (schedule : List (Nat × ι)) : List ι :=
  schedule.filterMap fun turn => if turn.1 = i then some turn.2 else none

/-- The schedule up to a thread's first turn. -/
def untilFirst (i : Nat) (schedule : List (Nat × ι)) : List (Nat × ι) :=
  schedule.takeWhile (·.1 ≠ i)

section

variable {i : Nat}

@[simp] theorem turnsOf_nil : turnsOf i ([] : List (Nat × ι)) = [] := rfl

theorem turnsOf_append (as bs : List (Nat × ι)) :
    turnsOf i (as ++ bs) = turnsOf i as ++ turnsOf i bs :=
  List.filterMap_append

theorem turnsOf_cons_self (input : ι) (schedule : List (Nat × ι)) :
    turnsOf i ((i, input) :: schedule) = input :: turnsOf i schedule := by
  simp [turnsOf]

theorem turnsOf_cons_of_ne {turn : Nat × ι} (h : turn.1 ≠ i) (schedule : List (Nat × ι)) :
    turnsOf i (turn :: schedule) = turnsOf i schedule := by
  simp [turnsOf, h]

theorem turnsOf_eq_nil_iff {schedule : List (Nat × ι)} :
    turnsOf i schedule = [] ↔ ∀ turn ∈ schedule, turn.1 ≠ i := by
  simp [turnsOf, List.filterMap_eq_nil_iff]

theorem untilFirst_initial (schedule : List (Nat × ι)) : untilFirst i schedule <+: schedule :=
  List.takeWhile_prefix _

/-- Nothing moves the first turn once it is taken. -/
theorem untilFirst_append {as : List (Nat × ι)} (h : turnsOf i as ≠ []) (bs : List (Nat × ι)) :
    untilFirst i (as ++ bs) = untilFirst i as := by
  induction as with
  | nil => exact absurd rfl h
  | cons turn as ih =>
    by_cases hturn : turn.1 = i
    · simp [untilFirst, hturn]
    · rw [turnsOf_cons_of_ne hturn] at h
      have hcons (l : List (Nat × ι)) : untilFirst i (turn :: l) = turn :: untilFirst i l :=
        List.takeWhile_cons_of_pos (decide_eq_true hturn)
      rw [List.cons_append, hcons, hcons, ih h]

theorem untilFirst_append_of_nil {as : List (Nat × ι)} (h : turnsOf i as = [])
    (bs : List (Nat × ι)) : untilFirst i (as ++ bs) = as ++ untilFirst i bs :=
  List.takeWhile_append_of_pos fun turn hturn =>
    decide_eq_true (turnsOf_eq_nil_iff.mp h turn hturn)

end

namespace Pool

theorem next?_eq_some_iff {p : Pool Res σ α} {i : Nat} {op : Op} {next : Res op → Prog Res α} :
    p.next? i = some ⟨op, next⟩ ↔ p.threads[i]? = some (some (.call op next)) := by
  unfold next?
  split
  · next hi =>
    rw [hi]
    constructor
    · intro h
      cases h
      rfl
    · intro h
      cases h
      rfl
  · next hi =>
    exact ⟨fun h => absurd h (by simp), fun h => absurd h (hi _ _)⟩

theorem length_threads_run {exec : Semantics Res ι σ} (p : Pool Res σ α)
    (schedule : List (Nat × ι)) : (p.run exec schedule).threads.length = p.threads.length := by
  induction schedule generalizing p with
  | nil => rfl
  | cons turn turns ih =>
    rw [run, List.foldl_cons]
    refine (ih _).trans ?_
    unfold step
    split
    · rfl
    · split <;> exact List.length_set

theorem threads_step_of_ne {exec : Semantics Res ι σ} {p : Pool Res σ α} {i : Nat}
    {turn : Nat × ι} (h : turn.1 ≠ i) : (p.step exec turn).threads[i]? = p.threads[i]? := by
  unfold step
  split
  · rfl
  · split <;> exact List.getElem?_set_ne h

theorem step_of_next?_none {exec : Semantics Res ι σ} {p : Pool Res σ α} {turn : Nat × ι}
    (h : p.next? turn.1 = none) : p.step exec turn = p := by
  simp only [step, h]

theorem threads_step_self {exec : Semantics Res ι σ} {p : Pool Res σ α} {turn : Nat × ι} {op : Op}
    {next : Res op → Prog Res α} {r : Res op} {s : σ}
    (hn : p.threads[turn.1]? = some (some (.call op next)))
    (he : exec op turn.2 p.state = some (r, s)) :
    (p.step exec turn).threads[turn.1]? = some (some (next r)) := by
  obtain ⟨hlt, -⟩ := List.getElem?_eq_some_iff.mp hn
  simp only [step, next?_eq_some_iff.mpr hn, he]
  exact List.getElem?_set_self hlt

/-- **A thread is what its own turns have made of it**, if the answers are those that its operations
are given in the run. -/
theorem thread_run {exec : Semantics Res ι σ} {p : Pool Res σ α} {i : Nat} {t : Prog Res α}
    (ht : p.threads[i]? = some (some t)) {answer : (op : Op) → ι → Res op}
    (schedule : List (Nat × ι))
    (hanswer : ∀ before input after, schedule = before ++ (i, input) :: after →
      ∀ op next, t.resume answer (turnsOf i before) = .call op next →
        ∃ s, exec op input (p.run exec before).state = some (answer op input, s)) :
    (p.run exec schedule).threads[i]? = some (some (t.resume answer (turnsOf i schedule))) := by
  induction schedule using List.reverseRecOn with
  | nil =>
    rw [turnsOf_nil, Prog.resume_nil]
    exact ht
  | append_singleton before turn ih =>
    have hbefore := ih fun first input after heq =>
      hanswer first input (after ++ [turn]) (by rw [heq]; simp)
    rw [run_append, turnsOf_append, Prog.resume_append]
    show ((p.run exec before).step exec turn).threads[i]? = _
    by_cases hturn : turn.1 = i
    · obtain ⟨j, input⟩ := turn
      obtain rfl : j = i := hturn
      rw [turnsOf_cons_self, turnsOf_nil]
      cases hresume : t.resume answer (turnsOf j before) with
      | ret a =>
        rw [hresume] at hbefore
        have hnone : (p.run exec before).next? j = none := by simp [next?, hbefore]
        rw [step_of_next?_none hnone, Prog.resume_ret]
        exact hbefore
      | call op next =>
        rw [hresume] at hbefore
        obtain ⟨s, hs⟩ := hanswer before input [] rfl op next hresume
        rw [Prog.resume_call, Prog.resume_nil]
        exact threads_step_self hbefore hs
    · rw [threads_step_of_ne hturn, turnsOf_cons_of_ne hturn, turnsOf_nil, Prog.resume_nil]
      exact hbefore

end Pool

/-! ## Rely and guarantee -/

/-- What every operation of every thread upholds: an invariant of the state, and a preorder
between the states before and after. -/
structure Guarantee (σ : Type) where
  inv : σ → Prop
  rel : σ → σ → Prop
  refl : ∀ s, rel s s
  trans : ∀ {a b c}, rel a b → rel b c → rel a c

variable {exec : Semantics Res ι σ} {cond : Op → ι → σ → Prop} {G : Guarantee σ}
  {post : α → σ → Prop}

/-- From the state `s` on, whatever the other threads do within the guarantee, each operation of
the program that meets `cond` upholds the guarantee, and the result satisfies `post` when the
program ends and ever after. -/
def Prog.Safe (exec : Semantics Res ι σ) (cond : Op → ι → σ → Prop) (G : Guarantee σ)
    (post : α → σ → Prop) : Prog Res α → σ → Prop
  | .ret a, s => ∀ s', G.rel s s' → G.inv s' → post a s'
  | .call op next, s => ∀ s', G.rel s s' → G.inv s' → ∀ i r s'', cond op i s' →
      exec op i s' = some (r, s'') →
      G.rel s' s'' ∧ G.inv s'' ∧ (next r).Safe exec cond G post s''

/-- Safety is stable under interference. -/
theorem Prog.Safe.mono {p : Prog Res α} {s s' : σ} (h : p.Safe exec cond G post s)
    (hs : G.rel s s') : p.Safe exec cond G post s' := by
  cases p with
  | ret a => exact fun t ht => h t (G.trans hs ht)
  | call op next => exact fun t ht => h t (G.trans hs ht)

theorem Prog.Safe.imp {post' : α → σ → Prop} {p : Prog Res α} {s : σ}
    (hp : p.Safe exec cond G post s) (h : ∀ a s, post a s → post' a s) :
    p.Safe exec cond G post' s := by
  induction p generalizing s with
  | ret a => exact fun s' hrel hinv => h a s' (hp s' hrel hinv)
  | call op next ih =>
    intro s' hrel hinv i r s'' hc he
    obtain ⟨hrel', hinv', hnext⟩ := hp s' hrel hinv i r s'' hc he
    exact ⟨hrel', hinv', ih r hnext⟩

theorem Prog.safe_map {β : Type} {f : β → α} {p : Prog Res β} {s : σ} :
    (p.map f).Safe exec cond G post s ↔ p.Safe exec cond G (fun b => post (f b)) s := by
  induction p generalizing s with
  | ret b => exact Iff.rfl
  | call op next ih => simp only [map, Safe, ih]

/-- Where every operation upholds the guarantee on its own, every program is safe. -/
theorem Prog.safe_of_exec
    (h : ∀ op i s r s', G.inv s → cond op i s → exec op i s = some (r, s') →
      G.rel s s' ∧ G.inv s') (p : Prog Res α) (s : σ) :
    p.Safe exec cond G (fun _ _ => True) s := by
  induction p generalizing s with
  | ret a => exact fun _ _ _ => trivial
  | call op next ih =>
    intro s' _ hinv i r s'' hc he
    obtain ⟨hrel, hinv'⟩ := h op i s' r s'' hinv hc he
    exact ⟨hrel, hinv', ih r s''⟩

namespace Pool

/-- The invariant holds and every thread is safe. -/
structure Sound (exec : Semantics Res ι σ) (cond : Op → ι → σ → Prop) (G : Guarantee σ)
    (post : α → σ → Prop) (p : Pool Res σ α) : Prop where
  inv : G.inv p.state
  safe : ∀ t, some t ∈ p.threads → t.Safe exec cond G post p.state

theorem next?_eq_some {p : Pool Res σ α} {i : Nat} {op : Op} {next : Res op → Prog Res α}
    (h : p.next? i = some ⟨op, next⟩) : some (.call op next) ∈ p.threads :=
  List.mem_of_getElem? (next?_eq_some_iff.mp h)

theorem sound_step {p : Pool Res σ α} (h : p.Sound exec cond G post) (turn : Nat × ι)
    (hc : ∀ op next, p.next? turn.1 = some ⟨op, next⟩ → cond op turn.2 p.state) :
    (p.step exec turn).Sound exec cond G post ∧ G.rel p.state (p.step exec turn).state := by
  unfold step
  split
  · exact ⟨h, G.refl _⟩
  · next op next hn =>
    split
    · refine ⟨⟨h.inv, fun t ht => ?_⟩, G.refl _⟩
      rcases List.mem_or_eq_of_mem_set ht with ht | ht
      · exact h.safe t ht
      · cases ht
    · next r s he =>
      have hsafe := h.safe _ (next?_eq_some hn) p.state (G.refl _) h.inv turn.2 r s
        (hc op next hn) he
      obtain ⟨hrel, hinv, hnext⟩ := hsafe
      refine ⟨⟨hinv, fun t ht => ?_⟩, hrel⟩
      rcases List.mem_or_eq_of_mem_set ht with ht | ht
      · exact (h.safe t ht).mono hrel
      · cases ht
        exact hnext

/-- **Soundness for every interleaving**: in a run whose steps all meet the condition, the
invariant holds at the end, the state has moved within the guarantee, and the threads are safe. -/
theorem sound_run {p : Pool Res σ α} (h : p.Sound exec cond G post)
    {schedule : List (Nat × ι)} (hm : p.Meets exec cond schedule) :
    (p.run exec schedule).Sound exec cond G post ∧ G.rel p.state (p.run exec schedule).state := by
  induction schedule generalizing p with
  | nil => exact ⟨h, G.refl _⟩
  | cons turn turns ih =>
    obtain ⟨hstep, hrel⟩ := sound_step h turn hm.1
    obtain ⟨hrun, hrel'⟩ := ih hstep hm.2
    exact ⟨hrun, G.trans hrel hrel'⟩

theorem Meets.of_forall (h : ∀ op i s, cond op i s) (p : Pool Res σ α)
    (schedule : List (Nat × ι)) : p.Meets exec cond schedule := by
  induction schedule generalizing p with
  | nil => trivial
  | cons turn turns ih => exact ⟨fun op _ _ => h op turn.2 p.state, ih _⟩

theorem Meets.append {p : Pool Res σ α} {as bs : List (Nat × ι)} :
    p.Meets exec cond (as ++ bs) ↔
      p.Meets exec cond as ∧ (p.run exec as).Meets exec cond bs := by
  induction as generalizing p with
  | nil => simp [Meets, run]
  | cons turn turns ih =>
    simp only [List.cons_append, Meets, ih, and_assoc]
    rfl

/-- What a thread of a sound pool has returned satisfies its postcondition. -/
theorem Sound.of_ret {p : Pool Res σ α} (h : p.Sound exec cond G post) {a : α}
    (ha : some (.ret a) ∈ p.threads) : post a p.state :=
  h.safe _ ha p.state (G.refl _) h.inv

end Pool

end Smolweb
