import Mathlib.Data.List.Induction

/-!
# Runs of a deterministic system

A system takes one step for each event. `Run.after` is the state that some events lead to, and
`Run.Saw` says that a step of the run was of some kind. `Run.induction` is the rule for facts about
a state and the events behind it.
-/

namespace Smolweb.Run

section

variable {σ ε : Type} (step : σ → ε → σ)

/-- The state that `events` lead to. -/
def after (s : σ) (events : List ε) : σ := events.foldl step s

/-- `P` held of some step of the run: of the state before it and of its event. -/
def Saw (P : σ → ε → Prop) (s : σ) (events : List ε) : Prop :=
  ∃ before e later, events = before ++ e :: later ∧ P (after step s before) e

end

variable {σ ε : Type} {step : σ → ε → σ} {P : σ → ε → Prop} {s : σ} {events : List ε}

@[simp] theorem after_nil : after step s [] = s := rfl

@[simp] theorem after_cons (e : ε) : after step s (e :: events) = after step (step s e) events :=
  rfl

theorem after_append (more : List ε) :
    after step s (events ++ more) = after step (after step s events) more :=
  List.foldl_append

@[simp] theorem after_concat (e : ε) :
    after step s (events ++ [e]) = step (after step s events) e := by
  rw [after_append]
  rfl

theorem Saw.append (h : Saw step P s events) (more : List ε) :
    Saw step P s (events ++ more) := by
  obtain ⟨before, e, later, rfl, hP⟩ := h
  exact ⟨before, e, later ++ more, by simp, hP⟩

theorem saw_concat {e : ε} (h : P (after step s events) e) : Saw step P s (events ++ [e]) :=
  ⟨events, e, [], rfl, h⟩

/-- **The induction rule** for runs: a fact about the state reached and the events so far. -/
theorem induction {I : List ε → σ → Prop} (hnil : I [] s)
    (hstep : ∀ past e, I past (after step s past) → I (past ++ [e]) (step (after step s past) e))
    (events : List ε) : I events (after step s events) := by
  induction events using List.reverseRecOn with
  | nil => exact hnil
  | append_singleton past e ih =>
    rw [after_concat]
    exact hstep past e ih

end Smolweb.Run
