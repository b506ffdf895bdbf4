import Mathlib.Algebra.Group.Nat.Even
import Mathlib.Data.List.Induction

/-!
# Blocks between fences

A reader of lines that gathers the lines between two fences into one block keeps a list of what it
has read and the block that is open (`step`). What it has read so far only grows (`foldl_step`). So
two documents can be read apart where the first leaves no block open (`read_append`), which is where
it has an even number of fences (`closed_iff`). What is read of each part of a document is so read
of the whole (`read_flatMap`), and what holds of all that the parts can become holds of whatever is
read (`forall_read`).
-/

namespace Smolweb

/-- How a document is read whose blocks stand between fences: which lines are fences, what one
opens, what is gathered inside a block and what the block becomes, and what a line outside of the
blocks gives. -/
structure Fenced (ι β γ : Type) where
  fence : ι → Bool
  opens : ι → β
  add : β → ι → β
  close : β → γ
  line : ι → List γ

namespace Fenced

variable {ι β γ : Type} (f : Fenced ι β γ)

/-- One line more. -/
def step (s : List γ × Option β) (l : ι) : List γ × Option β :=
  match s with
  | (out, some b) => if f.fence l then (out ++ [f.close b], none) else (out, some (f.add b l))
  | (out, none) => if f.fence l then (out, some (f.opens l)) else (out ++ f.line l, none)

/-- The end of the lines, which closes a block that is open. -/
def finish (s : List γ × Option β) : List γ :=
  match s with
  | (out, some b) => out ++ [f.close b]
  | (out, none) => out

def read (ls : List ι) : List γ := f.finish (ls.foldl f.step ([], none))

/-- The lines leave no block open. -/
def Closed (ls : List ι) : Prop := (ls.foldl f.step ([], none)).2 = none

theorem step_append (before out : List γ) (open? : Option β) (l : ι) :
    f.step (before ++ out, open?) l =
      (before ++ (f.step (out, open?) l).1, (f.step (out, open?) l).2) := by
  cases open? with
  | some b =>
    simp only [step]
    split
    · rw [List.append_assoc]
    · rfl
  | none =>
    simp only [step]
    split
    · rfl
    · rw [List.append_assoc]

/-- What was read before stays in front of what is read. -/
theorem foldl_step (before out : List γ) (open? : Option β) (ls : List ι) :
    ls.foldl f.step (before ++ out, open?) =
      (before ++ (ls.foldl f.step (out, open?)).1, (ls.foldl f.step (out, open?)).2) := by
  induction ls generalizing out open? with
  | nil => rfl
  | cons l ls ih =>
    rw [List.foldl_cons, step_append, ih]
    rfl

theorem finish_append (before out : List γ) (open? : Option β) :
    f.finish (before ++ out, open?) = before ++ f.finish (out, open?) := by
  cases open? with
  | some b => exact List.append_assoc ..
  | none => rfl

/-- **Documents are read apart** where no block is open. -/
theorem read_append {as : List ι} (h : f.Closed as) (bs : List ι) :
    f.read (as ++ bs) = f.read as ++ f.read bs := by
  obtain ⟨out, hout⟩ : ∃ out, as.foldl f.step ([], none) = (out, none) := ⟨_, Prod.ext rfl h⟩
  have hbs := f.foldl_step out [] none bs
  rw [List.append_nil] at hbs
  rw [read, read, read, List.foldl_append, hout, hbs, finish_append]
  rfl

/-- A fence opens a block or closes the one that is open. -/
theorem step_isSome (s : List γ × Option β) (l : ι) :
    (f.step s l).2.isSome = (s.2.isSome ^^ f.fence l) := by
  obtain ⟨out, _ | b⟩ := s
  · simp only [step]
    split
    · next h => simp [h]
    · next h => simp [h]
  · simp only [step]
    split
    · next h => simp [h]
    · next h => simp [h]

theorem isSome_iff (ls : List ι) :
    (ls.foldl f.step ([], none)).2.isSome = true ↔ ¬Even (ls.countP f.fence) := by
  induction ls using List.reverseRecOn with
  | nil => simp
  | append_singleton ls l ih =>
    rw [List.foldl_append, List.foldl_cons, List.foldl_nil, step_isSome, List.countP_append,
      List.countP_singleton]
    cases hfence : f.fence l with
    | true =>
      rw [Bool.xor_true, Bool.not_eq_true', ← Bool.not_eq_true, ih, if_pos rfl, Nat.even_add_one]
    | false =>
      rw [Bool.xor_false, ih]
      simp

theorem closed_iff {ls : List ι} : f.Closed ls ↔ Even (ls.countP f.fence) := by
  rw [Closed, ← Option.not_isSome_iff_eq_none, isSome_iff, not_not]

theorem foldl_add (out : List γ) (b : β) {body : List ι} (h : ∀ l ∈ body, f.fence l = false) :
    body.foldl f.step (out, some b) = (out, some (body.foldl f.add b)) := by
  induction body generalizing b with
  | nil => rfl
  | cons l body ih =>
    have hl : f.step (out, some b) l = (out, some (f.add b l)) := by
      simp [step, h l List.mem_cons_self]
    rw [List.foldl_cons, hl, ih _ fun m hm => h m (List.mem_cons_of_mem l hm)]
    rfl

/-- **One block** is read from two fences and the lines between them. -/
theorem read_block {opening closing : ι} {body : List ι} (hopening : f.fence opening = true)
    (hbody : ∀ l ∈ body, f.fence l = false) (hclosing : f.fence closing = true) :
    f.read (opening :: (body ++ [closing])) = [f.close (body.foldl f.add (f.opens opening))] := by
  have hopen : f.step ([], none) opening = ([], some (f.opens opening)) := by
    simp [step, hopening]
  rw [read, List.foldl_cons, hopen, List.foldl_append, f.foldl_add _ _ hbody]
  simp [step, hclosing, finish]

theorem closed_block {opening closing : ι} {body : List ι} (hopening : f.fence opening = true)
    (hbody : ∀ l ∈ body, f.fence l = false) (hclosing : f.fence closing = true) :
    f.Closed (opening :: (body ++ [closing])) := by
  have hnone : body.countP f.fence = 0 :=
    List.countP_eq_zero.mpr fun l hl => by simp [hbody l hl]
  rw [closed_iff, List.countP_cons_of_pos hopening, List.countP_append, hnone,
    List.countP_singleton, if_pos hclosing]
  exact ⟨1, rfl⟩

theorem closed_line {l : ι} (h : f.fence l = false) : f.Closed [l] := by
  rw [closed_iff, List.countP_singleton, if_neg (by simp [h])]
  exact Even.zero

theorem read_line {l : ι} (h : f.fence l = false) : f.read [l] = f.line l := by
  simp [read, step, h, finish]

/-- **Parts that are read as they were meant** make a document that is. -/
theorem read_flatMap {write : γ → List ι} {cs : List γ}
    (h : ∀ c ∈ cs, f.Closed (write c) ∧ f.read (write c) = [c]) :
    f.read (cs.flatMap write) = cs := by
  induction cs with
  | nil => rfl
  | cons c cs ih =>
    obtain ⟨⟨hclosed, hread⟩, hcs⟩ := List.forall_mem_cons.mp h
    rw [List.flatMap_cons, f.read_append hclosed, hread, ih hcs]
    rfl

/-! ## What holds of all that is read -/

section

variable {P : γ → Prop} {Q : β → Prop} {ls : List ι}
  (hopens : ∀ l ∈ ls, f.fence l = true → Q (f.opens l))
  (hadd : ∀ l ∈ ls, f.fence l = false → ∀ b, Q b → Q (f.add b l))
  (hclose : ∀ b, Q b → P (f.close b))
  (hline : ∀ l ∈ ls, f.fence l = false → ∀ c ∈ f.line l, P c)
include hopens hadd hclose hline

theorem forall_step {s : List γ × Option β} {l : ι} (hl : l ∈ ls)
    (hs : (∀ c ∈ s.1, P c) ∧ ∀ b, s.2 = some b → Q b) :
    (∀ c ∈ (f.step s l).1, P c) ∧ ∀ b, (f.step s l).2 = some b → Q b := by
  obtain ⟨out, _ | b⟩ := s
  · simp only [step]
    split
    · next hfence =>
      refine ⟨hs.1, ?_⟩
      rintro b ⟨⟩
      exact hopens l hl hfence
    · next hfence =>
      refine ⟨fun c hc => ?_, by simp⟩
      rcases List.mem_append.mp hc with hc | hc
      · exact hs.1 c hc
      · exact hline l hl (by simpa using hfence) c hc
  · simp only [step]
    split
    · refine ⟨fun c hc => ?_, by simp⟩
      rcases List.mem_append.mp hc with hc | hc
      · exact hs.1 c hc
      · exact List.mem_singleton.mp hc ▸ hclose b (hs.2 b rfl)
    · next hfence =>
      refine ⟨hs.1, ?_⟩
      rintro b' ⟨⟩
      exact hadd l hl (by simpa using hfence) b (hs.2 b rfl)

theorem forall_foldl {more : List ι} (hmore : more ⊆ ls) {s : List γ × Option β}
    (hs : (∀ c ∈ s.1, P c) ∧ ∀ b, s.2 = some b → Q b) :
    (∀ c ∈ (more.foldl f.step s).1, P c) ∧ ∀ b, (more.foldl f.step s).2 = some b → Q b := by
  induction more generalizing s with
  | nil => exact hs
  | cons l more ih =>
    obtain ⟨hl, hmore⟩ := List.cons_subset.mp hmore
    exact ih hmore (f.forall_step hopens hadd hclose hline hl hs)

/-- **What is read** has what all has that a block or a line can become. -/
theorem forall_read : ∀ c ∈ f.read ls, P c := by
  obtain ⟨hout, hopen⟩ := f.forall_foldl hopens hadd hclose hline (List.Subset.refl ls)
    (s := ([], none)) ⟨by simp, by simp⟩
  intro c hc
  unfold read at hc
  generalize ls.foldl f.step ([], none) = s at hout hopen hc
  obtain ⟨out, _ | b⟩ := s
  · exact hout c hc
  · rcases List.mem_append.mp hc with hc | hc
    · exact hout c hc
    · exact List.mem_singleton.mp hc ▸ hclose b (hopen b rfl)

end

end Fenced

end Smolweb
