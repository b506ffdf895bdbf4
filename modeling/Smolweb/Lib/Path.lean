import Mathlib.Data.List.Basic

/-!
# Unix paths

A path is the sequence of its characters or bytes. `push` is `PathBuf::push`: an absolute component
replaces the path, any other is put behind it with a separator between them, where there is none.
-/

namespace Smolweb.Path

variable {α : Type} [DecidableEq α] {sep : α} {a b : List α}

def push (sep : α) (path component : List α) : List α :=
  if component.head? = some sep then component
  else if path = [] ∨ path.getLast? = some sep then path ++ component
  else path ++ sep :: component

/-- What a relative component is put behind. -/
def below (sep : α) (path : List α) : List α :=
  if path = [] ∨ path.getLast? = some sep then path else path ++ [sep]

theorem push_eq (path : List α) (ha : a.head? ≠ some sep) :
    push sep path a = below sep path ++ a := by
  unfold push below
  rw [if_neg ha]
  split
  · rfl
  · rw [List.append_assoc]
    rfl

/-- Below one path, relative components stay apart. -/
theorem push_inj (path : List α) (ha : a.head? ≠ some sep) (hb : b.head? ≠ some sep) :
    push sep path a = push sep path b ↔ a = b := by
  rw [push_eq path ha, push_eq path hb, List.append_right_inj]

theorem prefix_below (path : List α) : path <+: below sep path := by
  unfold below
  split
  · exact List.prefix_refl path
  · exact List.prefix_append path [sep]

theorem below_eq {path : List α} (hne : path ≠ []) (hlast : path.getLast? ≠ some sep) :
    below sep path = path ++ [sep] := by
  rw [below, if_neg (by simp [hne, hlast])]

/-! ## The name of a file -/

/-- `Path::file_name`: the last component, unless it goes up. -/
def fileName (sep dot : α) (path : List α) : Option (List α) :=
  let components := (path.splitOn sep).filter fun c => c ≠ [] ∧ c ≠ [dot]
  match components.getLast? with
  | some name => if name = [dot, dot] then none else some name
  | none => none

/-- `Path::extension`: what is behind the last dot of the name, unless that is its only one and
starts it. -/
def extension (sep dot : α) (path : List α) : Option (List α) :=
  match fileName sep dot path with
  | none => none
  | some name =>
    let after := (name.reverse.takeWhile (· ≠ dot)).reverse
    if after.length + 1 < name.length then some after else none

theorem splitOn_below (path : List α) {name : List α} (h : sep ∉ name) :
    ∃ components, (below sep path ++ name).splitOn sep = components ++ [name] := by
  have hname : name.splitOn sep = [name] := List.splitOn_eq_singleton h
  unfold below
  split
  · next hpath =>
    rcases hpath with rfl | hlast
    · exact ⟨[], hname⟩
    · obtain ⟨u, rfl⟩ := List.getLast?_eq_some_iff.mp hlast
      refine ⟨u.splitOn sep, ?_⟩
      rw [List.append_assoc, List.singleton_append, List.splitOn_append_cons_self, hname]
  · refine ⟨path.splitOn sep, ?_⟩
    rw [List.append_assoc, List.singleton_append, List.splitOn_append_cons_self, hname]

/-- The name that was put behind a path is the name of the file. -/
theorem fileName_below {dot : α} (path : List α) {name : List α} (hsep : sep ∉ name)
    (hnil : name ≠ []) (hdot : name ≠ [dot]) (hdots : name ≠ [dot, dot]) :
    fileName sep dot (below sep path ++ name) = some name := by
  obtain ⟨components, hsplit⟩ := splitOn_below path hsep
  rw [fileName, hsplit, List.filter_append, List.filter_cons_of_pos (by simp [hnil, hdot]),
    List.filter_nil, List.getLast?_concat]
  simp only [if_neg hdots]

end Smolweb.Path
