import Mathlib.Data.List.Basic

/-!
# Lenient formats

A reader that takes more than a writer writes, and makes the same of it. What it reads is always in
a normal form, and what is written of a normal form is read as that (`Lenient`). So the normal forms
are exactly what survives being written and read (`read_write_iff`), one by one or as the entries
of a list (`filterMap_read_iff`).
-/

namespace Smolweb

structure Lenient (β α : Type) where
  read : β → Option α
  write : α → β
  Normal : α → Prop
  read_write : ∀ a, Normal a → read (write a) = some a
  normal_of_read : ∀ b a, read b = some a → Normal a

namespace Lenient

variable {α β : Type} (f : Lenient β α)

theorem read_write_iff (a : α) : f.read (f.write a) = some a ↔ f.Normal a :=
  ⟨f.normal_of_read _ a, f.read_write a⟩

theorem filterMap_read_write {as : List α} (h : ∀ a ∈ as, f.Normal a) :
    (as.map f.write).filterMap f.read = as := by
  rw [List.filterMap_map]
  calc as.filterMap (f.read ∘ f.write)
      = as.filterMap some := List.filterMap_congr fun a ha => f.read_write a (h a ha)
    _ = as := List.filterMap_some

/-- **A list of entries** is read as it was written iff all of them are in normal form. -/
theorem filterMap_read_iff (as : List α) :
    (as.map f.write).filterMap f.read = as ↔ ∀ a ∈ as, f.Normal a := by
  refine ⟨fun h a ha => ?_, f.filterMap_read_write⟩
  rw [← h] at ha
  obtain ⟨b, -, hread⟩ := List.mem_filterMap.mp ha
  exact f.normal_of_read b a hread

end Lenient

end Smolweb
