import Smolweb.Lib.Records
import Smolweb.Scorpion.Document

/-!
# The streaming reader of Scorpion documents

`Blocks` of `document.rs`, with the bytes that a failed read leaves behind. The reader of
`Smolweb.Scorpion.Document` forgets those; both take the same steps (`Blocks.next_eq`).
-/

namespace Smolweb.Scorpion.Blocks

/-- A step of `Blocks` on its `rest`, which an error leaves changed. -/
abbrev Step := ExceptT DocumentError (StateM Bytes)

def take (count : Nat) : Step Bytes := do
  let rest ← get
  if rest.length < count then
    -- the remainder is consumed, so that the iterator ends here
    set ([] : Bytes)
    throw .truncated
  else
    set (rest.drop count)
    return rest.take count

def read : Step Block := do
  let tag := (← take 1).headD 0
  let attributeLen := BigEndian.ofBytes (← take 2)
  let attr ← take attributeLen
  let bodyLen := BigEndian.ofBytes (0 :: (← take 3))
  let body ← take bodyLen
  return {
    blockType := .fromValue (tag &&& 0x0F)
    encoding := .fromValue (tag &&& 0xF0)
    attr
    body }

def next (rest : Bytes) : Option (Except DocumentError Block) × Bytes :=
  if rest.isEmpty then (none, rest)
  else
    let (item, rest') := read.run rest
    (some item, rest')

/-! ## A failed step leaves nothing -/

/-- `x` takes the steps of `y`, and leaves nothing where `y` fails. -/
def Settles {α : Type} (x : Step α) (y : Reader α) : Prop :=
  ∀ rest, x.run rest =
    match y rest with
    | .ok (a, rest') => (.ok a, rest')
    | .error e => (.error e, [])

theorem settles_pure {α : Type} (a : α) : Settles (pure a) (pure a) := fun _ => rfl

theorem settles_take (count : Nat) : Settles (take count) (Scorpion.take count) := by
  intro rest
  change (if rest.length < count then _ else _ : Step Bytes).run rest = _
  unfold Scorpion.take
  by_cases h : rest.length < count
  · rw [if_pos h, if_pos h]
    rfl
  · rw [if_neg h, if_neg h]
    rfl

theorem Settles.bind {α β : Type} {x : Step α} {y : Reader α} {f : α → Step β} {g : α → Reader β}
    (h : Settles x y) (hf : ∀ a, Settles (f a) (g a)) : Settles (x >>= f) (y >>= g) := by
  intro rest
  have hx : (x >>= f).run rest =
      match x.run rest with
      | (.ok a, rest') => (f a).run rest'
      | (.error e, rest') => (.error e, rest') := by
    change ExceptT.bindCont f (x.run rest).1 (x.run rest).2 = _
    rcases x.run rest with ⟨_ | _, rest'⟩ <;> rfl
  have hy : (y >>= g) rest = (y rest >>= fun p => g p.1 p.2) := rfl
  rw [hx, hy, h rest]
  cases y rest with
  | error e => rfl
  | ok p => exact hf p.1 p.2

theorem settles_read : Settles read Scorpion.read :=
  (settles_take 1).bind fun _ => (settles_take 2).bind fun _ => (settles_take _).bind fun _ =>
    (settles_take 3).bind fun _ => (settles_take _).bind fun _ => settles_pure _

theorem next_eq (rest : Bytes) : next rest =
    match Scorpion.next rest with
    | none => (none, [])
    | some (item, rest') => (some item, rest') := by
  unfold next Scorpion.next
  by_cases h : rest.isEmpty
  · simp [List.isEmpty_iff.mp h]
  · rw [if_neg h, if_neg h, settles_read rest]
    cases Scorpion.read rest <;> rfl

theorem next_eq_none {rest rest' : Bytes} :
    next rest = (none, rest') ↔ Scorpion.next rest = none ∧ rest' = [] := by
  rw [next_eq]
  cases Scorpion.next rest <;> simp [eq_comm]

theorem next_eq_some {rest rest' : Bytes} {item : Except DocumentError Block} :
    next rest = (some item, rest') ↔ Scorpion.next rest = some (item, rest') := by
  rw [next_eq]
  cases Scorpion.next rest <;> simp [Prod.ext_iff]

end Smolweb.Scorpion.Blocks
