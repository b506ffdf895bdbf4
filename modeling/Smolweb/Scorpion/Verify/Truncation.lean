import Smolweb.Scorpion.Blocks
import Smolweb.Scorpion.Verify.RoundTrip

/-!
# Scorpion documents that are cut short

A cut of a document is read up to the last block that lies wholly inside it, and then ends, or
fails once (`blocks_cut`). The types and encodings read are those that the tags name, which are
the written ones when the blocks are canonical.
-/

namespace Smolweb.Scorpion

/-! ## What is read of a block -/

/-- The block that is read where `b` was written. -/
def Block.readBack (b : Block) : Block :=
  { b with
    blockType := .fromValue (b.tag &&& 0x0F)
    encoding := .fromValue (b.tag &&& 0xF0) }

/-- The bytes a block takes: its tag, the two lengths, and what they measure. -/
def Block.size (b : Block) : Nat := 6 + b.attr.length + b.body.length

theorem length_wire (b : Block) : b.wire.length = b.size := by
  simp only [Block.wire, Block.size, List.length_append, List.length_singleton,
    BigEndian.length_toBytes]
  omega

theorem readBack_canonical {b : Block} (h : b.Encodable) : b.readBack.Canonical :=
  ⟨(blockType_fromValue b.tag).1, (encoding_fromValue b.tag).1, h.attr_le, h.body_le⟩

theorem readBack_wire (b : Block) : b.readBack.wire = b.wire := by
  have htag : b.readBack.tag = b.tag := by
    have htype := (blockType_fromValue b.tag).2
    have henc := (encoding_fromValue b.tag).2
    change b.readBack.encoding.value ||| b.readBack.blockType.value = b.tag
    rw [Block.readBack, htype, henc, nibbles_or]
  rw [Block.wire, htag]
  rfl

/-- A canonical block is read as it was written. -/
theorem readBack_of_canonical {b : Block} (h : b.Canonical) : b.readBack = b := by
  have h₁ := read_wire (readBack_canonical h.encodable) []
  rw [readBack_wire, read_wire h] at h₁
  injection h₁ with h₁
  exact (congrArg Prod.fst h₁).symm

/-! ## Failing reads -/

/-- Where `x` fails, the bytes ended too soon. -/
def Truncates {α : Type} (x : Reader α) : Prop :=
  ∀ rest e, x rest = .error e → e = .truncated

theorem truncates_pure {α : Type} (a : α) : Truncates (pure a) := by
  intro rest e h
  cases h

theorem truncates_take (count : Nat) : Truncates (take count) := by
  intro rest e h
  unfold take at h
  split at h <;> cases h
  rfl

theorem Truncates.bind {α β : Type} {x : Reader α} {f : α → Reader β} (h : Truncates x)
    (hf : ∀ a, Truncates (f a)) : Truncates (x >>= f) := by
  intro rest e he
  change (x rest >>= fun p => f p.1 p.2) = _ at he
  cases hx : x rest with
  | error e' =>
    rw [hx] at he
    cases he
    exact h rest e hx
  | ok p =>
    rw [hx] at he
    exact hf p.1 p.2 e he

theorem truncates_read : Truncates read :=
  (truncates_take 1).bind fun _ => (truncates_take 2).bind fun _ => (truncates_take _).bind fun _ =>
    (truncates_take 3).bind fun _ => (truncates_take _).bind fun _ => truncates_pure _

theorem error_of_next {rest rest' : Bytes} {e : DocumentError}
    (h : next rest = some (.error e, rest')) : e = .truncated ∧ rest' = [] := by
  unfold next at h
  split at h
  · cases h
  · split at h
    · cases h
    · next hr =>
      cases h
      exact ⟨truncates_read _ _ hr, rfl⟩

/-! ## Reading a cut -/

/-- The blocks of a document are records that `Blocks` reads off its front. -/
theorem blocks_records :
    Records Blocks.next Block.wire Block.readBack .truncated Block.Encodable where
  next_nil := rfl
  next_wire := by
    intro b hb rest
    rw [Blocks.next_eq_some, ← readBack_wire, next_wire (readBack_canonical hb)]
  of_next_none := fun h => next_eq_none (Blocks.next_eq_none.mp h).1
  of_next_ok := by
    intro rest b rest' h
    obtain ⟨hcan, heq⟩ := wire_of_read (read_of_next (Blocks.next_eq_some.mp h))
    exact ⟨b, hcan.encodable, heq⟩
  of_next_error := fun h => error_of_next (Blocks.next_eq_some.mp h)

/-- `parse` collects the items of the iterator, up to the first error. -/
theorem parse_of_yields {bytes : Bytes} {items : List (Except DocumentError Block)}
    (h : Yields Blocks.next bytes items) : parse bytes = items.mapM id := by
  change collect bytes = _
  induction h with
  | done h =>
    rw [collect_eq, (Blocks.next_eq_none.mp h).1]
    rfl
  | @item _ rest i _ h _ ih =>
    rw [collect_eq, Blocks.next_eq_some.mp h, List.mapM_cons, ← ih]
    cases i with
    | error e => rfl
    | ok b =>
      change (collect rest).map (b :: ·) = collect rest >>= fun blocks => pure (b :: blocks)
      cases collect rest <;> rfl

/-- What `parse` makes of blocks, and of blocks with an error after them. -/
theorem mapM_ok (blocks : List Block) :
    (blocks.map fun b => (.ok b.readBack : Except DocumentError Block)).mapM id =
      .ok (blocks.map Block.readBack) := by
  induction blocks with
  | nil => rfl
  | cons b blocks ih =>
    rw [List.map_cons, List.mapM_cons, ih]
    rfl

theorem mapM_ok_error (blocks : List Block) (e : DocumentError) :
    (blocks.map (fun b : Block => Except.ok b.readBack) ++ [Except.error e]).mapM id =
      (.error e : Except DocumentError (List Block)) := by
  rw [List.mapM_append, mapM_ok]
  rfl

/-- **A document that is cut short** is read up to the last block wholly inside the cut, each block
with the type and the encoding that its tag names. On a block boundary there is nothing more, and
`parse` succeeds. Elsewhere one error follows. Whatever the bytes are, the iterator ends. -/
theorem blocks_cut :
    (∀ (blocks : List Block) (bytes cut : Bytes), encode blocks = .ok bytes → cut <+: bytes →
      ((OnBoundary Block.size blocks cut.length ∧
          Yields Blocks.next cut
            ((inside Block.size cut.length blocks).map fun b => .ok b.readBack)) ∨
        (¬ OnBoundary Block.size blocks cut.length ∧
          Yields Blocks.next cut
            (((inside Block.size cut.length blocks).map fun b => .ok b.readBack) ++
              [.error .truncated]))) ∧
      ((∃ read, parse cut = .ok read) ↔ OnBoundary Block.size blocks cut.length)) ∧
    (∀ b : Block, b.Canonical → b.readBack = b) ∧
    ∀ bytes : Bytes, (∃! items, Yields Blocks.next bytes items) ∧
      ∀ items, Yields Blocks.next bytes items → items.length ≤ bytes.length / 6 + 1 := by
  refine ⟨?_, fun b => readBack_of_canonical, ?_⟩
  · intro blocks bytes cut hencode hcut
    obtain ⟨hb, rfl⟩ := encode_eq_ok.mp hencode
    have hyields := blocks_records.yields_cut length_wire hb hcut
    refine ⟨hyields, ?_⟩
    rcases hyields with ⟨hon, hy⟩ | ⟨hoff, hy⟩
    · have hparse := parse_of_yields hy
      rw [mapM_ok] at hparse
      exact ⟨fun _ => hon, fun _ => ⟨_, hparse⟩⟩
    · have hparse := parse_of_yields hy
      rw [mapM_ok_error] at hparse
      constructor
      · rintro ⟨read, h⟩
        rw [hparse] at h
        cases h
      · exact fun hon => absurd hon hoff
  · intro bytes
    have hroom : ∀ b : Block, b.Encodable → 6 ≤ b.wire.length := by
      intro b _
      rw [length_wire, Block.size]
      omega
    obtain ⟨items, hy, hle⟩ := blocks_records.yields_any (by decide) hroom bytes
    refine ⟨⟨items, hy, fun items' hy' => hy'.unique hy⟩, ?_⟩
    intro items' hy'
    rw [hy'.unique hy]
    exact hle

/-- Two bytes into the second block of the sample, the first is read and then there is one error. -/
theorem blocks_cut_sample :
    Yields Blocks.next [0xA3, 0, 2, 115, 51, 0, 0, 2, 72, 105, 0x7E, 0]
        [.ok ⟨.heading 3, .iso2022Rtl, [115, 51], [72, 105]⟩, .error .truncated] ∧
      ¬ OnBoundary Block.size sampleBlocks 12 := by
  have hcut := (blocks_cut.1 sampleBlocks
    [0xA3, 0, 2, 115, 51, 0, 0, 2, 72, 105, 0x7E, 0, 0, 0, 0, 1, 0]
    [0xA3, 0, 2, 115, 51, 0, 0, 2, 72, 105, 0x7E, 0] (by decide) ⟨[0, 0, 0, 1, 0], rfl⟩).1
  have hoff : ¬ OnBoundary Block.size sampleBlocks 12 := by
    unfold sampleBlocks
    rw [onBoundary_cons _ (by decide), onBoundary_cons_of_lt _ (by decide)]
    decide
  rcases hcut with ⟨hon, -⟩ | ⟨-, hy⟩
  · exact absurd hon hoff
  · exact ⟨hy, hoff⟩

/-- A heading below the sixth level, which is written as one of the sixth. -/
def deepHeading : Block := ⟨.heading 9, .tron8, [], []⟩

/-- It can be encoded, and is not read back. -/
theorem blocks_cut_clamped :
    encode [deepHeading] = .ok [6, 0, 0, 0, 0, 0] ∧
      ¬ Yields Blocks.next [6, 0, 0, 0, 0, 0] [.ok deepHeading] := by
  refine ⟨by decide, fun h => ?_⟩
  have hread : Yields Blocks.next deepHeading.wire [.ok deepHeading.readBack] :=
    .item (blocks_records.next_wire ⟨by decide, by decide⟩ []) (.done rfl)
  have hwire : deepHeading.wire = [6, 0, 0, 0, 0, 0] := by decide
  rw [hwire] at hread
  exact absurd (h.unique hread) (by decide)

end Smolweb.Scorpion
