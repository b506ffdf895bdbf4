import Smolweb.Lib.BigEndian

/-!
# Scorpion documents

The block format of `document.rs`: a tag that packs the block type in its low nibble and the
encoding in its high one, an attribute with a 16-bit length and a body with a 24-bit length.
-/

namespace Smolweb.Scorpion

inductive BlockType where
  | paragraph
  | heading (level : UInt8)
  | link
  | inputLink
  | interactiveLink
  | alternateService
  | blockquote
  | preformatted
  | metadata
  | unknown (value : UInt8)
  deriving Repr, DecidableEq

namespace BlockType

/-- `BlockType::value`: the low nibble a type is written as. -/
def value : BlockType → UInt8
  | .paragraph => 0x00
  | .heading level => max 1 (min level 6)
  | .link => 0x08
  | .inputLink => 0x09
  | .interactiveLink => 0x0A
  | .alternateService => 0x0B
  | .blockquote => 0x0C
  | .preformatted => 0x0D
  | .metadata => 0x0F
  | .unknown value => value &&& 0x0F

def fromValue (value : UInt8) : BlockType :=
  match value with
  | 0x00 => .paragraph
  | 0x01 | 0x02 | 0x03 | 0x04 | 0x05 | 0x06 => .heading value
  | 0x08 => .link
  | 0x09 => .inputLink
  | 0x0A => .interactiveLink
  | 0x0B => .alternateService
  | 0x0C => .blockquote
  | 0x0D => .preformatted
  | 0x0F => .metadata
  | other => .unknown other

end BlockType

/-- The character encoding of a block's text, and its direction. -/
inductive Encoding where
  | tron8
  | pc
  | iso2022
  | tron8Rtl
  | iso2022Rtl
  | unknown (value : UInt8)
  deriving Repr, DecidableEq

namespace Encoding

/-- `Encoding::value`: the high nibble an encoding is written as. -/
def value : Encoding → UInt8
  | .tron8 => 0x00
  | .pc => 0x10
  | .iso2022 => 0x20
  | .tron8Rtl => 0x80
  | .iso2022Rtl => 0xA0
  | .unknown value => value &&& 0xF0

def fromValue (value : UInt8) : Encoding :=
  match value with
  | 0x00 => .tron8
  | 0x10 => .pc
  | 0x20 => .iso2022
  | 0x80 => .tron8Rtl
  | 0xA0 => .iso2022Rtl
  | other => .unknown other

end Encoding

structure Block where
  blockType : BlockType
  encoding : Encoding
  /-- The attribute: a URL for links, a fragment for headings. -/
  attr : Bytes
  body : Bytes
  deriving Repr, DecidableEq

/-- `MAX_BODY`: the largest body a block can declare. -/
def maxBody : Nat := 0xFFFFFF

inductive DocumentError where
  | truncated
  | attributeTooLong
  | bodyTooLong
  deriving Repr, DecidableEq

namespace Block

def tag (b : Block) : UInt8 := b.encoding.value ||| b.blockType.value

/-- `Block::encode_to`: the block's bytes after `out`. -/
def encodeTo (b : Block) (out : Bytes) : Except DocumentError Bytes :=
  if 0xFFFF < b.attr.length then .error .attributeTooLong
  else if maxBody < b.body.length then .error .bodyTooLong
  else
    -- the low three bytes of the `u32`
    let bodyLen := (BigEndian.toBytes 4 (b.body.length % 2 ^ 32)).drop 1
    .ok (out ++ [b.tag] ++ BigEndian.toBytes 2 b.attr.length ++ b.attr ++ bodyLen ++
      b.body)

end Block

def encode (blocks : List Block) : Except DocumentError Bytes :=
  blocks.foldlM (fun out block => block.encodeTo out) []

/-- A step of the reader over the bytes that are left. A step that fails leaves none. -/
abbrev Reader := StateT Bytes (Except DocumentError)

def take (count : Nat) : Reader Bytes := fun rest =>
  if rest.length < count then .error .truncated else .ok (rest.take count, rest.drop count)

def read : Reader Block := do
  let tag := (← take 1).headD 0
  let attributeLen := BigEndian.ofBytes (← take 2)
  let attr ← take attributeLen
  -- 24 bits, widened through a zero high byte
  let bodyLen := BigEndian.ofBytes (0 :: (← take 3))
  let body ← take bodyLen
  return {
    blockType := .fromValue (tag &&& 0x0F)
    encoding := .fromValue (tag &&& 0xF0)
    attr
    body }

/-- `Blocks::next`: the next item, and the bytes left after it. -/
def next (rest : Bytes) : Option (Except DocumentError Block × Bytes) :=
  if rest.isEmpty then none
  else match read rest with
    | .ok (block, rest') => some (.ok block, rest')
    | .error e => some (.error e, [])

/-! ## Reading from the front -/

theorem bind_eq_ok {α β : Type} {x : Reader α} {f : α → Reader β} {rest rest'' : Bytes} {r : β} :
    (x >>= f) rest = .ok (r, rest'') ↔
      ∃ a rest', x rest = .ok (a, rest') ∧ f a rest' = .ok (r, rest'') := by
  change (x rest >>= fun p => f p.1 p.2) = _ ↔ _
  cases x rest with
  | error e => simp [bind, Except.bind]
  | ok p =>
    constructor
    · exact fun h => ⟨p.1, p.2, rfl, h⟩
    · rintro ⟨a, rest', hp, h⟩
      cases hp
      exact h

theorem take_eq_ok {count : Nat} {rest rest' a : Bytes} :
    take count rest = .ok (a, rest') ↔ rest = a ++ rest' ∧ a.length = count := by
  unfold take
  constructor
  · intro h
    split at h
    · cases h
    · cases h
      exact ⟨(List.take_append_drop count rest).symm, by rw [List.length_take]; omega⟩
  · rintro ⟨rfl, rfl⟩
    rw [if_neg (by rw [List.length_append]; omega), List.take_left, List.drop_left]

/-- What `read` takes: the fields of a block, in order. -/
theorem read_eq_ok {rest rest' : Bytes} {b : Block} :
    read rest = .ok (b, rest') ↔ ∃ tag attributeLen bodyLen,
      rest = [tag] ++ attributeLen ++ b.attr ++ bodyLen ++ b.body ++ rest' ∧
        attributeLen.length = 2 ∧ b.attr.length = BigEndian.ofBytes attributeLen ∧
        bodyLen.length = 3 ∧ b.body.length = BigEndian.ofBytes bodyLen ∧
        b.blockType = .fromValue (tag &&& 0x0F) ∧ b.encoding = .fromValue (tag &&& 0xF0) := by
  unfold read
  simp only [bind_eq_ok, take_eq_ok, BigEndian.ofBytes_zero_cons]
  constructor
  · rintro ⟨t, r₁, ⟨rfl, ht⟩, al, r₂, ⟨rfl, hal⟩, a, r₃, ⟨rfl, ha⟩, bl, r₄, ⟨rfl, hbl⟩, bo, r₅,
      ⟨rfl, hbo⟩, h⟩
    cases h
    obtain ⟨tag, rfl⟩ := List.length_eq_one_iff.mp ht
    exact ⟨tag, al, bl, by simp, hal, ha, hbl, hbo, rfl, rfl⟩
  · rintro ⟨tag, al, bl, rfl, hal, ha, hbl, hbo, htype, henc⟩
    refine ⟨[tag], al ++ (b.attr ++ (bl ++ (b.body ++ rest'))), ⟨by simp, rfl⟩, al, _,
      ⟨rfl, hal⟩, b.attr, _, ⟨rfl, ha⟩, bl, _, ⟨rfl, hbl⟩, b.body, _, ⟨rfl, hbo⟩, ?_⟩
    obtain ⟨bt, en, at', bo⟩ := b
    simp only at htype henc
    rw [htype, henc]
    rfl

theorem next_lt {rest rest' : Bytes} {item : Except DocumentError Block}
    (h : next rest = some (item, rest')) : rest'.length < rest.length := by
  unfold next at h
  split at h
  · cases h
  · next hne =>
    split at h
    · next block r hread =>
      cases h
      obtain ⟨tag, al, bl, rfl, -⟩ := read_eq_ok.mp hread
      simp only [List.length_append, List.length_singleton]
      omega
    · cases h
      have : rest ≠ [] := by simpa using hne
      exact List.length_pos_iff.mpr this

/-- `Blocks::collect`, which stops at the first error. -/
def collect (rest : Bytes) : Except DocumentError (List Block) :=
  match h : next rest with
  | none => .ok []
  | some (.error e, _) => .error e
  | some (.ok block, rest') => do
    have := next_lt h
    let blocks ← collect rest'
    return block :: blocks
termination_by rest.length

def parse (bytes : Bytes) : Except DocumentError (List Block) := collect bytes

end Smolweb.Scorpion
