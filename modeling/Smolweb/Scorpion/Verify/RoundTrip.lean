import Smolweb.Scorpion.Document

/-!
# Scorpion round trips

A block is canonical when reading its tag gives its type and encoding back. What is parsed is
canonical and encodes to the bytes it came from (`encode_of_parse`), and canonical blocks are read
back from their encoding (`parse_of_encode`).
-/

namespace Smolweb.Scorpion

/-! ## The packed tag -/

/-- The types that have a name, and the two values that have none. -/
def BlockType.Canonical : BlockType → Prop
  | .heading level => 1 ≤ level ∧ level ≤ 6
  | .unknown value => value = 0x07 ∨ value = 0x0E
  | _ => True

instance : DecidablePred BlockType.Canonical
  | .heading level => inferInstanceAs (Decidable (1 ≤ level ∧ level ≤ 6))
  | .unknown value => inferInstanceAs (Decidable (value = 0x07 ∨ value = 0x0E))
  | .paragraph | .link | .inputLink | .interactiveLink | .alternateService | .blockquote
  | .preformatted | .metadata => isTrue trivial

/-- The encodings that have a name, and the high nibbles that have none. -/
def Encoding.Canonical : Encoding → Prop
  | .unknown value => value &&& 0x0F = 0 ∧ value ∉ [0x00, 0x10, 0x20, 0x80, 0xA0]
  | _ => True

instance : DecidablePred Encoding.Canonical
  | .unknown value =>
    inferInstanceAs (Decidable (value &&& 0x0F = 0 ∧ value ∉ [0x00, 0x10, 0x20, 0x80, 0xA0]))
  | .tron8 | .pc | .iso2022 | .tron8Rtl | .iso2022Rtl => isTrue trivial

/-- A nibble is read as a canonical type, which is written as that nibble. -/
theorem blockType_fromValue (v : UInt8) : (BlockType.fromValue (v &&& 0x0F)).Canonical ∧
    (BlockType.fromValue (v &&& 0x0F)).value = v &&& 0x0F := by
  revert v
  exact byte_all (by decide +kernel)

theorem encoding_fromValue (v : UInt8) : (Encoding.fromValue (v &&& 0xF0)).Canonical ∧
    (Encoding.fromValue (v &&& 0xF0)).value = v &&& 0xF0 := by
  revert v
  exact byte_all (by decide +kernel)

/-- A canonical type is read back from the nibble it is written as. -/
theorem blockType_value {t : BlockType} (h : t.Canonical) :
    t.value &&& 0x0F = t.value ∧ t.value &&& 0xF0 = 0 ∧ .fromValue t.value = t := by
  cases t with
  | heading level =>
    revert level
    refine byte_all ?_
    decide +kernel
  | unknown value =>
    rcases h with rfl | rfl <;> decide
  | _ => decide

theorem encoding_value {e : Encoding} (h : e.Canonical) :
    e.value &&& 0xF0 = e.value ∧ e.value &&& 0x0F = 0 ∧ .fromValue e.value = e := by
  cases e with
  | unknown value =>
    revert value
    refine byte_all ?_
    decide +kernel
  | _ => decide

theorem nibbles_or (v : UInt8) : (v &&& 0xF0) ||| (v &&& 0x0F) = v := by
  revert v
  exact byte_all (by decide +kernel)

theorem and_or_distrib (a b m : UInt8) : (a ||| b) &&& m = (a &&& m) ||| (b &&& m) := by
  apply UInt8.toBitVec_inj.mp
  simp only [UInt8.toBitVec_and, UInt8.toBitVec_or]
  exact BitVec.and_or_distrib_right

/-! ## One block -/

/-- A block that its encoding can be read back from. -/
structure Block.Canonical (b : Block) : Prop where
  blockType : b.blockType.Canonical
  encoding : b.encoding.Canonical
  attr_le : b.attr.length ≤ 0xFFFF
  body_le : b.body.length ≤ maxBody

/-- A block whose lengths fit their fields. -/
structure Block.Encodable (b : Block) : Prop where
  attr_le : b.attr.length ≤ 0xFFFF
  body_le : b.body.length ≤ maxBody

theorem Block.Canonical.encodable {b : Block} (h : b.Canonical) : b.Encodable :=
  ⟨h.attr_le, h.body_le⟩

def Block.wire (b : Block) : Bytes :=
  [b.tag] ++ BigEndian.toBytes 2 b.attr.length ++ b.attr ++
    BigEndian.toBytes 3 b.body.length ++ b.body

theorem encodeTo_eq_ok {b : Block} {out out' : Bytes} :
    b.encodeTo out = .ok out' ↔ b.Encodable ∧ out' = out ++ b.wire := by
  unfold Block.encodeTo
  by_cases ha : 0xFFFF < b.attr.length
  · rw [if_pos ha]
    constructor
    · intro h
      cases h
    · rintro ⟨⟨hle, -⟩, -⟩
      omega
  by_cases hb : maxBody < b.body.length
  · rw [if_neg ha, if_pos hb]
    constructor
    · intro h
      cases h
    · rintro ⟨⟨-, hle⟩, -⟩
      omega
  rw [if_neg ha, if_neg hb]
  have hlt : b.body.length < 256 ^ 3 := by
    simp only [maxBody] at hb
    omega
  have hmod : b.body.length % 2 ^ 32 = b.body.length := Nat.mod_eq_of_lt (by omega)
  have hdrop : (BigEndian.toBytes 4 (b.body.length % 2 ^ 32)).drop 1 =
      BigEndian.toBytes 3 b.body.length := by
    rw [hmod, BigEndian.toBytes_succ_of_lt hlt]
    rfl
  simp only [hdrop, Except.ok.injEq, Block.wire, List.append_assoc]
  constructor
  · exact fun h => ⟨⟨by omega, by omega⟩, h.symm⟩
  · exact fun h => h.2.symm

theorem read_wire {b : Block} (h : b.Canonical) (rest : Bytes) :
    read (b.wire ++ rest) = .ok (b, rest) := by
  obtain ⟨ht₁, ht₂, ht₃⟩ := blockType_value h.blockType
  obtain ⟨he₁, he₂, he₃⟩ := encoding_value h.encoding
  have hlow : b.tag &&& 0x0F = b.blockType.value := by
    rw [Block.tag, and_or_distrib, he₂, ht₁, UInt8.zero_or]
  have hhigh : b.tag &&& 0xF0 = b.encoding.value := by
    rw [Block.tag, and_or_distrib, he₁, ht₂, UInt8.or_zero]
  have hattr := h.attr_le
  have hbody := h.body_le
  simp only [maxBody] at hbody
  refine read_eq_ok.mpr ⟨b.tag, BigEndian.toBytes 2 b.attr.length,
    BigEndian.toBytes 3 b.body.length, rfl, BigEndian.length_toBytes .., ?_,
    BigEndian.length_toBytes .., ?_, ?_, ?_⟩
  · rw [BigEndian.ofBytes_toBytes (by omega)]
  · rw [BigEndian.ofBytes_toBytes (by omega)]
  · rw [hlow, ht₃]
  · rw [hhigh, he₃]

/-- What is read is a canonical block, from its own bytes. -/
theorem wire_of_read {b : Block} {rest rest' : Bytes} (h : read rest = .ok (b, rest')) :
    b.Canonical ∧ rest = b.wire ++ rest' := by
  obtain ⟨tag, al, bl, rfl, hal, ha, hbl, hbo, htype, henc⟩ := read_eq_ok.mp h
  have hattr := BigEndian.ofBytes_lt al
  have hbody := BigEndian.ofBytes_lt bl
  rw [hal] at hattr
  rw [hbl] at hbody
  obtain ⟨htc, htv⟩ := blockType_fromValue tag
  obtain ⟨hec, hev⟩ := encoding_fromValue tag
  have htag : b.tag = tag := by rw [Block.tag, htype, henc, htv, hev, nibbles_or]
  have hal' : BigEndian.toBytes 2 b.attr.length = al := by
    rw [ha, ← hal, BigEndian.toBytes_ofBytes]
  have hbl' : BigEndian.toBytes 3 b.body.length = bl := by
    rw [hbo, ← hbl, BigEndian.toBytes_ofBytes]
  refine ⟨⟨htype ▸ htc, henc ▸ hec, by omega, by simp only [maxBody]; omega⟩, ?_⟩
  rw [Block.wire, htag, hal', hbl']

/-! ## Whole documents -/

theorem next_eq_none {rest : Bytes} (h : next rest = none) : rest = [] := by
  unfold next at h
  split at h
  · next hempty => exact List.isEmpty_iff.mp hempty
  · split at h <;> cases h

theorem read_of_next {rest rest' : Bytes} {b : Block} (h : next rest = some (.ok b, rest')) :
    read rest = .ok (b, rest') := by
  unfold next at h
  split at h
  · cases h
  · split at h
    · next hr =>
      cases h
      exact hr
    · cases h

theorem next_wire {b : Block} (h : b.Canonical) (rest : Bytes) :
    next (b.wire ++ rest) = some (.ok b, rest) := by
  unfold next
  rw [if_neg (by simp [Block.wire]), read_wire h]

/-- What the reader makes of a document, item by item. -/
theorem collect_eq (rest : Bytes) : collect rest =
    match next rest with
    | none => .ok []
    | some (.error e, _) => .error e
    | some (.ok block, rest') => (collect rest').map (block :: ·) := by
  rw [collect]
  split
  · next h => simp only [h]
  · next h => simp only [h]
  · next block rest' h =>
    simp only [h]
    cases collect rest' <;> rfl

theorem collect_wires {blocks : List Block} (h : ∀ b ∈ blocks, b.Canonical) :
    collect (blocks.flatMap Block.wire) = .ok blocks := by
  induction blocks with
  | nil =>
    rw [collect_eq]
    rfl
  | cons b blocks ih =>
    rw [List.flatMap_cons, collect_eq, next_wire (h b List.mem_cons_self)]
    simp only
    rw [ih fun b' hb' => h b' (List.mem_cons_of_mem _ hb')]
    rfl

theorem wires_of_collect {rest : Bytes} {blocks : List Block} (h : collect rest = .ok blocks) :
    (∀ b ∈ blocks, b.Canonical) ∧ rest = blocks.flatMap Block.wire := by
  induction rest using collect.induct generalizing blocks with
  | case1 rest hn =>
    rw [collect_eq, hn] at h
    cases h
    exact ⟨by simp, next_eq_none hn⟩
  | case2 rest e rest' hn =>
    rw [collect_eq, hn] at h
    cases h
  | case3 rest block rest' hn hlt ih =>
    rw [collect_eq, hn] at h
    simp only at h
    cases hc : collect rest' with
    | error e =>
      rw [hc] at h
      cases h
    | ok blocks' =>
      rw [hc] at h
      cases h
      obtain ⟨hcan, hrest⟩ := ih hc
      obtain ⟨hb, heq⟩ := wire_of_read (read_of_next hn)
      refine ⟨?_, by rw [heq, List.flatMap_cons, hrest]⟩
      intro b' hb'
      rcases List.mem_cons.mp hb' with rfl | hb'
      · exact hb
      · exact hcan b' hb'

theorem foldlM_encodeTo {blocks : List Block} {out bytes : Bytes} :
    blocks.foldlM (fun out block => block.encodeTo out) out = .ok bytes ↔
      (∀ b ∈ blocks, b.Encodable) ∧ bytes = out ++ blocks.flatMap Block.wire := by
  induction blocks generalizing out with
  | nil =>
    simp [pure, Except.pure, eq_comm]
  | cons b blocks ih =>
    rw [List.foldlM_cons, List.forall_mem_cons, List.flatMap_cons, ← List.append_assoc, and_assoc,
      ← ih]
    cases hb : b.encodeTo out with
    | error e =>
      constructor
      · intro h
        cases h
      · rintro ⟨hok, -⟩
        rw [encodeTo_eq_ok.mpr ⟨hok, rfl⟩] at hb
        cases hb
    | ok out' =>
      obtain ⟨hok, rfl⟩ := encodeTo_eq_ok.mp hb
      exact ⟨fun h => ⟨hok, h⟩, fun h => h.2⟩

theorem encode_eq_ok {blocks : List Block} {bytes : Bytes} :
    encode blocks = .ok bytes ↔
      (∀ b ∈ blocks, b.Encodable) ∧ bytes = blocks.flatMap Block.wire :=
  foldlM_encodeTo

theorem encode_eq {blocks : List Block} (h : ∀ b ∈ blocks, b.Canonical) :
    encode blocks = .ok (blocks.flatMap Block.wire) :=
  encode_eq_ok.mpr ⟨fun b hb => (h b hb).encodable, rfl⟩

/-- **The format round-trips both ways**: canonical blocks are parsed from their encoding, and
whatever is parsed encodes to the very bytes it was parsed from. -/
theorem document_roundTrip :
    (∀ blocks : List Block, (∀ b ∈ blocks, b.Canonical) →
      (encode blocks).bind parse = .ok blocks) ∧
      ∀ (bytes : Bytes) (blocks : List Block), parse bytes = .ok blocks →
        encode blocks = .ok bytes := by
  constructor
  · intro blocks h
    rw [encode_eq h]
    exact collect_wires h
  · intro bytes blocks h
    obtain ⟨hcan, hbytes⟩ := wires_of_collect h
    rw [encode_eq hcan, hbytes]

/-- A heading, and a block of a type and an encoding without a name. -/
def sampleBlocks : List Block :=
  [⟨.heading 3, .iso2022Rtl, [115, 51], [72, 105]⟩, ⟨.unknown 0x0E, .unknown 0x70, [], [0]⟩]

theorem document_roundTrip_sample :
    (encode sampleBlocks).bind parse = .ok sampleBlocks ∧
      ∀ bytes, parse bytes = .ok sampleBlocks → encode sampleBlocks = .ok bytes :=
  ⟨document_roundTrip.1 sampleBlocks (by
    intro b hb
    simp only [sampleBlocks, List.mem_cons, List.not_mem_nil, or_false] at hb
    rcases hb with rfl | rfl
    · exact ⟨by decide, by decide, by decide, by decide⟩
    · exact ⟨by decide, by decide, by decide, by decide⟩),
    fun bytes => document_roundTrip.2 bytes sampleBlocks⟩

end Smolweb.Scorpion
