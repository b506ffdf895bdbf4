import Mathlib.Algebra.GroupWithZero.Nat
import Smolweb.Fsp.Wire

/-!
# Packets round trip

`decode` undoes `encode` (`decode_encode`) and `encode` undoes `decode` (`encode_decode`). With
overflow checks both may panic in `checksum`, on a byte sum of more than `maxSum`; everywhere else
they compute the same as without, so that this is all there is to except (`roundTrip_iff`).
-/

namespace Smolweb.Fsp

/-! ## The sum of the bytes -/

/-- The largest sum whose fold does not overflow: `maxSum + maxSum / 256` is `u32::MAX`. -/
def maxSum : Nat := 0xFF00FF00

/-- What the bytes of a packet add up to, the checksum byte at zero. -/
def Packet.weight (p : Packet) : Direction → Nat
  | .serverToClient => (p.unsummed.map UInt8.toNat).sum
  | .clientToServer => p.unsummed.length + (p.unsummed.map UInt8.toNat).sum

/-- From the third byte on every byte is summed. -/
theorem foldl_zipIdx (bytes : Bytes) {i : Nat} (hi : 1 < i) (start : UInt32) :
    (bytes.zipIdx i).foldl
        (fun sum entry => if entry.2 ≠ 1 then sum + entry.1.toUInt32 else sum) start =
      UInt32.ofNat (start.toNat + (bytes.map UInt8.toNat).sum) := by
  induction bytes generalizing i start with
  | nil => simp
  | cons b bytes ih =>
    have hne : i ≠ 1 := by omega
    have hadd : (start + b.toUInt32).toNat = (start.toNat + b.toNat) % 4294967296 := by
      simp [UInt32.toNat_add]
    rw [List.zipIdx_cons, List.foldl_cons, if_pos hne, ih (by omega), hadd]
    apply UInt32.toNat_inj.mp
    simp only [List.map_cons, List.sum_cons, UInt32.toNat_ofNat']
    omega

/-- Where the sum of a datagram's bytes starts. -/
def Direction.start : Direction → Nat → Nat
  | .serverToClient, _ => 0
  | .clientToServer, length => length

/-- What the bytes of a datagram add up to, the checksum byte at zero. -/
def byteTotal (bytes : Bytes) : Nat := ((bytes.set 1 0).map UInt8.toNat).sum

theorem byteSum_toNat {bytes : Bytes} (h : 1 < bytes.length) (direction : Direction) :
    (byteSum bytes direction).toNat =
      (direction.start bytes.length + byteTotal bytes) % 4294967296 := by
  match bytes, h with
  | a :: b :: rest, _ =>
    have ha := a.toNat_lt
    cases direction with
    | serverToClient =>
      simp only [byteSum, byteTotal, Direction.start, List.zipIdx_cons, List.foldl_cons]
      rw [foldl_zipIdx rest (by decide)]
      simp [UInt32.toNat_ofNat']
    | clientToServer =>
      simp only [byteSum, byteTotal, Direction.start, List.zipIdx_cons, List.foldl_cons]
      rw [foldl_zipIdx rest (by decide)]
      simp [UInt32.toNat_add, UInt32.toNat_ofNat']
      omega

theorem unsummed_set (p : Packet) : p.unsummed.set 1 0 = p.unsummed := by
  simp [Packet.unsummed]

theorem weight_eq (p : Packet) (direction : Direction) :
    p.weight direction = direction.start p.unsummed.length + byteTotal p.unsummed := by
  rw [byteTotal, unsummed_set]
  cases direction with
  | serverToClient => rw [Packet.weight, Direction.start, Nat.zero_add]
  | clientToServer => rfl

theorem byteSum_unsummed (p : Packet) (direction : Direction) :
    (byteSum p.unsummed direction).toNat = p.weight direction % 4294967296 := by
  have hlen : 1 < p.unsummed.length := by
    rw [length_unsummed, headerLen]
    omega
  rw [byteSum_toNat hlen, weight_eq]

/-! ## Where the checks are not met -/

/-- The checksum is the sum folded once, modulo 256. -/
theorem checksum_ofNat (packet : Bytes) (direction : Direction) : checksum packet direction =
    UInt8.ofNat ((byteSum packet direction).toNat + (byteSum packet direction).toNat / 256) := by
  have hshift :
      (byteSum packet direction >>> 8).toNat = (byteSum packet direction).toNat / 256 := by
    simp [UInt32.toNat_shiftRight, Nat.shiftRight_eq_div_pow]
  rw [checksum]
  apply UInt8.toNat_inj.mp
  simp only [UInt32.toNat_toUInt8, UInt32.toNat_add, hshift, UInt8.toNat_ofNat']
  omega

theorem checksumIn_eq (o : Overflow) (packet : Bytes) (direction : Direction) :
    checksumIn o packet direction =
      if o = .wrapping ∨ (byteSum packet direction).toNat ≤ maxSum
      then some (checksum packet direction) else none := by
  have hlt := (byteSum packet direction).toNat_lt
  have hshift :
      (byteSum packet direction >>> 8).toNat = (byteSum packet direction).toNat / 256 := by
    simp [UInt32.toNat_shiftRight, Nat.shiftRight_eq_div_pow]
  have hsum := checksum_ofNat packet direction
  have hmax : maxSum = 4278255360 := rfl
  simp only [checksumIn, hshift, Overflow.add]
  by_cases hfits : (byteSum packet direction).toNat ≤ maxSum
  · rw [if_pos (by omega), if_pos (Or.inr hfits), hsum]
    rfl
  · rw [if_neg (by omega)]
    cases o with
    | checked =>
      rw [if_neg (by simpa using hfits)]
      rfl
    | wrapping =>
      rw [if_pos (Or.inl rfl), hsum]
      simp only [Option.map_some, Option.some.injEq]
      apply UInt8.toNat_inj.mp
      simp only [UInt8.toNat_ofNat']
      omega

theorem encodeIn_eq (o : Overflow) (p : Packet) (direction : Direction) :
    encodeIn o p direction =
      if o = .wrapping ∨ p.weight direction % 4294967296 ≤ maxSum
      then some (encode p direction) else none := by
  rw [encodeIn, checksumIn_eq, byteSum_unsummed]
  split
  · rfl
  · rfl

/-- A packet that decodes where overflow is checked decodes to the same where it is not. -/
theorem decode_of_decodeIn {o : Overflow} {bytes : Bytes} {direction : Direction} {p : Packet}
    (h : decodeIn o bytes direction = some (.ok p)) :
    decode bytes direction = .ok p ∧
      (o = .wrapping ∨ (byteSum bytes direction).toNat ≤ maxSum) := by
  rw [decodeIn, checksumIn_eq] at h
  rw [decode]
  split at h
  · cases h
  · next hlen =>
    split at h
    · next hfits =>
      rw [if_neg hlen]
      exact ⟨Option.some.inj h, hfits⟩
    · cases h

/-! ## Decoding what was encoded -/

theorem drop_encode (p : Packet) (direction : Direction) :
    (encode p direction).drop headerLen = p.data ++ p.extra := by
  obtain ⟨header, hlen, heq⟩ : ∃ header : Bytes, header.length = headerLen ∧
      encode p direction = header ++ (p.data ++ p.extra) := by
    refine ⟨_, ?_, by rw [encode_eq, List.append_assoc _ p.data]⟩
    simp [headerLen]
  rw [heq, ← hlen, List.drop_left]

theorem data_of_decode {bytes : Bytes} {direction : Direction} {p : Packet}
    (h : decode bytes direction = .ok p) :
    p.data = (bytes.drop headerLen).take p.header.dataLength.toNat ∧
      p.extra = (bytes.drop headerLen).drop p.header.dataLength.toNat := by
  rw [decode] at h
  split at h
  · cases h
  · unfold decodeSummed at h
    simp only at h
    split at h
    · cases h
    · split at h
      · cases h
      · cases h
        refine ⟨rfl, ?_⟩
        rw [List.drop_drop]

/-- **`decode` undoes `encode`.** -/
theorem decode_encode {p : Packet} (direction : Direction)
    (h : p.header.dataLength.toNat = p.data.length) :
    decode (encode p direction) direction = .ok p := by
  obtain ⟨q, hq, hheader⟩ := decode_encode_header (p := p) direction (by omega)
  obtain ⟨hdata, hextra⟩ := data_of_decode hq
  rw [drop_encode, hheader, h] at hdata hextra
  rw [List.take_left] at hdata
  rw [List.drop_left] at hextra
  rw [hq]
  cases p
  cases q
  simp only at hheader hdata hextra
  rw [hheader, hdata, hextra]

/-! ## Encoding what was decoded -/

/-- A datagram is its header's fields and what follows them. -/
theorem eq_fields {bytes : Bytes} (h : headerLen ≤ bytes.length) :
    bytes = [bytes.getD 0 0, bytes.getD 1 0] ++ BigEndian.toBytes 2 (field bytes 2 2) ++
      BigEndian.toBytes 2 (field bytes 4 2) ++ BigEndian.toBytes 2 (field bytes 6 2) ++
      BigEndian.toBytes 4 (field bytes 8 4) ++ bytes.drop headerLen := by
  match bytes, h with
  | b0 :: b1 :: b2 :: b3 :: b4 :: b5 :: b6 :: b7 :: b8 :: b9 :: b10 :: b11 :: rest, _ =>
    have key := BigEndian.toBytes_ofBytes [b2, b3]
    have sequence := BigEndian.toBytes_ofBytes [b4, b5]
    have dataLength := BigEndian.toBytes_ofBytes [b6, b7]
    have filePosition := BigEndian.toBytes_ofBytes [b8, b9, b10, b11]
    simp only [List.length_cons, List.length_nil, Nat.zero_add, Nat.reduceAdd] at key sequence
    simp only [List.length_cons, List.length_nil, Nat.zero_add, Nat.reduceAdd] at dataLength
    simp only [List.length_cons, List.length_nil, Nat.zero_add, Nat.reduceAdd] at filePosition
    simp [field, headerLen, key, sequence, dataLength, filePosition]

theorem field_lt (bytes : Bytes) (offset width : Nat) : field bytes offset width < 256 ^ width :=
  Nat.lt_of_lt_of_le (BigEndian.ofBytes_lt _)
    (Nat.pow_le_pow_right (by decide) (List.length_take_le ..))

theorem decode_eq_ok {bytes : Bytes} {direction : Direction} {p : Packet}
    (h : decode bytes direction = .ok p) :
    headerLen ≤ bytes.length ∧ bytes.getD 1 0 = checksum bytes direction ∧
      p.header.command = bytes.getD 0 0 ∧ p.header.key.toNat = field bytes 2 2 ∧
      p.header.sequence.toNat = field bytes 4 2 ∧
      p.header.dataLength.toNat = field bytes 6 2 ∧
      p.header.filePosition.toNat = field bytes 8 4 := by
  have hkey := field_lt bytes 2 2
  have hsequence := field_lt bytes 4 2
  have hlength := field_lt bytes 6 2
  have hposition := field_lt bytes 8 4
  rw [decode] at h
  split at h
  · cases h
  · next hlen =>
    unfold decodeSummed at h
    simp only at h
    split at h
    · cases h
    · next hsum =>
      split at h
      · cases h
      · cases h
        refine ⟨by omega, by simpa using hsum, rfl, ?_, ?_, ?_, ?_⟩
        · exact UInt16.toNat_ofNat_of_lt hkey
        · exact UInt16.toNat_ofNat_of_lt hsequence
        · exact UInt16.toNat_ofNat_of_lt hlength
        · exact UInt32.toNat_ofNat_of_lt hposition

/-- What the decoder took apart, with the checksum byte at zero. -/
theorem unsummed_of_decode {bytes : Bytes} {direction : Direction} {p : Packet}
    (h : decode bytes direction = .ok p) : p.unsummed = bytes.set 1 0 := by
  obtain ⟨hlen, -, hcommand, hkey, hsequence, hlength, hposition⟩ := decode_eq_ok h
  obtain ⟨hdata, hextra⟩ := data_of_decode h
  have hrest : p.data ++ p.extra = bytes.drop headerLen := by
    rw [hdata, hextra, List.take_append_drop]
  conv_rhs => rw [eq_fields hlen]
  simp only [Packet.unsummed, hcommand, hkey, hsequence, hlength, hposition, List.append_assoc,
    hrest]
  rfl

/-- **`encode` undoes `decode`.** -/
theorem encode_decode {bytes : Bytes} {direction : Direction} {p : Packet}
    (h : decode bytes direction = .ok p) : encode p direction = bytes := by
  obtain ⟨hlen, hsum, -⟩ := decode_eq_ok h
  have hlt : 1 < bytes.length := Nat.lt_of_lt_of_le (by decide) hlen
  have hget : bytes.getD 1 0 = bytes[1] := by
    simp [List.getD_eq_getElem?_getD, hlt]
  rw [encode, Packet.summed, unsummed_of_decode h, checksum_set, List.set_set, ← hsum, hget,
    List.set_getElem_self]

/-! ## In either build -/

theorem decodeIn_encode {o : Overflow} {p : Packet} {direction : Direction}
    (hlen : p.header.dataLength.toNat = p.data.length)
    (h : o = .wrapping ∨ p.weight direction % 4294967296 ≤ maxSum) :
    decodeIn o (encode p direction) direction = some (.ok p) := by
  have hdecode := decode_encode direction hlen
  have hshort : ¬ (encode p direction).length < headerLen := by
    rw [length_encode]
    omega
  rw [decode, if_neg hshort] at hdecode
  rw [decodeIn, if_neg hshort, checksumIn_eq, if_pos]
  · rw [Option.map_some, hdecode]
  · rw [byteSum_encode, byteSum_unsummed]
    exact h

theorem encodeIn_of_decodeIn {o : Overflow} {bytes : Bytes} {direction : Direction} {p : Packet}
    (h : decodeIn o bytes direction = some (.ok p)) : encodeIn o p direction = some bytes := by
  obtain ⟨hdecode, hfits⟩ := decode_of_decodeIn h
  rw [encodeIn_eq, encode_decode hdecode, if_pos]
  rw [← byteSum_unsummed, unsummed_of_decode hdecode, byteSum_set]
  exact hfits

/-- A packet comes back from the wire exactly if the build wraps around or the sum of its bytes
can be folded, and a datagram that decodes encodes to itself in every build. -/
theorem roundTrip_iff (o : Overflow) (direction : Direction) :
    (∀ p : Packet, p.header.dataLength.toNat = p.data.length →
      ((encodeIn o p direction).bind (decodeIn o · direction) = some (.ok p) ↔
        o = .wrapping ∨ p.weight direction % 4294967296 ≤ maxSum)) ∧
      ∀ (bytes : Bytes) (p : Packet), decodeIn o bytes direction = some (.ok p) →
        encodeIn o p direction = some bytes := by
  refine ⟨?_, fun _ _ => encodeIn_of_decodeIn⟩
  intro p hlen
  rw [encodeIn_eq]
  constructor
  · intro h
    split at h
    · assumption
    · cases h
  · intro h
    rw [if_pos h, Option.bind_some, decodeIn_encode hlen h]

/-- A directory request with one byte, and what a checked build and a wrapping one make of it. -/
theorem roundTrip_getDir :
    (encodeIn .checked ⟨⟨0x41, 1, 2, 1, 0⟩, [0x2F], [0xFF]⟩ .clientToServer).bind
        (decodeIn .checked · .clientToServer) =
        some (.ok ⟨⟨0x41, 1, 2, 1, 0⟩, [0x2F], [0xFF]⟩) ∧
      encodeIn .wrapping ⟨⟨0x41, 1, 2, 0, 0⟩, [], []⟩ .serverToClient =
        some [0x41, 0x44, 0, 1, 0, 2, 0, 0, 0, 0, 0, 0] :=
  ⟨((roundTrip_iff .checked .clientToServer).1 ⟨⟨0x41, 1, 2, 1, 0⟩, [0x2F], [0xFF]⟩ rfl).mpr
      (Or.inr (by decide)),
    (roundTrip_iff .wrapping .serverToClient).2 [0x41, 0x44, 0, 1, 0, 2, 0, 0, 0, 0, 0, 0]
      ⟨⟨0x41, 1, 2, 0, 0⟩, [], []⟩ (by decide)⟩

/-- 16843009 bytes of extra data, each of them 255. -/
def overlong : Packet where
  header := ⟨0, 0, 0, 0, 0⟩
  data := []
  extra := List.replicate 16843009 0xFF

/-- The weight of a packet whose header is zero and which has no data. -/
theorem weight_extra (extra : Bytes) :
    Packet.weight ⟨⟨0, 0, 0, 0, 0⟩, [], extra⟩ .serverToClient =
      (extra.map UInt8.toNat).sum := by
  have hheader : (([0, 0] ++ BigEndian.toBytes 2 0 ++ BigEndian.toBytes 2 0 ++
      BigEndian.toBytes 2 0 ++ BigEndian.toBytes 4 0 : Bytes).map UInt8.toNat).sum = 0 := by
    decide
  rw [Packet.weight, Packet.unsummed, List.map_append, List.sum_append_nat]
  exact (congrArg (· + (extra.map UInt8.toNat).sum) hheader).trans (Nat.zero_add _)

theorem weight_filled (n : Nat) :
    Packet.weight ⟨⟨0, 0, 0, 0, 0⟩, [], List.replicate n 0xFF⟩ .serverToClient = n * 255 := by
  rw [weight_extra, List.map_replicate, List.sum_replicate_nat]
  rfl

theorem weight_overlong : overlong.weight .serverToClient = 4294967295 :=
  weight_filled 16843009

/-- A checked build panics on `overlong`. -/
theorem roundTrip_overlong :
    ¬ ∀ (o : Overflow) (direction : Direction),
      (∀ p : Packet, p.header.dataLength.toNat = p.data.length →
        (encodeIn o p direction).bind (decodeIn o · direction) = some (.ok p)) ∧
      ∀ (bytes : Bytes) (p : Packet), decodeIn o bytes direction = some (.ok p) →
        encodeIn o p direction = some bytes := by
  intro h
  have hpanic : encodeIn .checked overlong .serverToClient = none := by
    rw [encodeIn_eq, weight_overlong]
    rfl
  have hround := (h .checked .serverToClient).1 overlong rfl
  rw [hpanic] at hround
  cases hround

end Smolweb.Fsp
