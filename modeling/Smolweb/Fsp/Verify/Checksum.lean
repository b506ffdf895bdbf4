import Mathlib.Data.List.GetD
import Smolweb.Fsp.Verify.RoundTrip

/-!
# What the checksum tells apart

The checksum folds the sum of a datagram's bytes, `w + w / 256` modulo 256. A single byte changed
by less than 255 changes it (`fold_ne`), so the datagram is refused unless the build panics on the
new sum (`decode_changed_iff`). The two directions start the sum a packet's length apart, and
`fold_start_eq_iff` says when the fold makes that difference vanish.
-/

namespace Smolweb.Fsp

/-! ## The fold -/

section Fold

/-- The fold does not see a `u32` wrap around. -/
theorem fold_mod (w : Nat) :
    (w % 4294967296 + w % 4294967296 / 256) % 256 = (w + w / 256) % 256 := by
  omega

/-- A difference of less than 255 shows: the carry changes by one at most. -/
theorem fold_ne {w w' b b' : Nat} (hb : b < 256) (hb' : b' < 256) (hw : w' + b = w + b')
    (hne : b ≠ b') (hpair : ¬ (b = 0 ∧ b' = 255 ∨ b = 255 ∧ b' = 0)) :
    (w + w / 256) % 256 ≠ (w' + w' / 256) % 256 := by
  have hcarry : w' / 256 = w / 256 ∨ w' / 256 = w / 256 + 1 ∨ w' / 256 + 1 = w / 256 := by omega
  omega

theorem fold_start_eq_iff (start w : Nat) :
    (start + w + (start + w) / 256) % 256 = (w + w / 256) % 256 ↔
      (start + (w % 256 + start) / 256) % 256 = 0 := by
  omega

end Fold

theorem checksum_toNat {bytes : Bytes} (h : 1 < bytes.length) (direction : Direction) :
    (checksum bytes direction).toNat =
      (direction.start bytes.length + byteTotal bytes +
        (direction.start bytes.length + byteTotal bytes) / 256) % 256 := by
  rw [checksum_ofNat, UInt8.toNat_ofNat', byteSum_toNat h]
  exact fold_mod _

theorem one_lt_length (p : Packet) : 1 < p.unsummed.length := by
  rw [length_unsummed, headerLen]
  omega

/-- The byte at position 1 of an encoded packet is its checksum. -/
theorem getD_encode_one (p : Packet) (direction : Direction) :
    (encode p direction).getD 1 0 = checksum p.unsummed direction := by
  rw [encode_eq]
  rfl

theorem checksum_encode (p : Packet) (direction direction' : Direction) :
    checksum (encode p direction) direction' = checksum p.unsummed direction' :=
  checksum_set ..

theorem byteTotal_set_one (bytes : Bytes) (c : UInt8) :
    byteTotal (bytes.set 1 c) = byteTotal bytes := by
  rw [byteTotal, List.set_set, byteTotal]

/-! ## One byte changed -/

theorem sum_set (l : List Nat) {i : Nat} (h : i < l.length) (b : Nat) :
    (l.set i b).sum + l[i] = l.sum + b := by
  induction l generalizing i with
  | nil => cases h
  | cons a l ih =>
    cases i with
    | zero =>
      simp only [List.set_cons_zero, List.sum_cons, List.getElem_cons_zero]
      omega
    | succ i =>
      have hrest := ih (Nat.lt_of_succ_lt_succ h)
      simp only [List.set_cons_succ, List.sum_cons, List.getElem_cons_succ]
      omega

theorem byteTotal_set {bytes : Bytes} {i : Nat} (h : i < bytes.length) (hi : i ≠ 1) (b : UInt8) :
    byteTotal (bytes.set i b) + bytes[i].toNat = byteTotal bytes + b.toNat := by
  have hlen : i < ((bytes.set 1 0).map UInt8.toNat).length := by simpa using h
  have hsum := sum_set ((bytes.set 1 0).map UInt8.toNat) hlen b.toNat
  rw [List.getElem_map, List.getElem_set_of_ne (Ne.symm hi)] at hsum
  rw [byteTotal, List.set_comm _ _ hi, List.map_set]
  exact hsum

section Changed

variable {o : Overflow} {p : Packet} {direction : Direction} {bytes : Bytes} {i : Nat} {b : UInt8}

/-- What decoding a datagram comes to, its checksum apart. -/
theorem decodeIn_badChecksum_iff (hlen : headerLen ≤ bytes.length) :
    (∃ expected found,
        decodeIn o bytes direction = some (.error (.badChecksum expected found))) ↔
      (o = .wrapping ∨ (byteSum bytes direction).toNat ≤ maxSum) ∧
        bytes.getD 1 0 ≠ checksum bytes direction := by
  rw [decodeIn, if_neg (Nat.not_lt.mpr hlen), checksumIn_eq]
  split
  · next hfits =>
    rw [Option.map_some, and_iff_right hfits]
    unfold decodeSummed
    simp only
    split
    · next hne => exact iff_of_true ⟨_, _, rfl⟩ hne
    · next heq =>
      refine iff_of_false ?_ heq
      split <;> simp
  · next hpanic => exact iff_of_false (by simp) fun h => hpanic h.1

/-- With the checksum byte changed, what is found is not what is expected. -/
theorem decode_checksum_changed (hfits : o = .wrapping ∨ p.weight direction % 4294967296 ≤ maxSum)
    (hne : b ≠ checksum p.unsummed direction) :
    (o = .wrapping ∨ (byteSum ((encode p direction).set 1 b) direction).toNat ≤ maxSum) ∧
      ((encode p direction).set 1 b).getD 1 0 ≠
        checksum ((encode p direction).set 1 b) direction := by
  have hone : 1 < ((encode p direction).set 1 b).length := by
    rw [List.length_set, length_encode, ← length_unsummed]
    exact one_lt_length p
  rw [byteSum_set, byteSum_encode, byteSum_unsummed]
  refine ⟨hfits, ?_⟩
  rw [List.getD_eq_getElem _ _ hone, List.getElem_set_self, checksum_set,
    checksum_encode]
  exact hne

/-- With another byte changed, the sum changes by the difference, which the fold shows. -/
theorem decode_byte_changed (hi : i < (encode p direction).length) (hat : i ≠ 1)
    (hne : b ≠ (encode p direction)[i])
    (hpair : ¬ ((encode p direction)[i] = 0 ∧ b = 255 ∨ (encode p direction)[i] = 255 ∧ b = 0)) :
    (byteSum ((encode p direction).set i b) direction).toNat =
        (p.weight direction + b.toNat - (encode p direction)[i].toNat) % 4294967296 ∧
      ((encode p direction).set i b).getD 1 0 ≠
        checksum ((encode p direction).set i b) direction := by
  have hone : 1 < ((encode p direction).set i b).length := by
    rw [List.length_set, length_encode, ← length_unsummed]
    exact one_lt_length p
  have htotal := byteTotal_set hi hat b
  rw [show byteTotal (encode p direction) = byteTotal p.unsummed from byteTotal_set_one _ _]
    at htotal
  have hstart : direction.start ((encode p direction).set i b).length =
      direction.start p.unsummed.length := by
    rw [List.length_set, length_encode, ← length_unsummed]
  constructor
  · rw [byteSum_toNat hone, hstart, weight_eq]
    omega
  · rw [List.getD_eq_getElem?_getD, List.getElem?_set_ne hat, ← List.getD_eq_getElem?_getD,
      getD_encode_one]
    intro heq
    have hfold := congrArg UInt8.toNat heq
    rw [checksum_toNat (one_lt_length p), checksum_toNat hone, hstart] at hfold
    refine fold_ne (encode p direction)[i].toNat_lt b.toNat_lt ?_ ?_ ?_ hfold
    · omega
    · intro h
      exact hne (UInt8.toNat_inj.mp h).symm
    · rintro (⟨h1, h2⟩ | ⟨h1, h2⟩)
      · exact hpair (Or.inl ⟨UInt8.toNat_inj.mp h1, UInt8.toNat_inj.mp h2⟩)
      · exact hpair (Or.inr ⟨UInt8.toNat_inj.mp h1, UInt8.toNat_inj.mp h2⟩)

/-- **One byte changed**, other than between 0 and 255 beside the checksum byte: the datagram is
refused for its checksum, unless the build panics on the sum that the change leads to. -/
theorem decode_changed_iff (hencode : encodeIn o p direction = some bytes) (hi : i < bytes.length)
    (hne : b ≠ bytes[i])
    (hpair : ¬ (i ≠ 1 ∧ (bytes[i] = 0 ∧ b = 255 ∨ bytes[i] = 255 ∧ b = 0))) :
    (∃ expected found, decodeIn o (bytes.set i b) direction =
        some (.error (.badChecksum expected found))) ↔
      o = .wrapping ∨ i = 1 ∨
        (p.weight direction + b.toNat - bytes[i].toNat) % 4294967296 ≤ maxSum := by
  rw [encodeIn_eq] at hencode
  split at hencode
  · next hfits =>
    cases hencode
    have hlen : headerLen ≤ ((encode p direction).set i b).length := by
      rw [List.length_set, length_encode]
      omega
    rw [decodeIn_badChecksum_iff hlen]
    by_cases hat : i = 1
    · subst hat
      have hchecksum : (encode p direction)[1] = checksum p.unsummed direction := by
        rw [← getD_encode_one, List.getD_eq_getElem _ _ hi]
      exact iff_of_true (decode_checksum_changed hfits (hchecksum ▸ hne)) (Or.inr (Or.inl rfl))
    · obtain ⟨hsum, hrefused⟩ := decode_byte_changed hi hat hne fun h => hpair ⟨hat, h⟩
      rw [hsum, and_iff_left hrefused, or_iff_right hat]
  · cases hencode

end Changed

theorem decode_changed_getDir : ∃ expected found,
    decodeIn .checked [0x42, 0x44, 0, 1, 0, 2, 0, 0, 0, 0, 0, 0] .serverToClient =
      some (.error (.badChecksum expected found)) :=
  (@decode_changed_iff .checked ⟨⟨0x41, 1, 2, 0, 0⟩, [], []⟩ .serverToClient
    [0x41, 0x44, 0, 1, 0, 2, 0, 0, 0, 0, 0, 0] 0 0x42 (by decide) (by decide) (by decide)
    (by decide)).mpr (Or.inr (Or.inr (by decide)))

/-- The sum of 16777472 bytes of 255 can just be folded. -/
def brimming : Packet where
  header := ⟨0, 0, 0, 0, 0⟩
  data := []
  extra := List.replicate 16777472 0xFF

/-- With its first byte changed from 0 to 1, a checked build panics on `brimming`. -/
theorem decode_changed_brimming : ∃ bytes,
    encodeIn .checked brimming .serverToClient = some bytes ∧ bytes[0]? = some 0 ∧
      decodeIn .checked (bytes.set 0 1) .serverToClient = none := by
  have hweight : brimming.weight .serverToClient = maxSum := weight_filled 16777472
  have hlen := length_encode brimming .serverToClient
  have hfirst : (encode brimming .serverToClient)[0]? = some 0 := by
    rw [encode_eq]
    rfl
  have hlt : 0 < (encode brimming .serverToClient).length := by
    rw [hlen, headerLen]
    omega
  have hget : (encode brimming .serverToClient)[0] = 0 := by
    rw [List.getElem?_eq_getElem hlt, Option.some.injEq] at hfirst
    exact hfirst
  obtain ⟨hsum, -⟩ := decode_byte_changed (b := 1) hlt (by decide) (by rw [hget]; decide)
    (by rw [hget]; decide)
  refine ⟨encode brimming .serverToClient, ?_, hfirst, ?_⟩
  · rw [encodeIn_eq, hweight]
    rfl
  · rw [hweight, hget] at hsum
    rw [decodeIn, if_neg (by rw [List.length_set, hlen]; omega), checksumIn_eq, hsum]
    rfl

/-! ## The other direction -/

def Direction.other : Direction → Direction
  | .serverToClient => .clientToServer
  | .clientToServer => .serverToClient

/-- The two checksums of a packet agree exactly when the packet's length and the carry that it
brings make a multiple of 256. -/
theorem checksum_other_iff (p : Packet) (direction : Direction) :
    checksum p.unsummed direction = checksum p.unsummed direction.other ↔
      (p.unsummed.length +
        (p.weight .serverToClient % 256 + p.unsummed.length) / 256) % 256 = 0 := by
  have hweight : p.weight .serverToClient = byteTotal p.unsummed := by
    rw [weight_eq, Direction.start, Nat.zero_add]
  rw [hweight, ← fold_start_eq_iff, ← UInt8.toNat_inj, checksum_toNat (one_lt_length p),
    checksum_toNat (one_lt_length p)]
  cases direction with
  | serverToClient =>
    simp only [Direction.other, Direction.start, Nat.zero_add]
    exact eq_comm
  | clientToServer => simp only [Direction.other, Direction.start, Nat.zero_add]

/-- **The other direction** refuses a packet for its checksum, unless the packet's length and the
carry that it brings make a multiple of 256. -/
theorem decode_other_iff {o : Overflow} {p : Packet}
    (hfits : o = .wrapping ∨ ∀ direction, p.weight direction % 4294967296 ≤ maxSum)
    (direction : Direction) :
    ∃ bytes, encodeIn o p direction = some bytes ∧
      ((∃ expected found, decodeIn o bytes direction.other =
          some (.error (.badChecksum expected found))) ↔
        (headerLen + p.data.length + p.extra.length +
          (p.weight .serverToClient % 256 +
            (headerLen + p.data.length + p.extra.length)) / 256) % 256 ≠ 0) := by
  have hfits' : ∀ d, o = .wrapping ∨ p.weight d % 4294967296 ≤ maxSum :=
    fun d => hfits.imp_right fun h => h d
  refine ⟨encode p direction, by rw [encodeIn_eq, if_pos (hfits' direction)], ?_⟩
  have hlen : headerLen ≤ (encode p direction).length := by
    rw [length_encode]
    omega
  rw [decodeIn_badChecksum_iff hlen, getD_encode_one, checksum_encode, ← length_unsummed,
    ne_eq, checksum_other_iff, byteSum_encode, byteSum_unsummed,
    and_iff_right (hfits' direction.other)]

theorem decode_other_getDir : ∃ bytes,
    encodeIn .checked ⟨⟨0x41, 1, 2, 4, 0⟩, [0x2F, 0x70, 0x75, 0x62], []⟩ .clientToServer =
      some bytes ∧
    ((∃ expected found, decodeIn .checked bytes .serverToClient =
        some (.error (.badChecksum expected found))) ↔
      (16 + (Packet.weight ⟨⟨0x41, 1, 2, 4, 0⟩, [0x2F, 0x70, 0x75, 0x62], []⟩
        .serverToClient % 256 + 16) / 256) % 256 ≠ 0) :=
  decode_other_iff (Or.inr fun d => by cases d <;> decide) .clientToServer

/-- A packet of 255 bytes that add up to 244. -/
def alike : Packet where
  header := ⟨1, 0, 0, 243, 0⟩
  data := List.replicate 243 0
  extra := []

theorem weight_of_data (data : Bytes) :
    Packet.weight ⟨⟨1, 0, 0, 243, 0⟩, data, []⟩ .serverToClient =
      244 + (data.map UInt8.toNat).sum := by
  have hheader : (([1, 0] ++ BigEndian.toBytes 2 0 ++ BigEndian.toBytes 2 0 ++
      BigEndian.toBytes 2 243 ++ BigEndian.toBytes 4 0 : Bytes).map UInt8.toNat).sum = 244 := by
    decide
  rw [Packet.weight, Packet.unsummed, List.append_nil, List.map_append, List.sum_append_nat]
  exact congrArg (· + (data.map UInt8.toNat).sum) hheader

theorem weight_alike : alike.weight .serverToClient = 244 := by
  rw [alike, weight_of_data, List.map_replicate, List.sum_replicate_nat]
  rfl

theorem length_alike : alike.unsummed.length = 255 := by
  rw [length_unsummed, alike, List.length_replicate]
  rfl

/-- What a client sends can decode as a server's answer. -/
theorem decode_other_alike : ∃ bytes, encodeIn .checked alike .clientToServer = some bytes ∧
    decodeIn .checked bytes .serverToClient = some (.ok alike) := by
  have hsent : alike.weight .clientToServer = 499 := by
    have htotal := weight_eq alike .serverToClient
    rw [weight_alike, Direction.start, Nat.zero_add] at htotal
    rw [weight_eq, Direction.start, length_alike, ← htotal]
  have hchecksum := (checksum_other_iff alike .clientToServer).mpr
    (by rw [weight_alike, length_alike])
  have hsame : encode alike .clientToServer = encode alike .serverToClient := by
    rw [encode, encode, hchecksum, Direction.other]
  refine ⟨encode alike .clientToServer, ?_, ?_⟩
  · rw [encodeIn_eq, hsent]
    exact if_pos (Or.inr (by decide))
  · rw [hsame, decodeIn_encode]
    · rw [alike, List.length_replicate]
      rfl
    · rw [weight_alike]
      exact Or.inr (by decide)

end Smolweb.Fsp
