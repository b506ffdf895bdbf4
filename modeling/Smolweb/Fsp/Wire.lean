import Smolweb.Lib.BigEndian
import Smolweb.Lib.Arith

/-!
# FSP packets

The 12-byte header, the checksum and the packet codec of `wire.rs`.
-/

namespace Smolweb.Fsp

def headerLen : Nat := 12

def maxPayload : Nat := 1024

inductive Command where
  | version
  | err
  | getDir
  | getFile
  | upLoad
  | install
  | delFile
  | delDir
  | getPro
  | setPro
  | makeDir
  | bye
  | grabFile
  | grabDone
  | stat
  | rename
  | chPassw
  deriving Repr, DecidableEq

def Command.code : Command → UInt8
  | .version => 0x10
  | .err => 0x40
  | .getDir => 0x41
  | .getFile => 0x42
  | .upLoad => 0x43
  | .install => 0x44
  | .delFile => 0x45
  | .delDir => 0x46
  | .getPro => 0x47
  | .setPro => 0x48
  | .makeDir => 0x49
  | .bye => 0x4A
  | .grabFile => 0x4B
  | .grabDone => 0x4C
  | .stat => 0x4D
  | .rename => 0x4E
  | .chPassw => 0x4F

/-- Which way a packet travels, which changes how it is checksummed. -/
inductive Direction where
  | serverToClient
  | clientToServer
  deriving Repr, DecidableEq

structure Header where
  command : UInt8
  key : UInt16
  sequence : UInt16
  dataLength : UInt16
  filePosition : UInt32
  deriving Repr, DecidableEq

structure Packet where
  header : Header
  data : Bytes
  /-- What follows the payload. -/
  extra : Bytes
  deriving Repr, DecidableEq

inductive DecodeError where
  | tooShort
  | lengthOverrun (claimed available : Nat)
  | badChecksum (expected found : UInt8)
  deriving Repr, DecidableEq

/-- The wrapping sum of a packet's bytes; the one at position 1 counts as zero. -/
def byteSum (packet : Bytes) (direction : Direction) : UInt32 :=
  packet.zipIdx.foldl
    (fun sum entry => if entry.2 ≠ 1 then sum + entry.1.toUInt32 else sum)
    (match direction with
      | .serverToClient => 0
      | .clientToServer => UInt32.ofNat packet.length)

/-- `checksum`. No datagram is long enough for the sum of its bytes to reach the end of a `u32`. -/
def checksum (packet : Bytes) (direction : Direction) : UInt8 :=
  let sum := byteSum packet direction
  (sum + (sum >>> 8)).toUInt8

/-- The packet with the checksum byte at zero. -/
def Packet.unsummed (p : Packet) : Bytes :=
  [p.header.command, 0] ++ BigEndian.toBytes 2 p.header.key.toNat ++
    BigEndian.toBytes 2 p.header.sequence.toNat ++ BigEndian.toBytes 2 p.header.dataLength.toNat ++
    BigEndian.toBytes 4 p.header.filePosition.toNat ++ p.data ++ p.extra

def Packet.summed (p : Packet) (checksum : UInt8) : Bytes := p.unsummed.set 1 checksum

def encode (packet : Packet) (direction : Direction) : Bytes :=
  packet.summed (checksum packet.unsummed direction)

/-- The number in the `width` bytes at an offset. -/
def field (bytes : Bytes) (offset width : Nat) : Nat :=
  BigEndian.ofBytes ((bytes.drop offset).take width)

/-- `decode` once the checksum is computed. -/
def decodeSummed (bytes : Bytes) (expected : UInt8) : Except DecodeError Packet :=
  let found := bytes.getD 1 0
  if found ≠ expected then .error (.badChecksum expected found)
  else
    let header : Header := {
      command := bytes.getD 0 0
      key := UInt16.ofNat (field bytes 2 2)
      sequence := UInt16.ofNat (field bytes 4 2)
      dataLength := UInt16.ofNat (field bytes 6 2)
      filePosition := UInt32.ofNat (field bytes 8 4) }
    let dataLength := header.dataLength.toNat
    let available := bytes.length - headerLen
    if available < dataLength then .error (.lengthOverrun dataLength available)
    else .ok {
      header
      data := (bytes.drop headerLen).take dataLength
      extra := bytes.drop (headerLen + dataLength) }

def decode (bytes : Bytes) (direction : Direction) : Except DecodeError Packet :=
  if bytes.length < headerLen then .error .tooShort
  else decodeSummed bytes (checksum bytes direction)

/-! ## With overflow checks

The bytes are summed with `wrapping_add`, but the fold at the end is a plain `+`: where overflow
checks are compiled in, `checksum` panics on a sum too close to the end of a `u32`, and with it
`encode` and `decode`. -/

def checksumIn (o : Overflow) (packet : Bytes) (direction : Direction) : Option UInt8 :=
  let sum := byteSum packet direction
  (o.add 4294967295 sum.toNat (sum >>> 8).toNat).map UInt8.ofNat

def encodeIn (o : Overflow) (packet : Packet) (direction : Direction) : Option Bytes :=
  (checksumIn o packet.unsummed direction).map packet.summed

def decodeIn (o : Overflow) (bytes : Bytes) (direction : Direction) :
    Option (Except DecodeError Packet) :=
  if bytes.length < headerLen then some (.error .tooShort)
  else (checksumIn o bytes direction).map (decodeSummed bytes)

/-! ## Decoding what was encoded -/

/-- The checksum byte itself does not count. -/
theorem byteSum_set (packet : Bytes) (c : UInt8) (direction : Direction) :
    byteSum (packet.set 1 c) direction = byteSum packet direction := by
  match packet with
  | [] => rfl
  | [a] => rfl
  | a :: b :: rest => simp [byteSum, List.zipIdx_cons]

theorem checksum_set (packet : Bytes) (c : UInt8) (direction : Direction) :
    checksum (packet.set 1 c) direction = checksum packet direction := by
  rw [checksum, byteSum_set, checksum]

theorem byteSum_encode (p : Packet) (direction direction' : Direction) :
    byteSum (encode p direction) direction' = byteSum p.unsummed direction' :=
  byteSum_set ..

theorem length_unsummed (p : Packet) :
    p.unsummed.length = headerLen + p.data.length + p.extra.length := by
  simp [Packet.unsummed, headerLen]
  omega

@[simp] theorem length_encode (p : Packet) (direction : Direction) :
    (encode p direction).length = headerLen + p.data.length + p.extra.length := by
  rw [encode, Packet.summed, List.length_set, length_unsummed]

theorem encode_eq (p : Packet) (direction : Direction) : encode p direction =
    [p.header.command, checksum p.unsummed direction] ++ BigEndian.toBytes 2 p.header.key.toNat ++
      BigEndian.toBytes 2 p.header.sequence.toNat ++
      BigEndian.toBytes 2 p.header.dataLength.toNat ++
      BigEndian.toBytes 4 p.header.filePosition.toNat ++ p.data ++ p.extra := by
  simp [encode, Packet.summed, Packet.unsummed]

theorem field_append {bytes a c : Bytes} {width n : Nat} (hn : n < 256 ^ width)
    (h : bytes = a ++ BigEndian.toBytes width n ++ c) : field bytes a.length width = n := by
  subst h
  rw [field, List.append_assoc, List.drop_left,
    List.take_left' (BigEndian.length_toBytes width n), BigEndian.ofBytes_toBytes hn]

theorem field_encode (p : Packet) (direction : Direction) :
    field (encode p direction) 2 2 = p.header.key.toNat ∧
      field (encode p direction) 4 2 = p.header.sequence.toNat ∧
      field (encode p direction) 6 2 = p.header.dataLength.toNat ∧
      field (encode p direction) 8 4 = p.header.filePosition.toNat := by
  have hk := p.header.key.toNat_lt
  have hs := p.header.sequence.toNat_lt
  have hd := p.header.dataLength.toNat_lt
  have hf := p.header.filePosition.toNat_lt
  have he := encode_eq p direction
  simp only [List.append_assoc] at he
  -- What stands before each field, in turn.
  let start : Bytes := [p.header.command, checksum p.unsummed direction]
  let afterKey := start ++ BigEndian.toBytes 2 p.header.key.toNat
  let afterSequence := afterKey ++ BigEndian.toBytes 2 p.header.sequence.toNat
  let afterLength := afterSequence ++ BigEndian.toBytes 2 p.header.dataLength.toNat
  have h4 : afterKey.length = 4 := by
    simp [afterKey, start, BigEndian.length_toBytes]
  have h6 : afterSequence.length = 6 := by
    simp [afterSequence, h4, BigEndian.length_toBytes]
  have h8 : afterLength.length = 8 := by
    simp [afterLength, h6, BigEndian.length_toBytes]
  refine ⟨?_, ?_, ?_, ?_⟩
  · exact field_append (a := start) (by omega) (by rw [he, List.append_assoc])
  · rw [← h4]
    exact field_append (by omega) (by simp only [he, afterKey, start, List.append_assoc]; rfl)
  · rw [← h6]
    exact field_append (by omega)
      (by simp only [he, afterSequence, afterKey, start, List.append_assoc]; rfl)
  · rw [← h8]
    exact field_append (by omega)
      (by simp only [he, afterLength, afterSequence, afterKey, start, List.append_assoc]; rfl)

/-- **The header survives**: an encoded packet decodes with its own header as long as its data
length does not claim more than follows the header. -/
theorem decode_encode_header {p : Packet} (direction : Direction)
    (h : p.header.dataLength.toNat ≤ p.data.length + p.extra.length) :
    ∃ q, decode (encode p direction) direction = .ok q ∧ q.header = p.header := by
  obtain ⟨hk, hs, hd, hf⟩ := field_encode p direction
  have hsum : checksum (encode p direction) direction = checksum p.unsummed direction :=
    checksum_set ..
  have h0 : (encode p direction).getD 0 0 = p.header.command := by
    rw [encode_eq]
    rfl
  have h1 : (encode p direction).getD 1 0 = checksum p.unsummed direction := by
    rw [encode_eq]
    rfl
  unfold decode decodeSummed
  rw [if_neg (by rw [length_encode]; omega)]
  simp only [hk, hs, hd, hf, hsum, h0, h1, ne_eq, not_true_eq_false, ite_false,
    UInt16.ofNat_toNat, UInt32.ofNat_toNat, length_encode]
  rw [if_neg (by omega)]
  exact ⟨_, rfl, rfl⟩

theorem sequence_of_decode {bytes : Bytes} {direction : Direction} {p : Packet}
    (h : decode bytes direction = .ok p) :
    p.header.sequence = UInt16.ofNat (field bytes 4 2) := by
  unfold decode decodeSummed at h
  split at h
  · cases h
  · simp only at h
    split at h
    · cases h
    · split at h
      · cases h
      · cases h
        rfl

end Smolweb.Fsp
