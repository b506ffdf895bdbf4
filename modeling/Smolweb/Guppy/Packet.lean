import Smolweb.Lib.Crlf
import Smolweb.Lib.Decimal

/-!
# Guppy packets

The wire forms `<header>\r\n[<data>]` of `packet.rs` and the response a client ends with. Special
packets have the literal single digit `1`, `3` or `4` as their first token; a success packet has
a sequence number and a MIME type there, a continuation a bare sequence number.
-/

namespace Smolweb.Guppy

def maxRequestBytes : Nat := 2048

/-- `MAX_SEQ`: the largest sequence number. -/
def maxSeq : Nat := 2147483647

/-- `MIN_SEQ`: the smallest number a first packet may carry. -/
def minSeq : Nat := 6

inductive GuppyResponse where
  | success (mime : Text) (body : Bytes)
  | prompt (text : Text)
  | redirect (target : Text)
  | error (message : Text)
  deriving Repr, DecidableEq

inductive Packet where
  | first (seq : Nat) (mime : Text) (data : Bytes)
  | continuation (seq : Nat) (data : Bytes)
  | prompt (text : Text)
  | redirect (target : Text)
  | error (message : Text)
  deriving Repr, DecidableEq

/-- Why a datagram is no packet; the numbers and headers quoted in the messages are carried. -/
inductive PacketError where
  /-- `packet has no CRLF` -/
  | noCrlf
  /-- `packet header is not UTF-8` -/
  | notUtf8
  /-- `bad sequence number: {seq:?}` -/
  | badSequenceNumber (seq : Text)
  /-- `first packet has an empty MIME type` -/
  | emptyMime
  /-- `bad packet header: {header:?}` -/
  | badHeader (header : Text)
  deriving Repr, DecidableEq

/-- The header's meaning, once the datagram is split at its first CRLF. -/
def parseHeader (header : Text) (data : Bytes) : Except PacketError Packet :=
  match Text.splitOnce ' ' header with
  | some (['1'], rest) => .ok (.prompt (Text.trim rest))
  | some (['3'], rest) => .ok (.redirect (Text.trim rest))
  | some (['4'], rest) => .ok (.error (Text.trim rest))
  | some (seq, mime) =>
    match Text.parseUnsigned maxU32 seq with
    | none => .error (.badSequenceNumber seq)
    | some n =>
      if (Text.trim mime).isEmpty then .error .emptyMime
      else .ok (.first n (Text.trim mime) data)
  | none =>
    match Text.parseUnsigned maxU32 (Text.trim header) with
    | none => .error (.badHeader header)
    | some n => .ok (.continuation n data)

def parsePacket (datagram : Bytes) : Except PacketError Packet :=
  match crlfPosition datagram with
  | none => .error .noCrlf
  | some split =>
    match Utf8.decode (datagram.take split) with
    | none => .error .notUtf8
    | some header => parseHeader header (datagram.drop (split + 2))

def encodeFirst (seq : Nat) (mime : Text) (data : Bytes) : Bytes :=
  Utf8.encode (Text.decimal seq ++ ' ' :: mime ++ ['\r', '\n']) ++ data

/-- `encode_continuation`; empty data encodes the end-of-file packet. -/
def encodeContinuation (seq : Nat) (data : Bytes) : Bytes :=
  Utf8.encode (Text.decimal seq ++ ['\r', '\n']) ++ data

def encodeAck (seq : Nat) : Bytes := Utf8.encode (Text.decimal seq ++ ['\r', '\n'])

/-- A client-to-server datagram: an acknowledgement, or a request's URL line. -/
inductive ClientDatagram where
  | ack (seq : Nat)
  | request (line : Text)
  deriving Repr, DecidableEq

def parseClientDatagram (datagram : Bytes) : Except PacketError ClientDatagram :=
  match crlfPosition datagram with
  | none => .error .noCrlf
  | some split =>
    match Utf8.decode (datagram.take split) with
    | none => .error .notUtf8
    | some line =>
      if datagram.length = split + 2 then
        match Text.parseUnsigned maxU32 (Text.trim line) with
        | some seq => .ok (.ack seq)
        | none => .ok (.request line)
      else .ok (.request line)

/-! ## Splitting a datagram -/

/-- A datagram whose header line is `header` parses as that header and the data after it. -/
theorem parsePacket_line {header : Text} (h : header.CrlfFree) (data : Bytes) :
    parsePacket (Utf8.encode (header ++ ['\r', '\n']) ++ data) = parseHeader header data := by
  have hbytes : Utf8.encode (header ++ ['\r', '\n']) ++ data =
      Utf8.encode header ++ crlf ++ data := by
    rw [Utf8.encode_append, encode_crlf]
  have hdrop : (Utf8.encode header ++ crlf ++ data).drop ((Utf8.encode header).length + 2) =
      data := by
    rw [List.drop_left' (by simp [crlf])]
  rw [hbytes, parsePacket, crlfPosition_encode h]
  simp only [List.append_assoc, List.take_left, Utf8.decode_encode]
  rw [← List.append_assoc, hdrop]

theorem decimal_crlfFree (n : Nat) : Text.CrlfFree (Text.decimal n) :=
  Text.CrlfFree.of_not_mem_cr (Text.not_mem_decimal (by decide))

theorem parsePacket_encodeContinuation {seq : Nat} (h : seq ≤ maxU32) (data : Bytes) :
    parsePacket (encodeContinuation seq data) = .ok (.continuation seq data) := by
  rw [encodeContinuation, parsePacket_line (decimal_crlfFree seq)]
  have hspace : Text.splitOnce ' ' (Text.decimal seq) = none :=
    Text.splitOnce_eq_none_iff.mpr (Text.not_mem_decimal (by decide))
  simp only [parseHeader, hspace, Text.trim_decimal, Text.parseUnsigned_decimal h]

/-- A MIME type that a first packet carries intact: not empty, trimmed, and without a CRLF. -/
structure ValidMime (mime : Text) : Prop where
  ne_nil : mime ≠ []
  trimmed : Text.trim mime = mime
  crlfFree : Text.CrlfFree mime

namespace ValidMime

variable {mime : Text} (h : ValidMime mime)
include h

theorem header_crlfFree (seq : Nat) : Text.CrlfFree (Text.decimal seq ++ ' ' :: mime) := by
  rw [Text.crlfFree_append_cons (by decide) (by decide)]
  exact ⟨decimal_crlfFree seq, h.crlfFree⟩

end ValidMime

/-- Numbers from five up print as no special packet's token. -/
theorem decimal_ne_special {seq : Nat} (h : 5 ≤ seq) :
    Text.decimal seq ≠ ['1'] ∧ Text.decimal seq ≠ ['3'] ∧ Text.decimal seq ≠ ['4'] := by
  have key : ∀ n, n < 5 → Text.decimal seq ≠ Text.decimal n := by
    intro n hn he
    have := Text.decimal_injective he
    omega
  exact ⟨key 1 (by omega), key 3 (by omega), key 4 (by omega)⟩

/-- **A first packet is read back**, and never taken for a special packet. -/
theorem parsePacket_encodeFirst {seq : Nat} (hlo : 5 ≤ seq) (hhi : seq ≤ maxU32) {mime : Text}
    (hm : ValidMime mime) (data : Bytes) :
    parsePacket (encodeFirst seq mime data) = .ok (.first seq mime data) := by
  rw [encodeFirst, parsePacket_line (hm.header_crlfFree seq)]
  have hspace : Text.splitOnce ' ' (Text.decimal seq ++ ' ' :: mime) =
      some (Text.decimal seq, mime) :=
    Text.splitOnce_append (Text.not_mem_decimal (by decide)) mime
  obtain ⟨h1, h3, h4⟩ := decimal_ne_special hlo
  have hempty : mime.isEmpty = false := List.isEmpty_eq_false_iff.mpr hm.ne_nil
  unfold parseHeader
  rw [hspace]
  split
  · next heq =>
    simp only [Option.some.injEq, Prod.mk.injEq] at heq
    exact absurd heq.1 h1
  · next heq =>
    simp only [Option.some.injEq, Prod.mk.injEq] at heq
    exact absurd heq.1 h3
  · next heq =>
    simp only [Option.some.injEq, Prod.mk.injEq] at heq
    exact absurd heq.1 h4
  · next heq =>
    cases heq
    simp [Text.parseUnsigned_decimal hhi, hm.trimmed, hempty]
  · next heq => cases heq

theorem parsePacket_seq_le {datagram : Bytes} {p : Packet} (h : parsePacket datagram = .ok p) :
    (∀ seq mime data, p = .first seq mime data → seq ≤ maxU32) ∧
      ∀ seq data, p = .continuation seq data → seq ≤ maxU32 := by
  unfold parsePacket at h
  split at h
  · cases h
  · split at h
    · cases h
    · unfold parseHeader at h
      split at h
      · cases h; simp
      · cases h; simp
      · cases h; simp
      · split at h
        · cases h
        · next hn =>
          split at h
          · cases h
          · cases h
            refine ⟨?_, by simp⟩
            intro seq mime data heq
            cases heq
            exact Text.parseUnsigned_le hn
      · split at h
        · cases h
        · next hn =>
          cases h
          refine ⟨by simp, ?_⟩
          intro seq data heq
          cases heq
          exact Text.parseUnsigned_le hn

theorem parseClientDatagram_encodeAck {seq : Nat} (h : seq ≤ maxU32) :
    parseClientDatagram (encodeAck seq) = .ok (.ack seq) := by
  have hpos := crlfPosition_encode (decimal_crlfFree seq) []
  have hbytes : encodeAck seq = Utf8.encode (Text.decimal seq) ++ crlf := by
    rw [encodeAck, Utf8.encode_append, encode_crlf]
  rw [List.append_nil] at hpos
  rw [hbytes, parseClientDatagram, hpos]
  have hlen : (Utf8.encode (Text.decimal seq) ++ crlf).length =
      (Utf8.encode (Text.decimal seq)).length + 2 := by simp [crlf]
  simp only [List.take_left, Utf8.decode_encode, hlen, ite_true, Text.trim_decimal,
    Text.parseUnsigned_decimal h]

end Smolweb.Guppy
