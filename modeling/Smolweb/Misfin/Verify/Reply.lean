import Smolweb.Lib.Crlf
import Smolweb.Lib.Dialogue
import Smolweb.Misfin.Client
import Smolweb.Misfin.Server

/-!
# The response line, from server to client

The line of a reply is parsed as it was written exactly if its status has two digits and its meta
does not end in a line break (`parseResponseLine_encode_iff`). The client reads through the first
CRLF, so a reply without another one in it, and within the ceiling, is read whole
(`on_readResponseLine`).
-/

namespace Smolweb.Misfin

open DuplexM

/-! ## Parsing -/

/-- The two digits of a code below a hundred. -/
def twoDigits (code : Nat) : Text := (if code < 10 then ['0'] else []) ++ Text.decimal code

theorem twoDigits_eq {code : Nat} (h : code < 100) : ∃ tens ones, twoDigits code = [tens, ones] ∧
    tens.utf8Size = 1 ∧ ones.utf8Size = 1 ∧ tens ≠ '\r' ∧ ones ≠ '\r' ∧
      Text.parseUnsigned 255 [tens, ones] = some code := by
  have hall : ∀ code < 100, (twoDigits code).length = 2 ∧
      ((twoDigits code).all fun c => decide (c.utf8Size = 1 ∧ c ≠ '\r')) = true ∧
        Text.parseUnsigned 255 (twoDigits code) = some code := by decide +kernel
  obtain ⟨hlength, hchars, hparse⟩ := hall code h
  obtain ⟨tens, ones, heq⟩ := List.length_eq_two.mp hlength
  rw [heq] at hchars hparse
  have hchar : ∀ c ∈ [tens, ones], c.utf8Size = 1 ∧ c ≠ '\r' := by
    intro c hc
    exact of_decide_eq_true (List.all_eq_true.mp hchars c hc)
  obtain ⟨htens, htensCr⟩ := hchar tens (by simp)
  obtain ⟨hones, honesCr⟩ := hchar ones (by simp)
  exact ⟨tens, ones, heq, htens, hones, htensCr, honesCr, hparse⟩

theorem splitAtByte_two {a b : Char} (ha : a.utf8Size = 1) (hb : b.utf8Size = 1) (t : Text) :
    Text.splitAtByte 2 (a :: b :: t) = some ([a, b], t) := by
  rw [Text.splitAtByte, if_pos (by omega), ha, Text.splitAtByte_one hb]
  rfl

theorem code_lt_of_parseResponseLine {line metaText : Text} {status : MisfinStatus}
    (h : parseResponseLine line = .ok (status, metaText)) : status.code < 100 := by
  unfold parseResponseLine at h
  simp only at h
  split at h
  · cases h
  next digits rest hsplit =>
  split at h
  · cases h
  next code hcode =>
  cases h
  rw [MisfinStatus.code_fromCode]
  have hlength := Text.length_le_of_splitAtByte hsplit
  calc code < 10 ^ digits.length := Text.parseUnsigned_lt hcode
    _ ≤ 10 ^ 2 := Nat.pow_le_pow_right (by decide) hlength

theorem parseResponseLine_encode {reply : MisfinResponse} (h : reply.status < 100) :
    parseResponseLine reply.encode =
      .ok (.fromCode reply.status, Text.trimEndMatches Text.isLineBreak reply.metaText) := by
  obtain ⟨tens, ones, hdigits, htens, hones, -, -, hparse⟩ := twoDigits_eq h
  have hencode : reply.encode = twoDigits reply.status ++ ' ' :: reply.metaText ++ ['\r', '\n'] :=
    rfl
  have htrim : Text.trimEndMatches Text.isLineBreak reply.encode =
      tens :: ones :: ' ' :: Text.trimEndMatches Text.isLineBreak reply.metaText := by
    rw [hencode, hdigits, Text.trimEndMatches_append _ (List.all_eq_true.mp (by decide)),
      Text.trimEndMatches_append_cons (by decide)]
    rfl
  unfold parseResponseLine
  simp only [htrim, splitAtByte_two htens hones, hparse]
  rfl

/-- **When a reply is read back** as it was sent. -/
theorem parseResponseLine_encode_iff (reply : MisfinResponse) :
    parseResponseLine reply.encode = .ok (.fromCode reply.status, reply.metaText) ↔
      reply.status < 100 ∧ ∀ c, reply.metaText.getLast? = some c → Text.isLineBreak c = false := by
  rw [← Text.trimEndMatches_eq_self_iff]
  constructor
  · intro h
    have hlt := code_lt_of_parseResponseLine h
    rw [MisfinStatus.code_fromCode] at hlt
    rw [parseResponseLine_encode hlt, Except.ok.injEq, Prod.mk.injEq] at h
    exact ⟨hlt, h.2⟩
  · rintro ⟨hlt, htrim⟩
    rw [parseResponseLine_encode hlt, htrim]

/-- A meta is the end of its line, but for the line breaks after it. -/
theorem suffix_of_parseResponseLine {line metaText : Text} {status : MisfinStatus}
    (h : parseResponseLine line = .ok (status, metaText)) :
    metaText <:+ Text.trimEndMatches Text.isLineBreak line := by
  unfold parseResponseLine at h
  simp only at h
  split at h
  · cases h
  next digits rest hsplit =>
  split at h
  · cases h
  cases h
  rw [← Text.append_of_splitAtByte hsplit]
  refine .trans ?_ (List.suffix_append digits rest)
  cases hspace : Text.stripPrefix [' '] rest with
  | none => exact List.suffix_rfl
  | some rest' =>
    rw [Text.stripPrefix_eq_some_iff.mp hspace]
    exact List.suffix_append [' '] rest'

/-! ## Reading -/

theorem responseLoop_of_crlf {buf unread : Bytes} {p : Nat} (hbuf : ¬crlf <:+: buf)
    (hp : crlfPosition (buf ++ unread) = some p) (hle : p + 2 ≤ maxRequestBytes) :
    responseLoop buf unread = ((buf ++ unread).take (p + 2), (buf ++ unread).drop (p + 2)) := by
  induction unread generalizing buf with
  | nil =>
    rw [List.append_nil, crlfPosition_eq_none_iff.mpr hbuf] at hp
    cases hp
  | cons byte rest ih =>
    have hassoc : buf ++ byte :: rest = buf ++ [byte] ++ rest := by simp
    rw [hassoc] at hp ⊢
    rw [responseLoop, ← crlf]
    by_cases hend : crlf <:+ buf ++ [byte]
    · obtain ⟨q, hq, hlength⟩ := crlfPosition_concat hbuf hend rest
      rw [hp, Option.some.injEq] at hq
      rw [if_pos (.inl hend), hq, hlength, List.take_left, List.drop_left]
    · have hbuf' := not_crlf_concat hbuf hend
      have hshort := length_lt_of_crlfPosition hbuf' hp
      rw [if_neg (not_or.mpr ⟨hend, by omega⟩)]
      exact ih hbuf' hp

theorem reads_readResponseLine : Reads readResponseLine where
  written _ := rfl
  unread s := by
    have hsuffix : ∀ unread buf : Bytes, (responseLoop buf unread).2 <:+ unread := by
      intro unread
      induction unread with
      | nil => exact fun _ => List.suffix_rfl
      | cons byte rest ih =>
        intro buf
        unfold responseLoop
        simp only
        split
        · exact List.suffix_cons ..
        · exact (ih _).trans (List.suffix_cons ..)
    exact hsuffix s.unread []

/-- A reply that the client reads whole. -/
structure MisfinResponse.Readable (reply : MisfinResponse) : Prop where
  status : reply.status < 100
  crlfFree : reply.metaText.CrlfFree
  last : ∀ c, reply.metaText.getLast? = some c → Text.isLineBreak c = false
  fits : (Utf8.encode reply.encode).length ≤ maxRequestBytes

/-- What is read is a line and the CRLF that ends it, whatever follows. -/
theorem on_readResponseLine_line {line : Text} (hline : line.CrlfFree)
    (hfits : (Utf8.encode line).length + 2 ≤ maxRequestBytes) (rest written : Bytes) :
    (readResponseLine.on ⟨Utf8.encode line ++ crlf ++ rest, written⟩).1 =
      .ok (line ++ ['\r', '\n']) := by
  have hempty : ¬crlf <:+: ([] : Bytes) := by simp [crlf]
  have hposition := crlfPosition_encode hline rest
  rw [← List.nil_append (Utf8.encode line ++ crlf ++ rest)] at hposition
  have hloop := responseLoop_of_crlf hempty hposition hfits
  have htake : (Utf8.encode line ++ crlf ++ rest).take ((Utf8.encode line).length + 2) =
      Utf8.encode (line ++ ['\r', '\n']) := by
    rw [List.take_left' (by simp [crlf]), Utf8.encode_append, encode_crlf]
  show Except.ok (Utf8.decodeLossy (responseLoop [] _).1) = _
  rw [hloop, List.nil_append, htake, Utf8.decodeLossy_encode]

theorem on_readResponseLine {reply : MisfinResponse} (h : reply.Readable) (rest written : Bytes) :
    (readResponseLine.on ⟨Utf8.encode reply.encode ++ rest, written⟩).1 = .ok reply.encode := by
  obtain ⟨tens, ones, hdigits, -, -, htens, hones, -⟩ := twoDigits_eq h.status
  have hline : Text.CrlfFree (twoDigits reply.status ++ ' ' :: reply.metaText) := by
    rw [Text.crlfFree_append_cons (by decide) (by decide), hdigits]
    exact ⟨.of_not_mem_cr (by simp [htens.symm, hones.symm]), h.crlfFree⟩
  have hencode : Utf8.encode reply.encode =
      Utf8.encode (twoDigits reply.status ++ ' ' :: reply.metaText) ++ crlf := by
    rw [← encode_crlf, ← Utf8.encode_append]
    rfl
  have hfits := h.fits
  rw [hencode, List.length_append] at hfits
  rw [hencode, on_readResponseLine_line hline hfits]
  rfl

end Smolweb.Misfin
