import Smolweb.Scorpion.Verify.Lines
import Smolweb.Scorpion.Verify.Reading
import Smolweb.Scorpion.Verify.Requests

/-!
# Files from the server to the client

A reply that carries a file, written by the server and read by the client. The status line is
split back into size, type and version at its spaces, so what the client reports is what the
server put exactly if the type holds no space and the line is within the client's limit
(`delivered_iff`).
-/

namespace Smolweb.Scorpion

open DuplexM

namespace Header

/-- The header of a file: its size, type and version. -/
def file (status : Status) (size : UInt64) (mediaType : Text) (version : Option Text) : Header :=
  ⟨status, [Text.decimal size.toNat, mediaType] ++ version.toList⟩

/-- The header that the client makes of it. -/
def fileRead (status : Status) (size : UInt64) (mediaType : Text) (version : Option Text) :
    Header :=
  ⟨status, splitParameters status
    (Text.joinFields ' ' (file status size mediaType version).parameters)⟩

variable {status : Status} {size : UInt64} {mediaType : Text} {version : Option Text}

theorem splitFields_file (hmajor : status.major = .success) :
    (fileRead status size mediaType version).parameters = Text.decimal size.toNat ::
      Text.splitFields ' ' 1 (Text.joinFields ' ' (mediaType :: version.toList)) := by
  have hsize : ' ' ∉ Text.decimal size.toNat := Text.not_mem_decimal (by decide)
  have hlead : status.leadingParameters = 2 := by
    rw [Status.leadingParameters, hmajor]
    rfl
  have hjoin : Text.joinFields ' ' (file status size mediaType version).parameters =
      Text.decimal size.toNat ++ ' ' :: Text.joinFields ' ' (mediaType :: version.toList) :=
    Text.joinFields_cons _ (List.cons_ne_nil _ _)
  rw [fileRead, splitParameters, hlead, hjoin,
    Text.splitFields_of_splitOnce (Text.splitOnce_append hsize _)]

theorem lf_not_mem_file (hline : mediaType.OneLine) (hversion : ∀ v, version = some v → v.OneLine) :
    '\n' ∉ (file status size mediaType version).text := by
  apply lf_not_mem_text
  intro p hp
  simp only [file, List.mem_append, List.mem_cons, List.not_mem_nil, or_false,
    Option.mem_toList] at hp
  rcases hp with (rfl | rfl) | hp
  · exact Text.not_mem_decimal (by decide)
  · exact (Text.oneLine_iff_not_mem.mp hline).2
  · exact (Text.oneLine_iff_not_mem.mp (hversion p hp)).2

theorem sizeParse_decimal : Size.parse (Text.decimal size.toNat) = some (.known size) := by
  have hmark : Text.decimal size.toNat ≠ ['?'] := by
    intro h
    have hm : '?' ∈ Text.decimal size.toNat := by simp [h]
    exact Text.not_mem_decimal (by decide) hm
  rw [Size.parse, if_neg hmark, parseU64_decimal]
  rfl

/-- A type without spaces comes back with the size and the version. -/
theorem success_fileRead (hmajor : status.major = .success) (hspace : ' ' ∉ mediaType)
    (hmedia : mediaType ≠ []) (hversion : ∀ v, version = some v → v ≠ []) :
    (fileRead status size mediaType version).success =
      some (.ok ⟨.known size, mediaType, version⟩) := by
  have hfields : Text.Fields ' ' 1 (mediaType :: version.toList) := by
    cases version with
    | none => exact ⟨hspace, hmedia⟩
    | some v => exact ⟨hspace, v, rfl, hversion v rfl⟩
  have hstatus : (fileRead status size mediaType version).status = status := rfl
  rw [success, hstatus, if_pos (Or.inl hmajor), splitFields_file hmajor,
    Text.splitFields_joinFields hfields]
  cases version <;> simp [sizeParse_decimal]

/-- A type with a space loses what follows it. -/
theorem mediaType_ne (hmajor : status.major = .success) (hspace : ' ' ∈ mediaType)
    {success : Success}
    (h : (fileRead status size mediaType version).success = some (.ok success)) :
    success.mediaType ≠ mediaType := by
  obtain ⟨head, tail, hsplit⟩ : ∃ head tail, Text.splitOnce ' ' mediaType = some (head, tail) := by
    cases hs : Text.splitOnce ' ' mediaType with
    | none => exact absurd hspace (Text.splitOnce_eq_none_iff.mp hs)
    | some p => exact ⟨p.1, p.2, rfl⟩
  obtain ⟨rfl, hhead⟩ := Text.splitOnce_eq_some_iff.mp hsplit
  obtain ⟨rest, hjoin⟩ : ∃ rest, Text.joinFields ' ' ((head ++ ' ' :: tail) :: version.toList) =
      head ++ ' ' :: rest := by
    cases version with
    | none => exact ⟨tail, rfl⟩
    | some v => exact ⟨tail ++ ' ' :: v, by simp [Text.joinFields]⟩
  have hstatus : (fileRead status size (head ++ ' ' :: tail) version).status = status := rfl
  rw [Header.success, hstatus, if_pos (Or.inl hmajor), splitFields_file hmajor, hjoin,
    Text.splitFields_of_splitOnce (Text.splitOnce_append hhead rest)] at h
  simp only [List.isEmpty_cons, Bool.false_eq_true, false_and, ite_false, sizeParse_decimal,
    Option.some.injEq, Except.ok.injEq] at h
  intro heq
  rw [← h] at heq
  simpa using congrArg List.length heq

end Header

/-! ## Delivery -/

/-- A reply that carries a file, with its body and what it declares: the type is not empty and
holds no line break, nor does the version if there is one, the body is within the client's limit,
and a part of a file answers a range that is at least as long. -/
inductive Deliverable (limits : Limits) (requestedRange : Option Range) :
    Reply → Bytes → Success → Prop
  | content {body : Bytes} {mediaType : Text} {version : Option Text} (hne : mediaType ≠ [])
      (hline : mediaType.OneLine) (hversion : ∀ v, version = some v → v ≠ [] ∧ v.OneLine)
      (hbody : body.length ≤ limits.maxBody.toNat) :
      Deliverable limits requestedRange (.content body mediaType version) body
        ⟨.known (UInt64.ofNat body.length), mediaType, version⟩
  | partialContent {body : Bytes} {total : UInt64} {mediaType : Text} {range : Range}
      (hne : mediaType ≠ []) (hline : mediaType.OneLine)
      (hbody : body.length ≤ limits.maxBody.toNat) (hrange : requestedRange = some range)
      (hlen : ∀ len, range.len = some len → body.length ≤ len) :
      Deliverable limits requestedRange (.partialContent body total mediaType) body
        ⟨.known total, mediaType, none⟩

section

variable {limits : Limits} {requestedRange : Option Range} {reply : Reply} {body : Bytes}
  {success : Success}

/-- The status line of such a reply is a file's, and its body is what the client reads. -/
theorem Deliverable.file (h : Deliverable limits requestedRange reply body success) :
    ∃ status size, status.major = .success ∧ success.size = .known size ∧
      reply.render = (Header.file status size success.mediaType success.version, body) ∧
      success.mediaType ≠ [] ∧ success.mediaType.OneLine ∧
      (∀ v, success.version = some v → v ≠ [] ∧ v.OneLine) ∧
      ∀ written, (readBody limits requestedRange status (.known size)).on ⟨body, written⟩ =
        (.ok body, ⟨[], written⟩) := by
  cases h with
  | content hne hline hversion hbody =>
    have hsize : (UInt64.ofNat body.length).toNat = body.length := by
      rw [UInt64.toNat_ofNat', Nat.mod_eq_of_lt (Nat.lt_of_le_of_lt hbody limits.maxBody.toNat_lt)]
    refine ⟨.OK, _, rfl, rfl, rfl, hne, hline, hversion, fun written => ?_⟩
    have hlimit : ¬limits.maxBody < UInt64.ofNat body.length := by
      rw [UInt64.lt_iff_toNat_lt, hsize]
      omega
    have hread := Exchange.readExact body (ε := ClientError) written []
    rw [readBody, if_neg (by decide), if_neg hlimit, hsize, on_bind]
    rw [List.append_nil] at hread
    rw [hread]
    simp [on_pure]
  | @partialContent _ total mediaType range hne hline hbody hrange hlen =>
    refine ⟨.PARTIAL, total, rfl, rfl, rfl, hne, hline, by simp, fun written => ?_⟩
    have hcap : body.length ≤
        min ((requestedRange.bind Range.len).getD limits.maxBody.toNat) limits.maxBody.toNat := by
      apply Nat.le_min.mpr
      refine ⟨?_, hbody⟩
      rw [hrange, Option.bind_some]
      cases hr : range.len with
      | none => exact hbody
      | some len => exact hlen len hr
    have hread (n : Nat) (hn : body.length ≤ n) :
        (readToEndCapped n).on ⟨body, written⟩ = (.ok body, ⟨[], written⟩) := by
      show (Except.ok (body.take n), (⟨body.drop n, written⟩ : Duplex UInt8)) = _
      rw [List.take_of_length_le hn, List.drop_eq_nil_of_le hn]
    rw [readBody, if_pos rfl, hread _ hcap]

/-- **Delivery**: what the client reads of a file that the server sends is the body, and the size,
type and version that the server put, exactly if the type holds no space and the status line is
within the client's limit. -/
theorem delivered_iff (h : Deliverable limits requestedRange reply body success) :
    (∃ response, ((readResponse limits requestedRange).on ⟨reply.toWire, []⟩).1 = .ok response ∧
        response.body = body ∧ response.header.success = some (.ok success)) ↔
      ' ' ∉ success.mediaType ∧ reply.render.1.toWire.length ≤ limits.maxHeader + 1 := by
  obtain ⟨status, size, hmajor, hsize, hrender, hne, hline, hversion, hread⟩ := h.file
  have hlf : '\n' ∉ (Header.file status size success.mediaType success.version).text :=
    Header.lf_not_mem_file hline fun v hv => (hversion v hv).2
  have hparse : Header.parse (Header.file status size success.mediaType success.version).text =
      .ok (Header.fileRead status size success.mediaType success.version) :=
    Header.parse_text (Text.stripLineEnd_of_not_mem hlf)
  have hwire : reply.toWire =
      Utf8.encode (Header.file status size success.mediaType success.version).text ++ crlf ++
        body := by
    rw [Reply.toWire, hrender, Header.toWire_eq, Utf8.encode_append, encode_crlf]
  have hfits : reply.render.1.toWire.length ≤ limits.maxHeader + 1 ↔
      (Utf8.encode (Header.file status size success.mediaType success.version).text).length <
        limits.maxHeader := by
    rw [hrender]
    exact Header.toWire_fits_iff
  rw [hwire, hfits]
  generalize htext : (Header.file status size success.mediaType success.version).text = text
    at hlf hparse
  constructor
  · rintro ⟨response, hok, -, hsuccess⟩
    have hlen := fits_of_readResponse hlf hok
    have hheader := header_of_readResponse (readLine_exchange hlf hlen [] body) hok
    rw [hparse, Except.ok.injEq] at hheader
    refine ⟨fun hspace => ?_, hlen⟩
    exact Header.mediaType_ne hmajor hspace (hheader ▸ hsuccess) rfl
  · rintro ⟨hspace, hlen⟩
    have hsuccess : (Header.fileRead status size success.mediaType success.version).success =
        some (.ok ⟨.known size, success.mediaType, success.version⟩) :=
      Header.success_fileRead hmajor hspace hne fun v hv => (hversion v hv).1
    have hstream : Utf8.encode text ++ crlf ++ body = (Utf8.encode text ++ [13]) ++ 10 :: body := by
      simp [crlf]
    have hresponse := readResponse_on (.of_text hlf hlen hparse hmajor hsuccess) requestedRange []
      (Or.inl hstream)
    have hstatus :
        (Header.fileRead status size success.mediaType success.version).status = status := rfl
    rw [hstatus, hread] at hresponse
    refine ⟨⟨Header.fileRead status size success.mediaType success.version, body⟩, ?_, rfl, ?_⟩
    · rw [hresponse]
    · rw [hsuccess, ← hsize]

end

theorem delivered_iff_sample :
    ∃ response, ((readResponse {} none).on ⟨(Reply.text "hi".toList).toWire, []⟩).1 =
        .ok response ∧ response.body = Utf8.encode "hi".toList ∧
      response.header.success = some (.ok ⟨.known 2, "text/plain;charset=utf-8".toList, none⟩) :=
  (delivered_iff (.content (by simp) (by decide) (by simp) (by decide))).mpr
    ⟨by decide, by decide⟩

/-- The parameter of a type that is written after a space is taken for the version. -/
theorem delivered_cut_type :
    Deliverable {} none (.content [104, 105] "text/plain; charset=utf-8".toList none) [104, 105]
        ⟨.known 2, "text/plain; charset=utf-8".toList, none⟩ ∧
      ¬∃ response, ((readResponse {} none).on
          ⟨(Reply.content [104, 105] "text/plain; charset=utf-8".toList none).toWire, []⟩).1 =
            .ok response ∧ response.body = [104, 105] ∧
        response.header.success =
          some (.ok ⟨.known 2, "text/plain; charset=utf-8".toList, none⟩) := by
  refine ⟨.content (by simp) (by decide) (by simp) (by decide), ?_⟩
  rintro ⟨response, hok, -, hsuccess⟩
  have hwire : (Reply.content [104, 105] "text/plain; charset=utf-8".toList none).toWire =
      Utf8.encode (Header.file .OK 2 "text/plain; charset=utf-8".toList none).text ++ crlf ++
        [104, 105] := by decide
  have hlf : '\n' ∉ (Header.file .OK 2 "text/plain; charset=utf-8".toList none).text := by decide
  rw [hwire] at hok
  have hheader := header_of_readResponse (readLine_exchange hlf (by decide) [] _) hok
  have hparse : Header.parse (Header.file .OK 2 "text/plain; charset=utf-8".toList none).text =
      .ok (Header.fileRead .OK 2 "text/plain; charset=utf-8".toList none) :=
    Header.parse_text (Text.stripLineEnd_of_not_mem hlf)
  rw [hparse, Except.ok.injEq] at hheader
  rw [← hheader] at hsuccess
  have hspace : ' ' ∈ "text/plain; charset=utf-8".toList := by decide
  exact Header.mediaType_ne rfl hspace hsuccess rfl

end Smolweb.Scorpion
