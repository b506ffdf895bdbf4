import Smolweb.Lib.Crlf
import Smolweb.Misfin.Client
import Smolweb.Misfin.Server

/-!
# The request line, from client to server

`readRequest_eq` says in one line what the loop of `read_request` returns. With it a request that
`build_request` made is followed to the server: the line, its split and the recipient come back,
and the message does except for the line feeds at its end (`readRequest_buildRequest`).
-/

namespace Smolweb.Misfin

/-! ## The reading loop -/

/-- **What `read_request` returns**: the bytes up to the first CRLF if it lies within the ceiling,
and otherwise what the end of the stream or the ceiling decides. -/
theorem readLoop_eq (last : StreamEnd) {buf : Bytes} (stream : Bytes) (hbuf : ¬crlf <:+: buf)
    (hlen : buf.length < maxRequestBytes) :
    readLoop last buf stream =
      match crlfPosition (buf ++ stream) with
      | some p =>
        if p + 2 ≤ maxRequestBytes then .ok (requestLine ((buf ++ stream).take (p + 2)))
        else .ok .tooLong
      | none =>
        if maxRequestBytes ≤ (buf ++ stream).length then .ok .tooLong
        else readLoop last (buf ++ stream) [] := by
  induction stream generalizing buf with
  | nil =>
    rw [List.append_nil, crlfPosition_eq_none_iff.mpr hbuf]
    simp only
    rw [if_neg (by omega)]
  | cons byte rest ih =>
    have hassoc : buf ++ byte :: rest = buf ++ [byte] ++ rest := by simp
    rw [readLoop, hassoc, ← crlf]
    by_cases hend : crlf <:+ buf ++ [byte]
    · obtain ⟨p, hp, hplen⟩ := crlfPosition_concat hbuf hend rest
      have hmax : p + 2 ≤ maxRequestBytes := by
        rw [hplen, List.length_append, List.length_singleton]
        omega
      rw [if_pos hend, hp]
      simp only
      rw [if_pos hmax, hplen, List.take_left]
    · have hbuf' := not_crlf_concat hbuf hend
      rw [if_neg hend]
      by_cases hmax : maxRequestBytes ≤ (buf ++ [byte]).length
      · rw [if_pos hmax]
        cases hp : crlfPosition (buf ++ [byte] ++ rest) with
        | none =>
          simp only
          rw [if_pos (by rw [List.length_append]; omega)]
        | some p =>
          have hlt := length_lt_of_crlfPosition hbuf' hp
          simp only
          rw [if_neg (by omega)]
      · rw [if_neg hmax, ih hbuf' (by omega)]

theorem readRequest_of_crlf {stream : Bytes} {p : Nat} (hp : crlfPosition stream = some p)
    (hle : p + 2 ≤ maxRequestBytes) (last : StreamEnd) :
    readRequest stream last = .ok (requestLine (stream.take p ++ crlf)) := by
  rw [readRequest, readLoop_eq last stream (by simp [crlf]) (by decide), List.nil_append, hp]
  simp only [if_pos hle, take_crlfPosition hp]

theorem readRequest_of_no_crlf {stream : Bytes} (hp : crlfPosition stream = none)
    (hlt : stream.length < maxRequestBytes) :
    readRequest stream .closed = .ok (requestLine stream) := by
  rw [readRequest, readLoop_eq .closed stream (by simp [crlf]) (by decide), List.nil_append, hp]
  simp only [if_neg (Nat.not_le.mpr hlt), readLoop]

theorem readRequest_line {stream : Bytes} {line : Text}
    (h : readRequest stream .closed = .ok (.line line)) :
    (∃ p, crlfPosition stream = some p ∧ p + 2 ≤ maxRequestBytes ∧
        requestLine (stream.take p ++ crlf) = .line line) ∨
      crlfPosition stream = none ∧ stream.length < maxRequestBytes ∧
        requestLine stream = .line line := by
  rw [readRequest, readLoop_eq .closed stream (by simp [crlf]) (by decide), List.nil_append] at h
  split at h
  · next p hp =>
    split at h
    · next hle =>
      rw [take_crlfPosition hp, Except.ok.injEq] at h
      exact Or.inl ⟨p, hp, hle, h⟩
    · cases h
  · next hp =>
    split at h
    · cases h
    · next hlt =>
      simp only [readLoop, Except.ok.injEq] at h
      exact Or.inr ⟨hp, by omega, h⟩

theorem requestLine_crlf {b : Bytes} {text : Text} (h : Utf8.decode b = some text) :
    requestLine (b ++ crlf) = .line (Text.trimEndMatches Text.isLineBreak text) := by
  rw [requestLine, decode_append_crlf, h]
  simp only [Option.map_some]
  rw [Text.trimEndMatches_append text (List.all_eq_true.mp (by decide))]

/-! ## A request that was built -/

/-- A character that a serialised URL may hold: printable ASCII, and no space. -/
def isUrlChar (c : Char) : Bool := '!'.toNat ≤ c.toNat && c.toNat ≤ '~'.toNat

/-- The parts of a parsed URL are in serialised form: percent-encoded, printable ASCII. -/
def Crates.SerialisedUrls (crates : Crates) : Prop :=
  ∀ target url, crates.parseUrl target = some url →
    url.username.all isUrlChar ∧ ∀ host, url.hostStr = some host → host.all isUrlChar

theorem isUrlChar_toLower {c : Char} (h : isUrlChar c = true) : isUrlChar c.toLower = true := by
  have hascii : ∀ n < 128, isUrlChar (Char.ofNat n) = true →
      isUrlChar (Char.ofNat n).toLower = true := by decide
  exact ascii_or_toLower (P := fun c => isUrlChar c = true → isUrlChar c.toLower = true) hascii
    (fun c hc h => by rwa [hc]) c h

theorem parse_isUrlChar {input : Text} {a : MisfinAddress}
    (h : MisfinAddress.parse input = .ok a) (hin : ∀ c ∈ input, isUrlChar c = true) :
    ∀ c ∈ a.asAddrSpec, isUrlChar c = true := by
  have htrim : ∀ c ∈ Text.trim input, isUrlChar c = true := fun c hc =>
    hin c ((Text.trimStart_suffix input).subset
      ((Text.trimEndMatches_initial _ _).subset hc))
  unfold MisfinAddress.parse at h
  simp only at h
  split at h
  · cases h
  · next mailbox host hsplit =>
    split at h
    · cases h
    · cases h
      obtain ⟨heq, -⟩ := Text.splitOnce_eq_some_iff.mp hsplit
      rw [heq] at htrim
      intro c hc
      rcases List.mem_append.mp hc with hm | hm
      · exact htrim c (by simp [hm])
      rcases List.mem_cons.mp hm with rfl | hm
      · decide
      · obtain ⟨d, hd, rfl⟩ := List.mem_map.mp hm
        exact isUrlChar_toLower (htrim d (by simp [hd]))

theorem parseRecipient_isUrlChar {crates : Crates} (hurl : crates.SerialisedUrls) {target : Text}
    {recipient : MisfinAddress} (h : parseRecipient crates target = some recipient) :
    ∀ c ∈ recipient.asAddrSpec, isUrlChar c = true := by
  simp only [parseRecipient, Option.bind_eq_bind, Option.bind_eq_some_iff] at h
  obtain ⟨url, hparse, hfrom⟩ := h
  obtain ⟨huser, hhost⟩ := hurl target url hparse
  cases hf : MisfinAddress.fromUrl url with
  | error e =>
    rw [hf] at hfrom
    cases hfrom
  | ok a =>
    rw [hf] at hfrom
    cases hfrom
    unfold MisfinAddress.fromUrl at hf
    simp only at hf
    split at hf
    · cases hf
    split at hf
    · cases hf
    next host hhoststr =>
    refine parse_isUrlChar hf fun c hc => ?_
    rcases List.mem_append.mp hc with hm | hm
    · exact List.all_eq_true.mp huser c ((Text.trimStart_suffix _).subset
        ((Text.trimEndMatches_initial _ _).subset hm))
    rcases List.mem_cons.mp hm with rfl | hm
    · decide
    · exact List.all_eq_true.mp (hhost host hhoststr) c hm

theorem buildRequest_ok {recipient : MisfinAddress} {message request : Text}
    (h : buildRequest recipient message = .ok request) :
    '\r' ∉ message ∧
      request = "misfin://".toList ++ recipient.asAddrSpec ++ ' ' :: message ++ ['\r', '\n'] ∧
      (Utf8.encode request).length ≤ maxRequestBytes := by
  unfold buildRequest at h
  split at h
  · cases h
  · next hcr =>
    simp only at h
    split at h
    · cases h
    · next hlen =>
      cases h
      exact ⟨hcr, rfl, Nat.le_of_not_lt hlen⟩

section

variable {crates : Crates} {recipient : MisfinAddress} {message request : Text}

/-- **What the server makes of a built request**, whatever follows it on the connection: a line,
the recipient, and the message up to the line feeds at its end. -/
theorem readRequest_buildRequest (hurl : crates.SerialisedUrls)
    (hr : parseRecipient crates ("misfin://".toList ++ recipient.asAddrSpec) = some recipient)
    (hb : buildRequest recipient message = .ok request) (rest : Bytes) (last : StreamEnd) :
    ∃ line, readRequest (Utf8.encode request ++ rest) last = .ok (.line line) ∧
      splitRequest line = some ("misfin://".toList ++ recipient.asAddrSpec,
        Text.trimEndMatches Text.isLineBreak message) := by
  obtain ⟨hcr, rfl, hlen⟩ := buildRequest_ok hb
  have hspec := parseRecipient_isUrlChar hurl hr
  have hscheme : ∀ c ∈ "misfin://".toList, isUrlChar c = true := List.all_eq_true.mp (by decide)
  have htarget : ∀ c ∈ "misfin://".toList ++ recipient.asAddrSpec, isUrlChar c = true :=
    fun c hc => (List.mem_append.mp hc).elim (hscheme c) (hspec c)
  generalize htgt : "misfin://".toList ++ recipient.asAddrSpec = target at *
  have hline : '\r' ∉ target ++ ' ' :: message := by
    intro hm
    rcases List.mem_append.mp hm with hm | hm
    · exact absurd (htarget _ hm) (by decide)
    · rcases List.mem_cons.mp hm with hm | hm
      · exact absurd hm (by decide)
      · exact hcr hm
  have hstream : Utf8.encode (target ++ ' ' :: message ++ ['\r', '\n']) ++ rest =
      Utf8.encode (target ++ ' ' :: message) ++ crlf ++ rest := by
    rw [Utf8.encode_append, encode_crlf]
  have hpos := crlfPosition_encode (Text.CrlfFree.of_not_mem_cr hline) rest
  rw [Utf8.encode_append, encode_crlf, List.length_append] at hlen
  refine ⟨Text.trimEndMatches Text.isLineBreak (target ++ ' ' :: message), ?_, ?_⟩
  · rw [hstream, readRequest_of_crlf hpos hlen last, List.append_assoc, List.take_left,
      requestLine_crlf (Utf8.decode_encode _)]
  · rw [Text.trimEndMatches_append_cons (by decide)]
    have hstart : Text.trimStart (target ++ ' ' :: Text.trimEndMatches Text.isLineBreak message) =
        target ++ ' ' :: Text.trimEndMatches Text.isLineBreak message := by
      rw [← htgt]
      exact Text.trimStart_eq_self_iff.mpr fun c hc => by cases hc; decide
    have hnospace : ' ' ∉ target := fun hm => absurd (htarget _ hm) (by decide)
    have hprefix : "misfin://".toList.isPrefixOf target = true := by
      rw [← htgt, List.isPrefixOf_iff_prefix]
      exact List.prefix_append _ _
    simp only [splitRequest, hstart, Text.splitOnce_append hnospace, Option.bind_eq_bind,
      Option.bind_some, hprefix, ite_true]

/-- **When a message arrives verbatim**: the recipient and the message come back exactly when the
message does not end in a line feed. -/
theorem request_verbatim_iff (hurl : crates.SerialisedUrls)
    (hr : parseRecipient crates ("misfin://".toList ++ recipient.asAddrSpec) = some recipient)
    (hb : buildRequest recipient message = .ok request) (rest : Bytes) (last : StreamEnd) :
    (∃ line target, readRequest (Utf8.encode request ++ rest) last = .ok (.line line) ∧
        splitRequest line = some (target, message) ∧
        parseRecipient crates target = some recipient) ↔
      message.getLast? ≠ some '\n' := by
  obtain ⟨line, hread, hsplit⟩ := readRequest_buildRequest hurl hr hb rest last
  obtain ⟨hcr, -⟩ := buildRequest_ok hb
  have htrim : Text.trimEndMatches Text.isLineBreak message = message ↔
      message.getLast? ≠ some '\n' := by
    rw [Text.trimEndMatches_eq_self_iff]
    constructor
    · intro h hl
      exact absurd (h '\n' hl) (by decide)
    · intro h c hc
      have hne : c ≠ '\r' := fun he => hcr (he ▸ List.mem_of_getLast? hc)
      have hne' : c ≠ '\n' := fun he => h (he ▸ hc)
      simp [Text.isLineBreak, hne, hne']
  rw [← htrim]
  constructor
  · rintro ⟨line', target, hread', hsplit', -⟩
    rw [hread, Except.ok.injEq, RequestRead.line.injEq] at hread'
    subst hread'
    rw [hsplit, Option.some.injEq, Prod.mk.injEq] at hsplit'
    exact hsplit'.2
  · intro h
    rw [h] at hsplit
    exact ⟨line, _, hread, hsplit, hr⟩

end

/-- The other crates on the sample request: its one recipient, and an empty certificate, which does
not parse and whose digest is that of no bytes. -/
def sampleCrates : Crates where
  parseUrl target :=
    if target = "misfin://mark@example.test".toList then
      some ⟨"mark".toList, some "example.test".toList⟩
    else none
  fromDer _ := none
  isTimestamp _ := true
  sha256 _ := [0xe3, 0xb0, 0xc4, 0x42, 0x98, 0xfc, 0x1c, 0x14, 0x9a, 0xfb, 0xf4, 0xc8, 0x99, 0x6f,
    0xb9, 0x24, 0x27, 0xae, 0x41, 0xe4, 0x64, 0x9b, 0x93, 0x4c, 0xa4, 0x95, 0x99, 0x1b, 0x78, 0x52,
    0xb8, 0x55]

theorem sampleCrates_serialisedUrls : sampleCrates.SerialisedUrls := by
  intro target url h
  simp only [sampleCrates] at h
  split at h
  · cases h
    exact ⟨by decide, fun host hh => by cases hh; decide⟩
  · cases h

def sampleRecipient : MisfinAddress := ⟨"mark".toList, "example.test".toList⟩

theorem request_verbatim_iff_sample :
    (∃ line target, readRequest (Utf8.encode
        "misfin://mark@example.test # Hi\nall good\r\n".toList ++ []) .closed = .ok (.line line) ∧
        splitRequest line = some (target, "# Hi\nall good".toList) ∧
        parseRecipient sampleCrates target = some sampleRecipient) ↔
      "# Hi\nall good".toList.getLast? ≠ some '\n' :=
  request_verbatim_iff sampleCrates_serialisedUrls rfl rfl [] .closed

/-- The line feed at the end of a message is lost. -/
theorem request_not_verbatim : ¬ ∀ (crates : Crates) (recipient : MisfinAddress)
    (message request : Text), crates.SerialisedUrls →
    parseRecipient crates ("misfin://".toList ++ recipient.asAddrSpec) = some recipient →
    buildRequest recipient message = .ok request →
    ∃ line target, readRequest (Utf8.encode request) .closed = .ok (.line line) ∧
      splitRequest line = some (target, message) ∧
      parseRecipient crates target = some recipient := by
  intro h
  obtain ⟨line, target, hread, hsplit, -⟩ := h sampleCrates sampleRecipient "hi\n".toList
    "misfin://mark@example.test hi\n\r\n".toList sampleCrates_serialisedUrls rfl rfl
  have hline : readRequest (Utf8.encode "misfin://mark@example.test hi\n\r\n".toList) .closed =
      .ok (.line "misfin://mark@example.test hi".toList) := by rfl
  have hsample : splitRequest "misfin://mark@example.test hi".toList =
      some ("misfin://mark@example.test".toList, "hi".toList) := by decide
  rw [hline, Except.ok.injEq, RequestRead.line.injEq] at hread
  rw [← hread, hsample, Option.some.injEq, Prod.mk.injEq] at hsplit
  exact absurd hsplit.2 (by decide)

/-! ## One line with two fields -/

/-- What the parser keeps of an address: all of it that is not trimmed, the host in lower case. -/
theorem asAddrSpec_of_parse {s : Text} {a : MisfinAddress} (h : MisfinAddress.parse s = .ok a) :
    ∃ mailbox host, Text.trim s = mailbox ++ '@' :: host ∧
      a.asAddrSpec = mailbox ++ '@' :: toAsciiLowercase host := by
  unfold MisfinAddress.parse at h
  simp only at h
  split at h
  · cases h
  · next mailbox host hsplit =>
    obtain ⟨htrim, -⟩ := Text.splitOnce_eq_some_iff.mp hsplit
    split at h
    · cases h
    · cases h
      exact ⟨mailbox, host, htrim, rfl⟩

theorem space_mem_asAddrSpec {s : Text} {a : MisfinAddress} (h : MisfinAddress.parse s = .ok a) :
    ' ' ∈ a.asAddrSpec ↔ ' ' ∈ Text.trim s := by
  obtain ⟨mailbox, host, htrim, hspec⟩ := asAddrSpec_of_parse h
  have hhost : ' ' ∈ toAsciiLowercase host ↔ ' ' ∈ host := by
    rw [toAsciiLowercase, List.mem_map]
    constructor
    · rintro ⟨c, hc, hlower⟩
      rwa [(toLower_eq_iff (by decide) c).mp hlower] at hc
    · intro hc
      exact ⟨' ', hc, rfl⟩
  rw [hspec, htrim, List.mem_append, List.mem_append, List.mem_cons, List.mem_cons, hhost]

theorem crlfFree_asAddrSpec {s : Text} {a : MisfinAddress} (h : MisfinAddress.parse s = .ok a) :
    a.asAddrSpec.CrlfFree ↔ (Text.trim s).CrlfFree := by
  obtain ⟨mailbox, host, htrim, hspec⟩ := asAddrSpec_of_parse h
  rw [hspec, htrim, Text.crlfFree_append_cons (by decide) (by decide),
    Text.crlfFree_append_cons (by decide) (by decide), toAsciiLowercase,
    Text.crlfFree_map (toLower_eq_iff (by decide)) (toLower_eq_iff (by decide))]

/-- **One line with two fields**: the CRLF at the end is the only one and the first space is the one
before the message, iff the address has neither a space nor a CRLF within it. -/
theorem buildRequest_fields_iff {s : Text} {a : MisfinAddress} {message request : Text}
    (ha : MisfinAddress.parse s = .ok a) (hb : buildRequest a message = .ok request) :
    crlfPosition (Utf8.encode request) = some ((Utf8.encode request).length - 2) ∧
        Text.splitOnce ' ' request =
          some ("misfin://".toList ++ a.asAddrSpec, message ++ ['\r', '\n']) ↔
      ' ' ∉ Text.trim s ∧ (Text.trim s).CrlfFree := by
  obtain ⟨hcr, rfl, -⟩ := buildRequest_ok hb
  have hscheme : "misfin://".toList ++ a.asAddrSpec = "misfin:/".toList ++ '/' :: a.asAddrSpec :=
    rfl
  have hline : Text.CrlfFree ("misfin://".toList ++ a.asAddrSpec ++ ' ' :: message) ↔
      (Text.trim s).CrlfFree := by
    rw [Text.crlfFree_append_cons (by decide) (by decide), hscheme,
      Text.crlfFree_append_cons (by decide) (by decide), crlfFree_asAddrSpec ha]
    have hmessage := Text.CrlfFree.of_not_mem_cr hcr
    have hmisfin : Text.CrlfFree "misfin:/".toList := by decide
    exact ⟨fun h => h.1.2, fun h => ⟨⟨hmisfin, h⟩, hmessage⟩⟩
  have hspace : Text.splitOnce ' ' ("misfin://".toList ++ a.asAddrSpec ++ ' ' ::
      (message ++ ['\r', '\n'])) =
        some ("misfin://".toList ++ a.asAddrSpec, message ++ ['\r', '\n']) ↔
      ' ' ∉ Text.trim s := by
    rw [Text.splitOnce_eq_some_iff, ← space_mem_asAddrSpec ha]
    simp
  rw [crlfPosition_encode_iff, hline, List.append_assoc, List.cons_append, hspace, and_comm]

/-- An address that parses with space around it, and a message of two lines. -/
theorem buildRequest_fields_sample :
    crlfPosition (Utf8.encode "misfin://mark@example.test # Hi\nall good\r\n".toList) = some 40 ∧
      Text.splitOnce ' ' "misfin://mark@example.test # Hi\nall good\r\n".toList =
        some ("misfin://mark@example.test".toList, "# Hi\nall good\r\n".toList) := by
  have ha : MisfinAddress.parse " mark@Example.test ".toList = .ok sampleRecipient := rfl
  have hb : buildRequest sampleRecipient "# Hi\nall good".toList =
      .ok "misfin://mark@example.test # Hi\nall good\r\n".toList := rfl
  exact (buildRequest_fields_iff ha hb).mpr (by decide)

/-- An address with a request of its own in the host. -/
def smuggler : Text := "mark@example.test hi\r\nmisfin://eve@example.test".toList

/-- Two requests are sent for one. -/
theorem buildRequest_fields_smuggled : ¬ ∀ (s : Text) (a : MisfinAddress) (message request : Text),
    MisfinAddress.parse s = .ok a → buildRequest a message = .ok request →
    crlfPosition (Utf8.encode request) = some ((Utf8.encode request).length - 2) ∧
      Text.splitOnce ' ' request =
        some ("misfin://".toList ++ a.asAddrSpec, message ++ ['\r', '\n']) := by
  intro h
  obtain ⟨hline, -⟩ := h smuggler
    ⟨"mark".toList, "example.test hi\r\nmisfin://eve@example.test".toList⟩ "hello".toList
    "misfin://mark@example.test hi\r\nmisfin://eve@example.test hello\r\n".toList rfl rfl
  exact absurd hline (by decide)

end Smolweb.Misfin
