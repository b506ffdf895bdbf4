import Smolweb.Gemini.Server

/-!
# A gemini request and its reply

What one end writes is what the other reads. A reply comes back with its code, its meta and, for a
success, its body, byte for byte (`parseResponse_writeReply`). A request comes back as the URL it
was made from, but for one thing: the client writes the fragment of its URL too, and the server
refuses it (`accepted_iff`).
-/

namespace Smolweb.Gemini

open DuplexM

/-! ## Replies -/

/-- What `write_reply` writes. -/
def Reply.toWire (reply : Reply) : Bytes :=
  Utf8.encode reply.headerLine ++ if reply.status = some .success then reply.body else []

theorem exchange_writeReply (reply : Reply) :
    Exchange (writeReply reply) reply.toWire [] (.ok ()) := by
  unfold writeReply Reply.toWire
  split
  · exact (Exchange.write _).bind (Exchange.write _)
  · exact (Exchange.write _).bind (Exchange.pure ())

theorem code_of_status {code : UInt8} {status : Status} (h : Status.fromCode code = some status) :
    10 ≤ code.toNat ∧ code.toNat < 70 := by
  have hdiv : (code / 10).toNat = code.toNat / 10 := UInt8.toNat_div ..
  unfold Status.fromCode at h
  rw [hdiv] at h
  split at h
  all_goals first | omega | cases h

namespace Reply

variable {reply : Reply}

/-- The header line without its CRLF. -/
def headerText (reply : Reply) : Text :=
  Text.decimal reply.code.toNat ++ ' ' :: reply.metaText

theorem headerLine_eq (reply : Reply) : reply.headerLine = reply.headerText ++ ['\r', '\n'] := by
  rw [headerLine, headerText, List.append_assoc _ [' ']]
  rfl

theorem oneLine_headerText (h : reply.metaText.OneLine) : reply.headerText.OneLine := by
  apply (Text.oneLine_decimal _).append
  exact Text.oneLine_cons.mpr ⟨by decide, h⟩

theorem trimStart_meta (h : ∀ c, reply.metaText.head? = some c → Text.isWhitespace c = false) :
    Text.trimStart (' ' :: reply.metaText) = reply.metaText := by
  rw [Text.trimStart_cons (by rfl), Text.trimStart_eq_self_iff.mpr h]

/-- A header line is taken apart where it was put together, whatever follows it. -/
theorem parseResponse_headerLine {status : Status} (hstatus : reply.status = some status)
    (hline : reply.metaText.OneLine)
    (hmeta : ∀ c, reply.metaText.head? = some c → Text.isWhitespace c = false) (rest : Bytes) :
    parseResponse (Utf8.encode reply.headerLine ++ rest) = .ok {
      status
      code := reply.code
      metaText := reply.metaText
      body := if status = .success then rest else [] } := by
  have hone := oneLine_headerText hline
  have hcr := (Text.oneLine_iff_not_mem.mp hone).1
  have hwire : Utf8.encode reply.headerLine = Utf8.encode reply.headerText ++ crlf := by
    rw [headerLine_eq, Utf8.encode_append, encode_crlf]
  have hposition : crlfPosition (Utf8.encode reply.headerText ++ crlf ++ rest) =
      some (Utf8.encode reply.headerText).length :=
    crlfPosition_encode (.of_not_mem_cr hcr) rest
  have htake : (Utf8.encode reply.headerText ++ crlf ++ rest).take
      (Utf8.encode reply.headerText).length = Utf8.encode reply.headerText := by
    rw [List.append_assoc, List.take_left]
  have hdrop : (Utf8.encode reply.headerText ++ crlf ++ rest).drop
      ((Utf8.encode reply.headerText).length + 2) = rest :=
    List.drop_left' (by simp [crlf])
  obtain ⟨hlow, hhigh⟩ := code_of_status hstatus
  have hsplit : Text.splitCode reply.headerText = some (reply.code.toNat, ' ' :: reply.metaText) :=
    Text.splitCode_decimal hlow (by omega) _
  have hclass : Status.fromCode reply.code = some status := hstatus
  rw [hwire, parseResponse, hposition]
  simp only [htake, Utf8.decode_encode, hsplit, UInt8.ofNat_toNat, hclass, trimStart_meta hmeta,
    hdrop]

end Reply

/-- **Replies survive the wire.** -/
theorem parseResponse_writeReply {reply : Reply} {status : Status}
    (hstatus : reply.status = some status) (hline : reply.metaText.OneLine)
    (hmeta : ∀ c, reply.metaText.head? = some c → Text.isWhitespace c = false) :
    ∃ wire, (∀ s : Duplex UInt8, (writeReply reply).on s =
        (.ok (), { s with written := s.written ++ wire })) ∧
      parseResponse wire = .ok {
        status
        code := reply.code
        metaText := reply.metaText
        body := if status = .success then reply.body else [] } := by
  refine ⟨reply.toWire, fun s => exchange_writeReply reply s.written s.unread, ?_⟩
  rw [Reply.toWire, Reply.parseResponse_headerLine hstatus hline hmeta, hstatus]
  by_cases hsuccess : status = .success
  · rw [hsuccess, if_pos rfl, if_pos rfl, if_pos rfl]
  · rw [if_neg hsuccess, if_neg hsuccess]

/-- A success whose body looks like a header, after a CRLF of its own. -/
theorem parseResponse_writeReply_lookalike :
    ∃ wire, (∀ s : Duplex UInt8,
        (writeReply ⟨20, "text/gemini".toList, [13, 10, 53, 49, 13, 10]⟩).on s =
          (.ok (), { s with written := s.written ++ wire })) ∧
      parseResponse wire = .ok {
        status := .success
        code := 20
        metaText := "text/gemini".toList
        body := [13, 10, 53, 49, 13, 10] } :=
  parseResponse_writeReply rfl (Text.oneLine_iff.mpr (by decide)) (by simp; decide)

/-! ## Requests -/

section Requests

variable {parse : Text → Except Text UrlRecord} (hparse : UrlRecord.Standard parse)
  {t : Text} {url : UrlRecord} (ht : parse t = .ok url)
include hparse ht

/-- The line without its LF. -/
theorem parseRequest_display : parseRequest parse (Utf8.encode (url.display ++ ['\r'])) =
    if url.scheme ≠ "gemini".toList then
      .error ("scheme ".toList ++ url.scheme ++ " is not gemini".toList)
    else if url.host.isNone then .error "request has no host".toList
    else if url.fragment.isSome then .error "request carries a fragment".toList
    else .ok url := by
  have hlast : Text.trimEndMatches Text.isLineBreak (url.display ++ ['\r']) = url.display :=
    (hparse.oneLine ht).trimEnd_append (by simp [Text.isLineBreak])
  rw [parseRequest, Utf8.decode_encode]
  simp only [hlast, hparse.reparse ht]

theorem lf_not_mem_display : 10 ∉ Utf8.encode (url.display ++ ['\r']) := by
  apply Utf8.lf_not_mem_encode
  have hlf := (Text.oneLine_iff_not_mem.mp (hparse.oneLine ht)).2
  simp [hlf]

/-- What the server makes of the line, if it is not too long. -/
theorem readRequest_display {config : ServerConfig}
    (hlen : (Utf8.encode url.display).length + 1 ≤ config.maxRequestLine) :
    Exchange (readRequest config) [] (Utf8.encode (url.display ++ ['\r', '\n']))
      (.ok (some (Utf8.encode (url.display ++ ['\r'])))) := by
  have hline : Utf8.encode (url.display ++ ['\r', '\n']) =
      Utf8.encode (url.display ++ ['\r']) ++ [10] := by
    simp only [Utf8.encode_append, List.append_assoc]
    rfl
  rw [hline]
  apply Exchange.readLine (lf_not_mem_display hparse ht)
  rw [Utf8.encode_append, List.length_append]
  exact hlen

theorem readRequest_display_none {config : ServerConfig}
    (hlen : config.maxRequestLine < (Utf8.encode url.display).length + 1)
    (written rest : Bytes) :
    ((readRequest config).on ⟨Utf8.encode (url.display ++ ['\r', '\n']) ++ rest, written⟩).1 =
      .ok none := by
  have hline : Utf8.encode (url.display ++ ['\r', '\n']) ++ rest =
      Utf8.encode (url.display ++ ['\r']) ++ 10 :: rest := by
    simp only [Utf8.encode_append, List.append_assoc]
    rfl
  rw [hline]
  apply Exchange.readLine_none (lf_not_mem_display hparse ht)
  rw [Utf8.encode_append, List.length_append]
  exact hlen

end Requests

/-- The server reads the bytes as one request line, not more, which it takes for a request for the
URL. -/
def Accepted (parse : Text → Except Text UrlRecord) (config : ServerConfig) (wire : Bytes)
    (url : UrlRecord) : Prop :=
  ∃ line, (∀ written rest, (readRequest config).on ⟨wire ++ rest, written⟩ =
      (.ok (some line), ⟨rest, written⟩)) ∧ parseRequest parse line = .ok url

/-- An accepted request is answered by the handler. -/
theorem Accepted.handleConnection {P : Type} {parse : Text → Except Text UrlRecord}
    {config : ServerConfig} {wire : Bytes} {url : UrlRecord} (h : Accepted parse config wire url)
    (handler : Request P → Reply) (peer : P) :
    Exchange (handleConnection parse handler peer config) (handler ⟨url, peer⟩).toWire wire
      (.ok ()) := by
  obtain ⟨line, hread, hline⟩ := h
  have hfirst : Exchange (readRequest config) [] wire (.ok (some line)) := by
    intro written rest
    rw [hread written rest, List.append_nil]
  apply hfirst.bind_write
  simp only [hline]
  exact exchange_writeReply (handler ⟨url, peer⟩)

section Requests

variable {parse : Text → Except Text UrlRecord} (hparse : UrlRecord.Standard parse)
  {t : Text} {url : UrlRecord} (ht : parse t = .ok url) {config : ServerConfig}

theorem written_exchange
    (hlen : (Utf8.encode (url.display ++ ['\r', '\n'])).length ≤ maxRequest)
    (s : Duplex UInt8) : ((exchange url).on s).2.written =
      s.written ++ Utf8.encode (url.display ++ ['\r', '\n']) := by
  rw [exchange, if_neg (Nat.not_lt.mpr hlen)]
  apply written_bind
  intro _
  refine Reads.readToEnd.bind fun raw => ?_
  split
  · exact .throw _
  · exact .pure _

include hparse ht

theorem accepted_display (hscheme : url.scheme = "gemini".toList) (hhost : url.host.isSome)
    (hfragment : url.fragment = none)
    (hlen : (Utf8.encode url.display).length + 1 ≤ config.maxRequestLine) :
    Accepted parse config (Utf8.encode (url.display ++ ['\r', '\n'])) url := by
  refine ⟨Utf8.encode (url.display ++ ['\r']), ?_, ?_⟩
  · intro written rest
    rw [readRequest_display hparse ht hlen written rest, List.append_nil]
  · have hsome : ¬url.host.isNone := by
      rw [Option.isNone_iff_eq_none]
      exact Option.isSome_iff_ne_none.mp hhost
    rw [parseRequest_display hparse ht, if_neg (not_not.mpr hscheme), if_neg hsome, hfragment]
    rfl

theorem of_accepted_display {u : UrlRecord}
    (h : Accepted parse config (Utf8.encode (url.display ++ ['\r', '\n'])) u) :
    url.fragment = none ∧ (Utf8.encode url.display).length + 1 ≤ config.maxRequestLine := by
  obtain ⟨line, hread, hline⟩ := h
  have hfits : (Utf8.encode url.display).length + 1 ≤ config.maxRequestLine := by
    by_contra hlong
    have hnone := readRequest_display_none hparse ht (Nat.lt_of_not_le hlong) [] []
    rw [hread [] []] at hnone
    cases hnone
  have hsame := readRequest_display hparse ht hfits [] []
  rw [hread [] []] at hsame
  cases hsame
  refine ⟨?_, hfits⟩
  rw [parseRequest_display hparse ht] at hline
  split at hline
  · cases hline
  · split at hline
    · cases hline
    · split at hline
      · cases hline
      · next hfragment => exact Option.not_isSome_iff_eq_none.mp hfragment

end Requests

/-- **A request is accepted exactly if its URL has no fragment**, by a server that reads lines of
the length the client writes. -/
theorem accepted_iff {parse : Text → Except Text UrlRecord} (hparse : UrlRecord.Standard parse)
    {t : Text} {url : UrlRecord} (ht : parse t = .ok url) (hscheme : url.scheme = "gemini".toList)
    (hhost : url.host.isSome)
    (hlen : (Utf8.encode (url.display ++ ['\r', '\n'])).length ≤ maxRequest)
    (config : ServerConfig) :
    ∃ wire, (∀ s : Duplex UInt8, ((exchange url).on s).2.written = s.written ++ wire) ∧
      (Accepted parse config wire url.withoutFragment ↔ url.fragment = none ∧
        (Utf8.encode url.display).length + 1 ≤ config.maxRequestLine) := by
  refine ⟨_, written_exchange hlen, of_accepted_display hparse ht, ?_⟩
  rintro ⟨hfragment, hfits⟩
  rw [UrlRecord.withoutFragment_of_none hfragment]
  exact accepted_display hparse ht hscheme hhost hfragment hfits

/-- `gemini://a/b`, with or without a fragment. -/
def exampleUrl (fragment : Option Text) : UrlRecord where
  scheme := "gemini".toList
  host := some ['a']
  port := none
  path := ['/', 'b']
  query := none
  fragment
  username := []
  password := none

theorem accepted_exampleUrl :
    ∃ wire, (∀ s : Duplex UInt8,
        ((exchange (exampleUrl none)).on s).2.written = s.written ++ wire) ∧
      (Accepted (exampleUrl none).parseOnly {} wire (exampleUrl none).withoutFragment ↔
        (exampleUrl none).fragment = none ∧
          (Utf8.encode (exampleUrl none).display).length + 1 ≤ 1024) :=
  accepted_iff (UrlRecord.standard_parseOnly (Text.oneLine_iff.mpr (by decide)))
    (t := (exampleUrl none).display) (if_pos rfl) rfl rfl (by decide) {}

/-- `gemini://a/b#c` is sent with its fragment, and refused. -/
theorem not_accepted_fragment :
    ¬ ∀ (parse : Text → Except Text UrlRecord) (t : Text) (url : UrlRecord),
      UrlRecord.Standard parse → parse t = .ok url → url.scheme = "gemini".toList →
      url.host.isSome → (Utf8.encode (url.display ++ ['\r', '\n'])).length ≤ maxRequest →
      ∃ wire, (∀ s : Duplex UInt8, ((exchange url).on s).2.written = s.written ++ wire) ∧
        Accepted parse {} wire url.withoutFragment := by
  intro h
  have hparse : UrlRecord.Standard (exampleUrl (some ['c'])).parseOnly :=
    UrlRecord.standard_parseOnly (Text.oneLine_iff.mpr (by decide))
  have ht : (exampleUrl (some ['c'])).parseOnly (exampleUrl (some ['c'])).display = .ok _ :=
    if_pos rfl
  have hlen : (Utf8.encode ((exampleUrl (some ['c'])).display ++ ['\r', '\n'])).length ≤
      maxRequest := by decide
  obtain ⟨wire, hwritten, haccepted⟩ := h _ _ _ hparse ht rfl rfl hlen
  have hwire : wire = Utf8.encode ((exampleUrl (some ['c'])).display ++ ['\r', '\n']) := by
    have hboth := (hwritten ⟨[], []⟩).symm.trans (written_exchange hlen ⟨[], []⟩)
    simpa using hboth
  rw [hwire] at haccepted
  cases (of_accepted_display hparse ht haccepted).1

end Smolweb.Gemini
