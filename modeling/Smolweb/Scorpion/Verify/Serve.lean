import Mathlib.Data.List.Forall2
import Smolweb.Lib.Dialogue
import Smolweb.Scorpion.Verify.Replies
import Smolweb.Scorpion.Verify.Truncation

/-!
# A request from the client to the source and back

The source is asked what the client's constructor said, and the client reads what the source
replied (`served`). A document is fetched block by block (`document_fetched`), and a file in pieces
of any size (`ranges_fetched`).
-/

namespace Smolweb.Scorpion

open DuplexM

/-! ## Replies, read back -/

/-- A reply that the client reads as it was meant, if its status line is within the limit. -/
inductive Reply.Sendable (limits : Limits) (requestedRange : Option Range) : Reply → Prop
  | file {reply : Reply} {body : Bytes} {success : Success}
      (h : Deliverable limits requestedRange reply body success)
      (hspace : ' ' ∉ success.mediaType) :
      Sendable limits requestedRange reply
  | redirect {url : Text} {permanent : Bool} (hne : url ≠ []) (hlf : '\n' ∉ url) :
      Sendable limits requestedRange (.redirect url permanent)
  | input {prompt : Text} (hne : prompt ≠ []) (hlf : '\n' ∉ prompt) :
      Sendable limits requestedRange (.input prompt)
  | status {code : Status} {message : Text} (hclass : code.major ≠ .success)
      (hlf : '\n' ∉ message) : Sendable limits requestedRange (.status code message)

/-- What a reply says, as the client's header and its accessors give it. -/
inductive Reply.Received : Reply → Response → Prop
  | content {body : Bytes} {mediaType : Text} {version : Option Text} {header : Header}
      (hstatus : header.status = .OK)
      (h : header.success =
        some (.ok ⟨.known (UInt64.ofNat body.length), mediaType, version⟩)) :
      Received (.content body mediaType version) ⟨header, body⟩
  | partialContent {body : Bytes} {total : UInt64} {mediaType : Text} {header : Header}
      (hstatus : header.status = .PARTIAL)
      (h : header.success = some (.ok ⟨.known total, mediaType, none⟩)) :
      Received (.partialContent body total mediaType) ⟨header, body⟩
  | redirect {url : Text} {permanent : Bool} {header : Header}
      (hstatus : header.status = if permanent then .PERMANENT_REDIRECT else .TEMPORARY_REDIRECT)
      (h : header.redirect = some url) : Received (.redirect url permanent) ⟨header, []⟩
  | input {prompt : Text} {header : Header} (hstatus : header.status = .INPUT)
      (h : header.prompt = some prompt) : Received (.input prompt) ⟨header, []⟩
  | status {code : Status} {message : Text} :
      Received (.status code message) ⟨⟨code, splitParameters code message⟩, []⟩

section

variable {limits : Limits} {requestedRange : Option Range} {reply : Reply}

/-- A file is read whole, with its status, size, type and version. -/
theorem readResponse_file {body : Bytes} {success : Success}
    (h : Deliverable limits requestedRange reply body success) (hspace : ' ' ∉ success.mediaType)
    (hfits : reply.render.1.toWire.length ≤ limits.maxHeader + 1) (written : Bytes) :
    ∃ header, ((readResponse limits requestedRange).on ⟨reply.toWire, written⟩).1 =
      .ok ⟨header, body⟩ ∧ header.status = reply.render.1.status ∧
        header.success = some (.ok success) := by
  obtain ⟨status, size, hmajor, hsize, hrender, hne, hline, hversion, hread⟩ := h.file
  have hlf : '\n' ∉ (Header.file status size success.mediaType success.version).text :=
    Header.lf_not_mem_file hline fun v hv => (hversion v hv).2
  rw [hrender] at hfits
  have hlength := Header.toWire_fits_iff.mp hfits
  have hparse : Header.parse (Header.file status size success.mediaType success.version).text =
      .ok (Header.fileRead status size success.mediaType success.version) :=
    Header.parse_text (Text.stripLineEnd_of_not_mem hlf)
  have hsuccess : (Header.fileRead status size success.mediaType success.version).success =
      some (.ok ⟨.known size, success.mediaType, success.version⟩) :=
    Header.success_fileRead hmajor hspace hne fun v hv => (hversion v hv).1
  have hstream : reply.toWire = Utf8.encode
      (Header.file status size success.mediaType success.version).text ++ [13] ++ 10 :: body := by
    rw [Reply.toWire, hrender, Header.toWire_eq, Utf8.encode_append, encode_crlf]
    simp [crlf]
  have hresponse := readResponse_on (.of_text hlf hlength hparse hmajor hsuccess) requestedRange
    written (.inl hstream)
  have hstatus :
      (Header.fileRead status size success.mediaType success.version).status = status := rfl
  rw [hstatus, hread] at hresponse
  refine ⟨Header.fileRead status size success.mediaType success.version, ?_, ?_, ?_⟩
  · rw [hresponse]
  · rw [hrender, hstatus, Header.file]
  · rw [hsuccess, ← hsize]

/-- A reply without a file is its status line. -/
theorem readResponse_line (header : Header) (hrender : reply.render = (header, []))
    (hclass : header.status.major ≠ .success) (hlf : ∀ p ∈ header.parameters, '\n' ∉ p)
    (hfits : reply.render.1.toWire.length ≤ limits.maxHeader + 1) (written : Bytes) :
    ((readResponse limits requestedRange).on ⟨reply.toWire, written⟩).1 =
      .ok ⟨⟨header.status, splitParameters header.status
        (Text.joinFields ' ' header.parameters)⟩, []⟩ := by
  have htext := Header.lf_not_mem_text hlf
  rw [hrender] at hfits
  have hline := readLine_exchange htext (Header.toWire_fits_iff.mp hfits) written []
  have hwire : reply.toWire = Utf8.encode header.text ++ crlf ++ [] := by
    rw [Reply.toWire, hrender, Header.toWire_eq, Utf8.encode_append, encode_crlf]
  have hparse := Header.parse_text (Text.stripLineEnd_of_not_mem htext)
  rw [hwire, readResponse, on_bind, hline]
  simp only [hparse, if_pos hclass]
  rfl

theorem splitParameters_of_none {status : Status} (hlead : status.leadingParameters = 0) {t : Text}
    (hne : t ≠ []) : splitParameters status t = [t] := by
  rw [splitParameters, hlead, Text.splitFields, Text.splitLeading]
  simp [hne]

/-- **A reply is read as it was meant.** -/
theorem readResponse_reply (h : reply.Sendable limits requestedRange)
    (hfits : reply.render.1.toWire.length ≤ limits.maxHeader + 1) (written : Bytes) :
    ∃ response, ((readResponse limits requestedRange).on ⟨reply.toWire, written⟩).1 =
      .ok response ∧ reply.Received response := by
  cases h with
  | file h hspace =>
    obtain ⟨header, hread, hstatus, hsuccess⟩ := readResponse_file h hspace hfits written
    refine ⟨_, hread, ?_⟩
    cases h with
    | content => exact .content hstatus hsuccess
    | partialContent => exact .partialContent hstatus hsuccess
  | @redirect url permanent hne hlf =>
    have hclass : (if permanent then Status.PERMANENT_REDIRECT
        else Status.TEMPORARY_REDIRECT).major = .redirect := by
      cases permanent <;> rfl
    refine ⟨_, readResponse_line _ rfl ?_ (by simpa using hlf) hfits written, .redirect rfl ?_⟩
    · simp only [hclass]
      decide
    · rw [Header.redirect, if_pos hclass, Text.joinFields, splitParameters_of_none _ hne]
      · rfl
      · rw [Status.leadingParameters, hclass]
        rfl
  | @input prompt hne hlf =>
    have hclass : Status.INPUT.major = .input := by decide
    have hlead : Status.INPUT.leadingParameters = 0 := by decide
    refine ⟨_, readResponse_line _ rfl ?_ (by simpa using hlf) hfits written, .input rfl ?_⟩
    · simp only [hclass]
      decide
    · rw [Header.prompt, if_pos hclass, Text.joinFields, splitParameters_of_none hlead hne]
      rfl
  | @status code message hclass hlf =>
    have hparameters : ∀ p ∈ (if message.isEmpty then [] else [message]), '\n' ∉ p := by
      split
      · simp
      · simpa using hlf
    have hjoin : Text.joinFields ' ' (if message.isEmpty then [] else [message]) = message := by
      cases message <;> rfl
    have hread : ((readResponse limits requestedRange).on
        ⟨(Reply.status code message).toWire, written⟩).1 = _ :=
      readResponse_line ⟨code, if message.isEmpty then [] else [message]⟩ rfl hclass hparameters
        hfits written
    simp only [hjoin] at hread
    exact ⟨_, hread, .status⟩

end

/-! ## Requests, served -/

/-- The server's loop is the client's, but for its errors. -/
theorem requestLoop_eq (max : Nat) (line unread : Bytes) : requestLoop max line unread =
    (match (DuplexM.lineLoop 10 max line unread).1 with
      | none => .error .tooLong
      | some a => if a.isEmpty ∧ 10 ∉ unread then .error .unexpectedEof else .ok a,
      (DuplexM.lineLoop 10 max line unread).2) := by
  induction unread generalizing line with
  | nil => simp [requestLoop, DuplexM.lineLoop]
  | cons b rest ih =>
    by_cases hb : b = 10
    · simp [requestLoop, DuplexM.lineLoop, hb]
    · rw [requestLoop, DuplexM.lineLoop, if_neg hb, if_neg hb]
      by_cases hmax : max ≤ line.length
      · rw [if_pos hmax, if_pos (Nat.lt_succ_of_le hmax)]
      · rw [if_neg hmax, if_neg (by omega), ih]
        simp [Ne.symm hb]

theorem readRequestLine_exchange {max : Nat} {t : Text} (h : '\n' ∉ t)
    (hlen : (Utf8.encode t).length < max) :
    Exchange (readRequestLine max) [] (Utf8.encode t ++ crlf) (.ok t) := by
  intro written rest
  have hstream : Utf8.encode t ++ crlf ++ rest = (Utf8.encode t ++ [13]) ++ 10 :: rest := by
    simp [crlf]
  have hloop : requestLoop max [] (Utf8.encode t ++ [13] ++ 10 :: rest) =
      (.ok (Utf8.encode t ++ [13]), rest) := by
    have hfits : ([] : Bytes).length + (Utf8.encode t ++ [13]).length ≤ max := by
      rw [List.length_append, List.length_singleton, List.length_nil]
      omega
    rw [requestLoop_eq, Exchange.lineLoop_append (lf_not_mem_line h) [] rest hfits]
    simp
  have hbytes : (readRequestBytes max).on ⟨Utf8.encode t ++ [13] ++ 10 :: rest, written⟩ =
      (.ok (Utf8.encode t ++ [13]), ⟨rest, written⟩) :=
    congrArg (fun r => (r.1, (⟨r.2, written⟩ : Duplex UInt8))) hloop
  rw [hstream, readRequestLine, on_bind, hbytes]
  simp [on_pure]

/-- The line of a request whose parameter and URL are one line. -/
theorem Request.lf_not_mem_text {r : Request} (hparameter : '\n' ∉ r.parameter.render)
    (hurl : '\n' ∉ r.url) : '\n' ∉ r.text := by
  have hletter : '\n' ≠ r.subprotocol.letter := by
    cases r.subprotocol <;> decide
  have hstrip : '\n' ∉ stripFragment r.url := by
    unfold stripFragment
    split
    · next head tail hsplit =>
      obtain ⟨hhead, -⟩ := Text.splitOnce_eq_some_iff.mp hsplit
      rw [hhead, List.mem_append] at hurl
      exact fun h => hurl (.inl h)
    · exact hurl
  simp [text, hletter, hparameter, hstrip]

theorem Request.parse_text {r : Request} (hlf : '\n' ∉ r.text) :
    ofWire r.toWire = some (parse r.text) := by
  rw [ofWire, toWire_eq, Utf8.decode_encode, Option.map_some, parse, parse,
    Text.stripLineEnd_crlf, Text.stripLineEnd_of_not_mem hlf]

/-- **The source is asked** what the line says. -/
theorem answers_toWire {r r' : Request} (hlf : '\n' ∉ r.text)
    (hread : Request.ofWire r.toWire = some (.ok r'))
    (hfits : r.toWire.length ≤ maxRequestLine + 1) (source : Source) :
    (serveConnection source).Answers r.toWire (source.answer r').toWire := by
  rw [Request.parse_text hlf, Option.some_inj] at hread
  have hwire : r.toWire = Utf8.encode r.text ++ crlf := by
    rw [Request.toWire_eq, Utf8.encode_append, encode_crlf]
  rw [hwire, List.length_append] at hfits
  have hcrlf : crlf.length = 2 := rfl
  have hline := readRequestLine_exchange hlf (show _ < maxRequestLine by omega)
  rw [hwire]
  intro rest written
  rw [serveConnection, on_bind, hline]
  simp only [hread]
  rw [List.append_nil]
  rfl

/-! ## From end to end -/

theorem reads_readResponse (limits : Limits) (requestedRange : Option Range) :
    Reads (readResponse limits requestedRange) := by
  have hline : Reads (readLine limits.maxHeader) := by
    refine .bind (p := readLineBytes limits.maxHeader) ⟨fun _ => rfl, fun s => ?_⟩ fun a => ?_
    · show (lineLoop limits.maxHeader [] s.unread).2 <:+ s.unread
      rw [lineLoop_eq]
      exact lineLoop_suffix ..
    · simp only
      split
      · exact .pure _
      · exact .throw _
  have hbody (status : Status) (size : Size) :
      Reads (readBody limits requestedRange status size) := by
    unfold readBody
    split
    · exact .readUpTo _
    · cases size with
      | unknown => exact .readUpTo _
      | known size =>
        simp only
        split
        · exact .throw _
        · refine .bind (.readExact _) fun body? => ?_
          cases body? with
          | none => exact .throw _
          | some body => exact .pure _
  refine hline.bind fun line => ?_
  split
  · exact .throw _
  · split
    · exact .pure _
    · split
      · exact .throw _
      · exact (hbody ..).bind fun body => .pure _
      · exact (hbody ..).bind fun body => .pure _

/-- The range that a request asks for. -/
def askedRange : Parameter → Option Range
  | .range range => some range
  | _ => none

theorem exchange_eq (r : Request) (limits : Limits) : exchange r limits =
    DuplexM.write r.toWire >>= fun _ => readResponse limits (askedRange r.parameter) := by
  unfold exchange
  cases r.parameter <;> rfl

theorem dialogue_toWire {r r' : Request} (hlf : '\n' ∉ r.text)
    (hread : Request.ofWire r.toWire = some (.ok r'))
    (hfits : r.toWire.length ≤ maxRequestLine + 1) {source : Source} {limits : Limits}
    (hreply : (source.answer r').Sendable limits (askedRange r.parameter))
    (hheader : (source.answer r').render.1.toWire.length ≤ limits.maxHeader + 1) :
    ∃ response, Dialogue (exchange r limits) (serveConnection source) (.ok response) ∧
      (source.answer r').Received response := by
  obtain ⟨response, hresponse, hreceived⟩ := readResponse_reply hreply hheader r.toWire
  refine ⟨response, ⟨r.toWire, _, ?_, answers_toWire hlf hread hfits source, ?_⟩, hreceived⟩
  · rw [exchange_eq]
    exact .write_bind _ (reads_readResponse ..)
  · rw [exchange_eq, on_write_bind]
    exact hresponse

theorem Construction.lf_not_mem_render (url : Text) (c : Request.Construction) :
    '\n' ∉ (c.request url).parameter.render := by
  cases c with
  | receive => simp [Request.Construction.request, Request.receive, Parameter.render]
  | receiveRange range =>
    have hlf (n : Nat) : '\n' ∉ Text.decimal n := Text.not_mem_decimal (by decide)
    show '\n' ∉ range.render
    unfold Range.render
    split <;> simp [hlf]
  | metadata => simp [Request.Construction.request, Request.metadata, Parameter.render]
  | send version =>
    cases version with
    | none => simp [Request.Construction.request, Request.send, Parameter.render]
    | some v => exact (Text.oneLine_iff_not_mem.mp v.oneLine).2
  | interactive capabilities =>
    cases capabilities with
    | none => simp [Request.Construction.request, Request.interactive, Parameter.render]
    | some v => exact (Text.oneLine_iff_not_mem.mp v.oneLine).2

section

variable (url : Request.PlainUrl) (c : Request.Construction)

theorem Construction.lf_not_mem_text : '\n' ∉ (c.request url.text).text := by
  apply Request.lf_not_mem_text (Construction.lf_not_mem_render _ c)
  rw [c.url_request]
  exact (Text.oneLine_iff_not_mem.mp url.oneLine).2

theorem Construction.ofWire_toWire
    (hversion : ∀ version, c = .send (some version) → '@' ∉ version.text) :
    Request.ofWire (c.request url.text).toWire = some (.ok (c.request url.text)) := by
  have hurl : (c.request url.text).url = url.text := c.url_request url.text
  rw [Request.ofWire_toWire (c.space_not_mem url.text) (by rw [hurl]; exact url.scheme),
    (Request.Construction.parse_render_iff url.text c).mpr hversion, hurl,
    stripFragment_of_not_mem url.fragment]
  cases c <;> rfl

end

def sampleUrl : Request.PlainUrl where
  text := "scorpion://x/".toList
  scheme := by decide
  fragment := by decide
  space := by decide
  oneLine := by decide

/-- **A document is fetched block by block**; a field that its byte cannot hold is read back as the
format holds it. -/
theorem document_fetched (url : Request.PlainUrl)
    (hfits : (Request.receive url.text).toWire.length ≤ maxRequestLine + 1) {blocks : List Block}
    {reply : Reply} (hdocument : Reply.document blocks = .ok reply) {source : Source}
    (hsource : source.receive url.text none = reply) {limits : Limits}
    (hheader : reply.render.1.toWire.length ≤ limits.maxHeader + 1)
    (hbody : (blocks.map Block.size).sum ≤ limits.maxBody.toNat) :
    ∃ response, Dialogue (exchange (Request.receive url.text) limits) (serveConnection source)
        (.ok response) ∧
      response.header.success = some (.ok ⟨.known (UInt64.ofNat (blocks.map Block.size).sum),
        "application/x-scorpion".toList, none⟩) ∧
      parse response.body = .ok (blocks.map Block.readBack) := by
  obtain ⟨body, hencode, rfl⟩ : ∃ body, encode blocks = .ok body ∧
      .content body "application/x-scorpion".toList none = reply := by
    unfold Reply.document at hdocument
    cases hencode : encode blocks with
    | error e =>
      rw [hencode] at hdocument
      cases hdocument
    | ok body =>
      rw [hencode] at hdocument
      cases hdocument
      exact ⟨body, rfl, rfl⟩
  obtain ⟨hencodable, rfl⟩ := encode_eq_ok.mp hencode
  have hlength : (blocks.flatMap Block.wire).length = (blocks.map Block.size).sum := by
    rw [List.length_flatMap]
    exact congrArg List.sum (List.map_congr_left fun b _ => length_wire b)
  have hparse : parse (blocks.flatMap Block.wire) = .ok (blocks.map Block.readBack) := by
    have hwires : (blocks.map Block.readBack).flatMap Block.wire = blocks.flatMap Block.wire := by
      rw [List.flatMap_map]
      exact congrArg (fun f => blocks.flatMap f) (funext readBack_wire)
    rw [parse, ← hwires]
    apply collect_wires
    intro b hb
    obtain ⟨block, hblock, rfl⟩ := List.mem_map.mp hb
    exact readBack_canonical (hencodable block hblock)
  rw [← hlength] at hbody
  have hanswer : source.answer (Request.receive url.text) = .content (blocks.flatMap Block.wire)
    "application/x-scorpion".toList none := hsource
  have hspace : ' ' ∉ "application/x-scorpion".toList := by decide
  have hlf : '\n' ∉ (Request.receive url.text).text := Construction.lf_not_mem_text url .receive
  have hread : Request.ofWire (Request.receive url.text).toWire =
      some (.ok (Request.receive url.text)) :=
    Construction.ofWire_toWire url .receive (by simp)
  obtain ⟨response, hdialogue, hreceived⟩ : ∃ response,
      Dialogue (exchange (Request.receive url.text) limits) (serveConnection source)
        (.ok response) ∧ (source.answer (Request.receive url.text)).Received response := by
    apply dialogue_toWire hlf hread hfits
    · rw [hanswer]
      exact .file (.content (by decide) (by decide) (by simp) hbody) hspace
    · rwa [hanswer]
  rw [hanswer] at hreceived
  cases hreceived with
  | content _ hsuccess => exact ⟨_, hdialogue, hlength ▸ hsuccess, hparse⟩

/-- A source of one document. -/
def sampleDocument : Source where
  receive _ _ := .content (sampleBlocks.flatMap Block.wire) "application/x-scorpion".toList none

theorem document_fetched_sample : ∃ response,
    Dialogue (exchange (Request.receive "scorpion://x/".toList) {})
        (serveConnection sampleDocument) (.ok response) ∧
      response.header.success = some (.ok ⟨.known (UInt64.ofNat (sampleBlocks.map Block.size).sum),
        "application/x-scorpion".toList, none⟩) ∧
      parse response.body = .ok (sampleBlocks.map Block.readBack) :=
  document_fetched sampleUrl (by decide) rfl rfl (by decide) (by decide)

/-! ## In pieces -/

/-- The bytes of a range. -/
def slice (file : Bytes) (range : Range) : Bytes :=
  (file.take (range.stop.elim file.length UInt64.toNat)).drop range.start.toNat

/-- The ranges from `start` on, cut at `stops`; the last one is open. -/
def pieces : UInt64 → List UInt64 → List Range
  | start, [] => [⟨start, none⟩]
  | start, stop :: stops => ⟨start, some stop⟩ :: pieces stop stops

theorem flatMap_slice_pieces (file : Bytes) {start : UInt64} {stops : List UInt64}
    (h : (start :: stops).Pairwise (· ≤ ·)) :
    (pieces start stops).flatMap (slice file) = file.drop start.toNat := by
  induction stops generalizing start with
  | nil => simp [pieces, slice]
  | cons stop stops ih =>
    obtain ⟨hstart, hstops⟩ := List.pairwise_cons.mp h
    have hle : start.toNat ≤ stop.toNat := UInt64.le_iff_toNat_le.mp (hstart stop (by simp))
    rw [pieces, List.flatMap_cons, ih hstops]
    show (file.take stop.toNat).drop start.toNat ++ file.drop stop.toNat = file.drop start.toNat
    conv_rhs => rw [← List.take_append_drop stop.toNat file, List.drop_append]
    rcases Nat.le_total file.length stop.toNat with hlong | hshort
    · simp [List.drop_of_length_le hlong]
    · rw [List.length_take, Nat.min_eq_left hshort, Nat.sub_eq_zero_of_le hle, List.drop_zero]

theorem length_slice_le {file : Bytes} {range : Range} {len : Nat} (h : range.len = some len) :
    (slice file range).length ≤ len := by
  unfold Range.len at h
  obtain ⟨stop, hstop, rfl⟩ := Option.map_eq_some_iff.mp h
  rw [slice, hstop, Option.elim_some, List.length_drop, List.length_take]
  omega

/-- The source answers a range with the bytes of the file that are in it. -/
def Source.Slices (source : Source) (url : Text) (file : Bytes) (mediaType : Text) : Prop :=
  ∀ range, source.receive url (some range) =
    .partialContent (slice file range) (UInt64.ofNat file.length) mediaType

/-- **A file is fetched in pieces**, however it is cut: the bodies that are received are the file,
though it may be longer than any one of them may be. -/
theorem ranges_fetched (url : Request.PlainUrl) {source : Source} {file : Bytes} {mediaType : Text}
    (hsource : source.Slices url.text file mediaType) (hne : mediaType ≠ [])
    (hline : mediaType.OneLine) (hspace : ' ' ∉ mediaType) {stops : List UInt64}
    (hstops : stops.Pairwise (· ≤ ·)) {limits : Limits}
    (hfits : ∀ range ∈ pieces 0 stops,
      (Request.receiveRange url.text range).toWire.length ≤ maxRequestLine + 1)
    (hheader : (Header.file .PARTIAL (UInt64.ofNat file.length) mediaType none).toWire.length ≤
      limits.maxHeader + 1)
    (hbody : ∀ range ∈ pieces 0 stops, (slice file range).length ≤ limits.maxBody.toNat) :
    ∃ responses : List Response,
      List.Forall₂ (fun range response => Dialogue
        (exchange (Request.receiveRange url.text range) limits) (serveConnection source)
        (.ok response)) (pieces 0 stops) responses ∧
      responses.flatMap Response.body = file := by
  have hpiece (range : Range) (hrange : range ∈ pieces 0 stops) : ∃ response,
      Dialogue (exchange (Request.receiveRange url.text range) limits) (serveConnection source)
        (.ok response) ∧ response.body = slice file range := by
    have hanswer : source.answer (Request.receiveRange url.text range) =
      .partialContent (slice file range) (UInt64.ofNat file.length) mediaType := hsource range
    have hlf : '\n' ∉ (Request.receiveRange url.text range).text :=
      Construction.lf_not_mem_text url (.receiveRange range)
    have hread : Request.ofWire (Request.receiveRange url.text range).toWire =
        some (.ok (Request.receiveRange url.text range)) :=
      Construction.ofWire_toWire url (.receiveRange range) (by simp)
    obtain ⟨response, hdialogue, hreceived⟩ : ∃ response,
        Dialogue (exchange (Request.receiveRange url.text range) limits) (serveConnection source)
          (.ok response) ∧
        (source.answer (Request.receiveRange url.text range)).Received response := by
      apply dialogue_toWire hlf hread (hfits range hrange)
      · rw [hanswer]
        exact .file (.partialContent hne hline (hbody range hrange) rfl
          fun len => length_slice_le) hspace
      · rw [hanswer]
        exact hheader
    rw [hanswer] at hreceived
    cases hreceived
    exact ⟨_, hdialogue, rfl⟩
  have hnonempty : Nonempty Response := ⟨⟨.OK, []⟩, []⟩
  choose! response hdialogue hresponse using hpiece
  refine ⟨(pieces 0 stops).map response, ?_, ?_⟩
  · rw [List.forall₂_map_right_iff, List.forall₂_same]
    exact hdialogue
  · have hsorted : ((0 : UInt64) :: stops).Pairwise (· ≤ ·) :=
      List.pairwise_cons.mpr ⟨fun _ _ => UInt64.zero_le, hstops⟩
    rw [List.flatMap_map]
    calc (pieces 0 stops).flatMap (fun range => (response range).body)
        = (pieces 0 stops).flatMap (slice file) := List.flatMap_congr hresponse
      _ = file.drop 0 := flatMap_slice_pieces file hsorted
      _ = file := List.drop_zero

/-- A source of one file, of five bytes. -/
def sampleFile : Source where
  receive _ range? :=
    .partialContent (slice [1, 2, 3, 4, 5] (range?.getD ⟨0, none⟩)) 5 "a/b".toList

/-- Five bytes, by a client that takes no more than two at once. -/
theorem ranges_fetched_sample : ∃ responses : List Response,
    List.Forall₂ (fun range response => Dialogue
      (exchange (Request.receiveRange "scorpion://x/".toList range) { maxBody := 2 })
      (serveConnection sampleFile) (.ok response)) (pieces 0 [2, 4]) responses ∧
    responses.flatMap Response.body = [1, 2, 3, 4, 5] :=
  have hsource : sampleFile.Slices "scorpion://x/".toList [1, 2, 3, 4, 5] "a/b".toList :=
    fun _ => rfl
  ranges_fetched sampleUrl hsource (by decide) (by decide) (by decide) (by decide) (by decide)
    (by decide) (by decide)

end Smolweb.Scorpion
