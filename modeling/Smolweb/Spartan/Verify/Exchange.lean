import Smolweb.Spartan.Verify.Requests
import Smolweb.Spartan.Verify.Responses

/-!
# A spartan exchange

What the asker of a request is told: what the handler answered to it, or the server's own answer to
a request line or a data block beyond its limits, unless the client's cap cuts the answer off
(`dialogue_request`). A data block that is too large is refused before any of it is read.
-/

namespace Smolweb.Spartan

open DuplexM

/-! ## Lines that are too long -/

theorem lineLoop_none {max p : Nat} (hmax : max < p + 2) (line unread : Bytes)
    (hline : ¬crlf <:+: line) (hlength : line = [] ∨ line.length < max)
    (hp : crlfPosition (line ++ unread) = some p) : (lineLoop max line unread).1 = none := by
  induction unread generalizing line with
  | nil =>
    rw [List.append_nil, crlfPosition_eq_none_iff.mpr hline] at hp
    cases hp
  | cons byte rest ih =>
    have happend : line ++ byte :: rest = line ++ [byte] ++ rest := by simp
    rw [happend] at hp
    unfold lineLoop
    split
    · next hend =>
      obtain ⟨q, hq, hqlen⟩ := crlfPosition_concat hline hend rest
      rw [hp, Option.some.injEq] at hq
      rw [List.length_append, List.length_singleton] at hqlen
      -- a line that ends here was shorter than the limit before
      rcases hlength with rfl | hlength
      · rw [List.length_nil] at hqlen
        omega
      · omega
    · next hend =>
      split
      · rfl
      · next hshort =>
        exact ih (line ++ [byte]) (not_crlf_concat hline hend) (.inr (Nat.lt_of_not_le hshort)) hp

/-! ## What the server answers -/

/-- The answer to a request of the client's: a line or a data block that is too large is answered
by the server itself. -/
def answer {P : Type} (handler : Request P → SpartanResponse) (config : ServerConfig)
    (r : Request P) : SpartanResponse :=
  if config.maxRequestLine < (Utf8.encode (requestLine r.host r.path r.data.length)).length then
    .clientError "Request line too long.".toList
  else if config.maxUpload.toNat < r.data.length then
    .clientError ("Data block exceeds this server's limit of ".toList ++
      Text.decimal config.maxUpload.toNat ++ " bytes.".toList)
  else handler r

section Answer

variable {P : Type} (handler : Request P → SpartanResponse) (config : ServerConfig) (peer : P)
  {host path : Text} {data : Bytes}

theorem requestFields_tooLarge (hhost : SendableHost host) (hpath : IsUrlPath path)
    {length : Nat} (hsize : length ≤ maxU64) (hlength : config.maxUpload.toNat < length) :
    requestFields config (Utf8.encode (requestLine host path length)) =
      .error ("Data block exceeds this server's limit of ".toList ++
        Text.decimal config.maxUpload.toNat ++ " bytes.".toList) := by
  have hsplit : (requestText host path length).splitOn ' ' =
      [host, path, Text.decimal length] := by
    have hdecimal : ' ' ∉ Text.decimal length := Text.not_mem_decimal (by decide)
    rw [requestText, List.splitOn_append_cons_self_of_not_mem hhost.space,
      List.splitOn_append_cons_self_of_not_mem (hpath.not_mem (by decide)),
      List.splitOn_eq_singleton hdecimal]
  have hwell : ¬((host.isEmpty || host.contains ':') &&
      !(['['] <+: host && [']'] <:+ host)) = true := by
    rcases hhost.wellFormed with ⟨hne, hcolon⟩ | ⟨hopen, hclose⟩
    · simp [hne, hcolon]
    · simp [hopen, hclose]
  rw [requestFields, Utf8.decode_encode, requestLine_eq]
  simp only [trimEnd_requestText, hsplit, Text.parseUnsigned_decimal hsize]
  rw [if_neg hwell, if_neg (not_not.mpr hpath.absolute), if_pos hlength]

/-- The line of a request, behind which there may be anything. -/
theorem crlfPosition_requestLine (hhost : SendableHost host) (hpath : IsUrlPath path)
    (length : Nat) (rest : Bytes) :
    crlfPosition (Utf8.encode (requestLine host path length) ++ rest) =
        some (Utf8.encode (requestText host path length)).length ∧
      (Utf8.encode (requestLine host path length)).length =
        (Utf8.encode (requestText host path length)).length + 2 := by
  have hencode : Utf8.encode (requestLine host path length) =
      Utf8.encode (requestText host path length) ++ crlf := by
    rw [requestLine_eq, Utf8.encode_append, encode_crlf]
  rw [hencode]
  refine ⟨crlfPosition_encode (crlfFree_requestText hhost.crlfFree hpath) rest, ?_⟩
  rw [List.length_append]
  rfl

/-- **What the server says** to a request of the client's. -/
theorem answers_requestBytes (hhost : SendableHost host) (hpath : IsUrlPath path)
    (hsize : data.length ≤ maxU64) : (handleConnection handler peer config).Answers
      (requestBytes host path data) (answer handler config { host, path, data, peer }).encode := by
  by_cases hlong : config.maxRequestLine < (Utf8.encode (requestLine host path data.length)).length
  · intro rest written
    obtain ⟨hposition, hlength⟩ := crlfPosition_requestLine hhost hpath data.length (data ++ rest)
    have hloop := lineLoop_none (hlength ▸ hlong) [] _ (by simp [crlf]) (.inl rfl) hposition
    have hread : ((readRequestLine config).on
        ⟨Utf8.encode (requestLine host path data.length) ++ (data ++ rest), written⟩) =
          (.ok none, ⟨(lineLoop config.maxRequestLine [] _).2, written⟩) :=
      congrArg (fun line? => (Except.ok line?, _)) hloop
    rw [answer, if_pos hlong, requestBytes, List.append_assoc, handleConnection, readRequest,
      on_bind, on_bind, hread]
    rfl
  · by_cases hupload : config.maxUpload.toNat < data.length
    · intro rest written
      obtain ⟨hposition, hlength⟩ := crlfPosition_requestLine hhost hpath data.length (data ++ rest)
      have hread := on_readRequestLine (hlength ▸ Nat.le_of_not_lt hlong) hposition written
      rw [← hlength, List.take_left, List.drop_left] at hread
      have hrefused : (readRequest peer config).on
          ⟨Utf8.encode (requestLine host path data.length) ++ (data ++ rest), written⟩ =
            (.ok (.error ("Data block exceeds this server's limit of ".toList ++
              Text.decimal config.maxUpload.toNat ++ " bytes.".toList)),
              ⟨data ++ rest, written⟩) := by
        rw [readRequest, on_bind, hread]
        simp only [requestFields_tooLarge config hhost hpath hsize hupload]
        rfl
      rw [answer, if_neg hlong, if_pos hupload, requestBytes, List.append_assoc, handleConnection,
        on_bind, hrefused]
      rfl
    · have hread := exchange_readRequest peer (Nat.le_of_not_lt hlong)
        (Nat.le_of_not_lt hupload) hhost hpath
      have hreply : Exchange (handleConnection handler peer config)
          (handler { host, path, data, peer }).encode (requestBytes host path data) (.ok ()) :=
        hread.bind_write (Exchange.write _)
      rw [answer, if_neg hlong, if_neg hupload]
      exact hreply.answers

end Answer

/-! ## What the client is told -/

def SpartanResponse.read : SpartanResponse → Response
  | .success mime body => { status := .success, metaText := mime, body }
  | .redirect path => { status := .redirect, metaText := path, body := [] }
  | .clientError message => { status := .clientError, metaText := message, body := [] }
  | .serverError message => { status := .serverError, metaText := message, body := [] }

/-- What a client makes of a response: it gives up one that is larger than its cap. -/
def received (options : FetchOptions) (response : SpartanResponse) : Except ClientError Response :=
  if response.encode.length ≤ options.maxBody then .ok response.read
  else .error (.bodyTooLarge options.maxBody)

/-- A response whose meta a status line carries. -/
def SpartanResponse.Writable (response : SpartanResponse) : Prop :=
  Text.trim response.metaText = response.metaText ∧ response.metaText.CrlfFree

theorem writable_uploadLimit (limit : Nat) : (SpartanResponse.clientError
    ("Data block exceeds this server's limit of ".toList ++ Text.decimal limit ++
      " bytes.".toList)).Writable := by
  refine ⟨Text.trim_eq_self_iff.mpr ⟨?_, ?_⟩, .of_not_mem_cr ?_⟩
  · intro c hc
    obtain rfl : 'D' = c := by simpa [SpartanResponse.metaText] using hc
    rfl
  · intro c hc
    have hlast : (" bytes.".toList).getLast? = some '.' := rfl
    rw [SpartanResponse.metaText, List.getLast?_append, hlast] at hc
    obtain rfl := Option.some_inj.mp hc
    rfl
  · have hdecimal : '\r' ∉ Text.decimal limit := Text.not_mem_decimal (by decide)
    intro hm
    rcases List.mem_append.mp hm with hm | hm
    · rcases List.mem_append.mp hm with hm | hm
      · exact absurd hm (by decide)
      · exact hdecimal hm
    · exact absurd hm (by decide)

theorem writable_answer {P : Type} {handler : Request P → SpartanResponse} (config : ServerConfig)
    {r : Request P} (h : (handler r).Writable) : (answer handler config r).Writable := by
  unfold answer
  split
  · exact ⟨by decide +kernel, by decide +kernel⟩
  · split
    · exact writable_uploadLimit _
    · exact h

/-- The client reads an answer back, up to its cap. -/
theorem dialogue_request {P : Type} {handler : Request P → SpartanResponse}
    {config : ServerConfig} {host path : Text} {data : Bytes} {peer : P}
    (hhost : SendableHost host) (hpath : IsUrlPath path) (hsize : data.length ≤ maxU64)
    (hhandler : (handler { host, path, data, peer }).Writable) (options : FetchOptions) :
    Dialogue (request host path data options) (handleConnection handler peer config)
      (received options (answer handler config { host, path, data, peer })) := by
  have hanswers := answers_requestBytes handler config peer hhost hpath hsize
  obtain ⟨htrim, hcrlf⟩ := writable_answer config hhandler
  have hparse : parseResponse (answer handler config { host, path, data, peer }).encode =
      .ok (answer handler config { host, path, data, peer }).read := by
    rw [SpartanResponse.parseResponse_encode _ htrim hcrlf]
    cases answer handler config { host, path, data, peer } with
    | success => rfl
    | redirect => rfl
    | clientError => rfl
    | serverError => rfl
  refine .of_readCapped (exchange_writeRequest host path data) hanswers ?_ ?_
  · intro raw?
    split
    · exact .throw _
    · split
      · exact .throw _
      · exact .pure _
  · by_cases hfits : (answer handler config { host, path, data, peer }).encode.length ≤
        options.maxBody
    · rw [received, if_pos hfits, if_pos hfits]
      simp only [hparse]
      rfl
    · rw [received, if_neg hfits, if_neg hfits]
      rfl

/-- **A submission** of data to a URL is told what the server answers to it; a fetch submits the
data that the URL's query is. -/
theorem dialogue_submit {crates : Crates} (hcrates : crates.Documented) {url : Text}
    {parts : UrlParts} (hparts : splitUrl crates url = .ok parts) (hhost : SendableHost parts.host)
    {data : Bytes} (hsize : data.length ≤ maxU64) (options : FetchOptions) {P : Type} (peer : P)
    (config : ServerConfig) {handler : Request P → SpartanResponse}
    (hhandler : (handler { host := parts.host, path := parts.path, data, peer }).Writable) :
    ∃ f, submit crates url data options = .ok f ∧
      (data = parts.queryData.getD [] → fetch crates url options = .ok f) ∧
      f.host = parts.host ∧ f.port = parts.port ∧
      Dialogue f.exchange (handleConnection handler peer config)
        (received options (answer handler config
          { host := parts.host, path := parts.path, data, peer })) := by
  obtain ⟨parsed, raw, hurl, hraw, -, hpath⟩ := splitUrl_eq_ok hparts
  have hurlPath : IsUrlPath parts.path := by
    rw [hpath]
    exact isUrlPath_of_documented hcrates hurl (by rw [hraw]; rfl)
  refine ⟨⟨parts.host, parts.port, request parts.host parts.path data options⟩, ?_, ?_, rfl, rfl,
    dialogue_request hhost hurlPath hsize hhandler options⟩
  · rw [submit, hparts]
  · rintro rfl
    rw [fetch, hparts]

/-- Data that is beyond the server's limit, and a page that is beyond the client's. -/
theorem dialogue_submit_sample :
    ∃ f, submit (sampleCrates ['a']) "spartan://a/".toList [1, 2] {} = .ok f ∧
      ([1, 2] = (none : Option Bytes).getD [] →
        fetch (sampleCrates ['a']) "spartan://a/".toList {} = .ok f) ∧
      f.host = ['a'] ∧ f.port = 300 ∧ Dialogue f.exchange
        (handleConnection (fun _ => .success "text/plain".toList [3]) () { maxUpload := 1 })
        (received {} (answer (fun _ => .success "text/plain".toList [3]) { maxUpload := 1 }
          { host := ['a'], path := ['/'], data := [1, 2], peer := () })) :=
  have hparts : splitUrl (sampleCrates ['a']) "spartan://a/".toList =
      .ok ⟨['a'], 300, ['/'], none⟩ := rfl
  dialogue_submit (documented_sampleCrates ['a']) hparts
    ⟨by decide, by decide, .inl ⟨by decide, by decide⟩⟩ (by decide) {} () { maxUpload := 1 }
    ⟨by decide +kernel, by decide +kernel⟩

end Smolweb.Spartan
