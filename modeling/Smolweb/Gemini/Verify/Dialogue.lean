import Smolweb.Gemini.Verify.Server
import Smolweb.Lib.Dialogue

/-!
# A gemini fetch, from end to end

Whoever fetches a URL is told what the handler replied to it, or why the server did not ask the
handler: the line was too long for it, the scheme was another, or there was no host or a fragment
(`dialogue_exchange`).
-/

namespace Smolweb.Gemini

open DuplexM

/-- A reply that a client reads as it was written: a status of some class, and a meta that a header
line carries. -/
structure Reply.Readable (reply : Reply) (status : Status) : Prop where
  status_eq : reply.status = some status
  oneLine : reply.metaText.OneLine
  start : ∀ c, reply.metaText.head? = some c → Text.isWhitespace c = false

/-- What a client makes of a reply. -/
def Reply.received (reply : Reply) (status : Status) : Response where
  status := status
  code := reply.code
  metaText := reply.metaText
  body := if status = .success then reply.body else []

theorem Reply.Readable.parseResponse_toWire {reply : Reply} {status : Status}
    (h : reply.Readable status) : parseResponse reply.toWire = .ok (reply.received status) := by
  rw [toWire, Reply.parseResponse_headerLine h.status_eq h.oneLine h.start, h.status_eq, received]
  by_cases hsuccess : status = .success
  · rw [hsuccess, if_pos rfl, if_pos rfl, if_pos rfl]
  · rw [if_neg hsuccess, if_neg hsuccess]

theorem start_cons {c : Char} {t : Text} (h : Text.isWhitespace c = false) :
    ∀ c', (c :: t).head? = some c' → Text.isWhitespace c' = false := by
  rintro c' ⟨rfl⟩
  exact h

theorem status_refusal (reason : Text) :
    (Reply.header 59 reason).status = some .permanentFailure := by
  show Status.fromCode 59 = _
  decide

/-- The server's reply to a URL, by which the handler is asked last. -/
def replyTo {P : Type} (handler : Request P → Reply) (peer : P) (config : ServerConfig)
    (url : UrlRecord) : Reply :=
  if config.maxRequestLine < (Utf8.encode url.display).length + 1 then tooLong
  else if url.scheme ≠ "gemini".toList then
    .header 59 ("scheme ".toList ++ url.scheme ++ " is not gemini".toList)
  else if url.host.isNone then .header 59 "request has no host".toList
  else if url.fragment.isSome then .header 59 "request carries a fragment".toList
  else handler { url, peer }

section

variable {parse : Text → Except Text UrlRecord} (hparse : UrlRecord.Standard parse) {t : Text}
  {url : UrlRecord} (ht : parse t = .ok url) {P : Type} {handler : Request P → Reply} {peer : P}
  {config : ServerConfig}
include hparse ht

theorem answer_display : answer parse handler peer (Utf8.encode (url.display ++ ['\r'])) =
    if url.scheme ≠ "gemini".toList then
      .header 59 ("scheme ".toList ++ url.scheme ++ " is not gemini".toList)
    else if url.host.isNone then .header 59 "request has no host".toList
    else if url.fragment.isSome then .header 59 "request carries a fragment".toList
    else handler { url, peer } := by
  rw [answer, parseRequest_display hparse ht]
  by_cases hscheme : url.scheme = "gemini".toList
  · rw [if_neg (not_not.mpr hscheme), if_neg (not_not.mpr hscheme)]
    cases url.host.isNone with
    | true => rfl
    | false => cases url.fragment.isSome <;> rfl
  · rw [if_pos hscheme, if_pos hscheme]

theorem answers_display : (handleConnection parse handler peer config).Answers
    (Utf8.encode (url.display ++ ['\r', '\n'])) (replyTo handler peer config url).toWire := by
  intro rest written
  have hline : Utf8.encode (url.display ++ ['\r', '\n']) =
      Utf8.encode (url.display ++ ['\r']) ++ [10] := by
    simp only [Utf8.encode_append, List.append_assoc]
    rfl
  have hlength : (Utf8.encode (url.display ++ ['\r'])).length =
      (Utf8.encode url.display).length + 1 := by
    rw [Utf8.encode_append, List.length_append]
    rfl
  rw [written_handleConnection, hline, List.append_assoc, List.singleton_append,
    firstLine_append (lf_not_mem_display hparse ht), hlength, answer_display hparse ht, replyTo]

theorem oneLine_scheme : url.scheme.OneLine := by
  have hdisplay := hparse.oneLine ht
  unfold UrlRecord.display at hdisplay
  simp only [List.append_assoc, Text.oneLine_append] at hdisplay
  exact hdisplay.1

/-- The replies that the server makes itself are readable. -/
theorem readable_replyTo {status : Status} (h : (handler { url, peer }).Readable status)
    (config : ServerConfig) :
    ∃ status', (replyTo handler peer config url).Readable status' ∧
      (status' = status ∨ status' = .permanentFailure) := by
  unfold replyTo
  split
  · exact ⟨_, ⟨rfl, by decide, start_cons rfl⟩, .inr rfl⟩
  · split
    · refine ⟨.permanentFailure, ⟨status_refusal _, ?_, ?_⟩, .inr rfl⟩
      · have hscheme := oneLine_scheme hparse ht
        exact (Text.OneLine.append (by decide) hscheme).append (by decide)
      · exact start_cons rfl
    · split
      · exact ⟨_, ⟨rfl, by decide, start_cons rfl⟩, .inr rfl⟩
      · split
        · exact ⟨_, ⟨rfl, by decide, start_cons rfl⟩, .inr rfl⟩
        · exact ⟨status, h, .inl rfl⟩

/-- **A fetch** ends with the server's reply to its URL. -/
theorem dialogue_exchange {status : Status} (h : (handler { url, peer }).Readable status)
    (hlength : (Utf8.encode (url.display ++ ['\r', '\n'])).length ≤ maxRequest) :
    ∃ status', (replyTo handler peer config url).status = some status' ∧
      Dialogue (exchange url) (handleConnection parse handler peer config)
        (.ok ((replyTo handler peer config url).received status')) := by
  obtain ⟨status', hreply, -⟩ := readable_replyTo hparse ht h config
  refine ⟨status', hreply.status_eq, ?_⟩
  rw [exchange, if_neg (Nat.not_lt.mpr hlength)]
  refine .of_readToEnd (.write _) (answers_display hparse ht) ?_ ?_
  · intro raw
    split
    · exact .throw _
    · exact .pure _
  · rw [hreply.parseResponse_toWire]
    rfl

end

/-- A URL with a fragment is refused, whatever its page would be. -/
theorem dialogue_exchange_fragment : ∃ status',
    (replyTo (fun _ => ⟨20, "text/gemini".toList, [1]⟩) () {} (exampleUrl (some ['c']))).status =
        some status' ∧
      Dialogue (exchange (exampleUrl (some ['c'])))
        (handleConnection (exampleUrl (some ['c'])).parseOnly
          (fun _ => ⟨20, "text/gemini".toList, [1]⟩) () {})
        (.ok ((replyTo (fun _ => ⟨20, "text/gemini".toList, [1]⟩) () {}
          (exampleUrl (some ['c']))).received status')) :=
  have hreadable : (⟨20, "text/gemini".toList, [1]⟩ : Reply).Readable .success :=
    ⟨rfl, by decide, start_cons rfl⟩
  dialogue_exchange (UrlRecord.standard_parseOnly (by decide)) (if_pos rfl) hreadable (by decide)

end Smolweb.Gemini
