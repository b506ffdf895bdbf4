import Smolweb.Gemini.Verify.Exchange
import Smolweb.Lib.StreamLine

/-!
# The gemini server's length cap

What the server answers is a matter of the first line of the stream (`written_handleConnection`).
The cap is compared with that line, which still has its CR, so that a URL of the very length that
the protocol allows is refused (`capsUrl_iff`).
-/

namespace Smolweb.Gemini

open DuplexM

/-- The reply to a request line that is too long. -/
def tooLong : Reply := .header 59 "request exceeds 1024 bytes".toList

section

variable {P : Type} (parse : Text → Except Text UrlRecord) (handler : Request P → Reply) (peer : P)

/-- The reply to a request line, which `parse_request` is given. -/
def answer (line : Bytes) : Reply :=
  match parseRequest parse line with
  | .ok url => handler { url, peer }
  | .error reason => .header 59 reason

variable {config : ServerConfig} {s : Duplex UInt8}

theorem handleConnection_eq : handleConnection parse handler peer config =
    readRequest config >>= fun line? =>
      writeReply (line?.elim tooLong (answer parse handler peer)) := by
  unfold handleConnection
  congr 1
  funext line?
  cases line? with
  | none => rfl
  | some line =>
    simp only [Option.elim_some, answer]
    cases parseRequest parse line with
    | ok url => rfl
    | error reason => rfl

/-- **What the server answers**, whatever the stream holds. -/
theorem written_handleConnection :
    ((handleConnection parse handler peer config).on s).2.written = s.written ++
      (if config.maxRequestLine < (firstLine 10 s.unread).length then tooLong
        else answer parse handler peer (firstLine 10 s.unread)).toWire := by
  rw [handleConnection_eq, on_bind]
  split
  · next line? s' hread =>
    have hwritten : s'.written = s.written := by
      have hreads := (Reads.readLine (ε := Empty) 10 config.maxRequestLine).written s
      change ((readRequest config).on s).2.written = s.written at hreads
      rwa [hread] at hreads
    have hline : line? = if config.maxRequestLine < (firstLine 10 s.unread).length then none
        else some (firstLine 10 s.unread) := by
      split
      · next hlong =>
        have hnone := on_readLine_none (ε := Empty) hlong
        change ((readRequest config).on s).1 = .ok none at hnone
        rw [hread] at hnone
        injection hnone
      · next hfits =>
        have hsome := on_readLine (ε := Empty) (Nat.le_of_not_lt hfits)
        change (readRequest config).on s = _ at hsome
        rw [hread] at hsome
        injection congrArg Prod.fst hsome
    have hreply := exchange_writeReply (line?.elim tooLong (answer parse handler peer))
      s'.written s'.unread
    rw [List.nil_append] at hreply
    rw [hreply, hwritten, hline]
    split
    · rfl
    · rfl
  · next e s' hread => exact e.elim

end

/-- The cap is a cap on the URL: a URL and its CRLF are refused for their length exactly if the URL
is longer, and handed to `parse_request` otherwise. -/
def CapsUrl (config : ServerConfig) (url : Bytes) : Prop :=
  ∀ (P : Type) (parse : Text → Except Text UrlRecord) (handler : Request P → Reply) (peer : P)
    (rest written : Bytes),
    ((handleConnection parse handler peer config).on ⟨url ++ crlf ++ rest, written⟩).2.written =
      written ++ (if config.maxRequestLine < url.length then tooLong
        else answer parse handler peer (url ++ [13])).toWire

section

variable {url : Bytes} (hurl : 10 ∉ url)
include hurl

theorem firstLine_url (rest : Bytes) : firstLine 10 (url ++ crlf ++ rest) = url ++ [13] := by
  have hline : url ++ crlf ++ rest = (url ++ [13]) ++ 10 :: rest := by simp [crlf]
  rw [hline, firstLine_append (by simp [hurl])]

/-- What the server answers to a URL and its CRLF. -/
theorem written_url {P : Type} (parse : Text → Except Text UrlRecord)
    (handler : Request P → Reply) (peer : P) (config : ServerConfig) (rest written : Bytes) :
    ((handleConnection parse handler peer config).on ⟨url ++ crlf ++ rest, written⟩).2.written =
      written ++ (if config.maxRequestLine < url.length + 1 then tooLong
        else answer parse handler peer (url ++ [13])).toWire := by
  rw [written_handleConnection, firstLine_url hurl rest, List.length_append, List.length_singleton]

end

theorem answer_of_error {P : Type} (handler : Request P → Reply) (peer : P) (line : Bytes) :
    answer (fun _ => .error []) handler peer line = .header 59 "request is not UTF-8".toList ∨
      answer (fun _ => .error []) handler peer line = .header 59 [] := by
  unfold answer parseRequest
  cases Utf8.decode line with
  | none => exact .inl rfl
  | some text => exact .inr rfl

/-- **The cap** is the one on the URL, but for URLs of just that length. -/
theorem capsUrl_iff (config : ServerConfig) {url : Bytes} (hurl : 10 ∉ url) :
    CapsUrl config url ↔ url.length ≠ config.maxRequestLine := by
  constructor
  · intro hcaps hlen
    have h := hcaps Unit (fun _ => .error []) (fun _ => .header 20 []) () [] []
    rw [written_url hurl, if_pos (by omega), if_neg (by omega)] at h
    -- neither of the reasons that are left is the one for the length
    obtain hreason | hreason :=
      answer_of_error (P := Unit) (fun _ => .header 20 []) () (url ++ [13])
    · rw [hreason] at h
      exact absurd h (by decide +kernel)
    · rw [hreason] at h
      exact absurd h (by decide +kernel)
  · intro hne P parse handler peer rest written
    rw [written_url hurl]
    by_cases hlong : config.maxRequestLine < url.length
    · rw [if_pos hlong, if_pos (by omega)]
    · rw [if_neg hlong, if_neg (by omega)]

theorem capsUrl_short : CapsUrl {} (Utf8.encode "gemini://a/b".toList) :=
  (capsUrl_iff {} (by decide +kernel)).mpr (by decide +kernel)

/-- `gemini://a/`, followed by `n` characters. -/
def paddedUrl (n : Nat) : UrlRecord := { exampleUrl none with path := '/' :: List.replicate n 'x' }

section

variable (n : Nat)

theorem paddedUrl_display :
    (paddedUrl n).display = "gemini://a/".toList ++ List.replicate n 'x' := by
  have hdisplay : (paddedUrl n).display =
      "gemini://a/".toList ++ List.replicate n 'x' ++ [] ++ [] := rfl
  rw [hdisplay, List.append_nil, List.append_nil]

theorem oneLine_paddedUrl : (paddedUrl n).display.OneLine := by
  rw [paddedUrl_display]
  apply Text.OneLine.append
  · exact Text.oneLine_iff.mpr (by decide)
  · intro c hc
    rw [List.eq_of_mem_replicate hc]
    rfl

theorem length_paddedUrl : (Utf8.encode (paddedUrl n).display).length = n + 11 := by
  have hpad : ∀ m, (Utf8.encode (List.replicate m 'x')).length = m := by
    intro m
    induction m with
    | zero => rfl
    | succ m ih =>
      rw [List.replicate_succ, Utf8.encode_cons, List.length_append, ih, Nat.add_comm]
      rfl
  rw [paddedUrl_display, Utf8.encode_append, List.length_append, hpad, Nat.add_comm]
  rfl

/-- A URL of the very length that is allowed is refused, where its page would be the answer. -/
theorem not_capsUrl_paddedUrl {config : ServerConfig} (hlen : config.maxRequestLine = n + 11) :
    ¬CapsUrl config (Utf8.encode (paddedUrl n).display) := by
  intro h
  have hparse : UrlRecord.Standard (paddedUrl n).parseOnly :=
    UrlRecord.standard_parseOnly (oneLine_paddedUrl n)
  have ht : (paddedUrl n).parseOnly (paddedUrl n).display = .ok (paddedUrl n) := if_pos rfl
  have hurl : 10 ∉ Utf8.encode (paddedUrl n).display :=
    Utf8.lf_not_mem_encode (Text.oneLine_iff_not_mem.mp (oneLine_paddedUrl n)).2
  have hline : Utf8.encode (paddedUrl n).display ++ [13] =
      Utf8.encode ((paddedUrl n).display ++ ['\r']) := by
    rw [Utf8.encode_append]
    rfl
  have hpage : answer (paddedUrl n).parseOnly (fun _ => .header 20 []) ()
      (Utf8.encode (paddedUrl n).display ++ [13]) = .header 20 [] := by
    rw [answer, hline, parseRequest_display hparse ht]
    rfl
  have hwritten := h Unit (paddedUrl n).parseOnly (fun _ => .header 20 []) () [] []
  rw [written_url hurl, length_paddedUrl, hlen, if_pos (Nat.lt_succ_self _),
    if_neg (Nat.lt_irrefl _), hpage] at hwritten
  exact absurd hwritten (by decide +kernel)

end

theorem not_capsUrl_longest : ¬CapsUrl {} (Utf8.encode (paddedUrl 1013).display) :=
  not_capsUrl_paddedUrl 1013 rfl

end Smolweb.Gemini
