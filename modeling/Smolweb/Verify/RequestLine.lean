import Smolweb.Guppy.Fetch
import Smolweb.Kepler.Client
import Smolweb.Scroll.Client
import Smolweb.TextProtocol.Client

/-!
# The line a fetch asks with

Four clients check a parsed copy of their URL and send the URL as it was given. What they accept is
a matter of the copy, and for two of them of the length as given (`fetch_eq_ok_iff`); what they
send is one line iff neither the URL as given nor the languages beside it have a line break.
-/

namespace Smolweb

variable {parse : UrlParser}

/-! ## What is accepted -/

theorem Guppy.fetch_eq_ok_iff {url : Text} {f : Guppy.Transaction} :
    Guppy.fetch parse url = .ok f ↔ ∃ parsed host, parse url = .ok parsed ∧
      parsed.scheme = "guppy".toList ∧ parsed.host = some host ∧
      (Utf8.encode (url ++ ['\r', '\n'])).length ≤ maxRequestBytes ∧
      ⟨host, parsed.port.getD guppyPort, url ++ ['\r', '\n']⟩ = f := by
  rw [fetch, checkUrl_bind_eq_ok_iff]
  simp only [ite_error_eq_ok_iff, Nat.not_lt]

theorem TextProtocol.fetch_eq_ok_iff {iri : Text}
    {f : Fetch TextProtocol.ClientError TextProtocol.Response} :
    TextProtocol.fetch parse iri = .ok f ↔ ∃ parsed host, parse iri = .ok parsed ∧
      parsed.scheme = "text".toList ∧ parsed.host = some host ∧
      ⟨host, parsed.port.getD defaultPort, exchange iri⟩ = f := by
  rw [fetch, checkUrl_bind_eq_ok_iff]
  simp only [Except.ok.injEq]

theorem Scroll.fetch_eq_ok_iff {url : Text} {languages : List Text} {metadata : Bool}
    {f : Fetch Scroll.ClientError Scroll.Response} :
    Scroll.fetch parse url languages metadata = .ok f ↔ ∃ parsed host, parse url = .ok parsed ∧
      parsed.scheme = "scroll".toList ∧ parsed.host = some host ∧
      ⟨host, parsed.port.getD defaultPort, exchange url languages metadata⟩ = f := by
  rw [fetch, checkUrl_bind_eq_ok_iff]
  simp only [Except.ok.injEq]

theorem Kepler.fetch_eq_ok_iff {tls : Bool} {url : Text} {lastCached : Int64} {language : Text}
    {f : Fetch Kepler.ClientError Kepler.Response} :
    Kepler.fetch parse tls url lastCached language = .ok f ↔ ∃ parsed host secure,
      parse url = .ok parsed ∧ (Utf8.encode url).length ≤ maxUri ∧ parsed.fragment = none ∧
      parsed.host = some host ∧ isSecure parsed.scheme = some secure ∧
      (secure = true → tls = true) ∧
      ⟨host, parsed.port.getD (if secure then defaultTlsPort else defaultPort),
        exchange (Utf8.encode (requestLine url lastCached language))⟩ = f := by
  unfold fetch
  constructor
  · intro h
    split at h
    · cases h
    · next parsed hparsed =>
      split at h
      · cases h
      · next hlen =>
        split at h
        · cases h
        · next hfragment =>
          split at h
          · cases h
          · next host hhost =>
            split at h
            · cases h
            · next secure hsecure =>
              simp only at h
              split at h
              · cases h
              · next htls =>
                cases h
                refine ⟨parsed, host, secure, hparsed, Nat.le_of_not_lt hlen, ?_, hhost, hsecure,
                  ?_, rfl⟩
                · exact Option.not_isSome_iff_eq_none.mp hfragment
                · simpa using htls
  · rintro ⟨parsed, host, secure, hparsed, hlen, hfragment, hhost, hsecure, htls, rfl⟩
    have htls' : (secure && !tls) = false := by
      cases secure with
      | false => rfl
      | true => simp [htls rfl]
    simp only [hparsed, Nat.not_lt.mpr hlen, if_false, hfragment, Option.isSome_none,
      Bool.false_eq_true, hhost, hsecure, htls']

/-! ## What is sent -/

open DuplexM

theorem TextProtocol.reads_readResponse : TextProtocol.readResponse.Reads := by
  unfold readResponse
  refine (reads_readHeaderLine ..).bind fun text => ?_
  split
  · exact .throw _
  · split
    · exact Reads.readToEnd.bind fun body => .pure _
    · exact .pure _

theorem Kepler.reads_readResponse : Kepler.readResponse.Reads := by
  unfold readResponse
  refine (reads_readHeaderLine ..).bind fun text => ?_
  split
  · exact .throw _
  · split
    · split
      · exact (Reads.readUpTo _).bind fun body => .pure _
      · exact Reads.readToEnd.bind fun body => .pure _
    · exact .pure _

theorem Scroll.reads_readResponse : Scroll.readResponse.Reads := by
  have hline : Scroll.readLine.Reads := reads_readHeaderLine ..
  unfold readResponse
  refine hline.bind fun statusLine => ?_
  split
  · exact .throw _
  · split
    · exact .pure _
    · exact hline.bind fun author => hline.bind fun published => hline.bind fun modified =>
        Reads.readToEnd.bind fun body => .pure _

/-- What one of the four fetches sends first is the bytes `out`. -/
theorem TextProtocol.fetch_sends {iri : Text}
    {f : Fetch TextProtocol.ClientError TextProtocol.Response}
    (h : TextProtocol.fetch parse iri = .ok f) : f.Sends (Utf8.encode (requestLine iri)) := by
  obtain ⟨parsed, host, -, -, -, rfl⟩ := fetch_eq_ok_iff.mp h
  exact Fetch.sends_write reads_readResponse

theorem Scroll.fetch_sends {url : Text} {languages : List Text} {metadata : Bool}
    {f : Fetch Scroll.ClientError Scroll.Response}
    (h : Scroll.fetch parse url languages metadata = .ok f) :
    f.Sends (Utf8.encode (requestLine url languages metadata)) := by
  obtain ⟨parsed, host, -, -, -, rfl⟩ := fetch_eq_ok_iff.mp h
  exact Fetch.sends_write reads_readResponse

theorem Kepler.fetch_sends {tls : Bool} {url : Text} {lastCached : Int64} {language : Text}
    {f : Fetch Kepler.ClientError Kepler.Response}
    (h : Kepler.fetch parse tls url lastCached language = .ok f) :
    f.Sends (Utf8.encode (requestLine url lastCached language)) := by
  obtain ⟨parsed, host, secure, -, -, -, -, -, -, rfl⟩ := fetch_eq_ok_iff.mp h
  exact Fetch.sends_write reads_readResponse

theorem Scroll.isRequestLine_iff {url : Text} {languages : List Text} {metadata : Bool} :
    IsRequestLine (Utf8.encode (requestLine url languages metadata)) ↔
      url.OneLine ∧ ∀ language ∈ languages, language.OneLine := by
  have hspace : Text.OneLine [' '] := by decide
  have hplus : Text.OneLine (if metadata then ['+'] else []) := by
    cases metadata <;> decide
  have hcomma : Text.isLineBreak ',' = false := rfl
  rw [requestLine, isRequestLine_encode]
  simp only [Text.oneLine_append, Text.oneLine_joinFields hcomma, hspace, hplus, and_true]

theorem Kepler.isRequestLine_iff {url : Text} {lastCached : Int64} {language : Text} :
    IsRequestLine (Utf8.encode (requestLine url lastCached language)) ↔
      url.OneLine ∧ language.OneLine := by
  have hspace : Text.OneLine [' '] := by decide
  rw [requestLine, isRequestLine_encode]
  simp only [Text.oneLine_append, Text.oneLine_decimalI64, hspace, and_true]

/-! The datagrams of a guppy transaction. -/

theorem Guppy.mem_sendAll {sendError : Nat → Option Text} {k : Nat} {datagrams : List Bytes}
    {next : Phase} {d : Bytes} (h : d ∈ (sendAll sendError k datagrams next).2) :
    d ∈ datagrams := by
  induction datagrams generalizing k with
  | nil => exact h
  | cons d' datagrams ih =>
    unfold sendAll at h
    split at h
    · cases h
    · rcases List.mem_cons.mp h with rfl | h
      · exact List.mem_cons_self
      · exact List.mem_cons_of_mem _ (ih h)

theorem Guppy.isRequestLine_encodeAck (seq : Nat) : IsRequestLine (encodeAck seq) :=
  isRequestLine_encode.mpr (Text.oneLine_decimal seq)

theorem Guppy.isRequestLine_onPacket {o : Overflow} {state : Option Reassembly} {packet : Packet}
    {d : Bytes} (h : d ∈ (onPacket o state packet).1) : IsRequestLine d := by
  cases packet with
  | prompt | redirect | error => cases h
  | first seq mime data =>
    rw [List.mem_singleton.mp h]
    exact isRequestLine_encodeAck seq
  | continuation seq data =>
    simp only [onPacket] at h
    split at h
    · cases h
    · split at h
      · cases h
      · rw [List.mem_singleton.mp h]
        exact isRequestLine_encodeAck seq

/-- After the request a transaction sends nothing but the request and lines of its own. -/
theorem Guppy.turn_sends {o : Overflow} {request : Text} {state : Option Reassembly} {e : Event}
    {d : Bytes} (h : d ∈ (turn o request state e).2) :
    d = Utf8.encode request ∨ IsRequestLine d := by
  unfold turn at h
  split at h
  · cases h
  · have hd := mem_sendAll h
    split at hd
    · exact Or.inl (List.mem_singleton.mp hd)
    · right
      rcases List.mem_cons.mp hd with rfl | hd
      · exact isRequestLine_encodeAck _
      · obtain ⟨seq, -, rfl⟩ := Option.map_eq_some_iff.mp (Option.mem_toList.mp hd)
        exact isRequestLine_encodeAck seq
  · split at h
    · cases h
    · exact Or.inr (isRequestLine_onPacket (mem_sendAll h))

/-- **The line that is written** is one line iff the URL as it was given, and the languages, have
no line break. What the parser made of the URL does not matter. -/
theorem fetch_line_iff (parse : UrlParser) :
    (∀ url f, Guppy.fetch parse url = .ok f →
      (IsRequestLine (Utf8.encode f.request) ↔ url.OneLine) ∧
      ∀ o state e d, d ∈ (Guppy.turn o f.request state e).2 →
        d = Utf8.encode f.request ∨ IsRequestLine d) ∧
    (∀ tls url lastCached language f, Kepler.fetch parse tls url lastCached language = .ok f →
      ∃ out, f.Sends out ∧ (IsRequestLine out ↔ url.OneLine ∧ language.OneLine)) ∧
    (∀ url languages metadata f, Scroll.fetch parse url languages metadata = .ok f →
      ∃ out, f.Sends out ∧
        (IsRequestLine out ↔ url.OneLine ∧ ∀ language ∈ languages, language.OneLine)) ∧
    (∀ iri f, TextProtocol.fetch parse iri = .ok f →
      ∃ out, f.Sends out ∧ (IsRequestLine out ↔ iri.OneLine)) := by
  refine ⟨?_, ?_, ?_, ?_⟩
  · intro url f h
    obtain ⟨parsed, host, -, -, -, -, rfl⟩ := Guppy.fetch_eq_ok_iff.mp h
    exact ⟨isRequestLine_encode, fun o state e d => Guppy.turn_sends⟩
  · intro tls url lastCached language f h
    exact ⟨_, Kepler.fetch_sends h, Kepler.isRequestLine_iff⟩
  · intro url languages metadata f h
    exact ⟨_, Scroll.fetch_sends h, Scroll.isRequestLine_iff⟩
  · intro iri f h
    exact ⟨_, TextProtocol.fetch_sends h, isRequestLine_encode⟩

/-- A parser of `scheme://host/path`. -/
def sampleParser : UrlParser := fun t =>
  match Text.splitOnce ':' (stripTabOrNewline t) with
  | none => .error "relative URL without a base".toList
  | some (scheme, rest) =>
    match Text.splitOnce '/' (rest.drop 2) with
    | none => .ok ⟨scheme, some (rest.drop 2), none, [], none, none⟩
    | some (host, path) => .ok ⟨scheme, some host, none, '/' :: path, none, none⟩

theorem fetch_line_iff_sample :
    ((IsRequestLine (Utf8.encode ("guppy://a/x".toList ++ ['\r', '\n'])) ↔
      Text.OneLine "guppy://a/x".toList) ∧
      ∀ o state e d, d ∈ (Guppy.turn o ("guppy://a/x".toList ++ ['\r', '\n']) state e).2 →
        d = Utf8.encode ("guppy://a/x".toList ++ ['\r', '\n']) ∨ IsRequestLine d) ∧
    (∃ out, Fetch.Sends ⟨['a'], 2009, Kepler.exchange
        (Utf8.encode (Kepler.requestLine "kepler://a/x".toList 0 "en".toList))⟩ out ∧
      (IsRequestLine out ↔ Text.OneLine "kepler://a/x".toList ∧ Text.OneLine "en".toList)) ∧
    (∃ out, Fetch.Sends ⟨['a'], 5699, Scroll.exchange "scroll://a/x".toList ["en".toList] false⟩
        out ∧
      (IsRequestLine out ↔ Text.OneLine "scroll://a/x".toList ∧
        ∀ language ∈ ["en".toList], Text.OneLine language)) ∧
    (∃ out, Fetch.Sends ⟨['a'], 1961, TextProtocol.exchange "text://a/x".toList⟩ out ∧
      (IsRequestLine out ↔ Text.OneLine "text://a/x".toList)) :=
  ⟨(fetch_line_iff sampleParser).1 _ ⟨['a'], 6775, _⟩ rfl,
    (fetch_line_iff sampleParser).2.1 false _ _ _ _ rfl,
    (fetch_line_iff sampleParser).2.2.1 _ _ _ _ rfl,
    (fetch_line_iff sampleParser).2.2.2 _ _ rfl⟩

/-! ## A parser that sees no line breaks

Under the rules of the URL standard an accepted URL stays accepted with line breaks put into it. -/

section

variable {s u t : Text} (hparse : parse.Whatwg) (hu : ∀ c ∈ u, isTabOrNewline c = true)

include hparse hu

theorem Guppy.fetch_insert {f : Guppy.Transaction}
    (hlen : (Utf8.encode (s ++ u ++ t ++ ['\r', '\n'])).length ≤ maxRequestBytes)
    (h : Guppy.fetch parse (s ++ t) = .ok f) :
    Guppy.fetch parse (s ++ u ++ t) = .ok { f with request := s ++ u ++ t ++ ['\r', '\n'] } := by
  obtain ⟨parsed, host, hparsed, hscheme, hhost, -, rfl⟩ := fetch_eq_ok_iff.mp h
  rw [← hparse.insert s t hu] at hparsed
  exact fetch_eq_ok_iff.mpr ⟨parsed, host, hparsed, hscheme, hhost, hlen, rfl⟩

theorem Kepler.fetch_insert {tls : Bool} {lastCached : Int64} {language : Text}
    {f : Fetch Kepler.ClientError Kepler.Response}
    (hlen : (Utf8.encode (s ++ u ++ t)).length ≤ maxUri)
    (h : Kepler.fetch parse tls (s ++ t) lastCached language = .ok f) :
    Kepler.fetch parse tls (s ++ u ++ t) lastCached language = .ok { f with
      exchange := exchange (Utf8.encode (requestLine (s ++ u ++ t) lastCached language)) } := by
  obtain ⟨parsed, host, secure, hparsed, -, hrest⟩ := fetch_eq_ok_iff.mp h
  rw [← hparse.insert s t hu] at hparsed
  obtain ⟨hfragment, hhost, hsecure, htls, rfl⟩ := hrest
  exact fetch_eq_ok_iff.mpr
    ⟨parsed, host, secure, hparsed, hlen, hfragment, hhost, hsecure, htls, rfl⟩

theorem Scroll.fetch_insert {languages : List Text} {metadata : Bool}
    {f : Fetch Scroll.ClientError Scroll.Response}
    (h : Scroll.fetch parse (s ++ t) languages metadata = .ok f) :
    Scroll.fetch parse (s ++ u ++ t) languages metadata =
      .ok { f with exchange := exchange (s ++ u ++ t) languages metadata } := by
  obtain ⟨parsed, host, hparsed, hscheme, hhost, rfl⟩ := fetch_eq_ok_iff.mp h
  rw [← hparse.insert s t hu] at hparsed
  exact fetch_eq_ok_iff.mpr ⟨parsed, host, hparsed, hscheme, hhost, rfl⟩

theorem TextProtocol.fetch_insert {f : Fetch TextProtocol.ClientError TextProtocol.Response}
    (h : TextProtocol.fetch parse (s ++ t) = .ok f) :
    TextProtocol.fetch parse (s ++ u ++ t) = .ok { f with exchange := exchange (s ++ u ++ t) } := by
  obtain ⟨parsed, host, hparsed, hscheme, hhost, rfl⟩ := fetch_eq_ok_iff.mp h
  rw [← hparse.insert s t hu] at hparsed
  exact fetch_eq_ok_iff.mpr ⟨parsed, host, hparsed, hscheme, hhost, rfl⟩

end

theorem sampleParser_whatwg : sampleParser.Whatwg := by
  intro t
  simp only [sampleParser, stripTabOrNewline_idem]

/-- A URL of two lines is accepted and sent as two lines by all four. -/
theorem fetch_sends_two_lines :
    ∃ parse : UrlParser, parse.Whatwg ∧
      (∃ f, Guppy.fetch parse "guppy://a/\r\nx".toList = .ok f ∧
        ¬IsRequestLine (Utf8.encode f.request)) ∧
      (∃ f out, Kepler.fetch parse false "kepler://a/\r\nx".toList 0 "en".toList = .ok f ∧
        f.Sends out ∧ ¬IsRequestLine out) ∧
      (∃ f out, Scroll.fetch parse "scroll://a/\r\nx".toList ["en".toList] false = .ok f ∧
        f.Sends out ∧ ¬IsRequestLine out) ∧
      (∃ f out, TextProtocol.fetch parse "text://a/\r\nx".toList = .ok f ∧
        f.Sends out ∧ ¬IsRequestLine out) := by
  have hbreak : ∀ c ∈ ['\r', '\n'], isTabOrNewline c = true := by
    simp [isTabOrNewline]
  refine ⟨sampleParser, sampleParser_whatwg, ?_, ?_, ?_, ?_⟩
  · obtain ⟨f, hf⟩ : ∃ f, Guppy.fetch sampleParser ("guppy://a/".toList ++ ['x']) = .ok f :=
      ⟨_, rfl⟩
    have h := Guppy.fetch_insert sampleParser_whatwg hbreak (by decide) hf
    exact ⟨_, h, isRequestLine_encode.not.mpr (by decide)⟩
  · obtain ⟨f, hf⟩ : ∃ f, Kepler.fetch sampleParser false ("kepler://a/".toList ++ ['x']) 0
        "en".toList = .ok f := ⟨_, rfl⟩
    have h := Kepler.fetch_insert sampleParser_whatwg hbreak (by decide) hf
    exact ⟨_, _, h, Kepler.fetch_sends h, Kepler.isRequestLine_iff.not.mpr (by decide)⟩
  · obtain ⟨f, hf⟩ : ∃ f, Scroll.fetch sampleParser ("scroll://a/".toList ++ ['x'])
        ["en".toList] false = .ok f := ⟨_, rfl⟩
    have h := Scroll.fetch_insert sampleParser_whatwg hbreak hf
    exact ⟨_, _, h, Scroll.fetch_sends h, Scroll.isRequestLine_iff.not.mpr (by decide)⟩
  · obtain ⟨f, hf⟩ : ∃ f, TextProtocol.fetch sampleParser ("text://a/".toList ++ ['x']) = .ok f :=
      ⟨_, rfl⟩
    have h := TextProtocol.fetch_insert sampleParser_whatwg hbreak hf
    exact ⟨_, _, h, TextProtocol.fetch_sends h, isRequestLine_encode.not.mpr (by decide)⟩

end Smolweb
