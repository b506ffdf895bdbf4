import Smolweb.Spartan.Client
import Smolweb.Spartan.Server

/-!
# A spartan request, written and read

The client percent-decodes a host before it puts it on the line, so that a host may hold what the
server takes for the end of a field or of the line, or refuses. Apart from that a request arrives
(`readRequest_writeRequest_iff`).
-/

namespace Smolweb.Spartan

open DuplexM

/-! ## The line loop -/

/-- The loop stops behind the first CRLF, if the limit lets it get there. -/
theorem lineLoop_of_crlf {max p : Nat} (hmax : p + 2 ≤ max) (line unread : Bytes)
    (hline : ¬crlf <:+: line) (hp : crlfPosition (line ++ unread) = some p) :
    lineLoop max line unread =
      (some ((line ++ unread).take (p + 2)), (line ++ unread).drop (p + 2)) := by
  induction unread generalizing line with
  | nil =>
    rw [List.append_nil, crlfPosition_eq_none_iff.mpr hline] at hp
    cases hp
  | cons byte rest ih =>
    have happend : line ++ byte :: rest = line ++ [byte] ++ rest := by simp
    rw [happend] at hp ⊢
    unfold lineLoop
    split
    · next hend =>
      obtain ⟨q, hq, hqlen⟩ := crlfPosition_concat hline hend rest
      rw [hp, Option.some.injEq] at hq
      rw [hq, hqlen, List.take_left, List.drop_left]
    · next hend =>
      have hline' := not_crlf_concat hline hend
      have hlt := length_lt_of_crlfPosition hline' hp
      rw [if_neg (by omega), ih (line ++ [byte]) hline' hp]

theorem on_readRequestLine {config : ServerConfig} {p : Nat} (hmax : p + 2 ≤ config.maxRequestLine)
    {unread : Bytes} (hp : crlfPosition unread = some p) (written : Bytes) :
    (readRequestLine config).on ⟨unread, written⟩ =
      (.ok (some (unread.take (p + 2))), ⟨unread.drop (p + 2), written⟩) := by
  unfold readRequestLine on
  simp only
  rw [lineLoop_of_crlf hmax [] unread (by simp [crlf]) hp, List.nil_append]

/-! ## Hosts -/

/-- A host that comes through the request line: it holds no space and no CRLF, and it is a name or
a bracketed address. -/
structure SendableHost (host : Text) : Prop where
  space : ' ' ∉ host
  crlfFree : host.CrlfFree
  wellFormed : host ≠ [] ∧ ':' ∉ host ∨ ['['] <+: host ∧ [']'] <:+ host

/-- The host that a URL's host stands for: percent-decoded, and in its IDNA form unless it is
ASCII. -/
def hostForm (crates : Crates) (raw : Text) : Option Text := do
  let decoded ← Utf8.decode (crates.percentDecode raw)
  if isAscii decoded then some decoded else (crates.domainToAscii decoded).toOption

/-- What the crates' documentation says of them: the path of a URL with a host is empty or starts
with a slash, its spaces and controls are percent-encoded, and percent-decoding leaves a text
without percent signs alone. -/
structure Crates.Documented (crates : Crates) : Prop where
  path : ∀ {t url}, crates.parseUrl t = .ok url → url.host.isSome →
    url.path = [] ∨ ['/'] <+: url.path
  pathChars : ∀ {t url}, crates.parseUrl t = .ok url → url.host.isSome →
    ∀ c ∈ url.path, 0x20 < c.toNat
  percentDecode : ∀ {t : Text}, '%' ∉ t → crates.percentDecode t = Utf8.encode t

theorem hostForm_of_requestHost {crates : Crates} (hcrates : crates.Documented) {raw host : Text}
    (h : requestHost crates raw = .ok host) : hostForm crates raw = some host := by
  unfold requestHost at h
  unfold hostForm
  split at h
  · next hplain =>
    cases h
    simp only [Bool.and_eq_true, Bool.not_eq_true', List.contains_eq_mem,
      decide_eq_false_iff_not] at hplain
    rw [hcrates.percentDecode hplain.2, Utf8.decode_encode]
    simp [hplain.1]
  · split at h
    · cases h
    · next decoded hdecoded =>
      rw [hdecoded]
      split at h
      · next hascii =>
        cases h
        simp [hascii]
      · next hascii =>
        split at h
        · cases h
        · next form hform =>
          cases h
          simp [hascii, hform, Except.toOption]

/-- What a URL is split into. -/
theorem splitUrl_eq_ok {crates : Crates} {input : Text} {parts : UrlParts}
    (h : splitUrl crates input = .ok parts) : ∃ url raw, crates.parseUrl input = .ok url ∧
      url.host = some raw ∧ requestHost crates raw = .ok parts.host ∧
      parts.path = if url.path.isEmpty then ['/'] else url.path := by
  unfold splitUrl at h
  split at h
  · cases h
  · next url hurl =>
    split at h
    · cases h
    · split at h
      · cases h
      · next raw hraw =>
        split at h
        · cases h
        · next host hhost =>
          cases h
          exact ⟨url, raw, hurl, hraw, hhost, rfl⟩

/-! ## The request line -/

/-- The request line without its CRLF. -/
def requestText (host path : Text) (length : Nat) : Text :=
  host ++ ' ' :: (path ++ ' ' :: Text.decimal length)

section RequestLine

variable {host path : Text} {length : Nat} {config : ServerConfig}

theorem requestLine_eq : requestLine host path length =
    requestText host path length ++ ['\r', '\n'] := by
  simp only [requestLine, requestText, List.append_assoc, List.cons_append, List.nil_append]

theorem getLast_requestText (host path : Text) (length : Nat) :
    ∃ c, (requestText host path length).getLast? = some c ∧ c.isDigit = true := by
  have hc := List.getLast?_eq_some_getLast (Text.decimal_ne_nil length)
  refine ⟨_, ?_, Text.isDigit_of_mem_decimal (List.mem_of_getLast? hc)⟩
  simp [requestText, List.getLast?_append, List.getLast?_cons, hc]

theorem trimEnd_requestText : Text.trimEndMatches Text.isLineBreak
    (requestText host path length ++ ['\r', '\n']) = requestText host path length := by
  obtain ⟨c, hc, hdigit⟩ := getLast_requestText host path length
  rw [Text.trimEndMatches_append _ (by simp [Text.isLineBreak]), Text.trimEndMatches_eq_self_iff]
  intro d hd
  rw [hc, Option.some.injEq] at hd
  subst hd
  exact Text.isLineBreak_of_isDigit hdigit

/-- A path as a URL has it. -/
structure IsUrlPath (path : Text) : Prop where
  absolute : ['/'] <+: path
  chars : ∀ c ∈ path, 0x20 < c.toNat

theorem IsUrlPath.not_mem (h : IsUrlPath path) {c : Char} (hc : c.toNat ≤ 0x20) : c ∉ path :=
  fun hm => absurd (h.chars c hm) (by omega)

theorem isUrlPath_of_documented {crates : Crates} (hcrates : crates.Documented) {t : Text}
    {url : Url} (hurl : crates.parseUrl t = .ok url) (hhost : url.host.isSome) :
    IsUrlPath (if url.path.isEmpty then ['/'] else url.path) := by
  split
  · exact ⟨List.prefix_rfl, by simp⟩
  · next hne =>
    refine ⟨?_, hcrates.pathChars hurl hhost⟩
    exact (hcrates.path hurl hhost).resolve_left fun h => hne (by simp [h])

theorem crlfFree_requestText (hhost : host.CrlfFree) (hpath : IsUrlPath path) :
    (requestText host path length).CrlfFree := by
  apply hhost.append_cons (by decide)
  have hdecimal : '\r' ∉ Text.decimal length := Text.not_mem_decimal (by decide)
  simp [hpath.not_mem (c := '\r') (by decide), hdecimal]

/-- The server reads the fields that the client wrote. -/
theorem requestFields_requestLine (hhost : SendableHost host) (hpath : IsUrlPath path)
    (hlength : length ≤ config.maxUpload.toNat) :
    requestFields config (Utf8.encode (requestLine host path length)) =
      .ok (host, path, length) := by
  have hsplit : (requestText host path length).splitOn ' ' =
      [host, path, Text.decimal length] := by
    have hdecimal : ' ' ∉ Text.decimal length := Text.not_mem_decimal (by decide)
    rw [requestText, List.splitOn_append_cons_self_of_not_mem hhost.space,
      List.splitOn_append_cons_self_of_not_mem (hpath.not_mem (by decide)),
      List.splitOn_eq_singleton hdecimal]
  have hwell : ¬((host.isEmpty || host.contains ':') &&
      !(['['] <+: host && [']'] <:+ host)) = true := by
    rcases hhost.wellFormed with ⟨hne, hcolon⟩ | ⟨hopen, hclose⟩
    · simp [hne, hcolon]
    · simp [hopen, hclose]
  have hmax := config.maxUpload.toNat_lt
  have hparse : Text.parseUnsigned maxU64 (Text.decimal length) = some length :=
    Text.parseUnsigned_decimal (by rw [maxU64]; omega)
  rw [requestFields, Utf8.decode_encode, requestLine_eq]
  simp only [trimEnd_requestText, hsplit, hparse]
  rw [if_neg hwell, if_neg (not_not.mpr hpath.absolute), if_neg (Nat.not_lt.mpr hlength)]

/-- Whatever line it reads, the server takes no host that could not be sent for one, and the line
is longer than the host. -/
theorem of_requestFields {line : Bytes} (h : requestFields config line = .ok (host, path, length)) :
    ' ' ∉ host ∧ (host ≠ [] ∧ ':' ∉ host ∨ ['['] <+: host ∧ [']'] <:+ host) ∧
      (Utf8.encode host).length < line.length := by
  unfold requestFields at h
  split at h
  · cases h
  · next text htext =>
    split at h
    · next host' path' length' hsplit =>
      split at h
      · cases h
      · next hwell =>
        have hhost : host' = host := by
          split at h
          · cases h
          · split at h
            · cases h
            · split at h
              · cases h
              · exact congrArg Prod.fst (Except.ok.inj h)
        subst hhost
        refine ⟨?_, ?_, ?_⟩
        · exact Text.not_mem_of_mem_splitOn (hsplit ▸ List.mem_cons_self)
        · simp only [Bool.and_eq_true, Bool.or_eq_true, List.isEmpty_iff, List.contains_eq_mem,
            decide_eq_true_eq, Bool.not_eq_true', Bool.and_eq_false_iff,
            decide_eq_false_iff_not] at hwell
          by_cases hopen : ['['] <+: host' ∧ [']'] <:+ host'
          · exact Or.inr hopen
          · refine Or.inl ⟨fun hnil => hwell ⟨Or.inl hnil, ?_⟩,
              fun hcolon => hwell ⟨Or.inr hcolon, ?_⟩⟩
            · exact not_and_or.mp hopen
            · exact not_and_or.mp hopen
        · have hjoin : [' '].intercalate ((Text.trimEndMatches Text.isLineBreak text).splitOn ' ') =
              Text.trimEndMatches Text.isLineBreak text := List.intercalate_splitOn ' '
          obtain ⟨rest, hrest⟩ := Text.trimEndMatches_initial Text.isLineBreak text
          rw [hsplit] at hjoin
          rw [← Utf8.encode_of_decode htext, ← hrest, ← hjoin]
          have hspace := Char.utf8Size_pos ' '
          simp [List.intercalate]
          omega
    · cases h

end RequestLine

/-! ## The request -/

/-- What `request` writes. -/
def requestBytes (host path : Text) (data : Bytes) : Bytes :=
  Utf8.encode (requestLine host path data.length) ++ data

theorem exchange_writeRequest {ε : Type} (host path : Text) (data : Bytes) :
    Exchange (writeRequest host path data : DuplexM UInt8 ε Unit) (requestBytes host path data) []
      (.ok ()) := by
  unfold writeRequest requestBytes
  cases data with
  | nil => exact (Exchange.write _).bind (Exchange.pure ())
  | cons b data => exact (Exchange.write _).bind (Exchange.write _)

section Request

variable {P : Type} (peer : P) {host path : Text} {data : Bytes} {config : ServerConfig}
  (hline : (Utf8.encode (requestLine host path data.length)).length ≤ config.maxRequestLine)

include hline

theorem exchange_readRequest (hdata : data.length ≤ config.maxUpload.toNat)
    (hhost : SendableHost host) (hpath : IsUrlPath path) :
    Exchange (readRequest peer config) [] (requestBytes host path data)
      (.ok (.ok { host, path, data, peer })) := by
  have hencode : Utf8.encode (requestLine host path data.length) =
      Utf8.encode (requestText host path data.length) ++ crlf := by
    rw [requestLine_eq, Utf8.encode_append, encode_crlf]
  have hlength : (Utf8.encode (requestLine host path data.length)).length =
      (Utf8.encode (requestText host path data.length)).length + 2 := by
    rw [hencode, List.length_append]
    rfl
  intro written rest
  have hposition : crlfPosition (requestBytes host path data ++ rest) =
      some (Utf8.encode (requestText host path data.length)).length := by
    rw [requestBytes, hencode, List.append_assoc]
    exact crlfPosition_encode (crlfFree_requestText hhost.crlfFree hpath) _
  have hread := on_readRequestLine (hlength ▸ hline) hposition written
  rw [← hlength, requestBytes, List.append_assoc, List.take_left, List.drop_left] at hread
  have hbody := Exchange.readExact (ε := IoError) data written rest
  unfold readRequest
  rw [on_bind, requestBytes, List.append_assoc, hread]
  simp only [requestFields_requestLine hhost hpath hdata]
  rw [on_bind, hbody]
  rfl

/-- A host that arrives is one that can be sent. -/
theorem sendable_of_readRequest {r : Request P} {s : Duplex UInt8}
    (h : (readRequest peer config).on ⟨requestBytes host path data, []⟩ = (.ok (.ok r), s))
    (hr : r.host = host) : SendableHost host := by
  have hend : ['\r', '\n'] <:+: requestLine host path data.length := by
    rw [requestLine_eq]
    exact (List.suffix_append ..).isInfix
  obtain ⟨p, hp, hle⟩ := crlfPosition_of_infix hend data
  rw [← requestBytes] at hp
  have hread := on_readRequestLine (Nat.le_trans hle hline) hp []
  unfold readRequest at h
  rw [on_bind, hread] at h
  simp only at h
  split at h
  · cases h
  · next host' path' length hfields =>
    rw [on_bind] at h
    have hhost : host' = host := by
      split at h
      · next a s' _ =>
        cases a with
        | none => cases h
        | some data' =>
          cases h
          exact hr
      · cases h
    subst hhost
    obtain ⟨hspace, hwell, hlen⟩ := of_requestFields hfields
    refine ⟨hspace, ?_, hwell⟩
    -- a CRLF within the host would have ended the line within the host
    intro hcrlf
    obtain ⟨q, hq, hqlen⟩ := crlfPosition_of_infix hcrlf
      (Utf8.encode (' ' :: (path ++ ' ' :: Text.decimal data.length) ++ ['\r', '\n']) ++ data)
    have hbytes : requestBytes host' path data = Utf8.encode host' ++
        (Utf8.encode (' ' :: (path ++ ' ' :: Text.decimal data.length) ++ ['\r', '\n']) ++
          data) := by
      rw [requestBytes, requestLine_eq, requestText, List.append_assoc, Utf8.encode_append,
        List.append_assoc]
    rw [← hbytes, hp, Option.some.injEq] at hq
    rw [List.length_take] at hlen
    omega

end Request

/-- **A request arrives exactly if its host can be sent.** -/
theorem readRequest_writeRequest_iff {crates : Crates} (hcrates : crates.Documented)
    {input : Text} {url : Url} {raw : Text} (hurl : crates.parseUrl input = .ok url)
    (hraw : url.host = some raw) {parts : UrlParts} (hparts : splitUrl crates input = .ok parts)
    {data : Bytes} {config : ServerConfig}
    (hline : (Utf8.encode (requestLine parts.host parts.path data.length)).length ≤
      config.maxRequestLine)
    (hdata : data.length ≤ config.maxUpload.toNat) {P : Type} (peer : P) :
    ∃ wire, (∀ s : Duplex UInt8,
        (writeRequest parts.host parts.path data : DuplexM UInt8 Empty Unit).on s =
          (.ok (), { s with written := s.written ++ wire })) ∧
      ((∀ written rest, (readRequest peer config).on ⟨wire ++ rest, written⟩ =
          (.ok (.ok { host := parts.host, path := parts.path, data, peer }), ⟨rest, written⟩)) ↔
        ∀ host, hostForm crates raw = some host → SendableHost host) := by
  obtain ⟨url', raw', hurl', hraw', hhost, hpath⟩ := splitUrl_eq_ok hparts
  rw [hurl, Except.ok.injEq] at hurl'
  subst hurl'
  rw [hraw, Option.some.injEq] at hraw'
  subst hraw'
  have hform := hostForm_of_requestHost hcrates hhost
  have hurlPath : IsUrlPath parts.path := by
    rw [hpath]
    exact isUrlPath_of_documented hcrates hurl (by simp [hraw])
  refine ⟨requestBytes parts.host parts.path data,
    fun s => exchange_writeRequest parts.host parts.path data s.written s.unread, ?_, ?_⟩
  · intro h host hsome
    rw [hform, Option.some.injEq] at hsome
    subst hsome
    have hread := h [] []
    rw [List.append_nil] at hread
    exact sendable_of_readRequest peer hline hread rfl
  · intro h written rest
    have hread := exchange_readRequest peer hline hdata (h _ hform) hurlPath written rest
    rwa [List.append_nil] at hread

/-- The crates as far as `spartan://raw/` needs them. -/
def sampleCrates (raw : Text) : Crates where
  parseUrl t :=
    if t = "spartan://".toList ++ raw ++ ['/'] then
      .ok ⟨"spartan".toList, some raw, none, ['/'], none, none⟩
    else .error "relative URL without a base".toList
  percentDecode := Percent.decode
  domainToAscii := .ok

theorem documented_sampleCrates (raw : Text) : (sampleCrates raw).Documented := by
  have hpath : ∀ {t url}, (sampleCrates raw).parseUrl t = .ok url → url.path = ['/'] := by
    intro t url h
    unfold sampleCrates at h
    simp only at h
    split at h
    · cases h
      rfl
    · cases h
  refine ⟨?_, ?_, Percent.decode_of_not_mem⟩
  · intro t url h _
    rw [hpath h]
    exact Or.inr List.prefix_rfl
  · intro t url h _
    rw [hpath h]
    simp

theorem readRequest_writeRequest_sample :
    ∃ wire, (∀ s : Duplex UInt8,
        (writeRequest ['a'] ['/'] [1, 2] : DuplexM UInt8 Empty Unit).on s =
          (.ok (), { s with written := s.written ++ wire })) ∧
      ((∀ written rest, (readRequest () {}).on ⟨wire ++ rest, written⟩ =
          (.ok (.ok { host := ['a'], path := ['/'], data := [1, 2], peer := () }),
            ⟨rest, written⟩)) ↔
        ∀ host, hostForm (sampleCrates ['a']) ['a'] = some host → SendableHost host) :=
  @readRequest_writeRequest_iff _ (documented_sampleCrates ['a']) "spartan://a/".toList
    ⟨"spartan".toList, some ['a'], none, ['/'], none, none⟩ ['a'] rfl rfl
    ⟨['a'], 300, ['/'], none⟩ rfl [1, 2] {} (by decide) (by decide) Unit ()

/-- The host `a%20b` is sent as two fields. -/
theorem not_readRequest_space :
    ¬ ∀ (crates : Crates) (input : Text) (parts : UrlParts) (data : Bytes) (config : ServerConfig),
      crates.Documented → splitUrl crates input = .ok parts →
      (Utf8.encode (requestLine parts.host parts.path data.length)).length ≤
        config.maxRequestLine →
      data.length ≤ config.maxUpload.toNat →
      ∃ wire, (∀ s : Duplex UInt8,
          (writeRequest parts.host parts.path data : DuplexM UInt8 Empty Unit).on s =
            (.ok (), { s with written := s.written ++ wire })) ∧
        ∀ written rest, (readRequest () config).on ⟨wire ++ rest, written⟩ =
          (.ok (.ok { host := parts.host, path := parts.path, data, peer := () }),
            ⟨rest, written⟩) := by
  intro h
  obtain ⟨wire, hwrite, hread⟩ := h (sampleCrates "a%20b".toList) "spartan://a%20b/".toList
    ⟨"a b".toList, 300, ['/'], none⟩ [] {} (documented_sampleCrates _) (by decide) (by decide)
    (by decide)
  have hwire : wire = requestBytes "a b".toList ['/'] [] := by
    have hboth := (hwrite ⟨[], []⟩).symm.trans
      (exchange_writeRequest "a b".toList ['/'] [] [] [])
    simpa using congrArg (fun r => r.2.written) hboth
  subst hwire
  have hback := hread [] []
  rw [List.append_nil] at hback
  have hsendable : SendableHost "a b".toList :=
    sendable_of_readRequest () (by decide) hback rfl
  exact hsendable.space (by decide)

end Smolweb.Spartan
