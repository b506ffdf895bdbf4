import Smolweb.Verify.RequestLine

/-!
# A kepler request, written and read

`request_line` bounds the URI only and puts the languages as they are; `parse_request` bounds the
whole line and splits it at every space. So a request comes back iff its line is short enough and
its languages hold no space (`parseRequest_requestLine_iff`).
-/

namespace Smolweb.Kepler

/-- The request line without its CRLF. -/
def requestText (uri : Text) (lastCached : Int64) (language : Text) : Text :=
  uri ++ ' ' :: (Text.decimalI64 lastCached ++ ' ' :: language)

section

variable {uri language : Text} {lastCached : Int64}

theorem requestLine_eq : requestLine uri lastCached language =
    requestText uri lastCached language ++ ['\r', '\n'] := by
  simp only [requestLine, requestText, List.append_assoc, List.cons_append, List.nil_append]

theorem trimEnd_requestLine (huri : uri.OneLine) (hlanguage : language.OneLine) :
    Text.trimEndMatches Text.isLineBreak (requestLine uri lastCached language) =
      requestText uri lastCached language := by
  have hone : (requestText uri lastCached language).OneLine := by
    apply huri.append
    apply Text.oneLine_cons.mpr ⟨rfl, ?_⟩
    apply (Text.oneLine_decimalI64 _).append
    exact Text.oneLine_cons.mpr ⟨rfl, hlanguage⟩
  rw [requestLine_eq, hone.trimEnd_crlf]

theorem splitOn_requestText (huri : ' ' ∉ uri) :
    (requestText uri lastCached language).splitOn ' ' =
      uri :: Text.decimalI64 lastCached :: language.splitOn ' ' := by
  have hnumber : ' ' ∉ Text.decimalI64 lastCached :=
    Text.not_mem_decimalI64 (by decide) (by decide)
  rw [requestText, List.splitOn_append_cons_self_of_not_mem huri,
    List.splitOn_append_cons_self_of_not_mem hnumber]

/-- What the server makes of a line that is short enough: of the languages, what stands before the
first space. -/
theorem parseRequest_requestLine (huri : ∀ c ∈ uri, Text.isWhitespace c = false) (hne : uri ≠ [])
    (hlanguage : language.OneLine) :
    parseRequest (requestLine uri lastCached language) =
      if maxUri < (Utf8.encode (requestText uri lastCached language)).length then
        .error ("request exceeds ".toList ++ Text.decimal maxUri ++ " bytes".toList)
      else .ok { uri, lastCached, language := (language.splitOn ' ')[0]?.getD [] } := by
  have hspace : ' ' ∉ uri := fun h => absurd (huri _ h) (by decide)
  have hline : uri.OneLine := by
    apply Text.oneLine_iff_not_mem.mpr
    exact ⟨fun h => absurd (huri _ h) (by decide), fun h => absurd (huri _ h) (by decide)⟩
  obtain ⟨c, rest, rfl⟩ := List.exists_cons_of_ne_nil hne
  rw [parseRequest]
  simp only [trimEnd_requestLine hline hlanguage, splitOn_requestText hspace,
    List.getElem?_cons_zero, List.getElem?_cons_succ, Option.elim_some,
    Text.parseI64_decimalI64]

end

/-- **A request comes back** iff its line is at most as long as a URI may be and its languages
hold no space. -/
theorem parseRequest_requestLine_iff {parse : UrlParser} (hempty : ∀ url, parse [] ≠ .ok url)
    {tls : Bool} {uri language : Text} {lastCached : Int64} {f : Fetch ClientError Response}
    (hfetch : fetch parse tls uri lastCached language = .ok f)
    (huri : ∀ c ∈ uri, Text.isWhitespace c = false) (hline : language.OneLine) :
    parseRequest (requestLine uri lastCached language) = .ok { uri, lastCached, language } ↔
      (Utf8.encode (requestText uri lastCached language)).length ≤ maxUri ∧ ' ' ∉ language := by
  have hne : uri ≠ [] := by
    rintro rfl
    obtain ⟨url, _, _, hparse, -⟩ := fetch_eq_ok_iff.mp hfetch
    exact hempty url hparse
  obtain ⟨first, others, hsplit⟩ := List.exists_cons_of_ne_nil (List.splitOn_ne_nil ' ' language)
  rw [parseRequest_requestLine huri hne hline, hsplit]
  constructor
  · intro h
    split at h
    · cases h
    · next hlen =>
      have hfirst : first = language := congrArg Request.language (Except.ok.inj h)
      refine ⟨Nat.le_of_not_lt hlen, ?_⟩
      rw [← hfirst]
      exact Text.not_mem_of_mem_splitOn (t := language) (hsplit ▸ List.mem_cons_self)
  · rintro ⟨hlen, hspace⟩
    rw [List.splitOn_eq_singleton hspace] at hsplit
    cases hsplit
    rw [if_neg (Nat.not_lt.mpr hlen)]
    rfl

theorem sampleParser_nil (url : Url) : sampleParser [] ≠ .ok url := nofun

theorem parseRequest_requestLine_sample :
    parseRequest (requestLine "kepler://a/x".toList 0 "en".toList) =
        .ok ⟨"kepler://a/x".toList, 0, "en".toList⟩ ↔
      (Utf8.encode (requestText "kepler://a/x".toList 0 "en".toList)).length ≤ maxUri ∧
        ' ' ∉ "en".toList :=
  @parseRequest_requestLine_iff sampleParser sampleParser_nil false _ _ 0 _ rfl
    (by simp; decide)
    (Text.oneLine_iff.mpr (by decide))

/-- Of two languages the server keeps the first, with the comma. -/
theorem parseRequest_languages :
    ¬ ∀ (parse : UrlParser) (tls : Bool) (uri language : Text) (lastCached : Int64)
      (f : Fetch ClientError Response), (∀ url, parse [] ≠ .ok url) →
      fetch parse tls uri lastCached language = .ok f →
      (∀ c ∈ uri, Text.isWhitespace c = false) → language.OneLine →
      Text.trim language = language →
      parseRequest (requestLine uri lastCached language) = .ok { uri, lastCached, language } := by
  intro h
  have hkept := h sampleParser false "kepler://a/x".toList "en, fr".toList 0 _ sampleParser_nil rfl
    (by simp; decide) (Text.oneLine_iff.mpr (by decide)) (by decide)
  exact absurd hkept (by decide)

end Smolweb.Kepler
