import Smolweb.Scorpion.Request

/-!
# Request lines written and read back

A request whose parameter holds no space and whose URL has a scheme is read back with its
parameter parsed anew and its URL without the fragment (`ofWire_toWire`). Every accepted line is
such a request, and so is every request that a constructor builds; the parameter comes back as
the same one unless a version holds an `@`.
-/

namespace Smolweb.Scorpion

/-! ## Parameters -/

theorem parseU64_decimal (n : UInt64) : parseU64 (Text.decimal n.toNat) = some n := by
  have hle : n.toNat ≤ maxU64 := Nat.le_of_lt_succ n.toNat_lt
  simp [parseU64, Text.parseUnsigned_decimal hle]

theorem Range.parse_render (r : Range) : Range.parse r.render = some r := by
  have hdash : '-' ∉ Text.decimal r.start.toNat := Text.not_mem_decimal (by decide)
  obtain ⟨start, stop⟩ := r
  cases stop with
  | none => simp [render, parse, Text.splitOnce_append hdash, parseU64_decimal]
  | some stop =>
    simp [render, parse, Text.splitOnce_append hdash, parseU64_decimal, Text.decimal_ne_nil]

theorem Range.render_ne_nil (r : Range) : r.render ≠ [] := by
  unfold render
  split <;> simp

theorem Range.space_not_mem_render (r : Range) : ' ' ∉ r.render := by
  have hdecimal : ∀ n, ' ' ∉ Text.decimal n := fun n => Text.not_mem_decimal (by decide)
  unfold render
  split <;> simp [hdecimal]

namespace Parameter

/-- A parameter that was read is rendered as the text of such a parameter. -/
theorem parse_render {subprotocol : Subprotocol} {t : Text} {p : Parameter}
    (h : parse subprotocol t = .ok p) (hspace : ' ' ∉ t) :
    parse subprotocol p.render = .ok p ∧ ' ' ∉ p.render := by
  have hkeep : p.render = t → parse subprotocol p.render = .ok p ∧ ' ' ∉ p.render := by
    intro ht
    rw [ht]
    exact ⟨h, hspace⟩
  unfold parse at h
  split at h
  · cases h
    exact ⟨rfl, by simp [render]⟩
  · next hempty =>
    cases subprotocol with
    | receive =>
      simp only at h
      split at h
      · next r hr =>
        cases h
        simp [parse, render, Range.render_ne_nil, Range.parse_render, Range.space_not_mem_render]
      · cases h
    | send =>
      simp only at h
      split at h
      · next a v ha =>
        cases h
        obtain ⟨rfl, -⟩ := Text.splitOnce_eq_some_iff.mp ha
        exact hkeep rfl
      · cases h
        exact hkeep rfl
    | interactive =>
      cases h
      exact hkeep rfl
    | metadata =>
      cases h
      exact hkeep rfl

end Parameter

/-! ## URLs -/

theorem hasScheme_iff {url : Text} : hasScheme url = true ↔
    ∃ first scheme rest, url = first :: scheme ++ ':' :: rest ∧ ':' ∉ first :: scheme ∧
      first.isAlpha = true ∧ scheme.all isSchemeChar = true := by
  unfold hasScheme
  constructor
  · intro h
    split at h
    · cases h
    · next scheme rest hs =>
      obtain ⟨rfl, hcolon⟩ := Text.splitOnce_eq_some_iff.mp hs
      split at h
      · cases h
      · next first scheme =>
        obtain ⟨h1, h2⟩ := Bool.and_eq_true_iff.mp h
        exact ⟨first, scheme, rest, rfl, hcolon, h1, h2⟩
  · rintro ⟨first, scheme, rest, rfl, hcolon, h1, h2⟩
    rw [Text.splitOnce_append hcolon]
    simp [h1, h2]

theorem stripFragment_of_not_mem {url : Text} (h : '#' ∉ url) : stripFragment url = url := by
  rw [stripFragment, Text.splitOnce_eq_none_iff.mpr h]

theorem stripFragment_append {a : Text} (h : '#' ∉ a) (b : Text) :
    stripFragment (a ++ b) = a ++ stripFragment b := by
  unfold stripFragment
  cases hb : Text.splitOnce '#' b with
  | none =>
    have : '#' ∉ a ++ b := by
      simp [h, Text.splitOnce_eq_none_iff.mp hb]
    rw [Text.splitOnce_eq_none_iff.mpr this]
  | some p =>
    obtain ⟨rfl, hp⟩ := Text.splitOnce_eq_some_iff.mp (show _ = some (p.1, p.2) from hb)
    have : '#' ∉ a ++ p.1 := by simp [h, hp]
    rw [← List.append_assoc, Text.splitOnce_append this]

/-- The scheme is not part of the fragment. -/
theorem hasScheme_stripFragment {url : Text} (h : hasScheme url = true) :
    hasScheme (stripFragment url) = true := by
  obtain ⟨first, scheme, rest, rfl, hcolon, hfirst, hscheme⟩ := hasScheme_iff.mp h
  have hhash : '#' ∉ first :: scheme ++ [':'] := by
    intro hm
    rcases List.mem_append.mp hm with hm | hm
    · rcases List.mem_cons.mp hm with rfl | hm
      · exact absurd hfirst (by decide)
      · exact absurd (List.all_eq_true.mp hscheme _ hm) (by decide)
    · simp at hm
  have hstrip : stripFragment (first :: scheme ++ ':' :: rest) =
      first :: scheme ++ ':' :: stripFragment rest := by
    have := stripFragment_append hhash rest
    simpa using this
  rw [hstrip]
  exact hasScheme_iff.mpr ⟨first, scheme, _, rfl, hcolon, hfirst, hscheme⟩

theorem ne_nil_of_hasScheme {url : Text} (h : hasScheme url = true) : url ≠ [] := by
  rintro rfl
  cases h

namespace Subprotocol

/-- The letter of a subprotocol. -/
def letter (s : Subprotocol) : Char := Char.ofNat s.byte.toNat

theorem encode_letter (s : Subprotocol) : String.utf8EncodeChar s.letter = [s.byte] := by
  cases s <;> decide

theorem fromChar_letter (s : Subprotocol) : fromChar s.letter = some s := by cases s <;> decide

end Subprotocol

namespace Request

/-- What `Request::parse` makes of bytes, if they are UTF-8. -/
def ofWire (b : Bytes) : Option (Except RequestError Request) := (Utf8.decode b).map parse

/-- The text of a request line, its line end not counted. -/
def text (r : Request) : Text :=
  r.subprotocol.letter :: (r.parameter.render ++ ' ' :: stripFragment r.url)

theorem toWire_eq (r : Request) : r.toWire = Utf8.encode (r.text ++ ['\r', '\n']) := by
  have hspace : String.utf8EncodeChar ' ' = [32] := by decide
  rw [toWire, text, Utf8.encode_append, encode_crlf]
  simp [Subprotocol.encode_letter, hspace]

/-- **A request line read back**: its parameter is parsed anew and its fragment is gone. -/
theorem ofWire_toWire {r : Request} (hspace : ' ' ∉ r.parameter.render)
    (hurl : hasScheme r.url = true) : ofWire r.toWire =
      some ((Parameter.parse r.subprotocol r.parameter.render).map fun parameter =>
        ⟨r.subprotocol, parameter, stripFragment r.url⟩) := by
  have hscheme := hasScheme_stripFragment hurl
  have hne : (stripFragment r.url).isEmpty = false :=
    List.isEmpty_eq_false_iff.mpr (ne_nil_of_hasScheme hscheme)
  rw [ofWire, toWire_eq, Utf8.decode_encode, Option.map_some, parse, Text.stripLineEnd_crlf, text]
  simp only [Subprotocol.fromChar_letter, Text.splitOnce_append hspace, hne, hscheme,
    Bool.not_true, Bool.false_eq_true, ite_false]
  cases Parameter.parse r.subprotocol r.parameter.render <;> rfl

theorem parse_ok {line : Text} {r : Request} (h : parse line = .ok r) :
    ∃ t, ' ' ∉ t ∧ Parameter.parse r.subprotocol t = .ok r.parameter ∧
      hasScheme r.url = true := by
  unfold parse at h
  split at h
  · cases h
  · split at h
    · cases h
    · next subprotocol hsub =>
      split at h
      · cases h
      · next t url hs =>
        obtain ⟨-, hspace⟩ := Text.splitOnce_eq_some_iff.mp hs
        split at h
        · cases h
        · split at h
          · cases h
          · next hscheme =>
            cases hp : Parameter.parse subprotocol t with
            | error e =>
              rw [hp] at h
              cases h
            | ok p =>
              rw [hp] at h
              cases h
              exact ⟨t, hspace, hp, by simpa using hscheme⟩

/-- **Re-rendering**: an accepted request line that is rendered and parsed again gives the same
request without its fragment. -/
theorem reparse {line : Text} {r : Request} (h : parse line = .ok r) :
    ofWire r.toWire = some (.ok ⟨r.subprotocol, r.parameter, stripFragment r.url⟩) := by
  obtain ⟨t, hspace, hparam, hscheme⟩ := parse_ok h
  obtain ⟨hagain, hnospace⟩ := Parameter.parse_render hparam hspace
  rw [ofWire_toWire hnospace hscheme, hagain]
  rfl

theorem reparse_sample :
    ofWire (toWire ⟨.receive, .range ⟨3, some 9⟩, "scorpion://x/a b#c".toList⟩) =
      some (.ok ⟨.receive, .range ⟨3, some 9⟩, "scorpion://x/a b".toList⟩) := by
  have hparse : parse "R003-+9 scorpion://x/a b#c\n".toList =
      .ok ⟨.receive, .range ⟨3, some 9⟩, "scorpion://x/a b#c".toList⟩ := by decide
  exact reparse hparse

/-! ## Constructors -/

/-- A URL with a scheme, without fragment, space or line break. -/
structure PlainUrl where
  text : Text
  scheme : hasScheme text = true
  fragment : '#' ∉ text
  space : ' ' ∉ text
  oneLine : text.OneLine

/-- A text that a parameter can hold: not empty, without space or line break. -/
structure Token where
  text : Text
  ne_nil : text ≠ []
  space : ' ' ∉ text
  oneLine : text.OneLine

/-- A call of one of the constructors, its URL left out. -/
inductive Construction where
  | receive
  | receiveRange (range : Range)
  | metadata
  | send (version : Option Token)
  | interactive (capabilities : Option Token)

def Construction.request (url : Text) : Construction → Request
  | .receive => Request.receive url
  | .receiveRange range => Request.receiveRange url range
  | .metadata => Request.metadata url
  | .send version => Request.send url (version.map Token.text)
  | .interactive capabilities => Request.interactive url (capabilities.map Token.text)

theorem Construction.url_request (url : Text) (c : Construction) : (c.request url).url = url := by
  cases c <;> rfl

theorem Construction.space_not_mem (url : Text) (c : Construction) :
    ' ' ∉ (c.request url).parameter.render := by
  cases c with
  | receive => simp [request, Request.receive, Parameter.render]
  | receiveRange range => exact range.space_not_mem_render
  | metadata => simp [request, Request.metadata, Parameter.render]
  | send version =>
    cases version with
    | none => simp [request, Request.send, Parameter.render]
    | some v => exact v.space
  | interactive capabilities =>
    cases capabilities with
    | none => simp [request, Request.interactive, Parameter.render]
    | some v => exact v.space

/-- The rendered parameter of a construction is parsed as that parameter, a version with an `@`
excepted. -/
theorem Construction.parse_render_iff (url : Text) (c : Construction) :
    Parameter.parse (c.request url).subprotocol (c.request url).parameter.render =
        .ok (c.request url).parameter ↔
      ∀ version, c = .send (some version) → '@' ∉ version.text := by
  cases c with
  | receive => simp [request, Request.receive, Parameter.render, Parameter.parse]
  | receiveRange range =>
    simp [request, Request.receiveRange, Parameter.render, Parameter.parse, range.render_ne_nil,
      range.parse_render]
  | metadata => simp [request, Request.metadata, Parameter.render, Parameter.parse]
  | send version =>
    cases version with
    | none => simp [request, Request.send, Parameter.render, Parameter.parse]
    | some v =>
      have hne := v.ne_nil
      have hparse : Parameter.parse .send v.text = .ok (.version v.text) ↔ '@' ∉ v.text := by
        rw [← Text.splitOnce_eq_none_iff]
        cases hs : Text.splitOnce '@' v.text <;> simp [Parameter.parse, hne, hs]
      simpa [request, Request.send, Parameter.render] using hparse
  | interactive capabilities =>
    cases capabilities with
    | none => simp [request, Request.interactive, Parameter.render, Parameter.parse]
    | some v =>
      have hne := v.ne_nil
      simp [request, Request.interactive, Parameter.render, Parameter.parse, hne]

/-- **Constructors**: a constructed request is read back as built, unless it is an upload whose
version holds an `@`. -/
theorem constructed_iff (url : PlainUrl) (c : Construction) :
    ofWire (c.request url.text).toWire = some (.ok (c.request url.text)) ↔
      ∀ version, c = .send (some version) → '@' ∉ version.text := by
  rw [← Construction.parse_render_iff url.text c, ofWire_toWire (c.space_not_mem url.text)
    (by rw [c.url_request]; exact url.scheme), c.url_request, stripFragment_of_not_mem url.fragment]
  have heta : c.request url.text = ⟨(c.request url.text).subprotocol,
      (c.request url.text).parameter, url.text⟩ := by
    cases c <;> rfl
  cases hp : Parameter.parse (c.request url.text).subprotocol
      (c.request url.text).parameter.render with
  | error e => simp [Except.map]
  | ok p =>
    rw [heta]
    simp [Except.map]

theorem constructed_iff_version :
    ofWire (send "scorpion://x/".toList (some "v1".toList)).toWire =
      some (.ok (send "scorpion://x/".toList (some "v1".toList))) := by
  let url : PlainUrl := ⟨"scorpion://x/".toList, by decide, by decide, by decide, by decide⟩
  let version : Token := ⟨"v1".toList, by decide, by decide, by decide⟩
  apply (constructed_iff url (.send (some version))).mpr
  intro other h
  cases h
  decide

/-- A version with an `@` is read as an HMAC and a version. -/
theorem constructed_hmac :
    ofWire (send "scorpion://x/".toList (some "v1@home".toList)).toWire =
        some (.ok ⟨.send, .hmac "v1".toList "home".toList, "scorpion://x/".toList⟩) ∧
      ofWire (send "scorpion://x/".toList (some "v1@home".toList)).toWire ≠
        some (.ok (send "scorpion://x/".toList (some "v1@home".toList))) := by
  rw [ofWire_toWire (by decide) (by decide)]
  exact ⟨by decide, by decide⟩

end Request

end Smolweb.Scorpion
