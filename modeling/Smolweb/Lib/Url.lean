import Smolweb.Lib.Decimal

/-!
# Parsed URLs

What a URL parser yields, component by component. The parser itself is outside; of its rules,
those of the URL standard, one matters here: before anything else it removes every tab, LF and CR
of its input (`Whatwg`).
-/

namespace Smolweb

structure Url where
  scheme : Text
  host : Option Text
  port : Option Nat
  path : Text
  query : Option Text
  fragment : Option Text
  deriving Repr, DecidableEq

/-- A parser: the URL, or the text of the error. -/
abbrev UrlParser := Text → Except Text Url

def isTabOrNewline (c : Char) : Bool := c == '\t' || c == '\n' || c == '\r'

def stripTabOrNewline (t : Text) : Text := t.filter fun c => !isTabOrNewline c

/-- A parser that removes every tab and newline first. -/
def UrlParser.Whatwg (parse : UrlParser) : Prop := ∀ t, parse t = parse (stripTabOrNewline t)

theorem stripTabOrNewline_append (s t : Text) :
    stripTabOrNewline (s ++ t) = stripTabOrNewline s ++ stripTabOrNewline t :=
  List.filter_append s t

theorem stripTabOrNewline_idem (t : Text) :
    stripTabOrNewline (stripTabOrNewline t) = stripTabOrNewline t := by
  simp only [stripTabOrNewline, List.filter_filter, Bool.and_self]

/-- Line breaks in between are not seen by the parser. -/
theorem UrlParser.Whatwg.insert {parse : UrlParser} (h : parse.Whatwg) (s t : Text) {u : Text}
    (hu : ∀ c ∈ u, isTabOrNewline c = true) : parse (s ++ u ++ t) = parse (s ++ t) := by
  have hnil : stripTabOrNewline u = [] := by
    apply List.filter_eq_nil_iff.mpr
    intro c hc
    simp [hu c hc]
  rw [h (s ++ u ++ t), h (s ++ t), stripTabOrNewline_append, stripTabOrNewline_append, hnil,
    List.append_nil, ← stripTabOrNewline_append]

/-! ## URLs as they are written -/

/-- A URL with all its components. -/
structure UrlRecord extends Url where
  username : Text
  password : Option Text
  deriving Repr, DecidableEq

namespace UrlRecord

/-- `user:password@`. -/
def userinfo (url : UrlRecord) : Text :=
  if url.username.isEmpty && url.password.isNone then []
  else url.username ++ (url.password.elim [] fun password => ':' :: password) ++ ['@']

/-- What stands between the scheme and the path. A path that starts with two slashes is kept from
being taken for an authority. -/
def authority (url : UrlRecord) : Text :=
  match url.host with
  | some host => ['/', '/'] ++ url.userinfo ++ host ++
      (url.port.elim [] fun port => ':' :: Text.decimal port)
  | none => if ['/', '/'] <+: url.path then ['/', '.'] else []

/-- `Display`: every component there is. -/
def display (url : UrlRecord) : Text :=
  url.scheme ++ [':'] ++ url.authority ++ url.path ++
    (url.query.elim [] fun query => '?' :: query) ++
    (url.fragment.elim [] fun fragment => '#' :: fragment)

def withoutFragment (url : UrlRecord) : UrlRecord :=
  { url with fragment := none }

theorem withoutFragment_of_none {url : UrlRecord} (h : url.fragment = none) :
    url.withoutFragment = url := by
  obtain ⟨⟨scheme, host, port, path, query, fragment⟩, username, password⟩ := url
  simp only at h
  rw [withoutFragment, h]

/-- What the URL standard says of a parser: a URL that was parsed is written without a line break,
and parses to itself. -/
structure Standard (parse : Text → Except Text UrlRecord) : Prop where
  oneLine : ∀ {t url}, parse t = .ok url → url.display.OneLine
  reparse : ∀ {t url}, parse t = .ok url → parse url.display = .ok url

/-- A parser that knows one URL. -/
def parseOnly (url : UrlRecord) (t : Text) : Except Text UrlRecord :=
  if t = url.display then .ok url else .error "relative URL without a base".toList

theorem standard_parseOnly {url : UrlRecord} (h : url.display.OneLine) :
    Standard (parseOnly url) := by
  have hok : ∀ {t u}, parseOnly url t = .ok u → u = url := by
    intro t u hu
    unfold parseOnly at hu
    split at hu
    · exact (Except.ok.inj hu).symm
    · cases hu
  constructor
  · intro t u hu
    rw [hok hu]
    exact h
  · intro t u hu
    rw [hok hu, parseOnly, if_pos rfl]

end UrlRecord

end Smolweb
