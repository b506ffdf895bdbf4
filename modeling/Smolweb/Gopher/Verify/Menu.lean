import Smolweb.Gopher.Client
import Smolweb.Gopher.Menu
import Smolweb.Lib.UrlPath

/-!
# Fetching what a menu lists

The URL of an item holds the selector as it is, and the client takes it back from the path that the
parser makes of it. It comes back exactly if it is `Verbatim` with its type in front of it, or is
empty and the type leaves the path empty.
-/

namespace Smolweb.Gopher

open UrlPath

/-- A line of a menu for an item that has a URL of its own. -/
structure ItemLine where
  typeChar : Char
  display : Text
  selector : Text
  host : Text
  port : Text
  /-- The fifth field. -/
  plus : Option Text
  not_info : typeChar ≠ 'i'
  not_error : typeChar ≠ '3'
  not_url : typeChar ≠ 'h'
  display_free : '\t' ∉ display
  selector_free : ∀ c ∈ selector, isTabOrNewline c = false
  isHostName : IsHostName host
  isPort : IsPort port

namespace ItemLine

variable (l : ItemLine)

def line : Text :=
  l.typeChar :: (l.display ++ '\t' :: (l.selector ++ '\t' :: (l.host ++ '\t' ::
    (l.port ++ l.plus.elim [] fun plus => '\t' :: plus))))

/-- The port as it stands in the URL. -/
def portField : Option Text := if l.port = "70".toList then none else some l.port

/-- The URL of the item. -/
def url : Text :=
  hierarchical "gopher".toList l.host l.portField (l.typeChar :: l.selector)

theorem tab_not_mem_selector : '\t' ∉ l.selector :=
  fun hm => absurd (l.selector_free _ hm) (by decide)

theorem tab_not_mem_host : '\t' ∉ l.host :=
  l.isHostName.not_mem (by decide) (by decide) (by decide)

theorem tab_not_mem_port : '\t' ∉ l.port := l.isPort.not_mem (by decide)

theorem splitN_line : Text.splitN '\t' 4 (l.display ++ '\t' :: (l.selector ++ '\t' ::
    (l.host ++ '\t' :: (l.port ++ l.plus.elim [] fun plus => '\t' :: plus)))) =
      [l.display, l.selector, l.host, l.port] ++ l.plus.toList := by
  rw [Text.splitN_append l.display_free, Text.splitN_append l.tab_not_mem_selector,
    Text.splitN_append l.tab_not_mem_host]
  cases l.plus with
  | none =>
    have hsplit := Text.splitOnce_eq_none_iff.mpr l.tab_not_mem_port
    simp [Text.splitN, Text.splitLeading, hsplit]
  | some plus =>
    rw [Option.elim_some, Text.splitN_append l.tab_not_mem_port]
    rfl

theorem synthesise_eq : synthesiseGopherUrl l.typeChar l.host l.port l.selector = l.url := by
  have hne : l.port.isEmpty = false := List.isEmpty_eq_false_iff.mpr l.isPort.1
  have hscheme : "gopher://".toList = "gopher".toList ++ "://".toList := by decide
  unfold synthesiseGopherUrl url hierarchical portField
  rw [hscheme, hne]
  generalize "70".toList = seventy
  generalize "gopher".toList = scheme
  generalize "://".toList = colon
  by_cases h : l.port = seventy
  · simp [h]
  · simp [h]

/-- The item of a line. -/
theorem parseLine_line : Menu.parseLine l.line = some {
    kind := kindOf l.typeChar
    display := l.display
    url := some l.url
    plus := l.plus.bind GopherPlus.fromField } := by
  have hhost : l.host.isEmpty = false := List.isEmpty_eq_false_iff.mpr l.isHostName.1
  unfold line Menu.parseLine
  simp only [l.splitN_line, if_neg l.not_info, if_neg l.not_error, if_neg l.not_url]
  cases l.plus with
  | none => simp [hhost, l.synthesise_eq]
  | some plus => simp [hhost, l.synthesise_eq]

end ItemLine

/-! ## What is sent -/

/-- Fetching a URL connects to a host and a port and sends one text. -/
def FetchSends (parse : UrlParser) (tls : Bool) (url host : Text) (port : Nat) (text : Text) :
    Prop :=
  ∃ f, fetch parse tls url = .ok f ∧ f.host = host ∧ f.port = port ∧ f.Sends (Utf8.encode text)

theorem fetch_sends {parse : UrlParser} {tls : Bool} {url host : Text} {parsed : Url}
    (hparse : parse url = .ok parsed) (hscheme : parsed.scheme = "gopher".toList)
    (hhost : parsed.host = some host) :
    FetchSends parse tls url host (parsed.port.getD defaultPort) (requestLine parsed) := by
  have hplain : ¬ (parsed.scheme = "gophers".toList ∧ (!tls) = true) := by
    rw [hscheme]
    exact fun h => absurd h.1 (by decide)
  let exchange : ClientM Response := do
    let body ← sendAndRead (Utf8.encode (requestLine parsed))
    pure { mime := mimeForItemType (splitPath parsed).1, body }
  refine ⟨⟨host, parsed.port.getD defaultPort, exchange⟩, ?_, rfl, rfl, ?_⟩
  · simp only [fetch, connectTo, hparse, hhost, if_neg hplain]
    rfl
  · intro s
    have hsend : exchange = DuplexM.write (Utf8.encode (requestLine parsed)) >>= fun _ =>
        DuplexM.readToEnd >>= fun body => pure ⟨mimeForItemType (splitPath parsed).1, body⟩ :=
      bind_assoc ..
    rw [hsend]
    exact DuplexM.written_bind _ (fun _ => DuplexM.Reads.readToEnd.bind fun body => .pure _) s

/-! ## The path of an item -/

section Path

variable {inSet : Char → Bool} (hset : PathSet inSet) {typeChar : Char} {selector : Text}

/-- A selector that comes back out of the path: it is verbatim with its type, or it is empty and the
type is nothing that the path or the query keeps. -/
def ComesBack (inSet : Char → Bool) (typeChar : Char) (selector : Text) : Prop :=
  Verbatim inSet (typeChar :: selector) ∨
    selector = [] ∧ (typeChar = '.' ∨ typeChar = '#' ∨ isControlOrSpace typeChar = true)

/-- What the client takes for the selector, if there is no query. -/
theorem requestLine_eq_iff {url : Url} {path : Text} (hpath : url.path = '/' :: path)
    (hselector : '\t' ∉ selector) : requestLine url = selector ++ ['\r', '\n'] ↔
      path.tail = selector ∧ url.query = none := by
  have hsplit : (splitPath url).2 = path.tail := by
    unfold splitPath
    rw [hpath]
    cases path <;> rfl
  rw [requestLine, hsplit]
  cases url.query with
  | none => simp
  | some query =>
    simp only [Option.elim_some, reduceCtorEq, and_false, iff_false]
    intro h
    rw [← List.append_cancel_right h] at hselector
    exact hselector (by simp)

theorem urlPath_nil : urlPath inSet [] = ['/'] := rfl

/-- What a URL ends in, for an item. -/
structure Ends (inSet : Char → Bool) (typeChar : Char) (selector path : Text) : Prop where
  path_eq : urlPath inSet (pathPart (clean (typeChar :: selector))) = '/' :: path
  noQuery : hasQuery (clean (typeChar :: selector)) = false
  tail : path.tail = selector

include hset

theorem ends_of_verbatim (h : Verbatim inSet (typeChar :: selector)) :
    Ends inSet typeChar selector (typeChar :: selector) := by
  have hplain : ∀ c ∈ typeChar :: selector, isControlOrSpace c = false ∧ isPathChar c = true :=
    fun c hc => not_special_of_not_encoded hset (h.noEncoded c hc)
  have hclean : clean (typeChar :: selector) = typeChar :: selector := by
    rw [clean_of_last fun c hc => (hplain c (List.mem_of_getLast? hc)).1,
      stripTabOrNewline_of_forall fun c hc => not_isTabOrNewline (hplain c hc).1]
  obtain ⟨hpart, hquery⟩ := pathPart_of_forall fun c hc => (hplain c hc).2
  constructor
  · rw [hclean, hpart, urlPath_of_verbatim h]
  · rw [hclean, hquery]
  · rfl

omit hset in
theorem ends_of_empty
    (h : typeChar = '.' ∨ typeChar = '#' ∨ isControlOrSpace typeChar = true) :
    Ends inSet typeChar [] [] := by
  rcases h with rfl | rfl | h
  · exact ⟨rfl, rfl, rfl⟩
  · exact ⟨rfl, rfl, rfl⟩
  · have hclean : clean [typeChar] = [] := by
      have htrim : Text.trimEndMatches isControlOrSpace ([] ++ [typeChar]) = [] := by
        rw [Text.trimEndMatches_concat_of_pos h, Text.trimEndMatches_nil]
      rw [clean, ← List.nil_append [typeChar], htrim]
      rfl
    constructor
    · rw [hclean]
      rfl
    · rw [hclean]
      rfl
    · rfl

theorem verbatim_of_ends {path : Text} (hne : selector ≠ [])
    (h : Ends inSet typeChar selector path) : Verbatim inSet (typeChar :: selector) := by
  obtain ⟨hpath, -, htail⟩ := h
  obtain ⟨x, rfl⟩ : ∃ x, path = x :: selector := by
    cases path with
    | nil => exact absurd htail.symm hne
    | cons x rest => exact ⟨x, by rw [← htail]; rfl⟩
  have hselector : ∀ c ∈ selector, isEncoded inSet c = false := fun c hc =>
    not_encoded_of_mem_urlPath hset (hpath ▸ List.mem_cons_of_mem _ (List.mem_cons_of_mem x hc))
  have hplain : ∀ c ∈ selector, isControlOrSpace c = false ∧ isPathChar c = true :=
    fun c hc => not_special_of_not_encoded hset (hselector c hc)
  have hlast : ∀ c, (typeChar :: selector).getLast? = some c → isControlOrSpace c = false := by
    intro c hc
    rw [List.getLast?_cons_of_ne_nil hne] at hc
    exact (hplain c (List.mem_of_getLast? hc)).1
  have hfree := stripTabOrNewline_of_forall fun c hc => not_isTabOrNewline (hplain c hc).1
  rw [clean_of_last hlast, stripTabOrNewline, List.filter_cons] at hpath
  split at hpath
  · rw [← stripTabOrNewline, hfree] at hpath
    cases hchar : isPathChar typeChar with
    | false =>
      rw [pathPart, List.takeWhile_cons_of_neg (by simp [hchar]), urlPath_nil] at hpath
      cases hpath
    | true =>
      have hall : ∀ c ∈ typeChar :: selector, isPathChar c = true :=
        List.forall_mem_cons.mpr ⟨hchar, fun c hc => (hplain c hc).2⟩
      rw [(pathPart_of_forall hall).1] at hpath
      exact verbatim_of_urlPath hset hpath
  · -- A type that is removed leaves a path too short for the selector and one more character.
    rw [← stripTabOrNewline, hfree, (pathPart_of_forall fun c hc => (hplain c hc).2).1] at hpath
    have hle := length_urlPath_le hset selector
    rw [hpath, encode_of_not_encoded hselector] at hle
    simp only [List.length_cons] at hle
    omega

theorem comesBack_of_ends_nil {path : Text} (h : Ends inSet typeChar [] path) :
    ComesBack inSet typeChar [] := by
  by_cases hspecial : typeChar = '.' ∨ typeChar = '#' ∨ isControlOrSpace typeChar = true
  · exact .inr ⟨rfl, hspecial⟩
  · obtain ⟨hpath, hquery, htail⟩ := h
    rw [not_or, not_or] at hspecial
    obtain ⟨hdot, hnumber, hcontrol⟩ := hspecial
    have hcontrol : isControlOrSpace typeChar = false := by simpa using hcontrol
    have hclean : clean [typeChar] = [typeChar] := by
      rw [clean_of_last (by simpa using hcontrol), stripTabOrNewline_of_forall]
      simpa using not_isTabOrNewline hcontrol
    rw [hclean] at hpath hquery
    have hchar : isPathChar typeChar = true := by
      rw [isPathChar, Bool.and_eq_true, bne_iff_ne, bne_iff_ne]
      refine ⟨?_, hnumber⟩
      rintro rfl
      exact absurd hquery (by decide)
    rw [(pathPart_of_forall (by simpa using hchar)).1] at hpath
    cases path with
    | cons x rest =>
      rw [show rest = [] from htail] at hpath
      exact .inl (verbatim_of_urlPath hset hpath)
    | nil =>
      have hdots : ∀ s ∈ [typeChar].splitOn '/', isDots s = false := by
        intro s hs
        rcases List.sublist_singleton.mp (Text.sublist_of_mem_splitOn hs) with rfl | rfl
        · rfl
        · exact isDots_singleton hdot
      have hlength := length_urlPath hset hdots
      have hpos := @length_le_encode inSet [typeChar]
      rw [hpath, List.length_singleton] at hlength
      rw [List.length_singleton] at hpos
      omega

theorem comesBack_iff : ComesBack inSet typeChar selector ↔
    ∃ path, Ends inSet typeChar selector path := by
  constructor
  · rintro (h | ⟨rfl, h⟩)
    · exact ⟨_, ends_of_verbatim hset h⟩
    · exact ⟨_, ends_of_empty h⟩
  · rintro ⟨path, h⟩
    by_cases hne : selector = []
    · subst hne
      exact comesBack_of_ends_nil hset h
    · exact .inl (verbatim_of_ends hset hne h)

end Path

/-! ## Items -/

section Item

variable {parse : UrlParser} {inSet : Char → Bool}
  (hparse : Hierarchical "gopher".toList inSet parse) (tls : Bool) (l : ItemLine)

theorem ItemLine.port_eq : (l.portField.map portNumber).getD defaultPort = portNumber l.port := by
  unfold ItemLine.portField
  split
  · next h =>
    rw [h]
    decide
  · rfl

include hparse

/-- What the fetch of an item's URL sends, as far as it is the selector. -/
theorem ItemLine.fetchSends_iff :
    FetchSends parse tls l.url l.host (portNumber l.port) (l.selector ++ ['\r', '\n']) ↔
      ∃ path, Ends inSet l.typeChar l.selector path := by
  have hport : ∀ p, l.portField = some p → IsPort p := by
    intro p hp
    unfold ItemLine.portField at hp
    split at hp
    · cases hp
    · rw [← Option.some_inj.mp hp]
      exact l.isPort
  obtain ⟨url, hurl, hscheme, hhost, hnumber, hpath, hquery⟩ :=
    hparse.parse_eq (l.typeChar :: l.selector) l.isHostName hport
  obtain ⟨path, hslash⟩ := @urlPath_eq_cons inSet (pathPart (clean (l.typeChar :: l.selector)))
  have hsends : FetchSends parse tls l.url l.host (portNumber l.port) (requestLine url) := by
    rw [← l.port_eq, ← hnumber]
    exact fetch_sends hurl hscheme hhost
  have hline : FetchSends parse tls l.url l.host (portNumber l.port)
      (l.selector ++ ['\r', '\n']) ↔ requestLine url = l.selector ++ ['\r', '\n'] := by
    constructor
    · rintro ⟨f, hf, -, -, hsent⟩
      obtain ⟨g, hg, -, -, hline⟩ := hsends
      obtain rfl := Except.ok.inj (hf.symm.trans hg)
      exact Utf8.encode_injective (Fetch.sends_inj hline hsent)
    · intro h
      rw [← h]
      exact hsends
  rw [hline, requestLine_eq_iff (hpath.trans hslash) l.tab_not_mem_selector]
  constructor
  · rintro ⟨htail, hnone⟩
    rw [hnone] at hquery
    exact ⟨path, hslash, hquery.symm, htail⟩
  · rintro ⟨path', hpath', hnoQuery, htail⟩
    obtain rfl := List.tail_eq_of_cons_eq (hslash.symm.trans hpath')
    rw [hnoQuery] at hquery
    exact ⟨htail, by simpa using hquery⟩

/-- **An item can be fetched exactly if its selector comes back out of its URL's path.** -/
theorem fetch_menu_item_iff (hset : PathSet inSet) {body : Text}
    (hl : l.line ∈ Menu.menuLines body) :
    ∃ item url, item ∈ Menu.parse body ∧ Menu.parseLine l.line = some item ∧ item.url = some url ∧
      (FetchSends parse tls url l.host (portNumber l.port) (l.selector ++ ['\r', '\n']) ↔
        ComesBack inSet l.typeChar l.selector) := by
  refine ⟨_, _, List.mem_filterMap.mpr ⟨_, hl, l.parseLine_line⟩, l.parseLine_line, rfl, ?_⟩
  rw [l.fetchSends_iff hparse tls, comesBack_iff hset]

end Item

section Sample

/-- The path percent-encode set in ASCII and without the controls. -/
def asciiSet : Text := [ ' ', '"', '#', '<', '>', '?', '\x60', '\x7b', '\x7d']

def asciiPathSet (c : Char) : Bool := asciiSet.contains c

theorem pathSet_ascii : PathSet asciiPathSet := by
  refine ⟨rfl, rfl, rfl, rfl, rfl, rfl, ?_⟩
  intro c hc
  have hall : asciiSet.all fun d => !d.isAlphanum := by decide
  by_contra hmem
  have halphanum := List.all_eq_true.mp hall c (by simpa [asciiPathSet] using hmem)
  rw [hc] at halphanum
  cases halphanum

theorem isHostName_sample : IsHostName "example.org".toList :=
  ⟨by decide, by simp⟩

theorem isPort_sample : IsPort "70".toList := ⟨by decide, by simp, by decide⟩

theorem free_of_all {t : Text} (h : (t.all fun c => !isTabOrNewline c) = true) :
    ∀ c ∈ t, isTabOrNewline c = false := by
  simpa using h

def sampleLine (selector : Text) (h : (selector.all fun c => !isTabOrNewline c) = true) :
    ItemLine where
  typeChar := '1'
  display := "Notes".toList
  selector
  host := "example.org".toList
  port := "70".toList
  plus := none
  not_info := by decide
  not_error := by decide
  not_url := by decide
  display_free := by decide
  selector_free := free_of_all h
  isHostName := isHostName_sample
  isPort := isPort_sample

def aboutLine : ItemLine := sampleLine "/about.txt".toList (by decide)

def spacedLine : ItemLine := sampleLine "/a b".toList (by decide)

def gopherParse : UrlParser := parseHierarchical "gopher".toList asciiPathSet

theorem hierarchical_gopherParse : Hierarchical "gopher".toList asciiPathSet gopherParse :=
  hierarchical_parseHierarchical _ _

theorem fetch_menu_item_sample : ∃ item url,
    item ∈ Menu.parse "1Notes\t/about.txt\texample.org\t70\r\n.\r\n".toList ∧
      item.url = some url ∧
      FetchSends gopherParse true url "example.org".toList 70 "/about.txt\r\n".toList := by
  obtain ⟨item, url, hmem, -, hurl, hsends⟩ :=
    fetch_menu_item_iff hierarchical_gopherParse true aboutLine pathSet_ascii
      (show aboutLine.line ∈
        Menu.menuLines "1Notes\t/about.txt\texample.org\t70\r\n.\r\n".toList by decide)
  have hverbatim : Verbatim asciiPathSet "1/about.txt".toList := by decide
  exact ⟨item, url, hmem, hurl, hsends.mpr (.inl hverbatim)⟩

/-- A selector with a space in it is not sent. -/
theorem not_fetch_menu_item : ¬ ∀ (parse : UrlParser) (inSet : Char → Bool),
    Hierarchical "gopher".toList inSet parse → PathSet inSet → ∀ (tls : Bool) (l : ItemLine)
    (body : Text), l.line ∈ Menu.menuLines body → ∃ item url, item ∈ Menu.parse body ∧
      Menu.parseLine l.line = some item ∧ item.url = some url ∧
      FetchSends parse tls url l.host (portNumber l.port) (l.selector ++ ['\r', '\n']) := by
  intro hall
  obtain ⟨item, url, -, hitem, hurl, hsends⟩ := hall gopherParse asciiPathSet
    hierarchical_gopherParse pathSet_ascii true spacedLine spacedLine.line (by decide)
  rw [spacedLine.parseLine_line] at hitem
  obtain rfl := Option.some_inj.mp hitem
  obtain rfl := Option.some_inj.mp hurl
  obtain ⟨path, hpath, -, htail⟩ :=
    (spacedLine.fetchSends_iff hierarchical_gopherParse true).mp hsends
  have hencoded : urlPath asciiPathSet (pathPart (clean (spacedLine.typeChar ::
      spacedLine.selector))) = "/1/a%20b".toList := by decide
  rw [← List.tail_eq_of_cons_eq (hencoded.symm.trans hpath)] at htail
  exact absurd htail (by decide)

end Sample

end Smolweb.Gopher
