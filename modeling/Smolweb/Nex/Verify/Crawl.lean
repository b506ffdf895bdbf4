import Smolweb.Nex.Client
import Smolweb.Nex.Verify.Listing

/-!
# Crawling a Nex server

A client that knows nothing but the root fetches it, reads the answer as a listing and goes on with
the links (`Crawled`). It comes to every file below directories that are served as listings, if the
names on the way are plain and neither end's limit is in the way, and is sent the file's content
(`crawled_file`).
-/

namespace Smolweb.Nex

open DuplexM

/-! ## One fetch -/

/-- A path that is sent as it is: without an LF, and without a CR at its end. -/
structure Sendable (path : Text) (config : ServerConfig) : Prop where
  lf : '\n' ∉ path
  cr : path.getLast? ≠ some '\r'
  fits : (Utf8.encode path).length + 2 ≤ config.maxRequestLine

/-- A path is answered by the handler, and the answer is received up to the client's cap. -/
theorem dialogue_fetchPath {path : Text} {config : ServerConfig} (hpath : Sendable path config)
    {P : Type} (handler : Request P → Bytes) (peer : P) (options : FetchOptions)
    (hfits : (handler { path, peer }).length ≤ options.maxBody) :
    Dialogue (fetchPath path options) (handleConnection handler peer config)
      (.ok (handler { path, peer })) := by
  have hwire : Utf8.encode (path ++ ['\r', '\n']) = Utf8.encode (path ++ ['\r']) ++ [10] := by
    simp only [Utf8.encode_append, List.append_assoc]
    rfl
  have hlf : 10 ∉ Utf8.encode (path ++ ['\r']) := Utf8.lf_not_mem_encode (by simp [hpath.lf])
  have hlength : (Utf8.encode (path ++ ['\r'])).length = (Utf8.encode path).length + 1 := by
    rw [Utf8.encode_append, List.length_append]
    rfl
  have htrim : Text.trimEndMatches (· == '\r') (path ++ ['\r']) = path := by
    rw [Text.trimEndMatches_concat_of_pos (by rfl), Text.trimEndMatches_eq_self_iff]
    intro c hc
    rw [beq_eq_false_iff_ne]
    rintro rfl
    exact hpath.cr hc
  have hfit := hpath.fits
  have hline : (Utf8.encode (path ++ ['\r'])).length ≤ config.maxRequestLine - 1 := by omega
  have hanswers : (handleConnection handler peer config).Answers _ _ :=
    answers_answerLine _ hlf hline
  rw [← hwire, Utf8.decodeLossy_encode, htrim] at hanswers
  refine .of_readCapped (.write _) hanswers ?_ ?_
  · intro raw?
    split
    · exact .throw _
    · exact .pure _
  · rw [if_pos hfits]
    rfl

/-! ## The crawl -/

/-- A file server and its limits, and a client's. -/
structure Site where
  percentDecode : Text → Bytes
  decodes : Percent.Decodes percentDecode
  handler : FileHandler
  fs : FileSystem
  config : ServerConfig
  options : FetchOptions

namespace Site

variable (site : Site)

def resolve (path : Text) : Option Bytes := site.handler.resolve site.percentDecode path

/-- What the server's handler answers. -/
def page (path : Text) : Bytes := site.handler.handle site.percentDecode site.fs path

/-- The client fetches a selector, and `body` is what it is sent. -/
def Fetches (selector : Text) (body : Bytes) : Prop :=
  ∀ (P : Type) (peer : P), Dialogue (fetchPath selector site.options)
    (handleConnection (fun request => site.page request.path) peer site.config) (.ok body)

/-- A URL with the selector as its path is fetched from its host, and `body` is what is sent. -/
def FetchesUrls (selector : Text) (body : Bytes) : Prop :=
  ∀ (parse : UrlParser) (url : Text) (parsed : Url) (f : Fetch ClientError Bytes),
    parse url = .ok parsed → parsed.path = selector → fetch parse url site.options = .ok f →
    parsed.host = some f.host ∧ ∀ (P : Type) (peer : P), Dialogue f.exchange
      (handleConnection (fun request => site.page request.path) peer site.config) (.ok body)

/-- The selectors that a crawl comes to: the root, and what the links of a fetched listing lead to.
-/
inductive Crawled : Text → Prop
  | root : Crawled ['/']
  | link {selector : Text} {body : Bytes} {url : Text} {label : Option Text} :
    Crawled selector → selector.getLast? = some '/' → site.Fetches selector body →
    ListingLine.link url label ∈ parseListing (Utf8.decodeLossy body) →
    Crawled (selector ++ url)

/-- A directory that is served as a listing, within the limits. -/
structure Listed (dir : Bytes) (selector : Text) : Prop where
  noIndex : site.fs.read (Path.push separator dir (Utf8.encode "index.nex".toList)) = none
  names : ∀ entry ∈ site.fs.readDir dir, 0x0A ∉ entry.name.bytes
  fits : (Utf8.encode (FileHandler.listingFor site.fs dir selector)).length ≤ site.options.maxBody

/-- An entry with a name that is text, plain and allowed in a request path. -/
structure Named (dir : Bytes) (entry : DirEntry) (t : Text) : Prop where
  mem : entry ∈ site.fs.readDir dir
  name : entry.name.bytes = Utf8.encode t
  plain : Plain t
  backslash : '\\' ∉ t
  colon : ':' ∉ t

/-- The directories below the root with their selectors. -/
inductive Directory : Bytes → Text → Prop
  | root {dir : Bytes} : site.resolve ['/'] = some dir → Directory dir ['/']
  | inside {dir : Bytes} {selector : Text} {entry : DirEntry} {t : Text} :
    Directory dir selector → site.Listed dir selector → site.Named dir entry t →
    entry.isDir = true →
    Directory (Path.push separator dir entry.name.bytes) (selector ++ (t ++ ['/']))

variable {site} {dir : Bytes} {selector : Text} {entry : DirEntry} {t : Text}

theorem Fetches.urls {body : Bytes} (h : site.Fetches selector body) :
    site.FetchesUrls selector body := by
  rintro parse url parsed f hparse rfl hf
  rw [fetch, checkUrl_bind_eq_ok_iff] at hf
  obtain ⟨parsed', host, hparse', -, hhost, hf⟩ := hf
  obtain rfl := Except.ok.inj (hparse'.symm.trans hparse)
  obtain rfl := Except.ok.inj hf
  exact ⟨hhost, h⟩

theorem Named.resolve (h : site.Named dir entry t) (hselector : selector.getLast? = some '/')
    (hdir : site.resolve selector = some dir) {u : Text} (hu : Names u t) :
    site.resolve (selector ++ u) = some (Path.push separator dir entry.name.bytes) := by
  have hdots : t ≠ ['.', '.'] := by
    rintro rfl
    exact entry.name.ne_dotDot h.name
  exact (FileHandler.resolve_append_iff site.decodes hselector hdir entry.name u).mpr
    ⟨t, hu, h.name, hdots, h.backslash, h.colon⟩

/-- The word of a plain entry is its name, and a slash if it is a directory. -/
theorem Named.entryWord (h : site.Named dir entry t) :
    FileHandler.entryWord entry = t ++ if entry.isDir then ['/'] else [] := by
  rw [FileHandler.entryWord, FileHandler.listedName, h.name, Utf8.decodeLossy_encode,
    Text.firstWord_eq_self_iff]
  intro c hc
  rcases List.mem_append.mp hc with hc | hc
  · exact h.plain.noSpace c hc
  · split at hc
    · rw [List.mem_singleton.mp hc]
      decide
    · cases hc

theorem Named.ne_nil (h : site.Named dir entry t) : t ≠ [] := by
  rintro rfl
  exact entry.name.ne_nil h.name

/-- **A listing leads on** to each of its plain entries. -/
theorem Crawled.next (hcrawled : site.Crawled selector) (hselector : selector.getLast? = some '/')
    (hdir : site.resolve selector = some dir) (hlisted : site.Listed dir selector)
    (hsendable : Sendable selector site.config) (h : site.Named dir entry t) :
    site.Crawled (selector ++ (t ++ if entry.isDir then ['/'] else [])) := by
  have hbody : site.page selector = _ :=
    FileHandler.handle_listing hselector hdir hlisted.noIndex
  have hfetch : site.Fetches selector
      (Utf8.encode (FileHandler.listingFor site.fs dir selector)) := by
    intro P peer
    have hdialogue := dialogue_fetchPath hsendable (fun request => site.page request.path) peer
      site.options
      (by rw [hbody]; exact hlisted.fits)
    rwa [hbody] at hdialogue
  have hlink : ∃ label, ListingLine.link (FileHandler.entryWord entry) label ∈
      parseListing (FileHandler.listingFor site.fs dir selector) := by
    rw [FileHandler.exists_link_iff hlisted.names]
    exact ⟨by simp [h.entryWord, h.ne_nil], .inr ⟨entry, h.mem, rfl⟩⟩
  obtain ⟨label, hlink⟩ := hlink
  rw [← h.entryWord]
  exact .link hcrawled hselector hfetch (by rwa [Utf8.decodeLossy_encode])

theorem Directory.getLast (h : site.Directory dir selector) : selector.getLast? = some '/' := by
  cases h with
  | root => rfl
  | inside => simp

theorem Directory.resolve (h : site.Directory dir selector) :
    site.resolve selector = some dir := by
  induction h with
  | root hdir => exact hdir
  | inside hbefore _ hnamed _ ih =>
    exact hnamed.resolve hbefore.getLast ih
      (names_concat_slash.mpr (names_self hnamed.name hnamed.plain.noEscape))

/-- A selector that is sent is one whose beginnings are. -/
theorem sendable_of_append {config : ServerConfig} {u : Text}
    (hselector : selector.getLast? = some '/') (h : Sendable (selector ++ u) config) :
    Sendable selector config where
  lf hm := h.lf (List.mem_append_left u hm)
  cr := by simp [hselector]
  fits := by
    have hfits := h.fits
    rw [Utf8.encode_append, List.length_append] at hfits
    omega

/-- The crawl comes to every directory. -/
theorem Directory.crawled (h : site.Directory dir selector)
    (hsendable : Sendable selector site.config) : site.Crawled selector := by
  induction h with
  | root _ => exact .root
  | inside hbefore hlisted hnamed hisDir ih =>
    have hbelow := sendable_of_append hbefore.getLast hsendable
    have hnext := (ih hbelow).next hbefore.getLast hbefore.resolve hlisted hbelow hnamed
    rwa [if_pos hisDir] at hnext

theorem Named.not_isDirectoryPath (h : site.Named dir entry t) :
    isDirectoryPath (selector ++ t) = false := by
  have hlast : t.getLast? ≠ some '/' := by
    intro hlast
    apply entry.name.separator_not_mem
    rw [h.name]
    exact (Utf8.mem_encode_ascii (c := '/') (by decide)).mpr (List.mem_of_getLast? hlast)
  obtain ⟨c, hc⟩ : ∃ c, t.getLast? = some c := ⟨_, List.getLast?_eq_some_getLast h.ne_nil⟩
  rw [isDirectoryPath, List.getLast?_append, hc, Option.some_or, Bool.or_eq_false_iff]
  refine ⟨by simp [h.ne_nil], ?_⟩
  rw [beq_eq_false_iff_ne, ← hc]
  exact hlast

/-- A file is sent as it is. -/
theorem Directory.page_file (hdir : site.Directory dir selector) (hnamed : site.Named dir entry t)
    (hnot : site.fs.isDir (Path.push separator dir entry.name.bytes) = false) {content : Bytes}
    (hread : site.fs.read (Path.push separator dir entry.name.bytes) = some content) :
    site.page (selector ++ t) = content := by
  have hresolve := hnamed.resolve hdir.getLast hdir.resolve
    (names_self hnamed.name hnamed.plain.noEscape)
  rw [Site.resolve] at hresolve
  rw [page, FileHandler.handle, hresolve]
  simp only [hnamed.not_isDirectoryPath, hnot, Bool.or_false, hread]
  rfl

/-- **A crawl comes to every file**, and is sent its content, by its selector and by its URLs. -/
theorem crawled_file (hdir : site.Directory dir selector) (hlisted : site.Listed dir selector)
    (hnamed : site.Named dir entry t) (hfile : entry.isDir = false)
    (hnot : site.fs.isDir (Path.push separator dir entry.name.bytes) = false) {content : Bytes}
    (hread : site.fs.read (Path.push separator dir entry.name.bytes) = some content)
    (hfits : content.length ≤ site.options.maxBody)
    (hsendable : Sendable (selector ++ t) site.config) :
    site.Crawled (selector ++ t) ∧ site.Fetches (selector ++ t) content ∧
      site.FetchesUrls (selector ++ t) content := by
  have hbelow := sendable_of_append hdir.getLast hsendable
  have hfetch : site.Fetches (selector ++ t) content := by
    intro P peer
    have hbody := hdir.page_file hnamed hnot hread
    have hdialogue := dialogue_fetchPath hsendable (fun request => site.page request.path) peer
      site.options (by rw [hbody]; exact hfits)
    rwa [hbody] at hdialogue
  refine ⟨?_, hfetch, hfetch.urls⟩
  have hnext := (hdir.crawled hbelow).next hdir.getLast hdir.resolve hlisted hbelow hnamed
  rwa [hfile, if_neg Bool.false_ne_true, List.append_nil] at hnext

/-- A root with one directory in it, which has one file. -/
def sampleSite : Site where
  percentDecode := Percent.decode
  decodes := Percent.decodes_decode
  handler := ⟨Utf8.encode "/srv".toList⟩
  fs := {
    read := fun path => if path = Utf8.encode "/srv/a.b/a.b".toList then some [1, 2] else none
    isDir := fun _ => false
    readDir := fun dir => [⟨FileHandler.plainName, dir == Utf8.encode "/srv".toList⟩] }
  config := {}
  options := {}

theorem named_sampleSite (dir : Bytes) : sampleSite.Named dir
    ⟨FileHandler.plainName, dir == Utf8.encode "/srv".toList⟩ "a.b".toList where
  mem := List.mem_singleton_self _
  name := by
    show FileHandler.plainName.bytes = _
    decide
  plain := ⟨Text.firstWord_eq_self_iff.mp (by decide), Percent.decode_of_not_mem (by decide)⟩
  backslash := by decide
  colon := by decide

theorem names_sampleSite (dir : Bytes) : ∀ entry ∈ sampleSite.fs.readDir dir,
    0x0A ∉ entry.name.bytes := by
  intro entry hentry
  rw [List.mem_singleton.mp hentry]
  show 0x0A ∉ FileHandler.plainName.bytes
  decide

theorem crawled_file_sample : sampleSite.Crawled "/a.b/a.b".toList ∧
    sampleSite.Fetches "/a.b/a.b".toList [1, 2] ∧
    sampleSite.FetchesUrls "/a.b/a.b".toList [1, 2] := by
  have hroot : sampleSite.Listed (Utf8.encode "/srv".toList) ['/'] :=
    ⟨by decide +kernel, names_sampleSite _, by decide +kernel⟩
  have hdir : sampleSite.Directory (Utf8.encode "/srv/a.b".toList) "/a.b/".toList :=
    .inside (@Directory.root sampleSite _ FileHandler.resolve_sample) hroot (named_sampleSite _)
      (by decide)
  have hlisted : sampleSite.Listed (Utf8.encode "/srv/a.b".toList) "/a.b/".toList :=
    ⟨by decide +kernel, names_sampleSite _, by decide +kernel⟩
  exact crawled_file hdir hlisted (named_sampleSite _) (by decide) rfl (by decide +kernel)
    (by decide) ⟨by decide, by decide, by decide +kernel⟩

end Site

end Smolweb.Nex
