import Smolweb.Gopher.Verify.Attributes
import Smolweb.Gopher.Verify.Plus
import Smolweb.Lib.Dialogue

/-!
# Pages and attributes, from server to client

A plain fetch asks for the selector and the search that its URL names, is never taken for a
Gopher+ request, and brings back what the handler makes of them (`page_fetched`). A fetch of
attributes brings back the blocks that the handler wrote, exactly if they are in normal form
(`attributes_fetched_iff`): whatever the URL, and whatever comes after the blocks.
-/

namespace Smolweb.Gopher

open DuplexM

/-- A parser whose paths and queries are free of tabs and line breaks, which it removes, and
percent-encodes where they are written so. -/
def UrlParser.Clean (parse : UrlParser) : Prop :=
  ∀ t url, parse t = .ok url → IsField url.path ∧ ∀ query, url.query = some query → IsField query

theorem isField_of_suffix {s t : Text} (h : IsField t) (hs : s <:+ t) : IsField s := by
  refine ⟨fun htab => h.1 (hs.subset htab), Text.oneLine_iff_not_mem.mpr ?_⟩
  obtain ⟨hcr, hlf⟩ := Text.oneLine_iff_not_mem.mp h.2
  exact ⟨fun hmem => hcr (hs.subset hmem), fun hmem => hlf (hs.subset hmem)⟩

/-- The selector is the end of the path. -/
theorem isField_selector {url : Url} (h : IsField url.path) : IsField (splitPath url).2 := by
  have hafter (t : Text) (ht : t <:+ url.path) :
      IsField (match t with
        | itemType :: selector => (itemType, selector)
        | [] => ('1', [])).2 := by
    cases t with
    | nil => exact ⟨by simp, Text.oneLine_nil⟩
    | cons itemType selector => exact isField_of_suffix h ((List.suffix_cons _ _).trans ht)
  unfold splitPath
  split
  · next rest hpath => exact hafter rest (hpath ▸ List.suffix_cons _ _)
  · exact hafter _ List.suffix_rfl

theorem isField_search {url : Url} (h : ∀ query, url.query = some query → IsField query) :
    IsField (url.query.getD []) := by
  cases hquery : url.query with
  | none => exact ⟨by simp, Text.oneLine_nil⟩
  | some query => exact h query hquery

/-- What passes the checks is the exchange over a connection to the URL's host. -/
theorem connectTo_eq_ok {α : Type} {parse : UrlParser} {tls : Bool} {t : Text}
    {exchange : Url → ClientM α} {f : Fetch ClientError α}
    (h : connectTo parse tls t exchange = .ok f) :
    ∃ url, parse t = .ok url ∧ url.host = some f.host ∧ f.exchange = exchange url := by
  unfold connectTo at h
  split at h
  · cases h
  · next url hurl =>
    split at h
    · cases h
    · next host hhost =>
      split at h
      · cases h
      · cases h
        exact ⟨url, hurl, hhost, rfl⟩

/-! ## Plain fetches -/

/-- The request line of a fetch without its CRLF. -/
def requestText (url : Url) : Text :=
  (splitPath url).2 ++ url.query.elim [] fun query => '\t' :: query

/-- What the server is asked by a fetch. -/
def plainRequest {P : Type} (url : Url) (peer : P) : Request P where
  selector := (splitPath url).2
  search := url.query.bind fun query => if query.isEmpty then none else some query
  plus := none
  peer := peer

section Plain

variable {url : Url} (hpath : IsField url.path)
  (hquery : ∀ query, url.query = some query → IsField query)
include hpath hquery

theorem oneLine_requestText : (requestText url).OneLine := by
  refine (isField_selector hpath).2.append ?_
  cases hq : url.query with
  | none => exact Text.oneLine_nil
  | some query => exact Text.oneLine_cons.mpr ⟨rfl, (hquery query hq).2⟩

/-- A plain request has two fields at most, so that it is no Gopher+ request. -/
theorem parseRequest_requestText :
    parseRequest (Utf8.encode (requestText url ++ ['\r'])) =
      ((splitPath url).2, url.query.bind fun query => if query.isEmpty then none else some query,
        none) := by
  have htrim : Text.trimEndMatches Text.isLineBreak (requestText url ++ ['\r']) = requestText url :=
    (oneLine_requestText hpath hquery).trimEnd_append (by simp [Text.isLineBreak])
  have hselector := (isField_selector hpath).1
  simp only [parseRequest, Utf8.decodeLossy_encode, htrim]
  cases hq : url.query with
  | none =>
    have hsplit : (requestText url).splitOn '\t' = [(splitPath url).2] := by
      rw [requestText, hq, Option.elim_none, List.append_nil, List.splitOn_eq_singleton hselector]
    rw [hsplit]
    rfl
  | some query =>
    have hsplit : (requestText url).splitOn '\t' = [(splitPath url).2, query] := by
      rw [requestText, hq, Option.elim_some,
        List.splitOn_append_cons_self_of_not_mem hselector,
        List.splitOn_eq_singleton (hquery query hq).1]
    rw [hsplit]
    rfl

theorem answers_plain {P : Type} (handler : Request P → ByteVec) (peer : P) {config : ServerConfig}
    (hlen : (Utf8.encode (requestText url)).length + 1 < config.maxRequestLine) :
    (handleConnection handler peer config).Answers (Utf8.encode (requestLine url))
      (handler (plainRequest url peer)).bytes := by
  have hone := oneLine_requestText hpath hquery
  have hline : Utf8.encode (requestLine url) = Utf8.encode (requestText url ++ ['\r']) ++ [10] := by
    have happend : requestLine url = requestText url ++ ['\r'] ++ ['\n'] := by
      simp [requestLine, requestText]
    rw [happend, Utf8.encode_append]
    rfl
  have hlf : 10 ∉ Utf8.encode (requestText url ++ ['\r']) := by
    apply Utf8.lf_not_mem_encode
    simp [(Text.oneLine_iff_not_mem.mp hone).2]
  have hread : Exchange (readLine 10 (config.maxRequestLine - 1) : ServerM (Option Bytes)) []
      (Utf8.encode (requestLine url))
      (.ok (some (Utf8.encode (requestText url ++ ['\r'])))) := by
    rw [hline]
    apply Exchange.readLine hlf
    rw [Utf8.encode_append, List.length_append]
    have hcr : (Utf8.encode ['\r']).length = 1 := rfl
    omega
  refine Exchange.answers (r := .ok ()) ?_
  unfold handleConnection
  refine hread.bind_write ?_
  simp only [parseRequest_requestText hpath hquery]
  exact Exchange.write _

end Plain

/-- **A page is fetched**: what the handler makes of the selector and the search that the URL names,
under the MIME type of its item type. -/
theorem page_fetched {parse : UrlParser} (hparse : UrlParser.Clean parse) {tls : Bool} {t : Text}
    {f : Fetch ClientError Response} (hf : fetch parse tls t = .ok f) :
    ∃ url, parse t = .ok url ∧ url.host = some f.host ∧
      ∀ {P : Type} (peer : P) (config : ServerConfig),
        (Utf8.encode (requestText url)).length + 1 < config.maxRequestLine →
        ∀ handler : Request P → ByteVec, Dialogue f.exchange (handleConnection handler peer config)
          (.ok { mime := mimeForItemType (splitPath url).1
                 body := (handler (plainRequest url peer)).bytes }) := by
  obtain ⟨url, hurl, hhost, hexchange⟩ := connectTo_eq_ok hf
  refine ⟨url, hurl, hhost, fun peer config hlen handler => ?_⟩
  obtain ⟨hpath, hquery⟩ := hparse t url hurl
  rw [hexchange, sendAndRead, bind_assoc]
  exact .of_readToEnd (.write _) (answers_plain hpath hquery handler peer hlen) (fun _ => .pure _)
    rfl

/-! ## Attributes -/

/-- What a Gopher+ server is asked by a fetch. -/
def asked {P : Type} (url : Url) (request : PlusRequest) (peer : P) : Request P where
  selector := (splitPath url).2
  search := if (url.query.getD []).isEmpty then none else some (url.query.getD [])
  plus := some request
  peer := peer

/-- The client says its request before it reads, and then takes what the header announces. -/
theorem says_plusOver (request : Bytes) : (plusOver request).Says request := by
  refine .write_bind _ (Reads.readThrough 10 |>.bind fun line => ?_)
  split
  · exact .throw _
  · split
    · exact .throw _
    · split
      · exact .throw _
      · next header _ =>
        cases header with
        | length count => exact (Reads.readUpTo count).bind fun _ => .pure _
        | _ => exact Reads.readToEnd.bind fun _ => .pure _

/-- What a Gopher+ fetch runs over its connection. -/
def plusReplyOver (request : Bytes) : ClientM PlusReply := do
  let (header, body) ← plusOver request
  if header = .error then throw (.plusError (Text.trim (Utf8.decodeLossy body)))
  else pure { header, body }

theorem says_plusReplyOver (request : Bytes) : (plusReplyOver request).Says request := by
  refine (says_plusOver request).bind_reads fun (header, body) => ?_
  dsimp only
  split
  · exact .throw _
  · exact .pure _

/-- **A Gopher+ fetch of blocks** comes to what the handler wrote, read as blocks. -/
theorem dialogue_fetchBlocks {parse : UrlParser} (hparse : UrlParser.Clean parse) {tls : Bool}
    {t : Text} {request : PlusRequest} (hrequest : request.Writable)
    {f : Fetch ClientError (List AttributeBlock)} (hf : fetchBlocks parse tls t request = .ok f) :
    ∃ url, parse t = .ok url ∧ url.host = some f.host ∧
      ∀ {P : Type} (peer : P) (config : ServerConfig),
        (Utf8.encode (plusText (splitPath url).2 (url.query.getD []) request)).length + 1 <
          config.maxRequestLine →
        ∀ handler : Request P → ByteVec, Dialogue f.exchange (handleConnection handler peer config)
          (.ok (parseAttributes (Utf8.decodeLossy (handler (asked url request peer)).bytes))) := by
  unfold fetchBlocks at hf
  cases hplus : fetchPlus parse tls t request with
  | error e =>
    rw [hplus] at hf
    cases hf
  | ok g =>
    rw [hplus] at hf
    cases hf
    obtain ⟨url, hurl, hhost, hexchange⟩ := connectTo_eq_ok hplus
    change g.exchange = plusReplyOver _ at hexchange
    refine ⟨url, hurl, hhost, fun peer config hlen handler => ?_⟩
    obtain ⟨hpath, hquery⟩ := hparse t url hurl
    have hserver := exchange_handleConnection (isField_selector hpath) (isField_search hquery)
      hrequest handler peer hlen
    let reply := handler (asked url request peer)
    let line := Utf8.encode (plusLine (splitPath url).2 (url.query.getD []) request)
    have hclient : Exchange (plusReplyOver line) line (framed reply)
        (.ok { header := .length reply.bytes.length, body := reply.bytes }) :=
      (exchange_plusOver line reply).bind_silent (Exchange.pure _)
    have hend := hclient.map (fun answer => parseAttributes (Utf8.decodeLossy answer.body)) [] []
    rw [List.append_nil] at hend
    change Dialogue (g.exchange >>= fun answer => _) _ _
    rw [hexchange]
    exact ⟨line, framed reply, (says_plusReplyOver line).bind_reads fun _ => .pure _,
      hserver.answers, congrArg Prod.fst hend⟩

/-- **Attributes are fetched** as they were written exactly if the blocks are in normal form, of an
item or of a whole directory. -/
theorem attributes_fetched_iff {parse : UrlParser} (hparse : UrlParser.Clean parse) {tls : Bool}
    {t : Text} {request : PlusRequest} {f : Fetch ClientError (List AttributeBlock)}
    (hf : request = .attributes ∧ fetchAttributes parse tls t = .ok f ∨
      request = .directoryAttributes ∧ fetchDirectoryAttributes parse tls t = .ok f) :
    ∃ url, parse t = .ok url ∧ url.host = some f.host ∧
      ∀ {P : Type} (peer : P) (config : ServerConfig),
        (Utf8.encode (plusText (splitPath url).2 (url.query.getD []) request)).length + 1 <
          config.maxRequestLine →
        ∀ (handler : Request P → ByteVec) (blocks : List AttributeBlock) (rest : Text),
          (handler (asked url request peer)).bytes = Utf8.encode (writeAttributes blocks rest) →
          (Dialogue f.exchange (handleConnection handler peer config) (.ok blocks) ↔
            ∀ block ∈ blocks, block.Normal) := by
  have hblocks : request.Writable ∧ fetchBlocks parse tls t request = .ok f := by
    rcases hf with ⟨rfl, hf⟩ | ⟨rfl, hf⟩
    · exact ⟨trivial, hf⟩
    · exact ⟨trivial, hf⟩
  obtain ⟨hrequest, hf⟩ := hblocks
  obtain ⟨url, hurl, hhost, hdialogue⟩ := dialogue_fetchBlocks hparse hrequest hf
  refine ⟨url, hurl, hhost, fun peer config hlen handler blocks rest hreply => ?_⟩
  have hread := hdialogue peer config hlen handler
  rw [hreply, Utf8.decodeLossy_encode] at hread
  have hiff : some (parseAttributes (writeAttributes blocks rest)) = some blocks ↔
      ∀ block ∈ blocks, block.Normal := (blocksFormat rest).read_write_iff blocks
  rw [← hiff, Option.some_inj]
  constructor
  · intro h
    exact Except.ok.inj (hread.unique h)
  · intro h
    rwa [h] at hread

def sampleUrl : Url where
  scheme := "gopher".toList
  host := some "a".toList
  port := none
  path := "/0x".toList
  query := none
  fragment := none

def sampleBlock : AttributeBlock where
  name := "INFO".toList
  head := some "0About".toList
  lines := []

def sampleAnswer : ByteVec where
  bytes := Utf8.encode (writeAttributes [sampleBlock] [])
  length_le := by decide

theorem clean_sampleUrl : UrlParser.Clean fun _ => .ok sampleUrl := by
  rintro t url ⟨⟩
  exact ⟨⟨by decide, Text.oneLine_iff.mpr (by decide)⟩, nofun⟩

/-- A text file. -/
theorem page_fetched_sample :
    ∃ f, fetch (fun _ => .ok sampleUrl) false "gopher://a/0x".toList = .ok f ∧
      Dialogue f.exchange (handleConnection (fun _ => sampleAnswer) () {})
        (.ok { mime := "text/plain".toList, body := sampleAnswer.bytes }) := by
  refine ⟨_, rfl, ?_⟩
  obtain ⟨url, hurl, -, hfetched⟩ := page_fetched clean_sampleUrl
    (show fetch _ false "gopher://a/0x".toList = .ok _ from rfl)
  cases hurl
  exact hfetched () {} (by decide) fun _ => sampleAnswer

/-- The attributes of an item, of one block. -/
theorem attributes_fetched_iff_sample :
    ∃ f, fetchAttributes (fun _ => .ok sampleUrl) false "gopher://a/0x".toList = .ok f ∧
      Dialogue f.exchange (handleConnection (fun _ => sampleAnswer) () {})
        (.ok [sampleBlock]) := by
  have hnormal : sampleBlock.Normal := {
    name := ⟨by decide, by decide⟩
    colon := by decide
    head := by
      rintro head ⟨⟩
      exact ⟨⟨by decide, by decide⟩, by decide⟩
    lines := by simp [sampleBlock] }
  refine ⟨_, rfl, ?_⟩
  obtain ⟨url, hurl, -, hfetched⟩ := attributes_fetched_iff clean_sampleUrl
    (.inl ⟨rfl, show fetchAttributes _ false "gopher://a/0x".toList = .ok _ from rfl⟩)
  cases hurl
  refine (hfetched () {} (by decide) (fun _ => sampleAnswer) [sampleBlock] [] rfl).mpr ?_
  intro block hblock
  rwa [List.mem_singleton.mp hblock]

end Smolweb.Gopher
