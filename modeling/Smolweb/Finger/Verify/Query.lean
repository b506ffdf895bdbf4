import Smolweb.Finger.Query
import Smolweb.Lib.Dialogue

/-!
# A finger query, asked and answered

The grammar of a query is ambiguous: a user whose name starts with `/W` is taken for the switch.
`Query.Plain` says of a query that it is read back from its line (`parseQuery_line_iff`), and
`dialogue_iff` when its asker is told what the server has to say about it. A query that a URL
makes is always plain (`dialogue_fetch`).
-/

namespace Smolweb.Finger

open DuplexM

/-! ## The line -/

/-- The query without its CRLF. -/
def Query.line (query : Query) : Text :=
  let user := query.user.getD []
  if query.verbose then "/W".toList ++ (if user.isEmpty then [] else ' ' :: user) else user

theorem Query.wire_eq (query : Query) : query.wire = query.line ++ ['\r', '\n'] := by
  unfold wire line
  cases query.verbose with
  | false => rfl
  | true => cases hempty : (query.user.getD []).isEmpty <;> simp [hempty]

/-- A query that its line says: the user has a name, without whitespace around it, and where the
switch is off the name does not start with it. -/
def Query.Plain (query : Query) : Prop :=
  ∀ user, query.user = some user →
    user ≠ [] ∧ Text.trim user = user ∧ (query.verbose = false → ¬"/W".toList <+: user)

/-- The user that a text names. -/
theorem of_trim {t user : Text}
    (h : (if (Text.trim t).isEmpty then none else some (Text.trim t)) = some user) :
    user ≠ [] ∧ Text.trim user = user ∧ ∀ c ∈ user, c ∈ t := by
  split at h
  · cases h
  · next hne =>
    cases h
    exact ⟨by simpa using hne, Text.trim_trim t, fun c hc => Text.mem_of_mem_trim hc⟩

theorem parseQuery_user {line : Bytes} {user : Text} (h : (parseQuery line).user = some user) :
    user ≠ [] ∧ Text.trim user = user ∧ ∀ c ∈ user, c ∈ Utf8.decodeLossy line := by
  have htext := (Text.trimEndMatches_initial Text.isLineBreak (Utf8.decodeLossy line)).subset
  unfold parseQuery at h
  simp only at h
  split at h
  · next rest hrest =>
    obtain ⟨hne, htrim, hmem⟩ := of_trim h
    refine ⟨hne, htrim, fun c hc => htext ?_⟩
    rw [Text.stripPrefix_eq_some_iff.mp hrest]
    exact List.mem_append_right _ ((Text.trimStart_suffix rest).subset (hmem c hc))
  · obtain ⟨hne, htrim, hmem⟩ := of_trim h
    exact ⟨hne, htrim, fun c hc => htext (hmem c hc)⟩

section Line

variable {text : Text} (htext : Text.trimEndMatches Text.isLineBreak text = text)
include htext

theorem parseQuery_verbose (h : "/W".toList <+: text) :
    (parseQuery (Utf8.encode (text ++ ['\r']))).verbose = true := by
  obtain ⟨rest, rfl⟩ := h
  unfold parseQuery
  rw [Utf8.decodeLossy_encode, Text.trimEndMatches_append _ (by simp [Text.isLineBreak]), htext]
  simp only [Text.stripPrefix_append]

theorem parseQuery_plain (h : ¬"/W".toList <+: text) (htrim : Text.trim text = text) :
    parseQuery (Utf8.encode (text ++ ['\r'])) =
      { user := if text.isEmpty then none else some text, verbose := false } := by
  have hnone : Text.stripPrefix "/W".toList text = none := if_neg h
  unfold parseQuery
  rw [Utf8.decodeLossy_encode, Text.trimEndMatches_append _ (by simp [Text.isLineBreak]), htext]
  simp only [hnone, htrim]

end Line

theorem parseQuery_switch {rest : Text}
    (hrest : Text.trimEndMatches Text.isLineBreak ("/W".toList ++ rest) = "/W".toList ++ rest) :
    parseQuery (Utf8.encode ("/W".toList ++ rest ++ ['\r'])) =
      { user := if (Text.trim (Text.trimStart rest)).isEmpty then none
          else some (Text.trim (Text.trimStart rest)), verbose := true } := by
  unfold parseQuery
  rw [Utf8.decodeLossy_encode, Text.trimEndMatches_append _ (by simp [Text.isLineBreak]), hrest]
  simp only [Text.stripPrefix_append]

/-- **A query is read back from its line exactly if it is plain.** -/
theorem parseQuery_line_iff (query : Query) :
    parseQuery (Utf8.encode (query.line ++ ['\r'])) = query ↔ query.Plain := by
  constructor
  · intro h user huser
    obtain ⟨hne, htrim, -⟩ := parseQuery_user (congrArg Query.user h |>.trans huser)
    refine ⟨hne, htrim, fun hverbose hswitch => ?_⟩
    have hline : query.line = user := by
      simp [Query.line, huser, hverbose]
    rw [hline] at h
    have hon := parseQuery_verbose (Text.trimEnd_of_trim htrim) hswitch
    rw [h, hverbose] at hon
    cases hon
  · intro hplain
    obtain ⟨user?, verbose⟩ := query
    cases user? with
    | none => cases verbose <;> decide +kernel
    | some user =>
      obtain ⟨hne, htrim, hswitch⟩ := hplain user rfl
      have hempty : user.isEmpty = false := by simpa using hne
      cases verbose with
      | false =>
        have hread := parseQuery_plain (Text.trimEnd_of_trim htrim) (hswitch rfl) htrim
        rw [hempty] at hread
        simpa [Query.line] using hread
      | true =>
        have hkeep : Text.trimEndMatches Text.isLineBreak ("/W".toList ++ ' ' :: user) =
            "/W".toList ++ ' ' :: user := by
          rw [Text.trimEndMatches_append_cons (by rfl), Text.trimEnd_of_trim htrim]
        have hstart : Text.trim (Text.trimStart (' ' :: user)) = user := by
          rw [Text.trimStart_cons (by rfl),
            Text.trimStart_eq_self_iff.mpr (Text.trim_eq_self_iff.mp htrim).1, htrim]
        have hread := parseQuery_switch hkeep
        rw [hstart, hempty] at hread
        simpa [Query.line, hempty] using hread

/-! ## The dialogue -/

/-- Whatever the handler says of a query, its asker is told. -/
def Answered {P : Type} (query : Query) (peer : P) (config : ServerConfig) : Prop :=
  ∀ handler : Request P → Bytes, Dialogue (exchange query)
    (handleConnection handler peer config) (.ok { body := handler { query, peer } })

theorem encode_wire (query : Query) :
    Utf8.encode query.wire = Utf8.encode (query.line ++ ['\r']) ++ [10] := by
  rw [query.wire_eq]
  simp only [Utf8.encode_append, List.append_assoc]
  rfl

theorem lf_not_mem_line {query : Query} (h : ∀ user, query.user = some user → '\n' ∉ user) :
    '\n' ∉ query.line := by
  have huser : '\n' ∉ query.user.getD [] := by
    cases huser : query.user with
    | none => exact List.not_mem_nil
    | some user => exact h user huser
  unfold Query.line
  cases query.verbose with
  | false => exact huser
  | true => cases hempty : (query.user.getD []).isEmpty <;> simp [huser]

theorem answered_of_plain {P : Type} {query : Query} (hplain : query.Plain)
    (hline : ∀ user, query.user = some user → '\n' ∉ user) {config : ServerConfig}
    (hlength : (Utf8.encode query.wire).length ≤ config.maxRequestLine) (peer : P) :
    Answered query peer config := by
  intro handler
  have hlf : 10 ∉ Utf8.encode (query.line ++ ['\r']) :=
    Utf8.lf_not_mem_encode (by simp [lf_not_mem_line hline])
  rw [encode_wire, List.length_append, List.length_singleton] at hlength
  have hanswers : (handleConnection handler peer config).Answers _ _ :=
    answers_answerLine _ hlf (Nat.le_sub_one_of_lt hlength)
  rw [← encode_wire, (parseQuery_line_iff query).mpr hplain] at hanswers
  exact .of_readToEnd (.write _) hanswers (fun body => .pure _) rfl

/-- A handler that tells one query from all others. -/
def knowsOnly {P : Type} (query : Query) (request : Request P) : Bytes :=
  if request.query = query then [0] else []

/-- **A query is answered** exactly if it is plain, has no LF and fits the server's limit. -/
theorem answered_iff {P : Type} (query : Query) (peer : P) (config : ServerConfig) :
    Answered query peer config ↔ query.Plain ∧
      (∀ user, query.user = some user → '\n' ∉ user) ∧
      (Utf8.encode query.wire).length ≤ config.maxRequestLine := by
  refine ⟨fun h => ?_, fun ⟨hplain, hline, hlength⟩ => answered_of_plain hplain hline hlength peer⟩
  obtain ⟨request, reply, hsays, hanswers, hend⟩ := h (knowsOnly query)
  have hsays' : (exchange query).Says (Utf8.encode query.wire) :=
    .write_bind _ (Reads.readToEnd.bind fun _ => .pure _)
  obtain rfl := hsays.unique hsays'
  have hreply : reply = [0] := by
    have hbody : (Except.ok { body := reply } : Except ClientError Response) = _ := hend
    simpa [knowsOnly] using hbody
  have hwritten := hanswers [] []
  rw [handleConnection, written_answerLine, hreply] at hwritten
  simp only [List.append_nil, List.nil_append] at hwritten
  split at hwritten
  · cases hwritten
  · next hfits =>
    rw [knowsOnly] at hwritten
    split at hwritten
    · next hquery =>
      have hline : ∀ user, query.user = some user → '\n' ∉ user := by
        intro user huser hlf
        obtain ⟨-, -, hmem⟩ := parseQuery_user (congrArg Query.user hquery |>.trans huser)
        have hbyte := Utf8.mem_decodeLossy_ascii (c := '\n') (by decide) (hmem _ hlf)
        exact not_mem_firstLine hbyte
      have hlf : 10 ∉ Utf8.encode (query.line ++ ['\r']) :=
        Utf8.lf_not_mem_encode (by simp [lf_not_mem_line hline])
      rw [encode_wire, firstLine_append hlf] at hquery hfits
      refine ⟨(parseQuery_line_iff query).mp hquery, hline, ?_⟩
      rw [encode_wire, List.length_append, List.length_singleton]
      have hpos : 0 < (Utf8.encode (query.line ++ ['\r'])).length := by
        rw [Utf8.encode_append, List.length_append]
        exact Nat.lt_add_left _ (by decide)
      omega
    · cases hwritten

/-! ## Fetching a URL -/

/-- ASCII, and neither a control nor a space. -/
def isGraphic (c : Char) : Bool := 0x20 < c.toNat && c.toNat < 0x7F

/-- What the URL standard says of the two components that name a user, where there is a host: what
is not graphic is percent-encoded in both, and in the username slashes are too. -/
structure Encoded (parse : Text → Except Text UrlRecord) : Prop where
  path : ∀ {t url}, parse t = .ok url → url.host.isSome → ∀ c ∈ url.path, isGraphic c = true
  username : ∀ {t url}, parse t = .ok url → url.host.isSome →
    ∀ c ∈ url.username, isGraphic c = true ∧ c ≠ '/'

theorem isWhitespace_of_isGraphic {c : Char} (h : isGraphic c = true) :
    Text.isWhitespace c = false := by
  simp only [isGraphic, Bool.and_eq_true, decide_eq_true_eq] at h
  simp only [Text.isWhitespace, Bool.or_eq_false_iff, Bool.and_eq_false_iff,
    decide_eq_false_iff_not, beq_eq_false_iff_ne]
  omega

/-- The name that a URL gives has no whitespace and starts with no slash. -/
theorem of_queryFromUrl {parse : Text → Except Text UrlRecord} (hparse : Encoded parse) {t : Text}
    {url : UrlRecord} (ht : parse t = .ok url) (hhost : url.host.isSome) {user : Text}
    (h : (queryFromUrl url).user = some user) :
    user ≠ [] ∧ (∀ c ∈ user, isGraphic c = true) ∧ user.head? ≠ some '/' := by
  unfold queryFromUrl at h
  simp only at h
  split at h
  · next hpath =>
    cases h
    refine ⟨by simpa using hpath, ?_, ?_⟩
    · intro c hc
      exact hparse.path ht hhost c ((List.dropWhile_suffix _).subset hc)
    · intro hslash
      have hnot := List.head?_dropWhile_not (· == '/') url.path
      rw [hslash] at hnot
      simp at hnot
  · split at h
    · next hname =>
      cases h
      refine ⟨by simpa using hname, fun c hc => (hparse.username ht hhost c hc).1, ?_⟩
      intro hslash
      exact (hparse.username ht hhost _ (List.mem_of_head? hslash)).2 rfl
    · cases h

/-- **Fetching a URL** asks for the user that it names and never for more, and brings back what the
server has to say of that user. -/
theorem fetch_answered {parse : Text → Except Text UrlRecord} (hparse : Encoded parse) {t : Text}
    {f : Fetch ClientError Response} (hf : fetch parse t = .ok f) :
    ∃ url, parse t = .ok url ∧ url.host = some f.host ∧
      ∀ (P : Type) (peer : P) (config : ServerConfig),
        (Utf8.encode (queryFromUrl url).wire).length ≤ config.maxRequestLine →
        ∀ handler : Request P → Bytes, Dialogue f.exchange (handleConnection handler peer config)
          (.ok { body := handler { query := queryFromUrl url, peer } }) := by
  unfold fetch at hf
  split at hf
  · cases hf
  · next url hurl =>
    split at hf
    · cases hf
    · next host hhost =>
      cases hf
      refine ⟨url, hurl, hhost, fun P peer config hlength handler => ?_⟩
      have hsome : url.host.isSome := by rw [hhost]; rfl
      have hname := @of_queryFromUrl parse hparse t url hurl hsome
      apply answered_of_plain _ _ hlength
      · intro user huser
        obtain ⟨hne, hgraphic, hslash⟩ := hname huser
        refine ⟨hne, Text.trim_of_forall fun c hc => isWhitespace_of_isGraphic (hgraphic c hc), ?_⟩
        rintro - ⟨rest, rfl⟩
        exact hslash rfl
      · intro user huser hlf
        exact absurd ((hname huser).2.1 _ hlf) (by decide)

/-- `finger://a/W`, whose path is no switch. -/
def sampleUrl : UrlRecord where
  scheme := "finger".toList
  host := some ['a']
  port := none
  path := "/W".toList
  query := none
  fragment := none
  username := []
  password := none

theorem encoded_sampleUrl : Encoded sampleUrl.parseOnly := by
  have hurl : ∀ {t url}, sampleUrl.parseOnly t = .ok url → url = sampleUrl := by
    intro t url h
    unfold UrlRecord.parseOnly at h
    split at h
    · exact (Except.ok.inj h).symm
    · cases h
  refine ⟨fun h _ => ?_, fun h _ => ?_⟩
  · rw [hurl h]
    simp [sampleUrl, isGraphic]
  · rw [hurl h]
    simp [sampleUrl]

theorem fetch_answered_sample :
    ∃ url, sampleUrl.parseOnly sampleUrl.display = .ok url ∧ url.host = some ['a'] ∧
      ∀ (P : Type) (peer : P) (config : ServerConfig),
        (Utf8.encode (queryFromUrl url).wire).length ≤ config.maxRequestLine →
        ∀ handler : Request P → Bytes, Dialogue (exchange { user := some ['W'] })
          (handleConnection handler peer config)
          (.ok { body := handler { query := queryFromUrl url, peer } }) :=
  fetch_answered (f := ⟨['a'], 79, exchange { user := some ['W'] }⟩) encoded_sampleUrl (by
    have hparse : sampleUrl.parseOnly sampleUrl.display = .ok sampleUrl := if_pos rfl
    unfold fetch
    rw [hparse]
    rfl)

end Smolweb.Finger
