import Smolweb.Gopher.Client
import Smolweb.Gopher.Server

/-!
# A Gopher+ transaction

Fields that hold no TAB and no line break come through the request line (`parseRequest_plusLine`),
and a body of any bytes through the answer, since its length is declared (`exchange_plusOver`).
-/

namespace Smolweb.Gopher

open DuplexM

/-- A text that can be a field of a line. -/
def IsField (t : Text) : Prop := '\t' ∉ t ∧ t.OneLine

/-- The view that is asked for, if one is, has a name that can be written. -/
def PlusRequest.Writable : PlusRequest → Prop
  | .item (some view) => view ≠ [] ∧ IsField view
  | _ => True

/-! ## The request -/

namespace PlusRequest

variable {request : PlusRequest}

theorem isField_token (h : request.Writable) : IsField request.token := by
  cases request with
  | item view =>
    cases view with
    | none => exact ⟨by decide, Text.oneLine_iff.mpr (by decide)⟩
    | some view =>
      obtain ⟨-, htab, hline⟩ := h
      exact ⟨List.not_mem_cons_of_ne_of_not_mem (by decide) htab,
        Text.oneLine_cons.mpr ⟨by decide, hline⟩⟩
  | attributes => exact ⟨by decide, Text.oneLine_iff.mpr (by decide)⟩
  | directoryAttributes => exact ⟨by decide, Text.oneLine_iff.mpr (by decide)⟩

/-- A token is read as what it was written for. -/
theorem fromToken_token (h : request.Writable) : fromToken request.token = some request := by
  rw [fromToken, (isField_token h).2.trimEnd_eq]
  cases request with
  | item view =>
    cases view with
    | none => rfl
    | some view =>
      simp only [token, List.isEmpty_eq_false_iff.mpr h.1, Bool.false_eq_true, if_false]
  | attributes => rfl
  | directoryAttributes => rfl

end PlusRequest

section Request

variable {selector search : Text} {request : PlusRequest} (hselector : IsField selector)
  (hsearch : IsField search) (hrequest : request.Writable)

/-- The request line without its CRLF. -/
def plusText (selector search : Text) (request : PlusRequest) : Text :=
  selector ++ '\t' :: (search ++ '\t' :: request.token)

theorem plusLine_eq (selector search : Text) (request : PlusRequest) :
    plusLine selector search request = plusText selector search request ++ ['\r', '\n'] := by
  simp only [plusLine, plusText, List.append_assoc, List.cons_append, List.nil_append]

include hselector hsearch hrequest

theorem oneLine_plusText : (plusText selector search request).OneLine := by
  apply hselector.2.append
  apply Text.oneLine_cons.mpr ⟨rfl, ?_⟩
  apply hsearch.2.append
  exact Text.oneLine_cons.mpr ⟨rfl, (PlusRequest.isField_token hrequest).2⟩

/-- What the server makes of the line, with as much of its CRLF as it has read. -/
theorem parseRequest_plusText {ending : Text} (hending : ∀ c ∈ ending, Text.isLineBreak c = true) :
    parseRequest (Utf8.encode (plusText selector search request ++ ending)) =
      (selector, if search.isEmpty then none else some search, some request) := by
  have htrim : Text.trimEndMatches Text.isLineBreak (plusText selector search request ++ ending) =
      plusText selector search request :=
    (oneLine_plusText hselector hsearch hrequest).trimEnd_append hending
  have hsplit : (plusText selector search request).splitOn '\t' =
      [selector, search, request.token] := by
    rw [plusText, List.splitOn_append_cons_self_of_not_mem hselector.1,
      List.splitOn_append_cons_self_of_not_mem hsearch.1,
      List.splitOn_eq_singleton (PlusRequest.isField_token hrequest).1]
  simp only [parseRequest, Utf8.decodeLossy_encode, htrim, hsplit, List.getElem?_cons_zero,
    List.getElem?_cons_succ, Option.getD_some, Option.bind_some,
    PlusRequest.fromToken_token hrequest]

theorem parseRequest_plusLine :
    parseRequest (Utf8.encode (plusLine selector search request)) =
      (selector, if search.isEmpty then none else some search, some request) := by
  rw [plusLine_eq]
  exact parseRequest_plusText hselector hsearch hrequest (by simp [Text.isLineBreak])

end Request

/-! ## The answer -/

/-- An answer to a Gopher+ request: the header and the body. -/
def framed (body : ByteVec) : Bytes := Utf8.encode (plusHeader body) ++ body.bytes

theorem parseHeader_plusHeader (body : ByteVec) :
    parseHeader (plusHeader body) = .ok (.length body.bytes.length) := by
  have hdecimal := Text.trim_eq_self_iff.mp (Text.trim_decimal body.bytes.length)
  have hone : Text.OneLine ('+' :: Text.decimal body.bytes.length) :=
    Text.oneLine_cons.mpr ⟨by decide, Text.oneLine_decimal _⟩
  have htrim : Text.trimEndMatches Text.isLineBreak (plusHeader body) =
      '+' :: Text.decimal body.bytes.length := by
    have happend : plusHeader body = '+' :: Text.decimal body.bytes.length ++ ['\r', '\n'] := rfl
    rw [happend, hone.trimEnd_crlf]
  have hsplit : Text.splitAtByte 1 ('+' :: Text.decimal body.bytes.length) =
      some (['+'], Text.decimal body.bytes.length) :=
    Text.splitAtByte_one rfl _
  have hword : Text.firstWord (Text.decimal body.bytes.length) =
      Text.decimal body.bytes.length := by
    rw [Text.firstWord, Text.trimStart_eq_self_iff.mpr hdecimal.1, List.takeWhile_eq_self_iff]
    intro c hc
    simp [Text.isWhitespace_of_isDigit (Text.isDigit_of_mem_decimal hc)]
  have hparse : Text.parseUnsigned maxU64 (Text.decimal body.bytes.length) =
      some body.bytes.length :=
    Text.parseUnsigned_decimal (Nat.le_trans body.length_le (by decide))
  have hperiod : Text.decimal body.bytes.length ≠ "-1".toList :=
    Text.decimal_ne_cons (by decide) ['1']
  have hclose : Text.decimal body.bytes.length ≠ "-2".toList :=
    Text.decimal_ne_cons (by decide) ['2']
  have hsign : ¬['+'] = ['-'] := by decide
  rw [parseHeader, htrim, hsplit]
  simp only [hword, hparse, if_true]
  rw [if_neg hsign, if_neg hperiod, if_neg hclose]

theorem lf_not_mem_plusHeader (body : ByteVec) :
    10 ∉ Utf8.encode ('+' :: Text.decimal body.bytes.length ++ ['\r']) := by
  apply Utf8.lf_not_mem_encode
  have hdecimal : '\n' ∉ Text.decimal body.bytes.length := Text.not_mem_decimal (by decide)
  simp [hdecimal]

/-- **The body comes back byte for byte**, whatever it contains and whatever follows it. -/
theorem exchange_plusOver (request : Bytes) (body : ByteVec) :
    Exchange (plusOver request) request (framed body)
      (.ok (.length body.bytes.length, body.bytes)) := by
  have hline : Utf8.encode (plusHeader body) =
      Utf8.encode ('+' :: Text.decimal body.bytes.length ++ ['\r']) ++ [10] := by
    have happend : plusHeader body = '+' :: Text.decimal body.bytes.length ++ ['\r'] ++ ['\n'] :=
      by simp [plusHeader]
    rw [happend, Utf8.encode_append]
    rfl
  have hread : Exchange (readThrough 10 : ClientM Bytes) [] (Utf8.encode (plusHeader body))
      (.ok (Utf8.encode (plusHeader body))) := by
    rw [hline]
    exact Exchange.readThrough (lf_not_mem_plusHeader body)
  have hne : (plusHeader body).isEmpty = false := rfl
  unfold plusOver framed
  refine Exchange.write_bind (hread.bind_read ?_)
  simp only [Utf8.decode_encode, hne, Bool.false_eq_true, if_false, parseHeader_plusHeader]
  exact (Exchange.readUpTo body.bytes).bind_silent (Exchange.pure _)

/-! ## Both -/

/-- A Gopher+ request is answered by what the handler makes of it, with a header. -/
theorem exchange_handleConnection {P : Type} {selector search : Text} {request : PlusRequest}
    (hselector : IsField selector) (hsearch : IsField search) (hrequest : request.Writable)
    (handler : Request P → ByteVec) (peer : P) {config : ServerConfig}
    (hlen : (Utf8.encode (plusText selector search request)).length + 1 < config.maxRequestLine) :
    Exchange (handleConnection handler peer config)
      (framed (handler {
        selector
        search := if search.isEmpty then none else some search
        plus := some request
        peer }))
      (Utf8.encode (plusLine selector search request)) (.ok ()) := by
  have hone := oneLine_plusText hselector hsearch hrequest
  have hline : Utf8.encode (plusLine selector search request) =
      Utf8.encode (plusText selector search request ++ ['\r']) ++ [10] := by
    have happend : plusLine selector search request =
        plusText selector search request ++ ['\r'] ++ ['\n'] := by simp [plusLine_eq]
    rw [happend, Utf8.encode_append]
    rfl
  have hlf : 10 ∉ Utf8.encode (plusText selector search request ++ ['\r']) := by
    apply Utf8.lf_not_mem_encode
    simp [(Text.oneLine_iff_not_mem.mp hone).2]
  have hread : Exchange (readLine 10 (config.maxRequestLine - 1) : ServerM (Option Bytes)) []
      (Utf8.encode (plusLine selector search request))
      (.ok (some (Utf8.encode (plusText selector search request ++ ['\r'])))) := by
    rw [hline]
    apply Exchange.readLine hlf
    rw [Utf8.encode_append, List.length_append]
    have hcr : (Utf8.encode ['\r']).length = 1 := rfl
    omega
  have hending : ∀ c ∈ ['\r'], Text.isLineBreak c = true := by simp [Text.isLineBreak]
  have hparse := parseRequest_plusText hselector hsearch hrequest hending
  have hwrite (body : ByteVec) : Exchange (do
      DuplexM.write (Utf8.encode (plusHeader body))
      DuplexM.write body.bytes : ServerM Unit) (framed body) [] (.ok ()) :=
    (Exchange.write _).bind (Exchange.write _)
  unfold handleConnection
  refine hread.bind_write ?_
  simp only [hparse, Option.isSome_some, if_true]
  exact hwrite _

/-- **Client and server agree on a Gopher+ transaction.** -/
theorem plus_transaction {selector search : Text} {request : PlusRequest}
    (hselector : IsField selector) (hsearch : IsField search) (hrequest : request.Writable) :
    parseRequest (Utf8.encode (plusLine selector search request)) =
        (selector, if search.isEmpty then none else some search, some request) ∧
      (∀ body, Exchange (plusOver (Utf8.encode (plusLine selector search request)))
        (Utf8.encode (plusLine selector search request)) (framed body)
        (.ok (.length body.bytes.length, body.bytes))) ∧
      ∀ (P : Type) (handler : Request P → ByteVec) (peer : P) (config : ServerConfig),
        (Utf8.encode (plusText selector search request)).length + 1 < config.maxRequestLine →
        Exchange (handleConnection handler peer config)
          (framed (handler {
            selector
            search := if search.isEmpty then none else some search
            plus := some request
            peer }))
          (Utf8.encode (plusLine selector search request)) (.ok ()) :=
  ⟨parseRequest_plusLine hselector hsearch hrequest, fun body => exchange_plusOver _ body,
    fun _ handler peer _ hlen =>
      exchange_handleConnection hselector hsearch hrequest handler peer hlen⟩

/-- A view of the root menu, and an answer of three bytes. -/
theorem plus_transaction_view :
    parseRequest (Utf8.encode (plusLine [] [] (.item (some "text/plain".toList)))) =
        ([], none, some (.item (some "text/plain".toList))) ∧
      Exchange (plusOver (Utf8.encode (plusLine [] [] (.item (some "text/plain".toList)))))
        (Utf8.encode (plusLine [] [] (.item (some "text/plain".toList))))
        [43, 51, 13, 10, 46, 13, 10] (.ok (.length 3, [46, 13, 10])) := by
  have hfield : IsField [] := ⟨by decide, Text.oneLine_nil⟩
  have hview : PlusRequest.Writable (.item (some "text/plain".toList)) :=
    ⟨by decide, by decide, Text.oneLine_iff.mpr (by decide)⟩
  have hframed : framed ⟨[46, 13, 10], by decide⟩ = [43, 51, 13, 10, 46, 13, 10] := by decide
  obtain ⟨hparse, hover, -⟩ := plus_transaction hfield hfield hview
  refine ⟨hparse, ?_⟩
  rw [← hframed]
  exact hover ⟨[46, 13, 10], by decide⟩

end Smolweb.Gopher
