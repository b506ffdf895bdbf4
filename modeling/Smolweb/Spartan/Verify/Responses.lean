import Smolweb.Spartan.Response

/-!
# Spartan responses survive the wire

The first CRLF of an encoded response is the one that ends its status line, whatever its body
holds. So the client reads back the status and the meta that the server wrote, and the body of a
success (`SpartanResponse.survives`).
-/

namespace Smolweb.Spartan

theorem fromCode_code (status : Status) : Status.fromCode status.code = some status := by
  cases status <;> rfl

theorem code_le (status : Status) : status.code ≤ 255 := by
  cases status <;> simp [Status.code]

namespace SpartanResponse

variable {response : SpartanResponse}

/-- The status line without its CRLF. -/
def statusText (response : SpartanResponse) : Text :=
  Text.decimal response.status.code ++ ' ' :: response.metaText

theorem encode_eq (response : SpartanResponse) :
    response.encode = Utf8.encode response.statusText ++ crlf ++ response.body := by
  rw [encode, statusText, Utf8.encode_append _ ['\r', '\n'], encode_crlf,
    List.append_assoc _ [' '], List.singleton_append]

theorem encode_of_digit {digit : Char} (h : Text.decimal response.status.code = [digit]) :
    response.encode = Utf8.encode (digit :: ' ' :: response.metaText) ++ crlf ++ response.body := by
  rw [encode_eq, statusText, h]
  rfl

theorem crlfFree_statusText (h : response.metaText.CrlfFree) : response.statusText.CrlfFree := by
  apply (Text.crlfFree_append_cons (by decide) (by decide)).mpr
  exact ⟨.of_not_mem_cr (Text.not_mem_decimal (by decide)), h⟩

/-- What the client reads of what the server wrote. -/
theorem parseResponse_encode (response : SpartanResponse)
    (htrim : Text.trim response.metaText = response.metaText)
    (hcrlf : response.metaText.CrlfFree) :
    parseResponse response.encode = .ok {
      status := response.status
      metaText := response.metaText
      body := response.body } := by
  have hposition : crlfPosition response.encode =
      some (Utf8.encode response.statusText).length := by
    rw [encode_eq]
    exact crlfPosition_encode (crlfFree_statusText hcrlf) response.body
  have htake : response.encode.take (Utf8.encode response.statusText).length =
      Utf8.encode response.statusText := by
    rw [encode_eq, List.append_assoc, List.take_left]
  have hdrop : response.encode.drop ((Utf8.encode response.statusText).length + 2) =
      response.body := by
    rw [encode_eq]
    exact List.drop_left' (by simp [crlf])
  have hsplit : Text.splitOnce ' ' response.statusText =
      some (Text.decimal response.status.code, response.metaText) :=
    Text.splitOnce_append (Text.not_mem_decimal (by decide)) _
  have hbody : (if response.status = .success then response.body else []) = response.body := by
    cases response <;> rfl
  rw [parseResponse, hposition]
  simp only [htake, Utf8.decode_encode, hsplit, htrim,
    Text.parseUnsigned_decimal (code_le response.status), fromCode_code, hdrop, hbody]

/-- **Responses survive the wire**: a success goes out as a 2 with its MIME type and its body, and
it is read as that; a redirect, a client error and a server error go out as 3, 4 and 5 with their
text, and are read with an empty body. -/
theorem survives (text : Text) (body : Bytes) (htrim : Text.trim text = text)
    (hcrlf : text.CrlfFree) :
    ((success text body).encode = Utf8.encode ("2 ".toList ++ text) ++ crlf ++ body ∧
      parseResponse (success text body).encode =
        .ok { status := .success, metaText := text, body }) ∧
    ((redirect text).encode = Utf8.encode ("3 ".toList ++ text) ++ crlf ∧
      parseResponse (redirect text).encode =
        .ok { status := .redirect, metaText := text, body := [] }) ∧
    ((clientError text).encode = Utf8.encode ("4 ".toList ++ text) ++ crlf ∧
      parseResponse (clientError text).encode =
        .ok { status := .clientError, metaText := text, body := [] }) ∧
    ((serverError text).encode = Utf8.encode ("5 ".toList ++ text) ++ crlf ∧
      parseResponse (serverError text).encode =
        .ok { status := .serverError, metaText := text, body := [] }) := by
  have h2 : Text.decimal Status.success.code = ['2'] := by decide
  have h3 : Text.decimal Status.redirect.code = ['3'] := by decide
  have h4 : Text.decimal Status.clientError.code = ['4'] := by decide
  have h5 : Text.decimal Status.serverError.code = ['5'] := by decide
  refine ⟨⟨?_, ?_⟩, ⟨?_, ?_⟩, ⟨?_, ?_⟩, ?_, ?_⟩
  · exact @encode_of_digit (success text body) _ h2
  · exact parseResponse_encode (success text body) htrim hcrlf
  · exact (@encode_of_digit (redirect text) _ h3).trans (List.append_nil _)
  · exact parseResponse_encode (redirect text) htrim hcrlf
  · exact (@encode_of_digit (clientError text) _ h4).trans (List.append_nil _)
  · exact parseResponse_encode (clientError text) htrim hcrlf
  · exact (@encode_of_digit (serverError text) _ h5).trans (List.append_nil _)
  · exact parseResponse_encode (serverError text) htrim hcrlf

theorem survives_crlf :
    parseResponse (success "text/gemini; lang=en".toList [13, 10, 13, 10, 50]).encode = .ok {
      status := .success
      metaText := "text/gemini; lang=en".toList
      body := [13, 10, 13, 10, 50] } :=
  (survives _ _ (by decide +kernel) (by decide +kernel)).1.2

end SpartanResponse

end Smolweb.Spartan
