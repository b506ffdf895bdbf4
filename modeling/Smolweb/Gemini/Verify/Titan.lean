import Smolweb.Gemini.Titan
import Smolweb.Lib.Marked

/-!
# What a Titan upload says

The URL of an upload, its body, its MIME type and its token can be told from the bytes that are
sent, as long as no field holds the mark that ends it or a line feed (`upload_wire_iff`).
-/

namespace Smolweb.Titan

open Gemini DuplexM

/-- What is uploaded, and where to. -/
structure Upload where
  url : UrlRecord
  body : Bytes
  mime : Text
  token : Option Text
  deriving DecidableEq

namespace Upload

/-- The call that sends it. -/
def call (u : Upload) : Except Text (Fetch ProtocolError Response) :=
  upload u.url u.body u.mime u.token

/-- No field holds the mark of the one after it, or the end of the line. -/
structure Separable (u : Upload) : Prop where
  size : ¬";size=".toList <:+: u.url.display
  token : ¬";token=".toList <:+: u.mime
  mime_line : '\n' ∉ u.mime
  token_line : ∀ t ∈ u.token, '\n' ∉ t

/-- The MIME type as it stands on the line. -/
def mimeField (u : Upload) : Text := if u.mime.isEmpty then [] else ";mime=".toList ++ u.mime

/-- The line up to its CRLF. -/
def line (u : Upload) : Text :=
  u.url.display ++ (";size=".toList ++ (Text.decimal u.body.length ++
    (u.mimeField ++ Marked.optional ";token=".toList u.token)))

def wire (u : Upload) : Bytes := Utf8.encode (u.line ++ ['\r', '\n']) ++ u.body

theorem requestLine_eq (u : Upload) :
    requestLine u.url u.body.length u.mime u.token = u.line ++ ['\r', '\n'] := by
  simp only [requestLine, line, mimeField, Marked.optional, List.append_assoc]

theorem on_readResponse (s : Duplex UInt8) :
    (readToEnd >>= fun raw => MonadExcept.ofExcept (parseResponse raw) : ClientM Response).on s =
      (parseResponse s.unread, ⟨[], s.written⟩) := by
  rw [on_bind]
  show (MonadExcept.ofExcept (parseResponse s.unread) : ClientM Response).on _ = _
  cases parseResponse s.unread <;> rfl

/-- An upload writes its bytes, and makes of all that comes back what a gemini client does. -/
theorem on_exchange {u : Upload} {f : Fetch ProtocolError Response} (h : u.call = .ok f)
    (s : Duplex UInt8) :
    f.exchange.on s = (parseResponse s.unread, ⟨[], s.written ++ u.wire⟩) := by
  unfold call upload uploadInner at h
  split at h
  · cases h
  · cases h
    simp only [requestLine_eq]
    rw [on_write_bind, wire]
    cases u.body with
    | nil =>
      rw [List.append_nil]
      exact on_readResponse _
    | cons b body =>
      rw [← List.append_assoc]
      exact (on_write_bind _ _ _).trans (on_readResponse _)

/-! ## The attributes -/

theorem mimeField_inj {u v : Upload} (h : u.mimeField = v.mimeField) : u.mime = v.mime := by
  unfold mimeField at h
  cases hu : u.mime with
  | nil =>
    cases hv : v.mime with
    | nil => rfl
    | cons d mime => simp [hu, hv] at h
  | cons c mime =>
    cases hv : v.mime with
    | nil => simp [hu, hv] at h
    | cons d mime => simpa [hu, hv] using h

/-- The MIME type's own mark does not begin a token. -/
theorem Separable.token_mimeField {u : Upload} (h : u.Separable) :
    ¬";token=".toList <:+: u.mimeField := by
  have hmime := h.token
  unfold mimeField
  split
  · decide
  · simpa [List.infix_cons_iff, List.cons_prefix_cons] using hmime

theorem head_attributes (u : Upload) :
    ∀ c ∈ (u.mimeField ++ Marked.optional ";token=".toList u.token).head?, c.isDigit = false := by
  unfold mimeField Marked.optional
  cases u.mime with
  | nil => cases u.token <;> simp
  | cons d mime => simp

/-- The fields of a line can be told apart. -/
theorem line_inj {u v : Upload} (hu : u.Separable) (hv : v.Separable) (h : u.line = v.line) :
    u.url.display = v.url.display ∧ u.mime = v.mime ∧ u.token = v.token := by
  have hsize : ';' ∉ "size=".toList := by decide
  have hkey : ';' ∉ "token=".toList := by decide
  obtain ⟨hurl, hrest⟩ := Marked.append_mark_inj hsize hu.size hv.size h
  obtain ⟨-, hattributes⟩ := Text.decimal_append_inj u.head_attributes v.head_attributes hrest
  obtain ⟨hmime, htoken⟩ :=
    Marked.append_optional_inj hkey hu.token_mimeField hv.token_mimeField hattributes
  exact ⟨hurl, mimeField_inj hmime, htoken⟩

theorem Separable.lf_not_mem_line {u : Upload} (h : u.Separable) (hurl : u.url.display.OneLine) :
    '\n' ∉ u.line := by
  have hdisplay := (Text.oneLine_iff_not_mem.mp hurl).2
  have hsize := (Text.oneLine_iff_not_mem.mp (Text.oneLine_decimal u.body.length)).2
  have hmime : '\n' ∉ u.mimeField := by
    unfold mimeField
    split
    · simp
    · simp [h.mime_line]
  have htoken : '\n' ∉ Marked.optional ";token=".toList u.token := by
    cases ht : u.token with
    | none => simp [Marked.optional]
    | some token => simp [Marked.optional, h.token_line token ht]
  simp only [line, List.mem_append, not_or]
  exact ⟨hdisplay, by decide, hsize, hmime, htoken⟩

/-- So can the line and the body. -/
theorem wire_inj {u v : Upload} (hu : '\n' ∉ u.line) (hv : '\n' ∉ v.line) (h : u.wire = v.wire) :
    u.line = v.line ∧ u.body = v.body := by
  have hwire (w : Upload) : w.wire = Utf8.encode (w.line ++ ['\r']) ++ 10 :: w.body := by
    simp only [wire, Utf8.encode_append, List.append_assoc]
    rfl
  rw [hwire, hwire] at h
  obtain ⟨hline, hbody⟩ := append_sep_inj (Utf8.lf_not_mem_encode (by simp [hu]))
    (Utf8.lf_not_mem_encode (by simp [hv])) h
  exact ⟨List.append_cancel_right (Utf8.encode_injective hline), hbody⟩

/-- A token cannot be told from the end of a MIME type that holds its mark. -/
theorem wire_token_in_mime {u : Upload} {token : Text} (hmime : u.mime ≠ [])
    (htoken : u.token = some token) :
    ({ u with mime := u.mime ++ ";token=".toList ++ token, token := none } : Upload).wire =
      u.wire := by
  obtain ⟨url, body, mime, token'⟩ := u
  simp only at hmime htoken
  subst htoken
  have hfield (rest : Text) : (if (mime ++ rest).isEmpty then [] else
      ";mime=".toList ++ (mime ++ rest)) = ";mime=".toList ++ (mime ++ rest) :=
    if_neg (by simp [hmime])
  have hself := hfield []
  rw [List.append_nil] at hself
  simp only [wire, line, mimeField, hself, Marked.optional, Option.elim_none, Option.elim_some,
    List.append_nil, List.append_assoc, hfield]

end Upload

/-- **An upload is all that its bytes say**: two uploads whose fields hold none of the marks send
the same bytes only if they are the same, and either is answered by all that comes back. -/
theorem upload_wire_iff {parse : Text → Except Text UrlRecord} (hparse : UrlRecord.Standard parse)
    {a b : Text} {u v : Upload} (hu : parse a = .ok u.url) (hv : parse b = .ok v.url)
    (hsep : u.Separable) (hsep' : v.Separable) {f g : Fetch ProtocolError Response}
    (hf : u.call = .ok f) (hg : v.call = .ok g) (s : Duplex UInt8) :
    (f.exchange.on s).1 = parseResponse s.unread ∧
      ((f.exchange.on s).2.written = (g.exchange.on s).2.written ↔ u = v) := by
  rw [Upload.on_exchange hf, Upload.on_exchange hg]
  refine ⟨rfl, ?_, ?_⟩
  · intro h
    have hwire : u.wire = v.wire := List.append_cancel_left h
    obtain ⟨hline, hbody⟩ := Upload.wire_inj (hsep.lf_not_mem_line (hparse.oneLine hu))
      (hsep'.lf_not_mem_line (hparse.oneLine hv)) hwire
    obtain ⟨hdisplay, hmime, htoken⟩ := Upload.line_inj hsep hsep' hline
    have hurl : u.url = v.url := by
      have hsame := hparse.reparse hu
      rw [hdisplay, hparse.reparse hv] at hsame
      exact (Except.ok.inj hsame).symm
    obtain ⟨url, body, mime, token⟩ := u
    obtain ⟨url', body', mime', token'⟩ := v
    simp only at hurl hbody hmime htoken
    rw [hurl, hbody, hmime, htoken]
  · rintro rfl
    rfl

/-- `titan://a/b`. -/
def titanUrl : UrlRecord where
  scheme := "titan".toList
  host := some ['a']
  port := none
  path := ['/', 'b']
  query := none
  fragment := none
  username := []
  password := none

/-- Two bytes for `titan://a/b`, with a token or without one. -/
def sampleUpload (token : Option Text) : Upload where
  url := titanUrl
  body := [104, 105]
  mime := "text/plain".toList
  token

theorem separable_sampleUpload {token : Option Text} (h : ∀ t ∈ token, '\n' ∉ t) :
    (sampleUpload token).Separable where
  size := by
    show ¬";size=".toList <:+: titanUrl.display
    decide
  token := by
    show ¬";token=".toList <:+: "text/plain".toList
    decide
  mime_line := by
    show '\n' ∉ "text/plain".toList
    decide
  token_line := h

theorem upload_wire_iff_sample : ∃ f g : Fetch ProtocolError Response,
    (sampleUpload (some ['k'])).call = .ok f ∧ (sampleUpload none).call = .ok g ∧
      ((f.exchange.on ⟨[], []⟩).1 = parseResponse [] ∧
        ((f.exchange.on ⟨[], []⟩).2.written = (g.exchange.on ⟨[], []⟩).2.written ↔
          sampleUpload (some ['k']) = sampleUpload none)) :=
  ⟨_, _, rfl, rfl, upload_wire_iff
    (@UrlRecord.standard_parseOnly titanUrl (Text.oneLine_iff.mpr (by decide)))
    (a := titanUrl.display) (b := titanUrl.display) (u := sampleUpload (some ['k']))
    (v := sampleUpload none) (if_pos rfl) (if_pos rfl)
    (separable_sampleUpload (by simp)) (separable_sampleUpload (by simp)) rfl rfl ⟨[], []⟩⟩

end Smolweb.Titan
