import Smolweb.Lib.Crlf
import Smolweb.Lib.Duplex
import Smolweb.Lib.StreamLine
import Smolweb.Lib.Url

/-!
# Fetches

A client that checks a URL, connects, asks with one line and reads a reply that starts with one.
`Fetch` is what is left to do once the checks are passed; `IsRequestLine` says of the bytes it
writes that they are one line and not more. A text that is ended by CRLF is one iff it has no line
break of its own (`isRequestLine_encode`).
-/

namespace Smolweb

variable {ε α : Type}

/-- A fetch that passed its checks: where it connects and what it runs over the connection. -/
structure Fetch (ε α : Type) where
  host : Text
  port : Nat
  exchange : DuplexM UInt8 ε α

/-- The checks that fetches begin with: the URL parses, has the right scheme and has a host. The
errors are texts, which `badUrl` wraps. -/
def checkUrl (parse : UrlParser) (scheme : Text) (badUrl : Text → ε) (badScheme : Text → Text)
    (noHost url : Text) : Except ε (Url × Text) :=
  match parse url with
  | .error e => .error (badUrl e)
  | .ok parsed =>
    if parsed.scheme ≠ scheme then .error (badUrl (badScheme parsed.scheme))
    else
      match parsed.host with
      | none => .error (badUrl noHost)
      | some host => .ok (parsed, host)

/-- What follows the checks succeeds on a URL that passes them, and is all that is left to do. -/
theorem checkUrl_bind_eq_ok_iff {parse : UrlParser} {scheme : Text} {badUrl : Text → ε}
    {badScheme : Text → Text} {noHost url : Text} {f : Url × Text → Except ε α} {a : α} :
    (checkUrl parse scheme badUrl badScheme noHost url >>= f) = .ok a ↔
      ∃ parsed host, parse url = .ok parsed ∧ parsed.scheme = scheme ∧ parsed.host = some host ∧
        f (parsed, host) = .ok a := by
  unfold checkUrl
  constructor
  · intro h
    split at h
    · cases h
    · next parsed hparsed =>
      split at h
      · cases h
      · next hscheme =>
        split at h
        · cases h
        · next host hhost => exact ⟨parsed, host, hparsed, not_not.mp hscheme, hhost, h⟩
  · rintro ⟨parsed, host, hparsed, rfl, hhost, hf⟩
    simp only [hparsed, ne_eq, not_true, if_false, hhost]
    exact hf

/-- A check that refuses. -/
theorem ite_error_eq_ok_iff {c : Prop} [Decidable c] {e : ε} {a b : α} :
    (if c then .error e else .ok a : Except ε α) = .ok b ↔ ¬c ∧ a = b := by
  by_cases hc : c
  · simp [hc]
  · simp [hc]

/-- A line of a reply, of at most `cap` bytes, without its newline. -/
def readHeaderLine (tooLong notUtf8 : ε) (cap : Nat) : DuplexM UInt8 ε Text := do
  match ← DuplexM.readLine 10 cap with
  | none => throw tooLong
  | some line =>
    match Utf8.decode line with
    | none => throw notUtf8
    | some text => pure text

theorem reads_readHeaderLine (tooLong notUtf8 : ε) (cap : Nat) :
    (readHeaderLine tooLong notUtf8 cap).Reads := by
  unfold readHeaderLine
  refine (DuplexM.Reads.readLine 10 cap).bind fun line => ?_
  split
  · exact .throw _
  · split
    · exact .throw _
    · exact .pure _

/-- The text of a header line, if it is not too long and is UTF-8. -/
def headerText (cap : Nat) (line : Bytes) : Option Text :=
  if line.length ≤ cap then Utf8.decode line else none

section

variable {tooLong notUtf8 : ε} {cap : Nat} {s : Duplex UInt8}

theorem on_readHeaderLine {t : Text}
    (h : headerText cap (DuplexM.firstLine 10 s.unread) = some t) :
    (readHeaderLine tooLong notUtf8 cap).on s =
      (.ok t, { s with unread := DuplexM.afterLine 10 s.unread }) := by
  unfold headerText at h
  split at h
  · next hlen =>
    simp only [readHeaderLine, DuplexM.on_bind, DuplexM.on_readLine hlen, h]
    rfl
  · cases h

theorem on_readHeaderLine_none (h : headerText cap (DuplexM.firstLine 10 s.unread) = none) :
    ∃ e, ((readHeaderLine tooLong notUtf8 cap).on s).1 = .error e := by
  unfold headerText at h
  split at h
  · next hlen =>
    refine ⟨notUtf8, ?_⟩
    simp only [readHeaderLine, DuplexM.on_bind, DuplexM.on_readLine hlen, h]
    rfl
  · next hlen =>
    refine ⟨tooLong, ?_⟩
    have hline := DuplexM.on_readLine_none (ε := ε) (Nat.lt_of_not_le hlen)
    rw [readHeaderLine, DuplexM.on_bind]
    rcases hread : (DuplexM.readLine 10 cap : DuplexM UInt8 ε (Option Bytes)).on s with ⟨r, s'⟩
    rw [hread] at hline
    cases hline
    rfl

end

/-! ## What a fetch writes -/

/-- Whatever the server answers, the exchange writes `out`. -/
def Fetch.Sends (f : Fetch ε α) (out : Bytes) : Prop :=
  ∀ s, (f.exchange.on s).2.written = s.written ++ out

/-- An exchange that writes and then only reads. -/
theorem Fetch.sends_write {host : Text} {port : Nat} {out : Bytes} {rest : DuplexM UInt8 ε α}
    (h : rest.Reads) : Fetch.Sends ⟨host, port, DuplexM.write out >>= fun _ => rest⟩ out :=
  fun s => DuplexM.written_bind _ (fun _ => h) s

theorem Fetch.sends_inj {f : Fetch ε α} {a b : Bytes} (ha : f.Sends a) (hb : f.Sends b) :
    a = b := by
  have h := (ha ⟨[], []⟩).symm.trans (hb ⟨[], []⟩)
  simpa using h

/-- One CRLF, at the end, and no other CR or LF. -/
def IsRequestLine (b : Bytes) : Prop := ∃ line, b = line ++ crlf ∧ 13 ∉ line ∧ 10 ∉ line

/-- **A text ended by CRLF** is a request line iff it has no line break. -/
theorem isRequestLine_encode {t : Text} :
    IsRequestLine (Utf8.encode (t ++ ['\r', '\n'])) ↔ t.OneLine := by
  have hcr : (13 : UInt8) ∈ Utf8.encode t ↔ '\r' ∈ t :=
    Utf8.mem_encode_ascii (c := '\r') (by decide)
  have hlf : (10 : UInt8) ∈ Utf8.encode t ↔ '\n' ∈ t :=
    Utf8.mem_encode_ascii (c := '\n') (by decide)
  rw [Utf8.encode_append, encode_crlf, Text.oneLine_iff_not_mem, ← hcr, ← hlf]
  constructor
  · rintro ⟨line, hline, hfree⟩
    rwa [List.append_cancel_right hline]
  · intro h
    exact ⟨_, rfl, h⟩

end Smolweb
