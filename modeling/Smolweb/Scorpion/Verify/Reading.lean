import Smolweb.Lib.StreamLine
import Smolweb.Scorpion.Client
import Smolweb.Scorpion.Verify.Lines

/-!
# Reading responses off a stream

`readLine` stops right after the newline, and `readBody` after the bytes that the status line
declares. A response whose size is known is therefore read to its last byte and no further
(`readResponses_exchange`). For the others the end of the stream is the end of the body, and
`whole_iff` says when that body may be a part of what was sent.
-/

namespace Smolweb.Scorpion

open DuplexM

/-! ## Lines -/

section

variable {max : Nat} {line a : Bytes}

/-- The loop is the one of any reader of lines, but for a stream that ends before a line begins. -/
theorem lineLoop_eq (max : Nat) (line unread : Bytes) : lineLoop max line unread =
    (match (DuplexM.lineLoop 10 max line unread).1 with
      | none => .error (.response .tooLong)
      | some a => if a.isEmpty ∧ 10 ∉ unread then .error .unexpectedEof else .ok a,
      (DuplexM.lineLoop 10 max line unread).2) := by
  induction unread generalizing line with
  | nil => simp [lineLoop, DuplexM.lineLoop]
  | cons b rest ih =>
    by_cases hb : b = 10
    · simp [lineLoop, DuplexM.lineLoop, hb]
    · rw [lineLoop, DuplexM.lineLoop, if_neg hb, if_neg hb]
      by_cases hmax : max ≤ line.length
      · rw [if_pos hmax, if_pos (Nat.lt_succ_of_le hmax)]
      · rw [if_neg hmax, if_neg (by omega), ih]
        simp [Ne.symm hb]

theorem lineLoop_newline (h : 10 ∉ a) (hlen : line.length + a.length ≤ max) (rest : Bytes) :
    lineLoop max line (a ++ 10 :: rest) = (.ok (line ++ a), rest) := by
  rw [lineLoop_eq, Exchange.lineLoop_append h line rest hlen]
  simp

theorem lineLoop_eof (h : 10 ∉ a) (hlen : line.length + a.length ≤ max) :
    lineLoop max line a =
      (if (line ++ a).isEmpty then .error .unexpectedEof else .ok (line ++ a), []) := by
  rw [lineLoop_eq, lineLoop_end h line hlen]
  simp [h]

theorem lineLoop_tooLong (h : 10 ∉ a) (hline : line.length ≤ max)
    (hlen : max < line.length + a.length) (rest : Bytes) :
    (lineLoop max line (a ++ rest)).1 = .error (.response .tooLong) := by
  rw [lineLoop_eq, Exchange.lineLoop_none h line rest hline hlen]

end

/-- The text of a line's bytes, its CR cut off. -/
def lineText (a : Bytes) : Option Text :=
  Utf8.decode (if a.getLast? = some 13 then a.dropLast else a)

theorem readLine_on (max : Nat) (s : Duplex UInt8) : (readLine max).on s =
    match lineLoop max [] s.unread with
    | (.error e, unread) => (.error e, { s with unread })
    | (.ok a, unread) =>
      match lineText a with
      | some t => (.ok t, { s with unread })
      | none => (.error (.response .malformed), { s with unread }) := by
  have hbytes : (readLineBytes max).on s =
      ((lineLoop max [] s.unread).1, { s with unread := (lineLoop max [] s.unread).2 }) := rfl
  rw [readLine, on_bind, hbytes]
  rcases lineLoop max [] s.unread with ⟨e | a, unread⟩
  · rfl
  · simp only [lineText]
    cases Utf8.decode (if a.getLast? = some 13 then a.dropLast else a) <;> rfl

theorem lineText_encode (t : Text) : lineText (Utf8.encode t ++ [13]) = some t := by
  simp [lineText]

theorem lf_not_mem_line {t : Text} (h : '\n' ∉ t) : 10 ∉ Utf8.encode t ++ [13] := by
  rw [List.mem_append, not_or]
  exact ⟨Utf8.lf_not_mem_encode h, by decide⟩

/-- A line that was read stands at the front of the stream. -/
theorem readLine_ok {max : Nat} {stream written : Bytes} {t : Text} {s' : Duplex UInt8}
    (h : (readLine max).on ⟨stream, written⟩ = (.ok t, s')) :
    ∃ a rest, 10 ∉ a ∧ a.length ≤ max ∧ lineText a = some t ∧ s' = ⟨rest, written⟩ ∧
      (stream = a ++ 10 :: rest ∨ stream = a ∧ rest = []) := by
  rw [readLine_on, lineLoop_eq] at h
  by_cases hlen : (firstLine 10 stream).length ≤ max
  · simp only [lineLoop_eq_some hlen] at h
    split at h
    · next hloop => cases h
    · next a unread hloop =>
      injection hloop with hline hunread
      split at hline
      · cases hline
      · injection hline with hline
        subst hline hunread
        split at h
        · next t' htext =>
          cases h
          exact ⟨_, _, not_mem_firstLine, hlen, htext, rfl, firstLine_cases 10 stream⟩
        · cases h
  · simp only [lineLoop_eq_none (Nat.not_le.mp hlen)] at h
    cases h

/-- **Reading a line** takes it and its CRLF off the stream, and nothing else. -/
theorem readLine_exchange {max : Nat} {t : Text} (h : '\n' ∉ t)
    (hlen : (Utf8.encode t).length < max) :
    Exchange (readLine max) [] (Utf8.encode t ++ crlf) (.ok t) := by
  intro written rest
  have hstream : Utf8.encode t ++ crlf ++ rest = (Utf8.encode t ++ [13]) ++ 10 :: rest := by
    simp [crlf]
  have hloop : lineLoop max [] (Utf8.encode t ++ [13] ++ 10 :: rest) =
      (.ok ([] ++ (Utf8.encode t ++ [13])), rest) := by
    apply lineLoop_newline (lf_not_mem_line h)
    rw [List.length_append, List.length_singleton, List.length_nil]
    omega
  rw [readLine_on, hstream, hloop]
  simp [lineText_encode]

theorem readLine_tooLong {max : Nat} {t : Text} (h : '\n' ∉ t)
    (hlen : max ≤ (Utf8.encode t).length) (rest written : Bytes) :
    ((readLine max).on ⟨Utf8.encode t ++ crlf ++ rest, written⟩).1 =
      .error (.response .tooLong) := by
  have hstream : Utf8.encode t ++ crlf ++ rest = (Utf8.encode t ++ [13]) ++ 10 :: rest := by
    simp [crlf]
  have hloop : (lineLoop max [] (Utf8.encode t ++ [13] ++ 10 :: rest)).1 =
      .error (.response .tooLong) := by
    apply lineLoop_tooLong (lf_not_mem_line h) (Nat.zero_le _)
    rw [List.length_append, List.length_singleton, List.length_nil]
    omega
  rw [readLine_on, hstream]
  rcases hr : lineLoop max [] (Utf8.encode t ++ [13] ++ 10 :: rest) with ⟨r, unread⟩
  rw [hr] at hloop
  cases hloop
  rfl

/-- The header of a response is what its line says. -/
theorem header_of_readResponse {limits : Limits} {requestedRange : Option Range}
    {s s' : Duplex UInt8} {t : Text} {response : Response}
    (hline : (readLine limits.maxHeader).on s = (.ok t, s'))
    (hok : ((readResponse limits requestedRange).on s).1 = .ok response) :
    Header.parse t = .ok response.header := by
  have hbody (h : Header) (size : Size) (hb : (((readBody limits requestedRange h.status size) >>=
      fun body => (pure ⟨h, body⟩ : ClientM Response)).on s').1 = .ok response) :
      response.header = h := by
    rw [on_bind] at hb
    rcases hr : (readBody limits requestedRange h.status size).on s' with ⟨e | body, s₂⟩
    · rw [hr] at hb
      cases hb
    · rw [hr] at hb
      cases hb
      rfl
  rw [readResponse, on_bind, hline] at hok
  simp only at hok
  cases hparse : Header.parse t with
  | error e =>
    simp only [hparse] at hok
    cases hok
  | ok h =>
    simp only [hparse] at hok
    split at hok
    · cases hok
      rfl
    · split at hok
      · cases hok
      · rw [hbody h _ hok]
      · rw [hbody h _ hok]

/-! ## One response after another -/

/-- A response whose end the reader can tell, as it stands on the wire: a line within the limit,
its CR counted, and no body unless the line is of class `2x` and declares the body's size. -/
structure Delimited (limits : Limits) where
  line : Text
  header : Header
  body : Bytes
  parse : Header.parse line = .ok header
  oneLine : '\n' ∉ line
  fits : (Utf8.encode line).length < limits.maxHeader
  delimited : header.status.major ≠ .success ∧ body = [] ∨
    header.status.major = .success ∧ header.status ≠ .PARTIAL ∧
      ∃ success size, header.success = some (.ok success) ∧ success.size = .known size ∧
        size ≤ limits.maxBody ∧ body.length = size.toNat

theorem Header.toWire_fits_iff {h : Header} {max : Nat} :
    h.toWire.length ≤ max + 1 ↔ (Utf8.encode h.text).length < max := by
  rw [Header.toWire_eq, Utf8.encode_append, encode_crlf, List.length_append]
  simp only [crlf, List.length_cons, List.length_nil]
  omega

namespace Delimited

variable {limits : Limits}

def toWire (r : Delimited limits) : Bytes := Utf8.encode r.line ++ crlf ++ r.body

def response (r : Delimited limits) : Response := ⟨r.header, r.body⟩

/-- **Reading one response** takes its bytes off the stream, and nothing else. -/
theorem readResponse_exchange (r : Delimited limits) (requestedRange : Option Range) :
    Exchange (readResponse limits requestedRange) [] r.toWire (.ok r.response) := by
  refine (readLine_exchange r.oneLine r.fits).bind_read ?_
  simp only [r.parse]
  rcases r.delimited with ⟨hclass, hbody⟩ | ⟨hclass, hslice, success, size, hs, hsize, hle, hlen⟩
  · rw [if_pos hclass, hbody]
    have hresponse : r.response = ⟨r.header, []⟩ := by rw [response, hbody]
    rw [hresponse]
    exact Exchange.pure _
  · have hclass' : ¬r.header.status.major ≠ .success := fun h => h hclass
    have hread : Exchange (readBody limits requestedRange r.header.status success.size) []
        r.body (.ok r.body) := by
      rw [hsize, readBody, if_neg hslice, if_neg (UInt64.not_lt.mpr hle), ← hlen]
      exact (Exchange.readExact r.body).bind_silent (Exchange.pure r.body)
    rw [if_neg hclass', hs]
    exact hread.bind_silent (Exchange.pure _)

/-- **One response after another**: reading once per response gives all of them in order and
takes exactly their bytes, whatever range each call was made with. -/
theorem readResponses_exchange (calls : List (Option Range × Delimited limits)) :
    Exchange ((calls.map Prod.fst).mapM (readResponse limits)) []
      (calls.flatMap fun c => c.2.toWire) (.ok (calls.map fun c => c.2.response)) := by
  have h := Exchange.mapM (f := readResponse limits)
    (calls.map fun c => (c.1, c.2.toWire, c.2.response)) (by
      intro c hc
      obtain ⟨d, -, rfl⟩ := List.mem_map.mp hc
      exact d.2.readResponse_exchange d.1)
  simpa [List.map_map, List.flatMap_map, Function.comp_def] using h

/-- A status line without a body. -/
def slowDown : Delimited {} where
  line := "44 5 later".toList
  header := ⟨.SLOW_DOWN, ["5".toList, "later".toList]⟩
  body := []
  parse := by decide
  oneLine := by decide
  fits := by decide
  delimited := .inl ⟨by decide, rfl⟩

def file : Delimited {} where
  line := "20 2 text/plain".toList
  header := ⟨.OK, ["2".toList, "text/plain".toList]⟩
  body := [1, 2]
  parse := by decide
  oneLine := by decide
  fits := by decide
  delimited := .inr ⟨rfl, by decide, ⟨.known 2, "text/plain".toList, none⟩, 2, rfl, rfl, by decide,
    rfl⟩

theorem readResponses_exchange_sample :
    Exchange ([none, none].mapM (readResponse {})) [] (slowDown.toWire ++ file.toWire)
      (.ok [slowDown.response, file.response]) := by
  have h := readResponses_exchange [(none, slowDown), (none, file)]
  simp only [List.flatMap_cons, List.flatMap_nil, List.append_nil] at h
  exact h

end Delimited

/-! ## Bodies cut short -/

theorem Header.success_ne_none {h : Header} (hclass : h.status.major = .success) :
    h.success ≠ none := by
  unfold success
  rw [if_pos (Or.inl hclass)]
  split
  · simp
  · split
    · split <;> simp
    · simp

/-- The bytes of a line are a `2x` status line within the limit, with size and type. -/
structure Announces (limits : Limits) (a : Bytes) (h : Header) (success : Success) : Prop where
  lf : 10 ∉ a
  fits : a.length ≤ limits.maxHeader
  parse : ∃ t, lineText a = some t ∧ Header.parse t = .ok h
  major : h.status.major = .success
  success : h.success = some (.ok success)

/-- What the body should be of the bytes that follow the status line. -/
def wanted (requestedRange : Option Range) (status : Status) (size : Size) (rest : Bytes) : Bytes :=
  if status = .PARTIAL then
    match requestedRange.bind Range.len with
    | some len => rest.take len
    | none => rest
  else
    match size with
    | .known size => rest.take size.toNat
    | .unknown => rest

/-- The response is a whole one: its status line was ended by a newline, and its body is what it
should be, with no byte missing where a size was declared, and within the limit. -/
def Whole (limits : Limits) (requestedRange : Option Range) (stream : Bytes)
    (response : Response) : Prop :=
  ∃ a rest success, stream = a ++ 10 :: rest ∧ Announces limits a response.header success ∧
    response.body = wanted requestedRange response.header.status success.size rest ∧
    response.body.length ≤ limits.maxBody.toNat ∧
    (response.header.status ≠ .PARTIAL →
      ∀ size, success.size = .known size → response.body.length = size.toNat)

/-- The stream ends inside a status line that asks for no byte of a body, or the body that the
end of the stream should delimit is over the limit. -/
inductive CutShort (limits : Limits) (requestedRange : Option Range) (stream : Bytes) : Prop
  | line {h : Header} {success : Success} (announces : Announces limits stream h success)
      (none : h.status = .PARTIAL ∨ success.size = .unknown ∨ success.size = .known 0)
  | body {a rest : Bytes} {h : Header} {success : Success} (eq : stream = a ++ 10 :: rest)
      (announces : Announces limits a h success)
      (unbounded : h.status = .PARTIAL ∨ success.size = .unknown)
      (beyond : limits.maxBody.toNat <
        (wanted requestedRange h.status success.size rest).length)

section

variable {limits : Limits} {requestedRange : Option Range} {a rest written : Bytes} {h : Header}
  {success : Success}

@[simp] theorem wanted_nil (requestedRange : Option Range) (status : Status) (size : Size) :
    wanted requestedRange status size [] = [] := by
  unfold wanted
  split <;> split <;> simp

theorem Announces.ne_nil (ha : Announces limits a h success) : a ≠ [] := by
  rintro rfl
  obtain ⟨t, ht, hparse⟩ := ha.parse
  have hnil : lineText [] = some [] := by decide
  rw [hnil] at ht
  cases ht
  cases hparse

/-- A line that the server writes announces what the client reads of it. -/
theorem Announces.of_text {text : Text} (hlf : '\n' ∉ text)
    (hfits : (Utf8.encode text).length < limits.maxHeader) (hparse : Header.parse text = .ok h)
    (hmajor : h.status.major = .success) (hsuccess : h.success = some (.ok success)) :
    Announces limits (Utf8.encode text ++ [13]) h success where
  lf := lf_not_mem_line hlf
  fits := by
    rw [List.length_append, List.length_singleton]
    omega
  parse := ⟨text, lineText_encode text, hparse⟩
  major := hmajor
  success := hsuccess

/-- A response is read only from a status line within the limit. -/
theorem fits_of_readResponse {text : Text} {response : Response} (hlf : '\n' ∉ text)
    (hok : ((readResponse limits requestedRange).on
      ⟨Utf8.encode text ++ crlf ++ rest, written⟩).1 = .ok response) :
    (Utf8.encode text).length < limits.maxHeader := by
  apply Nat.lt_of_not_le
  intro hlong
  have hline := readLine_tooLong hlf hlong rest written
  rw [readResponse, on_bind] at hok
  rcases hr : (readLine limits.maxHeader).on ⟨Utf8.encode text ++ crlf ++ rest, written⟩ with
    ⟨e | t, s'⟩
  · rw [hr] at hok
    cases hok
  · rw [hr] at hline
    cases hline

/-- Where the end of the stream ends the body, it is read up to the limit. -/
theorem readBody_unbounded (limits : Limits) (requestedRange : Option Range) {status : Status}
    {size : Size} (h : status = .PARTIAL ∨ size = .unknown) (s : Duplex UInt8) :
    ((readBody limits requestedRange status size).on s).1 =
      .ok ((wanted requestedRange status size s.unread).take limits.maxBody.toNat) := by
  have hcap (n : Nat) : (readToEndCapped n).on s =
      (.ok (s.unread.take n), { s with unread := s.unread.drop n }) := rfl
  by_cases hslice : status = .PARTIAL
  · rw [readBody.eq_def, if_pos hslice, hcap, wanted.eq_def, if_pos hslice]
    cases requestedRange.bind Range.len with
    | none => simp
    | some len => simp [List.take_take, Nat.min_comm]
  · obtain rfl := h.resolve_left hslice
    rw [readBody, if_neg hslice, hcap, wanted, if_neg hslice]

/-- A body of a declared size is read whole or not at all. -/
theorem readBody_known {status : Status} {size : UInt64} {s s' : Duplex UInt8} {body : Bytes}
    (hslice : status ≠ .PARTIAL)
    (h : (readBody limits requestedRange status (.known size)).on s = (.ok body, s')) :
    body = wanted requestedRange status (.known size) s.unread ∧ body.length = size.toNat ∧
      size ≤ limits.maxBody := by
  rw [readBody, if_neg hslice] at h
  rw [wanted, if_neg hslice]
  split at h
  · cases h
  · next hle =>
    rw [on_bind] at h
    by_cases hlen : size.toNat ≤ s.unread.length
    · have hread : (DuplexM.readExact size.toNat : ClientM (Option Bytes)).on s =
          (.ok (some (s.unread.take size.toNat)),
            { s with unread := s.unread.drop size.toNat }) := if_pos hlen
      rw [hread] at h
      cases h
      exact ⟨rfl, by simp [hlen], UInt64.not_lt.mp hle⟩
    · have hread : (DuplexM.readExact size.toNat : ClientM (Option Bytes)).on s =
          (.ok none, { s with unread := [] }) := if_neg hlen
      rw [hread] at h
      cases h

/-- What a `2x` response is read from: its status line, ended by a newline or by the end of the
stream, and the bytes after it. -/
theorem readResponse_on (ha : Announces limits a h success) (requestedRange : Option Range)
    (written : Bytes) {stream : Bytes}
    (hstream : stream = a ++ 10 :: rest ∨ stream = a ∧ rest = []) :
    (readResponse limits requestedRange).on ⟨stream, written⟩ =
      match (readBody limits requestedRange h.status success.size).on ⟨rest, written⟩ with
      | (.ok body, s') => (.ok ⟨h, body⟩, s')
      | (.error e, s') => (.error e, s') := by
  obtain ⟨t, ht, hparse⟩ := ha.parse
  have hline : (readLine limits.maxHeader).on ⟨stream, written⟩ = (.ok t, ⟨rest, written⟩) := by
    have hfits : ([] : Bytes).length + a.length ≤ limits.maxHeader := by
      simpa using ha.fits
    rw [readLine_on]
    rcases hstream with rfl | ⟨rfl, rfl⟩
    · rw [lineLoop_newline ha.lf hfits]
      simp [ht]
    · have hne : ([] ++ stream).isEmpty = false := by simpa using ha.ne_nil
      rw [lineLoop_eof ha.lf hfits, hne]
      simp [ht]
  have hmajor : ¬h.status.major ≠ .success := fun hne => hne ha.major
  rw [readResponse, on_bind, hline]
  simp only [hparse, if_neg hmajor, ha.success]
  rw [on_bind]
  rcases (readBody limits requestedRange h.status success.size).on ⟨rest, written⟩ with
    ⟨e | body, s'⟩ <;> rfl

/-- A `2x` response comes from an announcing line and the body after it. -/
theorem of_readResponse_ok {stream : Bytes} {response : Response} {s' : Duplex UInt8}
    (hok : (readResponse limits requestedRange).on ⟨stream, written⟩ = (.ok response, s'))
    (hmajor : response.header.status.major = .success) :
    ∃ a rest success, Announces limits a response.header success ∧
      (stream = a ++ 10 :: rest ∨ stream = a ∧ rest = []) ∧
      (readBody limits requestedRange response.header.status success.size).on ⟨rest, written⟩ =
        (.ok response.body, s') := by
  rw [readResponse, on_bind] at hok
  rcases hline : (readLine limits.maxHeader).on ⟨stream, written⟩ with ⟨e | t, s₁⟩
  · rw [hline] at hok
    cases hok
  obtain ⟨a, rest, hlf, hfits, ht, rfl, hstream⟩ := readLine_ok hline
  rw [hline] at hok
  cases hparse : Header.parse t with
  | error e =>
    simp only [hparse] at hok
    cases hok
  | ok h =>
    simp only [hparse] at hok
    by_cases hclass : h.status.major = .success
    · have hclass' : ¬h.status.major ≠ .success := fun hne => hne hclass
      rw [if_neg hclass'] at hok
      rcases hs : h.success with _ | e | success
      · exact absurd hs (h.success_ne_none hclass)
      · simp only [hs] at hok
        cases hok
      · simp only [hs] at hok
        rw [on_bind] at hok
        rcases hbody : (readBody limits requestedRange h.status success.size).on
          ⟨rest, written⟩ with ⟨e | body, s₂⟩
        · rw [hbody] at hok
          cases hok
        · rw [hbody] at hok
          cases hok
          exact ⟨a, rest, success, ⟨hlf, hfits, ⟨t, ht, hparse⟩, hclass, hs⟩, hstream, hbody⟩
    · rw [if_pos hclass] at hok
      cases hok
      exact absurd hmajor hclass

theorem readBody_nil (limits : Limits) (requestedRange : Option Range) (written : Bytes)
    {status : Status} {size : Size}
    (h : status = .PARTIAL ∨ size = .unknown ∨ size = .known 0) :
    ((readBody limits requestedRange status size).on ⟨[], written⟩).1 = .ok [] := by
  by_cases hu : status = .PARTIAL ∨ size = .unknown
  · rw [readBody_unbounded limits requestedRange hu, wanted_nil]
    simp
  · rw [not_or] at hu
    obtain rfl := (h.resolve_left hu.1).resolve_left hu.2
    rw [readBody, if_neg hu.1, if_neg (UInt64.not_lt.mpr (UInt64.zero_le))]
    rfl

theorem Announces.unique {a' rest' : Bytes} {success' : Success}
    (ha : Announces limits a h success) (ha' : Announces limits a' h success')
    (heq : a ++ 10 :: rest = a' ++ 10 :: rest') : rest = rest' ∧ success = success' := by
  have hs := ha.success
  rw [ha'.success] at hs
  cases hs
  have hrest := congrArg (afterLine 10) heq
  rw [afterLine_append ha.lf, afterLine_append ha'.lf] at hrest
  exact ⟨hrest, rfl⟩

/-- What is read up to the end of the stream is whole if it is within the limit. -/
theorem whole_of_unbounded {response : Response} {s' : Duplex UInt8}
    (ha : Announces limits a response.header success)
    (hunbounded : response.header.status = .PARTIAL ∨ success.size = .unknown)
    (hfit : (wanted requestedRange response.header.status success.size rest).length ≤
      limits.maxBody.toNat)
    (hbody : (readBody limits requestedRange response.header.status success.size).on
      ⟨rest, written⟩ = (.ok response.body, s')) :
    Whole limits requestedRange (a ++ 10 :: rest) response := by
  have htake := readBody_unbounded limits requestedRange hunbounded ⟨rest, written⟩
  rw [hbody] at htake
  simp only [Except.ok.injEq] at htake
  rw [List.take_of_length_le hfit] at htake
  refine ⟨a, rest, success, rfl, ha, htake, htake ▸ hfit, ?_⟩
  intro hslice size hsize
  rcases hunbounded with h | h
  · exact absurd h hslice
  · rw [h] at hsize
    cases hsize

/-- What is read of a declared size is whole. -/
theorem whole_of_known {response : Response} {s' : Duplex UInt8} {size : UInt64}
    (ha : Announces limits a response.header success)
    (hslice : response.header.status ≠ .PARTIAL) (hsize : success.size = .known size)
    (hbody : (readBody limits requestedRange response.header.status (.known size)).on
      ⟨rest, written⟩ = (.ok response.body, s')) :
    Whole limits requestedRange (a ++ 10 :: rest) response := by
  obtain ⟨hwanted, hlen, hle⟩ := readBody_known hslice hbody
  refine ⟨a, rest, success, rfl, ha, ?_, ?_, ?_⟩
  · rw [hsize]
    exact hwanted
  · rw [hlen]
    exact hle
  · intro _ size' hsize'
    rw [hsize] at hsize'
    cases hsize'
    exact hlen

/-- A body that is cut short where the reader cannot tell is passed off as a whole one. -/
theorem CutShort.passed_off {stream : Bytes} (hcut : CutShort limits requestedRange stream)
    (written : Bytes) : ∃ response s',
      (readResponse limits requestedRange).on ⟨stream, written⟩ = (.ok response, s') ∧
        response.header.status.major = .success ∧
          ¬Whole limits requestedRange stream response := by
  cases hcut with
  | line ha hnone =>
    next h success =>
    have hread := readResponse_on ha requestedRange written (Or.inr ⟨rfl, rfl⟩)
    have hbody := readBody_nil limits requestedRange written hnone
    rcases hb : (readBody limits requestedRange h.status success.size).on ⟨[], written⟩ with
      ⟨r, s'⟩
    rw [hb] at hread hbody
    cases hbody
    refine ⟨_, _, hread, ha.major, ?_⟩
    rintro ⟨a, rest, -, heq, -⟩
    exact ha.lf (heq ▸ by simp)
  | body heq ha hunbounded hover =>
    next a rest h success =>
    have hread := readResponse_on ha requestedRange written (Or.inl heq)
    have hbody := readBody_unbounded limits requestedRange hunbounded ⟨rest, written⟩
    rcases hb : (readBody limits requestedRange h.status success.size).on ⟨rest, written⟩ with
      ⟨r, s'⟩
    rw [hb] at hread hbody
    cases hbody
    refine ⟨_, _, hread, ha.major, ?_⟩
    rintro ⟨a', rest', success', heq', ha', hwanted, -⟩
    obtain ⟨rfl, rfl⟩ := ha.unique ha' (heq.symm.trans heq')
    have hlen := congrArg List.length hwanted
    simp only [List.length_take] at hlen
    omega

/-- **A cut body is never passed off as a whole one** exactly if the stream does not cut it short
where the reader cannot tell. -/
theorem whole_iff (limits : Limits) (requestedRange : Option Range) (stream written : Bytes) :
    (∀ response s', (readResponse limits requestedRange).on ⟨stream, written⟩ =
        (.ok response, s') → response.header.status.major = .success →
          Whole limits requestedRange stream response) ↔
      ¬CutShort limits requestedRange stream := by
  constructor
  · intro hwhole hcut
    obtain ⟨response, s', hok, hmajor, hnot⟩ := hcut.passed_off written
    exact hnot (hwhole response s' hok hmajor)
  · intro hcut response s' hok hmajor
    obtain ⟨a, rest, success, ha, hstream, hbody⟩ := of_readResponse_ok hok hmajor
    by_cases hunbounded : response.header.status = .PARTIAL ∨ success.size = .unknown
    · rcases hstream with rfl | ⟨rfl, -⟩
      · apply whole_of_unbounded ha hunbounded _ hbody
        apply Nat.le_of_not_lt
        intro hover
        exact hcut (.body rfl ha hunbounded hover)
      · exact absurd (.line ha (hunbounded.imp_right Or.inl)) hcut
    · obtain ⟨hslice, hsize⟩ := not_or.mp hunbounded
      cases hs : success.size with
      | unknown => exact absurd hs hsize
      | known size =>
        rw [hs] at hbody
        rcases hstream with rfl | ⟨rfl, rfl⟩
        · exact whole_of_known ha hslice hs hbody
        · refine absurd (.line ha (Or.inr (Or.inr ?_))) hcut
          obtain ⟨hwanted, hlen, -⟩ := readBody_known hslice hbody
          rw [hwanted, wanted, if_neg hslice] at hlen
          have hzero : size = 0 := by
            apply UInt64.toNat_inj.mp
            simpa using hlen.symm
          rw [hs, hzero]

end

/-- A status line whose stream ends before its newline is accepted with an empty body. -/
theorem cut_line_passed_off : ∃ response s',
    (readResponse {} none).on ⟨Utf8.encode "20 ? text/plain".toList, []⟩ = (.ok response, s') ∧
      response.header.status.major = .success ∧
        ¬Whole {} none (Utf8.encode "20 ? text/plain".toList) response := by
  have ha : Announces {} (Utf8.encode "20 ? text/plain".toList)
      ⟨.OK, ["?".toList, "text/plain".toList]⟩ ⟨.unknown, "text/plain".toList, none⟩ := by
    refine ⟨by decide, by decide, ⟨"20 ? text/plain".toList, ?_, by decide⟩, rfl, by decide⟩
    have hcr : (Utf8.encode "20 ? text/plain".toList).getLast? ≠ some 13 := by decide
    rw [lineText, if_neg hcr, Utf8.decode_encode]
  refine ⟨⟨⟨.OK, ["?".toList, "text/plain".toList]⟩, []⟩, ⟨[], []⟩, ?_, rfl, ?_⟩
  · exact readResponse_on ha none [] (Or.inr ⟨rfl, rfl⟩)
  · rintro ⟨a, rest, -, heq, -⟩
    exact ha.lf (heq ▸ by simp)

end Smolweb.Scorpion
