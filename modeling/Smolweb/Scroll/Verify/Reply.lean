import Smolweb.Scroll.Client

/-!
# The header of a scroll reply

The end of the stream ends a header line like a newline, and what was not received of the three
metadata lines reads like blank ones. A success that is returned had its whole header iff a stream
that can be read as one has four newlines (`wholeHeader_iff`).
-/

namespace Smolweb.Scroll

open DuplexM

/-- The text of the header line numbered `n`, as far as it was received. -/
def lineText (stream : Bytes) (n : Nat) : Option Text := headerText 4096 (nthLine 10 n stream)

/-- What was received of the status line is that of a success. -/
def Opens (stream : Bytes) (code : Nat) (mimetype : Text) : Prop :=
  ∃ t, lineText stream 0 = some t ∧ parseStatusLine t = .ok (code, .success, mimetype)

/-- What was received of the four lines can be read as this header. -/
inductive Announces (stream : Bytes) : SuccessHeader → Prop where
  | intro {code : Nat} {mimetype author published modified : Text}
    (opens : Opens stream code mimetype) (first : lineText stream 1 = some author)
    (second : lineText stream 2 = some published) (third : lineText stream 3 = some modified) :
    Announces stream (finishSuccess code mimetype author published modified)

/-- What comes after the fourth line. -/
def afterHeader (stream : Bytes) : Bytes :=
  afterLine 10 (afterLine 10 (afterLine 10 (afterLine 10 stream)))

/-- The stream is four lines, each ended by a newline, and the body; the header is what the lines
say. -/
def Sent (stream : Bytes) (header : SuccessHeader) (body : Bytes) : Prop :=
  ∃ a b c d : Bytes, stream = a ++ 10 :: (b ++ 10 :: (c ++ 10 :: (d ++ 10 :: body))) ∧
    (∀ line ∈ [a, b, c, d], 10 ∉ line) ∧
    ∃ status code mimetype author published modified, Utf8.decode a = some status ∧
      parseStatusLine status = .ok (code, .success, mimetype) ∧ Utf8.decode b = some author ∧
      Utf8.decode c = some published ∧ Utf8.decode d = some modified ∧
      header = finishSuccess code mimetype author published modified

/-! ## What is returned -/

section

variable {url : Text} {languages : List Text} {metadata : Bool} {stream written body : Bytes}

/-- What an exchange returns over a stream. -/
def reply (url : Text) (languages : List Text) (metadata : Bool) (stream written : Bytes) :
    Except ClientError Response :=
  ((exchange url languages metadata).on ⟨stream, written⟩).1

theorem readLine_bind {α : Type} {t : Text} (h : lineText stream 0 = some t)
    (f : Text → ClientM α) :
    (readLine >>= f).on ⟨stream, written⟩ = (f t).on ⟨afterLine 10 stream, written⟩ := by
  rw [on_bind, readLine, on_readHeaderLine (s := ⟨stream, written⟩) h]

/-- A line that is not refused has a text. -/
theorem of_readLine_bind {α : Type} {f : Text → ClientM α} {a : α}
    (h : ((readLine >>= f).on ⟨stream, written⟩).1 = .ok a) :
    ∃ t, lineText stream 0 = some t ∧
      ((f t).on ⟨afterLine 10 stream, written⟩).1 = .ok a := by
  cases hline : lineText stream 0 with
  | none =>
    obtain ⟨e, he⟩ := on_readHeaderLine_none (s := ⟨stream, written⟩) hline
    rw [readLine, on_bind_error he] at h
    cases h
  | some t =>
    rw [readLine_bind hline] at h
    exact ⟨t, rfl, h⟩

theorem reply_of_announces {header : SuccessHeader} (h : Announces stream header) :
    reply url languages metadata stream written = .ok ⟨.success header, afterHeader stream⟩ := by
  obtain ⟨⟨t, status, parse⟩, first, second, third⟩ := h
  have first' : lineText (afterLine 10 stream) 0 = _ := first
  have second' : lineText (afterLine 10 (afterLine 10 stream)) 0 = _ := second
  have third' : lineText (afterLine 10 (afterLine 10 (afterLine 10 stream))) 0 = _ := third
  rw [reply, exchange, on_write_bind, readResponse, readLine_bind status]
  simp only [parse, ne_eq, not_true_eq_false, if_false]
  rw [readLine_bind first', readLine_bind second', readLine_bind third']
  rfl

/-- A success that is not refused had metadata lines that can be read. -/
theorem announces_of_reply {code : Nat} {mimetype : Text} (h : Opens stream code mimetype)
    {r : Response} (hr : reply url languages metadata stream written = .ok r) :
    ∃ header, Announces stream header := by
  obtain ⟨t, status, parse⟩ := id h
  rw [reply, exchange, on_write_bind, readResponse, readLine_bind status] at hr
  simp only [parse, ne_eq, not_true_eq_false, if_false] at hr
  obtain ⟨author, first, hr⟩ := of_readLine_bind hr
  obtain ⟨published, second, hr⟩ := of_readLine_bind hr
  obtain ⟨modified, third, hr⟩ := of_readLine_bind hr
  exact ⟨_, .intro h first second third⟩

theorem opens_of_reply {header : SuccessHeader}
    (h : reply url languages metadata stream written = .ok ⟨.success header, body⟩) :
    ∃ code mimetype, Opens stream code mimetype := by
  rw [reply, exchange, on_write_bind, readResponse] at h
  obtain ⟨t, status, h⟩ := of_readLine_bind h
  split at h
  · cases h
  · next code status' metaText parse =>
    split at h
    · cases h
    · next hsuccess =>
      rw [not_not.mp hsuccess] at parse
      exact ⟨code, metaText, t, status, parse⟩

/-- A status line of no success is all that is read. -/
theorem reply_of_status {t : Text} (h : lineText stream 0 = some t) :
    (∀ e, parseStatusLine t = .error e →
      reply url languages metadata stream written = .error (.protocol e)) ∧
    ∀ code status metaText, parseStatusLine t = .ok (code, status, metaText) → status ≠ .success →
      reply url languages metadata stream written = .ok ⟨.metadata code status metaText, []⟩ := by
  rw [reply, exchange, on_write_bind, readResponse, readLine_bind h]
  constructor
  · intro e parse
    rw [parse]
    rfl
  · intro code status metaText parse hstatus
    simp only [parse, if_pos hstatus]
    rfl

/-- A success that is returned is announced. -/
theorem announces_of_success {header : SuccessHeader}
    (h : reply url languages metadata stream written = .ok ⟨.success header, body⟩) :
    Announces stream header ∧ body = afterHeader stream := by
  obtain ⟨code, mimetype, hopens⟩ := opens_of_reply h
  obtain ⟨header', hannounces⟩ := announces_of_reply hopens h
  rw [reply_of_announces hannounces] at h
  cases h
  exact ⟨hannounces, rfl⟩

end

/-! ## Whole headers -/

theorem decode_of_lineText {stream : Bytes} {n : Nat} {t : Text} (h : lineText stream n = some t) :
    Utf8.decode (nthLine 10 n stream) = some t := by
  unfold lineText headerText at h
  split at h
  · exact h
  · cases h

/-- With four newlines, what was read is what was sent. -/
theorem sent_of_announces {stream : Bytes} {header : SuccessHeader} (h : Announces stream header)
    (hcount : 4 ≤ stream.count 10) : Sent stream header (afterHeader stream) := by
  obtain ⟨⟨t, status, parse⟩, first, second, third⟩ := h
  have split : ∀ l : Bytes, 0 < l.count 10 → firstLine 10 l ++ 10 :: afterLine 10 l = l :=
    fun l hl => firstLine_append_afterLine (List.count_pos_iff.mp hl)
  have h₁ : (afterLine 10 stream).count 10 = stream.count 10 - 1 := count_afterLine
  have h₂ : (afterLine 10 (afterLine 10 stream)).count 10 = _ := count_afterLine
  have h₃ : (afterLine 10 (afterLine 10 (afterLine 10 stream))).count 10 = _ := count_afterLine
  refine ⟨nthLine 10 0 stream, nthLine 10 1 stream, nthLine 10 2 stream, nthLine 10 3 stream,
    ?_, ?_, t, _, _, _, _, _, decode_of_lineText status, parse, decode_of_lineText first,
    decode_of_lineText second, decode_of_lineText third, rfl⟩
  · simp only [nthLine, afterHeader]
    rw [split _ (by omega), split _ (by omega), split _ (by omega), split _ (by omega)]
  · simp [nthLine, not_mem_firstLine]

theorem Sent.count {stream : Bytes} {header : SuccessHeader} {body : Bytes}
    (h : Sent stream header body) : 4 ≤ stream.count 10 := by
  obtain ⟨a, b, c, d, rfl, -⟩ := h
  simp only [List.count_append, List.count_cons_self]
  omega

section

variable (url : Text) (languages : List Text) (metadata : Bool) (stream written : Bytes)

/-- A success that is returned had a whole header, and a stream that ends inside the header of a
success is an error. -/
structure WholeHeader : Prop where
  whole : ∀ header body, reply url languages metadata stream written =
    .ok ⟨.success header, body⟩ → Sent stream header body
  cut : ∀ code mimetype, Opens stream code mimetype → stream.count 10 < 4 →
    ∃ e, reply url languages metadata stream written = .error e

theorem wholeHeader_success_iff : WholeHeader url languages metadata stream written ↔
    ∀ header, Announces stream header → 4 ≤ stream.count 10 := by
  constructor
  · intro h header hannounces
    exact (h.whole header _ (reply_of_announces hannounces)).count
  · intro h
    constructor
    · intro header body hok
      obtain ⟨hannounces, rfl⟩ := announces_of_success hok
      exact sent_of_announces hannounces (h header hannounces)
    · intro code mimetype hopens hlt
      cases hreply : reply url languages metadata stream written with
      | error e => exact ⟨e, rfl⟩
      | ok r =>
        obtain ⟨header, hannounces⟩ := announces_of_reply hopens hreply
        exact absurd (h header hannounces) (Nat.not_le.mpr hlt)

/-- Without a newline the three metadata lines are blank. -/
theorem announces_of_opens {stream : Bytes} (h : 10 ∉ stream) {code : Nat} {mimetype : Text}
    (hopens : Opens stream code mimetype) :
    Announces stream (finishSuccess code mimetype [] [] []) := by
  have hnil : afterLine 10 stream = [] := afterLine_of_not_mem h
  have hblank : ∀ n, lineText stream (n + 1) = lineText [] n := by
    intro n
    rw [lineText, nthLine, hnil]
    rfl
  exact .intro hopens (hblank 0) (hblank 1) (hblank 2)

theorem cutStatus_iff :
    (10 ∉ stream → ∃ e, reply url languages metadata stream written = .error e) ↔
      (10 ∉ stream → ∀ t, lineText stream 0 = some t → ∃ e, parseStatusLine t = .error e) := by
  refine forall_congr' fun hnot => ?_
  constructor
  · rintro ⟨e, he⟩ t hline
    cases parse : parseStatusLine t with
    | error e' => exact ⟨e', rfl⟩
    | ok p =>
      obtain ⟨code, status, metaText⟩ := p
      by_cases hstatus : status = .success
      · subst hstatus
        rw [reply_of_announces (announces_of_opens hnot ⟨t, hline, parse⟩)] at he
        cases he
      · rw [(reply_of_status hline).2 code status metaText parse hstatus] at he
        cases he
  · intro h
    cases hreply : reply url languages metadata stream written with
    | error e => exact ⟨e, rfl⟩
    | ok r =>
      obtain ⟨t, hline, -⟩ : ∃ t, lineText stream 0 = some t ∧ _ := by
        rw [reply, exchange, on_write_bind, readResponse] at hreply
        exact of_readLine_bind hreply
      obtain ⟨e, parse⟩ := h t hline
      rw [(reply_of_status hline).1 e parse] at hreply
      cases hreply

/-- **A success needs its whole header** iff a stream that can be read as one has four newlines.
A status line of any class needs its newline iff one that has none is malformed. -/
theorem wholeHeader_iff :
    (WholeHeader url languages metadata stream written ↔
      ∀ header, Announces stream header → 4 ≤ stream.count 10) ∧
    ((10 ∉ stream → ∃ e, reply url languages metadata stream written = .error e) ↔
      (10 ∉ stream → ∀ t, lineText stream 0 = some t → ∃ e, parseStatusLine t = .error e)) :=
  ⟨wholeHeader_success_iff .., cutStatus_iff ..⟩

end

/-- A stream that ends after the author. -/
theorem not_wholeHeader_cut : ¬WholeHeader [] [] false
    (Utf8.encode "20 text/gemini\r\nJane\r\n".toList) [] := by
  let stream := Utf8.encode "20 text/gemini\r\nJane\r\n".toList
  have hopens : Opens stream 20 "text/gemini".toList :=
    ⟨"20 text/gemini\r".toList, by decide, by decide⟩
  have hauthor : lineText stream 1 = some "Jane\r".toList := by decide
  have hpublished : lineText stream 2 = some [] := by decide
  have hmodified : lineText stream 3 = some [] := by decide
  have hannounces := Announces.intro hopens hauthor hpublished hmodified
  intro h
  exact absurd (h.whole _ _ (reply_of_announces hannounces)).count (by decide)

end Smolweb.Scroll
