import Smolweb.Gopher.Client

/-!
# The body of a Gopher+ reply

A counted body is read up to its count or up to the end of the stream, so that it is whole iff the
stream goes on for long enough (`countedWhole_iff`). From any other body its terminator is taken
off, where it is found (`stripPeriodTerminator_iff`).
-/

namespace Smolweb.Gopher

open DuplexM

/-! ## Counted bodies -/

/-- The first line of a reply declares a body of `n` bytes. -/
def Declares (stream : Bytes) (n : Nat) : Prop :=
  ∃ t, Utf8.decode (stream.take ((firstLine 10 stream).length + 1)) = some t ∧
    parseHeader t = .ok (.length n)

section

variable {request stream written body : Bytes} {n : Nat}

theorem plusOver_of_declares (h : Declares stream n) :
    ((plusOver request).on ⟨stream, written⟩).1 =
      .ok (.length n, (afterLine 10 stream).take n) := by
  obtain ⟨t, hdecode, hparse⟩ := h
  have ht : t.isEmpty = false := by
    rw [List.isEmpty_eq_false_iff]
    rintro rfl
    exact absurd hparse (by simp [parseHeader, Text.splitAtByte])
  rw [plusOver, on_write_bind, on_readThrough_bind, hdecode]
  simp only [ht, hparse]
  rfl

theorem declares_of_plusOver
    (h : ((plusOver request).on ⟨stream, written⟩).1 = .ok (.length n, body)) :
    Declares stream n := by
  rw [plusOver, on_write_bind, on_readThrough_bind] at h
  split at h
  · cases h
  · next t hdecode =>
    split at h
    · cases h
    · split at h
      · cases h
      · next header hparse =>
        cases header with
        | length count =>
          cases h
          exact ⟨t, hdecode, hparse⟩
        | periodTerminated => cases h
        | untilClose => cases h
        | error => cases h

end

/-- A counted reply is returned with the bytes it counts, the first ones after its first line, and
one that ends before the last of them is an error. -/
structure CountedWhole (request stream written : Bytes) : Prop where
  whole : ∀ n body, ((plusOver request).on ⟨stream, written⟩).1 = .ok (.length n, body) →
    body.length = n ∧ body = (afterLine 10 stream).take n
  cut : ∀ n, Declares stream n → (afterLine 10 stream).length < n →
    ∃ e, ((plusOver request).on ⟨stream, written⟩).1 = .error e

/-- **A counted reply is whole or an error** iff at least as many bytes as it counts follow its
first line. -/
theorem countedWhole_iff (request stream written : Bytes) :
    CountedWhole request stream written ↔
      ∀ n, Declares stream n → n ≤ (afterLine 10 stream).length := by
  constructor
  · intro h n hn
    obtain ⟨hlen, -⟩ := h.whole n _ (plusOver_of_declares hn)
    rw [List.length_take] at hlen
    omega
  · intro h
    constructor
    · intro n body hok
      have hn := declares_of_plusOver hok
      rw [plusOver_of_declares hn] at hok
      cases hok
      refine ⟨?_, rfl⟩
      rw [List.length_take]
      exact Nat.min_eq_left (h n hn)
    · intro n hn hlt
      exact absurd (h n hn) (Nat.not_le.mpr hlt)

/-- Two bytes of five. -/
theorem not_countedWhole_short : ¬CountedWhole [] (Utf8.encode "+5\r\nhi".toList) [] := by
  intro h
  have hparse : parseHeader "+5\r\n".toList = .ok (.length 5) := by decide +kernel
  have hdeclares : Declares (Utf8.encode "+5\r\nhi".toList) 5 := ⟨_, by decide, hparse⟩
  have hlen := (h.whole 5 _ (plusOver_of_declares hdeclares)).1
  exact absurd hlen (by decide)

/-! ## The period terminator -/

/-- What ends a line; at the end of the stream nothing need. -/
def IsLineEnd (t : Bytes) : Prop := t = crlf ∨ t = [10] ∨ t = []

/-- Lines that are all ended. -/
def EndsInLineBreak (body : Bytes) : Prop := body = [] ∨ ∃ b, body = b ++ [10]

/-- The last line is a period alone. -/
def LastLineIsPeriod (s : Bytes) : Prop :=
  ∃ body t, EndsInLineBreak body ∧ IsLineEnd t ∧ s = body ++ 46 :: t

theorem cr_suffix_iff {b : Bytes} : crlf <:+ b ++ [10] ↔ [13] <:+ b := by
  rw [← List.reverse_prefix, ← List.reverse_prefix]
  simp [crlf]

theorem strip_crlf (b : Bytes) : stripPeriodTerminator (b ++ [10, 46, 13, 10]) =
    if [13] <:+ b then b ++ [10] else b ++ [10, 46, 13, 10] := by
  split
  · next h =>
    obtain ⟨c, rfl⟩ := h
    simp [stripPeriodTerminator, List.take_append]
  · next h =>
    have h : ¬[13] <+: b.reverse := by rwa [← List.reverse_prefix] at h
    simp [stripPeriodTerminator, ← List.reverse_prefix, h]

theorem strip_lf (b : Bytes) : stripPeriodTerminator (b ++ [10, 46, 10]) = b ++ [10] := by
  simp [stripPeriodTerminator, ← List.reverse_prefix, List.take_append]

theorem strip_bare (b : Bytes) : stripPeriodTerminator (b ++ [10, 46]) = b ++ [10] := by
  by_cases h : [13] <:+ b
  · obtain ⟨c, rfl⟩ := h
    simp [stripPeriodTerminator, ← List.reverse_prefix, List.take_append]
  · have h : ¬[13] <+: b.reverse := by rwa [← List.reverse_prefix] at h
    simp [stripPeriodTerminator, ← List.reverse_prefix, List.take_append, h]

/-- A period with no line break before it is left. -/
theorem strip_alone {t : Bytes} (ht : IsLineEnd t) : stripPeriodTerminator (46 :: t) = 46 :: t := by
  rcases ht with rfl | rfl | rfl <;> decide

theorem lastLineIsPeriod_append {a b t : Bytes} (hb : b = [13, 10] ∨ b = [10]) (ht : IsLineEnd t) :
    LastLineIsPeriod (a ++ (b ++ 46 :: t)) := by
  refine ⟨a ++ b, t, .inr ?_, ht, by rw [List.append_assoc]⟩
  rcases hb with rfl | rfl
  · exact ⟨a ++ [13], by simp⟩
  · exact ⟨a, rfl⟩

theorem strip_terminated_iff {body t : Bytes} (hbody : EndsInLineBreak body) (ht : IsLineEnd t) :
    stripPeriodTerminator (body ++ 46 :: t) = body ↔ body ≠ [] ∧ (t = crlf → crlf <:+ body) := by
  rcases hbody with rfl | ⟨b, rfl⟩
  · rw [List.nil_append, strip_alone ht]
    simp
  · rw [List.append_assoc, List.singleton_append]
    rcases ht with rfl | rfl | rfl
    · rw [crlf, strip_crlf, ← crlf, cr_suffix_iff]
      split
      · next h => simp [h]
      · next h => simp [h]
    · rw [strip_lf]
      simp [crlf]
    · rw [strip_bare]
      simp [crlf]

/-- Every terminator that is looked for is a last line. -/
theorem strip_eq_self {s : Bytes} (hs : ¬LastLineIsPeriod s) : stripPeriodTerminator s = s := by
  unfold stripPeriodTerminator
  split
  · next h =>
    obtain ⟨a, rfl⟩ := h
    exact absurd (lastLineIsPeriod_append (.inl rfl) (.inl rfl)) hs
  split
  · next h =>
    obtain ⟨a, rfl⟩ := h
    exact absurd (lastLineIsPeriod_append (.inr rfl) (.inr (.inl rfl))) hs
  split
  · next h =>
    obtain ⟨a, rfl⟩ := h
    exact absurd (lastLineIsPeriod_append (.inl rfl) (.inr (.inr rfl))) hs
  split
  · next h =>
    obtain ⟨a, rfl⟩ := h
    exact absurd (lastLineIsPeriod_append (.inr rfl) (.inr (.inr rfl))) hs
  · rfl

/-- **Stripping undoes terminating** for a body that is not empty, if it ends in CRLF where the
terminator does; and it does nothing else. -/
theorem stripPeriodTerminator_iff (body t s : Bytes) :
    (EndsInLineBreak body → IsLineEnd t → (stripPeriodTerminator (body ++ 46 :: t) = body ↔
      body ≠ [] ∧ (t = crlf → crlf <:+ body))) ∧
    (¬LastLineIsPeriod s → stripPeriodTerminator s = s) :=
  ⟨strip_terminated_iff, strip_eq_self⟩

/-- A line that ends in a period is not the period alone. -/
theorem not_lastLineIsPeriod_item : ¬LastLineIsPeriod (Utf8.encode "1.\r\n".toList) := by
  rintro ⟨body, t, hbody, ht, h⟩
  replace h : [49, 46, 13, 10] = body ++ 46 :: t := h
  rcases ht with rfl | rfl | rfl
  · have hitem : [49] ++ [46, 13, 10] = body ++ [46, 13, 10] := h
    replace hitem := List.append_cancel_right hitem
    rcases hbody with rfl | ⟨b, rfl⟩
    · cases hitem
    · have hlast := congrArg List.getLast? hitem
      simp at hlast
  · have hsecond := congrArg (fun s : Bytes => s.dropLast.getLast?) h
    simp at hsecond
  · have hlast := congrArg List.getLast? h
    simp at hlast

/-- A body that itself ends in a line of one period, and one whose last line ends in a period. -/
theorem stripPeriodTerminator_twice :
    stripPeriodTerminator (Utf8.encode "a\r\n.\r\n.\r\n".toList) =
        Utf8.encode "a\r\n.\r\n".toList ∧
      stripPeriodTerminator (Utf8.encode "1.\r\n".toList) = Utf8.encode "1.\r\n".toList := by
  have hbody : EndsInLineBreak (Utf8.encode "a\r\n.\r\n".toList) :=
    .inr ⟨[97, 13, 10, 46, 13], by decide⟩
  obtain ⟨hstrip, hself⟩ := stripPeriodTerminator_iff (Utf8.encode "a\r\n.\r\n".toList) crlf
    (Utf8.encode "1.\r\n".toList)
  refine ⟨(hstrip hbody (.inl rfl)).mpr ⟨by decide, fun _ => by decide⟩,
    hself not_lastLineIsPeriod_item⟩

/-- The terminator of an empty body is taken for its text. -/
theorem not_stripPeriodTerminator_empty : ¬ ∀ body t, EndsInLineBreak body → IsLineEnd t →
    stripPeriodTerminator (body ++ 46 :: t) = body := by
  intro h
  exact absurd (h [] crlf (.inl rfl) (.inl rfl)) (by decide)

end Smolweb.Gopher
