import Smolweb.Kepler.Client

/-!
# The body of a kepler reply

The end of the stream ends the header line like a newline, and a body before its declared length.
What is returned is whole iff neither happens to a reply that declares a length
(`declaredWhole_iff`).
-/

namespace Smolweb.Kepler

open DuplexM

/-- The header line, as far as it was received, is `header`, which declares a body of `n` bytes. -/
inductive Declares (stream : Bytes) : Header → Nat → Prop where
  | intro {t mimetype : Text} {code : Nat} {cache : CacheInfo}
    (read : headerText maxUri (firstLine 10 stream) = some t)
    (parse : parseHeader t = .ok (.success code cache mimetype)) (length : 0 ≤ cache.length) :
    Declares stream (.success code cache mimetype) cache.length.toInt.toNat

section

variable {request stream written : Bytes}

theorem exchange_of_declares {header : Header} {n : Nat} (h : Declares stream header n) :
    ((exchange request).on ⟨stream, written⟩).1 =
      .ok ⟨header, (afterLine 10 stream).take n⟩ := by
  obtain ⟨read, parse, length⟩ := h
  next t mimetype code cache =>
  have hlength : cache.hasLength = true := decide_eq_true length
  rw [exchange, on_write_bind, readResponse, on_bind, on_readHeaderLine read]
  simp only [parse, hlength, if_true]
  rfl

theorem declares_of_exchange {code : Nat} {cache : CacheInfo} {mimetype : Text} {body : Bytes}
    (h : ((exchange request).on ⟨stream, written⟩).1 = .ok ⟨.success code cache mimetype, body⟩)
    (hlength : 0 ≤ cache.length) :
    Declares stream (.success code cache mimetype) cache.length.toInt.toNat := by
  rw [exchange, on_write_bind, readResponse] at h
  cases hread : headerText maxUri (firstLine 10 stream) with
  | none =>
    obtain ⟨e, he⟩ := on_readHeaderLine_none (s := ⟨stream, written ++ request⟩) hread
    rw [on_bind_error he] at h
    cases h
  | some t =>
    rw [on_bind, on_readHeaderLine hread] at h
    simp only at h
    split at h
    · cases h
    · next header hparse =>
      split at h
      · split at h
        · cases h
          exact .intro hread hparse hlength
        · cases h
          exact .intro hread hparse hlength
      · next hother =>
        cases h
        exact absurd rfl (hother code cache mimetype)

end

/-- A reply that declares a length is returned with that many bytes, the first ones after a header
line that was received whole, and one that ends earlier is an error. -/
structure DeclaredWhole (request stream written : Bytes) : Prop where
  whole : ∀ code cache mimetype body, ((exchange request).on ⟨stream, written⟩).1 =
      .ok ⟨.success code cache mimetype, body⟩ → 0 ≤ cache.length →
    10 ∈ stream ∧ body.length = cache.length.toInt.toNat ∧
      body = (afterLine 10 stream).take cache.length.toInt.toNat
  cut : ∀ header n, Declares stream header n →
    10 ∉ stream ∨ (afterLine 10 stream).length < n →
    ∃ e, ((exchange request).on ⟨stream, written⟩).1 = .error e

/-- **A declared body is whole or an error** iff a newline follows the header line and at least as
many bytes as it declares follow the newline. -/
theorem declaredWhole_iff (request stream written : Bytes) :
    DeclaredWhole request stream written ↔
      ∀ header n, Declares stream header n →
        10 ∈ stream ∧ n ≤ (afterLine 10 stream).length := by
  constructor
  · intro h header n hn
    have hok : ((exchange request).on ⟨stream, written⟩).1 = _ := exchange_of_declares hn
    obtain ⟨read, parse, length⟩ := hn
    obtain ⟨hmem, hlen, -⟩ := h.whole _ _ _ _ hok length
    rw [List.length_take] at hlen
    exact ⟨hmem, by omega⟩
  · intro h
    constructor
    · intro code cache mimetype body hok hlength
      have hn := declares_of_exchange hok hlength
      obtain ⟨hmem, hle⟩ := h _ _ hn
      rw [exchange_of_declares hn] at hok
      cases hok
      refine ⟨hmem, ?_, rfl⟩
      rw [List.length_take]
      exact Nat.min_eq_left hle
    · intro header n hn hcut
      obtain ⟨hmem, hle⟩ := h header n hn
      rcases hcut with hmem' | hlt
      · exact absurd hmem hmem'
      · exact absurd hle (Nat.not_le.mpr hlt)

/-- Two bytes of five. -/
theorem not_declaredWhole_short :
    ¬DeclaredWhole [] (Utf8.encode "20 5 0 0 text/plain\r\nhi".toList) [] := by
  intro h
  have hdeclares : Declares (Utf8.encode "20 5 0 0 text/plain\r\nhi".toList)
      (.success 20 ⟨5, 0, 0⟩ "text/plain".toList) 5 :=
    .intro (t := "20 5 0 0 text/plain\r".toList) (by decide) (by decide) (by decide)
  have hlen := (h.whole _ _ _ _ (exchange_of_declares hdeclares) (by decide)).2.1
  exact absurd hlen (by decide)

end Smolweb.Kepler
