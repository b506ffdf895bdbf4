import Smolweb.Lib.Utf8

/-!
# The first CRLF

Line protocols end a header at the first CR LF pair. `crlfPosition` is the search on bytes; on
the encoding of a text it finds the text's own end of line (`crlfPosition_encode`), since no
byte of a longer encoding is a CR or an LF.
-/

namespace Smolweb

/-- The bytes of `"\r\n"`. -/
def crlf : Bytes := [13, 10]

/-- `bytes.windows(2).position(|w| w == b"\r\n")`. -/
def crlfPosition : Bytes → Option Nat
  | [] => none
  | b :: rest => if crlf <+: b :: rest then some 0 else (crlfPosition rest).map (· + 1)

/-- No CR of the text is followed by an LF. -/
def Text.CrlfFree (t : Text) : Prop := ¬['\r', '\n'] <:+: t

instance (t : Text) : Decidable t.CrlfFree := inferInstanceAs (Decidable (¬_))

namespace Text

theorem CrlfFree.of_not_mem_cr {t : Text} (h : '\r' ∉ t) : t.CrlfFree :=
  fun hi => h (hi.subset (by simp))

/-- A CRLF does not reach over a character that is no part of one. -/
theorem crlfFree_append_cons {s t : Text} {c : Char} (hcr : c ≠ '\r') (hlf : c ≠ '\n') :
    CrlfFree (s ++ c :: t) ↔ s.CrlfFree ∧ t.CrlfFree := by
  simp only [CrlfFree, ← not_or, not_iff_not]
  induction s with
  | nil => simp [List.infix_cons_iff, List.cons_prefix_cons, Ne.symm hcr]
  | cons a s ih =>
    rw [List.cons_append, List.infix_cons_iff, List.infix_cons_iff, ih, or_assoc]
    refine or_congr ?_ Iff.rfl
    cases s with
    | nil => simp [List.cons_prefix_cons, Ne.symm hlf]
    | cons b s => simp [List.cons_prefix_cons]

theorem CrlfFree.append_cons {s : Text} (hs : s.CrlfFree) {c : Char} (hc : c ≠ '\n') {t : Text}
    (ht : '\r' ∉ c :: t) : CrlfFree (s ++ c :: t) := by
  obtain ⟨hcr, ht⟩ := List.ne_and_not_mem_of_not_mem_cons ht
  exact (crlfFree_append_cons hcr.symm hc).mpr ⟨hs, .of_not_mem_cr ht⟩

theorem crlfFree_map {f : Char → Char} (hcr : ∀ c, f c = '\r' ↔ c = '\r')
    (hlf : ∀ c, f c = '\n' ↔ c = '\n') {t : Text} : CrlfFree (t.map f) ↔ t.CrlfFree := by
  simp only [CrlfFree, not_iff_not]
  induction t with
  | nil => rfl
  | cons a t ih =>
    rw [List.map_cons, List.infix_cons_iff, List.infix_cons_iff, ih]
    refine or_congr ?_ Iff.rfl
    cases t with
    | nil => simp [List.cons_prefix_cons]
    | cons b t =>
      simp only [List.map_cons, List.cons_prefix_cons, List.nil_prefix, and_true,
        eq_comm (b := f a), eq_comm (b := f b), hcr, hlf, eq_comm (b := a), eq_comm (b := b)]

theorem CrlfFree.tail {c : Char} {t : Text} (h : CrlfFree (c :: t)) : t.CrlfFree :=
  fun hi => h (hi.trans (List.suffix_cons c t).isInfix)

end Text

theorem encode_crlf : Utf8.encode ['\r', '\n'] = crlf := by decide

/-- The search passes over bytes none of which is a CR. -/
theorem crlfPosition_skip {a : Bytes} (h : 13 ∉ a) (rest : Bytes) :
    crlfPosition (a ++ rest) = (crlfPosition rest).map (· + a.length) := by
  induction a with
  | nil => simp
  | cons b a ih =>
    obtain ⟨hb, ha⟩ := List.ne_and_not_mem_of_not_mem_cons h
    have hp : ¬crlf <+: b :: (a ++ rest) := fun hp => hb (List.cons_prefix_cons.mp hp).1
    simp only [List.cons_append, crlfPosition, hp, ite_false, ih ha, Option.map_map,
      List.length_cons]
    congr 1

@[simp] theorem crlfPosition_crlf (rest : Bytes) : crlfPosition (crlf ++ rest) = some 0 := by
  simp [crlfPosition, crlf]

theorem crlfPosition_eq_none_iff {b : Bytes} : crlfPosition b = none ↔ ¬crlf <:+: b := by
  induction b with
  | nil => simp [crlfPosition, crlf]
  | cons x b ih =>
    rw [crlfPosition]
    split
    · next h => simp [h.isInfix]
    · next h => simp [ih, List.infix_cons_iff, h]

theorem crlfPosition_append {a : Bytes} (h : ¬crlf <:+: a ++ [13]) (rest : Bytes) :
    crlfPosition (a ++ crlf ++ rest) = some a.length := by
  induction a with
  | nil => exact crlfPosition_crlf rest
  | cons b a ih =>
    rw [List.cons_append, List.infix_cons_iff, not_or] at h
    have hp : ¬crlf <+: b :: (a ++ crlf ++ rest) := by
      intro hp
      refine h.1 ?_
      rw [crlf, List.cons_prefix_cons] at hp ⊢
      refine ⟨hp.1, ?_⟩
      cases a with
      | nil => exact absurd hp.2 (by simp)
      | cons c a => simpa using hp.2
    rw [List.cons_append, List.cons_append, crlfPosition, if_neg hp, ih h.2]
    rfl

/-- What follows the first CRLF does not matter. -/
theorem crlfPosition_append_of_some {a : Bytes} {p : Nat} (h : crlfPosition a = some p)
    (rest : Bytes) : crlfPosition (a ++ rest) = some p := by
  induction a generalizing p with
  | nil => cases h
  | cons b a ih =>
    rw [crlfPosition] at h
    rw [List.cons_append, crlfPosition]
    split at h
    · next hp =>
      have hp' : crlf <+: b :: (a ++ rest) := hp.trans ⟨rest, rfl⟩
      rwa [if_pos hp']
    · next hp =>
      obtain ⟨q, hq, rfl⟩ := Option.map_eq_some_iff.mp h
      rw [ih hq, if_neg, Option.map_some]
      intro hp'
      refine hp ?_
      rw [crlf, List.cons_prefix_cons] at hp' ⊢
      refine ⟨hp'.1, ?_⟩
      cases a with
      | nil => cases hq
      | cons c a => simpa using hp'.2

theorem crlfPosition_split {b : Bytes} {p : Nat} (h : crlfPosition b = some p) :
    b = b.take p ++ crlf ++ b.drop (p + 2) ∧ p + 2 ≤ b.length := by
  induction b generalizing p with
  | nil => cases h
  | cons x b ih =>
    rw [crlfPosition] at h
    split at h
    · next hp =>
      cases h
      obtain ⟨u, hu⟩ := hp
      rw [← hu]
      exact ⟨rfl, by simp [crlf]⟩
    · obtain ⟨q, hq, rfl⟩ := Option.map_eq_some_iff.mp h
      obtain ⟨h1, h2⟩ := ih hq
      refine ⟨?_, by simpa using h2⟩
      rw [List.take_succ_cons, show q + 1 + 2 = (q + 2) + 1 by omega, List.drop_succ_cons]
      simpa using h1

theorem take_crlfPosition {b : Bytes} {p : Nat} (h : crlfPosition b = some p) :
    b.take (p + 2) = b.take p ++ crlf := by
  obtain ⟨hs, hlen⟩ := crlfPosition_split h
  have htake : (b.take p ++ crlf ++ b.drop (p + 2)).take (p + 2) = b.take p ++ crlf :=
    List.take_left' (by simp [crlf]; omega)
  rwa [← hs] at htake

/-! ## Byte after byte -/

theorem not_crlf_concat {buf : Bytes} {byte : UInt8} (hbuf : ¬crlf <:+: buf)
    (hend : ¬crlf <:+ buf ++ [byte]) : ¬crlf <:+: buf ++ [byte] := by
  rw [List.infix_concat_iff, not_or]
  exact ⟨hend, hbuf⟩

/-- A byte that completes a CRLF completes the first one, if there was none before it. -/
theorem crlfPosition_concat {buf : Bytes} {byte : UInt8} (hbuf : ¬crlf <:+: buf)
    (hend : crlf <:+ buf ++ [byte]) (rest : Bytes) :
    ∃ p, crlfPosition (buf ++ [byte] ++ rest) = some p ∧ p + 2 = (buf ++ [byte]).length := by
  obtain ⟨a, ha⟩ := hend
  have hsplit : a ++ [13] = buf ∧ [10] = [byte] := by
    apply List.append_inj'
    · rw [← ha]
      simp [crlf]
    · rfl
  obtain ⟨rfl, hbyte⟩ := hsplit
  cases hbyte
  refine ⟨a.length, ?_, by simp⟩
  rw [← ha]
  exact crlfPosition_append hbuf rest

/-- The first CRLF does not end within bytes that hold none. -/
theorem length_lt_of_crlfPosition {a b : Bytes} {p : Nat} (ha : ¬crlf <:+: a)
    (hp : crlfPosition (a ++ b) = some p) : a.length < p + 2 := by
  by_contra hle
  have htake := take_crlfPosition hp
  rw [List.take_append_of_le_length (Nat.le_of_not_lt hle)] at htake
  have hinitial : a.take (p + 2) <+: a := List.take_prefix (p + 2) a
  exact ha ((List.suffix_append _ _).isInfix.trans (htake ▸ hinitial.isInfix))

/-! ## Texts -/

theorem decode_append_crlf (b : Bytes) :
    Utf8.decode (b ++ crlf) = (Utf8.decode b).map (· ++ ['\r', '\n']) := by
  have hcrlf : b ++ crlf = b ++ [UInt8.ofNat '\r'.toNat] ++ [UInt8.ofNat '\n'.toNat] := by
    rw [List.append_assoc]
    rfl
  rw [hcrlf, Utf8.decode_concat_ascii (by decide), Utf8.decode_concat_ascii (by decide),
    Option.map_map]
  congr 1
  funext t
  simp

/-- A CRLF of a text is found within its encoding. -/
theorem crlfPosition_of_infix {t : Text} (h : ['\r', '\n'] <:+: t) (rest : Bytes) :
    ∃ p, crlfPosition (Utf8.encode t ++ rest) = some p ∧ p + 2 ≤ (Utf8.encode t).length := by
  obtain ⟨before, after, hsplit⟩ := h
  have hinfix : crlf <:+: Utf8.encode t := by
    refine ⟨Utf8.encode before, Utf8.encode after, ?_⟩
    rw [← hsplit, Utf8.encode_append, Utf8.encode_append, encode_crlf]
  cases hp : crlfPosition (Utf8.encode t) with
  | none => exact absurd hinfix (crlfPosition_eq_none_iff.mp hp)
  | some p => exact ⟨p, crlfPosition_append_of_some hp rest, (crlfPosition_split hp).2⟩

theorem cr_not_mem_encodeChar {c : Char} (h : c ≠ '\r') : 13 ∉ String.utf8EncodeChar c := by
  intro hm
  have : UInt8.ofNat '\r'.toNat ∈ Utf8.encode [c] := by simpa using hm
  rw [Utf8.mem_encode_ascii (by decide)] at this
  exact h (List.mem_singleton.mp this).symm

theorem lf_not_mem_encodeChar {c : Char} (h : c ≠ '\n') : 10 ∉ String.utf8EncodeChar c := by
  intro hm
  have : UInt8.ofNat '\n'.toNat ∈ Utf8.encode [c] := by simpa using hm
  rw [Utf8.mem_encode_ascii (by decide)] at this
  exact h (List.mem_singleton.mp this).symm

/-- **The end of a line**: after a line that holds no CRLF, the first CRLF is the one that
terminates it. -/
theorem crlfPosition_encode {t : Text} (h : t.CrlfFree) (rest : Bytes) :
    crlfPosition (Utf8.encode t ++ crlf ++ rest) = some (Utf8.encode t).length := by
  induction t with
  | nil => simp
  | cons c t ih =>
    have hih := ih h.tail
    by_cases hc : c = '\r'
    · subst hc
      have hp : ¬crlf <+: 13 :: (Utf8.encode t ++ crlf ++ rest) := by
        intro hp
        rw [crlf, List.cons_prefix_cons] at hp
        cases t with
        | nil => exact absurd hp.2 (by simp)
        | cons d t =>
          have hd : d ≠ '\n' := fun hd => h (hd ▸ List.IsPrefix.isInfix (by simp))
          obtain ⟨e, u, he⟩ := List.exists_cons_of_ne_nil (String.utf8EncodeChar_ne_nil (c := d))
          rw [Utf8.encode_cons, he] at hp
          have h10 : 10 = e := (List.cons_prefix_cons.mp hp.2).1
          exact lf_not_mem_encodeChar hd (by rw [he, h10]; exact List.mem_cons_self)
      have hcr : Utf8.encode ('\r' :: t) = 13 :: Utf8.encode t := rfl
      rw [hcr, List.cons_append, List.cons_append, crlfPosition, if_neg hp, hih]
      rfl
    · have hskip := crlfPosition_skip (cr_not_mem_encodeChar hc) (Utf8.encode t ++ crlf ++ rest)
      rw [hih] at hskip
      simp only [Utf8.encode_cons, List.append_assoc] at hskip ⊢
      rw [hskip]
      simp only [Option.map_some, List.length_append, Nat.add_comm]

/-- A text with a CRLF is a line, the CRLF that ends it, and what follows. -/
theorem Text.exists_line {t : Text} (h : ['\r', '\n'] <:+: t) :
    ∃ line rest, t = line ++ ['\r', '\n'] ++ rest ∧ line.CrlfFree := by
  induction t with
  | nil => simp at h
  | cons c t ih =>
    by_cases hp : ['\r', '\n'] <+: c :: t
    · obtain ⟨rest, hrest⟩ := hp
      exact ⟨[], rest, hrest.symm, by simp [CrlfFree]⟩
    · obtain ⟨line, rest, rfl, hline⟩ := ih ((List.infix_cons_iff.mp h).resolve_left hp)
      refine ⟨c :: line, rest, rfl, fun hi => ?_⟩
      rcases List.infix_cons_iff.mp hi with hi | hi
      · exact hp (hi.trans ⟨['\r', '\n'] ++ rest, by simp⟩)
      · exact hline hi

/-- **One line and no more**: the first CRLF is the one at the end iff the line holds none. -/
theorem crlfPosition_encode_iff {t : Text} :
    crlfPosition (Utf8.encode (t ++ ['\r', '\n'])) =
      some ((Utf8.encode (t ++ ['\r', '\n'])).length - 2) ↔ t.CrlfFree := by
  rw [Utf8.encode_append, encode_crlf, List.length_append, show crlf.length = 2 from rfl,
    Nat.add_sub_cancel]
  constructor
  · intro hp hi
    obtain ⟨p, hfirst, hlt⟩ := crlfPosition_of_infix hi crlf
    rw [hp, Option.some.injEq] at hfirst
    omega
  · intro h
    have hline := crlfPosition_encode h []
    rwa [List.append_nil] at hline

end Smolweb
