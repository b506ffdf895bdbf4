import Smolweb.Lib.Percent
import Smolweb.Lib.UrlPath

/-!
# Query strings

The pairs of a name and a value in the query of a URL, joined by `&`, with the values
percent-encoded. `readPairs` reads them the way the URL standard says: a plus sign is a space, and
then the escapes are decoded. What was encoded with a set that covers the signs in question is read
back (`readPairs_queryString`).
-/

namespace Smolweb

namespace QueryString

open UrlPath

/-- A set that covers what the reader of a query takes for something else. -/
structure ValueSet (inSet : Char → Bool) : Prop where
  percent : inSet '%' = true
  ampersand : inSet '&' = true
  plus : inSet '+' = true

/-- `name=value`, with the value encoded. -/
def pair (inSet : Char → Bool) (p : Text × Text) : Text := p.1 ++ '=' :: encode inSet p.2

def queryString (inSet : Char → Bool) (pairs : List (Text × Text)) : Text :=
  Text.joinFields '&' (pairs.map (pair inSet))

def plusToSpace (c : Char) : Char := if c = '+' then ' ' else c

/-- The text that an encoded value stands for, if it is UTF-8. -/
def readValue (value : Text) : Option Text :=
  Utf8.decode (Percent.decode (value.map plusToSpace))

/-- A name and the value behind it; a field without a `=` is a name with nothing behind it. -/
def readPair (field : Text) : Text × Option Text :=
  let (name, value) := (Text.splitOnce '=' field).getD (field, [])
  (name, readValue value)

def readPairs (query : Text) : List (Text × Option Text) := (query.splitOn '&').map readPair

variable {inSet : Char → Bool}

/-! ## Escapes -/

theorem decodeBytes_percentByte (b : UInt8) (rest : Bytes) :
    Percent.decodeBytes (Utf8.encode (percentByte b) ++ rest) = b :: Percent.decodeBytes rest := by
  have hall : ∀ b : UInt8, (hexDigit (b >>> 4)).toNat < 128 ∧ (hexDigit (b &&& 0x0F)).toNat < 128 ∧
      Percent.escape (UInt8.ofNat (hexDigit (b >>> 4)).toNat)
        (UInt8.ofNat (hexDigit (b &&& 0x0F)).toNat) = some b :=
    byte_all (by decide +kernel)
  obtain ⟨hhigh, hlow, hescape⟩ := hall b
  have hpercent : Utf8.encode (percentByte b) =
      [37, UInt8.ofNat (hexDigit (b >>> 4)).toNat, UInt8.ofNat (hexDigit (b &&& 0x0F)).toNat] := by
    simp only [percentByte, Utf8.encode_cons, Utf8.encode_nil, Utf8.encodeChar_ascii hhigh,
      Utf8.encodeChar_ascii hlow]
    rfl
  rw [hpercent]
  simp only [List.cons_append, List.nil_append]
  rw [Percent.decodeBytes, if_pos rfl, hescape]

theorem decodeBytes_percentBytes (b rest : Bytes) :
    Percent.decodeBytes (Utf8.encode (b.flatMap percentByte) ++ rest) =
      b ++ Percent.decodeBytes rest := by
  induction b with
  | nil => rfl
  | cons x b ih =>
    rw [List.flatMap_cons, Utf8.encode_append, List.append_assoc, decodeBytes_percentByte, ih]
    rfl

theorem ascii_of_not_encoded {c : Char} (h : isEncoded inSet c = false) : c.toNat < 128 := by
  simp only [isEncoded, Bool.or_eq_false_iff, decide_eq_false_iff_not] at h
  omega

/-- A character is decoded to its own bytes, whatever follows. -/
theorem decodeBytes_encodeChar (hpercent : inSet '%' = true) (c : Char) (rest : Bytes) :
    Percent.decodeBytes (Utf8.encode (encodeChar inSet c) ++ rest) =
      Utf8.encode [c] ++ Percent.decodeBytes rest := by
  cases h : isEncoded inSet c with
  | true => rw [encodeChar, if_pos h, decodeBytes_percentBytes]
  | false =>
    have hascii := ascii_of_not_encoded h
    have hne : UInt8.ofNat c.toNat ≠ 37 := by
      intro he
      have hc : c = '%' := by
        have hnat := congrArg UInt8.toNat he
        rw [UInt8.toNat_ofNat_of_lt' (Nat.lt_trans hascii (by decide))] at hnat
        exact Char.toNat_inj.mp hnat
      rw [hc, isEncoded, hpercent] at h
      cases h
    rw [encodeChar_of_not_encoded h, Utf8.encode_cons, Utf8.encode_nil, List.append_nil,
      Utf8.encodeChar_ascii hascii]
    exact Percent.decodeBytes_cons hne rest

/-- **Decoding undoes encoding**, if the percent sign is encoded too. -/
theorem decode_encode (hpercent : inSet '%' = true) (t : Text) :
    Percent.decode (encode inSet t) = Utf8.encode t := by
  unfold Percent.decode
  induction t with
  | nil => rfl
  | cons c t ih =>
    rw [encode_cons, Utf8.encode_append, decodeBytes_encodeChar hpercent, ih, Utf8.encode_cons,
      Utf8.encode_cons, Utf8.encode_nil, List.append_nil]

/-! ## Pairs -/

/-- A sign that is encoded is in no value, unless escapes are made with it. -/
theorem not_mem_encode {d : Char} (hset : inSet d = true) (hpercent : d ≠ '%')
    (halphanum : d.isAlphanum = false) (t : Text) : d ∉ encode inSet t := by
  intro hm
  obtain ⟨c, -, hc⟩ := List.mem_flatMap.mp hm
  unfold encodeChar at hc
  split at hc
  · obtain ⟨b, -, hb⟩ := List.mem_flatMap.mp hc
    rcases of_mem_percentByte hb with rfl | ⟨hd, -⟩
    · exact hpercent rfl
    · rw [halphanum] at hd
      cases hd
  · next hnot =>
    rw [← List.mem_singleton.mp hc, isEncoded, hset] at hnot
    exact hnot rfl

theorem readValue_encode (hset : ValueSet inSet) (t : Text) :
    readValue (encode inSet t) = some t := by
  have hplus : (encode inSet t).map plusToSpace = encode inSet t := by
    conv_rhs => rw [← List.map_id (encode inSet t)]
    apply List.map_congr_left
    intro c hc
    rw [plusToSpace, if_neg, id_eq]
    rintro rfl
    exact not_mem_encode hset.plus (by simp) (by decide) t hc
  rw [readValue, hplus, decode_encode hset.percent, Utf8.decode_encode]

theorem readPair_pair (hset : ValueSet inSet) {p : Text × Text} (hname : '=' ∉ p.1) :
    readPair (pair inSet p) = (p.1, some p.2) := by
  rw [readPair, pair, Text.splitOnce_append hname]
  simp only [Option.getD_some, readValue_encode hset]

/-- **Pairs are read back**, all of them and in their order. -/
theorem readPairs_queryString (hset : ValueSet inSet) {pairs : List (Text × Text)}
    (hne : pairs ≠ []) (hnames : ∀ p ∈ pairs, '=' ∉ p.1 ∧ '&' ∉ p.1) :
    readPairs (queryString inSet pairs) = pairs.map fun p => (p.1, some p.2) := by
  have hfields : ∀ f ∈ pairs.map (pair inSet), '&' ∉ f := by
    intro f hf
    obtain ⟨p, hp, rfl⟩ := List.mem_map.mp hf
    have hvalue := not_mem_encode hset.ampersand (by simp) (by decide) p.2
    simp [pair, hvalue, (hnames p hp).2]
  rw [readPairs, queryString, Text.splitOn_joinFields hfields, if_neg (by simpa using hne),
    List.map_map]
  apply List.map_congr_left
  intro p hp
  exact readPair_pair hset (hnames p hp).1

end QueryString

end Smolweb
