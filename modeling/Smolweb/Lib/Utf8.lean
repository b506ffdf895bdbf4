import Smolweb.Lib.Text
import Mathlib.Data.List.Flatten
import Mathlib.Data.Nat.Init

/-!
# UTF-8 over byte lists

`encode` and `decode` are the library's encoder and strict decoder carried over to lists of
bytes; `decodeLossy` replaces every maximal ill-formed part by U+FFFD. A parser that searches
the encoded bytes for an ASCII delimiter finds exactly the delimiter's characters, because a
character above U+007F is encoded by bytes above `0x7F` (`byte_encodeChar`).
-/

namespace Smolweb

abbrev Bytes := List UInt8

/-- To check all bytes it is enough to check the numbers below 256. -/
theorem byte_all {P : UInt8 → Prop} (h : ∀ n, n < 256 → P (UInt8.ofNat n)) (b : UInt8) : P b := by
  have := h b.toNat b.toNat_lt
  rwa [UInt8.ofNat_toNat] at this

namespace Utf8

/-- The bytes of a string (`str::as_bytes`). -/
def encode (t : Text) : Bytes := t.flatMap String.utf8EncodeChar

/-- `str::from_utf8`: the string the bytes encode, if they are well-formed. -/
def decode (b : Bytes) : Option Text := b.toByteArray.utf8Decode?.map Array.toList

/-! ## Lossy decoding -/

def isContinuation (b : UInt8) : Bool := 0x80 ≤ b && b ≤ 0xBF

/-- Whether `second` may follow `first` in an encoding of three or four bytes. -/
def isSecondByte (first second : UInt8) : Bool :=
  (first == 0xE0 && 0xA0 ≤ second && second ≤ 0xBF) ||
    (0xE1 ≤ first && first ≤ 0xEC && isContinuation second) ||
    (first == 0xED && 0x80 ≤ second && second ≤ 0x9F) ||
    (0xEE ≤ first && first ≤ 0xEF && isContinuation second) ||
    (first == 0xF0 && 0x90 ≤ second && second ≤ 0xBF) ||
    (0xF1 ≤ first && first ≤ 0xF3 && isContinuation second) ||
    (first == 0xF4 && 0x80 ≤ second && second ≤ 0x8F)

/-- The length of the maximal ill-formed part that starts with `first`, given that no character
is encoded there. -/
def invalidLength (first : UInt8) : Bytes → Nat
  | [] => 1
  | second :: rest =>
    if isSecondByte first second then
      match rest with
      | third :: _ => if 0xF0 ≤ first && isContinuation third then 3 else 2
      | [] => 2
    else 1

/-- The chunks of a lossy decoding; `skip` bytes belong to the part already decoded. -/
def lossyChunks : (skip : Nat) → Bytes → Text
  | _, [] => []
  | skip + 1, _ :: rest => lossyChunks skip rest
  | 0, first :: rest =>
    match (first :: rest).toByteArray.utf8DecodeChar? 0 with
    | some c => c :: lossyChunks (c.utf8Size - 1) rest
    | none => '\uFFFD' :: lossyChunks (invalidLength first rest - 1) rest

/-- `String::from_utf8_lossy`. -/
def decodeLossy (b : Bytes) : Text := (decode b).getD (lossyChunks 0 b)

/-! ## Round trips -/

@[simp] theorem encode_nil : encode [] = [] := rfl

@[simp] theorem encode_cons (c : Char) (t : Text) :
    encode (c :: t) = String.utf8EncodeChar c ++ encode t := rfl

theorem length_encode_le (t : Text) : (encode t).length ≤ 4 * t.length := by
  induction t with
  | nil => exact Nat.le_refl _
  | cons c t ih =>
    have hc := c.utf8Size_le_four
    rw [encode_cons, List.length_append, String.length_utf8EncodeChar, List.length_cons]
    omega

@[simp] theorem encode_append (s t : Text) : encode (s ++ t) = encode s ++ encode t :=
  List.flatMap_append

theorem toByteArray_encode (t : Text) : (encode t).toByteArray = t.utf8Encode := rfl

theorem toByteArray_injective {a b : Bytes} (h : a.toByteArray = b.toByteArray) : a = b := by
  have := congrArg (fun x => x.data.toList) h
  simpa using this

@[simp] theorem decode_encode (t : Text) : decode (encode t) = some t := by
  rw [decode, toByteArray_encode, List.utf8Decode?_utf8Encode]
  rfl

theorem encode_injective {s t : Text} (h : encode s = encode t) : s = t := by
  have hdecode := decode_encode s
  rw [h, decode_encode] at hdecode
  exact (Option.some_inj.mp hdecode).symm

@[simp] theorem decodeLossy_encode (t : Text) : decodeLossy (encode t) = t := by
  rw [decodeLossy, decode_encode, Option.getD_some]

theorem encode_of_decode {b : Bytes} {t : Text} (h : decode b = some t) : encode t = b := by
  obtain ⟨a, ha, rfl⟩ := Option.map_eq_some_iff.mp h
  apply toByteArray_injective
  have hs : b.toByteArray.utf8Decode?.isSome = true := by rw [ha]; rfl
  have := ByteArray.utf8Encode_get_utf8Decode? (b := b.toByteArray) (h := hs)
  simpa [toByteArray_encode, ha] using this

theorem decode_eq_some_iff {b : Bytes} {t : Text} : decode b = some t ↔ b = encode t :=
  ⟨fun h => (encode_of_decode h).symm, fun h => by rw [h, decode_encode]⟩

/-- Where the bytes of a text stand in front of those of another one, so does the text. -/
theorem exists_append_of_encode {s t : Text} {rest : Bytes} (h : encode s ++ rest = encode t) :
    ∃ r, s ++ r = t := by
  induction s generalizing t with
  | nil => exact ⟨t, rfl⟩
  | cons c s ih =>
    have hfirst (d : Char) (b : Bytes) :
        (String.utf8EncodeChar d ++ b).toByteArray.utf8DecodeChar? 0 = some d := by
      rw [List.toByteArray_append]
      exact ByteArray.utf8DecodeChar?_utf8EncodeChar_append
    cases t with
    | nil =>
      have hlength := congrArg List.length h
      have hpos := Char.utf8Size_pos c
      simp at hlength
      omega
    | cons d t =>
      simp only [encode_cons, List.append_assoc] at h
      have hd := hfirst d (encode t)
      rw [← h, hfirst c] at hd
      obtain rfl := Option.some_inj.mp hd
      obtain ⟨r, rfl⟩ := ih (List.append_cancel_left h)
      exact ⟨r, rfl⟩

theorem decode_encode_append (t : Text) (b : Bytes) :
    decode (encode t ++ b) = (decode b).map (t ++ ·) := by
  cases h : decode b with
  | some s => rw [← encode_of_decode h, ← encode_append, decode_encode, Option.map_some]
  | none =>
    rw [Option.map_none, Option.eq_none_iff_forall_ne_some]
    intro s hs
    obtain ⟨r, rfl⟩ := exists_append_of_encode (encode_of_decode hs).symm
    have hb := encode_of_decode hs
    rw [encode_append] at hb
    rw [← List.append_cancel_left hb, decode_encode] at h
    cases h

theorem encode_sublist {s t : Text} (h : s.Sublist t) : (encode s).Sublist (encode t) :=
  h.flatMap String.utf8EncodeChar

/-! ## ASCII -/

theorem encodeChar_ascii {c : Char} (h : c.toNat < 128) :
    String.utf8EncodeChar c = [UInt8.ofNat c.toNat] := by
  have hv : c.val.toNat ≤ 0x7f := by
    have : c.toNat = c.val.toNat := rfl
    omega
  simp only [String.utf8EncodeChar, hv, ↓reduceIte]
  rfl

/-- Every byte of a character outside ASCII is outside ASCII. -/
theorem byte_encodeChar {c : Char} (h : 128 ≤ c.toNat) :
    ∀ b ∈ String.utf8EncodeChar c, 128 ≤ b.toNat := by
  have hv : ¬c.val.toNat ≤ 0x7f := by
    have : c.toNat = c.val.toNat := rfl
    omega
  have hb : ∀ n m, n % 64 + 128 = m → 128 ≤ (UInt8.ofNat m).toNat := by
    intro n m hm
    simp only [UInt8.toNat_ofNat']
    omega
  simp only [String.utf8EncodeChar, hv, ↓reduceIte]
  intro b hm
  split at hm
  · simp only [List.mem_cons, List.not_mem_nil, or_false] at hm
    rcases hm with rfl | rfl
    · simp only [UInt8.toNat_ofNat']
      omega
    · exact hb _ _ rfl
  · split at hm
    · simp only [List.mem_cons, List.not_mem_nil, or_false] at hm
      rcases hm with rfl | rfl | rfl
      · simp only [UInt8.toNat_ofNat']
        omega
      · exact hb _ _ rfl
      · exact hb _ _ rfl
    · simp only [List.mem_cons, List.not_mem_nil, or_false] at hm
      rcases hm with rfl | rfl | rfl | rfl
      · simp only [UInt8.toNat_ofNat']
        omega
      · exact hb _ _ rfl
      · exact hb _ _ rfl
      · exact hb _ _ rfl

/-- An ASCII byte at the end decodes as a character of its own. -/
theorem decode_concat_ascii {c : Char} (h : c.toNat < 128) (b : Bytes) :
    decode (b ++ [UInt8.ofNat c.toNat]) = (decode b).map (· ++ [c]) := by
  have hbyte : (UInt8.ofNat c.toNat).toNat = c.toNat := by
    simp only [UInt8.toNat_ofNat']
    omega
  refine Option.ext fun t => ?_
  rw [decode_eq_some_iff, Option.map_eq_some_iff]
  constructor
  · intro ht
    cases t using List.reverseRecOn with
    | nil => simp at ht
    | append_singleton t d =>
      rw [encode_append, encode_cons, encode_nil, List.append_nil] at ht
      rcases Nat.lt_or_ge d.toNat 128 with hlt | hge
      · rw [encodeChar_ascii hlt] at ht
        obtain ⟨rfl, hd⟩ := List.append_inj' ht rfl
        have hn := congrArg UInt8.toNat (List.singleton_inj.mp hd)
        rw [hbyte, UInt8.toNat_ofNat', Nat.mod_eq_of_lt (by omega)] at hn
        exact ⟨t, decode_encode t, by rw [Char.toNat_inj.mp hn]⟩
      · have hmem : UInt8.ofNat c.toNat ∈ String.utf8EncodeChar d := by
          have hlast := congrArg List.getLast? ht
          rw [List.getLast?_concat, List.getLast?_append_of_ne_nil _ String.utf8EncodeChar_ne_nil]
            at hlast
          exact List.mem_of_getLast? hlast.symm
        have := byte_encodeChar hge _ hmem
        omega
  · rintro ⟨t, ht, rfl⟩
    rw [encode_append, encode_of_decode ht, encode_cons, encodeChar_ascii h]
    rfl

/-- An ASCII byte occurs in an encoding exactly where its character occurs in the text. -/
theorem mem_encode_ascii {c : Char} (h : c.toNat < 128) {t : Text} :
    UInt8.ofNat c.toNat ∈ encode t ↔ c ∈ t := by
  have hbyte : (UInt8.ofNat c.toNat).toNat = c.toNat := by
    simp only [UInt8.toNat_ofNat']
    omega
  simp only [encode, List.mem_flatMap]
  constructor
  · rintro ⟨d, hd, hm⟩
    rcases Nat.lt_or_ge d.toNat 128 with hlt | hge
    · rw [encodeChar_ascii hlt, List.mem_singleton] at hm
      have hn := congrArg UInt8.toNat hm
      rw [hbyte, UInt8.toNat_ofNat', Nat.mod_eq_of_lt (by omega)] at hn
      have : c = d := Char.toNat_inj.mp hn
      exact this ▸ hd
    · have := byte_encodeChar hge _ hm
      omega
  · intro hc
    exact ⟨c, hc, by simp [encodeChar_ascii h]⟩

theorem lf_not_mem_encode {t : Text} (h : '\n' ∉ t) : 10 ∉ encode t := by
  intro hm
  have hlf : UInt8.ofNat '\n'.toNat ∈ encode t := hm
  exact h ((mem_encode_ascii (by decide)).mp hlf)

/-- An ASCII character is decoded only where its byte is, even from what is not well-formed. -/
theorem mem_decodeLossy_ascii {c : Char} (h : c.toNat < 128) {b : Bytes}
    (hmem : c ∈ decodeLossy b) : UInt8.ofNat c.toNat ∈ b := by
  have hchunks : ∀ skip b, c ∈ lossyChunks skip b → UInt8.ofNat c.toNat ∈ b := by
    intro skip b hmem
    fun_induction lossyChunks skip b with
    | case1 => cases hmem
    | case2 skip first rest ih => exact List.mem_cons_of_mem _ (ih hmem)
    | case3 first rest d hd ih =>
      rcases List.mem_cons.mp hmem with rfl | hmem
      · obtain ⟨tail, htail⟩ := ByteArray.exists_of_utf8DecodeChar?_eq_some hd
        have hbytes := congrArg (fun x => x.data.toList) htail
        simp only [encodeChar_ascii h, ByteArray.data_append, List.data_toByteArray,
          Array.toList_append, List.singleton_append, List.cons.injEq] at hbytes
        simp [hbytes.1]
      · exact List.mem_cons_of_mem _ (ih hmem)
    | case4 first rest hnone ih =>
      rcases List.mem_cons.mp hmem with rfl | hmem
      · exact absurd h (by decide)
      · exact List.mem_cons_of_mem _ (ih hmem)
  unfold decodeLossy at hmem
  cases hdecode : decode b with
  | some t =>
    rw [hdecode, Option.getD_some] at hmem
    rw [← encode_of_decode hdecode]
    exact (mem_encode_ascii h).mpr hmem
  | none =>
    rw [hdecode, Option.getD_none] at hmem
    exact hchunks 0 b hmem

end Utf8

end Smolweb
