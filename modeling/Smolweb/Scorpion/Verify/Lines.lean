import Smolweb.Scorpion.Server

/-!
# Status lines written and read back

A status line read back has the parameters that splitting their joined text gives
(`parse_toWire`). So it is the header that was written exactly if none of its leading parameters
was empty at the end of the line, and a message that is laid out as the first parameter is the
message that the reader finds only in the class where no parameter precedes it.
-/

namespace Smolweb.Scorpion

/-- What `Header::parse` makes of bytes, if they are UTF-8. -/
def Header.ofWire (b : Bytes) : Option (Except ResponseError Header) :=
  (Utf8.decode b).map Header.parse

/-! ## Digits -/

theorem encode_digit {d : Nat} (h : d < 10) :
    Utf8.encode [Char.ofNat (48 + d)] = [UInt8.ofNat (48 + d)] :=
  (by decide : ∀ d < 10, Utf8.encode [Char.ofNat (48 + d)] = [UInt8.ofNat (48 + d)]) d h

theorem isDigit_digit {d : Nat} (h : d < 10) : (Char.ofNat (48 + d)).isDigit = true :=
  (by decide : ∀ d < 10, (Char.ofNat (48 + d)).isDigit = true) d h

theorem toNat_digit {d : Nat} (h : d < 10) : (Char.ofNat (48 + d)).toNat - 48 = d :=
  (by decide : ∀ d < 10, (Char.ofNat (48 + d)).toNat - 48 = d) d h

namespace Header

/-- The text of a status line, its line end not counted. -/
def text (h : Header) : Text :=
  Char.ofNat (48 + h.status.code / 10) :: Char.ofNat (48 + h.status.code % 10) ::
    h.parameters.flatMap (' ' :: ·)

theorem encode_parameters (ps : List Text) :
    Utf8.encode (ps.flatMap (' ' :: ·)) = ps.flatMap fun p => 32 :: Utf8.encode p := by
  induction ps with
  | nil => rfl
  | cons p ps ih =>
    have hspace : String.utf8EncodeChar ' ' = [32] := by decide
    simp [ih, hspace]

theorem toWire_eq (h : Header) : h.toWire = Utf8.encode (h.text ++ ['\r', '\n']) := by
  have hvalid := h.status.valid
  have hd : Utf8.encode h.text = h.status.toAscii ++ h.parameters.flatMap
      (fun p => 32 :: Utf8.encode p) := by
    have h1 := encode_digit (d := h.status.code / 10) (by omega)
    have h2 := encode_digit (d := h.status.code % 10) (by omega)
    simp only [Utf8.encode_cons, Utf8.encode_nil, List.append_nil] at h1 h2
    rw [text, Utf8.encode_cons, Utf8.encode_cons, h1, h2, encode_parameters]
    rfl
  rw [toWire, Utf8.encode_append, hd, encode_crlf]

theorem flatMap_cons_eq_joinFields {p : Text} {ps : List Text} :
    (p :: ps).flatMap (' ' :: ·) = ' ' :: Text.joinFields ' ' (p :: ps) := by
  induction ps generalizing p with
  | nil => simp [Text.joinFields]
  | cons q ps ih =>
    rw [List.flatMap_cons, ih, Text.joinFields_cons p (List.cons_ne_nil q ps), List.cons_append]

/-- A line that is the text of a header has the header's parameters split anew. -/
theorem parse_text {h : Header} {line : Text} (hline : Text.stripLineEnd line = h.text) :
    parse line =
      .ok ⟨h.status, splitParameters h.status (Text.joinFields ' ' h.parameters)⟩ := by
  have hvalid := h.status.valid
  have hdigits : ((Char.ofNat (48 + h.status.code / 10)).isDigit &&
      (Char.ofNat (48 + h.status.code % 10)).isDigit) = true := by
    rw [isDigit_digit (by omega), isDigit_digit (by omega)]
    rfl
  have hnew : Status.new ((Char.ofNat (48 + h.status.code / 10)).toNat - 48)
      ((Char.ofNat (48 + h.status.code % 10)).toNat - 48) = some h.status := by
    rw [toNat_digit (by omega), toNat_digit (by omega), Status.new_digits]
  rw [parse, hline, text]
  simp only [hdigits, ite_true, hnew]
  cases hp : h.parameters with
  | nil => rfl
  | cons p ps =>
    rw [flatMap_cons_eq_joinFields]
    simp only [ite_true]

/-- **A status line read back**: its parameters are split anew. -/
theorem ofWire_toWire (h : Header) : ofWire h.toWire =
    some (.ok ⟨h.status, splitParameters h.status (Text.joinFields ' ' h.parameters)⟩) := by
  rw [ofWire, toWire_eq, Utf8.decode_encode, Option.map_some,
    parse_text (Text.stripLineEnd_crlf h.text)]

theorem lf_not_mem_text {h : Header} (hp : ∀ p ∈ h.parameters, '\n' ∉ p) : '\n' ∉ h.text := by
  have hvalid := h.status.valid
  have hdigit (d : Nat) (hd : d < 10) : '\n' ≠ Char.ofNat (48 + d) := by
    intro heq
    exact absurd (heq ▸ isDigit_digit hd) (by decide)
  simp only [text, List.mem_cons, List.mem_flatMap, not_or, not_exists, not_and]
  refine ⟨hdigit _ (by omega), hdigit _ (by omega), ?_⟩
  intro p hmem
  exact ⟨by decide, hp p hmem⟩

/-! ## What is accepted -/

/-- An accepted line has two digits, and then nothing or a space and its parameters. -/
theorem parse_ok {line : Text} {h : Header} (hparse : parse line = .ok h) :
    ∃ a b tail, Text.stripLineEnd line = a :: b :: tail ∧ a.isDigit = true ∧ b.isDigit = true ∧
      Status.new (a.toNat - 48) (b.toNat - 48) = some h.status ∧
      (tail = [] ∨ tail.head? = some ' ') ∧
      h.parameters = splitParameters h.status tail.tail := by
  unfold parse at hparse
  split at hparse
  · next a b tail hline =>
    split at hparse
    · next hdigits =>
      obtain ⟨ha, hb⟩ := Bool.and_eq_true_iff.mp hdigits
      split at hparse
      · cases hparse
      · next status hstatus =>
        split at hparse
        · cases hparse
          exact ⟨a, b, [], hline, ha, hb, hstatus, Or.inl rfl, rfl⟩
        · next c rest =>
          split at hparse
          · next hc =>
            cases hparse
            exact ⟨a, b, c :: rest, hline, ha, hb, hstatus, Or.inr (by rw [hc]; rfl), rfl⟩
          · cases hparse
    · cases hparse
  · cases hparse

/-! ## Re-rendering -/

/-- The line ends in an empty leading parameter: a class with one of them and two spaces, or a
class with two of them and two spaces, there or after one word. -/
def EndsInEmptyParameter (line : Text) : Prop :=
  let line := Text.stripLineEnd line
  let params := line.drop 2
  (line.head? ∈ [some '4', some '6'] ∧ params = "  ".toList) ∨
    (line.head? ∈ [some '2', some '8'] ∧
      (params = "  ".toList ∨ ∃ word, ' ' ∉ word ∧ params = ' ' :: word ++ "  ".toList))

theorem char_eq_of_isDigit {c d : Char} (hc : c.isDigit = true) (hd : d.isDigit = true) :
    c = d ↔ c.toNat - 48 = d.toNat - 48 := by
  have h1 := (Text.toNat_of_isDigit hc).1
  have h2 := (Text.toNat_of_isDigit hd).1
  rw [← Char.toNat_inj]
  omega

theorem endsInEmptyParameter_iff {line : Text} {h : Header} (hparse : parse line = .ok h) :
    EndsInEmptyParameter line ↔ Text.EndsInEmptyField ' ' h.status.leadingParameters
      ((Text.stripLineEnd line).drop 3) := by
  obtain ⟨a, b, tail, hline, ha, hb, hnew, htail, -⟩ := parse_ok hparse
  obtain ⟨-, -, hcode⟩ := Status.new_eq_some_iff.mp hnew
  have hbig := Text.toNat_of_isDigit hb
  have hdigit : a.toNat - 48 = h.status.major.digit := by
    rw [Status.digit_major]
    omega
  have ha' (d : Char) (hd : d.isDigit = true) : a = d ↔ h.status.major.digit = d.toNat - 48 := by
    rw [char_eq_of_isDigit ha hd, hdigit]
  have hspace (rest : Text) (hne : rest ≠ []) : tail = ' ' :: rest ↔ tail.tail = rest := by
    cases tail with
    | nil => simp [Ne.symm hne]
    | cons c tail =>
      obtain rfl : c = ' ' := by simpa using htail
      simp
  simp only [EndsInEmptyParameter, hline, List.head?_cons, List.mem_cons, List.not_mem_nil,
    Option.some.injEq, or_false, ha' '4' rfl, ha' '6' rfl, ha' '2' rfl, ha' '8' rfl,
    Status.leadingParameters, List.drop_succ_cons, List.drop_zero]
  cases hm : h.status.major <;>
    simp [Major.digit, Major.leadingParameters, Text.endsInEmptyField_one,
      Text.endsInEmptyField_two, Text.EndsInEmptyField, hspace]

/-- **Re-rendering**: an accepted status line that is rendered and parsed again gives the same
header exactly if it did not end in an empty leading parameter. -/
theorem reparse_iff {line : Text} {h : Header} (hparse : parse line = .ok h) :
    ofWire h.toWire = some (.ok h) ↔ ¬EndsInEmptyParameter line := by
  obtain ⟨a, b, tail, hline, -, -, -, -, hparams⟩ := parse_ok hparse
  have hrest : (Text.stripLineEnd line).drop 3 = tail.tail := by
    rw [hline, ← List.drop_one]
    rfl
  have hsame : ofWire h.toWire = some (.ok h) ↔
      splitParameters h.status (Text.joinFields ' ' h.parameters) = h.parameters := by
    rw [ofWire_toWire]
    cases h
    simp
  rw [hsame, endsInEmptyParameter_iff hparse, hrest, hparams]
  exact Text.splitFields_joinFields_iff

theorem reparse_iff_sample :
    ¬EndsInEmptyParameter "20 5 text/plain 1\r\n".toList := by
  have hparse : parse "20 5 text/plain 1\r\n".toList =
      .ok ⟨.OK, ["5".toList, "text/plain".toList, "1".toList]⟩ := by decide
  refine (reparse_iff hparse).mp ?_
  rw [ofWire_toWire]
  decide

/-- The empty second parameter is gone when the rendered line is parsed. -/
theorem reparse_drops_parameter :
    parse "20 5  ".toList = .ok ⟨.OK, ["5".toList, []]⟩ ∧
      ofWire (toWire ⟨.OK, ["5".toList, []]⟩) = some (.ok ⟨.OK, ["5".toList]⟩) ∧
      ofWire (toWire ⟨.OK, ["5".toList, []]⟩) ≠ some (.ok ⟨.OK, ["5".toList, []]⟩) := by
  rw [ofWire_toWire]
  exact ⟨by decide, by decide, by decide⟩

end Header

/-! ## Messages -/

namespace Reply

/-- What a reader finds as the message of a status line of class `4x`, `5x` or `6x`: the message,
or the explanation of a certificate request. -/
def readMessage (h : Header) : Option Text :=
  if h.status.major = .certificateRequired then h.certificateRequest.bind Prod.snd else h.message

/-- **Messages**: of the replies with a status `4x`, `5x` or `6x` and a message, exactly those of
class `5x` reach the reader with their message whole. -/
theorem message_intact_iff {code : Status} {message : Text} (hne : message ≠ [])
    (hclass : code.major ∈ [Major.temporaryError, .permanentError, .certificateRequired]) :
    (∃ h, Header.ofWire (status code message).toWire = some (.ok h) ∧
      readMessage h = some message) ↔ code.major = .permanentError := by
  have hwire : Header.ofWire (status code message).toWire =
      some (.ok ⟨code, splitParameters code message⟩) := by
    have hrender : (status code message).toWire = (Header.mk code [message]).toWire := by
      simp [toWire, render, hne]
    rw [hrender, Header.ofWire_toWire]
    rfl
  have hread : (∃ h, Header.ofWire (status code message).toWire = some (.ok h) ∧
      readMessage h = some message) ↔
        readMessage ⟨code, splitParameters code message⟩ = some message := by
    simp [hwire]
  rw [hread]
  have hsecond : ¬(Text.splitFields ' ' 1 message)[1]? = some message := by
    intro h
    exact absurd (Text.length_second_lt h) (Nat.lt_irrefl _)
  simp only [List.mem_cons, List.not_mem_nil, or_false] at hclass
  rcases hclass with h | h | h
  · simpa [readMessage, Header.message, splitParameters, Status.leadingParameters, h,
      Major.leadingParameters] using hsecond
  · simp [readMessage, Header.message, splitParameters, Status.leadingParameters, h,
      Major.leadingParameters, Text.splitFields_zero, hne]
  · simpa [readMessage, Header.certificateRequest, splitParameters, Status.leadingParameters, h,
      Major.leadingParameters] using hsecond

theorem message_intact_iff_sample :
    ∃ h, Header.ofWire (notFound).toWire = some (.ok h) ∧
      readMessage h = some "not found".toList :=
  (message_intact_iff (by simp) (by decide)).mpr rfl

/-- "slow down" is read as a wait of "slow" seconds and the message "down". -/
theorem message_cut :
    ¬∃ h, Header.ofWire (status .SLOW_DOWN "slow down".toList).toWire = some (.ok h) ∧
      readMessage h = some "slow down".toList := by
  have hwire : (status .SLOW_DOWN "slow down".toList).toWire =
      (Header.mk .SLOW_DOWN ["slow down".toList]).toWire := by decide
  rw [hwire, Header.ofWire_toWire]
  rintro ⟨h, heq, hread⟩
  cases heq
  revert hread
  decide

end Reply

end Smolweb.Scorpion
