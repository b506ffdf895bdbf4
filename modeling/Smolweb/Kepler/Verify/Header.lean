import Smolweb.Kepler.Wire

/-!
# A kepler header, written and read

A header is canonical when its code is one of its own class and trimming leaves its text as it is.
What is parsed is canonical (`canonical_of_parseHeader`), and canonical headers are read back from
the line they are written as (`parseHeader_of_canonical`).
-/

namespace Smolweb.Kepler

theorem code_of_fromCode {code : Nat} {status : Status} (h : Status.fromCode code = some status) :
    10 ≤ code ∧ code < 80 := by
  unfold Status.fromCode at h
  split at h
  all_goals first | omega | cases h

/-! ## One line -/

/-- What the text after a code is read as, leading whitespace trimmed off. -/
inductive Header.Reads (code : Nat) (rest : Text) : Status → Header → Prop where
  | success {length lastUpdated expires : Int64} {mimetype : Text}
    (first : (Text.splitN ' ' 3 rest)[0]? >>= Text.parseI64 = some length)
    (second : (Text.splitN ' ' 3 rest)[1]? >>= Text.parseI64 = some lastUpdated)
    (third : (Text.splitN ' ' 3 rest)[2]? >>= Text.parseI64 = some expires)
    (fourth : Text.trim <$> (Text.splitN ' ' 3 rest)[3]? = some mimetype)
    (nonempty : mimetype ≠ []) :
    Reads code rest .success (.success code ⟨length, lastUpdated, expires⟩ mimetype)
  | unchanged {expires : Int64}
    (first : Text.parseI64 (((Text.splitOnce ' ' rest).map Prod.fst).getD rest) = some expires) :
    Reads code rest .unchanged (.unchanged code expires)
  | metadata {status : Status} (success : status ≠ .success) (unchanged : status ≠ .unchanged) :
    Reads code rest status (.metadata code status rest)

theorem reads_of_parseHeader {line : Text} {header : Header} (h : parseHeader line = .ok header) :
    ∃ code rest status,
      Text.splitCode (Text.trimEndMatches Text.isLineBreak line) = some (code, rest) ∧
      Status.fromCode code = some status ∧
      Header.Reads code (Text.trimStart rest) status header := by
  unfold parseHeader at h
  simp only at h
  split at h
  · next header' hread =>
    cases h
    obtain ⟨⟨code, rest⟩, hcode, hread⟩ := Option.bind_eq_some_iff.mp hread
    obtain ⟨status, hstatus, hread⟩ := Option.bind_eq_some_iff.mp hread
    refine ⟨code, rest, status, hcode, hstatus, ?_⟩
    cases status with
    | success =>
      obtain ⟨length, hlength, hread⟩ := Option.bind_eq_some_iff.mp hread
      obtain ⟨lastUpdated, hlastUpdated, hread⟩ := Option.bind_eq_some_iff.mp hread
      obtain ⟨expires, hexpires, hread⟩ := Option.bind_eq_some_iff.mp hread
      obtain ⟨mimetype, hmimetype, hread⟩ := Option.bind_eq_some_iff.mp hread
      split at hread
      · cases hread
      · next hne =>
        cases hread
        exact .success hlength hlastUpdated hexpires hmimetype (by simpa using hne)
    | unchanged =>
      obtain ⟨expires, hexpires, hread⟩ := Option.bind_eq_some_iff.mp hread
      cases hread
      exact .unchanged hexpires
    | _ =>
      cases hread
      apply Header.Reads.metadata <;> simp
  · cases h

theorem parseHeader_of_reads {line rest : Text} {code : Nat} {status : Status} {header : Header}
    (hcode : Text.splitCode (Text.trimEndMatches Text.isLineBreak line) = some (code, rest))
    (hstatus : Status.fromCode code = some status)
    (hread : Header.Reads code (Text.trimStart rest) status header) :
    parseHeader line = .ok header := by
  unfold parseHeader
  simp only [hcode, Option.bind_eq_bind, Option.bind_some, hstatus]
  cases hread with
  | success first second third fourth nonempty =>
    simp only [Option.bind_eq_bind] at first second third
    simp only [first, second, third, fourth, Option.bind_some,
      List.isEmpty_eq_false_iff.mpr nonempty, Bool.false_eq_true, if_false]
  | unchanged first =>
    simp only [first, Option.bind_some, Option.pure_def]
  | metadata success unchanged =>
    cases status with
    | success => exact absurd rfl success
    | unchanged => exact absurd rfl unchanged
    | _ => rfl

/-! ## Canonical headers -/

/-- A header that its line is read back as. -/
inductive Header.Canonical : Header → Prop where
  | success {code : Nat} {cache : CacheInfo} {mimetype : Text}
    (own : Status.fromCode code = some .success)
    (nonempty : mimetype ≠ []) (trimmed : Text.trim mimetype = mimetype) :
    Canonical (.success code cache mimetype)
  | unchanged {code : Nat} {expires : Int64} (own : Status.fromCode code = some .unchanged) :
    Canonical (.unchanged code expires)
  | metadata {code : Nat} {status : Status} {metaText : Text}
    (own : Status.fromCode code = some status)
    (success : status ≠ .success) (unchanged : status ≠ .unchanged)
    (start : Text.trimStart metaText = metaText)
    (ending : Text.trimEndMatches Text.isLineBreak metaText = metaText) :
    Canonical (.metadata code status metaText)

/-- What is parsed is canonical: what follows the code ends where the line was trimmed. -/
theorem canonical_of_parseHeader {line : Text} {header : Header}
    (h : parseHeader line = .ok header) : header.Canonical := by
  obtain ⟨code, rest, status, hcode, hstatus, hread⟩ := reads_of_parseHeader h
  cases hread with
  | success _ _ _ fourth nonempty =>
    obtain ⟨field, -, rfl⟩ := Option.map_eq_some_iff.mp fourth
    exact .success hstatus nonempty (Text.trim_trim field)
  | unchanged _ => exact .unchanged hstatus
  | metadata success unchanged =>
    refine .metadata hstatus success unchanged (List.dropWhile_idempotent ..) ?_
    have hsuffix := (Text.trimStart_suffix rest).trans (Text.splitCode_suffix hcode)
    exact Text.trimEndMatches_eq_self_of_suffix hsuffix (List.rdropWhile_idempotent ..)

/-! ## Written and read -/

/-- What is written after the code and a space. -/
def Header.fieldText : Header → Text
  | .success _ cache mimetype =>
    Text.decimalI64 cache.length ++ ' ' :: (Text.decimalI64 cache.lastUpdated ++
      ' ' :: (Text.decimalI64 cache.expires ++ ' ' :: mimetype))
  | .unchanged _ expires => Text.decimalI64 expires
  | .metadata _ _ metaText => metaText

/-- What is written after the code. -/
def Header.tail (header : Header) : Text :=
  if header.fieldText = [] then [] else ' ' :: header.fieldText

theorem formatHeader_eq (header : Header) :
    formatHeader header = Text.decimal header.code ++ header.tail ++ ['\r', '\n'] := by
  cases header with
  | success code cache mimetype =>
    simp [formatHeader, Header.code, Header.tail, Header.fieldText]
  | unchanged code expires =>
    simp [formatHeader, Header.code, Header.tail, Header.fieldText, Text.decimalI64_ne_nil]
  | metadata code status metaText =>
    cases metaText with
    | nil => simp [formatHeader, Header.code, Header.tail, Header.fieldText]
    | cons c metaText => simp [formatHeader, Header.code, Header.tail, Header.fieldText]

/-- The numbers of a line are split off again, and what follows them is left whole. -/
theorem splitN_numbers (length lastUpdated expires : Int64) (mimetype : Text) :
    Text.splitN ' ' 3 (Text.decimalI64 length ++ ' ' :: (Text.decimalI64 lastUpdated ++
      ' ' :: (Text.decimalI64 expires ++ ' ' :: mimetype))) =
      [Text.decimalI64 length, Text.decimalI64 lastUpdated, Text.decimalI64 expires, mimetype] := by
  have hspace : ∀ n : Int64, ' ' ∉ Text.decimalI64 n :=
    fun n => Text.not_mem_decimalI64 (by decide) (by decide)
  rw [Text.splitN_append (hspace length), Text.splitN_append (hspace lastUpdated),
    Text.splitN_append (hspace expires)]
  rfl

namespace Header.Canonical

variable {header : Header}

theorem own (h : header.Canonical) : Status.fromCode header.code = some header.status := by
  cases h with
  | success own => exact own
  | unchanged own => exact own
  | metadata own => exact own

theorem reads (h : header.Canonical) :
    Reads header.code header.fieldText header.status header := by
  cases h with
  | success own nonempty trimmed =>
    next code cache mimetype =>
    have hsplit := splitN_numbers cache.length cache.lastUpdated cache.expires mimetype
    rw [fieldText]
    apply Reads.success
    · rw [hsplit]
      exact Text.parseI64_decimalI64 cache.length
    · rw [hsplit]
      exact Text.parseI64_decimalI64 cache.lastUpdated
    · rw [hsplit]
      exact Text.parseI64_decimalI64 cache.expires
    · rw [hsplit]
      exact congrArg some trimmed
    · exact nonempty
  | unchanged own =>
    next code expires =>
    apply Reads.unchanged
    have hspace : ' ' ∉ Text.decimalI64 expires :=
      Text.not_mem_decimalI64 (by decide) (by decide)
    rw [fieldText, Text.splitOnce_eq_none_iff.mpr hspace]
    exact Text.parseI64_decimalI64 expires
  | metadata own success unchanged start ending =>
    exact .metadata success unchanged

/-- No end of the text after the code is trimmed. -/
theorem trimStart_fieldText (h : header.Canonical) :
    Text.trimStart header.fieldText = header.fieldText := by
  cases h with
  | success =>
    exact Text.trimStart_append_eq_self (Text.decimalI64_ne_nil _) (Text.trimStart_decimalI64 _) _
  | unchanged => exact Text.trimStart_decimalI64 _
  | metadata own success unchanged start ending => exact start

theorem trimEnd_fieldText (h : header.Canonical) :
    Text.trimEndMatches Text.isLineBreak header.fieldText = header.fieldText := by
  cases h with
  | success own nonempty trimmed =>
    have hspace : Text.isLineBreak ' ' = false := rfl
    rw [fieldText, Text.trimEndMatches_append_cons hspace, Text.trimEndMatches_append_cons hspace,
      Text.trimEndMatches_append_cons hspace, Text.trimEnd_of_trim trimmed]
  | unchanged => exact (Text.oneLine_decimalI64 _).trimEnd_eq
  | metadata own success unchanged start ending => exact ending

theorem trimEnd_formatHeader (h : header.Canonical) :
    Text.trimEndMatches Text.isLineBreak (formatHeader header) =
      Text.decimal header.code ++ header.tail := by
  rw [formatHeader_eq, Text.trimEndMatches_append _ (by simp [Text.isLineBreak]), tail]
  split
  · rw [List.append_nil, (Text.oneLine_decimal _).trimEnd_eq]
  · rw [Text.trimEndMatches_append_cons (by rfl), h.trimEnd_fieldText]

end Header.Canonical

/-- A canonical header is read back from the line it is written as. -/
theorem parseHeader_of_canonical {header : Header} (h : header.Canonical) :
    parseHeader (formatHeader header) = .ok header := by
  obtain ⟨hlow, hhigh⟩ := code_of_fromCode h.own
  have hcode := Text.splitCode_decimal hlow (by omega) header.tail
  have hfields : Text.trimStart header.tail = header.fieldText := by
    unfold Header.tail
    split
    · next hnil =>
      rw [hnil]
      rfl
    · rw [Text.trimStart_cons (by rfl), h.trimStart_fieldText]
  rw [← h.trimEnd_formatHeader] at hcode
  apply parseHeader_of_reads hcode h.own
  rw [hfields]
  exact h.reads

/-- A header built with a code of its own class, a mimetype that is trimmed and not empty, and a
meta without leading whitespace, all on one line. -/
inductive Header.WellFormed : Header → Prop where
  | success {code : Nat} {cache : CacheInfo} {mimetype : Text}
    (own : Status.fromCode code = some .success) (oneLine : mimetype.OneLine)
    (nonempty : mimetype ≠ []) (trimmed : Text.trim mimetype = mimetype) :
    WellFormed (.success code cache mimetype)
  | unchanged {code : Nat} {expires : Int64} (own : Status.fromCode code = some .unchanged) :
    WellFormed (.unchanged code expires)
  | metadata {code : Nat} {status : Status} {metaText : Text}
    (own : Status.fromCode code = some status)
    (success : status ≠ .success) (unchanged : status ≠ .unchanged) (oneLine : metaText.OneLine)
    (start : ∀ c, metaText.head? = some c → Text.isWhitespace c = false) :
    WellFormed (.metadata code status metaText)

theorem Header.WellFormed.canonical {header : Header} (h : header.WellFormed) :
    header.Canonical := by
  cases h with
  | success own oneLine nonempty trimmed => exact .success own nonempty trimmed
  | unchanged own => exact .unchanged own
  | metadata own success unchanged oneLine start =>
    exact .metadata own success unchanged (Text.trimStart_eq_self_iff.mpr start) oneLine.trimEnd_eq

/-- **Headers round trip**, from what was parsed and from what is well formed. -/
theorem parseHeader_formatHeader :
    (∀ line header, parseHeader line = .ok header →
      parseHeader (formatHeader header) = .ok header) ∧
      ∀ header : Header, header.WellFormed → parseHeader (formatHeader header) = .ok header :=
  ⟨fun _ _ h => parseHeader_of_canonical (canonical_of_parseHeader h),
    fun _ h => parseHeader_of_canonical h.canonical⟩

/-- A line that is written otherwise than it was read, and a message that is empty. -/
theorem parseHeader_formatHeader_lenient :
    parseHeader (formatHeader (.success 20 ⟨5, -1, 7⟩ "a\nb".toList)) =
        .ok (.success 20 ⟨5, -1, 7⟩ "a\nb".toList) ∧
      parseHeader (formatHeader (.metadata 44 .temporaryFailure [])) =
        .ok (.metadata 44 .temporaryFailure []) :=
  ⟨parseHeader_formatHeader.1 "20+5 -1 +07  a\nb \n".toList _ (by decide),
    parseHeader_formatHeader.2 _ (.metadata rfl (by simp) (by simp) (by simp [Text.OneLine])
      (by simp))⟩

end Smolweb.Kepler
