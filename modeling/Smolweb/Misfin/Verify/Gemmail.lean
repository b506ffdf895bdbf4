import Smolweb.Misfin.Gemmail

/-!
# Rendering a message and parsing it again

The loop of `parse_gemmail` takes the first line of each kind out and leaves the others in their
order (`foldl_next`), and a metadata line that is rendered parses to what it was rendered from. So
a message comes back unless its body loses a blank line at its end, or an empty recipients line was
taken out, which renders to nothing, and a later one in the body is taken in its place
(`parseGemmail_toGemtext_iff`).
-/

namespace Smolweb.Misfin

/-! ## The kinds of lines -/

def isSenderLine (line : Text) : Bool := (parseSenderLine line).isSome

def isRecipientsLine (line : Text) : Bool := (parseRecipientsLine line).isSome

def isTimestampLine (line : Text) : Bool := (parseTimestampLine line).isSome

theorem stripPrefix_eq_none {c d : Char} (h : c ≠ d) (t : Text) :
    Text.stripPrefix [c] (d :: t) = none := by
  rw [Text.stripPrefix, if_neg]
  intro hp
  exact h (List.cons_prefix_cons.mp hp).1

theorem stripPrefix_cons (c : Char) (t : Text) : Text.stripPrefix [c] (c :: t) = some t :=
  Text.stripPrefix_append [c] t

/-- A line that a mark is stripped from starts with the mark. -/
theorem eq_cons_of_stripPrefix {c : Char} {line rest : Text}
    (h : Text.stripPrefix [c] line = some rest) : line = c :: rest :=
  Text.stripPrefix_eq_some_iff.mp h

theorem eq_cons_of_sender {line : Text} {s : MisfinSender} (h : parseSenderLine line = some s) :
    ∃ rest, line = '<' :: rest := by
  obtain ⟨rest, hrest, -⟩ := Option.bind_eq_some_iff.mp h
  exact ⟨rest, eq_cons_of_stripPrefix hrest⟩

theorem eq_cons_of_recipients {line : Text} {r : List MisfinAddress}
    (h : parseRecipientsLine line = some r) : ∃ rest, line = ':' :: rest := by
  obtain ⟨rest, hrest, -⟩ := Option.bind_eq_some_iff.mp h
  exact ⟨rest, eq_cons_of_stripPrefix hrest⟩

/-- A line with another mark is of none of the other kinds. -/
theorem parseSenderLine_cons {c : Char} (h : '<' ≠ c) (t : Text) :
    parseSenderLine (c :: t) = none := by
  rw [parseSenderLine, stripPrefix_eq_none h]
  rfl

theorem parseRecipientsLine_cons {c : Char} (h : ':' ≠ c) (t : Text) :
    parseRecipientsLine (c :: t) = none := by
  rw [parseRecipientsLine, stripPrefix_eq_none h]
  rfl

theorem parseTimestampLine_cons {c : Char} (h : '@' ≠ c) (t : Text) :
    parseTimestampLine (c :: t) = none := by
  rw [parseTimestampLine, stripPrefix_eq_none h]
  rfl

/-! ## The loop -/

/-- The lines without the first one of a kind, unless one was taken out before. -/
def without (p : Text → Bool) (taken : Bool) (lines : List Text) : List Text :=
  if taken then lines else lines.eraseP p

/-- The lines that stay in the body. -/
def leftOver (sender recipients timestamp : Bool) (lines : List Text) : List Text :=
  without isSenderLine sender
    (without isRecipientsLine recipients (without isTimestampLine timestamp lines))

/-- **What the loop finds**: the first line of each kind that was not found before, and in the body
the others. -/
theorem foldl_next (lines : List Text) (found : Found) : lines.foldl Found.next found = {
    sender := found.sender.or (lines.findSome? parseSenderLine)
    recipients := found.recipients.or (lines.findSome? parseRecipientsLine)
    timestamp := found.timestamp.or (lines.findSome? parseTimestampLine)
    bodyLines := found.bodyLines ++ leftOver found.sender.isSome found.recipients.isSome
      found.timestamp.isSome lines } := by
  induction lines generalizing found with
  | nil =>
    obtain ⟨sender, recipients, timestamp, bodyLines⟩ := found
    simp [leftOver, without]
  | cons line lines ih =>
    obtain ⟨sender, recipients, timestamp, bodyLines⟩ := found
    rw [List.foldl_cons, ih]
    cases hs : parseSenderLine line with
    | some s =>
      obtain ⟨rest, rfl⟩ := eq_cons_of_sender hs
      have hr := parseRecipientsLine_cons (c := '<') (by decide) rest
      have ht := parseTimestampLine_cons (c := '<') (by decide) rest
      cases sender <;> cases recipients <;> cases timestamp <;>
        simp [Found.next, leftOver, without, hs, hr, ht, isSenderLine, isRecipientsLine,
          isTimestampLine]
    | none =>
      cases hr : parseRecipientsLine line with
      | some r =>
        obtain ⟨rest, rfl⟩ := eq_cons_of_recipients hr
        have ht := parseTimestampLine_cons (c := ':') (by decide) rest
        cases sender <;> cases recipients <;> cases timestamp <;>
          simp [Found.next, leftOver, without, hs, hr, ht, isSenderLine, isRecipientsLine,
            isTimestampLine]
      | none =>
        cases ht : parseTimestampLine line <;> cases sender <;> cases recipients <;>
          cases timestamp <;>
          simp [Found.next, leftOver, without, hs, hr, ht, isSenderLine, isRecipientsLine,
            isTimestampLine]

/-! ## Rendered lines -/

/-- An address as it is written in a line: without whitespace, and in the form that parsing gives
it. -/
structure MisfinAddress.Written (a : MisfinAddress) : Prop where
  mailbox_ne : a.mailbox ≠ []
  at_not_mem : '@' ∉ a.mailbox
  host_ne : a.host ≠ []
  lower : toAsciiLowercase a.host = a.host
  noSpace : ∀ c ∈ a.asAddrSpec, Text.isWhitespace c = false

theorem written_of_parse {part : Text} {a : MisfinAddress} (h : MisfinAddress.parse part = .ok a)
    (hpart : ∀ c ∈ part, Text.isWhitespace c = false) : a.Written := by
  rw [MisfinAddress.parse, Text.trim_of_forall hpart] at h
  split at h
  · cases h
  · next mailbox host hsplit =>
    obtain ⟨rfl, hat⟩ := Text.splitOnce_eq_some_iff.mp hsplit
    split at h
    · cases h
    · next hne =>
      cases h
      simp only [Bool.or_eq_true, List.isEmpty_iff, not_or] at hne
      refine ⟨hne.1, hat, by simpa [toAsciiLowercase] using hne.2, ?_, ?_⟩
      · simp only [toAsciiLowercase, List.map_map]
        congr 1
        funext c
        exact toLower_toLower c
      · intro c hc
        simp only [MisfinAddress.asAddrSpec, toAsciiLowercase, List.mem_append, List.mem_cons,
          List.mem_map] at hc
        rcases hc with hc | rfl | ⟨d, hd, rfl⟩
        · exact hpart c (by simp [hc])
        · decide
        · rw [isWhitespace_toLower]
          exact hpart d (by simp [hd])

theorem MisfinAddress.Written.parse {a : MisfinAddress} (h : a.Written) :
    MisfinAddress.parse a.asAddrSpec = .ok a := by
  have hsplit : Text.splitOnce '@' a.asAddrSpec = some (a.mailbox, a.host) :=
    Text.splitOnce_append h.at_not_mem a.host
  have hne : (a.mailbox.isEmpty || a.host.isEmpty) = false := by
    simp [h.mailbox_ne, h.host_ne]
  rw [MisfinAddress.parse, Text.trim_of_forall h.noSpace]
  simp only [hsplit, hne, h.lower]
  rfl

theorem MisfinAddress.Written.asAddrSpec_ne {a : MisfinAddress} (h : a.Written) :
    a.asAddrSpec ≠ [] := by
  simp [asAddrSpec, h.mailbox_ne]

theorem splitOnceWhitespace_append {head tail : Text}
    (hhead : ∀ c ∈ head, Text.isWhitespace c = false)
    (htail : ∀ c, tail.head? = some c → Text.isWhitespace c = true) :
    splitOnceWhitespace (head ++ tail) =
      (head, if (Text.trim tail).isEmpty then none else some (Text.trim tail)) := by
  have hword : (head ++ tail).takeWhile (fun c => !Text.isWhitespace c) = head := by
    have hstop : tail.takeWhile (fun c => !Text.isWhitespace c) = [] := by
      cases tail with
      | nil => rfl
      | cons c tail => simp [htail c rfl]
    rw [List.takeWhile_append_of_pos (by simpa using hhead), hstop, List.append_nil]
  rw [splitOnceWhitespace, hword, List.drop_left]

/-- A sender as a line gives it: its blurb, if it has one, is trimmed and not empty. -/
structure MisfinSender.Written (s : MisfinSender) : Prop where
  address : s.address.Written
  blurb : ∀ {b}, s.blurb = some b → b ≠ [] ∧ Text.trim b = b

theorem written_of_parseSenderLine {line : Text} {s : MisfinSender}
    (h : parseSenderLine line = some s) :
    s.Written ∧ ∀ b, s.blurb = some b → ∀ c ∈ b, c ∈ line := by
  obtain ⟨rest, hrest, h⟩ := Option.bind_eq_some_iff.mp h
  have hline := eq_cons_of_stripPrefix hrest
  simp only at h
  split at h
  · cases h
  · obtain ⟨address, haddress, h⟩ := Option.bind_eq_some_iff.mp h
    cases h
    have hparse : MisfinAddress.parse ((Text.trim rest).takeWhile fun c => !Text.isWhitespace c) =
        .ok address := by
      cases hp : MisfinAddress.parse ((Text.trim rest).takeWhile fun c => !Text.isWhitespace c) with
      | error e =>
        simp [splitOnceWhitespace, hp, Except.toOption] at haddress
      | ok a =>
        simp only [splitOnceWhitespace, hp, Except.toOption, Option.some.injEq] at haddress
        rw [haddress]
    have hword : ∀ c ∈ (Text.trim rest).takeWhile (fun c => !Text.isWhitespace c),
        Text.isWhitespace c = false := by
      intro c hc
      simpa using List.mem_takeWhile_imp hc
    refine ⟨⟨written_of_parse hparse hword, ?_⟩, ?_⟩
    · intro b hb
      simp only [splitOnceWhitespace] at hb
      split at hb
      · cases hb
      · next hne =>
        cases hb
        exact ⟨by simpa using hne, Text.trim_trim _⟩
    · intro b hb c hc
      simp only [splitOnceWhitespace] at hb
      split at hb
      · cases hb
      · cases hb
        rw [hline]
        exact List.mem_cons_of_mem _
          (Text.mem_of_mem_trim (List.mem_of_mem_drop (Text.mem_of_mem_trim hc)))

/-- What follows the mark and the space in a sender line. -/
theorem trim_sender {s : MisfinSender} (h : s.Written) :
    Text.trim (s.address.asAddrSpec ++ s.blurb.elim [] fun blurb => ' ' :: blurb) =
      s.address.asAddrSpec ++ s.blurb.elim [] fun blurb => ' ' :: blurb := by
  have hne := h.address.asAddrSpec_ne
  apply Text.trim_eq_self_iff.mpr
  constructor
  · intro c hc
    rw [List.head?_append_of_ne_nil _ hne] at hc
    exact h.address.noSpace c (List.mem_of_head? hc)
  · intro c hc
    cases hb : s.blurb with
    | none =>
      rw [hb, Option.elim_none, List.append_nil] at hc
      exact h.address.noSpace c (List.mem_of_getLast? hc)
    | some b =>
      obtain ⟨hbne, htrim⟩ := h.blurb hb
      rw [hb, Option.elim_some, List.getLast?_append_of_ne_nil _ (List.cons_ne_nil _ _),
        List.getLast?_cons_of_ne_nil hbne] at hc
      exact (Text.trim_eq_self_iff.mp htrim).2 c hc

/-- A sender is parsed from the line it is rendered to. -/
theorem parseSenderLine_senderLine {s : MisfinSender} (h : s.Written) :
    parseSenderLine (MisfinGemmail.senderLine s) = some s := by
  have htrim := trim_sender h
  have hline : MisfinGemmail.senderLine s = '<' :: ' ' ::
      (s.address.asAddrSpec ++ s.blurb.elim [] fun blurb => ' ' :: blurb) := by
    simp [MisfinGemmail.senderLine]
  have hspace (t : Text) : Text.trim (' ' :: t) = Text.trim t := Text.trim_cons (by decide) t
  have htail : ∀ c, (s.blurb.elim [] fun blurb => ' ' :: blurb : Text).head? = some c →
      Text.isWhitespace c = true := by
    cases s.blurb with
    | none => nofun
    | some b =>
      rintro c ⟨⟩
      decide
  have hsplit := splitOnceWhitespace_append h.address.noSpace htail
  have hne :
      (s.address.asAddrSpec ++ s.blurb.elim [] fun blurb => ' ' :: blurb).isEmpty = false := by
    simp [h.address.asAddrSpec_ne]
  rw [hline, parseSenderLine, stripPrefix_cons]
  simp only [Option.bind_eq_bind, Option.bind_some, hspace, htrim, hne, hsplit, h.address.parse,
    Except.toOption]
  obtain ⟨address, blurb⟩ := s
  cases blurb with
  | none => rfl
  | some b =>
    obtain ⟨hbne, hb⟩ := h.blurb rfl
    simp [hspace, hb, hbne]

theorem exists_of_mapM {α β : Type} {f : α → Option β} {l : List α} {r : List β}
    (h : l.mapM f = some r) : ∀ b ∈ r, ∃ a ∈ l, f a = some b := by
  induction l generalizing r with
  | nil =>
    cases h
    simp
  | cons a l ih =>
    rw [List.mapM_cons] at h
    obtain ⟨b, hb, h⟩ := Option.bind_eq_some_iff.mp h
    obtain ⟨bs, hbs, h⟩ := Option.bind_eq_some_iff.mp h
    cases h
    intro c hc
    rcases List.mem_cons.mp hc with rfl | hc
    · exact ⟨a, List.mem_cons_self, hb⟩
    · obtain ⟨d, hd, hdc⟩ := ih hbs c hc
      exact ⟨d, List.mem_cons_of_mem a hd, hdc⟩

theorem mapM_map_of_forall {α β : Type} {f : α → Option β} {g : β → α} {l : List β}
    (h : ∀ b ∈ l, f (g b) = some b) : (l.map g).mapM f = some l := by
  induction l with
  | nil => rfl
  | cons b l ih =>
    rw [List.map_cons, List.mapM_cons, h b List.mem_cons_self,
      ih fun c hc => h c (List.mem_cons_of_mem b hc)]
    rfl

theorem written_of_parseRecipientsLine {line : Text} {r : List MisfinAddress}
    (h : parseRecipientsLine line = some r) : ∀ a ∈ r, a.Written := by
  obtain ⟨rest, -, h⟩ := Option.bind_eq_some_iff.mp h
  intro a ha
  obtain ⟨part, hpart, hparse⟩ := exists_of_mapM h a ha
  refine written_of_parse ?_ (Text.of_mem_words hpart).2
  cases hp : MisfinAddress.parse part with
  | error e => simp [hp, Except.toOption] at hparse
  | ok b =>
    simp only [hp, Except.toOption, Option.some.injEq] at hparse
    rw [hparse]

theorem words_recipients {r : List MisfinAddress} (h : ∀ a ∈ r, a.Written) :
    Text.words (r.flatMap fun a => ' ' :: a.asAddrSpec) = r.map MisfinAddress.asAddrSpec := by
  induction r with
  | nil => rfl
  | cons a r ih =>
    have ha := h a List.mem_cons_self
    have hspec : Text.words a.asAddrSpec = [a.asAddrSpec] :=
      Text.words_of_forall ha.asAddrSpec_ne ha.noSpace
    rw [List.flatMap_cons, List.cons_append, Text.words_cons (by decide), List.map_cons,
      ← ih fun b hb => h b (List.mem_cons_of_mem a hb)]
    cases r with
    | nil => simp [hspec]
    | cons b r =>
      rw [List.flatMap_cons, List.cons_append, Text.words_append_cons (by decide), hspec,
        Text.words_cons (by decide)]
      rfl

/-- Recipients are parsed from the line they are rendered to. -/
theorem parseRecipientsLine_recipientsLine {r : List MisfinAddress} (h : ∀ a ∈ r, a.Written) :
    parseRecipientsLine (MisfinGemmail.recipientsLine r) = some r := by
  rw [MisfinGemmail.recipientsLine, parseRecipientsLine, stripPrefix_cons]
  simp only [Option.bind_eq_bind, Option.bind_some, Text.words_trim, words_recipients h]
  apply mapM_map_of_forall
  intro a ha
  rw [(h a ha).parse]
  rfl

theorem parseTimestampLine_timestampLine {t : Text} (hne : t ≠ []) (htrim : Text.trim t = t) :
    parseTimestampLine (MisfinGemmail.timestampLine t) = some t := by
  have hline : MisfinGemmail.timestampLine t = '@' :: ' ' :: t := rfl
  rw [hline, parseTimestampLine, stripPrefix_cons]
  simp [Text.trim_cons (c := ' ') (by decide), htrim, hne]

theorem written_of_parseTimestampLine {line t : Text} (h : parseTimestampLine line = some t) :
    t ≠ [] ∧ Text.trim t = t ∧ ∀ c ∈ t, c ∈ line := by
  obtain ⟨rest, hrest, h⟩ := Option.bind_eq_some_iff.mp h
  have hline := eq_cons_of_stripPrefix hrest
  simp only at h
  split at h
  · cases h
  · next hne =>
    cases h
    refine ⟨by simpa using hne, Text.trim_trim rest, ?_⟩
    intro c hc
    rw [hline]
    exact List.mem_cons_of_mem _ (Text.mem_of_mem_trim hc)

/-! ## The lines of a rendered message -/

/-- A text that is one line of a message. -/
def IsGemmailLine (l : Text) : Prop := '\n' ∉ l ∧ l.getLast? ≠ some '\r'

theorem trimCr_of_isGemmailLine {l : Text} (h : IsGemmailLine l) :
    Text.trimEndMatches (· == '\r') l = l := by
  rw [Text.trimEndMatches_eq_self_iff]
  intro c hc
  rw [beq_eq_false_iff_ne]
  rintro rfl
  exact h.2 hc

theorem gemmailLines_append {lines : List Text} (h : ∀ l ∈ lines, IsGemmailLine l) (rest : Text) :
    gemmailLines (lines.flatMap (· ++ ['\n']) ++ rest) = lines ++ gemmailLines rest := by
  induction lines with
  | nil => rfl
  | cons l lines ih =>
    have hl := h l List.mem_cons_self
    have hsplit : (l :: lines).flatMap (· ++ ['\n']) ++ rest =
        l ++ '\n' :: (lines.flatMap (· ++ ['\n']) ++ rest) := by simp
    rw [hsplit, gemmailLines, Text.lines_append_lf hl.1, List.map_cons,
      Text.stripCr_of_getLast hl.2, trimCr_of_isGemmailLine hl, ← gemmailLines,
      ih fun m hm => h m (List.mem_cons_of_mem l hm)]
    rfl

theorem isGemmailLine_of_mem {text l : Text} (h : l ∈ gemmailLines text) : IsGemmailLine l := by
  obtain ⟨line, hline, rfl⟩ := List.mem_map.mp h
  have hlf := Text.lf_not_mem_of_mem_lines hline
  refine ⟨fun hm => hlf ((Text.trimEndMatches_initial _ line).subset hm), ?_⟩
  intro hlast
  have hself : Text.trimEndMatches (· == '\r') (Text.trimEndMatches (· == '\r') line) =
      Text.trimEndMatches (· == '\r') line := List.rdropWhile_idempotent ..
  have := Text.trimEndMatches_eq_self_iff.mp hself '\r' hlast
  simp at this

theorem gemmailLines_joinFields {lines : List Text} (h : ∀ l ∈ lines, IsGemmailLine l) :
    gemmailLines (Text.joinFields '\n' lines) =
      if lines.getLast? = some [] then lines.dropLast else lines := by
  have hmap {ls : List Text} (hls : ∀ l ∈ ls, l ∈ lines) :
      ls.map (Text.trimEndMatches (· == '\r')) = ls := by
    have hsame : ls.map (Text.trimEndMatches (· == '\r')) = ls.map id :=
      List.map_congr_left fun l hl => trimCr_of_isGemmailLine (h l (hls l hl))
    rw [hsame, List.map_id]
  rw [gemmailLines, Text.lines_joinFields h]
  split
  · exact hmap fun l hl => List.mem_of_mem_dropLast hl
  · exact hmap fun l hl => hl

/-- A message whose metadata was read from lines. -/
structure MisfinGemmail.Written (m : MisfinGemmail) : Prop where
  sender : ∀ {s}, m.sender = some s → s.Written ∧ ∀ b, s.blurb = some b → '\n' ∉ b
  recipients : ∀ a ∈ m.recipients, a.Written
  timestamp : ∀ {t}, m.timestamp = some t → t ≠ [] ∧ Text.trim t = t ∧ '\n' ∉ t

namespace MisfinGemmail

variable {m : MisfinGemmail}

/-- What ends in something trimmed ends in no CR. -/
theorem isGemmailLine_append {a t : Text} (hne : t ≠ []) (htrim : Text.trim t = t)
    (hlf : '\n' ∉ a ++ t) : IsGemmailLine (a ++ t) := by
  refine ⟨hlf, ?_⟩
  rw [List.getLast?_append_of_ne_nil _ hne]
  intro hlast
  exact absurd ((Text.trim_eq_self_iff.mp htrim).2 '\r' hlast) (by decide)

theorem lf_not_mem_asAddrSpec {a : MisfinAddress} (h : a.Written) : '\n' ∉ a.asAddrSpec :=
  fun hm => absurd (h.noSpace _ hm) (by decide)

theorem isGemmailLine_senderLine {s : MisfinSender} (h : s.Written)
    (hlf : ∀ b, s.blurb = some b → '\n' ∉ b) : IsGemmailLine (senderLine s) := by
  have hspec := lf_not_mem_asAddrSpec h.address
  have hline : senderLine s = ['<', ' '] ++
      (s.address.asAddrSpec ++ s.blurb.elim [] fun blurb => ' ' :: blurb) := by
    simp [senderLine]
  rw [hline]
  apply isGemmailLine_append (by simp [h.address.asAddrSpec_ne]) (trim_sender h)
  cases hb : s.blurb with
  | none => simp [hspec]
  | some b => simp [hspec, hlf b hb]

theorem isGemmailLine_recipientsLine {r : List MisfinAddress} (hne : r ≠ [])
    (h : ∀ a ∈ r, a.Written) : IsGemmailLine (recipientsLine r) := by
  obtain ⟨rs, a, rfl⟩ : ∃ rs a, r = rs ++ [a] :=
    ⟨r.dropLast, r.getLast hne, (List.dropLast_append_getLast hne).symm⟩
  have ha := h a (by simp)
  have hline : recipientsLine (rs ++ [a]) =
      (':' :: (rs.flatMap fun b => ' ' :: b.asAddrSpec) ++ [' ']) ++ a.asAddrSpec := by
    simp [recipientsLine]
  rw [hline]
  apply isGemmailLine_append ha.asAddrSpec_ne (Text.trim_of_forall ha.noSpace)
  have hrs : ∀ b ∈ rs, '\n' ∉ b.asAddrSpec := fun b hb =>
    lf_not_mem_asAddrSpec (h b (by simp [hb]))
  simp only [List.mem_append, List.mem_cons, List.mem_flatMap, List.not_mem_nil, or_false, not_or,
    not_exists, not_and]
  refine ⟨⟨⟨by decide, ?_⟩, by decide⟩, lf_not_mem_asAddrSpec ha⟩
  exact fun b hb => ⟨by decide, hrs b hb⟩

theorem isGemmailLine_of_mem_metadataLines (h : m.Written) :
    ∀ l ∈ m.metadataLines, IsGemmailLine l := by
  intro l hl
  simp only [metadataLines, List.mem_append, Option.mem_toList,
    Option.map_eq_some_iff] at hl
  rcases hl with (⟨s, hs, rfl⟩ | hl) | ⟨t, ht, rfl⟩
  · exact isGemmailLine_senderLine (h.sender hs).1 (h.sender hs).2
  · split at hl
    · cases hl
    · next hne =>
      rw [List.mem_singleton.mp hl]
      exact isGemmailLine_recipientsLine (by simpa using hne) h.recipients
  · obtain ⟨hne, htrim, hlf⟩ := h.timestamp ht
    exact isGemmailLine_append hne htrim (by simp [hlf])

/-- The rendered metadata is found again. -/
theorem foldl_metadataLines (h : m.Written) : m.metadataLines.foldl Found.next {} = {
    sender := m.sender
    recipients := if m.recipients.isEmpty then none else some m.recipients
    timestamp := m.timestamp } := by
  obtain ⟨sender, recipients, timestamp, subject, body⟩ := m
  have hsender : ((sender.map senderLine).toList).foldl Found.next {} = { sender } := by
    cases sender with
    | none => rfl
    | some s => simp [Found.next, parseSenderLine_senderLine (h.sender rfl).1]
  have hrecipients : (if recipients.isEmpty then [] else [recipientsLine recipients]).foldl
      Found.next { sender } =
        { sender, recipients := if recipients.isEmpty then none else some recipients } := by
    have hs : parseSenderLine (recipientsLine recipients) = none :=
      parseSenderLine_cons (by decide) _
    have hr := parseRecipientsLine_recipientsLine h.recipients
    split
    · rfl
    · simp [Found.next, hs, hr]
  have htimestamp (found : Found) (hfound : found.timestamp = none) :
      ((timestamp.map timestampLine).toList).foldl Found.next found =
        { found with timestamp } := by
    cases timestamp with
    | none =>
      obtain ⟨_, _, _, _⟩ := found
      simp only at hfound
      subst hfound
      rfl
    | some t =>
      obtain ⟨hne, htrim, -⟩ := h.timestamp rfl
      have hs : parseSenderLine (timestampLine t) = none := parseSenderLine_cons (by decide) _
      have hr : parseRecipientsLine (timestampLine t) = none :=
        parseRecipientsLine_cons (by decide) _
      have ht := parseTimestampLine_timestampLine hne htrim
      simp [Found.next, hs, hr, ht, hfound]
  simp only [metadataLines, List.foldl_append, hsender, hrecipients]
  rw [htimestamp _ rfl]

end MisfinGemmail

/-! ## What is parsed -/

/-- The lines of a text but for the first of each kind. -/
def remaining (lines : List Text) : List Text :=
  ((lines.eraseP isTimestampLine).eraseP isRecipientsLine).eraseP isSenderLine

theorem remaining_sublist (lines : List Text) : (remaining lines).Sublist lines :=
  List.eraseP_sublist.trans (List.eraseP_sublist.trans List.eraseP_sublist)

theorem foldl_gemmailLines (text : Text) : (gemmailLines text).foldl Found.next {} = {
    sender := (gemmailLines text).findSome? parseSenderLine
    recipients := (gemmailLines text).findSome? parseRecipientsLine
    timestamp := (gemmailLines text).findSome? parseTimestampLine
    bodyLines := remaining (gemmailLines text) } := by
  rw [foldl_next]
  simp only [Option.none_or, List.nil_append, Option.isSome_none]
  rfl

theorem written_parseGemmail (text : Text) : (parseGemmail text).Written := by
  rw [parseGemmail, foldl_gemmailLines]
  refine ⟨?_, ?_, ?_⟩
  · intro s hs
    obtain ⟨line, hline, hparse⟩ := List.exists_of_findSome?_eq_some hs
    obtain ⟨hwritten, hblurb⟩ := written_of_parseSenderLine hparse
    exact ⟨hwritten, fun b hb hlf => (isGemmailLine_of_mem hline).1 (hblurb b hb _ hlf)⟩
  · intro a ha
    simp only [Found.gemmail] at ha
    cases hr : (gemmailLines text).findSome? parseRecipientsLine with
    | none =>
      rw [hr] at ha
      cases ha
    | some r =>
      rw [hr] at ha
      obtain ⟨line, -, hparse⟩ := List.exists_of_findSome?_eq_some hr
      exact written_of_parseRecipientsLine hparse a ha
  · intro t ht
    obtain ⟨line, hline, hparse⟩ := List.exists_of_findSome?_eq_some ht
    obtain ⟨hne, htrim, hmem⟩ := written_of_parseTimestampLine hparse
    exact ⟨hne, htrim, fun hlf => (isGemmailLine_of_mem hline).1 (hmem _ hlf)⟩

/-! ## Re-rendering -/

/-- Fewer lines make another body. -/
theorem joinFields_ne_of_weight {a b : List Text} (h : Text.weight a < Text.weight b)
    (hb : 1 < Text.weight b) :
    Text.joinFields '\n' a ≠ Text.joinFields '\n' b := by
  intro he
  have hlen := congrArg List.length he
  have hbne : b ≠ [] := by
    rintro rfl
    exact absurd hb (by decide)
  have hlb := @Text.length_joinFields '\n' b hbne
  by_cases hane : a = []
  · rw [hane, Text.joinFields, List.length_nil] at hlen
    omega
  · have hla := @Text.length_joinFields '\n' a hane
    omega

theorem weight_eraseP_lt {p : Text → Bool} {lines : List Text} {l : Text} (hl : l ∈ lines)
    (hp : p l = true) : Text.weight (lines.eraseP p) < Text.weight lines := by
  obtain ⟨m, before, after, -, -, hsplit, herase⟩ := List.exists_of_eraseP hl hp
  rw [herase, hsplit]
  simp only [Text.weight, List.map_append, List.map_cons, List.sum_append_nat, List.sum_cons]
  omega

theorem weight_eraseP_le {p : Text → Bool} (lines : List Text) :
    Text.weight (lines.eraseP p) ≤ Text.weight lines := by
  by_cases h : ∃ l ∈ lines, p l = true
  · obtain ⟨l, hl, hp⟩ := h
    exact Nat.le_of_lt (weight_eraseP_lt hl hp)
  · rw [List.eraseP_of_forall_not fun l hl hp => h ⟨l, hl, hp⟩]

/-- A text whose parse can be rendered without loss: if the first recipients line that is taken out
names no one, then no other one remains; and the last of the remaining lines is not blank, or else
there is only this one. -/
structure Rerenderable (text : Text) : Prop where
  recipients : (gemmailLines text).findSome? parseRecipientsLine = some [] →
    ∀ line ∈ remaining (gemmailLines text), parseRecipientsLine line = none
  blank : (remaining (gemmailLines text)).getLast? = some [] →
    remaining (gemmailLines text) = [[]]

section Reparse

variable (text : Text)

/-- The remaining lines, as they are found in the rendered message. -/
def rendered : List Text :=
  if (remaining (gemmailLines text)).getLast? = some []
  then (remaining (gemmailLines text)).dropLast else remaining (gemmailLines text)

theorem rendered_subset {l : Text} (h : l ∈ rendered text) : l ∈ remaining (gemmailLines text) := by
  unfold rendered at h
  split at h
  · exact List.mem_of_mem_dropLast h
  · exact h

theorem parseGemmail_eq : parseGemmail text = {
    sender := (gemmailLines text).findSome? parseSenderLine
    recipients := ((gemmailLines text).findSome? parseRecipientsLine).getD []
    timestamp := (gemmailLines text).findSome? parseTimestampLine
    subject := (remaining (gemmailLines text)).findSome? heading
    body := Text.joinFields '\n' (remaining (gemmailLines text)) } := by
  rw [parseGemmail, foldl_gemmailLines]
  rfl

theorem gemmailLines_toGemtext : gemmailLines (parseGemmail text).toGemtext =
    (parseGemmail text).metadataLines ++ rendered text := by
  have hbody : (parseGemmail text).body =
      Text.joinFields '\n' (remaining (gemmailLines text)) := by
    rw [parseGemmail, foldl_gemmailLines]
    rfl
  have hlines : ∀ l ∈ remaining (gemmailLines text), IsGemmailLine l := fun l hl =>
    isGemmailLine_of_mem ((remaining_sublist _).subset hl)
  rw [MisfinGemmail.toGemtext, gemmailLines_append
    (MisfinGemmail.isGemmailLine_of_mem_metadataLines (written_parseGemmail text)), hbody,
    gemmailLines_joinFields hlines]
  rfl

/-- A line of a kind of which none was found. -/
theorem isLine_eq_false {α : Type} {parse : Text → Option α}
    (h : (gemmailLines text).findSome? parse = none) {l : Text} (hl : l ∈ rendered text) :
    parse l = none :=
  List.findSome?_eq_none_iff.mp h l
    ((remaining_sublist _).subset (rendered_subset text hl))

theorem findSome_rendered {α : Type} (parse : Text → Option α) :
    ((gemmailLines text).findSome? parse).or ((rendered text).findSome? parse) =
      (gemmailLines text).findSome? parse := by
  cases h : (gemmailLines text).findSome? parse with
  | some a => rfl
  | none =>
    rw [Option.none_or, List.findSome?_eq_none_iff]
    exact fun l hl => isLine_eq_false text h hl

/-- Of the rendered body, parsing takes out only a recipients line. -/
theorem without_rendered {α : Type} (parse : Text → Option α) {lines : List Text}
    (hlines : lines.Sublist (rendered text)) :
    without (fun l => (parse l).isSome) ((gemmailLines text).findSome? parse).isSome lines =
      lines := by
  unfold without
  split
  · rfl
  · next h =>
    have hfound : (gemmailLines text).findSome? parse = none := by simpa using h
    apply List.eraseP_of_forall_not
    intro l hl
    have hnone : parse l = none := isLine_eq_false text hfound (hlines.subset hl)
    simp [hnone]

theorem foldl_rendered : (gemmailLines (parseGemmail text).toGemtext).foldl Found.next {} = {
    sender := (parseGemmail text).sender
    recipients := (if (parseGemmail text).recipients.isEmpty then none
      else some (parseGemmail text).recipients).or
        ((rendered text).findSome? parseRecipientsLine)
    timestamp := (parseGemmail text).timestamp
    bodyLines := without isRecipientsLine (!(parseGemmail text).recipients.isEmpty)
      (rendered text) } := by
  have hsender : (parseGemmail text).sender = (gemmailLines text).findSome? parseSenderLine := by
    rw [parseGemmail_eq]
  have htimestamp : (parseGemmail text).timestamp =
      (gemmailLines text).findSome? parseTimestampLine := by
    rw [parseGemmail_eq]
  rw [gemmailLines_toGemtext, List.foldl_append,
    MisfinGemmail.foldl_metadataLines (written_parseGemmail text), foldl_next]
  simp only [hsender, htimestamp, findSome_rendered, List.nil_append, leftOver]
  have hrecipients : (if (parseGemmail text).recipients.isEmpty then none
      else some (parseGemmail text).recipients : Option (List MisfinAddress)).isSome =
        !(parseGemmail text).recipients.isEmpty := by
    split <;> simp_all
  have hsublist : (without isRecipientsLine (!(parseGemmail text).recipients.isEmpty)
      (rendered text)).Sublist (rendered text) := by
    unfold without
    split
    · exact List.Sublist.refl _
    · exact List.eraseP_sublist
  have htime := without_rendered text parseTimestampLine (List.Sublist.refl (rendered text))
  have hsend := without_rendered text parseSenderLine hsublist
  rw [hrecipients]
  unfold isTimestampLine isSenderLine
  rw [htime, hsend]

variable {text}

/-- In a re-renderable text no one is named by the lines that stay, if no one was by the line taken
out. -/
theorem Rerenderable.rendered_recipients (h : Rerenderable text)
    (hempty : (parseGemmail text).recipients = []) :
    ∀ line ∈ rendered text, parseRecipientsLine line = none := by
  intro line hline
  rw [parseGemmail_eq] at hempty
  cases hfound : (gemmailLines text).findSome? parseRecipientsLine with
  | none => exact isLine_eq_false text hfound hline
  | some r =>
    simp only [hfound, Option.getD_some] at hempty
    rw [hempty] at hfound
    exact h.recipients hfound line (rendered_subset text hline)

theorem Rerenderable.bodyLines (h : Rerenderable text) :
    without isRecipientsLine (!(parseGemmail text).recipients.isEmpty) (rendered text) =
      rendered text := by
  unfold without
  split
  · rfl
  · next hempty =>
    have hnone := h.rendered_recipients (by simpa using hempty)
    apply List.eraseP_of_forall_not
    intro line hline
    simp [isRecipientsLine, hnone line hline]

theorem Rerenderable.recipients_eq (h : Rerenderable text) :
    ((if (parseGemmail text).recipients.isEmpty then none
      else some (parseGemmail text).recipients).or
        ((rendered text).findSome? parseRecipientsLine)).getD [] =
      (parseGemmail text).recipients := by
  split
  · next hempty =>
    have hempty : (parseGemmail text).recipients = [] := by simpa using hempty
    rw [Option.none_or, List.findSome?_eq_none_iff.mpr (h.rendered_recipients hempty), hempty]
    rfl
  · rfl

/-- All that a re-renderable text can lose is the only line there is, a blank one. -/
theorem Rerenderable.rendered_eq (h : Rerenderable text) :
    rendered text = remaining (gemmailLines text) ∨
      (rendered text = [] ∧ remaining (gemmailLines text) = [[]]) := by
  unfold rendered
  split
  · next hlast =>
    have hone := h.blank hlast
    exact .inr ⟨by rw [hone]; rfl, hone⟩
  · exact .inl rfl

theorem Rerenderable.parseGemmail_toGemtext (h : Rerenderable text) :
    parseGemmail (parseGemmail text).toGemtext = parseGemmail text := by
  rw [parseGemmail, foldl_rendered]
  simp only [Found.gemmail, h.recipients_eq, h.bodyLines]
  rcases h.rendered_eq with hsame | ⟨hnil, hone⟩
  · rw [hsame, parseGemmail_eq]
  · rw [hnil, parseGemmail_eq, hone]
    rfl

/-- A blank last line is not read back. -/
theorem remaining_of_blank (hlast : (remaining (gemmailLines text)).getLast? = some []) :
    remaining (gemmailLines text) = rendered text ++ [[]] := by
  rw [rendered, if_pos hlast]
  exact (List.dropLast_append_getLast? [] hlast).symm

theorem mem_rendered {line : Text} (hmem : line ∈ remaining (gemmailLines text))
    (hne : line ≠ []) : line ∈ rendered text := by
  by_cases hlast : (remaining (gemmailLines text)).getLast? = some []
  · rw [remaining_of_blank hlast] at hmem
    rcases List.mem_append.mp hmem with hm | hm
    · exact hm
    · exact absurd (List.mem_singleton.mp hm) hne
  · rwa [rendered, if_neg hlast]

/-- The lines that are parsed from the rendered message's body are no more than were rendered. -/
theorem weight_rendered_le :
    Text.weight (rendered text) ≤ Text.weight (remaining (gemmailLines text)) := by
  by_cases hlast : (remaining (gemmailLines text)).getLast? = some []
  · rw [remaining_of_blank hlast, Text.weight_append]
    exact Nat.le_add_right ..
  · rw [rendered, if_neg hlast]

theorem weight_without_le (p : Text → Bool) (taken : Bool) (lines : List Text) :
    Text.weight (without p taken lines) ≤ Text.weight lines := by
  unfold without
  split
  · exact Nat.le_refl _
  · exact weight_eraseP_le lines

theorem body_reparse : (parseGemmail (parseGemmail text).toGemtext).body =
    Text.joinFields '\n' (without isRecipientsLine (!(parseGemmail text).recipients.isEmpty)
      (rendered text)) := by
  rw [parseGemmail, foldl_rendered]
  rfl

/-- **A rendered message parses to itself exactly if the text is re-renderable.** -/
theorem parseGemmail_toGemtext_iff (text : Text) :
    parseGemmail (parseGemmail text).toGemtext = parseGemmail text ↔ Rerenderable text := by
  refine ⟨fun h => ?_, Rerenderable.parseGemmail_toGemtext⟩
  have hbody := congrArg MisfinGemmail.body h
  rw [body_reparse, parseGemmail_eq] at hbody
  simp only at hbody
  have hwithout := weight_without_le isRecipientsLine
    (!(((gemmailLines text).findSome? parseRecipientsLine).getD []).isEmpty) (rendered text)
  have hrendered := @weight_rendered_le text
  constructor
  · -- A recipients line that stayed is taken out of the rendered body.
    intro hfound line hline
    by_contra hsome
    have hne : line ≠ [] := by
      rintro rfl
      exact hsome rfl
    have hlt := weight_eraseP_lt (p := isRecipientsLine) (mem_rendered hline hne)
      (by simpa [isRecipientsLine] using Option.isSome_iff_ne_none.mpr hsome)
    have hpos := Text.weight_pos hline
    have hlength := List.length_pos_of_ne_nil hne
    rw [hfound] at hbody
    exact joinFields_ne_of_weight (Nat.lt_of_lt_of_le hlt hrendered) (by omega) hbody
  · -- A blank last line is not read back.
    intro hlast
    by_contra hmore
    have hsplit := remaining_of_blank hlast
    have hne : rendered text ≠ [] := by
      intro hnil
      rw [hnil] at hsplit
      exact hmore hsplit
    obtain ⟨l, hl⟩ := List.exists_mem_of_ne_nil _ hne
    have hpos := Text.weight_pos hl
    have hweight : Text.weight (remaining (gemmailLines text)) =
        Text.weight (rendered text) + 1 := by
      rw [hsplit, Text.weight_append]
      rfl
    exact joinFields_ne_of_weight (by omega) (by omega) hbody

/-- The blank line at the end of a message is lost. -/
theorem not_parseGemmail_toGemtext :
    ¬ ∀ text, parseGemmail (parseGemmail text).toGemtext = parseGemmail text := by
  intro h
  have hlost := h "a\n\n".toList
  exact absurd hlost (by decide)

end Reparse

end Smolweb.Misfin
