import Smolweb.Nex.Listing
import Smolweb.Nex.Server

/-!
# What a Nex listing offers

A listing names an entry by a link whose URL is a word of the listing, percent-decoded when it is
asked for. `Names` says to which name of a file a word leads; the entry's own link leads to it
exactly if the name is `Plain`, and otherwise only another line of the listing can.
-/

namespace Smolweb

/-! ## Pushing one segment -/

/-- A path only grows by what is pushed. -/
theorem prefix_of_pushSegments {segments : List Text} {resolved path : Bytes}
    (hfree : ∀ segment ∈ segments, '/' ∉ segment)
    (h : pushSegments resolved segments = some path) : resolved <+: path := by
  induction segments generalizing resolved with
  | nil =>
    cases h
    exact List.prefix_refl _
  | cons segment rest ih =>
    have hrest : ∀ s ∈ rest, '/' ∉ s := fun s hs => hfree s (List.mem_cons_of_mem _ hs)
    cases hskip : isSkipped segment with
    | true =>
      rw [pushSegments, if_pos hskip] at h
      exact ih hrest h
    | false =>
      obtain ⟨-, h⟩ := (pushSegments_cons_iff hskip).mp h
      have hhead := head_ne_of_not_mem
        (separator_not_mem_encode (hfree segment List.mem_cons_self))
      apply List.IsPrefix.trans _ (ih hrest h)
      rw [Path.push_eq resolved hhead]
      exact (Path.prefix_below resolved).trans (List.prefix_append _ _)

/-- The first of the segments is followed by a separator, unless it is the only one. -/
theorem prefix_of_pushSegments_cons {segment : Text} {rest : List Text} {resolved path : Bytes}
    (hskip : isSkipped segment = false) (hkept : ∀ s ∈ rest, isSkipped s = false)
    (hrest : rest ≠ []) (hfree : ∀ s ∈ segment :: rest, '/' ∉ s)
    (h : pushSegments resolved (segment :: rest) = some path) :
    Path.push separator resolved (Utf8.encode segment) ++ [separator] <+: path := by
  obtain ⟨next, rest, rfl⟩ := List.exists_cons_of_ne_nil hrest
  obtain ⟨-, h⟩ := (pushSegments_cons_iff hskip).mp h
  obtain ⟨-, h⟩ := (pushSegments_cons_iff (hkept next List.mem_cons_self)).mp h
  have hsegment := separator_not_mem_encode (hfree segment List.mem_cons_self)
  have hnext := separator_not_mem_encode (hfree next (by simp))
  have hne : Utf8.encode segment ≠ [] := by
    intro hnil
    rw [Utf8.encode_injective (hnil.trans Utf8.encode_nil.symm)] at hskip
    cases hskip
  have hpath := prefix_of_pushSegments (fun s hs => hfree s (by simp [hs])) h
  rw [Path.push_eq _ (head_ne_of_not_mem hnext), Path.push_eq _ (head_ne_of_not_mem hsegment)]
    at hpath
  rw [Path.push_eq _ (head_ne_of_not_mem hsegment)]
  have hlast : (Path.below separator resolved ++ Utf8.encode segment).getLast? ≠
      some separator := by
    rw [List.getLast?_append_of_ne_nil _ hne]
    exact fun hl => hsegment (List.mem_of_getLast? hl)
  rw [Path.below_eq (by simp [hne]) hlast] at hpath
  exact (List.prefix_append _ _).trans hpath

/-- Segments lead to a file of a directory if all but its name is passed over. -/
theorem pushSegments_eq_push_iff {segments : List Text} {dir : Bytes} (name : FileName)
    (hfree : ∀ segment ∈ segments, '/' ∉ segment) :
    pushSegments dir segments = some (Path.push separator dir name.bytes) ↔
      ∃ t, kept segments = [t] ∧ name.bytes = Utf8.encode t ∧ Pushable t := by
  have hname := head_ne_of_not_mem name.separator_not_mem
  have hkept : ∀ s ∈ kept segments, isSkipped s = false ∧ '/' ∉ s := fun s hs => by
    obtain ⟨hmem, hskip⟩ := List.mem_filter.mp hs
    exact ⟨by simpa using hskip, hfree s hmem⟩
  rw [← pushSegments_kept]
  generalize kept segments = ks at hkept ⊢
  constructor
  · intro h
    match ks with
    | [] =>
      rw [pushSegments, Path.push_eq dir hname, Option.some_inj] at h
      have hbelow : dir <+: Path.below separator dir := Path.prefix_below dir
      have hlength := hbelow.length_le
      have hpos := List.length_pos_of_ne_nil name.ne_nil
      have := congrArg List.length h
      rw [List.length_append] at this
      omega
    | [t] =>
      obtain ⟨hskip, ht⟩ := hkept t List.mem_cons_self
      obtain ⟨hpushable, h⟩ := (pushSegments_cons_iff hskip).mp h
      rw [pushSegments, Option.some_inj,
        Path.push_inj dir (head_ne_of_not_mem (separator_not_mem_encode ht)) hname] at h
      exact ⟨t, rfl, h.symm, hpushable⟩
    | t :: u :: rest =>
      obtain ⟨hskip, ht⟩ := hkept t List.mem_cons_self
      have hbelow := prefix_of_pushSegments_cons hskip
        (fun s hs => (hkept s (List.mem_cons_of_mem _ hs)).1) (List.cons_ne_nil u rest)
        (fun s hs => (hkept s hs).2) h
      rw [Path.push_eq dir (head_ne_of_not_mem (separator_not_mem_encode ht)),
        Path.push_eq dir hname, List.append_assoc, List.prefix_append_right_inj] at hbelow
      exact absurd (hbelow.subset (by simp)) name.separator_not_mem
  · rintro ⟨t, rfl, hbytes, hpushable⟩
    obtain ⟨hskip, ht⟩ := hkept t List.mem_cons_self
    rw [pushSegments_cons_iff hskip, hbytes]
    exact ⟨hpushable, rfl⟩

end Smolweb

namespace Smolweb.Nex

/-! ## Words -/

/-- To what name of a file a word leads, as a part of a request path behind a directory. -/
def Names (word t : Text) : Prop :=
  ∃ v, Utf8.decode (Percent.decode word) = some v ∧ kept (v.splitOn '/') = [t]

namespace FileHandler

variable {handler : FileHandler} {selector : Text} {dir : Bytes}

/-- What stands behind a directory's selector is resolved below the directory. -/
theorem resolve_append (hselector : selector.getLast? = some '/')
    (hdir : handler.resolve Percent.decode selector = some dir) (u : Text) :
    handler.resolve Percent.decode (selector ++ u) = (Utf8.decode (Percent.decode u)).bind fun v =>
      pushSegments dir (v.splitOn '/') := by
  obtain ⟨s, rfl⟩ : ∃ s, selector = s ++ ['/'] :=
    ⟨selector.dropLast, (List.dropLast_append_getLast? '/' hselector).symm⟩
  obtain ⟨w, hw, hpush⟩ := Option.bind_eq_some_iff.mp hdir
  rw [decode_append_slash] at hw
  have hconcat := Utf8.decode_concat_ascii (c := '/') (by decide) (Percent.decode s)
  rw [show Percent.decode s ++ separator :: Percent.decode [] =
    Percent.decode s ++ [UInt8.ofNat '/'.toNat] from rfl, hconcat] at hw
  obtain ⟨d, hd, rfl⟩ := Option.map_eq_some_iff.mp hw
  rw [List.splitOn_append_cons_self, List.splitOn_nil, pushSegments_append] at hpush
  obtain ⟨path, hpath, hlast⟩ := Option.bind_eq_some_iff.mp hpush
  rw [pushSegments, if_pos (by decide), pushSegments] at hlast
  obtain rfl := Option.some_inj.mp hlast
  have hdecode : Utf8.decode (Percent.decode (s ++ ['/'] ++ u)) =
      (Utf8.decode (Percent.decode u)).map (d ++ ['/'] ++ ·) := by
    rw [List.append_assoc, List.singleton_append, decode_append_slash,
      ← Utf8.encode_of_decode hd, ← Utf8.decode_encode_append, Utf8.encode_append]
    simp [Utf8.encodeChar_ascii, separator]
  rw [resolve, hdecode]
  cases Utf8.decode (Percent.decode u) with
  | none => rfl
  | some v =>
    simp only [Option.map_some, Option.bind_some, bind]
    rw [List.append_assoc, List.singleton_append, List.splitOn_append_cons_self,
      pushSegments_append, hpath, Option.bind_some]

/-- A link leads to a file exactly if its word names the file. -/
theorem resolve_append_iff {percentDecode : Text → Bytes} (hdecode : Percent.Decodes percentDecode)
    (hselector : selector.getLast? = some '/')
    (hdir : handler.resolve percentDecode selector = some dir) (name : FileName) (u : Text) :
    handler.resolve percentDecode (selector ++ u) = some (Path.push separator dir name.bytes) ↔
      ∃ t, Names u t ∧ name.bytes = Utf8.encode t ∧ Pushable t := by
  obtain rfl := hdecode.eq
  rw [resolve_append hselector hdir]
  unfold Names
  cases Utf8.decode (Percent.decode u) with
  | none => simp
  | some v =>
    rw [Option.bind_some, pushSegments_eq_push_iff name fun s hs => Text.not_mem_of_mem_splitOn hs]
    simp

end FileHandler

variable {w t : Text}

theorem not_names_nil : ¬ Names [] t := by
  rintro ⟨v, hv, hkept⟩
  have hnil : Utf8.decode (Percent.decode []) = some [] := Utf8.decode_encode []
  rw [hnil] at hv
  obtain rfl := Option.some_inj.mp hv
  cases hkept

theorem names_concat_slash : Names (w ++ ['/']) t ↔ Names w t := by
  have hdecode : Utf8.decode (Percent.decode (w ++ ['/'])) =
      (Utf8.decode (Percent.decode w)).map (· ++ ['/']) := by
    rw [decode_append_slash]
    exact Utf8.decode_concat_ascii (c := '/') (by decide) _
  have hkept (v : Text) : kept ((v ++ ['/']).splitOn '/') = kept (v.splitOn '/') := by
    rw [List.splitOn_append_cons_self, List.splitOn_nil, kept, List.filter_append]
    exact List.append_nil _
  unfold Names
  rw [hdecode]
  cases Utf8.decode (Percent.decode w) with
  | none => simp
  | some v => simp [hkept]

/-- A word that leads to a name is no shorter, and no longer only if it is the name's own bytes. -/
theorem Names.decode_eq (h : Names w t)
    (hlength : (Percent.decode w).length ≤ (Utf8.encode t).length) :
    Percent.decode w = Utf8.encode t := by
  obtain ⟨v, hv, hkept⟩ := h
  have hmem : t ∈ v.splitOn '/' := by
    apply List.mem_of_mem_filter
    change t ∈ kept (v.splitOn '/')
    rw [hkept]
    exact List.mem_singleton_self t
  have hsub := Utf8.encode_sublist (Text.sublist_of_mem_splitOn hmem)
  rw [Utf8.encode_of_decode hv] at hsub
  exact (hsub.eq_of_length_le hlength).symm

theorem names_self {name : FileName} (hname : name.bytes = Utf8.encode t)
    (hdecode : Percent.decode t = Utf8.encode t) : Names t t := by
  refine ⟨t, by rw [hdecode, Utf8.decode_encode], ?_⟩
  have hslash : '/' ∉ t := by
    intro hm
    apply name.separator_not_mem
    rw [hname]
    exact (Utf8.mem_encode_ascii (c := '/') (by decide)).mpr hm
  rw [List.splitOn_eq_singleton hslash, kept]
  have hskip : isSkipped t = false := by
    unfold isSkipped
    rw [Bool.or_eq_false_iff, beq_eq_false_iff_ne, beq_eq_false_iff_ne]
    constructor
    · rintro rfl
      exact name.ne_nil hname
    · rintro rfl
      exact name.ne_dot hname
  simp [hskip]

/-- A name that a listing's word is read back as: without whitespace, and without a percent sign
that two hex digits follow. -/
structure Plain (t : Text) : Prop where
  noSpace : ∀ c ∈ t, Text.isWhitespace c = false
  noEscape : Percent.decode t = Utf8.encode t

namespace FileHandler

/-- The word of an entry's own link. -/
def entryWord (entry : DirEntry) : Text := Text.firstWord (listedName entry)

/-- **An entry's own link leads to it exactly if its name is plain.** -/
theorem names_entryWord_iff {entry : DirEntry} (hname : entry.name.bytes = Utf8.encode t) :
    Names (entryWord entry) t ↔ Plain t := by
  have hlisted : listedName entry = t ++ if entry.isDir then ['/'] else [] := by
    rw [listedName, hname, Utf8.decodeLossy_encode]
  have hword : Names (entryWord entry) t ↔ Names (Text.firstWord t) t := by
    rw [entryWord, hlisted]
    split
    · rcases Text.firstWord_concat (c := '/') (by decide) t with h | h
      · rw [h]
      · rw [h, names_concat_slash]
    · rw [List.append_nil]
  rw [hword]
  constructor
  · intro h
    have hsub := Utf8.encode_sublist (Text.firstWord_sublist t)
    have hlength := Percent.length_decodeBytes_le (Utf8.encode (Text.firstWord t))
    have hdecode := h.decode_eq (hlength.trans hsub.length_le)
    have hself : Text.firstWord t = t := by
      apply Utf8.encode_injective
      apply hsub.eq_of_length_le
      rw [← hdecode]
      exact hlength
    rw [hself] at hdecode
    exact ⟨Text.firstWord_eq_self_iff.mp hself, hdecode⟩
  · intro h
    rw [Text.firstWord_eq_self_iff.mpr h.noSpace]
    exact names_self hname h.noEscape

end FileHandler

/-! ## The links of a listing -/

/-- The word of a line that may be a link. -/
def linkWord (line : Text) : Option Text :=
  (Text.stripPrefix "=> ".toList line).map Text.firstWord

theorem isWhitespace_cr (c : Char) (h : (c == '\r') = true) : Text.isWhitespace c = true := by
  rw [beq_iff_eq] at h
  rw [h]
  decide

/-- The links of a line: its word, unless that is empty. -/
theorem exists_parseLine_iff (line : Text) (u : Text) :
    (∃ label, parseLine line = .link u label) ↔ linkWord line = some u ∧ u ≠ [] := by
  have hstrip : Text.stripPrefix "=> ".toList (Text.trimEndMatches (· == '\r') line) =
      (Text.stripPrefix "=> ".toList line).map (Text.trimEndMatches (· == '\r')) :=
    @Text.stripPrefix_trimEndMatches _ ['=', '>'] ' ' (by decide) line
  unfold parseLine linkWord
  simp only [hstrip]
  cases Text.stripPrefix "=> ".toList line with
  | none => simp
  | some rest =>
    rw [Option.map_some, Option.map_some, ← Text.firstWord_trimEndMatches isWhitespace_cr rest]
    generalize Text.trimEndMatches (· == '\r') rest = rest
    simp only [List.isEmpty_iff, ← Text.firstWord_eq_nil_iff, Option.some_inj]
    by_cases hnil : Text.firstWord rest = []
    · rw [if_pos hnil, hnil]
      simp [eq_comm]
    · rw [if_neg hnil]
      have hlink (label : Option Text) : (∃ label', ListingLine.link (Text.firstWord rest) label =
          .link u label') ↔ Text.firstWord rest = u ∧ u ≠ [] := by
        constructor
        · rintro ⟨label', h⟩
          cases h
          exact ⟨rfl, hnil⟩
        · rintro ⟨rfl, -⟩
          exact ⟨label, rfl⟩
      split
      · exact hlink _
      · next hdrop =>
        have hself : Text.firstWord rest = Text.trimStart rest :=
          (List.takeWhile_prefix _).eq_of_length_le (List.drop_eq_nil_iff.mp hdrop)
        rw [← hself]
        exact hlink none

/-- One CR that ends a line is no part of it. -/
theorem parseLine_stripCr (line : Text) : parseLine (Text.stripCr line) = parseLine line := by
  unfold parseLine
  rw [Text.trimEndMatches_stripCr]

theorem lines_names {names : List Text} (h : ∀ name ∈ names, '\n' ∉ name) :
    Text.lines (names.flatMap fun name => "=> ".toList ++ name ++ ['\n']) =
      names.map fun name => Text.stripCr ("=> ".toList ++ name) := by
  induction names with
  | nil => rfl
  | cons name names ih =>
    have hline : '\n' ∉ "=> ".toList ++ name := by
      rw [List.mem_append, not_or]
      exact ⟨by decide, h name List.mem_cons_self⟩
    rw [List.flatMap_cons, List.append_assoc, List.singleton_append, Text.lines_append_lf hline,
      ih fun n hn => h n (List.mem_cons_of_mem name hn), List.map_cons]

namespace FileHandler

variable {fs : FileSystem} {dir : Bytes} {selector : Text}

/-- The words of what a listing starts with, the selector and a blank line. -/
def selectorWords (selector : Text) : List Text :=
  (Text.lines (selector ++ "\n\n".toList)).filterMap linkWord

theorem lf_not_mem_listedName {entry : DirEntry} (h : 0x0A ∉ entry.name.bytes) :
    '\n' ∉ listedName entry := by
  rw [listedName, List.mem_append, not_or]
  refine ⟨fun hm => h (Utf8.mem_decodeLossy_ascii (by decide) hm), ?_⟩
  split
  · decide
  · exact List.not_mem_nil

theorem parseListing_listingFor (hnames : ∀ entry ∈ fs.readDir dir, 0x0A ∉ entry.name.bytes) :
    parseListing (listingFor fs dir selector) =
      (Text.lines (selector ++ "\n\n".toList)).map parseLine ++
        (((fs.readDir dir).map listedName).mergeSort fun a b => decide (a ≤ b)).map fun name =>
          parseLine ("=> ".toList ++ name) := by
  have hlf : ∀ name ∈ ((fs.readDir dir).map listedName).mergeSort fun a b => decide (a ≤ b),
      '\n' ∉ name := by
    intro name hname
    obtain ⟨entry, hentry, rfl⟩ := List.mem_map.mp (List.mem_mergeSort.mp hname)
    exact lf_not_mem_listedName (hnames entry hentry)
  have hsplit (rest : Text) : selector ++ "\n\n".toList ++ rest =
      (selector ++ ['\n']) ++ '\n' :: rest := by simp
  have hhead : selector ++ "\n\n".toList = (selector ++ ['\n']) ++ ['\n'] := by simp
  unfold parseListing listingFor
  simp only
  rw [hsplit, Text.lines_append, ← hhead, lines_names hlf, List.map_append, List.map_map]
  congr 1
  exact List.map_congr_left fun name _ => parseLine_stripCr _

/-- The links of a listing: the words of its entries, and those of its head. -/
theorem exists_link_iff (hnames : ∀ entry ∈ fs.readDir dir, 0x0A ∉ entry.name.bytes) (u : Text) :
    (∃ label, .link u label ∈ parseListing (listingFor fs dir selector)) ↔ u ≠ [] ∧
      (u ∈ selectorWords selector ∨ ∃ entry ∈ fs.readDir dir, entryWord entry = u) := by
  have hword (name : Text) : linkWord ("=> ".toList ++ name) = some (Text.firstWord name) := by
    rw [linkWord, Text.stripPrefix_append, Option.map_some]
  rw [parseListing_listingFor hnames]
  simp only [List.mem_append, List.mem_map, List.mem_mergeSort, selectorWords,
    List.mem_filterMap]
  constructor
  · rintro ⟨label, ⟨line, hline, hlink⟩ | ⟨name, ⟨entry, hentry, rfl⟩, hlink⟩⟩
    · obtain ⟨hu, hne⟩ := (exists_parseLine_iff line u).mp ⟨label, hlink⟩
      exact ⟨hne, .inl ⟨line, hline, hu⟩⟩
    · obtain ⟨hu, hne⟩ := (exists_parseLine_iff _ u).mp ⟨label, hlink⟩
      rw [hword] at hu
      exact ⟨hne, .inr ⟨entry, hentry, Option.some_inj.mp hu⟩⟩
  · rintro ⟨hne, ⟨line, hline, hu⟩ | ⟨entry, hentry, hu⟩⟩
    · obtain ⟨label, hlink⟩ := (exists_parseLine_iff line u).mpr ⟨hu, hne⟩
      exact ⟨label, .inl ⟨line, hline, hlink⟩⟩
    · obtain ⟨label, hlink⟩ := (exists_parseLine_iff ("=> ".toList ++ listedName entry) u).mpr
        ⟨by rw [hword]; exact congrArg some hu, hne⟩
      exact ⟨label, .inr ⟨listedName entry, ⟨entry, hentry, rfl⟩, hlink⟩⟩

/-! ## What a listing offers -/

variable {percentDecode : Text → Bytes} {handler : FileHandler}

/-- Every entry of a directory has a link in the answer that leads to the entry's path. -/
def Offers (percentDecode : Text → Bytes) (handler : FileHandler) (fs : FileSystem)
    (selector : Text) (dir : Bytes) : Prop :=
  ∃ listing, Utf8.decode (handler.handle percentDecode fs selector) = some listing ∧
    ∀ entry ∈ fs.readDir dir, ∃ u label, .link u label ∈ parseListing listing ∧
      handler.resolve percentDecode (selector ++ u) =
        some (Path.push separator dir entry.name.bytes)

/-- An entry that can be fetched: its name is text that a request path may hold, and it is plain or
some word elsewhere in the listing leads to it. -/
structure Fetchable (selector : Text) (entries : List DirEntry) (entry : DirEntry) (t : Text) :
    Prop where
  name : entry.name.bytes = Utf8.encode t
  backslash : '\\' ∉ t
  colon : ':' ∉ t
  word : Plain t ∨ (∃ other ∈ entries, other.name.bytes ≠ entry.name.bytes ∧
    Names (entryWord other) t) ∨ ∃ word ∈ selectorWords selector, Names word t

theorem handle_listing (hselector : selector.getLast? = some '/')
    (hdir : handler.resolve percentDecode selector = some dir)
    (hindex : fs.read (Path.push separator dir (Utf8.encode "index.nex".toList)) = none) :
    handler.handle percentDecode fs selector = Utf8.encode (listingFor fs dir selector) := by
  have hempty : selector.isEmpty = false := by
    cases selector with
    | nil => cases hselector
    | cons => rfl
  have hdirectory : isDirectoryPath selector = true := by
    rw [isDirectoryPath, hempty, hselector]
    rfl
  rw [handle, hdir]
  simp only [hdirectory, Bool.true_or, if_true, hindex, hempty, Bool.false_eq_true, if_false]

theorem offers_iff (hdecode : Percent.Decodes percentDecode)
    (hselector : selector.getLast? = some '/')
    (hdir : handler.resolve percentDecode selector = some dir)
    (hindex : fs.read (Path.push separator dir (Utf8.encode "index.nex".toList)) = none)
    (hnames : ∀ entry ∈ fs.readDir dir, 0x0A ∉ entry.name.bytes) :
    handler.Offers percentDecode fs selector dir ↔ ∀ entry ∈ fs.readDir dir, ∃ u, (u ≠ [] ∧
      (u ∈ selectorWords selector ∨ ∃ other ∈ fs.readDir dir, entryWord other = u)) ∧
        ∃ t, Names u t ∧ entry.name.bytes = Utf8.encode t ∧ Pushable t := by
  unfold Offers
  rw [handle_listing hselector hdir hindex, Utf8.decode_encode]
  simp only [Option.some_inj, exists_eq_left', exists_and_right, exists_link_iff hnames,
    resolve_append_iff hdecode hselector hdir]

/-- **A listing offers every entry exactly if every entry is fetchable.** -/
theorem offers_iff_fetchable (hdecode : Percent.Decodes percentDecode)
    (hselector : selector.getLast? = some '/')
    (hdir : handler.resolve percentDecode selector = some dir)
    (hindex : fs.read (Path.push separator dir (Utf8.encode "index.nex".toList)) = none)
    (hnames : ∀ entry ∈ fs.readDir dir, 0x0A ∉ entry.name.bytes) :
    handler.Offers percentDecode fs selector dir ↔
      ∀ entry ∈ fs.readDir dir, ∃ t, Fetchable selector (fs.readDir dir) entry t := by
  rw [offers_iff hdecode hselector hdir hindex hnames]
  refine forall₂_congr fun entry hentry => ?_
  constructor
  · rintro ⟨u, ⟨-, hu⟩, t, hword, hname, -, hbackslash, hcolon⟩
    refine ⟨t, hname, hbackslash, hcolon, ?_⟩
    rcases hu with hu | ⟨other, hother, rfl⟩
    · exact .inr (.inr ⟨u, hu, hword⟩)
    · by_cases hsame : other.name.bytes = entry.name.bytes
      · exact .inl ((names_entryWord_iff (hsame.trans hname)).mp hword)
      · exact .inr (.inl ⟨other, hother, hsame, hword⟩)
  · rintro ⟨t, hname, hbackslash, hcolon, hword⟩
    have hdots : t ≠ ['.', '.'] := by
      rintro rfl
      exact entry.name.ne_dotDot hname
    have hlink : ∃ u, (u ∈ selectorWords selector ∨ ∃ other ∈ fs.readDir dir,
        entryWord other = u) ∧ Names u t := by
      rcases hword with hplain | ⟨other, hother, -, hword⟩ | ⟨u, hu, hword⟩
      · exact ⟨_, .inr ⟨entry, hentry, rfl⟩, (names_entryWord_iff hname).mpr hplain⟩
      · exact ⟨_, .inr ⟨other, hother, rfl⟩, hword⟩
      · exact ⟨u, .inl hu, hword⟩
    obtain ⟨u, hu, hnames⟩ := hlink
    refine ⟨u, ⟨?_, hu⟩, t, hnames, hname, hdots, hbackslash, hcolon⟩
    rintro rfl
    exact not_names_nil hnames

theorem resolve_sample : resolve Percent.decode ⟨Utf8.encode "/srv".toList⟩ ['/'] =
    some (Utf8.encode "/srv".toList) := by
  have hdecode : Utf8.decode (Percent.decode ['/']) = some ['/'] := by
    rw [Percent.decode_of_not_mem (by decide), Utf8.decode_encode]
  rw [resolve, hdecode]
  rfl

/-- A directory of one file. -/
def sampleFiles (name : FileName) : FileSystem where
  read _ := none
  isDir _ := false
  readDir _ := [⟨name, false⟩]

def plainName : FileName where
  bytes := [0x61, 0x2E, 0x62]
  ne_nil := by decide
  ne_dot := by decide
  ne_dotDot := by decide
  separator_not_mem := by decide
  nul_not_mem := by decide

def spacedName : FileName where
  bytes := [0x61, 0x20, 0x62]
  ne_nil := by decide
  ne_dot := by decide
  ne_dotDot := by decide
  separator_not_mem := by decide
  nul_not_mem := by decide

theorem offers_sample : Offers Percent.decode ⟨Utf8.encode "/srv".toList⟩ (sampleFiles plainName)
    ['/'] (Utf8.encode "/srv".toList) := by
  refine (offers_iff_fetchable Percent.decodes_decode rfl resolve_sample rfl ?_).mpr ?_
  · simp only [sampleFiles, List.forall_mem_singleton]
    decide
  · simp only [sampleFiles, List.forall_mem_singleton]
    refine ⟨"a.b".toList, by decide, by decide, by decide, .inl ⟨?_, ?_⟩⟩
    · exact Text.firstWord_eq_self_iff.mp (by decide)
    · exact Percent.decode_of_not_mem (by decide)

/-- A name with a space in it is cut off at the space. -/
theorem not_offers : ¬ ∀ (percentDecode : Text → Bytes) (handler : FileHandler) (fs : FileSystem)
    (selector : Text) (dir : Bytes), Percent.Decodes percentDecode →
    selector.getLast? = some '/' → handler.resolve percentDecode selector = some dir →
    fs.read (Path.push separator dir (Utf8.encode "index.nex".toList)) = none →
    (∀ entry ∈ fs.readDir dir, 0x0A ∉ entry.name.bytes) →
    handler.Offers percentDecode fs selector dir := by
  intro hall
  have hnames : ∀ entry ∈ (sampleFiles spacedName).readDir (Utf8.encode "/srv".toList),
      0x0A ∉ entry.name.bytes := by
    simp only [sampleFiles, List.forall_mem_singleton]
    decide
  have hoffers := hall Percent.decode ⟨Utf8.encode "/srv".toList⟩ (sampleFiles spacedName) ['/'] _
    Percent.decodes_decode rfl resolve_sample rfl hnames
  rw [offers_iff Percent.decodes_decode rfl resolve_sample rfl hnames] at hoffers
  simp only [sampleFiles, List.mem_singleton, exists_eq_left, forall_eq] at hoffers
  obtain ⟨u, ⟨-, hu⟩, t, hword, hname, -⟩ := hoffers
  have hselector : selectorWords ['/'] = [] := by decide
  rw [hselector] at hu
  have hu := hu.resolve_left List.not_mem_nil
  rw [← hu, names_entryWord_iff hname] at hword
  have ht : t = "a b".toList := Utf8.encode_injective (hname.symm.trans (by decide))
  rw [ht] at hword
  exact absurd (hword.noSpace ' ' (by decide)) (by decide)

end FileHandler

end Smolweb.Nex
