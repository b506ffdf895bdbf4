import Smolweb.Fsp.Transfer
import Smolweb.Fsp.Verify.Directory
import Smolweb.Fsp.Verify.Matching
import Smolweb.Fsp.Verify.RoundTrip
import Smolweb.Lib.Transfer

/-!
# Whole files and whole directories

`get_file` takes the first block of less than 1024 bytes for the last, and `list` the first block
without entries. What they return is what the server holds iff no such block is followed by one that
counts (`getFile_whole_iff`, `list_whole_iff`).
-/

namespace Smolweb.Fsp

/-- What `get_file` asks for the blocks of a file. -/
def fileSource (net : Network) (path : Text) : Source Link ClientError UInt8 :=
  fun offset l => l.getFileBlock net path (UInt32.ofNat offset)

/-- What `list` asks for the blocks of a directory. -/
def dirSource (net : Network) (path : Text) : Source Link ClientError UInt8 :=
  fun offset l => l.requestData net .getDir path (UInt32.ofNat offset)

/-- The entries that `parse_directory` reports of a block. -/
def entriesOf (block : Bytes) : List DirEntry := (parseDirectory block).getD []

theorem parseDirectory_eq (block : Bytes) : parseDirectory block = some (entriesOf block) := by
  obtain ⟨entries, h⟩ := Option.isSome_iff_exists.mp
    (walk_isSome block (block.length + 1) 0 (Nat.succ_pos _) (Nat.lt_succ_self _))
  rw [entriesOf, show parseDirectory block = some entries from h]
  rfl

/-- What `get_file` takes for the last block. -/
def Short (block : Bytes) : Prop := block.length < maxPayload

instance : DecidablePred Short := fun _ => inferInstanceAs (Decidable (_ < _))

/-- What `list` takes for the last block: nothing in it is reported. -/
def Barren (block : Bytes) : Prop := entriesOf block = []

instance : DecidablePred Barren := fun _ => inferInstanceAs (Decidable (_ = _))

/-! ## The loops -/

section

variable {o : Overflow} {net : Network} {path : Text} {offset fuel : Nat} {l l' : Link}

theorem getFileLoop_done {body : Bytes} (h : fileSource net path body.length l = (.ok [], l')) :
    Link.getFileLoop net path (fuel + 1) body l = some (.ok body, l') := by
  rw [fileSource] at h
  rw [Link.getFileLoop, h]
  rfl

theorem getFileLoop_block {body b : Bytes} (h : fileSource net path body.length l = (.ok b, l'))
    (hb : b ≠ []) :
    Link.getFileLoop net path (fuel + 1) body l =
      if Short b then some (.ok (body ++ b), l')
      else Link.getFileLoop net path fuel (body ++ b) l' := by
  rw [fileSource] at h
  rw [Link.getFileLoop, h]
  by_cases hshort : Short b
  · simp [hb, hshort, show b.length < maxPayload from hshort]
  · simp [hb, hshort, show ¬b.length < maxPayload from hshort]

theorem listLoop_done {entries : List DirEntry} (h : dirSource net path offset l = (.ok [], l')) :
    Link.listLoop o net path (fuel + 1) entries offset l = some (.ok entries, l') := by
  rw [dirSource] at h
  rw [Link.listLoop, h]
  rfl

theorem listLoop_block {entries : List DirEntry} {b : Bytes}
    (h : dirSource net path offset l = (.ok b, l')) (hb : b ≠ [])
    (htotal : offset + b.length < 4294967296) :
    Link.listLoop o net path (fuel + 1) entries offset l =
      if Barren b then some (.ok (entries ++ entriesOf b), l')
      else Link.listLoop o net path fuel (entries ++ entriesOf b) (offset + b.length) l' := by
  have hadd : o.add Link.maxU32 offset (UInt32.ofNat b.length).toNat =
      some (offset + b.length) := by
    rw [UInt32.toNat_ofNat', Nat.mod_eq_of_lt (by omega)]
    exact o.add_of_le (by rw [Link.maxU32]; omega)
  rw [dirSource] at h
  rw [Link.listLoop, h]
  by_cases hbarren : Barren b
  · simp [hb, hbarren, parseDirectory_eq, show entriesOf b = [] from hbarren]
  · simp only [parseDirectory_eq, hadd, Option.bind_eq_bind, Option.bind_some, hbarren, if_false,
      List.isEmpty_iff, hb, show ¬entriesOf b = [] from hbarren]

/-- **What `get_file` returns**: the blocks up to the first short one. -/
theorem getFileLoop_returns {blocks : List Bytes}
    (h : (fileSource net path).Serves offset l blocks) {body : Bytes}
    (hbody : body.length = offset) :
    ∃ l', Returns (fun fuel => Link.getFileLoop net path fuel body l)
      (.ok (body ++ (upTo Short blocks).flatten), l') := by
  induction h generalizing body with
  | @done offset l l' h =>
    subst hbody
    refine ⟨l', .of_turn fun fuel => ?_⟩
    rw [getFileLoop_done h, upTo, List.flatten_nil, List.append_nil]
  | @block offset l l' b bs hb h later ih =>
    subst hbody
    by_cases hshort : Short b
    · refine ⟨l', .of_turn fun fuel => ?_⟩
      rw [getFileLoop_block h hb, if_pos hshort, upTo_cons_of_stop hshort, List.flatten_singleton]
    · obtain ⟨l'', hl''⟩ := @ih (body ++ b) List.length_append
      rw [upTo_cons_of_not hshort, List.flatten_cons, ← List.append_assoc]
      refine ⟨l'', .of_later (fun fuel => ?_) hl''⟩
      rw [getFileLoop_block h hb, if_neg hshort]

/-- **What `list` returns**: the entries of the blocks up to the first without any. -/
theorem listLoop_returns {blocks : List Bytes} (h : (dirSource net path).Serves offset l blocks)
    (htotal : offset + blocks.flatten.length < 4294967296) (entries : List DirEntry) :
    ∃ l', Returns (fun fuel => Link.listLoop o net path fuel entries offset l)
      (.ok (entries ++ (upTo Barren blocks).flatMap entriesOf), l') := by
  induction h generalizing entries with
  | @done offset l l' h =>
    refine ⟨l', .of_turn fun fuel => ?_⟩
    rw [listLoop_done h, upTo, List.flatMap_nil, List.append_nil]
  | @block offset l l' b bs hb h later ih =>
    rw [List.flatten_cons, List.length_append] at htotal
    by_cases hbarren : Barren b
    · refine ⟨l', .of_turn fun fuel => ?_⟩
      rw [listLoop_block h hb (by omega), if_pos hbarren, upTo_cons_of_stop hbarren,
        List.flatMap_singleton]
    · obtain ⟨l'', hl''⟩ := ih (by omega) (entries ++ entriesOf b)
      rw [upTo_cons_of_not hbarren, List.flatMap_cons, ← List.append_assoc]
      refine ⟨l'', .of_later (fun fuel => ?_) hl''⟩
      rw [listLoop_block h hb (by omega), if_neg hbarren]

end

/-! ## A server that answers at once -/

def answer (asked : Header) (data : Bytes) : Packet where
  header := { asked with dataLength := UInt16.ofNat data.length }
  data := data
  extra := []

/-- A network that loses nothing, and behind it a server with a block for every offset. -/
def prompt (blockAt : Nat → Bytes) : Network := fun sent _ =>
  match sent.getLast?.map (decode · .clientToServer) with
  | some (.ok asked) =>
    let reply := answer asked.header (blockAt asked.header.filePosition.toNat)
    ⟨none, [.datagram ⟨none, encode reply .serverToClient⟩]⟩
  | _ => ⟨none, []⟩

section

variable {blockAt : Nat → Bytes} {l : Link}

theorem decode_answer (asked : Header) {data : Bytes} (h : data.length ≤ maxPayload * 2) :
    decode (received ⟨none, encode (answer asked data) .serverToClient⟩) .serverToClient =
      .ok (answer asked data) := by
  have hmax : maxPayload * 2 = 2048 := rfl
  rw [received, List.take_of_length_le]
  · apply decode_encode
    show (UInt16.ofNat data.length).toNat = data.length
    rw [UInt16.toNat_ofNat']
    omega
  · simp only [length_encode, answer, List.length_nil, Nat.add_zero]
    omega

theorem prompt_requestData (hattempts : 0 < l.session.attempts) {command : Command}
    (hcommand : command.code ≠ Command.err.code) (path : Text) {position : UInt32}
    (hdata : (blockAt position.toNat).length ≤ maxPayload * 2) :
    ∃ l', l.requestData (prompt blockAt) command path position =
        (.ok (blockAt position.toNat), l') ∧ l'.session.attempts = l.session.attempts := by
  obtain ⟨n, hn⟩ := Nat.exists_eq_add_of_lt hattempts
  let call : Call := ⟨command, nulTerminated path, position⟩
  obtain ⟨asked, hdec, hheader⟩ := decode_outgoing l.session call
  have hreply := decode_answer asked.header hdata
  have hexchange : l.session.exchange
      (prompt blockAt (l.sent ++ [encode (l.session.outgoing call) .clientToServer])) =
        .ok (some (answer asked.header (blockAt position.toNat))) := by
    have hposition : asked.header.filePosition = position := by rw [hheader]; rfl
    have hsequence : (answer asked.header (blockAt position.toNat)).header.sequence =
        l.session.nextSequence := by
      show asked.header.sequence = l.session.nextSequence
      rw [hheader]
      rfl
    rw [Session.exchange, hn, Nat.zero_add, attemptLoop]
    simp only [prompt, List.getLast?_concat, Option.map_some, hdec, hposition, awaitReply, hreply,
      hsequence, if_true]
  have hcode : (answer asked.header (blockAt position.toNat)).header.command ≠
      Command.err.code := by
    show asked.header.command ≠ Command.err.code
    rw [hheader]
    exact hcommand
  refine ⟨(l.request (prompt blockAt) call).2, ?_, ?_⟩
  · simp only [Link.requestData, Link.request, Session.request, hexchange, call, if_neg hcode]
    rfl
  · simp only [Link.request, Session.request, hexchange, if_neg hcode]

/-- What the server answers to a request for a block. -/
theorem prompt_ask (hattempts : 0 < l.session.attempts) {command : Command}
    (hcommand : command.code ≠ Command.err.code) (path : Text) {offset : Nat}
    (hoffset : offset < 4294967296) (hdata : (blockAt offset).length ≤ maxPayload * 2) :
    ∃ l', l.requestData (prompt blockAt) command path (UInt32.ofNat offset) =
        (.ok (blockAt offset), l') ∧ l'.session.attempts = l.session.attempts := by
  have hpos : (UInt32.ofNat offset).toNat = offset := by
    rw [UInt32.toNat_ofNat', Nat.mod_eq_of_lt hoffset]
  have hdata' : (blockAt (UInt32.ofNat offset).toNat).length ≤ maxPayload * 2 := by rwa [hpos]
  have h := prompt_requestData hattempts hcommand path hdata'
  rwa [hpos] at h

end

/-! ## Files -/

/-- **A file is fetched whole** iff every block that the server gives before the one that ends the
file has 1024 bytes. Otherwise what is returned ends with the first block that is shorter. -/
theorem getFile_whole_iff (net : Network) (path : Text) (file : Bytes) (l : Link)
    (h : (fileSource net path).Holds l maxPayload file) :
    ∃ blocks, (fileSource net path).Serves 0 l blocks ∧ blocks.flatten = file ∧
      (∃ l', Returns (l.getFile net path) (.ok (upTo Short blocks).flatten, l')) ∧
      ((∃ l', Returns (l.getFile net path) (.ok file, l')) ↔
        ∀ block ∈ blocks.dropLast, block.length = maxPayload) := by
  obtain ⟨blocks, hserves, hflat, hcap⟩ := h.serves
  obtain ⟨l', hreturns⟩ := getFileLoop_returns hserves (show ([] : Bytes).length = 0 from rfl)
  refine ⟨blocks, hserves, hflat, ⟨l', hreturns⟩, ?_⟩
  have hwhole : (∃ l', Returns (l.getFile net path) (.ok file, l')) ↔
      (upTo Short blocks).flatMap id = blocks.flatMap id := by
    rw [List.flatMap_id, List.flatMap_id, hflat]
    constructor
    · rintro ⟨l'', hfile⟩
      cases hreturns.unique hfile
      rfl
    · intro heq
      rw [List.nil_append, heq] at hreturns
      exact ⟨l', hreturns⟩
  rw [hwhole, flatMap_upTo_eq_iff, pairwise_stop_iff (f := id) hserves.ne_nil]
  refine forall₂_congr fun block hmem => ?_
  have := hcap block (List.mem_of_mem_dropLast hmem)
  rw [Short]
  omega

/-- A file in blocks of `n` bytes. -/
def chunk (file : Bytes) (n offset : Nat) : Bytes := (file.drop offset).take n

theorem length_chunk_le (file : Bytes) (n offset : Nat) : (chunk file n offset).length ≤ n :=
  List.length_take_le _ _

section

variable {file : Bytes} {n : Nat} {l : Link}

theorem fileSource_chunk (hcap : n ≤ maxPayload) (path : Text) (hattempts : 0 < l.session.attempts)
    {offset : Nat} (hoffset : offset < 4294967296) :
    ∃ l', fileSource (prompt (chunk file n)) path offset l = (.ok (chunk file n offset), l') := by
  have hlen := length_chunk_le file n offset
  obtain ⟨l', h, -⟩ := prompt_ask hattempts
    (show Command.getFile.code ≠ Command.err.code by decide) path hoffset
    (show (chunk file n offset).length ≤ maxPayload * 2 by omega)
  exact ⟨l', h⟩

/-- However often it is asked, the server has not used up the attempts of a later request. -/
theorem attempts_after_chunk (hcap : n ≤ maxPayload) {path : Text}
    (hattempts : 0 < l.session.attempts) {l' : Link}
    (h : Source.After (fileSource (prompt (chunk file n)) path) l l') :
    0 < l'.session.attempts := by
  induction h with
  | refl => exact hattempts
  | @asked l' offset _ ih =>
    have hlen := length_chunk_le file n (UInt32.ofNat offset).toNat
    obtain ⟨l'', heq, hsame⟩ := prompt_requestData ih
      (show Command.getFile.code ≠ Command.err.code by decide) path
      (show (chunk file n (UInt32.ofNat offset).toNat).length ≤ maxPayload * 2 by omega)
    rw [show fileSource (prompt (chunk file n)) path offset l' = _ from heq, hsame]
    exact ih

theorem holds_chunk (hfile : file.length < 4294967296) (hn : 0 < n) (hcap : n ≤ maxPayload)
    (path : Text) (hattempts : 0 < l.session.attempts) :
    (fileSource (prompt (chunk file n)) path).Holds l maxPayload file := by
  constructor
  · intro l' hafter offset hoffset
    obtain ⟨l'', heq⟩ := fileSource_chunk hcap path (attempts_after_chunk hcap hattempts hafter)
      (show offset < 4294967296 by omega)
    have hlen := length_chunk_le file n offset
    refine ⟨chunk file n offset, by rw [heq], List.take_prefix _ _, ?_, by omega⟩
    rw [chunk, List.length_take, List.length_drop]
    omega
  · intro l' hafter
    obtain ⟨l'', heq⟩ := fileSource_chunk hcap path (attempts_after_chunk hcap hattempts hafter)
      hfile
    rw [heq, chunk, List.drop_length, List.take_nil]

end

/-- A session as it is opened, before its first request. -/
def Link.opened : Link := ⟨Session.opened 3, []⟩

/-- Two bytes in one block. -/
theorem getFile_whole_once : ∃ l',
    Returns (Link.opened.getFile (prompt (chunk [1, 2] 1024)) "/f".toList) (.ok [1, 2], l') := by
  have hopened : 0 < Link.opened.session.attempts := by decide
  obtain ⟨blocks, hserves, hflat, -, hiff⟩ :=
    getFile_whole_iff (prompt (chunk [1, 2] 1024)) "/f".toList [1, 2] Link.opened
      (holds_chunk (by decide) (by decide) (Nat.le_refl 1024) _ hopened)
  refine hiff.mpr ?_
  obtain ⟨l', heq⟩ : ∃ l', fileSource (prompt (chunk [1, 2] 1024)) "/f".toList 0 Link.opened =
      (.ok [1, 2], l') :=
    fileSource_chunk (Nat.le_refl 1024) _ hopened (by decide)
  cases hserves with
  | done h => cases hflat
  | @block _ _ _ b bs hb h later =>
    rw [heq] at h
    injection h with hblock
    injection hblock with hblock
    subst hblock
    rw [List.flatten_cons, List.append_right_eq_self] at hflat
    cases bs with
    | nil => simp
    | cons c cs =>
      exact absurd (List.flatten_eq_nil_iff.mp hflat c List.mem_cons_self)
        (later.ne_nil c List.mem_cons_self)

/-- The same two bytes, in blocks of one byte. -/
theorem getFile_whole_halves :
    (fileSource (prompt (chunk [1, 2] 1)) "/f".toList).Holds Link.opened maxPayload [1, 2] ∧
      ¬∃ l', Returns (Link.opened.getFile (prompt (chunk [1, 2] 1)) "/f".toList)
        (.ok [1, 2], l') := by
  have hopened : 0 < Link.opened.session.attempts := by decide
  refine ⟨holds_chunk (by decide) (by decide) (by decide) _ hopened, ?_⟩
  rintro ⟨l', hwhole⟩
  obtain ⟨l'', heq⟩ : ∃ l'', fileSource (prompt (chunk [1, 2] 1)) "/f".toList 0 Link.opened =
      (.ok [1], l'') :=
    fileSource_chunk (by decide) _ hopened (by decide)
  have hfirst : Returns (Link.opened.getFile (prompt (chunk [1, 2] 1)) "/f".toList)
      (.ok [1], l'') := by
    refine .of_turn fun fuel => ?_
    rw [Link.getFile, getFileLoop_block heq (by decide), if_pos (by decide)]
    rfl
  cases hfirst.unique hwhole

/-! ## Directories -/

/-- **A directory is listed whole** iff no block without entries is followed by one with entries.
Otherwise what is returned ends before the first of them. -/
theorem list_whole_iff (o : Overflow) (net : Network) (path : Text) (l : Link)
    {blocks : List Bytes} (h : (dirSource net path).Serves 0 l blocks)
    (htotal : blocks.flatten.length < 4294967296) :
    (∃ l', Returns (l.list o net path) (.ok ((upTo Barren blocks).flatMap entriesOf), l')) ∧
      ((∃ l', Returns (l.list o net path) (.ok (blocks.flatMap entriesOf), l')) ↔
        blocks.Pairwise fun b c => entriesOf b = [] → entriesOf c = []) := by
  obtain ⟨l', hreturns⟩ := listLoop_returns (o := o) h (by omega) []
  have hstop : (upTo Barren blocks).flatMap entriesOf = blocks.flatMap entriesOf ↔
      blocks.Pairwise fun b c => entriesOf b = [] → entriesOf c = [] := flatMap_upTo_eq_iff
  refine ⟨⟨l', hreturns⟩, Iff.trans ?_ hstop⟩
  constructor
  · rintro ⟨l'', hall⟩
    have heq := hreturns.unique hall
    rw [List.nil_append] at heq
    injection heq with hentries
    injection hentries
  · intro heq
    rw [List.nil_append, heq] at hreturns
    exact ⟨l', hreturns⟩

/-- A directory of two blocks, each at its offset. -/
def pairAt (b c : Bytes) (offset : Nat) : Bytes :=
  if offset = 0 then b else if offset = b.length then c else []

theorem serves_pair {b c : Bytes} (hb : b ≠ []) (hc : c ≠ []) (hbcap : b.length ≤ maxPayload)
    (hccap : c.length ≤ maxPayload) (path : Text) {l : Link}
    (hattempts : 0 < l.session.attempts) :
    (dirSource (prompt (pairAt b c)) path).Serves 0 l [b, c] := by
  have hmax : maxPayload = 1024 := rfl
  have hblen := List.length_pos_of_ne_nil hb
  have hclen := List.length_pos_of_ne_nil hc
  have ask : ∀ (l : Link) (offset : Nat) (block : Bytes), 0 < l.session.attempts →
      offset < 4294967296 → block.length ≤ maxPayload → pairAt b c offset = block →
      ∃ l', dirSource (prompt (pairAt b c)) path offset l = (.ok block, l') ∧
        l'.session.attempts = l.session.attempts := by
    rintro l offset - hl hoffset hcap rfl
    exact prompt_ask hl (show Command.getDir.code ≠ Command.err.code by decide) path hoffset
      (by omega)
  obtain ⟨l₁, h₁, hl₁⟩ := ask l 0 b hattempts (by decide) hbcap (if_pos rfl)
  obtain ⟨l₂, h₂, hl₂⟩ := ask l₁ b.length c (by omega) (by omega) hccap (by
    rw [pairAt, if_neg (by omega), if_pos rfl])
  obtain ⟨l₃, h₃, -⟩ := ask l₂ (b.length + c.length) [] (by omega) (by omega) (by simp) (by
    rw [pairAt, if_neg (by omega), if_neg (by omega)])
  refine .block hb h₁ ?_
  rw [Nat.zero_add]
  exact .block hc h₂ (.done h₃)

/-- A block with one file, of a name of one letter. -/
def fileBlock (letter : UInt8) : Bytes := [0, 0, 0, 0, 0, 0, 0, 0, rdtypeFile, letter, 0, 0]

/-- A block of padding. -/
def padding : Bytes := [0, 0, 0, 0, 0, 0, 0, 0, rdtypeSkip, 0, 0, 0]

/-- Two blocks with a file each. -/
theorem list_whole_pair : ∃ l',
    Returns (Link.opened.list .checked (prompt (pairAt (fileBlock 97) (fileBlock 98)))
      "/d".toList) (.ok [⟨0, 0, .file, ['a']⟩, ⟨0, 0, .file, ['b']⟩], l') := by
  have ha : entriesOf (fileBlock 97) = [⟨0, 0, .file, ['a']⟩] := by decide +kernel
  have hb : entriesOf (fileBlock 98) = [⟨0, 0, .file, ['b']⟩] := by decide +kernel
  have hserves := serves_pair (b := fileBlock 97) (c := fileBlock 98) (by decide) (by decide)
    (by decide) (by decide) "/d".toList (show 0 < Link.opened.session.attempts by decide)
  have hall := (list_whole_iff .checked _ "/d".toList Link.opened hserves (by decide)).2.mpr
    (by simp [ha])
  simpa [ha, hb] using hall

/-- A file in the block after one of padding. -/
theorem list_whole_padding :
    (dirSource (prompt (pairAt padding (fileBlock 97))) "/d".toList).Serves 0 Link.opened
        [padding, fileBlock 97] ∧
      ([padding, fileBlock 97].flatMap entriesOf = [⟨0, 0, .file, ['a']⟩]) ∧
      ¬∃ l', Returns (Link.opened.list .checked (prompt (pairAt padding (fileBlock 97)))
        "/d".toList) (.ok ([padding, fileBlock 97].flatMap entriesOf), l') := by
  have hp : entriesOf padding = [] := by decide +kernel
  have ha : entriesOf (fileBlock 97) = [⟨0, 0, .file, ['a']⟩] := by decide +kernel
  have hserves := serves_pair (b := padding) (c := fileBlock 97) (by decide) (by decide)
    (by decide) (by decide) "/d".toList (show 0 < Link.opened.session.attempts by decide)
  refine ⟨hserves, by simp [hp, ha], ?_⟩
  rintro ⟨l', hwhole⟩
  obtain ⟨l'', hfirst⟩ := listLoop_returns (o := .checked) hserves (by decide) []
  rw [upTo_cons_of_stop (show Barren padding from hp)] at hfirst
  have heq := hfirst.unique hwhole
  simp [hp, ha] at heq

end Smolweb.Fsp
