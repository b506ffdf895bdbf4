import Smolweb.Fsp.Directory

/-!
# Directory blocks read back

A server writes a record for each entry, padded to a multiple of four (`record`). The walk over a
block is at the start of a record in every turn (`walk_record`), so that it yields the entries that
were written, in order, and passes over records of other types (`parseDirectory_records`). On any
bytes it stays within the block and ends (`walk_isSome`).
-/

namespace Smolweb.Fsp

/-- A record as a server writes it. -/
def record (time size : UInt32) (kindByte : UInt8) (name : Bytes) : Bytes :=
  let entry := BigEndian.toBytes 4 time.toNat ++ BigEndian.toBytes 4 size.toNat ++ [kindByte] ++
    name ++ [0]
  entry ++ List.replicate (divCeil entry.length 4 * 4 - entry.length) 0

def EntryKind.byte : EntryKind → UInt8
  | .file => rdtypeFile
  | .directory => rdtypeDir

/-- What a server writes in a block: entries, and records of types that are not recognised. -/
inductive Item where
  | entry (e : DirEntry)
  | other (time size : UInt32) (kindByte : UInt8) (name : Bytes)

namespace Item

def wire : Item → Bytes
  | entry e => record e.time e.size e.kind.byte (Utf8.encode e.name)
  | other time size kindByte name => record time size kindByte name

/-- Names hold no NUL, and an other type is neither an entry's nor one that ends the block. -/
def WellFormed : Item → Prop
  | entry e => Char.ofNat 0 ∉ e.name
  | other _ _ kindByte name =>
    0 ∉ name ∧ kindByte ∉ [rdtypeEnd, rdtypeFile, rdtypeDir, rdtypeSkip]

def entry? : Item → Option DirEntry
  | entry e => some e
  | other .. => none

end Item

/-! ## Padding -/

theorem le_padded (n : Nat) : n ≤ divCeil n 4 * 4 := by
  unfold divCeil
  split <;> omega

theorem padded_add {m : Nat} (h : m % 4 = 0) (n : Nat) :
    divCeil (m + n) 4 * 4 = m + divCeil n 4 * 4 := by
  unfold divCeil
  split <;> split <;> omega

theorem padded_mod (n : Nat) : divCeil n 4 * 4 % 4 = 0 := Nat.mul_mod_left _ _

theorem record_eq (time size : UInt32) (kindByte : UInt8) (name : Bytes) :
    record time size kindByte name =
      BigEndian.toBytes 4 time.toNat ++ (BigEndian.toBytes 4 size.toNat ++ kindByte :: (name ++
        0 :: List.replicate (divCeil (10 + name.length) 4 * 4 - (10 + name.length)) 0)) := by
  have hlen : (BigEndian.toBytes 4 time.toNat ++ BigEndian.toBytes 4 size.toNat ++ [kindByte] ++
      name ++ [0]).length = 10 + name.length := by
    simp only [List.length_append, BigEndian.length_toBytes, List.length_singleton]
    omega
  rw [record, hlen]
  simp only [List.append_assoc, List.cons_append, List.nil_append]

theorem length_record (time size : UInt32) (kindByte : UInt8) (name : Bytes) :
    (record time size kindByte name).length = divCeil (10 + name.length) 4 * 4 := by
  have hle := le_padded (10 + name.length)
  simp only [record_eq, List.length_append, BigEndian.length_toBytes, List.length_cons,
    List.length_replicate]
  omega

/-! ## Reading -/

theorem readU32_append (pre post : Bytes) (n : UInt32) :
    readU32 (pre ++ (BigEndian.toBytes 4 n.toNat ++ post)) pre.length = some n := by
  have hvalue : BigEndian.ofBytes (BigEndian.toBytes 4 n.toNat) = n.toNat :=
    BigEndian.ofBytes_toBytes n.toNat_lt
  have hget : ∀ i, i < 4 → (pre ++ (BigEndian.toBytes 4 n.toNat ++ post))[pre.length + i]? =
      (BigEndian.toBytes 4 n.toNat)[i]? := by
    intro i hi
    rw [List.getElem?_append_right (Nat.le_add_right _ _), Nat.add_sub_cancel_left,
      List.getElem?_append_left (by rwa [BigEndian.length_toBytes])]
  obtain ⟨b0, b1, b2, b3, hbytes⟩ : ∃ b0 b1 b2 b3, BigEndian.toBytes 4 n.toNat = [b0, b1, b2, b3] :=
    ⟨_, _, _, _, rfl⟩
  have hfirst := hget 0 (by decide)
  rw [Nat.add_zero] at hfirst
  rw [readU32, hfirst, hget 1 (by decide), hget 2 (by decide), hget 3 (by decide), hbytes]
  rw [hbytes] at hvalue
  simp only [List.getElem?_cons_zero, List.getElem?_cons_succ, Option.bind_eq_bind,
    Option.bind_some, hvalue, UInt32.ofNat_toNat]

/-- What a walk reads of a record before its name, and where the name starts. -/
theorem readHead (pre post : Bytes) (time size : UInt32) (kindByte : UInt8) :
    readU32 (pre ++ (BigEndian.toBytes 4 time.toNat ++ (BigEndian.toBytes 4 size.toNat ++
        kindByte :: post))) pre.length = some time ∧
      readU32 (pre ++ (BigEndian.toBytes 4 time.toNat ++ (BigEndian.toBytes 4 size.toNat ++
        kindByte :: post))) (pre.length + 4) = some size ∧
      (pre ++ (BigEndian.toBytes 4 time.toNat ++ (BigEndian.toBytes 4 size.toNat ++
        kindByte :: post)))[pre.length + 8]? = some kindByte := by
  refine ⟨readU32_append .., ?_, ?_⟩
  · have hread := readU32_append (pre ++ BigEndian.toBytes 4 time.toNat) (kindByte :: post) size
    rwa [List.append_assoc, List.length_append, BigEndian.length_toBytes] at hread
  · rw [List.getElem?_append_right (by omega), List.getElem?_append_right (by simp),
      List.getElem?_append_right (by simp)]
    simp

theorem slice_append (pre name post : Bytes) :
    slice (pre ++ (name ++ post)) pre.length (pre.length + name.length) = some name := by
  rw [slice, if_pos (by simp only [List.length_append]; omega), List.drop_left,
    Nat.add_sub_cancel_left, List.take_left]

theorem slice_to_end (pre post : Bytes) :
    slice (pre ++ post) pre.length (pre ++ post).length = some post := by
  rw [slice, if_pos (by simp only [List.length_append]; omega), List.drop_left, List.length_append,
    Nat.add_sub_cancel_left, List.take_length]

theorem findIdx?_nul {name : Bytes} (h : 0 ∉ name) (post : Bytes) :
    (name ++ 0 :: post).findIdx? (· == 0) = some name.length := by
  induction name with
  | nil => rfl
  | cons b name ih =>
    have hb : (b == 0) = false := by
      rw [beq_eq_false_iff_ne]
      rintro rfl
      exact h List.mem_cons_self
    rw [List.cons_append, List.findIdx?_cons, hb, ih fun hm => h (List.mem_cons_of_mem _ hm)]
    rfl

/-! ## One turn of the walk -/

/-- An entry is read whole, and the walk goes on at the next multiple of four. -/
theorem walk_entry {pre name : Bytes} {time size : UInt32} {kindByte : UInt8} (hname : 0 ∉ name)
    (hend : kindByte ≠ rdtypeEnd) (hskip : kindByte ≠ rdtypeSkip) (post : Bytes) (fuel : Nat)
    {block : Bytes} (hblock : block = pre ++ (BigEndian.toBytes 4 time.toNat ++
      (BigEndian.toBytes 4 size.toNat ++ kindByte :: (name ++ 0 :: post)))) :
    walk block (fuel + 1) pre.length =
      (walk block fuel (divCeil (pre.length + 9 + name.length + 1) 4 * 4)).map
        (((entryKind kindByte).map fun kind =>
          (⟨time, size, kind, Utf8.decodeLossy name⟩ : DirEntry)).toList ++ ·) := by
  obtain ⟨htime, hsize, hkind⟩ := readHead pre (name ++ 0 :: post) time size kindByte
  have hsplit : block = pre ++ BigEndian.toBytes 4 time.toNat ++
      BigEndian.toBytes 4 size.toNat ++ [kindByte] ++ (name ++ 0 :: post) := by
    simp only [hblock, List.append_assoc, List.cons_append, List.nil_append]
  have hstart : (pre ++ BigEndian.toBytes 4 time.toNat ++ BigEndian.toBytes 4 size.toNat ++
      [kindByte]).length = pre.length + 9 := by
    simp only [List.length_append, BigEndian.length_toBytes, List.length_singleton]
  have hroom : pre.length + 9 ≤ block.length := by
    rw [hsplit, List.length_append, hstart]
    omega
  have hrest := slice_to_end (pre ++ BigEndian.toBytes 4 time.toNat ++
    BigEndian.toBytes 4 size.toNat ++ [kindByte]) (name ++ 0 :: post)
  have hnamed := slice_append (pre ++ BigEndian.toBytes 4 time.toNat ++
    BigEndian.toBytes 4 size.toNat ++ [kindByte]) name (0 :: post)
  rw [hstart, ← hsplit] at hrest hnamed
  rw [← hblock] at htime hsize hkind
  rw [walk, if_pos hroom]
  simp only [htime, hsize, hkind, Option.bind_eq_bind, Option.bind_some, if_neg hend,
    if_neg hskip, hrest, findIdx?_nul hname, hnamed]
  cases walk block fuel (divCeil (pre.length + 9 + name.length + 1) 4 * 4) <;> rfl

/-- **A record** is read whole, and the walk goes on behind it. -/
theorem walk_record {pre rest name : Bytes} {time size : UInt32} {kindByte : UInt8}
    (hpre : pre.length % 4 = 0) (hname : 0 ∉ name) (hend : kindByte ≠ rdtypeEnd)
    (hskip : kindByte ≠ rdtypeSkip) (fuel : Nat) :
    walk (pre ++ (record time size kindByte name ++ rest)) (fuel + 1) pre.length =
      (walk (pre ++ record time size kindByte name ++ rest) fuel
        (pre ++ record time size kindByte name).length).map
        (((entryKind kindByte).map fun kind =>
          (⟨time, size, kind, Utf8.decodeLossy name⟩ : DirEntry)).toList ++ ·) := by
  have hnext : (pre ++ record time size kindByte name).length =
      divCeil (pre.length + 9 + name.length + 1) 4 * 4 := by
    rw [List.length_append, length_record, ← padded_add hpre]
    congr 2
    omega
  have hblock := congrArg (fun wire => pre ++ (wire ++ rest)) (record_eq time size kindByte name)
  simp only [List.append_assoc, List.cons_append] at hblock
  rw [hnext, walk_entry hname hend hskip _ fuel hblock, List.append_assoc]

/-- A record of one of the types that end a block ends the walk. -/
theorem walk_stop (pre rest : Bytes) (time size : UInt32) {stop : UInt8}
    (hstop : stop = rdtypeEnd ∨ stop = rdtypeSkip) (fuel : Nat) :
    walk (pre ++ (BigEndian.toBytes 4 time.toNat ++ (BigEndian.toBytes 4 size.toNat ++
      stop :: rest))) (fuel + 1) pre.length = some [] := by
  obtain ⟨htime, hsize, hkind⟩ := readHead pre rest time size stop
  rw [walk, if_pos (by
    simp only [List.length_append, BigEndian.length_toBytes, List.length_cons]
    omega)]
  simp only [htime, hsize, hkind, Option.bind_eq_bind, Option.bind_some]
  rcases hstop with rfl | rfl <;> rfl

/-! ## Whole blocks -/

theorem entryKind_byte (kind : EntryKind) : entryKind kind.byte = some kind := by
  cases kind <;> rfl

theorem nul_not_mem_encode {t : Text} (h : Char.ofNat 0 ∉ t) : 0 ∉ Utf8.encode t := by
  intro hm
  have hnul : UInt8.ofNat (Char.ofNat 0).toNat ∈ Utf8.encode t := hm
  exact h ((Utf8.mem_encode_ascii (by decide)).mp hnul)

/-- A record of an item is read as the entry that the item is, or passed over. -/
theorem walk_item {pre rest : Bytes} (hpre : pre.length % 4 = 0) {item : Item}
    (hitem : item.WellFormed) (fuel : Nat) :
    walk (pre ++ (item.wire ++ rest)) (fuel + 1) pre.length =
      (walk (pre ++ item.wire ++ rest) fuel (pre ++ item.wire).length).map
        (item.entry?.toList ++ ·) := by
  cases item with
  | entry e =>
    have hend : e.kind.byte ≠ rdtypeEnd := by cases e.kind <;> decide
    have hskip : e.kind.byte ≠ rdtypeSkip := by cases e.kind <;> decide
    rw [Item.wire, walk_record hpre (nul_not_mem_encode hitem) hend hskip, entryKind_byte,
      Option.map_some, Utf8.decodeLossy_encode]
    rfl
  | other time size kindByte name =>
    obtain ⟨hname, hkind⟩ := hitem
    simp only [List.mem_cons, List.not_mem_nil, or_false, not_or] at hkind
    obtain ⟨hend, hfile, hdir, hskip⟩ := hkind
    rw [Item.wire, walk_record hpre hname hend hskip, entryKind, if_neg hfile, if_neg hdir]
    rfl

theorem length_wire_mod (item : Item) : item.wire.length % 4 = 0 := by
  cases item <;> exact length_record .. ▸ padded_mod _

theorem length_le_flatMap_wire (items : List Item) :
    items.length ≤ (items.flatMap Item.wire).length := by
  induction items with
  | nil => exact Nat.le_refl _
  | cons item items ih =>
    have hpos : 0 < item.wire.length := by
      cases item <;> exact Nat.lt_of_lt_of_le (by omega) (length_record .. ▸ le_padded _)
    rw [List.flatMap_cons, List.length_append, List.length_cons]
    omega

/-- The walk over a block of items reads the entries among them, in order. -/
theorem walk_items {items : List Item} (hitems : ∀ item ∈ items, item.WellFormed)
    (time size : UInt32) {stop : UInt8} (hstop : stop = rdtypeEnd ∨ stop = rdtypeSkip)
    (rest pre : Bytes) (hpre : pre.length % 4 = 0) (fuel : Nat) (hfuel : items.length < fuel) :
    walk (pre ++ (items.flatMap Item.wire ++ (BigEndian.toBytes 4 time.toNat ++
      (BigEndian.toBytes 4 size.toNat ++ stop :: rest)))) fuel pre.length =
        some (items.filterMap Item.entry?) := by
  induction items generalizing pre fuel with
  | nil =>
    obtain ⟨fuel, rfl⟩ : ∃ fuel', fuel = fuel' + 1 := ⟨fuel - 1, by omega⟩
    exact walk_stop pre rest time size hstop fuel
  | cons item items ih =>
    obtain ⟨fuel, rfl⟩ : ∃ fuel', fuel = fuel' + 1 := ⟨fuel - 1, by omega⟩
    rw [List.flatMap_cons, List.append_assoc, walk_item hpre (hitems item List.mem_cons_self),
      List.append_assoc pre, ← List.append_assoc pre]
    have hnext : (pre ++ item.wire).length % 4 = 0 := by
      rw [List.length_append, Nat.add_mod, hpre, length_wire_mod]
    rw [ih (fun i hi => hitems i (List.mem_cons_of_mem _ hi)) _ hnext fuel
      (Nat.lt_of_succ_lt_succ hfuel), Option.map_some, List.filterMap_cons]
    cases item <;> rfl

/-! ## Any block -/

theorem readU32_isSome {block : Bytes} {offset : Nat} (h : offset + 4 ≤ block.length) :
    (readU32 block offset).isSome := by
  rw [readU32, List.getElem?_eq_getElem (by omega), List.getElem?_eq_getElem (by omega),
    List.getElem?_eq_getElem (by omega), List.getElem?_eq_getElem (by omega)]
  rfl

theorem slice_eq {block : Bytes} {start stop : Nat} (h : start ≤ stop)
    (hstop : stop ≤ block.length) :
    slice block start stop = some ((block.drop start).take (stop - start)) :=
  if_pos ⟨h, hstop⟩

/-- **The walk stays within the block**, and ends. -/
theorem walk_isSome (block : Bytes) (fuel offset : Nat) (hfuel : 0 < fuel)
    (h : block.length < fuel + offset) : (walk block fuel offset).isSome := by
  induction fuel generalizing offset with
  | zero => omega
  | succ fuel ih =>
    unfold walk
    split
    · next hroom =>
      obtain ⟨time, htime⟩ := Option.isSome_iff_exists.mp
        (readU32_isSome (show offset + 4 ≤ block.length by omega))
      obtain ⟨size, hsize⟩ := Option.isSome_iff_exists.mp
        (readU32_isSome (show offset + 4 + 4 ≤ block.length by omega))
      simp only [htime, hsize, List.getElem?_eq_getElem (show offset + 8 < block.length by omega),
        slice_eq hroom (Nat.le_refl _), Option.bind_eq_bind, Option.bind_some]
      split
      · rfl
      · split
        · rfl
        · split
          · rfl
          · next nul hnul =>
            -- the NUL lies in the block, so the name does, and the next offset is beyond it
            obtain ⟨hlt, -⟩ := List.findIdx?_eq_some_iff_getElem.mp hnul
            rw [List.length_take, List.length_drop] at hlt
            have hnext := le_padded (offset + 9 + nul + 1)
            obtain ⟨entries, hentries⟩ := Option.isSome_iff_exists.mp
              (ih (divCeil (offset + 9 + nul + 1) 4 * 4) (by omega) (by omega))
            rw [slice_eq (by omega) (by omega), Option.bind_some, hentries]
            rfl
    · rfl

/-- **Directory blocks**: what a server wrote is read back, and any bytes are read within their
bounds. -/
theorem parseDirectory_records :
    (∀ (items : List Item) (time size : UInt32) (stop : UInt8) (rest : Bytes),
      (∀ item ∈ items, item.WellFormed) → stop = rdtypeEnd ∨ stop = rdtypeSkip →
      parseDirectory (items.flatMap Item.wire ++ (BigEndian.toBytes 4 time.toNat ++
        (BigEndian.toBytes 4 size.toNat ++ stop :: rest))) =
          some (items.filterMap Item.entry?)) ∧
    ∀ block : Bytes, (parseDirectory block).isSome := by
  constructor
  · intro items time size stop rest hitems hstop
    refine walk_items hitems time size hstop rest [] rfl _ (Nat.lt_succ_of_le ?_)
    rw [List.length_append]
    exact Nat.le_add_right_of_le (length_le_flatMap_wire items)
  · intro block
    exact walk_isSome block _ 0 (Nat.succ_pos _) (Nat.lt_succ_self _)

/-- A file, a record of an unknown type and a directory, whose names are padded differently. -/
def sampleItems : List Item :=
  [.entry ⟨1000, 42, .file, "readme.txt".toList⟩, .other 7 7 0x7F [97, 98],
    .entry ⟨2000, 0, .directory, "pub".toList⟩]

theorem parseDirectory_sample :
    parseDirectory (sampleItems.flatMap Item.wire ++ (BigEndian.toBytes 4 0 ++
      (BigEndian.toBytes 4 0 ++ rdtypeSkip :: [0, 0, 0, 1, 1, 1]))) =
        some [⟨1000, 42, .file, "readme.txt".toList⟩, ⟨2000, 0, .directory, "pub".toList⟩] := by
  have hitems : ∀ item ∈ sampleItems, item.WellFormed := by
    simp [sampleItems, Item.WellFormed, rdtypeEnd, rdtypeFile, rdtypeDir, rdtypeSkip]
  exact parseDirectory_records.1 sampleItems 0 0 rdtypeSkip [0, 0, 0, 1, 1, 1] hitems (Or.inr rfl)

end Smolweb.Fsp
