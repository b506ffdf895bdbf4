import Smolweb.Lib.Arith
import Smolweb.Lib.BigEndian

/-!
# FSP directory blocks

`parse_directory` of `wire.rs`, with the offset it keeps. Indexing and slicing are by the bounds of
the block: `none` is a panic, or a walk that does not end.
-/

namespace Smolweb.Fsp

def rdtypeEnd : UInt8 := 0x00
def rdtypeFile : UInt8 := 0x01
def rdtypeDir : UInt8 := 0x02
def rdtypeSkip : UInt8 := 0x2A

/-- What a directory entry points at. -/
inductive EntryKind where
  | file
  | directory
  deriving Repr, DecidableEq

structure DirEntry where
  time : UInt32
  size : UInt32
  kind : EntryKind
  name : Text
  deriving Repr, DecidableEq

/-- The kind of an entry whose type is recognised. -/
def entryKind (kindByte : UInt8) : Option EntryKind :=
  if kindByte = rdtypeFile then some .file
  else if kindByte = rdtypeDir then some .directory
  else none

/-- `u32::from_be_bytes` of the four bytes from an offset on. -/
def readU32 (block : Bytes) (offset : Nat) : Option UInt32 := do
  let b0 ← block[offset]?
  let b1 ← block[offset + 1]?
  let b2 ← block[offset + 2]?
  let b3 ← block[offset + 3]?
  some (UInt32.ofNat (BigEndian.ofBytes [b0, b1, b2, b3]))

/-- `&block[start..stop]`. -/
def slice (block : Bytes) (start stop : Nat) : Option Bytes :=
  if start ≤ stop ∧ stop ≤ block.length then some ((block.drop start).take (stop - start))
  else none

/-- The loop of `parse_directory`, from an offset on. Each turn moves on by ten bytes at least. -/
def walk (block : Bytes) : (fuel offset : Nat) → Option (List DirEntry)
  | 0, _ => none
  | fuel + 1, offset =>
    if offset + 9 ≤ block.length then do
      let time ← readU32 block offset
      let size ← readU32 block (offset + 4)
      let kindByte ← block[offset + 8]?
      if kindByte = rdtypeEnd then some []
      else if kindByte = rdtypeSkip then some []
      else
        let nameStart := offset + 9
        let rest ← slice block nameStart block.length
        match rest.findIdx? (· == 0) with
        | none => some []
        | some nul =>
          let name ← slice block nameStart (nameStart + nul)
          let entry := (entryKind kindByte).map fun kind =>
            { time, size, kind, name := Utf8.decodeLossy name }
          -- past the name's NUL, then up to a multiple of four
          let entries ← walk block fuel (divCeil (nameStart + nul + 1) 4 * 4)
          some (entry.toList ++ entries)
    else some []

def parseDirectory (block : Bytes) : Option (List DirEntry) := walk block (block.length + 1) 0

end Smolweb.Fsp
