import Smolweb.Gopher.Plus
import Smolweb.Lib.Duplex

/-!
# The gopher server

`handle_connection` and `parse_request` of `server.rs`. A handler answers with a vector of bytes;
a request with a third field is a Gopher+ one, whose answer the server puts a header in front of.
-/

namespace Smolweb.Gopher

/-- A `Vec<u8>`, which holds no more than `isize::MAX` bytes. -/
structure ByteVec where
  bytes : Bytes
  length_le : bytes.length ≤ 0x7FFFFFFFFFFFFFFF

/-- A request, from a peer of any kind. -/
structure Request (P : Type) where
  selector : Text
  search : Option Text
  plus : Option PlusRequest
  peer : P
  deriving Repr, DecidableEq

structure ServerConfig where
  maxRequestLine : Nat := 2048
  deriving Repr

abbrev ServerM := DuplexM UInt8 Empty

/-- `parse_request`: the selector, the search terms unless they are empty, and the Gopher+ form. -/
def parseRequest (line : Bytes) : Text × Option Text × Option PlusRequest :=
  let text := Text.trimEndMatches Text.isLineBreak (Utf8.decodeLossy line)
  let fields := text.splitOn '\t'
  let selector := fields[0]?.getD []
  let search := fields[1]?.bind fun s => if s.isEmpty then none else some s
  let plus := fields[2]?.bind PlusRequest.fromToken
  (selector, search, plus)

def plusHeader (body : ByteVec) : Text :=
  ['+'] ++ Text.decimal body.bytes.length ++ ['\r', '\n']

def handleConnection {P : Type} (handler : Request P → ByteVec) (peer : P)
    (config : ServerConfig) : ServerM Unit := do
  -- the line is given up as soon as it is as long as the limit
  match ← DuplexM.readLine 10 (config.maxRequestLine - 1) with
  | none => pure ()
  | some line =>
    let (selector, search, plus) := parseRequest line
    let body := handler { selector, search, plus, peer }
    if plus.isSome then DuplexM.write (Utf8.encode (plusHeader body))
    DuplexM.write body.bytes

end Smolweb.Gopher
