import Smolweb.Lib.Duplex
import Smolweb.Scorpion.Response

/-!
# The client

`client.rs`: one request over any stream, and how a response is read off it. The stream is what
the server sends before it closes its side; a read that fails is an error at once and is left out.
-/

namespace Smolweb.Scorpion

inductive ClientError where
  /-- The stream ended before a status line began. -/
  | unexpectedEof
  | response (error : ResponseError)
  | bodyTooLarge (declared limit : UInt64)
  | truncated (declared received : UInt64)
  deriving Repr, DecidableEq

/-- How much a client is willing to read. -/
structure Limits where
  maxBody : UInt64 := 32 * 1024 * 1024
  maxHeader : Nat := 8192
  deriving Repr, DecidableEq

structure Response where
  header : Header
  body : Bytes
  deriving Repr, DecidableEq

abbrev ClientM := DuplexM UInt8 ClientError

/-- The loop of `read_line` over the bytes to come: the line before the newline, or before the end
of the stream. -/
def lineLoop (max : Nat) : (line unread : Bytes) → Except ClientError Bytes × Bytes
  | line, [] => (if line.isEmpty then .error .unexpectedEof else .ok line, [])
  | line, b :: rest =>
    if b = 10 then (.ok line, rest)
    else if max ≤ line.length then (.error (.response .tooLong), rest)
    else lineLoop max (line ++ [b]) rest

def readLineBytes (max : Nat) : ClientM Bytes := fun s =>
  let r := lineLoop max [] s.unread
  (r.1, { s with unread := r.2 })

/-- `read_line`: the line without its CR. -/
def readLine (max : Nat) : ClientM Text := do
  let line ← readLineBytes max
  let line := if line.getLast? = some 13 then line.dropLast else line
  match Utf8.decode line with
  | some text => pure text
  | none => throw (.response .malformed)

def readToEndCapped (cap : Nat) : ClientM Bytes := DuplexM.readUpTo cap

/-- The body after an accepted `2x` status line, by the size it declares and, if it is partial, by
the range that was asked for. -/
def readBody (limits : Limits) (requestedRange : Option Range) (status : Status)
    (declared : Size) : ClientM Bytes :=
  if status = .PARTIAL then
    readToEndCapped
      (min ((requestedRange.bind Range.len).getD limits.maxBody.toNat) limits.maxBody.toNat)
  else
    match declared with
    | .known size =>
      if limits.maxBody < size then throw (.bodyTooLarge size limits.maxBody)
      else do
        match ← DuplexM.readExact size.toNat with
        | some body => pure body
        | none => throw (.truncated size 0)
    | .unknown => readToEndCapped limits.maxBody.toNat

def readResponse (limits : Limits) (requestedRange : Option Range) : ClientM Response := do
  let line ← readLine limits.maxHeader
  match Header.parse line with
  | .error e => throw (.response e)
  | .ok header =>
    if header.status.major ≠ .success then pure ⟨header, []⟩
    else
      match header.success with
      | some (.error e) => throw (.response e)
      | some (.ok success) => do
        let body ← readBody limits requestedRange header.status success.size
        pure ⟨header, body⟩
      | none => do
        let body ← readBody limits requestedRange header.status .unknown
        pure ⟨header, body⟩

/-- One request over an open stream. -/
def exchange (request : Request) (limits : Limits) : ClientM Response := do
  DuplexM.write request.toWire
  readResponse limits (match request.parameter with
    | .range range => some range
    | _ => none)

end Smolweb.Scorpion
