import Smolweb.Lib.Crlf
import Smolweb.Lib.Decimal
import Smolweb.Lib.Duplex
import Smolweb.Lib.Fields
import Smolweb.Spartan.Response

/-!
# The spartan server

`read_request` and `handle_connection` of `server.rs`. A violation of the protocol is a message,
which the server answers with; a stream that ends within the data block is an error of the
connection.
-/

namespace Smolweb.Spartan

/-- A request, from a peer of any kind. -/
structure Request (P : Type) where
  host : Text
  path : Text
  data : Bytes
  peer : P
  deriving Repr, DecidableEq

structure ServerConfig where
  maxRequestLine : Nat := 4096
  /-- A `usize`. -/
  maxUpload : UInt64 := 4 * 1024 * 1024
  deriving Repr

inductive IoError where
  | unexpectedEof
  deriving Repr, DecidableEq

abbrev ServerM := DuplexM UInt8 IoError

/-- The loop that reads the request line, byte after byte, through its CRLF or to the end of the
stream; `none` once it is as long as the limit without being complete. -/
def lineLoop (max : Nat) : (line unread : Bytes) → Option Bytes × Bytes
  | line, [] => (some line, [])
  | line, byte :: rest =>
    if crlf <:+ line ++ [byte] then (some (line ++ [byte]), rest)
    else if max ≤ (line ++ [byte]).length then (none, rest)
    else lineLoop max (line ++ [byte]) rest

def readRequestLine (config : ServerConfig) : ServerM (Option Bytes) := fun s =>
  let r := lineLoop config.maxRequestLine [] s.unread
  (.ok r.1, { s with unread := r.2 })

/-- The fields of a request line: the host, the path and the length of the data block. -/
def requestFields (config : ServerConfig) (line : Bytes) : Except Text (Text × Text × Nat) :=
  match Utf8.decode line with
  | none => .error "Request line is not ASCII.".toList
  | some text =>
    match (Text.trimEndMatches Text.isLineBreak text).splitOn ' ' with
    | [host, path, length] =>
      if (host.isEmpty || host.contains ':') && !(['['] <+: host && [']'] <:+ host) then
        .error "Malformed host.".toList
      else if ¬ ['/'] <+: path then .error "Path must be absolute.".toList
      else
        match Text.parseUnsigned maxU64 length with
        | none => .error "Malformed content-length.".toList
        | some length =>
          if config.maxUpload.toNat < length then
            .error ("Data block exceeds this server's limit of ".toList ++
              Text.decimal config.maxUpload.toNat ++ " bytes.".toList)
          else .ok (host, path, length)
    | _ => .error "Malformed request line.".toList

/-- `read_request`. -/
def readRequest {P : Type} (peer : P) (config : ServerConfig) :
    ServerM (Except Text (Request P)) := do
  match ← readRequestLine config with
  | none => pure (.error "Request line too long.".toList)
  | some line =>
    match requestFields config line with
    | .error message => pure (.error message)
    | .ok (host, path, length) =>
      match ← DuplexM.readExact length with
      | none => throw .unexpectedEof
      | some data => pure (.ok { host, path, data, peer })

def handleConnection {P : Type} (handler : Request P → SpartanResponse) (peer : P)
    (config : ServerConfig) : ServerM Unit := do
  match ← readRequest peer config with
  | .ok request => DuplexM.write (handler request).encode
  | .error message => DuplexM.write (SpartanResponse.clientError message).encode

end Smolweb.Spartan
