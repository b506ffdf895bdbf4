import Mathlib.Data.Char
import Mathlib.Data.List.Lex
import Smolweb.FileHandler
import Smolweb.Lib.Duplex

/-!
# The Nex server

`handle_connection` and `FileHandler` of `server.rs`.
-/

namespace Smolweb.Nex

/-- `is_directory_path` of `lib.rs`. -/
def isDirectoryPath (path : Text) : Bool := path.isEmpty || path.getLast? == some '/'

structure FileHandler where
  root : Bytes

namespace FileHandler

-- `percentDecode` is `percent_decode_str` of a crate.
variable (percentDecode : Text → Bytes)

def resolve (handler : FileHandler) (requestPath : Text) : Option Bytes := do
  let decoded ← Utf8.decode (percentDecode requestPath)
  pushSegments handler.root (decoded.splitOn '/')

/-- The name a listing has for an entry. -/
def listedName (entry : DirEntry) : Text :=
  Utf8.decodeLossy entry.name.bytes ++ if entry.isDir then ['/'] else []

/-- The text that `listing_for` writes. -/
def listingFor (fs : FileSystem) (dir : Bytes) (requestPath : Text) : Text :=
  let names := ((fs.readDir dir).map listedName).mergeSort fun a b => decide (a ≤ b)
  requestPath ++ "\n\n".toList ++ names.flatMap fun name => "=> ".toList ++ name ++ ['\n']

def handle (handler : FileHandler) (fs : FileSystem) (requestPath : Text) : Bytes :=
  match handler.resolve percentDecode requestPath with
  | none => Utf8.encode "bad path\n".toList
  | some path =>
    if isDirectoryPath requestPath || fs.isDir path then
      match fs.read (Path.push separator path (Utf8.encode "index.nex".toList)) with
      | some body => body
      | none =>
        Utf8.encode (listingFor fs path (if requestPath.isEmpty then ['/'] else requestPath))
    else
      match fs.read path with
      | some body => body
      | none => Utf8.encode (requestPath ++ " not found\n".toList)

end FileHandler

/-! ## Connections -/

/-- A request, from a peer of any kind. -/
structure Request (P : Type) where
  path : Text
  peer : P
  deriving Repr, DecidableEq

structure ServerConfig where
  maxRequestLine : Nat := 2048
  deriving Repr

abbrev ServerM := DuplexM UInt8 Empty

def handleConnection {P : Type} (handler : Request P → Bytes) (peer : P)
    (config : ServerConfig) : ServerM Unit :=
  -- the selector is given up as soon as it is as long as the limit
  DuplexM.answerLine 10 (config.maxRequestLine - 1) fun line =>
    let path := Text.trimEndMatches (· == '\r') (Utf8.decodeLossy line)
    handler { path, peer }

end Smolweb.Nex
