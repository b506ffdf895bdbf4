import Smolweb.FileHandler
import Smolweb.Spartan.Server

/-!
# The spartan file handler

`files.rs`.
-/

namespace Smolweb.Spartan

structure FileHandler where
  root : Bytes

/-- `percentDecode` is `percent_decode_str` of a crate. -/
def FileHandler.resolve (percentDecode : Text → Bytes) (handler : FileHandler)
    (requestPath : Text) : Option Bytes := do
  let decoded ← Utf8.decode (percentDecode requestPath)
  let resolved ← pushSegments handler.root (decoded.splitOn '/')
  if ['/'] <:+ decoded ∨ decoded.isEmpty then
    some (Path.push separator resolved (Utf8.encode "index.gmi".toList))
  else some resolved

def mimeFor (path : Bytes) : Text :=
  match String.ofList (extensionOf path) with
  | "gmi" | "gemini" => "text/gemini".toList
  | "txt" | "" => "text/plain".toList
  | "md" => "text/markdown".toList
  | "html" | "htm" => "text/html".toList
  | "png" => "image/png".toList
  | "jpg" | "jpeg" => "image/jpeg".toList
  | "gif" => "image/gif".toList
  | "mp3" => "audio/mpeg".toList
  | "ogg" => "audio/ogg".toList
  | _ => "application/octet-stream".toList

/-- Why a file is not read. -/
inductive ReadError where
  | notFound
  | other
  deriving Repr, DecidableEq

/-- What the handler is told of the file system. -/
structure Disk where
  read : Bytes → Except ReadError Bytes
  isDir : Bytes → Bool

def FileHandler.handle {P : Type} (percentDecode : Text → Bytes) (handler : FileHandler)
    (disk : Disk) (request : Request P) : SpartanResponse :=
  if !request.data.isEmpty then .clientError "This server does not accept uploads.".toList
  else
    match handler.resolve percentDecode request.path with
    | none => .clientError "Bad path.".toList
    | some path =>
      if disk.isDir path then .redirect (request.path ++ ['/'])
      else
        match disk.read path with
        | .ok body => .success (mimeFor path) body
        | .error .notFound =>
          .clientError ("File ".toList ++ request.path ++ " not found.".toList)
        | .error .other => .serverError "Could not read file.".toList

end Smolweb.Spartan
