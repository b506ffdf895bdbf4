import Smolweb.FileHandler
import Smolweb.Guppy.Packet

/-!
# The guppy file handler

The `FileHandler` of `server.rs`.
-/

namespace Smolweb.Guppy

structure FileHandler where
  root : Bytes

/-- `percentDecode` is `percent_decode_str` of a crate. -/
def FileHandler.resolve (percentDecode : Text → Bytes) (handler : FileHandler)
    (requestPath : Text) : Option Bytes := do
  let decoded ← Utf8.decode (percentDecode requestPath)
  let resolved ← pushSegments handler.root (decoded.splitOn '/')
  if ['/'] <:+ decoded then
    some (Path.push separator resolved (Utf8.encode "index.gmi".toList))
  else some resolved

def mimeFor (path : Bytes) : Text :=
  match String.ofList (extensionOf path) with
  | "gmi" | "gemini" => "text/gemini".toList
  | "txt" | "" => "text/plain".toList
  | "md" => "text/markdown".toList
  | "png" => "image/png".toList
  | "jpg" | "jpeg" => "image/jpeg".toList
  | _ => "application/octet-stream".toList

/-- `handle`; of a request it looks at the path alone. -/
def FileHandler.handle (percentDecode : Text → Bytes) (handler : FileHandler) (fs : FileSystem)
    (requestPath : Text) : GuppyResponse :=
  match handler.resolve percentDecode requestPath with
  | none => .error "Bad path.".toList
  | some path =>
    let path := if fs.isDir path then
      Path.push separator path (Utf8.encode "index.gmi".toList) else path
    match fs.read path with
    | some body => .success (mimeFor path) body
    | none => .error (requestPath ++ " not found".toList)

end Smolweb.Guppy
