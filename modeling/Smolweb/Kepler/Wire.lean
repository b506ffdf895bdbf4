import Smolweb.Lib.Decimal
import Smolweb.Lib.Fields
import Smolweb.Lib.Utf8

/-!
# Kepler on the wire

The request line a client writes and the response header it reads, as in `wire.rs`. Timestamps and
lengths are `i64`; `-1` stands for an unknown one and is kept.
-/

namespace Smolweb.Kepler

/-- The status classes, one per leading digit. -/
inductive Status where
  | input
  | success
  | redirect
  | temporaryFailure
  | permanentFailure
  | authRequired
  | unchanged
  deriving Repr, DecidableEq

def Status.fromCode (code : Nat) : Option Status :=
  match code / 10 with
  | 1 => some .input
  | 2 => some .success
  | 3 => some .redirect
  | 4 => some .temporaryFailure
  | 5 => some .permanentFailure
  | 6 => some .authRequired
  | 7 => some .unchanged
  | _ => none

structure CacheInfo where
  length : Int64
  lastUpdated : Int64
  expires : Int64
  deriving Repr, DecidableEq

def CacheInfo.hasLength (cache : CacheInfo) : Bool := 0 ≤ cache.length

inductive Header where
  | success (code : Nat) (cache : CacheInfo) (mimetype : Text)
  | unchanged (code : Nat) (expires : Int64)
  | metadata (code : Nat) (status : Status) (metaText : Text)
  deriving Repr, DecidableEq

namespace Header

/-- The two-digit code. -/
def code : Header → Nat
  | .success code .. | .unchanged code _ | .metadata code .. => code

/-- The status class. -/
def status : Header → Status
  | .success .. => .success
  | .unchanged .. => .unchanged
  | .metadata _ status _ => status

end Header

def requestLine (uri : Text) (lastCached : Int64) (language : Text) : Text :=
  uri ++ [' '] ++ Text.decimalI64 lastCached ++ [' '] ++ language ++ ['\r', '\n']

/-- The cap on a request URI, in bytes. -/
def maxUri : Nat := 1024

structure Request where
  uri : Text
  lastCached : Int64
  language : Text
  deriving Repr, DecidableEq

/-- `parse_request`, the server's side of `request_line`; a bare URI is a request too. The error
is the line, or what is wrong with its length. -/
def parseRequest (line : Text) : Except Text Request :=
  let line := Text.trimEndMatches Text.isLineBreak line
  if maxUri < (Utf8.encode line).length then
    .error ("request exceeds ".toList ++ Text.decimal maxUri ++ " bytes".toList)
  else
    let fields := line.splitOn ' '
    match fields[0]? with
    | none | some [] => .error line
    | some uri =>
      match fields[1]?.elim (some 0) Text.parseI64 with
      | none => .error line
      | some lastCached => .ok { uri, lastCached, language := fields[2]?.getD [] }

/-- `parse_header`; the error is the line. -/
def parseHeader (line : Text) : Except Text Header :=
  let line := Text.trimEndMatches Text.isLineBreak line
  let header : Option Header := do
    let (code, rest) ← Text.splitCode line
    let status ← Status.fromCode code
    let rest := Text.trimStart rest
    match status with
    | .success =>
      let fields := Text.splitN ' ' 3 rest
      let length ← fields[0]? >>= Text.parseI64
      let lastUpdated ← fields[1]? >>= Text.parseI64
      let expires ← fields[2]? >>= Text.parseI64
      let mimetype ← Text.trim <$> fields[3]?
      if mimetype.isEmpty then none
      else some (.success code { length, lastUpdated, expires } mimetype)
    | .unchanged =>
      -- `split` yields a first field always
      let expires := ((Text.splitOnce ' ' rest).map Prod.fst).getD rest
      return .unchanged code (← Text.parseI64 expires)
    | _ => some (.metadata code status rest)
  match header with
  | some header => .ok header
  | none => .error line

/-- `format_header`, with its CRLF. -/
def formatHeader : Header → Text
  | .success code cache mimetype =>
    Text.decimal code ++ [' '] ++ Text.decimalI64 cache.length ++ [' '] ++
      Text.decimalI64 cache.lastUpdated ++ [' '] ++ Text.decimalI64 cache.expires ++ [' '] ++
      mimetype ++ ['\r', '\n']
  | .unchanged code expires =>
    Text.decimal code ++ [' '] ++ Text.decimalI64 expires ++ ['\r', '\n']
  | .metadata code _ metaText =>
    if metaText.isEmpty then Text.decimal code ++ ['\r', '\n']
    else Text.decimal code ++ [' '] ++ metaText ++ ['\r', '\n']

end Smolweb.Kepler
