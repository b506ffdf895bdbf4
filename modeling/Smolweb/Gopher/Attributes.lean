import Smolweb.Gopher.Client
import Smolweb.Lib.Lines

/-!
# Gopher+ attributes

The attribute blocks of `plus.rs`, and the views and forms that two of them hold; and the fetches
of attributes in `client.rs`.
-/

namespace Smolweb.Gopher

/-- A block: its name without the `+`, what stands on its own line after the colon, and the lines
below it without their space. -/
structure AttributeBlock where
  name : Text
  head : Option Text
  lines : List Text
  deriving Repr, DecidableEq

/-- The block that a line opens, of which `rest` is what follows the `+`. -/
def openBlock (rest : Text) : AttributeBlock :=
  let (name, head) := match Text.splitOnce ':' rest with
    | some (name, head) => (name, Text.trim head)
    | none => (rest, [])
  { name := Text.trim name, head := if head.isEmpty then none else some head, lines := [] }

/-- One turn of the loop of `parse_attributes`. -/
def pushLine (blocks : List AttributeBlock) (line : Text) : List AttributeBlock :=
  match Text.stripPrefix ['+'] line with
  | some rest => blocks ++ [openBlock rest]
  | none =>
    match Text.stripPrefix [' '] line, blocks.getLast? with
    | some content, some block =>
      blocks.dropLast ++ [{ block with lines := block.lines ++ [content] }]
    | _, _ => blocks

def parseAttributes (text : Text) : List AttributeBlock :=
  ((Text.lines text).takeWhile (· ≠ ['.'])).foldl pushLine []

/-! ## Views -/

/-- An alternate representation of an item; the size is kept as the server wrote it. -/
structure View where
  mime : Text
  language : Option Text
  size : Option Text
  deriving Repr, DecidableEq

/-- The label of a line, and its size. -/
def labelAndSize (line : Text) : Text × Text :=
  match Text.splitOnce ':' line with
  | some (label, size) => (Text.trim label, Text.trim size)
  | none => (Text.trim line, [])

/-- A label is a MIME type, and a language tag after whitespace. -/
def mimeAndLanguage (label : Text) : Text × Option Text :=
  match Text.splitOnceWhere Text.isWhitespace label with
  | some (mime, lang) => (Text.trim mime, some (Text.trim lang))
  | none => (label, none)

/-- What `parse_views` makes of a line. -/
def parseView (line : Text) : Option View :=
  let (label, size) := labelAndSize line
  if label.isEmpty then none
  else
    let (mime, language) := mimeAndLanguage label
    some { mime, language, size := if size.isEmpty then none else some size }

def parseViews (block : AttributeBlock) : List View := block.lines.filterMap parseView

/-! ## Forms -/

/-- A question of a form. -/
inductive AskDirective where
  | ask (prompt : Text) (default : Option Text)
  | askPassword (prompt : Text) (default : Option Text)
  | askLong (prompt : Text) (default : Option Text)
  | askFile (prompt : Text) (default : Option Text)
  | select (prompt : Text) (options : List Text)
  | choose (prompt : Text) (options : List Text)
  | chooseFile (prompt : Text)
  | note (text : Text)
  | unknown (directive rest : Text)
  deriving Repr, DecidableEq

/-- The directive of a line, and the rest of it. -/
def directiveAndRest (line : Text) : Text × Text :=
  match Text.splitOnce ':' line with
  | some (directive, rest) => (Text.trim directive, Text.trimStart rest)
  | none => (Text.trim line, [])

/-- A prompt, and what comes after TABs: a default, or the options. -/
def promptAndTail (rest : Text) : Text × List Text :=
  let fields := rest.splitOn '\t'
  (Text.trim (fields.headD []), (fields.tail.map Text.trim).filter fun f => !f.isEmpty)

def parseAskLine (line : Text) : AskDirective :=
  let (directive, rest) := directiveAndRest line
  let (prompt, tail) := promptAndTail rest
  let default := tail.head?
  if directive = "Ask".toList then .ask prompt default
  else if directive = "AskP".toList then .askPassword prompt default
  else if directive = "AskL".toList then .askLong prompt default
  else if directive = "AskF".toList then .askFile prompt default
  else if directive = "Select".toList then .select prompt tail
  else if directive = "Choose".toList then .choose prompt tail
  else if directive = "ChooseF".toList then .chooseFile prompt
  else if directive = "Note".toList then .note (Text.trim rest)
  else .unknown directive rest

def parseAsk (block : AttributeBlock) : List AskDirective := block.lines.map parseAskLine

/-! ## Fetching -/

/-- A Gopher+ transaction whose reply is parsed for blocks. -/
def fetchBlocks (parse : UrlParser) (tls : Bool) (url : Text) (request : PlusRequest) :
    Except ClientError (Fetch ClientError (List AttributeBlock)) :=
  (fetchPlus parse tls url request).map fun f =>
    { host := f.host
      port := f.port
      exchange := do
        let reply ← f.exchange
        pure (parseAttributes (Utf8.decodeLossy reply.body)) }

def fetchAttributes (parse : UrlParser) (tls : Bool) (url : Text) :
    Except ClientError (Fetch ClientError (List AttributeBlock)) :=
  fetchBlocks parse tls url .attributes

def fetchDirectoryAttributes (parse : UrlParser) (tls : Bool) (url : Text) :
    Except ClientError (Fetch ClientError (List AttributeBlock)) :=
  fetchBlocks parse tls url .directoryAttributes

end Smolweb.Gopher
