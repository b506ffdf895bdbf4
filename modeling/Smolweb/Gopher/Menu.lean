import Smolweb.Lib.Lines

/-!
# Gopher menus

`menu.rs`: the lines of a menu, and the URL of each item.
-/

namespace Smolweb.Gopher

inductive GopherKind where
  | info
  | error
  | text
  | submenu
  | search
  | binary
  | image
  | sound
  | telnet
  | url
  | other (typeChar : Char)
  deriving Repr, DecidableEq

/-- The Gopher+ marker in the fifth field. -/
inductive GopherPlus where
  | supported
  | form
  deriving Repr, DecidableEq

def GopherPlus.fromField (field : Text) : Option GopherPlus :=
  if Text.trim field = ['+'] then some supported
  else if Text.trim field = ['?'] then some form
  else none

structure GopherItem where
  kind : GopherKind
  display : Text
  url : Option Text
  plus : Option GopherPlus
  deriving Repr, DecidableEq

def kindOf : Char → GopherKind
  | '0' => .text
  | '1' => .submenu
  | '7' => .search
  | '9' => .binary
  | 'g' | 'I' => .image
  | 's' => .sound
  | 'T' => .telnet
  | other => .other other

def synthesiseGopherUrl (typeChar : Char) (host port selector : Text) : Text :=
  let portPart := if port.isEmpty || port = "70".toList then [] else ':' :: port
  "gopher://".toList ++ host ++ portPart ++ ['/', typeChar] ++ selector

namespace Menu

def parseLine : Text → Option GopherItem
  | [] => none
  | typeChar :: rest =>
    let parts := Text.splitN '\t' 4 rest
    let display := parts[0]?.getD []
    let selector := parts[1]?.getD []
    let host := parts[2]?.getD []
    let port := parts[3]?.getD "70".toList
    let plus := parts[4]?.bind GopherPlus.fromField
    if typeChar = 'i' then some { kind := .info, display, url := none, plus }
    else if typeChar = '3' then some { kind := .error, display, url := none, plus }
    else if typeChar = 'h' then
      let url := Text.trim ((Text.stripPrefix "URL:".toList selector).getD selector)
      if url.isEmpty then none else some { kind := .url, display, url := some url, plus }
    else if host.isEmpty then none
    else
      let url := synthesiseGopherUrl typeChar host port selector
      some { kind := kindOf typeChar, display, url := some url, plus }

/-- The lines that the loop of `parse` comes to: those before a `.`, without the empty ones. -/
def menuLines (body : Text) : List Text :=
  ((Text.lines body).takeWhile (· ≠ ['.'])).filter fun line => !line.isEmpty

def parse (body : Text) : List GopherItem := (menuLines body).filterMap parseLine

end Menu

end Smolweb.Gopher
