import Smolweb.Lib.Lines
import Smolweb.Misfin.Address

/-!
# Gemmail

`gemmail.rs`: gemtext with three kinds of metadata lines, sender (`<`), recipients (`:`) and
timestamp (`@`). The first line of each kind is taken out of the text; later ones stay in the body.
-/

namespace Smolweb.Misfin

structure MisfinGemmail where
  sender : Option MisfinSender
  recipients : List MisfinAddress
  timestamp : Option Text
  subject : Option Text
  body : Text
  deriving Repr, DecidableEq

/-- `split_once_whitespace` of `helpers.rs`. -/
def splitOnceWhitespace (input : Text) : Text × Option Text :=
  let head := input.takeWhile fun c => !Text.isWhitespace c
  let tail := Text.trim (input.drop head.length)
  (head, if tail.isEmpty then none else some tail)

def parseSenderLine (line : Text) : Option MisfinSender := do
  let remainder := Text.trim (← Text.stripPrefix ['<'] line)
  if remainder.isEmpty then none
  else
    let (address, blurb) := splitOnceWhitespace remainder
    let address ← (MisfinAddress.parse address).toOption
    some { address, blurb }

def parseRecipientsLine (line : Text) : Option (List MisfinAddress) := do
  let remainder := Text.trim (← Text.stripPrefix [':'] line)
  (Text.words remainder).mapM fun part => (MisfinAddress.parse part).toOption

def parseTimestampLine (line : Text) : Option Text := do
  let remainder := Text.trim (← Text.stripPrefix ['@'] line)
  if remainder.isEmpty then none else some remainder

/-- What the loop of `parse_gemmail` has found so far. -/
structure Found where
  sender : Option MisfinSender := none
  recipients : Option (List MisfinAddress) := none
  timestamp : Option Text := none
  bodyLines : List Text := []

/-- The loop's body. -/
def Found.next (found : Found) (line : Text) : Found :=
  match if found.sender.isNone then parseSenderLine line else none with
  | some sender => { found with sender := some sender }
  | none =>
    match if found.recipients.isNone then parseRecipientsLine line else none with
    | some recipients => { found with recipients := some recipients }
    | none =>
      match if found.timestamp.isNone then parseTimestampLine line else none with
      | some timestamp => { found with timestamp := some timestamp }
      | none => { found with bodyLines := found.bodyLines ++ [line] }

/-- The text of a line that is a heading. -/
def heading (line : Text) : Option Text :=
  ((Text.stripPrefix "### ".toList line).or
    ((Text.stripPrefix "## ".toList line).or (Text.stripPrefix "# ".toList line))).map Text.trim

/-- The lines, without any CR at their ends. -/
def gemmailLines (text : Text) : List Text :=
  (Text.lines text).map (Text.trimEndMatches (· == '\r'))

def Found.gemmail (found : Found) : MisfinGemmail where
  sender := found.sender
  recipients := found.recipients.getD []
  timestamp := found.timestamp
  subject := found.bodyLines.findSome? heading
  body := Text.joinFields '\n' found.bodyLines

def parseGemmail (text : Text) : MisfinGemmail :=
  ((gemmailLines text).foldl Found.next {}).gemmail

namespace MisfinGemmail

def senderLine (sender : MisfinSender) : Text :=
  ['<', ' '] ++ sender.address.asAddrSpec ++ sender.blurb.elim [] fun blurb => ' ' :: blurb

def recipientsLine (recipients : List MisfinAddress) : Text :=
  ':' :: recipients.flatMap fun recipient => ' ' :: recipient.asAddrSpec

def timestampLine (timestamp : Text) : Text := ['@', ' '] ++ timestamp

/-- The metadata lines of a message, those it has. -/
def metadataLines (gemmail : MisfinGemmail) : List Text :=
  (gemmail.sender.map senderLine).toList ++
    (if gemmail.recipients.isEmpty then [] else [recipientsLine gemmail.recipients]) ++
    (gemmail.timestamp.map timestampLine).toList

/-- `to_gemtext`. -/
def toGemtext (gemmail : MisfinGemmail) : Text :=
  gemmail.metadataLines.flatMap (· ++ ['\n']) ++ gemmail.body

end MisfinGemmail

/-- The closure `push` of `reply_recipients`. -/
def pushRecipient (me : MisfinAddress) (out : List MisfinAddress) (candidate : MisfinAddress) :
    List MisfinAddress :=
  if candidate ≠ me ∧ candidate ∉ out then out ++ [candidate] else out

def replyRecipients (gemmail : MisfinGemmail) (me : MisfinAddress) : List MisfinAddress :=
  let out :=
    match gemmail.sender with
    | some sender => pushRecipient me [] sender.address
    | none => []
  gemmail.recipients.foldl (pushRecipient me) out

end Smolweb.Misfin
