import Smolweb.Lib.Decimal
import Smolweb.Lib.Lines

/-!
# Misfin replies on the wire

`status.rs`: the vocabulary of status codes, and the client's reading of a response line. The
escaped line in the texts of its two errors is given as the line itself.
-/

namespace Smolweb.Misfin

inductive StatusCategory where
  | reserved
  | success
  | redirect
  | temporaryFailure
  | permanentFailure
  | authenticationFailure
  | unknown
  deriving Repr, DecidableEq

/-- A response status; a code without a meaning is kept. -/
inductive MisfinStatus where
  | delivered
  | sendHereInstead
  | sendHereForever
  | temporaryError
  | serverUnavailable
  | cgiError
  | proxyingError
  | slowDown
  | mailboxFull
  | permanentError
  | mailboxDoesNotExist
  | mailboxGone
  | domainNotServiced
  | badRequest
  | certificateRequired
  | unauthorizedSender
  | certificateInvalid
  | fingerprintChanged
  | proveIt
  | other (code : Nat)
  deriving Repr, DecidableEq

namespace MisfinStatus

def fromCode : Nat → MisfinStatus
  | 20 => .delivered
  | 30 => .sendHereInstead
  | 31 => .sendHereForever
  | 40 => .temporaryError
  | 41 => .serverUnavailable
  | 42 => .cgiError
  | 43 => .proxyingError
  | 44 => .slowDown
  | 45 => .mailboxFull
  | 50 => .permanentError
  | 51 => .mailboxDoesNotExist
  | 52 => .mailboxGone
  | 53 => .domainNotServiced
  | 59 => .badRequest
  | 60 => .certificateRequired
  | 61 => .unauthorizedSender
  | 62 => .certificateInvalid
  | 63 => .fingerprintChanged
  | 64 => .proveIt
  | code => .other code

def code : MisfinStatus → Nat
  | .delivered => 20
  | .sendHereInstead => 30
  | .sendHereForever => 31
  | .temporaryError => 40
  | .serverUnavailable => 41
  | .cgiError => 42
  | .proxyingError => 43
  | .slowDown => 44
  | .mailboxFull => 45
  | .permanentError => 50
  | .mailboxDoesNotExist => 51
  | .mailboxGone => 52
  | .domainNotServiced => 53
  | .badRequest => 59
  | .certificateRequired => 60
  | .unauthorizedSender => 61
  | .certificateInvalid => 62
  | .fingerprintChanged => 63
  | .proveIt => 64
  | .other code => code

def category (status : MisfinStatus) : StatusCategory :=
  match status.code / 10 with
  | 1 => .reserved
  | 2 => .success
  | 3 => .redirect
  | 4 => .temporaryFailure
  | 5 => .permanentFailure
  | 6 => .authenticationFailure
  | _ => .unknown

def isSuccess (status : MisfinStatus) : Bool := status.category == .success

@[simp] theorem code_fromCode (n : Nat) : (fromCode n).code = n := by
  unfold fromCode
  split <;> rfl

end MisfinStatus

/-- The errors of `parse_response_line`, with the line they show. -/
inductive ResponseLineError where
  | tooShort (line : Text)
  | notNumeric (line : Text)
  deriving Repr, DecidableEq

def parseResponseLine (line : Text) : Except ResponseLineError (MisfinStatus × Text) :=
  let line := Text.trimEndMatches Text.isLineBreak line
  match Text.splitAtByte 2 line with
  | none => .error (.tooShort line)
  | some (digits, rest) =>
    match Text.parseUnsigned 255 digits with
    | none => .error (.notNumeric line)
    | some code => .ok (.fromCode code, (Text.stripPrefix [' '] rest).getD rest)

end Smolweb.Misfin
