import Smolweb.Lib.Fields
import Smolweb.Lib.Utf8

/-!
# Status codes

`status.rs`: two digits, of which the first, the class, decides how the rest of the status line is
split into parameters and whether a body follows.
-/

namespace Smolweb.Scorpion

/-- The status class. -/
inductive Major where
  | interactive
  | input
  | success
  | redirect
  | temporaryError
  | permanentError
  | certificateRequired
  | readyToReceive
  | accepted
  deriving Repr, DecidableEq

namespace Major

def digit : Major → Nat
  | .interactive => 0
  | .input => 1
  | .success => 2
  | .redirect => 3
  | .temporaryError => 4
  | .permanentError => 5
  | .certificateRequired => 6
  | .readyToReceive => 7
  | .accepted => 8

/-- The class for a leading digit; 9 has none. -/
def fromDigit : Nat → Option Major
  | 0 => some .interactive
  | 1 => some .input
  | 2 => some .success
  | 3 => some .redirect
  | 4 => some .temporaryError
  | 5 => some .permanentError
  | 6 => some .certificateRequired
  | 7 => some .readyToReceive
  | 8 => some .accepted
  | _ => none

/-- How many parameters precede the final free-text one. -/
def leadingParameters : Major → Nat
  | .success | .accepted => 2
  | .temporaryError => 1
  | .certificateRequired => 1
  | _ => 0

theorem digit_of_fromDigit {d : Nat} {m : Major} (h : fromDigit d = some m) : m.digit = d := by
  unfold fromDigit at h
  split at h <;> cases h <;> rfl

theorem fromDigit_isSome {d : Nat} (h : d < 9) : (fromDigit d).isSome :=
  (by decide : ∀ d < 9, (fromDigit d).isSome) d h

end Major

/-- A two-digit status code; the leading digit is never 9. -/
structure Status where
  code : Nat
  valid : code < 90
  deriving Repr, DecidableEq

namespace Status

def OK : Status := ⟨20, by decide⟩
def PARTIAL : Status := ⟨21, by decide⟩
def INPUT : Status := ⟨10, by decide⟩
def TEMPORARY_REDIRECT : Status := ⟨30, by decide⟩
def PERMANENT_REDIRECT : Status := ⟨31, by decide⟩
def SLOW_DOWN : Status := ⟨44, by decide⟩
def NOT_FOUND : Status := ⟨51, by decide⟩
def BAD_REQUEST : Status := ⟨59, by decide⟩

/-- `Status::new`. -/
def new (major minor : Nat) : Option Status :=
  if h : 8 < major ∨ 9 < minor then none
  else some ⟨major * 10 + minor, by omega⟩

def major (s : Status) : Major :=
  (Major.fromDigit (s.code / 10)).get (Major.fromDigit_isSome (by have := s.valid; omega))

/-- The two ASCII digits. -/
def toAscii (s : Status) : Bytes := [UInt8.ofNat (48 + s.code / 10), UInt8.ofNat (48 + s.code % 10)]

def leadingParameters (s : Status) : Nat := s.major.leadingParameters

theorem fromDigit_major (s : Status) : Major.fromDigit (s.code / 10) = some s.major :=
  (Option.some_get _).symm

theorem digit_major (s : Status) : s.major.digit = s.code / 10 :=
  Major.digit_of_fromDigit s.fromDigit_major

theorem new_eq_some_iff {a b : Nat} {s : Status} :
    new a b = some s ↔ a ≤ 8 ∧ b ≤ 9 ∧ s.code = a * 10 + b := by
  unfold new
  split
  · constructor
    · intro h
      cases h
    · rintro ⟨ha, hb, -⟩
      omega
  · cases s
    simp only [Option.some.injEq, Status.mk.injEq]
    omega

/-- A status is made of its digits. -/
theorem new_digits (s : Status) : new (s.code / 10) (s.code % 10) = some s := by
  have := s.valid
  rw [new_eq_some_iff]
  omega

end Status

/-- `split_parameters`: the final parameter may contain spaces. -/
def splitParameters (status : Status) (rest : Text) : List Text :=
  Text.splitFields ' ' status.leadingParameters rest

end Smolweb.Scorpion
