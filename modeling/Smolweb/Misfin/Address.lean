import Smolweb.Lib.Utf8

/-!
# Misfin addresses

`MisfinAddress` and `MisfinSender` of `lib.rs`, and what the crate reads of a parsed URL.
-/

namespace Smolweb.Misfin

/-- `MAX_REQUEST_BYTES`: the ceiling on a request line, CRLF included. -/
def maxRequestBytes : Nat := 2048

/-- What is read of a `url::Url`: `username()` and `host_str()`. -/
structure Url where
  username : Text
  hostStr : Option Text
  deriving Repr, DecidableEq

/-- `mailbox@host`. -/
structure MisfinAddress where
  mailbox : Text
  host : Text
  deriving Repr, DecidableEq

/-- A message sender, as a certificate claims it. -/
structure MisfinSender where
  address : MisfinAddress
  blurb : Option Text
  deriving Repr, DecidableEq

def toAsciiLowercase (t : Text) : Text := t.map Char.toLower

namespace MisfinAddress

def parse (input : Text) : Except Text MisfinAddress :=
  let trimmed := Text.trim input
  let invalid := "Invalid Misfin address '".toList ++ trimmed ++ "'.".toList
  match Text.splitOnce '@' trimmed with
  | none => .error invalid
  | some (mailbox, host) =>
    if mailbox.isEmpty || host.isEmpty then .error invalid
    else .ok ⟨mailbox, toAsciiLowercase host⟩

def fromUrl (url : Url) : Except Text MisfinAddress :=
  let mailbox := Text.trim url.username
  if mailbox.isEmpty then
    .error "Misfin URL is missing the recipient mailbox in the username position.".toList
  else match url.hostStr with
    | none => .error "Misfin URL is missing a host.".toList
    | some host => parse (mailbox ++ '@' :: host)

def asAddrSpec (a : MisfinAddress) : Text := a.mailbox ++ '@' :: a.host

end MisfinAddress

/-! ## Lower case -/

theorem toLower_of_not_ascii {c : Char} (h : 128 ≤ c.toNat) : c.toLower = c := by
  apply dif_neg
  rintro ⟨-, hupper⟩
  have hle : c.toNat ≤ 'Z'.toNat := UInt32.le_iff_toNat_le.mp hupper
  exact absurd (Nat.le_trans h hle) (by decide)

/-- What holds of every ASCII character and of every character that lowercasing leaves alone. -/
theorem ascii_or_toLower {P : Char → Prop} (hascii : ∀ n < 128, P (Char.ofNat n))
    (hother : ∀ c, c.toLower = c → P c) (c : Char) : P c := by
  rcases Nat.lt_or_ge c.toNat 128 with hlt | hge
  · have hc := hascii c.toNat hlt
    rwa [Char.ofNat_toNat] at hc
  · exact hother c (toLower_of_not_ascii hge)

theorem toLower_toLower (c : Char) : c.toLower.toLower = c.toLower := by
  have hascii : ∀ n < 128, (Char.ofNat n).toLower.toLower = (Char.ofNat n).toLower := by decide
  exact ascii_or_toLower (P := fun c => c.toLower.toLower = c.toLower) hascii
    (fun c hc => by rw [hc, hc]) c

theorem isWhitespace_toLower (c : Char) :
    Text.isWhitespace c.toLower = Text.isWhitespace c := by
  have hascii : ∀ n < 128, Text.isWhitespace (Char.ofNat n).toLower =
      Text.isWhitespace (Char.ofNat n) := by decide
  exact ascii_or_toLower (P := fun c => Text.isWhitespace c.toLower = Text.isWhitespace c) hascii
    (fun c hc => by rw [hc]) c

theorem toLower_eq_iff {d : Char} (hd : ∀ n < 128, (Char.ofNat n).toLower = d ↔ Char.ofNat n = d)
    (c : Char) : c.toLower = d ↔ c = d :=
  ascii_or_toLower (P := fun c => c.toLower = d ↔ c = d) hd (fun c hc => by rw [hc]) c

end Smolweb.Misfin
