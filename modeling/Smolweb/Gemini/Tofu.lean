import Mathlib.Logic.Function.Basic
import Smolweb.Lib.Decimal
import Smolweb.Lib.Prog
import Smolweb.Lib.Utf8

/-!
# Gemini's trust on first use

`InMemoryTofu` of `tofu.rs`, `verify_server_cert` of `tls.rs` and `tofu_connect` of `client.rs`.
Looking a pin up and pinning are critical sections of their own, with the handshake between them,
so a connection is a program whose operations other connections may come between.
-/

namespace Smolweb.Gemini

/-- A SHA-256 digest, `[u8; 32]`. -/
abbrev Fingerprint := Vector UInt8 32

def hex (bytes : Fingerprint) : Text :=
  bytes.toList.flatMap fun b => [Nat.digitChar (b.toNat / 16), Nat.digitChar (b.toNat % 16)]

/-- `InMemoryTofu`: the pinned fingerprints by host. -/
structure InMemoryTofu where
  pins : Text → Option Fingerprint

namespace InMemoryTofu

def new : InMemoryTofu := ⟨fun _ => none⟩

def fingerprint (store : InMemoryTofu) (host : Text) : Option Fingerprint := store.pins host

/-- `pin`: an unconditional insert. -/
def pin (store : InMemoryTofu) (host : Text) (fingerprint : Fingerprint) : InMemoryTofu :=
  ⟨Function.update store.pins host (some fingerprint)⟩

end InMemoryTofu

inductive ClientError where
  | connect (message : Text)
  | certificateChanged (host pinned seen : Text)
  deriving Repr, DecidableEq

/-- How far TCP and TLS get. A handshake that reaches the server's certificate shows its leaf to
the verifier, and may still fail for another reason. -/
inductive Handshake where
  | tcpFailed (error : Text)
  | badServerName (error : Text)
  | failed (error : Text)
  | shown (leaf : Bytes) (error : Option Text)
  deriving Repr, DecidableEq

/-- `PinningVerifier::verify_server_cert`, without its error's text. -/
def verifyServerCert (pinned : Option Fingerprint) (fingerprint : Fingerprint) : Bool :=
  match pinned with
  | none => true
  | some pinned => pinned == fingerprint

inductive TofuOp where
  | fingerprint (host : Text)
  | handshake
  | pin (host : Text) (fingerprint : Fingerprint)
  /-- The return of a stream, a step of its own: others may come between it and `pin`. -/
  | finish

def TofuOp.Result : TofuOp → Type
  | .fingerprint _ => Option Fingerprint
  | .handshake => Handshake
  | .pin _ _ => Unit
  | .finish => Unit

/-- A step on the store; the input is what a handshake meets. -/
def TofuOp.exec : Semantics TofuOp.Result Handshake InMemoryTofu
  | .fingerprint host, _, store => some (store.fingerprint host, store)
  | .handshake, met, store => some (met, store)
  | .pin host f, _, store => some ((), store.pin host f)
  | .finish, _, store => some ((), store)

/-- A connection that succeeds ends with the leaf certificate the server presented. -/
abbrev Connect := Prog TofuOp.Result (Except ClientError Bytes)

/-- The end of `tofu_connect`, from the handshake's outcome on. -/
def finishConnect (digest : Bytes → Fingerprint) (host port : Text)
    (pinned : Option Fingerprint) : Handshake → Connect
  | .tcpFailed e =>
    .ret (.error (.connect ("tcp ".toList ++ host ++ ':' :: port ++ ": ".toList ++ e)))
  | .badServerName e =>
    .ret (.error (.connect ("server name ".toList ++ host ++ ": ".toList ++ e)))
  | .failed e => .ret (.error (.connect ("tls handshake: ".toList ++ e)))
  | .shown leaf error =>
    let seen := digest leaf
    if verifyServerCert pinned seen then
      match error with
      | some e => .ret (.error (.connect ("tls handshake: ".toList ++ e)))
      | none =>
        if pinned.isNone then
          .call (.pin host seen) fun _ => .call .finish fun _ => .ret (.ok leaf)
        else .call .finish fun _ => .ret (.ok leaf)
    else .ret (.error (.certificateChanged host (hex (pinned.getD seen)) (hex seen)))

def tofuConnect (digest : Bytes → Fingerprint) (host : Text) (port : Nat) : Connect :=
  .call (.fingerprint host) fun (pinned : Option Fingerprint) =>
    .call .handshake fun (met : Handshake) =>
      finishConnect digest host (Text.decimal port) pinned met

end Smolweb.Gemini
