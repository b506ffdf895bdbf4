import Smolweb.Lib.Decimal
import Smolweb.Lib.Duplex
import Smolweb.Misfin.Identity
import Smolweb.Misfin.Status

/-!
# The misfin client

`build_request` of `client.rs`, and `send` from the handshake on. The connection stays up and no
step takes too long; the identity is its certificate, the first of the chain.
-/

namespace Smolweb.Misfin

inductive SendError where
  | messageTooLong (requestBytes max : Nat)
  | messageContainsCarriageReturn
  deriving Repr, DecidableEq

def buildRequest (recipient : MisfinAddress) (message : Text) : Except SendError Text :=
  if '\r' ∈ message then .error .messageContainsCarriageReturn
  else
    let request :=
      "misfin://".toList ++ recipient.asAddrSpec ++ ' ' :: message ++ ['\r', '\n']
    let bytes := (Utf8.encode request).length
    if maxRequestBytes < bytes then .error (.messageTooLong bytes maxRequestBytes)
    else .ok request

/-! ## One transaction -/

structure SendOptions where
  /-- The certificate presented in the handshake. -/
  identity : Option Bytes := none
  /-- A pinned fingerprint of the server's certificate. -/
  expectedFingerprint : Option Text := none
  deriving Repr, DecidableEq

structure SendReceipt where
  status : MisfinStatus
  metaText : Text
  serverFingerprint : Text
  deriving Repr, DecidableEq

/-- How `send` fails: before anything is sent as `SendError`, or by its other errors. -/
inductive SendFailure where
  | request (error : SendError)
  | fingerprintMismatch (expected found : Text)
  | tls (message : Text)
  | badResponse (error : ResponseLineError)
  deriving Repr, DecidableEq

def normalizeFingerprint (input : Text) : Text :=
  (input.filter Char.isAlphanum).map Char.toLower

/-- The loop of `read_response_line`, over what has not been read yet. -/
def responseLoop : (buf unread : Bytes) → Bytes × Bytes
  | buf, [] => (buf, [])
  | buf, byte :: rest =>
    let buf := buf ++ [byte]
    if [13, 10] <:+ buf ∨ maxRequestBytes ≤ buf.length then (buf, rest)
    else responseLoop buf rest

def readResponseLine : DuplexM UInt8 SendFailure Text := fun s =>
  let r := responseLoop [] s.unread
  (.ok (Utf8.decodeLossy r.1), { s with unread := r.2 })

/-- `send`, from the handshake on, in which the server presented `serverCert`. -/
def send (crates : Crates) (recipient : MisfinAddress) (message : Text) (options : SendOptions)
    (serverCert : Option Bytes) : DuplexM UInt8 SendFailure SendReceipt :=
  match buildRequest recipient message with
  | .error error => throw (.request error)
  | .ok request =>
    match serverCert with
    | none => throw (.tls "server presented no certificate".toList)
    | some cert =>
      let serverFingerprint := sha256Hex crates cert
      match options.expectedFingerprint.filter (normalizeFingerprint · ≠ serverFingerprint) with
      | some expected =>
        throw (.fingerprintMismatch (normalizeFingerprint expected) serverFingerprint)
      | none => do
        DuplexM.write (Utf8.encode request)
        let line ← readResponseLine
        match parseResponseLine line with
        | .error error => throw (.badResponse error)
        | .ok (status, metaText) => return { status, metaText, serverFingerprint }

end Smolweb.Misfin
