import Smolweb.Fsp.Wire

/-!
# FSP requests

`Session::request` and `Session::await_reply` of `client.rs`. What the socket does is a script:
for each attempt the error its send fails with, if it does, and what arrives before its deadline.
-/

namespace Smolweb.Fsp

inductive ClientError where
  | io (message : Text)
  | refused (message : Text)
  | timedOut
  deriving Repr, DecidableEq

/-- A datagram in the socket. `origin` is the number of the request it answers, if it answers one;
the client does not see it. -/
structure Datagram where
  origin : Option Nat
  bytes : Bytes
  deriving Repr, DecidableEq

inductive Recv where
  | datagram (d : Datagram)
  | failed (error : Text)
  deriving Repr, DecidableEq

structure Attempt where
  sendError : Option Text
  /-- What is received before the deadline, in order. -/
  arrivals : List Recv
  deriving Repr, DecidableEq

structure Session where
  key : UInt16
  sequence : UInt16
  /-- How many times a request is sent before giving up. -/
  attempts : Nat
  deriving Repr, DecidableEq

/-- The session that `connect` opens; `attempts` may be set afterwards. -/
def Session.opened (attempts : Nat) : Session := ⟨0, 1, attempts⟩

/-- The part of a datagram that fits the receive buffer. -/
def received (d : Datagram) : Bytes := d.bytes.take (headerLen + maxPayload * 2)

/-- `await_reply`: the first reply with the expected sequence that arrives in time. -/
def awaitReply (sequence : UInt16) : List Recv → Except ClientError (Option Packet)
  | [] => .ok none
  | .failed e :: _ => .error (.io e)
  | .datagram d :: rest =>
    match decode (received d) .serverToClient with
    | .ok packet =>
      if packet.header.sequence = sequence then .ok (some packet) else awaitReply sequence rest
    | .error _ => awaitReply sequence rest

/-- The `for` loop of `request`: a reply, or none within the attempts left, the next of which is
the `n`-th. -/
def attemptLoop (sequence : UInt16) (script : Nat → Attempt) :
    (attempts n : Nat) → Except ClientError (Option Packet)
  | 0, _ => .ok none
  | attempts + 1, n =>
    match (script n).sendError with
    | some e => .error (.io e)
    | none =>
      match awaitReply sequence (script n).arrivals with
      | .error e => .error e
      | .ok (some reply) => .ok (some reply)
      | .ok none => attemptLoop sequence script attempts (n + 1)

def trimNul (bytes : Bytes) : Text :=
  Text.trimEndMatches (fun c => c == Char.ofNat 0) (Utf8.decodeLossy bytes)

structure Call where
  command : Command
  data : Bytes
  filePosition : UInt32
  deriving Repr, DecidableEq

namespace Session

def nextSequence (s : Session) : UInt16 := s.sequence + 1

/-- The packet that `request` sends; `data.len() as u16` truncates. -/
def outgoing (s : Session) (call : Call) : Packet where
  header := {
    command := call.command.code
    key := s.key
    sequence := s.nextSequence
    dataLength := UInt16.ofNat call.data.length
    filePosition := call.filePosition }
  data := call.data
  extra := []

/-- The reply that `request` accepts, if its loop ends with one. -/
def exchange (s : Session) (script : Nat → Attempt) : Except ClientError (Option Packet) :=
  attemptLoop s.nextSequence script s.attempts 0

/-- `request`: its result and the session after it. The datagram it sends is `outgoing`, encoded
for the server. -/
def request (s : Session) (script : Nat → Attempt) : Except ClientError Packet × Session :=
  let s' := { s with sequence := s.nextSequence }
  match s.exchange script with
  | .error e => (.error e, s')
  | .ok none => (.error .timedOut, s')
  | .ok (some reply) =>
    let s' := { s' with key := reply.header.key }
    if reply.header.command = Command.err.code then (.error (.refused (trimNul reply.data)), s')
    else (.ok reply, s')

end Session

end Smolweb.Fsp
