import Smolweb.Guppy.Packet
import Smolweb.Lib.Arith
import Std.Data.TreeMap.Lemmas

/-!
# The guppy client

`Reassembly` and `transact` of `client.rs`. The network's part in a transaction is a list of
events, one for each turn of the loop: the datagram that arrives, the receive timeout, or an
error, together with the outcomes of the sends made in that turn.
-/

namespace Smolweb.Guppy

/-- The `fetch` options `transact` reads. -/
structure FetchOptions where
  /-- Refuse reassembled bodies larger than this. -/
  maxBody : Nat := 16 * 1024 * 1024
  deriving Repr, DecidableEq

inductive ClientError where
  | io (message : Text)
  | bodyTooLarge (max : Nat)
  deriving Repr, DecidableEq

/-- Reassembly state for one success response. -/
structure Reassembly where
  firstSeq : Nat
  mime : Text
  /-- Data chunks keyed by number, the first packet's included. -/
  chunks : Std.TreeMap Nat Bytes
  /-- Highest number such that every number from `firstSeq` to it is present. -/
  contiguousEnd : Nat
  buffered : Nat
  /-- The empty continuation's number, once seen. -/
  eofSeq : Option Nat

/-- The `while` loop of `insert`. It can take at most one turn for each chunk before it ends;
`none` is an overflow panic, or a loop that never ends. -/
def advance (o : Overflow) (chunks : Std.TreeMap Nat Bytes) :
    (fuel contiguousEnd : Nat) → Option Nat
  | 0, _ => none
  | fuel + 1, contiguousEnd => do
    let next ← o.add maxU32 contiguousEnd 1
    if chunks.contains next then advance o chunks fuel next else some contiguousEnd

namespace Reassembly

def insert (o : Overflow) (r : Reassembly) (seq : Nat) (data : Bytes) : Option Reassembly := do
  let chunks := r.chunks.insertIfNew seq data
  let contiguousEnd ← advance o chunks (chunks.size + 1) r.contiguousEnd
  some { r with buffered := r.buffered + data.length, chunks, contiguousEnd }

def complete (o : Overflow) (r : Reassembly) : Option Bool := do
  let next ← o.add maxU32 r.contiguousEnd 1
  some (r.eofSeq == some next)

def intoResponse (r : Reassembly) : GuppyResponse :=
  .success r.mime (r.chunks.toList.flatMap Prod.snd)

/-- The state a first packet starts. -/
def start (seq : Nat) (mime : Text) (data : Bytes) : Reassembly where
  firstSeq := seq
  mime := mime
  chunks := (∅ : Std.TreeMap Nat Bytes).insert seq data
  contiguousEnd := seq
  buffered := data.length
  eofSeq := none

end Reassembly

/-- Where a transaction stands: in its loop, with the reassembly if the response has started;
ended with a result; or panicked. -/
inductive Phase where
  | running (state : Option Reassembly)
  | returned (result : Except ClientError GuppyResponse)
  | panicked

inductive Incoming where
  | datagram (bytes : Bytes)
  | timeout
  | failed (error : Text)
  deriving Repr, DecidableEq

/-- One turn of the loop, as the network decides it: what arrives, and for each send of the turn
the error it fails with, if it does. -/
structure Event where
  incoming : Incoming
  sendError : Nat → Option Text

def loopHead (o : Overflow) (options : FetchOptions) : Option Reassembly → Phase
  | none => .running none
  | some r =>
    match r.complete o with
    | none => .panicked
    | some true => .returned (.ok r.intoResponse)
    | some false =>
      if options.maxBody < r.buffered then .returned (.error (.bodyTooLarge options.maxBody))
      else .running (some r)

/-- Sends in order, from the turn's `k`-th on; the first that fails ends the transaction. -/
def sendAll (sendError : Nat → Option Text) : (k : Nat) → List Bytes → Phase → Phase × List Bytes
  | _, [], next => (next, [])
  | k, d :: ds, next =>
    match sendError k with
    | some e => (.returned (.error (.io ("send: ".toList ++ e))), [])
    | none =>
      let r := sendAll sendError (k + 1) ds next
      (r.1, d :: r.2)

/-- What a packet has the client send, and the phase it goes on in. -/
def onPacket (o : Overflow) (state : Option Reassembly) : Packet → List Bytes × Phase
  -- special packets are only meaningful as the whole response; later ones are stray
  | .prompt text => ([], if state.isNone then .returned (.ok (.prompt text)) else .running state)
  | .redirect target =>
    ([], if state.isNone then .returned (.ok (.redirect target)) else .running state)
  | .error message =>
    ([], if state.isNone then .returned (.ok (.error message)) else .running state)
  | .first seq mime data =>
    ([encodeAck seq], .running (state.or (some (Reassembly.start seq mime data))))
  | .continuation seq data =>
    match state with
    | none => ([], .running none)
    | some r =>
      if seq ≤ r.firstSeq then ([], .running (some r))
      else
        ([encodeAck seq],
          if data.isEmpty then .running (some { r with eofSeq := some seq })
          else match r.insert o seq data with
            | none => .panicked
            | some r => .running (some r))

/-- One turn of the loop, from the receive on. -/
def turn (o : Overflow) (request : Text) (state : Option Reassembly) (e : Event) :
    Phase × List Bytes :=
  match e.incoming with
  | .failed error => (.returned (.error (.io ("recv: ".toList ++ error))), [])
  | .timeout =>
    -- re-send the request if nothing has started, else re-acknowledge the stall point
    let datagrams := match state with
      | none => [Utf8.encode request]
      | some r => encodeAck r.contiguousEnd :: (r.eofSeq.map encodeAck).toList
    sendAll e.sendError 0 datagrams (.running state)
  | .datagram bytes =>
    match parsePacket bytes with
    | .error _ => (.running state, [])
    | .ok packet =>
      let r := onPacket o state packet
      sendAll e.sendError 0 r.1 r.2

def step (o : Overflow) (options : FetchOptions) (request : Text) (e : Event) :
    Phase → Phase × List Bytes
  | .running state =>
    let r := turn o request state e
    match r.1 with
    | .running state => (loopHead o options state, r.2)
    | phase => (phase, r.2)
  | phase => (phase, [])

/-- The loop over the events of a run: the phase it ends in. -/
def runLoop (o : Overflow) (options : FetchOptions) (request : Text) (phase : Phase)
    (events : List Event) : Phase :=
  events.foldl (fun phase e => (step o options request e phase).1) phase

/-- `transact`: the request goes out, then the loop runs. -/
def transact (o : Overflow) (options : FetchOptions) (request : Text) (sendError : Option Text)
    (events : List Event) : Phase :=
  match sendError with
  | some e => .returned (.error (.io ("send: ".toList ++ e)))
  | none => runLoop o options request (loopHead o options none) events

end Smolweb.Guppy
