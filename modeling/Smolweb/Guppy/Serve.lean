import Smolweb.Guppy.Server
import Smolweb.Lib.Url
import Std.Data.HashMap.Lemmas

/-!
# The guppy server loop

`serve` of `server.rs`: the table of sessions by peer, and the loop that takes ticks and datagrams
in whatever order they come. What happens outside in a turn, the time, the outcome of sends, the
random number and the handler's answer, stands in the event.
-/

namespace Smolweb.Guppy

inductive SocketAddr where
  | v4 (ip : UInt32) (port : UInt16)
  | v6 (ip : BitVec 128) (port : UInt16) (flowinfo scopeId : UInt32)
  deriving Repr, DecidableEq, Hashable

structure Request where
  url : Url
  path : Text
  /-- The user's input from the prompt flow, if any. -/
  input : Option Text
  peer : SocketAddr
  deriving Repr, DecidableEq

/-- The crates `url` and `percent-encoding`. -/
structure Outside where
  parseUrl : UrlParser
  /-- `percent_decode_str(..).decode_utf8_lossy()`. -/
  percentDecode : Text → Text

def parseRequest (outside : Outside) (line : Text) (peer : SocketAddr) : Option Request :=
  match outside.parseUrl (Text.trim line) with
  | .error _ => none
  | .ok url =>
    if url.scheme ≠ "guppy".toList then none
    else some {
      url
      path := if url.path.isEmpty then ['/'] else url.path
      input := url.query.map outside.percentDecode
      peer }

abbrev Sessions := Std.HashMap SocketAddr Session

/-- `DONE_LINGER`, in milliseconds. -/
def doneLinger : Nat := 5000

def Session.expired (config : ServerConfig) (now : Nat) (s : Session) : Bool :=
  config.sessionTimeout < now - s.created

def Session.lingered (now : Nat) (s : Session) : Bool :=
  s.doneAt.any fun done => doneLinger < now - done

/-- The outside of a turn that takes a datagram. -/
structure Turn where
  now : Nat
  hash : Nat
  /-- Which sends succeed. -/
  sendOk : Nat → Bool
  /-- The handler's answer. -/
  handle : Request → GuppyResponse

inductive ServeEvent where
  /-- `at` and `sendOk` are those of the retransmission to each peer. -/
  | tick (now : Nat) (resentAt : SocketAddr → Nat) (sendOk : SocketAddr → Nat → Bool)
  | recvFailed
  | received (datagram : Bytes) (peer : SocketAddr) (turn : Turn)

/-- What a turn does besides changing the table. -/
structure Effects where
  sent : List (SocketAddr × Bytes) := []
  /-- The request the handler was called with, if it was. -/
  handled : Option Request := none

/-- Whether a tick retransmits to a session. -/
def Session.due (config : ServerConfig) (now : Nat) (s : Session) : Bool :=
  s.doneAt.isNone && config.retransmitAfter ≤ now - s.lastSend

def onTick (config : ServerConfig) (now : Nat) (resentAt : SocketAddr → Nat)
    (sendOk : SocketAddr → Nat → Bool) (sessions : Sessions) : Sessions × Effects :=
  let kept := sessions.filter fun _ s => !(s.expired config now || s.lingered now)
  let resend peer s := retransmit (sendOk peer) (resentAt peer) s
  (kept.map fun peer s => if s.due config now then (resend peer s).1 else s,
    { sent := kept.toList.flatMap fun p =>
        if p.2.due config now then (resend p.1 p.2).2.map fun wire => (p.1, wire) else [] })

def onAck (config : ServerConfig) (peer : SocketAddr) (turn : Turn) (seq : Nat)
    (sessions : Sessions) : Sessions × Effects :=
  match sessions[peer]? with
  | none => (sessions, {})
  | some session =>
    let r := acknowledge config turn.sendOk turn.now seq session
    (sessions.insert peer r.1, { sent := r.2.map fun wire => (peer, wire) })

/-- One packet outside any session; whether it leaves does not matter. -/
def sendSpecial (peer : SocketAddr) (turn : Turn) (line : Text) : List (SocketAddr × Bytes) :=
  if turn.sendOk 0 then [(peer, Utf8.encode (line ++ ['\r', '\n']))] else []

/-- A request line; `none` is a panic in building the session, which ends the server. -/
def onRequest (o : Overflow) (outside : Outside) (config : ServerConfig) (peer : SocketAddr)
    (turn : Turn) (line : Text) (sessions : Sessions) : Option (Sessions × Effects) :=
  -- additional request packets in a live session are ignored
  if sessions.contains peer then some (sessions, {})
  else if config.maxSessions ≤ sessions.size then some (sessions, {})
  else
    match parseRequest outside line peer with
    | none => some (sessions, { sent := sendSpecial peer turn "4 Malformed request URL.".toList })
    | some request =>
      match turn.handle request with
      | .success mime body => do
        let session ← buildSession o turn.hash turn.now mime body config.chunkSize
        let r := openWindow config turn.sendOk turn.now session
        some (sessions.insert peer r.1,
          { sent := r.2.map fun wire => (peer, wire), handled := some request })
      | .prompt text => some (sessions,
          { sent := sendSpecial peer turn ('1' :: ' ' :: text), handled := some request })
      | .redirect target => some (sessions,
          { sent := sendSpecial peer turn ('3' :: ' ' :: target), handled := some request })
      | .error message => some (sessions,
          { sent := sendSpecial peer turn ('4' :: ' ' :: message), handled := some request })

/-- One turn of the loop. -/
def serveStep (o : Overflow) (outside : Outside) (config : ServerConfig) (sessions : Sessions) :
    ServeEvent → Option (Sessions × Effects)
  | .tick now resentAt sendOk => some (onTick config now resentAt sendOk sessions)
  | .recvFailed => some (sessions, {})
  | .received datagram peer turn =>
    if maxRequestBytes < datagram.length then some (sessions, {})
    else
      match parseClientDatagram datagram with
      | .error _ => some (sessions, {})
      | .ok (.ack seq) => some (onAck config peer turn seq sessions)
      | .ok (.request line) => onRequest o outside config peer turn line sessions

/-- `serve`, from the table it is given: the table after all the events. -/
def serve (o : Overflow) (outside : Outside) (config : ServerConfig) (sessions : Sessions)
    (events : List ServeEvent) : Option Sessions :=
  events.foldlM (fun sessions event => (serveStep o outside config sessions event).map Prod.fst)
    sessions

end Smolweb.Guppy
