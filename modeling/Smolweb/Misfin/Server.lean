import Smolweb.Misfin.Identity
import Smolweb.Misfin.Mailbox

/-!
# The misfin server

`Dispatcher`, `split_request`, `read_request` and `handle_connection` of `server.rs`. A dispatch
is a program over the store's transactions, so that dispatches on different connections may be
interleaved between them.
-/

namespace Smolweb.Misfin

/-- A reply: `status` and `meta`. -/
structure MisfinResponse where
  status : Nat
  metaText : Text
  deriving Repr, DecidableEq

def MisfinResponse.new (status : Nat) (metaText : String) : MisfinResponse :=
  ⟨status, metaText.toList⟩

/-- The wire encoding, with two digits at least for the status. -/
def MisfinResponse.encode (r : MisfinResponse) : Text :=
  (if r.status < 10 then ['0'] else []) ++ Text.decimal r.status ++ ' ' :: r.metaText ++
    ['\r', '\n']

structure ServedMailbox where
  address : MisfinAddress
  fingerprint : Text
  deriving Repr, DecidableEq

/-- The request handler's configuration; the store is the state its programs run on. -/
structure Dispatcher where
  served : List ServedMailbox
  requireSenderIdentity : Bool
  rejectChangedSender : Bool
  deriving Repr, DecidableEq

def splitRequest (request : Text) : Option (Text × Text) := do
  let (target, message) ← Text.splitOnce ' ' (Text.trimStart request)
  if "misfin://".toList.isPrefixOf target then some (target, message) else none

def parseRecipient (crates : Crates) (target : Text) : Option MisfinAddress := do
  let url ← crates.parseUrl target
  (MisfinAddress.fromUrl url).toOption

namespace Dispatcher

def servesHost (d : Dispatcher) (host : Text) : Bool :=
  d.served.any fun mailbox => mailbox.address.host == host

def findMailbox (d : Dispatcher) (recipient : MisfinAddress) : Option ServedMailbox :=
  d.served.find? fun mailbox => mailbox.address == recipient

abbrev Dispatch := Prog StoreOp.Result MisfinResponse

def temporaryError : MisfinResponse := .new 40 "Temporary server error."

/-- The end of `dispatch`, from `record_sender` on. -/
def deliver (served : ServedMailbox) (recipient : MisfinAddress) (fingerprint : Text)
    (sender : Option MisfinSender) (message : Text) (now : Nat) : Dispatch :=
  .call (.recordSender fingerprint now) fun (seen : Except Text SenderSeen) =>
    match seen with
    | .error _ => .ret temporaryError
    | .ok _ =>
      .call (.store recipient fingerprint sender message now) fun (stored : Except Text Nat) =>
        match stored with
        | .ok _ => .ret ⟨20, served.fingerprint⟩
        | .error _ => .ret temporaryError

/-- The middle of `dispatch`: the check of a claimed sender against its pin. -/
def checkSender (d : Dispatcher) (fingerprint : Text) (now : Nat) (sender : Option MisfinSender)
    (next : Dispatch) : Dispatch :=
  match sender with
  | none => next
  | some sender =>
    .call (.checkAndRecordIdentity sender.address.asAddrSpec fingerprint now)
      fun (check : Except Text IdentityCheck) =>
        match check with
        | .ok (.changed _) =>
          if d.rejectChangedSender then
            .ret (.new 63 "Your fingerprint changed for a known identity.")
          else next
        | .ok _ => next
        | .error _ => .ret temporaryError

def dispatch (d : Dispatcher) (crates : Crates) (request : Text) (peerCert : Option Bytes)
    (now : Nat) : Dispatch :=
  match peerCert with
  | none => .ret (.new 60 "Certificate required.")
  | some cert =>
    match splitRequest request with
    | none => .ret (.new 59 "Malformed request.")
    | some (target, message) =>
      match parseRecipient crates target with
      | none => .ret (.new 59 "Malformed recipient address.")
      | some recipient =>
        if !d.servesHost recipient.host then .ret (.new 53 "Domain not serviced.")
        else match d.findMailbox recipient with
          | none => .ret (.new 51 "Mailbox doesn't exist.")
          | some served =>
            let fingerprint := sha256Hex crates cert
            let identity := parseCertificateIdentity crates cert now
            if identity.any CertificateIdentity.expired then
              .ret (.new 62 "Certificate is outside its validity window.")
            else
              let claimed := identity.bind claimedAddress
              if claimed.isNone && d.requireSenderIdentity then
                .ret (.new 62 "Certificate is not a misfin identity.")
              else
                let sender := claimed.map fun address =>
                  { address, blurb := identity.bind CertificateIdentity.blurb : MisfinSender }
                d.checkSender fingerprint now sender
                  (deliver served recipient fingerprint sender message now)

end Dispatcher

/-! ## Reading the request -/

/-- What a client's side of a connection ends with, after its bytes. -/
inductive StreamEnd where
  | closed
  | failed (error : Text)
  | timedOut
  deriving Repr, DecidableEq

/-- The outcome of reading a request line. -/
inductive RequestRead where
  | line (request : Text)
  | tooLong
  | notUtf8
  deriving Repr, DecidableEq

/-- What `read_request` makes of its buffer once the loop breaks. -/
def requestLine (buf : Bytes) : RequestRead :=
  match Utf8.decode buf with
  | some text => .line (Text.trimEndMatches Text.isLineBreak text)
  | none => .notUtf8

/-- The loop of `read_request`: one byte a turn is pushed to `buf`. -/
def readLoop (last : StreamEnd) : (buf stream : Bytes) → Except Text RequestRead
  | buf, [] =>
    match last with
    | .closed => .ok (requestLine buf)
    | .failed error => .error error
    | .timedOut => .error "misfin request read timed out".toList
  | buf, byte :: rest =>
    let buf := buf ++ [byte]
    if [13, 10] <:+ buf then .ok (requestLine buf)
    else if maxRequestBytes ≤ buf.length then .ok .tooLong
    else readLoop last buf rest

def readRequest (stream : Bytes) (last : StreamEnd) : Except Text RequestRead :=
  readLoop last [] stream

/-- `handle_connection`, from the handshake on: the reply, if the request can be read. -/
def handleConnection (d : Dispatcher) (crates : Crates) (stream : Bytes) (last : StreamEnd)
    (peerCert : Option Bytes) (now : Nat) : Prog StoreOp.Result (Option MisfinResponse) :=
  match readRequest stream last with
  | .ok (.line request) => (d.dispatch crates request peerCert now).map some
  | .ok .tooLong => .ret (some (.new 59 "Request exceeds 2048 bytes."))
  | .ok .notUtf8 => .ret (some (.new 59 "Request is not UTF-8."))
  | .error _ => .ret none

end Smolweb.Misfin
