import Smolweb.Fsp.Client
import Smolweb.Fsp.Directory

/-!
# FSP transfers

`Session::get_file` and `Session::list` of `client.rs`, which ask for one block after another. The
loops take fuel; `none` is a loop that is not through yet, or a panic.
-/

namespace Smolweb.Fsp

def nulTerminated (path : Text) : Bytes := Utf8.encode path ++ [0]

/-- What the socket does in each attempt of a request, after the requests sent so far, the last of
which is that one. -/
abbrev Network : Type := List Bytes → Nat → Attempt

/-- A session and the requests it has sent. -/
structure Link where
  session : Session
  sent : List Bytes
  deriving Repr, DecidableEq

namespace Link

def request (net : Network) (call : Call) (l : Link) : Except ClientError Packet × Link :=
  let sent := l.sent ++ [encode (l.session.outgoing call) .clientToServer]
  let r := l.session.request (net sent)
  (r.1, ⟨r.2, sent⟩)

/-- The data of the reply to a request about a path. -/
def requestData (net : Network) (command : Command) (path : Text) (filePosition : UInt32)
    (l : Link) : Except ClientError Bytes × Link :=
  match l.request net ⟨command, nulTerminated path, filePosition⟩ with
  | (.error e, l) => (.error e, l)
  | (.ok reply, l) => (.ok reply.data, l)

def getFileBlock (net : Network) (path : Text) (offset : UInt32) (l : Link) :
    Except ClientError Bytes × Link :=
  l.requestData net .getFile path offset

/-- The loop of `get_file`; `body.len() as u32` truncates. -/
def getFileLoop (net : Network) (path : Text) :
    (fuel : Nat) → Bytes → Link → Option (Except ClientError Bytes × Link)
  | 0, _, _ => none
  | fuel + 1, body, l =>
    match l.getFileBlock net path (UInt32.ofNat body.length) with
    | (.error e, l) => some (.error e, l)
    | (.ok block, l) =>
      if block.isEmpty then some (.ok body, l)
      else
        let short := block.length < maxPayload
        let body := body ++ block
        -- a short block is taken for the last one
        if short then some (.ok body, l) else getFileLoop net path fuel body l

def getFile (net : Network) (path : Text) (l : Link) (fuel : Nat) :
    Option (Except ClientError Bytes × Link) :=
  getFileLoop net path fuel [] l

def maxU32 : Nat := 4294967295

/-- The loop of `list`, with the offset it keeps. -/
def listLoop (o : Overflow) (net : Network) (path : Text) : (fuel : Nat) → List DirEntry →
    (offset : Nat) → Link → Option (Except ClientError (List DirEntry) × Link)
  | 0, _, _, _ => none
  | fuel + 1, entries, offset, l =>
    match l.requestData net .getDir path (UInt32.ofNat offset) with
    | (.error e, l) => some (.error e, l)
    | (.ok data, l) =>
      if data.isEmpty then some (.ok entries, l)
      else do
        let block ← parseDirectory data
        let finished := block.isEmpty
        let entries := entries ++ block
        if finished then some (.ok entries, l)
        else
          let offset ← o.add maxU32 offset (UInt32.ofNat data.length).toNat
          listLoop o net path fuel entries offset l

def list (o : Overflow) (net : Network) (path : Text) (l : Link) (fuel : Nat) :
    Option (Except ClientError (List DirEntry) × Link) :=
  listLoop o net path fuel [] 0 l

end Link

end Smolweb.Fsp
