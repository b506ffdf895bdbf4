import Mathlib.Data.Finset.Sort
import Mathlib.Logic.Function.Basic
import Smolweb.Lib.Arith
import Smolweb.Lib.Prog
import Smolweb.Misfin.Address

/-!
# The mailbox store

The tables of `mailbox.rs` and its write transactions. A transaction is atomic: it commits whole
or, when it fails, changes nothing. The JSON in the tables is lossless, so the values themselves
stand for it.
-/

namespace Smolweb.Misfin

structure ReceivedMessage where
  seq : Nat
  recipient : Text
  senderFingerprint : Text
  /-- The sender's claimed addr-spec, if the certificate carries a misfin identity. -/
  senderAddress : Option Text
  body : Text
  receivedAt : Nat
  deriving Repr, DecidableEq

inductive SenderSeen where
  | first
  | known
  deriving Repr, DecidableEq

inductive IdentityCheck where
  | first
  | match
  | changed (pinnedFingerprint : Text)
  deriving Repr, DecidableEq

structure PinnedIdentity where
  fingerprint : Text
  firstSeen : Nat
  deriving Repr, DecidableEq

/-- The tables, each by its key; `next_seq` is the only entry of `meta`. -/
structure MailboxStore where
  messages : Nat → Option ReceivedMessage
  mailboxIndex : Text → Finset Nat
  nextSeq : Option Nat
  senders : Text → Option Nat
  senderIdentities : Text → Option PinnedIdentity

namespace MailboxStore

/-- The tables as `init_tables` leaves them in a new file. -/
def empty : MailboxStore where
  messages _ := none
  mailboxIndex _ := ∅
  nextSeq := none
  senders _ := none
  senderIdentities _ := none

/-- The sequence number the next message gets. -/
def seq (s : MailboxStore) : Nat := s.nextSeq.getD 0

def store (o : Overflow) (recipient : MisfinAddress) (senderFingerprint : Text)
    (sender : Option MisfinSender) (body : Text) (receivedAt : Nat) (s : MailboxStore) :
    Option (Nat × MailboxStore) := do
  let next ← o.add maxU64 s.seq 1
  let message : ReceivedMessage := {
    seq := s.seq
    recipient := recipient.asAddrSpec
    senderFingerprint
    senderAddress := sender.map fun sender => sender.address.asAddrSpec
    body
    receivedAt }
  some (s.seq, { s with
    nextSeq := some next
    messages := Function.update s.messages s.seq (some message)
    mailboxIndex := Function.update s.mailboxIndex recipient.asAddrSpec
      (insert s.seq (s.mailboxIndex recipient.asAddrSpec)) })

def recordSender (fingerprint : Text) (now : Nat) (s : MailboxStore) :
    SenderSeen × MailboxStore :=
  match s.senders fingerprint with
  | some _ => (.known, s)
  | none => (.first, { s with senders := Function.update s.senders fingerprint (some now) })

def checkAndRecordIdentity (addrSpec fingerprint : Text) (now : Nat) (s : MailboxStore) :
    IdentityCheck × MailboxStore :=
  match s.senderIdentities addrSpec with
  | none => (.first, { s with
      senderIdentities := Function.update s.senderIdentities addrSpec (some ⟨fingerprint, now⟩) })
  | some pinned =>
    if pinned.fingerprint = fingerprint then (.match, s) else (.changed pinned.fingerprint, s)

/-- Release the pin of an address; whether there was one. -/
def forgetSenderIdentity (addrSpec : Text) (s : MailboxStore) : Bool × MailboxStore :=
  ((s.senderIdentities addrSpec).isSome,
    { s with senderIdentities := Function.update s.senderIdentities addrSpec none })

/-- Every message of a mailbox. The index gives a mailbox's numbers in ascending order; a number
without a message is passed over. -/
def list (mailbox : Text) (s : MailboxStore) : List ReceivedMessage :=
  (((s.mailboxIndex mailbox).sort (· ≤ ·)).filterMap s.messages).mergeSort
    fun a b => a.seq ≤ b.seq

end MailboxStore

/-- The write transactions a delivery is made of. -/
inductive StoreOp where
  | checkAndRecordIdentity (addrSpec fingerprint : Text) (now : Nat)
  | recordSender (fingerprint : Text) (now : Nat)
  | store (recipient : MisfinAddress) (senderFingerprint : Text) (sender : Option MisfinSender)
      (body : Text) (receivedAt : Nat)

/-- What a transaction returns, or the text of its error. -/
def StoreOp.Result : StoreOp → Type
  | .checkAndRecordIdentity .. => Except Text IdentityCheck
  | .recordSender .. => Except Text SenderSeen
  | .store .. => Except Text Nat

/-- A transaction on the store. The input is the error it fails with, if it does; a failed
transaction has no effect, and neither has one that panics. -/
def StoreOp.exec (o : Overflow) : Semantics StoreOp.Result (Option Text) MailboxStore
  | .checkAndRecordIdentity .., some e, s => some (.error e, s)
  | .checkAndRecordIdentity addrSpec fingerprint now, none, s =>
    let r := s.checkAndRecordIdentity addrSpec fingerprint now
    some (.ok r.1, r.2)
  | .recordSender .., some e, s => some (.error e, s)
  | .recordSender fingerprint now, none, s =>
    let r := s.recordSender fingerprint now
    some (.ok r.1, r.2)
  | .store .., some e, s => some (.error e, s)
  | .store recipient senderFingerprint sender body receivedAt, none, s =>
    (s.store o recipient senderFingerprint sender body receivedAt).map fun r => (.ok r.1, r.2)

/-- A call of any of the store's methods. -/
inductive StoreCall where
  | transaction (op : StoreOp)
  | forgetSenderIdentity (addrSpec : Text)
  | list (mailbox : Text)

def StoreCall.Result : StoreCall → Type
  | .transaction op => op.Result
  | .forgetSenderIdentity _ => Except Text Bool
  | .list _ => Except Text (List ReceivedMessage)

def StoreCall.exec (o : Overflow) : Semantics StoreCall.Result (Option Text) MailboxStore
  | .transaction op, fault, s => StoreOp.exec o op fault s
  | .forgetSenderIdentity _, some e, s => some (.error e, s)
  | .forgetSenderIdentity addrSpec, none, s =>
    let r := s.forgetSenderIdentity addrSpec
    some (.ok r.1, r.2)
  | .list _, some e, s => some (.error e, s)
  | .list mailbox, none, s => some (.ok (s.list mailbox), s)

/-- A call and its result; a call that panicked has none. -/
abbrev StoreEvent := (call : StoreCall) × Option call.Result

/-- A call on the store and what it leaves. -/
def StoreCall.step (o : Overflow) (call : StoreCall) (fault : Option Text) (s : MailboxStore) :
    StoreEvent × MailboxStore :=
  match call.exec o fault s with
  | none => (⟨call, none⟩, s)
  | some (r, s') => (⟨call, some r⟩, s')

/-- One call after another, each with the error it fails with, if it does. -/
def MailboxStore.runCalls (o : Overflow) :
    MailboxStore → List (StoreCall × Option Text) → List StoreEvent × MailboxStore
  | s, [] => ([], s)
  | s, (call, fault) :: calls =>
    let r := call.step o fault s
    let rs := runCalls o r.2 calls
    (r.1 :: rs.1, rs.2)

end Smolweb.Misfin
