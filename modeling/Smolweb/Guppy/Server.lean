import Smolweb.Guppy.Packet
import Smolweb.Lib.Arith
import Smolweb.Lib.BinarySearch
import Std.Data.TreeSet.Lemmas

/-!
# The guppy server

`build_session`, `open_window`, `acknowledge` and `retransmit` of `server.rs`. Whether a `send_to`
succeeds is up to the network, so each operation that sends takes the outcomes as an argument and
returns the datagrams that left beside the new session; `Instant::now()` is an argument as well.
-/

namespace Smolweb.Guppy

/-- Server tuning; durations in milliseconds. -/
structure ServerConfig where
  /-- Body bytes per packet. -/
  chunkSize : Nat := 512
  /-- How many unacknowledged packets may be in flight. -/
  window : Nat := 16
  retransmitAfter : Nat := 500
  sessionTimeout : Nat := 30000
  maxSessions : Nat := 1024
  deriving Repr, DecidableEq

structure Session where
  /-- Every packet of the response, in order: its number and its wire bytes. -/
  packets : List (Nat × Bytes)
  /-- Index of the next packet never yet sent. -/
  nextUnsent : Nat
  /-- Numbers sent but not yet acknowledged. -/
  unacked : Std.TreeSet Nat
  lastSend : Nat
  created : Nat
  /-- Set when every packet is acknowledged. -/
  doneAt : Option Nat

/-- `random_seq`; `hash` is what the hasher yields. `none` is a panic, by an underflow or by a
zero span. -/
def randomSeq (o : Overflow) (hash total : Nat) : Option Nat := do
  let below ← o.sub maxU32 maxSeq total
  let span ← o.sub maxU32 below minSeq
  if span = 0 then none else o.add maxU32 minSeq (hash % span)

/-- The `while offset < body.len()` loop of `build_session` over what is left of the body: the
continuations it pushes and the last number it used. Each turn takes at least one byte, so
`fuel` need be no more than the bytes left. -/
def continuations (o : Overflow) (chunkSize : Nat) :
    (fuel seq : Nat) → Bytes → Option (List (Nat × Bytes) × Nat)
  | 0, seq, _ => some ([], seq)
  | fuel + 1, seq, rest =>
    if rest.isEmpty then some ([], seq)
    else do
      let seq ← o.add maxU32 seq 1
      let (packets, last) ← continuations o chunkSize fuel seq (rest.drop chunkSize)
      some ((seq, encodeContinuation seq (rest.take chunkSize)) :: packets, last)

/-- The number of continuations `build_session` expects, the end-of-file packet not counted. -/
def continuationCount (body : Bytes) (chunkSize : Nat) : Nat :=
  if chunkSize < body.length then divCeil body.length chunkSize - 1 else 0

/-- `build_session`: the body cut into packets, from a random first number on. -/
def buildSession (o : Overflow) (hash now : Nat) (mime : Text) (body : Bytes) (chunkSize : Nat) :
    Option Session := do
  let chunkSize := max chunkSize 1
  -- `continuation_count as u32` truncates
  let count ← o.add maxU32 1 (continuationCount body chunkSize % (maxU32 + 1))
  let total ← o.add maxU32 count 1
  let firstSeq ← randomSeq o hash total
  let firstChunk := body.take (min body.length chunkSize)
  let (packets, seq) ←
    continuations o chunkSize body.length firstSeq (body.drop firstChunk.length)
  let eof ← o.add maxU32 seq 1
  some {
    packets := (firstSeq, encodeFirst firstSeq mime firstChunk) :: packets ++
      [(eof, encodeContinuation eof [])]
    nextUnsent := 0
    unacked := ∅
    lastSend := now
    created := now
    doneAt := none }

/-- The sending loop of `open_window`: unsent packets go out until the window is full, none is
left, or a send fails. `sendOk i` is the outcome of sending packet `i`. -/
def openLoop (window : Nat) (sendOk : Nat → Bool) : (fuel : Nat) → Session → Session × List Bytes
  | 0, s => (s, [])
  | fuel + 1, s =>
    if s.unacked.size < window then
      match s.packets[s.nextUnsent]? with
      | none => (s, [])
      | some (seq, wire) =>
        if sendOk s.nextUnsent then
          let r := openLoop window sendOk fuel
            { s with unacked := s.unacked.insert seq, nextUnsent := s.nextUnsent + 1 }
          (r.1, wire :: r.2)
        else (s, [])
    else (s, [])

def openWindow (config : ServerConfig) (sendOk : Nat → Bool) (now : Nat) (s : Session) :
    Session × List Bytes :=
  let r := openLoop config.window sendOk (s.packets.length - s.nextUnsent) s
  ({ r.1 with lastSend := now }, r.2)

def acknowledge (config : ServerConfig) (sendOk : Nat → Bool) (now seq : Nat) (s : Session) :
    Session × List Bytes :=
  let s := { s with unacked := s.unacked.erase seq }
  if s.nextUnsent = s.packets.length ∧ s.unacked.isEmpty then
    ({ s with doneAt := s.doneAt.orElse fun _ => some now }, [])
  else openWindow config sendOk now s

/-- The packet `retransmit` sends again for an unacknowledged number. -/
def packetNumbered (s : Session) (seq : Nat) : Option Bytes := do
  let index ← binarySearchByKey Prod.fst seq s.packets
  let packet ← s.packets[index]?
  some packet.2

/-- `retransmit`: everything in flight goes again; a failed send is ignored. -/
def retransmit (sendOk : Nat → Bool) (now : Nat) (s : Session) : Session × List Bytes :=
  ({ s with lastSend := now },
    (s.unacked.toList.filter fun seq => sendOk seq).filterMap (packetNumbered s))

/-! ## What the operations send

Every datagram of a session is one of its packets, and the packets never change. -/

/-- What every packet that goes out keeps, the sending loop keeps. -/
theorem openLoop_induction {P : Session → Prop} {window : Nat} {sendOk : Nat → Bool}
    (hsend : ∀ s seq wire, P s → s.unacked.size < window →
      s.packets[s.nextUnsent]? = some (seq, wire) →
      P { s with unacked := s.unacked.insert seq, nextUnsent := s.nextUnsent + 1 })
    (fuel : Nat) {s : Session} (hs : P s) : P (openLoop window sendOk fuel s).1 := by
  induction fuel generalizing s with
  | zero => exact hs
  | succ fuel ih =>
    unfold openLoop
    split
    · next hroom =>
      split
      · exact hs
      · next seq wire hget =>
        split
        · exact ih (hsend s seq wire hs hroom hget)
        · exact hs
    · exact hs

theorem openLoop_packets (window : Nat) (sendOk : Nat → Bool) (fuel : Nat) (s : Session) :
    (openLoop window sendOk fuel s).1.packets = s.packets :=
  openLoop_induction (P := fun t => t.packets = s.packets) (fun _ _ _ h _ _ => h) fuel rfl

theorem openLoop_sends (window : Nat) (sendOk : Nat → Bool) (fuel : Nat) (s : Session) :
    ∀ wire ∈ (openLoop window sendOk fuel s).2, wire ∈ s.packets.map Prod.snd := by
  induction fuel generalizing s with
  | zero => simp [openLoop]
  | succ fuel ih =>
    unfold openLoop
    split
    · split
      · simp
      · next seq wire hget =>
        split
        · intro w hw
          rcases List.mem_cons.mp hw with rfl | hw
          · exact List.mem_map.mpr ⟨(seq, w), List.mem_of_getElem? hget, rfl⟩
          · exact ih
              { s with unacked := s.unacked.insert seq, nextUnsent := s.nextUnsent + 1 } w hw
        · simp
    · simp

@[simp] theorem openWindow_packets (config : ServerConfig) (sendOk : Nat → Bool) (now : Nat)
    (s : Session) : (openWindow config sendOk now s).1.packets = s.packets :=
  openLoop_packets _ _ _ s

theorem openWindow_sends {config : ServerConfig} {sendOk : Nat → Bool} {now : Nat} {s : Session}
    {wire : Bytes} (h : wire ∈ (openWindow config sendOk now s).2) :
    wire ∈ s.packets.map Prod.snd :=
  openLoop_sends _ _ _ s wire h

@[simp] theorem acknowledge_packets (config : ServerConfig) (sendOk : Nat → Bool) (now seq : Nat)
    (s : Session) : (acknowledge config sendOk now seq s).1.packets = s.packets := by
  simp only [acknowledge]
  split
  · rfl
  · exact openWindow_packets ..

theorem acknowledge_sends {config : ServerConfig} {sendOk : Nat → Bool} {now seq : Nat}
    {s : Session} {wire : Bytes} (h : wire ∈ (acknowledge config sendOk now seq s).2) :
    wire ∈ s.packets.map Prod.snd := by
  simp only [acknowledge] at h
  split at h
  · cases h
  · exact openWindow_sends (s := { s with unacked := s.unacked.erase seq }) h

/-- What is sent again for a number is the packet of that number. -/
theorem mem_of_packetNumbered {s : Session} {seq : Nat} {wire : Bytes}
    (h : packetNumbered s seq = some wire) : (seq, wire) ∈ s.packets := by
  simp only [packetNumbered, Option.bind_eq_bind, Option.bind_eq_some_iff, Option.some.injEq] at h
  obtain ⟨index, hindex, packet, hget, rfl⟩ := h
  obtain ⟨found, hfound, hkey⟩ := binarySearchByKey_some hindex
  rw [hget, Option.some.injEq] at hfound
  subst hfound
  rw [← hkey]
  exact List.mem_of_getElem? hget

theorem retransmit_sends {sendOk : Nat → Bool} {now : Nat} {s : Session} {wire : Bytes}
    (h : wire ∈ (retransmit sendOk now s).2) : wire ∈ s.packets.map Prod.snd := by
  obtain ⟨seq, -, hp⟩ := List.mem_filterMap.mp h
  exact List.mem_map.mpr ⟨(seq, wire), mem_of_packetNumbered hp, rfl⟩

end Smolweb.Guppy
