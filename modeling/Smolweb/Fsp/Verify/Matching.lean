import Smolweb.Fsp.Client

/-!
# Replies match their requests

A run is a list of requests on one session, with a network that answers, loses, repeats, delays and
corrupts as it likes (`run`). Sequence numbers are all different for the first 65535 requests, so
that a reply to an earlier request is never taken for an answer to a later one (`replies_match`).
-/

namespace Smolweb.Fsp

/-! ## Runs over a network -/

/-- What the network puts into the socket: an answer to the request numbered `request`, any number
of them and at any later time; a corrupted datagram; or an error. -/
inductive Arrival where
  | answer (request : Nat) (reply : Packet)
  | junk (bytes : Bytes)
  | failed (error : Text)
  deriving Repr, DecidableEq

/-- What the client receives, once the requests in `history` have been sent. The server decodes
the request it answers and echoes its sequence number; a corrupted datagram does not decode. -/
def deliver (history : List Bytes) : Arrival → Option Recv
  | .answer request reply => do
    let sent ← history[request]?
    let asked ← (decode sent .clientToServer).toOption
    let header := { reply.header with sequence := asked.header.sequence }
    some (.datagram ⟨some request, encode { reply with header } .serverToClient⟩)
  | .junk bytes =>
    match decode (received ⟨none, bytes⟩) .serverToClient with
    | .ok _ => none
    | .error _ => some (.datagram ⟨none, bytes⟩)
  | .failed e => some (.failed e)

/-- One request of a run, and what the network does in each of its attempts. -/
structure Turn where
  attempts : Nat
  call : Call
  sendError : Nat → Option Text
  arrivals : Nat → List Arrival

structure Record where
  before : Session
  call : Call
  script : Nat → Attempt
  result : Except ClientError Packet
  after : Session

namespace Record

def sent (r : Record) : Bytes := encode (r.before.outgoing r.call) .clientToServer

def accepted (r : Record) : Option Packet :=
  match r.before.exchange r.script with
  | .ok reply => reply
  | .error _ => none

/-- The reply is an answer to the request, which is the one numbered `i`, and no answer to another
request could have been taken for one. -/
structure Answered (r : Record) (i : Nat) (reply : Packet) : Prop where
  arrived : ∃ n < r.before.attempts, ∃ d, .datagram d ∈ (r.script n).arrivals ∧
    d.origin = some i ∧ decode (received d) .serverToClient = .ok reply
  alone : ∀ n d other, .datagram d ∈ (r.script n).arrivals →
    decode (received d) .serverToClient = .ok other →
    other.header.sequence = r.before.nextSequence → d.origin = some i

end Record

/-- The key of the last reply accepted, or `key` if there is none. -/
def lastKey (key : UInt16) : List Record → UInt16
  | [] => key
  | r :: rs =>
    match r.accepted with
    | some reply => lastKey reply.header.key rs
    | none => lastKey key rs

/-- One request, after the requests in `history`. -/
def Turn.play (t : Turn) (s : Session) (history : List Bytes) : Record :=
  let before := { s with attempts := t.attempts }
  let history := history ++ [encode (before.outgoing t.call) .clientToServer]
  let script n : Attempt := ⟨t.sendError n, (t.arrivals n).filterMap (deliver history)⟩
  let r := before.request script
  ⟨before, t.call, script, r.1, r.2⟩

/-- The requests of a run on a session, after the requests in `history`. -/
def run (s : Session) (history : List Bytes) : List Turn → List Record
  | [] => []
  | t :: ts =>
    let r := t.play s history
    r :: run r.after (history ++ [r.sent]) ts

/-! ## One request -/

theorem awaitReply_eq_some {sequence : UInt16} {arrivals : List Recv} {reply : Packet}
    (h : awaitReply sequence arrivals = .ok (some reply)) :
    ∃ d, .datagram d ∈ arrivals ∧ decode (received d) .serverToClient = .ok reply ∧
      reply.header.sequence = sequence := by
  induction arrivals with
  | nil => cases h
  | cons a arrivals ih =>
    cases a with
    | failed e => cases h
    | datagram d =>
      have later : awaitReply sequence arrivals = .ok (some reply) →
          ∃ d', .datagram d' ∈ Recv.datagram d :: arrivals ∧
            decode (received d') .serverToClient = .ok reply ∧
              reply.header.sequence = sequence := by
        intro h
        obtain ⟨d', hm, hd⟩ := ih h
        exact ⟨d', List.mem_cons_of_mem _ hm, hd⟩
      unfold awaitReply at h
      split at h
      · next packet hdec =>
        split at h
        · next hseq =>
          cases h
          exact ⟨d, List.mem_cons_self, hdec, hseq⟩
        · exact later h
      · exact later h

theorem attemptLoop_eq_some {sequence : UInt16} {script : Nat → Attempt} {attempts n : Nat}
    {reply : Packet} (h : attemptLoop sequence script attempts n = .ok (some reply)) :
    ∃ k < n + attempts, ∃ d, .datagram d ∈ (script k).arrivals ∧
      decode (received d) .serverToClient = .ok reply ∧ reply.header.sequence = sequence := by
  induction attempts generalizing n with
  | zero => cases h
  | succ attempts ih =>
    unfold attemptLoop at h
    split at h
    · cases h
    · split at h
      · cases h
      · next hreply =>
        cases h
        exact ⟨n, by omega, awaitReply_eq_some hreply⟩
      · obtain ⟨k, hk, hd⟩ := ih h
        exact ⟨k, by omega, hd⟩

theorem awaitReply_eq_error {sequence : UInt16} {arrivals : List Recv} {e : ClientError}
    (h : awaitReply sequence arrivals = .error e) : ∃ message, e = .io message := by
  induction arrivals with
  | nil => cases h
  | cons a arrivals ih =>
    unfold awaitReply at h
    split at h
    · next heq => cases heq
    · cases h
      exact ⟨_, rfl⟩
    · next heq =>
      cases heq
      split at h
      · split at h
        · cases h
        · exact ih h
      · exact ih h

theorem attemptLoop_eq_error {sequence : UInt16} {script : Nat → Attempt} {attempts n : Nat}
    {e : ClientError} (h : attemptLoop sequence script attempts n = .error e) :
    ∃ message, e = .io message := by
  induction attempts generalizing n with
  | zero => cases h
  | succ attempts ih =>
    unfold attemptLoop at h
    split at h
    · cases h
      exact ⟨_, rfl⟩
    · split at h
      · next herr =>
        cases h
        exact awaitReply_eq_error herr
      · cases h
      · exact ih h

namespace Record

variable {r : Record}

/-- The record is of what `request` does. -/
def Faithful (r : Record) : Prop := r.before.request r.script = (r.result, r.after)

/-- A reply accepted is what the request returns or turns into a refusal, and its key is kept. -/
theorem Faithful.of_accepted (hr : r.Faithful) {reply : Packet} (h : r.accepted = some reply) :
    r.after = { r.before with sequence := r.before.nextSequence, key := reply.header.key } ∧
      r.result =
        if reply.header.command = Command.err.code then .error (.refused (trimNul reply.data))
        else .ok reply := by
  unfold accepted at h
  unfold Faithful Session.request at hr
  cases hx : r.before.exchange r.script with
  | error e =>
    rw [hx] at h
    cases h
  | ok answer =>
    rw [hx] at h hr
    cases h
    simp only at hr
    split at hr
    · next herr =>
      obtain ⟨hres, hafter⟩ := Prod.mk.inj hr
      exact ⟨hafter.symm, by rw [if_pos herr, hres]⟩
    · next herr =>
      obtain ⟨hres, hafter⟩ := Prod.mk.inj hr
      exact ⟨hafter.symm, by rw [if_neg herr, hres]⟩

/-- A request that accepts no reply times out or fails, and only the sequence has changed. -/
theorem Faithful.of_not_accepted (hr : r.Faithful) (h : r.accepted = none) :
    r.after = { r.before with sequence := r.before.nextSequence } ∧
      (r.result = .error .timedOut ∨ ∃ message, r.result = .error (.io message)) := by
  unfold accepted at h
  unfold Faithful Session.request at hr
  cases hx : r.before.exchange r.script with
  | error e =>
    rw [hx] at hr
    obtain ⟨hres, hafter⟩ := Prod.mk.inj hr
    obtain ⟨message, rfl⟩ := attemptLoop_eq_error hx
    exact ⟨hafter.symm, .inr ⟨message, hres.symm⟩⟩
  | ok answer =>
    rw [hx] at h hr
    cases h
    obtain ⟨hres, hafter⟩ := Prod.mk.inj hr
    exact ⟨hafter.symm, .inl hres.symm⟩

theorem Faithful.sequence_after (hr : r.Faithful) : r.after.sequence = r.before.nextSequence := by
  cases h : r.accepted with
  | none => rw [(hr.of_not_accepted h).1]
  | some reply => rw [(hr.of_accepted h).1]

theorem Faithful.accepted_of_ok (hr : r.Faithful) {reply : Packet} (h : r.result = .ok reply) :
    r.accepted = some reply := by
  cases ha : r.accepted with
  | none => obtain ⟨-, hres | ⟨_, hres⟩⟩ := hr.of_not_accepted ha <;> rw [h] at hres <;> cases hres
  | some answer =>
    obtain ⟨-, hres⟩ := hr.of_accepted ha
    rw [h] at hres
    split at hres
    · cases hres
    · cases hres
      rfl

theorem Faithful.accepted_of_refused (hr : r.Faithful) {message : Text}
    (h : r.result = .error (.refused message)) :
    ∃ reply, r.accepted = some reply ∧ reply.header.command = Command.err.code ∧
      message = trimNul reply.data := by
  cases ha : r.accepted with
  | none => obtain ⟨-, hres | ⟨_, hres⟩⟩ := hr.of_not_accepted ha <;> rw [h] at hres <;> cases hres
  | some answer =>
    obtain ⟨-, hres⟩ := hr.of_accepted ha
    rw [h] at hres
    split at hres
    · next herr =>
      cases hres
      exact ⟨answer, rfl, herr, rfl⟩
    · cases hres

theorem Faithful.key_of_timedOut (hr : r.Faithful) (h : r.result = .error .timedOut) :
    r.after.key = r.before.key := by
  cases ha : r.accepted with
  | none => rw [(hr.of_not_accepted ha).1]
  | some answer =>
    obtain ⟨-, hres⟩ := hr.of_accepted ha
    rw [h] at hres
    split at hres <;> cases hres

end Record

/-! ## Sequence numbers -/

/-- The requests sent so far carry the numbers from 2 on, and the server can read them. -/
structure Numbered (s : Session) (history : List Bytes) : Prop where
  next : s.sequence = UInt16.ofNat (1 + history.length)
  sent : ∀ k bytes, history[k]? = some bytes → ∃ asked,
    decode bytes .clientToServer = .ok asked ∧ asked.header.sequence = UInt16.ofNat (2 + k)

theorem numbered_opened (attempts : Nat) : Numbered (Session.opened attempts) [] :=
  ⟨rfl, fun k bytes h => by simp at h⟩

theorem decode_outgoing (s : Session) (call : Call) : ∃ asked,
    decode (encode (s.outgoing call) .clientToServer) .clientToServer = .ok asked ∧
      asked.header = (s.outgoing call).header := by
  refine decode_encode_header _ ?_
  show (UInt16.ofNat call.data.length).toNat ≤ call.data.length + 0
  rw [UInt16.toNat_ofNat']
  exact Nat.mod_le ..

section

variable {s : Session} {history : List Bytes}

theorem Numbered.nextSequence (h : Numbered s history) :
    s.nextSequence = UInt16.ofNat (2 + history.length) := by
  rw [Session.nextSequence, h.next, show (1 : UInt16) = UInt16.ofNat 1 from rfl, ← UInt16.ofNat_add]
  congr 1
  omega

theorem Numbered.snoc (h : Numbered s history) (call : Call) {s' : Session}
    (hs : s'.sequence = s.nextSequence) :
    Numbered s' (history ++ [encode (s.outgoing call) .clientToServer]) := by
  refine ⟨?_, ?_⟩
  · rw [hs, h.nextSequence, List.length_append, List.length_singleton]
    congr 1
    omega
  · intro k bytes hk
    rcases Nat.lt_trichotomy k history.length with hlt | rfl | hgt
    · rw [List.getElem?_append_left hlt] at hk
      exact h.sent k bytes hk
    · rw [List.getElem?_append_right (Nat.le_refl _), Nat.sub_self] at hk
      cases hk
      obtain ⟨asked, hdec, hhead⟩ := decode_outgoing s call
      refine ⟨asked, hdec, ?_⟩
      rw [hhead]
      exact h.nextSequence
    · rw [List.getElem?_eq_none (by simp; omega)] at hk
      cases hk

/-- The receive buffer holds the whole header. -/
theorem field_received (d : Datagram) : field (received d) 4 2 = field d.bytes 4 2 := by
  rw [field, field, received, List.drop_take, List.take_take]
  rfl

/-- **An answer is to the request it names**: whatever arrives and decodes answers a request sent
before, and carries the number of that request. -/
theorem Numbered.of_deliver (h : Numbered s history) {a : Arrival} {d : Datagram} {reply : Packet}
    (ha : deliver history a = some (.datagram d))
    (hd : decode (received d) .serverToClient = .ok reply) :
    ∃ i < history.length, d.origin = some i ∧ reply.header.sequence = UInt16.ofNat (2 + i) := by
  cases a with
  | answer i body =>
    simp only [deliver, Option.bind_eq_bind, Option.bind_eq_some_iff] at ha
    obtain ⟨sent, hsent, asked, hasked, ha⟩ := ha
    cases ha
    obtain ⟨asked', hdec, hseq⟩ := h.sent i sent hsent
    rw [hdec] at hasked
    cases hasked
    refine ⟨i, (List.getElem?_eq_some_iff.1 hsent).1, rfl, ?_⟩
    rw [sequence_of_decode hd, field_received, (field_encode _ _).2.1, UInt16.ofNat_toNat, hseq]
  | junk bytes =>
    simp only [deliver] at ha
    split at ha
    · cases ha
    · next herr =>
      cases ha
      rw [hd] at herr
      cases herr
  | failed e => cases ha

end

/-- The numbers of 65535 requests in a row are all different. -/
theorem ofNat_two_add_inj {i j : Nat} (hi : i < 65535) (hj : j < 65535)
    (h : UInt16.ofNat (2 + i) = UInt16.ofNat (2 + j)) : i = j := by
  have := congrArg UInt16.toNat h
  rw [UInt16.toNat_ofNat', UInt16.toNat_ofNat'] at this
  omega

/-! ## Whole runs -/

theorem play_faithful (t : Turn) (s : Session) (history : List Bytes) :
    (t.play s history).Faithful := rfl

theorem run_faithful {s : Session} {history : List Bytes} {turns : List Turn} :
    ∀ r ∈ run s history turns, r.Faithful := by
  induction turns generalizing s history with
  | nil => exact fun r hr => absurd hr List.not_mem_nil
  | cons t ts ih =>
    intro r hr
    rcases List.mem_cons.1 hr with rfl | hr
    · exact play_faithful t s history
    · exact ih r hr

section

variable {s : Session} {history : List Bytes}

theorem Numbered.play (h : Numbered s history) (t : Turn) :
    Numbered (t.play s history).before history := ⟨h.next, h.sent⟩

theorem Numbered.after_play (h : Numbered s history) (t : Turn) :
    Numbered (t.play s history).after (history ++ [(t.play s history).sent]) :=
  (h.play t).snoc _ (play_faithful t s history).sequence_after

/-- **What one request accepts**: only an answer to itself. -/
theorem Numbered.play_answered (h : Numbered s history) (hlen : history.length < 65535) {t : Turn}
    {reply : Packet} (ha : (t.play s history).accepted = some reply) :
    (t.play s history).Answered history.length reply := by
  have alone : ∀ n d other, .datagram d ∈ ((t.play s history).script n).arrivals →
      decode (received d) .serverToClient = .ok other →
      other.header.sequence = (t.play s history).before.nextSequence →
      d.origin = some history.length := by
    intro n d other hmem hdec hseq
    obtain ⟨a, -, ha⟩ := List.mem_filterMap.1 hmem
    obtain ⟨i, hi, horigin, hother⟩ := (h.after_play t).of_deliver ha hdec
    rw [hseq, (h.play t).nextSequence] at hother
    rw [List.length_append, List.length_singleton] at hi
    rw [horigin, ofNat_two_add_inj (by omega) hlen hother.symm]
  refine ⟨?_, alone⟩
  unfold Record.accepted at ha
  split at ha
  · next hx =>
    subst ha
    obtain ⟨n, hn, d, hmem, hdec, hseq⟩ := attemptLoop_eq_some hx
    exact ⟨n, by omega, d, hmem, alone n d reply hmem hdec hseq, hdec⟩
  · cases ha

theorem run_answered (h : Numbered s history) {turns : List Turn}
    (hlen : history.length + turns.length ≤ 65535) {i : Nat} {r : Record}
    (hr : (run s history turns)[i]? = some r) {reply : Packet} (ha : r.accepted = some reply) :
    r.Answered (history.length + i) reply := by
  induction turns generalizing s history i with
  | nil => cases hr
  | cons t ts ih =>
    rw [List.length_cons] at hlen
    cases i with
    | zero =>
      cases hr
      exact h.play_answered (by omega) ha
    | succ i =>
      have later := ih (h.after_play t) (by simp; omega) hr
      rw [List.length_append, List.length_singleton] at later
      rwa [Nat.add_right_comm, Nat.add_assoc] at later

theorem run_key {turns : List Turn} {i : Nat} {r : Record}
    (hr : (run s history turns)[i]? = some r) :
    r.before.key = lastKey s.key ((run s history turns).take i) := by
  induction turns generalizing s history i with
  | nil => cases hr
  | cons t ts ih =>
    cases i with
    | zero =>
      cases hr
      rfl
    | succ i =>
      have later := ih hr
      rw [later, run, List.take_succ_cons, lastKey]
      cases ha : (t.play s history).accepted with
      | none => rw [((play_faithful t s history).of_not_accepted ha).1]; rfl
      | some reply => rw [((play_faithful t s history).of_accepted ha).1]

end

/-- **Replies match their requests**: in a run of at most 65535 requests on a new session, whatever
the network does, the reply that a request returns or turns into a refusal is an answer to that
very request, each request is sent with the key of the last reply accepted before it, and a request
that times out leaves the key as it was. -/
theorem replies_match (attempts : Nat) (turns : List Turn) (h : turns.length ≤ 65535) {i : Nat}
    {r : Record} (hr : (run (Session.opened attempts) [] turns)[i]? = some r) :
    (∀ reply, r.result = .ok reply → r.Answered i reply) ∧
      (∀ message, r.result = .error (.refused message) → ∃ reply, r.Answered i reply ∧
        reply.header.command = Command.err.code ∧ message = trimNul reply.data) ∧
      (∃ asked, decode r.sent .clientToServer = .ok asked ∧
        asked.header.key = lastKey 0 ((run (Session.opened attempts) [] turns).take i)) ∧
      (r.result = .error .timedOut → r.after.key = r.before.key) := by
  have hfaith := run_faithful r (List.mem_of_getElem? hr)
  have answered {reply : Packet} (ha : r.accepted = some reply) : r.Answered i reply := by
    have := run_answered (numbered_opened attempts) (by simpa using h) hr ha
    rwa [List.length_nil, Nat.zero_add] at this
  refine ⟨?_, ?_, ?_, hfaith.key_of_timedOut⟩
  · intro reply hres
    exact answered (hfaith.accepted_of_ok hres)
  · intro message hres
    obtain ⟨reply, ha, herr, hm⟩ := hfaith.accepted_of_refused hres
    exact ⟨reply, answered ha, herr, hm⟩
  · obtain ⟨asked, hdec, hhead⟩ := decode_outgoing r.before r.call
    refine ⟨asked, hdec, ?_⟩
    rw [hhead]
    exact run_key hr

def sampleReply (byte : UInt8) (sequence : UInt16) : Packet :=
  ⟨⟨Command.version.code, 7, sequence, 1, 0⟩, [byte], []⟩

/-- A request that gets no reply in time, and one that then gets both replies. -/
def lateTurns : List Turn :=
  [⟨1, ⟨.version, [], 0⟩, fun _ => none, fun _ => []⟩,
    ⟨1, ⟨.version, [], 0⟩, fun _ => none,
      fun _ => [.answer 0 (sampleReply 1 0), .junk [1], .answer 1 (sampleReply 2 0)]⟩]

theorem replies_match_late : ∃ r, (run (Session.opened 3) [] lateTurns)[1]? = some r ∧
    r.result = .ok (sampleReply 2 3) ∧ r.Answered 1 (sampleReply 2 3) := by
  have hres : ((run (Session.opened 3) [] lateTurns)[1]?).map Record.result =
      some (.ok (sampleReply 2 3)) := by decide +kernel
  obtain ⟨r, hr, hok⟩ := Option.map_eq_some_iff.1 hres
  exact ⟨r, hr, hok, (replies_match 3 lateTurns (by decide) hr).1 (sampleReply 2 3) hok⟩

end Smolweb.Fsp
