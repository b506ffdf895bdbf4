import Smolweb.Guppy.Verify.Reassembly
import Smolweb.Guppy.Verify.Session
import Smolweb.Lib.Network

/-!
# One guppy session, end to end

The server's session and the client's transaction over a network that may lose, duplicate, delay
and reorder their datagrams. Whatever reaches the client is a packet of the session
(`Honest`), so its view of the response is the transmission itself (`honest_body`), and a
success is the response that was sent.
-/

namespace Smolweb.Guppy

/-! ## The parties -/

/-- A move of the server: the time, the outcomes of its sends, and whether a move of its own fills
the window or retransmits. -/
structure ServerChoice where
  sendOk : Nat → Bool
  now : Nat
  resend : Bool

/-- The part of `serve` that belongs to one live session: `open_window` and `retransmit`, and for
a datagram `acknowledge`; further requests, malformed and over-long datagrams are ignored. -/
def server (config : ServerConfig) : Party ServerChoice Session Bytes Bytes :=
  fun choice incoming s =>
    match incoming with
    | none =>
      if choice.resend then retransmit choice.sendOk choice.now s
      else openWindow config choice.sendOk choice.now s
    | some datagram =>
      if maxRequestBytes < datagram.length then (s, [])
      else match parseClientDatagram datagram with
        | .ok (.ack seq) => acknowledge config choice.sendOk choice.now seq s
        | _ => (s, [])

/-- A move of the client: the outcomes of its sends, and whether a turn without a datagram is a
timeout or a failed receive. -/
structure ClientChoice where
  sendError : Nat → Option Text
  recvError : Option Text

def ClientChoice.event (choice : ClientChoice) (incoming : Option Bytes) : Event where
  incoming :=
    match incoming, choice.recvError with
    | some datagram, _ => .datagram datagram
    | none, some error => .failed error
    | none, none => .timeout
  sendError := choice.sendError

/-- The loop of `transact`. -/
def client (o : Overflow) (options : FetchOptions) (request : Text) :
    Party ClientChoice Phase Bytes Bytes :=
  fun choice incoming phase => step o options request (choice.event incoming) phase

/-- A transaction with one session: the client on the left, the server on the right. -/
abbrev Conversation := Net Phase Session Bytes Bytes

/-- The request is on its way and the session it opens is built. -/
def Conversation.start (o : Overflow) (options : FetchOptions) (request : Text) (s : Session) :
    Conversation where
  left := loopHead o options none
  right := s
  toLeft := []
  toRight := [Utf8.encode request]

/-! ## What reaches the client -/

/-- A packet of the transmission of `head` and `tail`. -/
inductive Honest (first : Nat) (mime : Text) (head : Bytes) (tail : List Bytes) : Packet → Prop
  | first : Honest first mime head tail (.first first mime head)
  | chunk {i : Nat} {c : Bytes} (h : tail[i]? = some c) :
      Honest first mime head tail (.continuation (first + 1 + i) c)
  | eof : Honest first mime head tail (.continuation (first + 1 + tail.length) [])

section

variable {first : Nat} {mime : Text} {head : Bytes} {tail : List Bytes}

/-- Every datagram of a transmission parses as the packet it was made from. -/
theorem honest_of_mem (hm : ValidMime mime) (hlo : minSeq ≤ first)
    (hhi : first + 1 + tail.length ≤ maxU32) {wire : Bytes}
    (h : wire ∈ (transmission first mime head tail).map Prod.snd) :
    ∃ p, parsePacket wire = .ok p ∧ Honest first mime head tail p := by
  rcases mem_transmission h with rfl | ⟨i, c, hc, rfl⟩
  · exact ⟨_, parsePacket_encodeFirst (by simp only [minSeq] at hlo; omega) (by omega) hm _, .first⟩
  · have hi : i < (tail ++ [[]]).length := (List.getElem?_eq_some_iff.mp hc).1
    rw [List.length_append, List.length_singleton] at hi
    refine ⟨_, parsePacket_encodeContinuation (by omega) c, ?_⟩
    rcases Nat.lt_or_ge i tail.length with hlt | hge
    · rw [List.getElem?_append_left hlt] at hc
      exact .chunk hc
    · have hieq : i = tail.length := by omega
      subst hieq
      rw [List.getElem?_concat_length, Option.some.injEq] at hc
      subst hc
      exact .eof

theorem honest_started {heard : List Packet} {st : Started}
    (hh : ∀ p ∈ heard, Honest first mime head tail p) (hst : started heard = some st) :
    st.seq = first ∧ st.mime = mime ∧ st.data = head ∧
      ∀ p ∈ st.after, Honest first mime head tail p := by
  induction heard with
  | nil => cases hst
  | cons p heard ih =>
    have htail : ∀ q ∈ heard, Honest first mime head tail q := fun q hq =>
      hh q (List.mem_cons_of_mem _ hq)
    cases p with
    | first seq m data =>
      cases hst
      cases hh _ List.mem_cons_self
      exact ⟨rfl, rfl, rfl, htail⟩
    | _ => exact ih htail hst

theorem honest_data {n : Nat} {d : Bytes} (h : Honest first mime head tail (.continuation n d))
    (hd : d ≠ []) : ∃ i, n = first + 1 + i ∧ tail[i]? = some d := by
  cases h with
  | chunk hc => exact ⟨_, rfl, hc⟩
  | eof => exact absurd rfl hd

variable (hne : ∀ c ∈ tail, c ≠ [])
include hne

/-- A continuation without data ends the file at the number after the last chunk. -/
theorem honest_eof {n : Nat} (h : Honest first mime head tail (.continuation n [])) :
    n = first + 1 + tail.length := by
  cases h with
  | chunk hc => exact absurd rfl (hne _ (List.mem_of_getElem? hc))
  | eof => rfl

/-- **What an honest run can end with**: a whole body is the one that was sent. -/
theorem honest_body {st : Started} (hseq : st.seq = first) (hdata : st.data = head)
    (hafter : ∀ p ∈ st.after, Honest first mime head tail p) {eof : Nat}
    (heof : st.eof = some eof)
    (hpresent : ∀ s, st.seq ≤ s → s < eof → (st.firstReceived s).isSome) :
    st.NoStray ∧ st.joinedTo eof = head ++ tail.flatten := by
  obtain ⟨p, hp, hends⟩ := List.mem_filterMap.mp (List.mem_of_getLast? heof)
  have heofeq : eof = first + 1 + tail.length := by
    unfold Started.endsAt at hends
    split at hends
    · split at hends
      · cases hends
        exact honest_eof hne (hafter _ hp)
      · cases hends
    · cases hends
  refine ⟨?_, ?_⟩
  · intro eof' heof' n d hm hd
    rw [heof, Option.some.injEq] at heof'
    obtain ⟨i, rfl, hi⟩ := honest_data (hafter _ hm) hd
    have := (List.getElem?_eq_some_iff.mp hi).1
    omega
  · have hchunk : ∀ i, i < tail.length → st.firstReceived (first + 1 + i) = tail[i]? := by
      intro i hi
      obtain ⟨d, hd⟩ := Option.isSome_iff_exists.mp
        (hpresent (first + 1 + i) (by omega) (by omega))
      obtain ⟨hm, hdne⟩ := Started.mem_after_of_firstReceived hd (by omega)
      obtain ⟨j, hj, hdj⟩ := honest_data (hafter _ hm) hdne
      rw [hd, show i = j by omega, hdj]
    have hrange : List.range' st.seq (eof - st.seq) =
        first :: (List.range tail.length).map (first + 1 + ·) := by
      rw [hseq, show eof - first = tail.length + 1 by omega, List.range'_succ,
        List.range'_eq_map_range]
    rw [Started.joinedTo, hrange, List.flatMap_cons, List.flatMap_map]
    congr 1
    · rw [Started.firstReceived, if_pos hseq.symm, hdata, Option.getD_some]
    · rw [List.flatMap_def]
      congr 1
      refine List.ext_getElem (by simp) fun i h1 h2 => ?_
      simp only [List.getElem_map, List.getElem_range, hchunk i h2, List.getElem?_eq_getElem h2,
        Option.getD_some]

end

/-! ## Every schedule -/

section

variable {o : Overflow} {first : Nat} {mime : Text} {head : Bytes} {tail : List Bytes}

/-- The client has heard only packets of the session, and its phase follows from them. -/
def HearsHonestly (o : Overflow) (first : Nat) (mime : Text) (head : Bytes) (tail : List Bytes)
    (phase : Phase) : Prop :=
  ∃ heard, (∀ p ∈ heard, Honest first mime head tail p) ∧ Follows o heard phase

/-- Whatever the server is sent, the packets of its session stay and it sends only those. -/
theorem server_keeps (config : ServerConfig) (packets : List (Nat × Bytes)) :
    (server config).Keeps (fun s => s.packets = packets) (fun _ => True)
      (fun d => d ∈ packets.map Prod.snd) := by
  rintro choice incoming s rfl -
  unfold server
  cases incoming with
  | none =>
    simp only
    split
    · exact ⟨rfl, fun d => retransmit_sends⟩
    · exact ⟨openWindow_packets .., fun d => openWindow_sends⟩
  | some datagram =>
    simp only
    split
    · exact ⟨rfl, by simp⟩
    · split
      · exact ⟨acknowledge_packets .., fun d => acknowledge_sends⟩
      · exact ⟨rfl, by simp⟩

/-- A client that is sent only packets of the session hears only those. -/
theorem client_keeps (options : FetchOptions) (request : Text) (hm : ValidMime mime)
    (hlo : minSeq ≤ first) (hhi : first + 1 + tail.length ≤ maxU32) :
    (client o options request).Keeps (HearsHonestly o first mime head tail)
      (fun d => d ∈ (transmission first mime head tail).map Prod.snd) (fun _ => True) := by
  rintro choice incoming phase ⟨heard, hh, hf⟩ hin
  refine ⟨?_, fun _ _ => trivial⟩
  cases phase with
  | returned result => exact ⟨heard, hh, hf⟩
  | panicked => exact ⟨heard, hh, hf⟩
  | running state =>
    refine ⟨_, ?_, follows_step options request hf (choice.event incoming)⟩
    intro p hp
    rcases List.mem_append.mp hp with hp | hp
    · exact hh p hp
    · cases incoming with
      | none =>
        cases hr : choice.recvError <;>
          simp [Event.packet, ClientChoice.event, hr] at hp
      | some datagram =>
        obtain ⟨q, hq, hhonest⟩ := honest_of_mem hm hlo hhi (hin datagram rfl)
        simp only [Event.packet, ClientChoice.event, hq, Except.toOption, Option.toList_some,
          List.mem_singleton] at hp
        rwa [hp]

theorem hearsHonestly_success {body : Bytes} (hc : Chunking body head tail) {mime' : Text}
    {body' : Bytes}
    (h : HearsHonestly o first mime head tail (.returned (.ok (.success mime' body')))) :
    mime' = mime ∧ body' = body := by
  obtain ⟨heard, hh, r, st, hst, ht, hcomplete, hresp⟩ := h
  obtain ⟨hseq, hmime, hdata, hafter⟩ := honest_started hh hst
  obtain ⟨eof, heof, hpresent, hbody⟩ := success_body ht hcomplete
  obtain ⟨hstray, hjoin⟩ := honest_body hc.ne_nil hseq hdata hafter heof hpresent
  rw [(entriesFrom_eq_nil_iff ht heof).mpr hstray, hresp, GuppyResponse.success.injEq] at hbody
  obtain ⟨rfl, rfl⟩ := hbody
  exact ⟨hmime, by rw [List.append_nil, hjoin, hc.flatten]⟩

end

/-- **A success is the response that was sent**: over every schedule of server and client moves
and every fate of their datagrams, a transaction that succeeds returns the MIME type and the body
the session was built from. -/
theorem conversation_success {o o' : Overflow} {options : FetchOptions} {request : Text}
    {config : ServerConfig} {hash now : Nat} {mime : Text} {body : Bytes} {s : Session}
    (hm : ValidMime mime) (ht : packetCount body config.chunkSize < maxSeq - minSeq)
    (hs : buildSession o' hash now mime body config.chunkSize = some s)
    {moves : List (Move ClientChoice ServerChoice)} {mime' : Text} {body' : Bytes}
    (h : ((Conversation.start o options request s).run (client o options request) (server config)
      moves).left = .returned (.ok (.success mime' body'))) :
    mime' = mime ∧ body' = body := by
  obtain ⟨first, head, tail, hlo, hhi, hc, hcount, hbuilt⟩ :=
    buildSession_eq o' hash now mime body config.chunkSize ht
  rw [hs, Option.some.injEq] at hbuilt
  have hfit : first + 1 + tail.length ≤ maxU32 := by
    have : maxSeq ≤ maxU32 := by decide
    omega
  have hstart : (Conversation.start o options request s).Sat (HearsHonestly o first mime head tail)
      (fun s => s.packets = transmission first mime head tail)
      (fun d => d ∈ (transmission first mime head tail).map Prod.snd) (fun _ => True) := {
    left := ⟨[], by simp, rfl⟩
    right := by rw [hbuilt]; rfl
    toLeft := by simp [Conversation.start]
    toRight := fun _ _ => trivial }
  have hrun := (Net.sat_run (client_keeps options request hm hlo hfit) (server_keeps config _)
    hstart moves).left
  rw [h] at hrun
  exact hearsHonestly_success hc hrun

theorem validMime_plain : ValidMime "text/plain".toList where
  ne_nil := by decide
  trimmed := by decide
  crlfFree := Text.CrlfFree.of_not_mem_cr (by decide)

/-- Two chunks of one byte, numbered from six. -/
def shortSession : Session where
  packets := transmission 6 "text/plain".toList [65] [[66]]
  nextUnsent := 0
  unacked := ∅
  lastSend := 0
  created := 0
  doneAt := none

theorem buildSession_short :
    buildSession .checked 0 0 "text/plain".toList [65, 66] 1 = some shortSession := rfl

/-- A run in which the end of the file overtakes the chunks and the first packet arrives twice. -/
def overtakenRun : List (Move ClientChoice ServerChoice) :=
  let server : ServerChoice := ⟨fun _ => true, 0, false⟩
  let client : ClientChoice := ⟨fun _ => none, none⟩
  [.right server none, .left client (some 2), .left client (some 0), .left client (some 2),
    .left client (some 0), .left client (some 1)]

theorem overtakenRun_left :
    ((Conversation.start .checked {} [] shortSession).run (client .checked {} [])
      (server { chunkSize := 1 }) overtakenRun).left =
        .returned (.ok (.success "text/plain".toList [65, 66])) := rfl

theorem conversation_success_overtaken :
    ∃ mime' body', ((Conversation.start .checked {} [] shortSession).run (client .checked {} [])
      (server { chunkSize := 1 }) overtakenRun).left = .returned (.ok (.success mime' body')) ∧
        mime' = "text/plain".toList ∧ body' = [65, 66] :=
  ⟨_, _, overtakenRun_left,
    conversation_success validMime_plain (by decide) buildSession_short overtakenRun_left⟩

end Smolweb.Guppy
