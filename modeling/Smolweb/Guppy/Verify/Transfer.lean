import Smolweb.Guppy.Verify.Limit
import Smolweb.Guppy.Verify.Window

/-!
# What a guppy transfer keeps

Both parties of a conversation at once: what has left the server's window has been heard by the
client, what the client has heard was sent, and only what was heard is acknowledged (`Kept`). Every
move keeps that, of a server that opens its window as it likes or only on acknowledgements
(`kept_run`).
-/

namespace Smolweb.Guppy

/-! ## What has been heard -/

/-- A packet of that number was heard, of the response that was started. -/
def Heard (heard : List Packet) (seq : Nat) : Prop :=
  ∃ st, started heard = some st ∧ (seq = st.seq ∨ ∃ d, .continuation seq d ∈ st.after)

theorem Heard.append {heard : List Packet} {seq : Nat} (h : Heard heard seq)
    (more : List Packet) : Heard (heard ++ more) seq := by
  obtain ⟨st, hst, hcases⟩ := h
  obtain ⟨rest, hrest⟩ := started_of_le hst (List.prefix_append heard more)
  refine ⟨_, hrest, hcases.imp_right ?_⟩
  rintro ⟨d, hd⟩
  exact ⟨d, List.mem_append_left _ hd⟩

/-- The number of a packet of a response. -/
def Packet.number : Packet → Option Nat
  | .first seq _ _ => some seq
  | .continuation seq _ => some seq
  | _ => none

theorem mem_of_started {heard : List Packet} {st : Started} (h : started heard = some st) :
    .first st.seq st.mime st.data ∈ heard ∧ ∀ p ∈ st.after, p ∈ heard := by
  induction heard with
  | nil => cases h
  | cons p heard ih =>
    have htail (h : started heard = some st) :
        .first st.seq st.mime st.data ∈ p :: heard ∧ ∀ q ∈ st.after, q ∈ p :: heard :=
      ⟨List.mem_cons_of_mem _ (ih h).1, fun q hq => List.mem_cons_of_mem _ ((ih h).2 q hq)⟩
    cases p with
    | first seq mime data =>
      cases h
      exact ⟨List.mem_cons_self, fun q hq => List.mem_cons_of_mem _ hq⟩
    | _ => exact htail h

theorem Heard.mem {heard : List Packet} {seq : Nat} (h : Heard heard seq) :
    ∃ p ∈ heard, p.number = some seq := by
  obtain ⟨st, hst, hcases⟩ := h
  obtain ⟨hfirst, hafter⟩ := mem_of_started hst
  rcases hcases with rfl | ⟨d, hd⟩
  · exact ⟨_, hfirst, rfl⟩
  · exact ⟨_, hafter _ hd, rfl⟩

section Client

variable {heard : List Packet} {r : Reassembly} {st : Started}

theorem heard_of_chunk (ht : Tracks r st) (hst : started heard = some st) {seq : Nat}
    (h : seq ∈ r.chunks) : Heard heard seq := by
  rw [Std.TreeMap.mem_iff_isSome_getElem?, ht.chunks, Option.isSome_iff_exists] at h
  obtain ⟨d, hd⟩ := h
  refine ⟨st, hst, ?_⟩
  by_cases hseq : seq = st.seq
  · exact .inl hseq
  · exact .inr ⟨d, (Started.mem_after_of_firstReceived hd hseq).1⟩

theorem sendAll_subset {sendError : Nat → Option Text} {k : Nat} {datagrams : List Bytes}
    {next : Phase} {d : Bytes} (h : d ∈ (sendAll sendError k datagrams next).2) :
    d ∈ datagrams := by
  induction datagrams generalizing k with
  | nil => exact h
  | cons d' ds ih =>
    unfold sendAll at h
    split at h
    · cases h
    · rcases List.mem_cons.mp h with rfl | h
      · exact List.mem_cons_self
      · exact List.mem_cons_of_mem _ (ih h)

end Client

/-! ## What both sides are given -/

/-- A transaction and the session that answers it: the request is no acknowledgement, the window
is open, and the session's packets can be told apart. -/
structure Setting where
  o : Overflow
  options : FetchOptions
  request : Text
  config : ServerConfig
  first : Nat
  mime : Text
  head : Bytes
  tail : List Bytes
  notAck : ∀ seq, parseClientDatagram (Utf8.encode request) ≠ .ok (.ack seq)
  window : 0 < config.window
  valid : ValidMime mime
  lo : minSeq ≤ first
  hi : first + 1 + tail.length ≤ maxU32
  ne_nil : ∀ c ∈ tail, c ≠ []

namespace Setting

variable (S : Setting)

def packets : List (Nat × Bytes) := transmission S.first S.mime S.head S.tail

def Honest (p : Packet) : Prop := Guppy.Honest S.first S.mime S.head S.tail p

theorem sorted : S.packets.Pairwise fun a b => a.1 < b.1 := transmission_sorted ..

/-- A packet is found at the index that its number says, and parses as a packet of that number. -/
theorem getElem?_packets {i seq : Nat} {d : Bytes} (h : S.packets[i]? = some (seq, d)) :
    seq = S.first + i ∧ ∃ p, parsePacket d = .ok p ∧ S.Honest p ∧ p.number = some seq := by
  rw [packets, getElem?_transmission] at h
  obtain ⟨data, hdata, heq⟩ := Option.map_eq_some_iff.mp h
  obtain ⟨rfl, rfl⟩ := Prod.mk.inj heq
  have hlo := S.lo
  have hhi := S.hi
  have hi := (List.getElem?_eq_some_iff.mp hdata).1
  simp only [List.length_cons, List.length_append, List.length_nil] at hi
  refine ⟨rfl, ?_⟩
  cases i with
  | zero =>
    rw [List.getElem?_cons_zero, Option.some.injEq] at hdata
    subst hdata
    rw [Nat.add_zero, if_pos rfl]
    refine ⟨_, parsePacket_encodeFirst ?_ (by omega) S.valid _, .first, rfl⟩
    exact Nat.le_trans (by decide) hlo
  | succ i =>
    rw [List.getElem?_cons_succ] at hdata
    rw [if_neg (by omega)]
    refine ⟨_, parsePacket_encodeContinuation (by omega) data, ?_, rfl⟩
    rw [show S.first + (i + 1) = S.first + 1 + i by omega]
    rcases Nat.lt_or_ge i S.tail.length with hlt | hge
    · rw [List.getElem?_append_left hlt] at hdata
      exact .chunk hdata
    · obtain rfl : i = S.tail.length := by omega
      rw [List.getElem?_concat_length, Option.some.injEq] at hdata
      subst hdata
      exact .eof

end Setting

/-! ## The server's side -/

/-- A datagram that has been sent. -/
def Session.Sent (s : Session) (d : Bytes) : Prop :=
  ∃ i seq, i < s.nextUnsent ∧ s.packets[i]? = some (seq, d)

theorem Session.Sent.mono {s s' : Session} {d : Bytes} (h : s.Sent d)
    (hpackets : s'.packets = s.packets) (hle : s.nextUnsent ≤ s'.nextUnsent) : s'.Sent d := by
  obtain ⟨i, seq, hi, hget⟩ := h
  exact ⟨i, seq, Nat.lt_of_lt_of_le hi hle, by rw [hpackets, hget]⟩

/-- The window has room, or the last packet that was sent is still in flight. -/
def Session.Room (config : ServerConfig) (s : Session) : Prop :=
  s.unacked.size < config.window ∨
    ∃ i seq wire, s.nextUnsent = i + 1 ∧ s.packets[i]? = some (seq, wire) ∧ seq ∈ s.unacked

/-- A step of a session, with what it sends. -/
def Session.move (config : ServerConfig) (s : Session) : SessionStep → Session × List Bytes
  | .openWindow sendOk now => openWindow config sendOk now s
  | .acknowledge sendOk now seq => acknowledge config sendOk now seq s
  | .retransmit sendOk now => retransmit sendOk now s

section Server

variable {config : ServerConfig} {s : Session}

theorem openLoop_sent (window : Nat) (sendOk : Nat → Bool) (fuel : Nat) (s : Session) :
    s.nextUnsent ≤ (openLoop window sendOk fuel s).1.nextUnsent ∧
      ∀ d ∈ (openLoop window sendOk fuel s).2, (openLoop window sendOk fuel s).1.Sent d := by
  induction fuel generalizing s with
  | zero => exact ⟨Nat.le_refl _, by simp [openLoop]⟩
  | succ fuel ih =>
    unfold openLoop
    split
    · split
      · exact ⟨Nat.le_refl _, by simp⟩
      · next seq wire hget =>
        split
        · obtain ⟨hle, hsent⟩ := ih
            { s with unacked := s.unacked.insert seq, nextUnsent := s.nextUnsent + 1 }
          refine ⟨Nat.le_of_succ_le hle, fun d hd => ?_⟩
          rcases List.mem_cons.mp hd with rfl | hd
          · exact ⟨s.nextUnsent, seq, hle, by rw [openLoop_packets]; exact hget⟩
          · exact hsent d hd
        · exact ⟨Nat.le_refl _, by simp⟩
    · exact ⟨Nat.le_refl _, by simp⟩

theorem Session.Room.openWindow (h : s.Room config) (sendOk : Nat → Bool) (now : Nat) :
    (openWindow config sendOk now s).1.Room config := by
  have hloop : (openLoop config.window sendOk (s.packets.length - s.nextUnsent) s).1.Room config :=
    openLoop_induction (fun _ _ _ _ _ hget =>
      .inr ⟨_, _, _, rfl, hget, mem_insert.mpr (.inl rfl)⟩) _ h
  exact hloop

/-- An acknowledgement leaves the window as it was, or with room. -/
theorem Session.Room.erase {A : Nat → Nat → Prop} (h : s.Room config)
    (hwindow : s.InWindow config A) (seq : Nat) :
    Session.Room config { s with unacked := s.unacked.erase seq } := by
  rcases h with hroom | ⟨i, last, wire, hnext, hget, hmem⟩
  · exact .inl (Nat.lt_of_le_of_lt Std.TreeSet.size_erase_le hroom)
  · by_cases hlast : last = seq
    · subst hlast
      left
      have hsize : s.unacked.size ≠ 0 := by
        intro hzero
        have hempty := isEmpty_eq_false_of_mem hmem
        rw [Std.TreeSet.isEmpty_eq_size_eq_zero, hzero] at hempty
        cases hempty
      have hle := hwindow.size_le
      show (s.unacked.erase last).size < config.window
      rw [Std.TreeSet.size_erase, if_pos (Std.TreeSet.mem_iff_contains.mp hmem)]
      omega
    · exact .inr ⟨i, last, wire, hnext, hget, mem_erase.mpr ⟨hlast, hmem⟩⟩

/-- With room in the window the first unsent packet is sent. -/
theorem openWindow_sends_next {sendOk : Nat → Bool} {now seq : Nat} {wire : Bytes}
    (hroom : s.unacked.size < config.window)
    (hget : s.packets[s.nextUnsent]? = some (seq, wire)) (hok : sendOk s.nextUnsent = true) :
    wire ∈ (openWindow config sendOk now s).2 := by
  have hlt : s.nextUnsent < s.packets.length := (List.getElem?_eq_some_iff.mp hget).1
  obtain ⟨fuel, hfuel⟩ : ∃ fuel, s.packets.length - s.nextUnsent = fuel + 1 :=
    ⟨s.packets.length - s.nextUnsent - 1, by omega⟩
  simp only [openWindow, hfuel, openLoop, hroom, hget, hok, if_true]
  exact List.mem_cons_self

/-- A move of the server is a step of its session, and acknowledges only what it is told to. -/
theorem server_cases (config : ServerConfig) (choice : ServerChoice) (incoming : Option Bytes)
    (s : Session) : server config choice incoming s = (s, []) ∨
      ∃ e, server config choice incoming s = s.move config e ∧
        ∀ sendOk now seq, e = .acknowledge sendOk now seq →
          ∃ d, incoming = some d ∧ parseClientDatagram d = .ok (.ack seq) := by
  unfold server
  cases incoming with
  | none =>
    right
    simp only
    split
    · exact ⟨.retransmit choice.sendOk choice.now, rfl, by simp⟩
    · exact ⟨.openWindow choice.sendOk choice.now, rfl, by simp⟩
  | some d =>
    simp only
    split
    · exact .inl rfl
    · split
      · next seq hack =>
        refine .inr ⟨.acknowledge choice.sendOk choice.now seq, rfl, ?_⟩
        rintro _ _ _ ⟨⟩
        exact ⟨d, rfl, hack⟩
      · exact .inl rfl

end Server

/-! ## The invariant -/

/-- The session sends the transmission, and what has left its window was heard. -/
structure Session.Kept (S : Setting) (heard : List Packet) (s : Session) : Prop where
  packets : s.packets = S.packets
  window : s.InWindow S.config fun _ seq => Heard heard seq
  room : s.Room S.config

section

variable {S : Setting} {heard : List Packet} {s : Session}

theorem Session.Kept.append (h : s.Kept S heard) (more : List Packet) :
    s.Kept S (heard ++ more) :=
  { h with window := h.window.mono fun _ _ hheard => hheard.append more }

/-- A step keeps a session, if it acknowledges what was heard, and sends what it then counts as
sent. -/
theorem Session.Kept.move (h : s.Kept S heard) {e : SessionStep}
    (hack : ∀ sendOk now seq, e = .acknowledge sendOk now seq → Heard heard seq) :
    (s.move S.config e).1.Kept S heard ∧ s.nextUnsent ≤ (s.move S.config e).1.nextUnsent ∧
      ∀ d ∈ (s.move S.config e).2, (s.move S.config e).1.Sent d := by
  have hstep : (s.move S.config e).1 = s.step S.config e := by cases e <;> rfl
  have hwindow : (s.step S.config e).InWindow S.config fun _ seq => Heard heard seq := by
    refine h.window.step (fun _ _ => id) ?_
    rintro i seq ⟨-, sendOk, now, rfl⟩
    exact hack sendOk now seq rfl
  have hpackets : (s.step S.config e).packets = S.packets := by rw [step_packets, h.packets]
  rw [← hstep] at hwindow hpackets
  cases e with
  | openWindow sendOk now =>
    obtain ⟨hle, hsent⟩ := openLoop_sent S.config.window sendOk (s.packets.length - s.nextUnsent) s
    exact ⟨⟨hpackets, hwindow, h.room.openWindow sendOk now⟩, hle, hsent⟩
  | retransmit sendOk now =>
    refine ⟨⟨hpackets, hwindow, h.room⟩, Nat.le_refl _, fun d hd => ?_⟩
    obtain ⟨seq, hseq, hfound⟩ := List.mem_filterMap.mp hd
    obtain ⟨i, wire, hi, hget⟩ :=
      h.window.inFlight seq (Std.TreeSet.mem_toList.mp (List.mem_filter.mp hseq).1)
    have hsorted : s.packets.Pairwise fun a b => a.1 < b.1 := h.packets ▸ S.sorted
    rw [packetNumbered_eq hsorted hget, Option.some.injEq] at hfound
    subst hfound
    exact ⟨i, seq, hi, hget⟩
  | acknowledge sendOk now seq =>
    have hroom := h.room.erase h.window seq
    simp only [Session.move, acknowledge] at hwindow hpackets ⊢
    split
    · next hall =>
      rw [if_pos hall] at hwindow hpackets
      exact ⟨⟨hpackets, hwindow, hroom⟩, Nat.le_refl _, by simp⟩
    · next hopen =>
      rw [if_neg hopen] at hwindow hpackets
      obtain ⟨hle, hsent⟩ := openLoop_sent S.config.window sendOk (s.packets.length - s.nextUnsent)
        { s with unacked := s.unacked.erase seq }
      exact ⟨⟨hpackets, hwindow, hroom.openWindow sendOk now⟩, hle, hsent⟩

end

/-- The transfer after the client has heard `heard`: where it stands, that all of it was sent, and
that only what was heard is acknowledged. -/
structure Kept (S : Setting) (heard : List Packet) (n : Conversation) : Prop where
  honest : ∀ p ∈ heard, S.Honest p
  stands : Stands S.options heard n.left
  follows : Follows S.o heard n.left
  session : n.right.Kept S heard
  sent : ∀ seq, Heard heard seq → ∃ i < n.right.nextUnsent, seq = S.first + i
  toLeft : ∀ d ∈ n.toLeft, n.right.Sent d
  toRight : ∀ d ∈ n.toRight, ∀ seq, parseClientDatagram d = .ok (.ack seq) → Heard heard seq

/-- The party behaves as the server does, making its choices in some way of its own. -/
def Serves (config : ServerConfig) (q : Party ServerChoice Session Bytes Bytes) : Prop :=
  ∀ choice, ∃ choice', q choice = server config choice'

section

variable {S : Setting} {heard : List Packet} {n : Conversation}

theorem Session.Kept.sent {s : Session} (h : s.Kept S heard) {d : Bytes} (hsent : s.Sent d) :
    ∃ i p, i < s.nextUnsent ∧ parsePacket d = .ok p ∧ S.Honest p ∧
      p.number = some (S.first + i) := by
  obtain ⟨i, seq, hi, hget⟩ := hsent
  rw [h.packets] at hget
  obtain ⟨rfl, p, hparse, hhonest, hnumber⟩ := S.getElem?_packets hget
  exact ⟨i, p, hi, hparse, hhonest, hnumber⟩

/-- What is heard of late was heard before, or is the packet that was heard last. -/
theorem heard_concat {p : Packet} {seq : Nat} (h : Heard (heard ++ [p]) seq) :
    Heard heard seq ∨ p.number = some seq := by
  obtain ⟨st, hst, hcases⟩ := h
  cases hbefore : started heard with
  | none =>
    rw [started_append_of_none hbefore] at hst
    cases p with
    | first seq' mime data =>
      cases hst
      rcases hcases with rfl | ⟨d, hd⟩
      · exact .inr rfl
      · cases hd
    | _ => cases hst
  | some st' =>
    rw [started_append_of_some hbefore, Option.some.injEq] at hst
    subst hst
    rcases hcases with rfl | ⟨d, hd⟩
    · exact .inl ⟨st', hbefore, .inl rfl⟩
    · rcases List.mem_append.mp hd with hd | hd
      · exact .inl ⟨st', hbefore, .inr ⟨d, hd⟩⟩
      · obtain rfl := List.mem_singleton.mp hd
        exact .inr rfl

/-- The server keeps a transfer; the client has heard nothing new. -/
theorem Kept.right (h : Kept S heard n) {q : Party ServerChoice Session Bytes Bytes}
    (hq : Serves S.config q) (choice : ServerChoice) (arrives : Option Nat) :
    Kept S heard (n.step (client S.o S.options S.request) q (.right choice arrives)) := by
  obtain ⟨choice', heq⟩ := hq choice
  have hmove : ∃ sends, q choice (arrives.bind (n.toRight[·]?)) n.right = sends ∧
      sends.1.Kept S heard ∧ n.right.nextUnsent ≤ sends.1.nextUnsent ∧
        ∀ d ∈ sends.2, sends.1.Sent d := by
    refine ⟨_, rfl, ?_⟩
    rw [heq]
    rcases server_cases S.config choice' (arrives.bind (n.toRight[·]?)) n.right with
      hidle | ⟨e, hmove, hack⟩
    · rw [hidle]
      exact ⟨h.session, Nat.le_refl _, by simp⟩
    · rw [hmove]
      refine h.session.move fun sendOk now seq he => ?_
      obtain ⟨d, hd, hparse⟩ := hack sendOk now seq he
      obtain ⟨i, -, hget⟩ := Option.bind_eq_some_iff.mp hd
      exact h.toRight d (List.mem_of_getElem? hget) seq hparse
  obtain ⟨sends, hsends, hsession, hle, hsent⟩ := hmove
  simp only [Net.step, hsends]
  refine { h with session := hsession, sent := fun seq hheard => ?_, toLeft := fun d hd => ?_ }
  · obtain ⟨i, hi, rfl⟩ := h.sent seq hheard
    exact ⟨i, Nat.lt_of_lt_of_le hi hle, rfl⟩
  · rcases List.mem_append.mp hd with hd | hd
    · exact (h.toLeft d hd).mono (by rw [hsession.packets, h.session.packets]) hle
    · exact hsent d hd

/-! ### A turn of the client -/

theorem Setting.heard_eof (hhonest : ∀ p ∈ heard, S.Honest p) {st : Started}
    (hst : started heard = some st) {seq : Nat} (heof : st.eof = some seq) : Heard heard seq := by
  obtain ⟨-, -, -, hafter⟩ := honest_started hhonest hst
  exact ⟨st, hst, .inr ⟨[], (eof_honest S.ne_nil hafter heof).2⟩⟩

theorem Setting.heard_first {seq : Nat} {mime : Text} {data : Bytes}
    (hhonest : ∀ p ∈ heard ++ [.first seq mime data], S.Honest p) :
    Heard (heard ++ [.first seq mime data]) seq := by
  cases hst : started heard with
  | none => exact ⟨_, started_append_of_none hst _, .inl rfl⟩
  | some st =>
    have hbefore : ∀ p ∈ heard, S.Honest p := fun p hp => hhonest p (List.mem_append_left _ hp)
    obtain ⟨hseq, -⟩ := honest_started hbefore hst
    refine ⟨_, started_append_of_some hst _, .inl ?_⟩
    have hfirst : S.Honest (.first seq mime data) := hhonest _ (by simp)
    cases hfirst
    exact hseq.symm

theorem heard_continuation {st : Started} (hst : started heard = some st) (seq : Nat)
    (data : Bytes) : Heard (heard ++ [.continuation seq data]) seq :=
  ⟨_, started_append_of_some hst _, .inr ⟨data, List.mem_append_right _ List.mem_cons_self⟩⟩

theorem Setting.number_le {p : Packet} (h : S.Honest p) {seq : Nat} (hseq : p.number = some seq) :
    seq ≤ maxU32 := by
  have hhi := S.hi
  cases h with
  | first =>
    cases hseq
    omega
  | @chunk i c hc =>
    cases hseq
    have hlt := (List.getElem?_eq_some_iff.mp hc).1
    omega
  | eof =>
    cases hseq
    omega

/-- What the client sends is its request, or acknowledges what it has heard. -/
theorem turn_acks {state : Option Reassembly} (hstands : Stands S.options heard (.running state))
    {e : Event} (hhonest : ∀ p ∈ heard ++ e.packet.toList, S.Honest p) :
    ∀ d ∈ (turn S.o S.request state e).2, d = Utf8.encode S.request ∨
      ∃ seq, d = encodeAck seq ∧ Heard (heard ++ e.packet.toList) seq := by
  have hbefore : ∀ p ∈ heard, S.Honest p := fun p hp => hhonest p (List.mem_append_left _ hp)
  intro d hd
  unfold turn at hd
  cases hin : e.incoming with
  | failed error =>
    rw [hin] at hd
    cases hd
  | timeout =>
    rw [hin] at hd
    have hmem := sendAll_subset hd
    cases state with
    | none => exact .inl (List.mem_singleton.mp hmem)
    | some r =>
      obtain ⟨st, hst, hexact, -⟩ := hstands
      right
      rcases List.mem_cons.mp hmem with rfl | hmem
      · exact ⟨_, rfl, (heard_of_chunk hexact.tracks hst (hexact.tracks.contiguous _
          hexact.tracks.le_end (Nat.le_refl _))).append _⟩
      · obtain ⟨seq, hseq, rfl⟩ := List.mem_map.mp (Option.toList_map .. ▸ hmem)
        rw [Option.mem_toList, hexact.tracks.eof] at hseq
        exact ⟨seq, rfl, (S.heard_eof hbefore hst hseq).append _⟩
  | datagram bytes =>
    rw [hin] at hd
    simp only at hd
    cases hp : parsePacket bytes with
    | error _ =>
      rw [hp] at hd
      cases hd
    | ok p =>
      rw [hp] at hd
      have hpacket : e.packet = some p := by simp [Event.packet, hin, hp, Except.toOption]
      have hmem := sendAll_subset hd
      rw [hpacket, Option.toList_some] at hhonest ⊢
      cases p with
      | first seq mime data =>
        obtain rfl := List.mem_singleton.mp hmem
        exact .inr ⟨seq, rfl, S.heard_first hhonest⟩
      | continuation seq data =>
        cases state with
        | none => cases hmem
        | some r =>
          obtain ⟨st, hst, -⟩ := hstands
          simp only [onPacket] at hmem
          split at hmem
          · cases hmem
          · obtain rfl := List.mem_singleton.mp hmem
            exact .inr ⟨seq, rfl, heard_continuation hst seq data⟩
      | _ => cases hmem

/-- A turn that brings a packet of the session ends as the packets say, whatever the build. -/
theorem step_stands {state : Option Reassembly}
    (hstands : Stands S.options heard (.running state)) {e : Event}
    (hhonest : ∀ p ∈ heard ++ e.packet.toList, S.Honest p) :
    Stands S.options (heard ++ e.packet.toList)
      (step S.o S.options S.request e (.running state)).1 := by
  have hchecked : Stands S.options (heard ++ e.packet.toList)
      (step .checked S.options S.request e (.running state)).1 := stands_step hstands e
  have hsafe : (step .checked S.options S.request e (.running state)).1 ≠ .panicked := by
    intro hpanic
    rw [hpanic] at hchecked
    obtain ⟨st, hst, hfills⟩ := hchecked
    obtain ⟨hseq, -, -, hafter⟩ := honest_started hhonest hst
    exact not_fills_honest hseq hafter S.hi hfills
  rwa [step_of_checked hsafe]

theorem step_acks {state : Option Reassembly} (hstands : Stands S.options heard (.running state))
    {e : Event} (hhonest : ∀ p ∈ heard ++ e.packet.toList, S.Honest p) :
    ∀ d ∈ (step S.o S.options S.request e (.running state)).2, d = Utf8.encode S.request ∨
      ∃ seq, d = encodeAck seq ∧ Heard (heard ++ e.packet.toList) seq := by
  intro d hd
  refine turn_acks hstands hhonest d ?_
  unfold step at hd
  simp only at hd
  split at hd <;> exact hd

/-- The client keeps a transfer, and has then heard the packet that it took. -/
theorem Kept.left (h : Kept S heard n) {state : Option Reassembly} (hleft : n.left = .running state)
    (q : Party ServerChoice Session Bytes Bytes) (choice : ClientChoice) (arrives : Option Nat) :
    Kept S (heard ++ (choice.event (arrives.bind (n.toLeft[·]?))).packet.toList)
      (n.step (client S.o S.options S.request) q (.left choice arrives)) := by
  obtain ⟨e, he⟩ : ∃ e, choice.event (arrives.bind (n.toLeft[·]?)) = e := ⟨_, rfl⟩
  have hpacket : ∀ p, e.packet = some p →
      S.Honest p ∧ ∃ i < n.right.nextUnsent, p.number = some (S.first + i) := by
    intro p hp
    unfold Event.packet at hp
    split at hp
    · next bytes hin =>
      obtain ⟨d, hd, rfl⟩ : ∃ d, arrives.bind (n.toLeft[·]?) = some d ∧ d = bytes := by
        rw [← he] at hin
        unfold ClientChoice.event at hin
        simp only at hin
        split at hin
        · next d _ hd =>
          cases hin
          exact ⟨_, hd, rfl⟩
        · cases hin
        · cases hin
      obtain ⟨j, -, hget⟩ := Option.bind_eq_some_iff.mp hd
      obtain ⟨i, p', hi, hparse, hhonest, hnumber⟩ :=
        h.session.sent (h.toLeft d (List.mem_of_getElem? hget))
      rw [hparse] at hp
      cases hp
      exact ⟨hhonest, i, hi, hnumber⟩
    · cases hp
  have hhonest : ∀ p ∈ heard ++ e.packet.toList, S.Honest p := by
    intro p hp
    rcases List.mem_append.mp hp with hp | hp
    · exact h.honest p hp
    · exact (hpacket p (Option.mem_toList.mp hp)).1
  have hstands := h.stands
  have hfollows := h.follows
  rw [hleft] at hstands hfollows
  have hstep : n.step (client S.o S.options S.request) q (.left choice arrives) =
      { n with
        left := (step S.o S.options S.request e (.running state)).1
        toRight := n.toRight ++ (step S.o S.options S.request e (.running state)).2 } := by
    simp only [Net.step, client, he, hleft]
  rw [he, hstep]
  refine {
    honest := hhonest
    stands := step_stands hstands hhonest
    follows := follows_step S.options S.request hfollows e
    session := h.session.append _
    sent := fun seq hheard => ?_
    toLeft := h.toLeft
    toRight := fun d hd seq hparse => ?_ }
  · cases hp : e.packet with
    | none =>
      rw [hp, Option.toList_none, List.append_nil] at hheard
      exact h.sent seq hheard
    | some p =>
      rw [hp, Option.toList_some] at hheard
      rcases heard_concat hheard with hheard | hnumber
      · exact h.sent seq hheard
      · obtain ⟨-, i, hi, hnumber'⟩ := hpacket p hp
        rw [hnumber, Option.some.injEq] at hnumber'
        exact ⟨i, hi, hnumber'⟩
  · rcases List.mem_append.mp hd with hd | hd
    · exact (h.toRight d hd seq hparse).append _
    · rcases step_acks hstands hhonest d hd with rfl | ⟨seq', rfl, hheard⟩
      · exact absurd hparse (S.notAck seq)
      · obtain ⟨p, hp, hnumber⟩ := hheard.mem
        rw [parseClientDatagram_encodeAck (S.number_le (hhonest p hp) hnumber)] at hparse
        cases hparse
        exact hheard

/-- A client that has ended does nothing more. -/
theorem Kept.left_ended (h : Kept S heard n) (hleft : ∀ state, n.left ≠ .running state)
    (q : Party ServerChoice Session Bytes Bytes) (choice : ClientChoice) (arrives : Option Nat) :
    Kept S heard (n.step (client S.o S.options S.request) q (.left choice arrives)) := by
  have hidle (e : Event) : step S.o S.options S.request e n.left = (n.left, []) := by
    cases hphase : n.left with
    | running state => exact absurd hphase (hleft state)
    | _ => rfl
  have hstep : n.step (client S.o S.options S.request) q (.left choice arrives) = n := by
    simp only [Net.step, client, hidle, List.append_nil]
  rwa [hstep]

/-- **What a transfer keeps**, whatever is lost, repeated, late or out of order. -/
theorem kept_run (h : Kept S heard n) {q : Party ServerChoice Session Bytes Bytes}
    (hq : Serves S.config q) (moves : List (Move ClientChoice ServerChoice)) :
    ∃ heard', Kept S heard' (n.run (client S.o S.options S.request) q moves) := by
  refine Net.run_induction (I := fun n => ∃ heard, Kept S heard n) ?_ ⟨heard, h⟩ moves
  rintro n m ⟨heard, h⟩
  cases m with
  | right choice arrives => exact ⟨heard, h.right hq choice arrives⟩
  | left choice arrives =>
    by_cases hrunning : ∃ state, n.left = .running state
    · obtain ⟨state, hleft⟩ := hrunning
      exact ⟨_, h.left hleft q choice arrives⟩
    · exact ⟨heard, h.left_ended (fun state hleft => hrunning ⟨state, hleft⟩) q choice arrives⟩

theorem Kept.lost (h : Kept S heard n) : Kept S heard n.lost :=
  { h with toLeft := by simp [Net.lost], toRight := by simp [Net.lost] }

end

end Smolweb.Guppy
