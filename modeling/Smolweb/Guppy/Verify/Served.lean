import Smolweb.Guppy.Verify.Sessions
import Smolweb.Guppy.Verify.Transfer
import Smolweb.Verify.RequestLine

/-!
# A fetch that the server loop answers

One client over the network and the server with all its peers. Whatever the others send and
whenever their datagrams come between, what a fetch returns is what the handler said to the request
that the server read in the fetch's URL, if only one session was opened for it (`fetch_served`): a
body, or the answer that is one packet.
-/

namespace Smolweb.Guppy

/-! ## Answers of one packet -/

/-- The line of an answer that opens no session. -/
def GuppyResponse.line : GuppyResponse → Option Text
  | .success _ _ => none
  | .prompt text => some ('1' :: ' ' :: text)
  | .redirect target => some ('3' :: ' ' :: target)
  | .error message => some ('4' :: ' ' :: message)

/-- The answer that a packet is by itself. -/
def Packet.answer : Packet → Option GuppyResponse
  | .first _ _ _ | .continuation _ _ => none
  | .prompt text => some (.prompt text)
  | .redirect target => some (.redirect target)
  | .error message => some (.error message)

/-- An answer that is put into packets as it is: a session's numbers suffice and its first packet
carries the MIME type, or the text after the digit is trimmed and no CRLF is in it. -/
inductive GuppyResponse.Sendable (config : ServerConfig) : GuppyResponse → Prop
  | success {mime : Text} {body : Bytes} (mime_valid : ValidMime mime)
    (fits : packetCount body config.chunkSize < maxSeq - minSeq) :
    Sendable config (.success mime body)
  | prompt {text : Text} (trimmed : Text.trim text = text) (crlfFree : text.CrlfFree) :
    Sendable config (.prompt text)
  | redirect {target : Text} (trimmed : Text.trim target = target) (crlfFree : target.CrlfFree) :
    Sendable config (.redirect target)
  | error {message : Text} (trimmed : Text.trim message = message)
    (crlfFree : message.CrlfFree) :
    Sendable config (.error message)

theorem parsePacket_special {digit : Char} (hdigit : digit ≠ '\r') {text : Text}
    (hfree : text.CrlfFree) :
    parsePacket (Utf8.encode (digit :: ' ' :: text ++ ['\r', '\n'])) =
      parseHeader (digit :: ' ' :: text) [] := by
  have hcrlf : Text.CrlfFree ([digit] ++ ' ' :: text) := by
    rw [Text.crlfFree_append_cons (by decide) (by decide)]
    exact ⟨.of_not_mem_cr (by simpa using hdigit.symm), hfree⟩
  have hline := parsePacket_line hcrlf []
  rwa [List.append_nil] at hline

/-- The one packet of an answer is read as that answer. -/
theorem GuppyResponse.Sendable.parsePacket {config : ServerConfig} {r : GuppyResponse}
    (h : r.Sendable config) {line : Text} (hline : r.line = some line) :
    ∃ p, parsePacket (Utf8.encode (line ++ ['\r', '\n'])) = .ok p ∧ p.answer = some r := by
  cases h with
  | success => cases hline
  | prompt htrim hfree =>
    cases hline
    refine ⟨_, (parsePacket_special (by decide) hfree).trans rfl, ?_⟩
    exact congrArg (fun t => some (GuppyResponse.prompt t)) htrim
  | redirect htrim hfree =>
    cases hline
    refine ⟨_, (parsePacket_special (by decide) hfree).trans rfl, ?_⟩
    exact congrArg (fun t => some (GuppyResponse.redirect t)) htrim
  | error htrim hfree =>
    cases hline
    refine ⟨_, (parsePacket_special (by decide) hfree).trans rfl, ?_⟩
    exact congrArg (fun t => some (GuppyResponse.error t)) htrim

/-! ## The client -/

section Client

variable {o : Overflow} {options : FetchOptions} {request : Text} {heard : List Packet}
  {state : Option Reassembly} {phase : Phase} {r : GuppyResponse} {line : Text}

theorem sendAll_phase (sendError : Nat → Option Text) (k : Nat) (datagrams : List Bytes)
    (next : Phase) : (sendAll sendError k datagrams next).1 = next ∨
      ∃ e, (sendAll sendError k datagrams next).1 = .returned (.error e) := by
  induction datagrams generalizing k with
  | nil => exact .inl rfl
  | cons d ds ih =>
    unfold sendAll
    split
    · exact .inr ⟨_, rfl⟩
    · exact ih (k + 1)

/-- The head of the loop ends a transaction only with a body. -/
theorem line_of_loopHead (h : loopHead o options state = .returned (.ok r)) : r.line = none := by
  unfold loopHead at h
  split at h
  · cases h
  · split at h
    · cases h
    · cases h
      rfl
    · split at h <;> cases h

/-- A packet ends a transaction only if it is an answer, and before any other. -/
theorem answer_of_onPacket {p : Packet} (h : (onPacket o state p).2 = .returned (.ok r)) :
    p.answer = some r := by
  cases p with
  | first seq mime data => cases h
  | continuation seq data =>
    simp only [onPacket] at h
    split at h
    · cases h
    · split at h
      · cases h
      · simp only at h
        split at h
        · cases h
        · split at h <;> cases h
  | _ =>
    cases state with
    | none =>
      cases h
      rfl
    | some s => cases h

/-- A transaction that ends with an answer of one packet has just taken that packet. -/
theorem answer_of_step (hline : r.line = some line) {e : Event}
    (h : (step o options request e (.running state)).1 = .returned (.ok r)) :
    ∃ p, e.packet = some p ∧ p.answer = some r := by
  have hturn : (turn o request state e).1 = .returned (.ok r) := by
    unfold step at h
    simp only at h
    split at h
    · rw [line_of_loopHead h] at hline
      cases hline
    · exact h
  unfold turn at hturn
  cases hin : e.incoming with
  | failed error =>
    rw [hin] at hturn
    cases hturn
  | timeout =>
    rw [hin] at hturn
    rcases sendAll_phase e.sendError 0 _ (.running state) with hsent | ⟨error, hsent⟩
    · cases hsent.symm.trans hturn
    · cases hsent.symm.trans hturn
  | datagram bytes =>
    rw [hin] at hturn
    simp only at hturn
    cases hp : parsePacket bytes with
    | error e =>
      rw [hp] at hturn
      cases hturn
    | ok p =>
      rw [hp] at hturn
      refine ⟨p, by simp [Event.packet, hin, hp, Except.toOption], ?_⟩
      rcases sendAll_phase e.sendError 0 (onPacket o state p).1 (onPacket o state p).2 with
        hsent | ⟨error, hsent⟩
      · exact answer_of_onPacket (hsent.symm.trans hturn)
      · cases hsent.symm.trans hturn

/-- An answer of one packet leaves what was heard of a body as it is. -/
theorem follows_answer (h : Follows o heard (.running state)) {e : Event} {p : Packet}
    (hp : e.packet = some p) (hanswer : p.answer = some r) :
    Follows o heard (step o options request e (.running state)).1 := by
  have hstep : (turn o request state e).1 =
      if state.isNone then .returned (.ok r) else .running state := by
    unfold Event.packet at hp
    split at hp
    · next bytes hin =>
      cases hparse : parsePacket bytes with
      | error e =>
        rw [hparse] at hp
        cases hp
      | ok p =>
        rw [hparse] at hp
        cases hp
        unfold turn
        simp only [hin, hparse]
        cases p with
        | first seq mime data => cases hanswer
        | continuation seq data => cases hanswer
        | _ =>
          cases hanswer
          rfl
    · cases hp
  have hline : r.line ≠ none := by
    cases p with
    | first seq mime data => cases hanswer
    | continuation seq data => cases hanswer
    | _ =>
      cases hanswer
      exact Option.some_ne_none _
  unfold step
  simp only [hstep]
  cases state with
  | none =>
    cases r with
    | success mime body => exact absurd rfl hline
    | _ => trivial
  | some s => exact follows_loopHead h

/-- What a client has come to, of packets that were said: a body is followed by its packets, and an
answer of one packet was said. -/
structure Heeds (o : Overflow) (Said : Packet → Prop) (phase : Phase) : Prop where
  follows : ∃ heard, Follows o heard phase ∧ ∀ p ∈ heard, p.answer = none ∧ Said p
  answer : ∀ r line, r.line = some line → phase = .returned (.ok r) →
    ∃ p, Said p ∧ p.answer = some r

variable {Said : Packet → Prop}

theorem Heeds.mono (h : Heeds o Said phase) {Said' : Packet → Prop}
    (hsaid : ∀ p, Said p → Said' p) : Heeds o Said' phase where
  follows := by
    obtain ⟨heard, hfollows, hheard⟩ := h.follows
    exact ⟨heard, hfollows, fun p hp => (hheard p hp).imp_right (hsaid p)⟩
  answer := by
    intro r line hline hphase
    obtain ⟨p, hp, hanswer⟩ := h.answer r line hline hphase
    exact ⟨p, hsaid p hp, hanswer⟩

theorem Heeds.step (h : Heeds o Said phase) {e : Event} (he : ∀ p, e.packet = some p → Said p) :
    Heeds o Said (step o options request e phase).1 := by
  cases phase with
  | running state =>
    obtain ⟨heard, hfollows, hheard⟩ := h.follows
    refine ⟨?_, fun r line hline hphase => ?_⟩
    · cases hp : e.packet with
      | none =>
        have hstep := follows_step options request hfollows e
        rw [hp, Option.toList_none, List.append_nil] at hstep
        exact ⟨heard, hstep, hheard⟩
      | some p =>
        cases hanswer : p.answer with
        | some r => exact ⟨heard, follows_answer hfollows hp hanswer, hheard⟩
        | none =>
          have hstep := follows_step options request hfollows e
          rw [hp, Option.toList_some] at hstep
          refine ⟨heard ++ [p], hstep, fun q hq => ?_⟩
          rcases List.mem_append.mp hq with hq | hq
          · exact hheard q hq
          · obtain rfl := List.mem_singleton.mp hq
            exact ⟨hanswer, he q hp⟩
    · obtain ⟨p, hp, hanswer⟩ := answer_of_step hline hphase
      exact ⟨p, he p hp, hanswer⟩
  | _ => exact h

theorem number_of_endsAt {first n : Nat} {p : Packet} (h : Started.endsAt first p = some n) :
    p.number = some n := by
  unfold Started.endsAt at h
  split at h
  · split at h
    · exact h
    · cases h
  · cases h

/-- What a client sends is its request, or an acknowledgement that is one. -/
theorem Heeds.sends (h : Heeds o Said phase)
    (hsaid : ∀ p n, Said p → p.number = some n → n ≤ maxU32) {e : Event}
    (he : ∀ p, e.packet = some p → Said p) :
    ∀ d ∈ (Guppy.step o options request e phase).2, d = Utf8.encode request ∨
      ∃ seq ≤ maxU32, d = encodeAck seq := by
  intro d hd
  cases phase with
  | running state =>
    obtain ⟨heard, hfollows, hheard⟩ := h.follows
    have hturn : d ∈ (turn o request state e).2 := by
      unfold Guppy.step at hd
      simp only at hd
      split at hd <;> exact hd
    unfold turn at hturn
    cases hin : e.incoming with
    | failed error =>
      rw [hin] at hturn
      cases hturn
    | timeout =>
      rw [hin] at hturn
      have hmem := sendAll_subset hturn
      cases state with
      | none => exact .inl (List.mem_singleton.mp hmem)
      | some r =>
        obtain ⟨st, hst, htracks⟩ := hfollows
        right
        rcases List.mem_cons.mp hmem with rfl | hmem
        · exact ⟨_, htracks.end_le, rfl⟩
        · obtain ⟨seq, hseq, rfl⟩ := List.mem_map.mp (Option.toList_map .. ▸ hmem)
          rw [Option.mem_toList, htracks.eof] at hseq
          obtain ⟨p, hp, hends⟩ := List.mem_filterMap.mp (List.mem_of_getLast? hseq)
          have hsaid' := (hheard p ((mem_of_started hst).2 p hp)).2
          exact ⟨seq, hsaid p seq hsaid' (number_of_endsAt hends), rfl⟩
    | datagram bytes =>
      rw [hin] at hturn
      simp only at hturn
      cases hp : parsePacket bytes with
      | error _ =>
        rw [hp] at hturn
        cases hturn
      | ok p =>
        rw [hp] at hturn
        have hpacket : e.packet = some p := by simp [Event.packet, hin, hp, Except.toOption]
        have hmem := sendAll_subset hturn
        cases p with
        | first seq mime data =>
          obtain rfl := List.mem_singleton.mp hmem
          exact .inr ⟨seq, hsaid _ seq (he _ hpacket) rfl, rfl⟩
        | continuation seq data =>
          cases state with
          | none => cases hmem
          | some r =>
            simp only [onPacket] at hmem
            split at hmem
            · cases hmem
            · obtain rfl := List.mem_singleton.mp hmem
              exact .inr ⟨seq, hsaid _ seq (he _ hpacket) rfl, rfl⟩
        | _ => cases hmem
  | _ => cases hd

end Client

/-! ## The server and one of its peers -/

section Server

variable {o : Overflow} {outside : Outside} {config : ServerConfig} {t t' : Sessions}
  {effects : Effects} {p : SocketAddr} {turn : Turn} {datagram : Bytes}

/-- A turn that gives a peer no answer: its session, if there is one, keeps its packets, and the
peer is sent only those. -/
structure LeftAlone (p : SocketAddr) (t t' : Sessions) (effects : Effects) : Prop where
  sessions : ∀ s', t'[p]? = some s' → ∃ s, t[p]? = some s ∧ s'.packets = s.packets
  sends : ∀ d, (p, d) ∈ effects.sent → ∃ s, t'[p]? = some s ∧ d ∈ s.packets.map Prod.snd

theorem LeftAlone.refl (p : SocketAddr) (t : Sessions) : LeftAlone p t t {} where
  sessions := fun s hs => ⟨s, hs, rfl⟩
  sends := nofun

theorem sent_to_peer {peer : SocketAddr}
    (h : serveStep o outside config t (.received datagram peer turn) = some (t', effects)) :
    ∀ sent ∈ effects.sent, sent.1 = peer := by
  have hspecial (line : Text) : ∀ sent ∈ sendSpecial peer turn line, sent.1 = peer := by
    intro sent hsent
    unfold sendSpecial at hsent
    split at hsent
    · rw [List.mem_singleton.mp hsent]
    · cases hsent
  have hnone : ∀ sent ∈ ([] : List (SocketAddr × Bytes)), sent.1 = peer := by simp
  have hmap (wires : List Bytes) : ∀ sent ∈ wires.map fun wire => (peer, wire),
      sent.1 = peer := by
    intro sent hsent
    obtain ⟨wire, -, rfl⟩ := List.mem_map.mp hsent
    rfl
  simp only [serveStep] at h
  split at h
  · cases h
    exact hnone
  · split at h
    · cases h
      exact hnone
    · simp only [onAck, Option.some.injEq] at h
      split at h
      · cases h
        exact hnone
      · cases h
        exact hmap _
    · unfold onRequest at h
      split at h
      · cases h
        exact hnone
      · split at h
        · cases h
          exact hnone
        · split at h
          · cases h
            exact hspecial _
          · split at h
            · simp only [Option.bind_eq_bind, Option.bind_eq_some_iff, Option.some.injEq,
                Prod.mk.injEq] at h
              obtain ⟨s₀, -, -, rfl⟩ := h
              exact hmap _
            all_goals
              cases h
              exact hspecial _

/-- What is received from others gives a peer no answer. -/
theorem serveStep_foreign {event : ServeEvent}
    (h : serveStep o outside config t event = some (t', effects))
    (hforeign : ∀ datagram turn, event ≠ .received datagram p turn) :
    LeftAlone p t t' effects where
  sessions := by
    intro s' hs'
    rcases serveStep_peer h hs' with ⟨s, hs, rfl | ⟨e, -, rfl⟩⟩ | ⟨s₀, e, hopens, -⟩
    · exact ⟨_, hs, rfl⟩
    · exact ⟨s, hs, step_packets config s e⟩
    · cases hopens
      exact absurd rfl (hforeign _ _)
  sends := by
    intro d hd
    cases event with
    | tick now resentAt sendOk =>
      cases h
      exact onTick_sends _ hd
    | recvFailed =>
      cases h
      cases hd
    | received datagram peer turn =>
      obtain rfl : p = peer := sent_to_peer h _ hd
      exact absurd rfl (hforeign datagram turn)

theorem serveStep_ack {seq : Nat} (hack : parseClientDatagram datagram = .ok (.ack seq))
    (h : serveStep o outside config t (.received datagram p turn) = some (t', effects)) :
    LeftAlone p t t' effects ∧ effects.handled = none := by
  simp only [serveStep, hack] at h
  split at h
  · cases h
    exact ⟨.refl p t, rfl⟩
  · simp only [onAck, Option.some.injEq] at h
    split at h
    · cases h
      exact ⟨.refl p t, rfl⟩
    · next s hs =>
      cases h
      refine ⟨⟨fun s' hs' => ?_, fun d hd => ?_⟩, rfl⟩
      · rw [Std.HashMap.getElem?_insert_self, Option.some.injEq] at hs'
        subst hs'
        exact ⟨s, hs, acknowledge_packets ..⟩
      · obtain ⟨wire, hwire, hd⟩ := List.mem_map.mp hd
        cases hd
        refine ⟨_, Std.HashMap.getElem?_insert_self, ?_⟩
        rw [acknowledge_packets]
        exact acknowledge_sends hwire

/-- A turn that gives a peer the handler's answer to its request. -/
inductive Answered (o : Overflow) (config : ServerConfig) (p : SocketAddr) (turn : Turn)
    (request : Request) (t : Sessions) : Sessions → Effects → Prop
  | special {line : Text} (fresh : t[p]? = none)
    (hline : (turn.handle request).line = some line) :
    Answered o config p turn request t t
      { sent := sendSpecial p turn line, handled := some request }
  | opened {mime : Text} {body : Bytes} {s : Session}
    (hhandle : turn.handle request = .success mime body)
    (hbuilt : buildSession o turn.hash turn.now mime body config.chunkSize = some s) :
    Answered o config p turn request t
      (t.insert p (openWindow config turn.sendOk turn.now s).1)
      { sent := (openWindow config turn.sendOk turn.now s).2.map fun wire => (p, wire)
        handled := some request }

theorem serveStep_request {line : Text} {request : Request}
    (hline : parseClientDatagram datagram = .ok (.request line))
    (hread : parseRequest outside line p = some request)
    (h : serveStep o outside config t (.received datagram p turn) = some (t', effects)) :
    LeftAlone p t t' effects ∧ effects.handled = none ∨
      Answered o config p turn request t t' effects := by
  simp only [serveStep, hline] at h
  split at h
  · cases h
    exact .inl ⟨.refl p t, rfl⟩
  · unfold onRequest at h
    split at h
    · cases h
      exact .inl ⟨.refl p t, rfl⟩
    · next hlive =>
      have hfresh : t[p]? = none := Std.HashMap.getElem?_eq_none (by simpa using hlive)
      split at h
      · cases h
        exact .inl ⟨.refl p t, rfl⟩
      · simp only [hread] at h
        right
        split at h
        · next mime body hhandle =>
          simp only [Option.bind_eq_bind, Option.bind_eq_some_iff, Option.some.injEq,
            Prod.mk.injEq] at h
          obtain ⟨s, hbuilt, rfl, rfl⟩ := h
          exact .opened hhandle hbuilt
        all_goals
          next hhandle =>
          cases h
          exact .special hfresh (congrArg GuppyResponse.line hhandle)

end Server

/-! ## The world of a fetch -/

/-- What the handler said to a request, and the session that is open for the peer after that. -/
structure Answer where
  request : Request
  response : GuppyResponse
  session : Option Session

/-- The datagrams of an answer: the packets of its session, or its one packet. -/
def Answer.Puts (a : Answer) (d : Bytes) : Prop :=
  (∃ s, a.session = some s ∧ d ∈ s.packets.map Prod.snd) ∨
    ∃ line, a.response.line = some line ∧ d = Utf8.encode (line ++ ['\r', '\n'])

/-- The server with all its peers, as one of them meets it. -/
structure Serving where
  /-- `none` is a server that has panicked. -/
  table : Option Sessions
  /-- Ghost state: what was said to the peer so far. -/
  answers : List Answer

/-- What the outside decides in a turn of the server: the turn of a datagram of the peer's, and what
comes if it is not one of those. -/
structure ServeChoice (p : SocketAddr) where
  turn : Turn
  other : ServeEvent
  foreign : ∀ datagram turn, other ≠ .received datagram p turn

namespace ServeChoice

variable {p : SocketAddr}

def event (choice : ServeChoice p) : Option Bytes → ServeEvent
  | some datagram => .received datagram p choice.turn
  | none => choice.other

/-- What the handler says to the peer in a turn after which the table is `t'`. -/
def answers (choice : ServeChoice p) (incoming : Option Bytes) (t' : Sessions)
    (effects : Effects) : List Answer :=
  match incoming with
  | some _ => effects.handled.toList.map fun request =>
      { request, response := choice.turn.handle request, session := t'[p]? }
  | none => []

end ServeChoice

/-- What a turn sends to a peer. -/
def sentTo (p : SocketAddr) (effects : Effects) : List Bytes :=
  effects.sent.filterMap fun sent => if sent.1 = p then some sent.2 else none

theorem mem_sentTo {p : SocketAddr} {effects : Effects} {d : Bytes} (h : d ∈ sentTo p effects) :
    (p, d) ∈ effects.sent := by
  obtain ⟨⟨peer, d'⟩, hmem, hd⟩ := List.mem_filterMap.mp h
  split at hd
  · next hpeer =>
    cases hd
    exact hpeer ▸ hmem
  · cases hd

/-- The loop of `serve`, and of what it sends that which goes to the peer. -/
def serving (o : Overflow) (outside : Outside) (config : ServerConfig) (p : SocketAddr) :
    Party (ServeChoice p) Serving Bytes Bytes :=
  fun choice incoming s =>
    match s.table with
    | none => (s, [])
    | some t =>
      match serveStep o outside config t (choice.event incoming) with
      | none => ({ s with table := none }, [])
      | some (t', effects) =>
        ({ table := some t', answers := s.answers ++ choice.answers incoming t' effects },
          sentTo p effects)

/-- A fetch and the server: the client on the left, the server on the right. -/
abbrev World := Net Phase Serving Bytes Bytes

/-- The request is on its way. -/
def World.start (o : Overflow) (options : FetchOptions) (request : Text) (t : Sessions) :
    World where
  left := loopHead o options none
  right := ⟨some t, []⟩
  toLeft := []
  toRight := [Utf8.encode request]

/-- An answer to the request, put into the packets it stands for. -/
inductive Answer.Apt (o : Overflow) (config : ServerConfig) (request : Request) : Answer → Prop
  | special {response : GuppyResponse} {line : Text} (hline : response.line = some line)
    {session : Option Session} (hnone : session = none) :
    Apt o config request { request, response, session }
  | opened {hash now : Nat} {mime : Text} {body : Bytes} {built s : Session}
    (hbuilt : buildSession o hash now mime body config.chunkSize = some built)
    {session : Option Session} (hsession : session = some s)
    (hpackets : s.packets = built.packets) :
    Apt o config request { request, response := .success mime body, session }

/-- A packet of one of the answers. -/
def Said (answers : List Answer) (packet : Packet) : Prop :=
  ∃ a ∈ answers, ∃ d, a.Puts d ∧ parsePacket d = .ok packet

theorem Said.append {answers : List Answer} {packet : Packet} (h : Said answers packet)
    (more : List Answer) : Said (answers ++ more) packet := by
  obtain ⟨a, ha, hputs⟩ := h
  exact ⟨a, List.mem_append_left _ ha, hputs⟩

/-- What every move keeps: the client has heeded what was said, and what is on its way to it was
said too; what it sends asks for the one request or acknowledges; every answer is to that request,
and the peer's session is one of those that the answers have opened. -/
structure World.Kept (o o' : Overflow) (config : ServerConfig) (p : SocketAddr) (url : Text)
    (request : Request) (n : World) : Prop where
  heeds : Heeds o (Said n.right.answers) n.left
  toLeft : ∀ d ∈ n.toLeft, ∃ a ∈ n.right.answers, a.Puts d
  toRight : ∀ d ∈ n.toRight, parseClientDatagram d = .ok (.request url) ∨
    ∃ seq, parseClientDatagram d = .ok (.ack seq)
  answers : ∀ a ∈ n.right.answers, a.Apt o' config request
  session : ∀ t s, n.right.table = some t → t[p]? = some s →
    ∃ a ∈ n.right.answers, ∃ s', a.session = some s' ∧ s.packets = s'.packets

namespace World.Kept

variable {o o' : Overflow} {options : FetchOptions} {outside : Outside} {config : ServerConfig}
  {p : SocketAddr} {url : Text} {request : Request} {n : World}

/-- The client's moves. -/
theorem left (h : n.Kept o o' config p url request) {line : Text}
    (hline : parseClientDatagram (Utf8.encode line) = .ok (.request url))
    (q : Party (ServeChoice p) Serving Bytes Bytes) (choice : ClientChoice)
    (arrives : Option Nat) :
    World.Kept o o' config p url request
      (n.step (client o options line) q (.left choice arrives)) := by
  have hsaid : ∀ packet, (choice.event (arrives.bind (n.toLeft[·]?))).packet = some packet →
      Said n.right.answers packet := by
    intro packet hpacket
    unfold Event.packet ClientChoice.event at hpacket
    cases hd : arrives.bind (n.toLeft[·]?) with
    | none =>
      rw [hd] at hpacket
      cases hr : choice.recvError <;> simp [hr] at hpacket
    | some d =>
      rw [hd] at hpacket
      simp only at hpacket
      obtain ⟨i, -, hi⟩ := Option.bind_eq_some_iff.mp hd
      obtain ⟨a, ha, hputs⟩ := h.toLeft d (List.mem_of_getElem? hi)
      refine ⟨a, ha, d, hputs, ?_⟩
      cases hparse : parsePacket d with
      | error e => simp [hparse, Except.toOption] at hpacket
      | ok q => simpa [hparse, Except.toOption] using hpacket
  have hnumber : ∀ packet n', Said n.right.answers packet → packet.number = some n' →
      n' ≤ maxU32 := by
    rintro packet n' ⟨a, -, d, -, hparse⟩ hn'
    obtain ⟨hfirst, hcontinuation⟩ := parsePacket_seq_le hparse
    cases packet with
    | first seq mime data =>
      cases hn'
      exact hfirst _ _ _ rfl
    | continuation seq data =>
      cases hn'
      exact hcontinuation _ _ rfl
    | _ => cases hn'
  refine {
    heeds := h.heeds.step hsaid
    toLeft := h.toLeft
    toRight := fun d hd => ?_
    answers := h.answers
    session := h.session }
  rcases List.mem_append.mp hd with hd | hd
  · exact h.toRight d hd
  · rcases h.heeds.sends hnumber hsaid d hd with rfl | ⟨seq, hseq, rfl⟩
    · exact .inl hline
    · exact .inr ⟨seq, parseClientDatagram_encodeAck hseq⟩

/-- A turn of the server that gives the peer no answer. -/
theorem unanswered (h : n.Kept o o' config p url request) {t t' : Sessions} {effects : Effects}
    (ht : n.right.table = some t) (hturn : LeftAlone p t t' effects) :
    World.Kept o o' config p url request { n with
      right := ⟨some t', n.right.answers⟩
      toLeft := n.toLeft ++ sentTo p effects } := by
  have hsession : ∀ s', t'[p]? = some s' →
      ∃ a ∈ n.right.answers, ∃ s, a.session = some s ∧ s'.packets = s.packets := by
    intro s' hs'
    obtain ⟨s₁, hs₁, heq⟩ := hturn.sessions s' hs'
    obtain ⟨a, ha, s, hs, heq'⟩ := h.session t s₁ ht hs₁
    exact ⟨a, ha, s, hs, heq.trans heq'⟩
  refine { h with
    toLeft := fun d hd => ?_
    session := ?_ }
  · rcases List.mem_append.mp hd with hd | hd
    · exact h.toLeft d hd
    · obtain ⟨s', hs', hmem⟩ := hturn.sends d (mem_sentTo hd)
      obtain ⟨a, ha, s, hs, heq⟩ := hsession s' hs'
      exact ⟨a, ha, .inl ⟨s, hs, heq ▸ hmem⟩⟩
  · rintro _ s' ⟨⟩ hs'
    exact hsession s' hs'

/-- A turn of the server that gives the peer an answer. -/
theorem answered (h : n.Kept o o' config p url request) {t t' : Sessions} {effects : Effects}
    {turn : Turn}
    (hturn : Answered o' config p turn request t t' effects) :
    World.Kept o o' config p url request { n with
      right := ⟨some t', n.right.answers ++ [⟨request, turn.handle request, t'[p]?⟩]⟩
      toLeft := n.toLeft ++ sentTo p effects } := by
  let a : Answer := ⟨request, turn.handle request, t'[p]?⟩
  have hmem : a ∈ n.right.answers ++ [a] := List.mem_append_right _ List.mem_cons_self
  have hold (d : Bytes) (hd : d ∈ n.toLeft) : ∃ b ∈ n.right.answers ++ [a], b.Puts d := by
    obtain ⟨b, hb, hputs⟩ := h.toLeft d hd
    exact ⟨b, List.mem_append_left _ hb, hputs⟩
  have hapt : a.Apt o' config request := by
    cases hturn with
    | special fresh hline => exact .special hline fresh
    | opened hhandle hbuilt =>
      change Answer.Apt o' config request ⟨request, turn.handle request, _⟩
      rw [hhandle]
      exact .opened hbuilt Std.HashMap.getElem?_insert_self (openWindow_packets ..)
  have hputs (d : Bytes) (hd : d ∈ sentTo p effects) : a.Puts d := by
    have hsent := mem_sentTo hd
    cases hturn with
    | special fresh hline =>
      simp only [sendSpecial] at hsent
      split at hsent
      · cases List.mem_singleton.mp hsent
        exact .inr ⟨_, hline, rfl⟩
      · cases hsent
    | opened hhandle hbuilt =>
      obtain ⟨wire, hwire, hd⟩ := List.mem_map.mp hsent
      cases hd
      refine .inl ⟨_, Std.HashMap.getElem?_insert_self, ?_⟩
      rw [openWindow_packets]
      exact openWindow_sends hwire
  refine {
    heeds := h.heeds.mono fun packet hsaid => hsaid.append _
    toLeft := fun d hd => ?_
    toRight := h.toRight
    answers := fun b hb => ?_
    session := ?_ }
  · rcases List.mem_append.mp hd with hd | hd
    · exact hold d hd
    · exact ⟨a, hmem, hputs d hd⟩
  · rcases List.mem_append.mp hb with hb | hb
    · exact h.answers b hb
    · exact List.mem_singleton.mp hb ▸ hapt
  · rintro _ s ⟨⟩ hs
    exact ⟨a, hmem, s, hs, rfl⟩

/-- The server's moves. -/
theorem right (h : n.Kept o o' config p url request)
    (hread : parseRequest outside url p = some request)
    (q : Party ClientChoice Phase Bytes Bytes) (choice : ServeChoice p) (arrives : Option Nat) :
    World.Kept o o' config p url request
      (n.step q (serving o' outside config p) (.right choice arrives)) := by
  have harrives (d : Bytes) (hd : arrives.bind (n.toRight[·]?) = some d) :
      parseClientDatagram d = .ok (.request url) ∨
        ∃ seq, parseClientDatagram d = .ok (.ack seq) := by
    obtain ⟨i, -, hi⟩ := Option.bind_eq_some_iff.mp hd
    exact h.toRight d (List.mem_of_getElem? hi)
  simp only [Net.step, serving]
  generalize arrives.bind (n.toRight[·]?) = incoming at harrives
  split
  · rw [List.append_nil]
    exact h
  · next t ht =>
    split
    · rw [List.append_nil]
      refine { h with session := ?_ }
      intro t s htable
      cases htable
    · next t' effects hstep =>
      cases incoming with
      | none =>
        have hturn := serveStep_foreign hstep choice.foreign
        have hkept := h.unanswered ht hturn
        simpa only [ServeChoice.answers, List.append_nil] using hkept
      | some d =>
        have hunanswered (hhandled : effects.handled = none) (hturn : LeftAlone p t t' effects) :
            World.Kept o o' config p url request { n with
              right := ⟨some t', n.right.answers ++ choice.answers (some d) t' effects⟩
              toLeft := n.toLeft ++ sentTo p effects } := by
          have hkept := h.unanswered ht hturn
          simpa only [ServeChoice.answers, hhandled, Option.toList_none, List.map_nil,
            List.append_nil] using hkept
        rcases harrives d rfl with hrequest | ⟨seq, hack⟩
        · rcases serveStep_request hrequest hread hstep with ⟨hturn, hhandled⟩ | hturn
          · exact hunanswered hhandled hturn
          · have hhandled : effects.handled = some request := by
              cases hturn <;> rfl
            have hkept := h.answered hturn
            simpa only [ServeChoice.answers, hhandled, Option.toList_some, List.map_cons,
              List.map_nil] using hkept
        · obtain ⟨hturn, hhandled⟩ := serveStep_ack hack hstep
          exact hunanswered hhandled hturn

end World.Kept

/-- **What every run keeps.** -/
theorem World.kept_run {o o' : Overflow} {options : FetchOptions} {outside : Outside}
    {config : ServerConfig} {p : SocketAddr} {url line : Text} {request : Request}
    (hline : parseClientDatagram (Utf8.encode line) = .ok (.request url))
    (hread : parseRequest outside url p = some request) {t : Sessions} (hfresh : t[p]? = none)
    (moves : List (Move ClientChoice (ServeChoice p))) :
    World.Kept o o' config p url request ((World.start o options line t).run
      (client o options line) (serving o' outside config p) moves) := by
  have hstart : World.Kept o o' config p url request (World.start o options line t) := {
    heeds := {
      follows := ⟨[], rfl, by simp⟩
      answer := by
        intro r line hline' hphase
        cases hphase }
    toLeft := by
      intro d hd
      cases hd
    toRight := by
      intro d hd
      obtain rfl := List.mem_singleton.mp hd
      exact .inl hline
    answers := by
      intro a ha
      cases ha
    session := by
      rintro _ s ⟨⟩ hs
      rw [hfresh] at hs
      cases hs }
  refine Net.run_induction (I := World.Kept o o' config p url request) (fun n m h => ?_) hstart
    moves
  cases m with
  | left choice arrives => exact h.left hline _ choice arrives
  | right choice arrives => exact h.right hread _ choice arrives

/-! ## What a fetch returns -/

theorem parseUnsigned_colon {max : Nat} {t : Text} (h : ':' ∈ t) :
    Text.parseUnsigned max t = none := by
  have hdigits (digits : Text) (hmem : ':' ∈ digits) :
      (digits.isEmpty || !digits.all Char.isDigit) = true := by
    rw [Bool.or_eq_true, Bool.not_eq_true']
    exact .inr (List.all_eq_false.mpr ⟨':', hmem, by decide⟩)
  unfold Text.parseUnsigned
  split
  · next rest =>
    have hmem : ':' ∈ rest := by simpa using h
    simp only [hdigits rest hmem, if_true]
  · simp only [hdigits t h, if_true]

/-- The request of a fetch is taken for the URL that was fetched. -/
theorem parseClientDatagram_url {url : Text} (hone : url.OneLine) (htrim : Text.trim url = url)
    (hcolon : ':' ∈ url) :
    parseClientDatagram (Utf8.encode (url ++ ['\r', '\n'])) = .ok (.request url) := by
  obtain ⟨hcr, -⟩ := Text.oneLine_iff_not_mem.mp hone
  have hpos := crlfPosition_encode (Text.CrlfFree.of_not_mem_cr hcr) []
  rw [List.append_nil] at hpos
  have hlen : (Utf8.encode url ++ crlf).length = (Utf8.encode url).length + 2 := by simp [crlf]
  rw [Utf8.encode_append, encode_crlf, parseClientDatagram, hpos]
  simp only [List.take_left, Utf8.decode_encode, hlen, if_true, htrim, parseUnsigned_colon hcolon]

namespace Answer

variable {o : Overflow} {config : ServerConfig} {request : Request} {a : Answer}

/-- What an answer that opened a session says, packet by packet. -/
theorem Apt.honest (h : a.Apt o config request) (hsend : a.response.Sendable config) {s : Session}
    (hs : a.session = some s) : ∃ first mime body head tail, a.response = .success mime body ∧
      Chunking body head tail ∧
        ∀ d packet, a.Puts d → parsePacket d = .ok packet → Honest first mime head tail packet := by
  cases h with
  | special hline hnone => cases hnone.symm.trans hs
  | @opened hash now mime body built s' hbuilt session hsession hpackets =>
    cases hsession.symm.trans hs
    cases hsend with
    | success hmime hfits =>
      obtain ⟨first, head, tail, hlo, hhi, hchunks, hcount, heq⟩ :=
        buildSession_eq o hash now mime body config.chunkSize hfits
      rw [hbuilt, Option.some.injEq] at heq
      have hfit : first + 1 + tail.length ≤ maxU32 := by
        have : maxSeq ≤ maxU32 := by decide
        omega
      refine ⟨first, mime, body, head, tail, rfl, hchunks, ?_⟩
      rintro d packet (⟨s, hsession', hmem⟩ | ⟨line, hline, -⟩) hparse
      · cases hsession.symm.trans hsession'
        rw [hpackets, heq] at hmem
        obtain ⟨q, hq, hhonest⟩ := honest_of_mem hmime hlo hfit hmem
        cases hparse.symm.trans hq
        exact hhonest
      · cases hline

/-- What an answer that opened no session says. -/
theorem special_packet (hsend : a.response.Sendable config)
    (hnone : a.session = none) {d : Bytes} (hputs : a.Puts d) {packet : Packet}
    (hparse : parsePacket d = .ok packet) : packet.answer = some a.response := by
  rcases hputs with ⟨s, hs, -⟩ | ⟨line, hline, rfl⟩
  · cases hnone.symm.trans hs
  · obtain ⟨q, hq, hanswer⟩ := hsend.parsePacket hline
    cases hparse.symm.trans hq
    exact hanswer

end Answer

theorem Honest.answer_eq_none {first : Nat} {mime : Text} {head : Bytes} {tail : List Bytes}
    {packet : Packet} (h : Honest first mime head tail packet) : packet.answer = none := by
  cases h <;> rfl

/-- One member of a list passes a test that at most one of them may pass. -/
theorem eq_of_length_filter_le_one {α : Type} {q : α → Bool} {l : List α}
    (h : (l.filter q).length ≤ 1) {a b : α} (ha : a ∈ l) (hb : b ∈ l) (hqa : q a = true)
    (hqb : q b = true) : a = b := by
  have ha' := List.mem_filter.mpr ⟨ha, hqa⟩
  have hb' := List.mem_filter.mpr ⟨hb, hqb⟩
  match hl : l.filter q, h with
  | [], _ => simp [hl] at ha'
  | [c], _ =>
    rw [hl, List.mem_singleton] at ha' hb'
    exact ha'.trans hb'.symm

section

variable {o o' : Overflow} {config : ServerConfig} {p : SocketAddr} {url : Text}
  {request : Request} {n : World}

/-- **What a client has come to** was said to it. -/
theorem World.Kept.returned (h : n.Kept o o' config p url request)
    (hsend : ∀ a ∈ n.right.answers, a.response.Sendable config)
    (honce : (n.right.answers.filter fun a => a.session.isSome).length ≤ 1)
    {r : GuppyResponse} (hreturned : n.left = .returned (.ok r)) :
    ∃ a ∈ n.right.answers, a.response = r := by
  cases hline : r.line with
  | some line =>
    obtain ⟨packet, ⟨a, ha, d, hputs, hparse⟩, hanswer⟩ := h.heeds.answer r line hline hreturned
    refine ⟨a, ha, ?_⟩
    cases hs : a.session with
    | none =>
      have hsaid := Answer.special_packet (hsend a ha) hs hputs hparse
      exact Option.some.inj (hsaid.symm.trans hanswer)
    | some s =>
      obtain ⟨first, mime, body, head, tail, -, -, hhonest⟩ :=
        (h.answers a ha).honest (hsend a ha) hs
      rw [(hhonest d packet hputs hparse).answer_eq_none] at hanswer
      cases hanswer
  | none =>
    obtain ⟨mime, body, rfl⟩ : ∃ mime body, r = .success mime body := by
      cases r with
      | success mime body => exact ⟨mime, body, rfl⟩
      | _ => cases hline
    obtain ⟨heard, hfollows, hheard⟩ := h.heeds.follows
    -- every packet heard is of an answer that opened a session
    have hopened (packet : Packet) (hp : packet ∈ heard) : ∃ a ∈ n.right.answers,
        a.session.isSome = true ∧ ∃ d, a.Puts d ∧ parsePacket d = .ok packet := by
      obtain ⟨hanswer, a, ha, d, hputs, hparse⟩ := hheard packet hp
      refine ⟨a, ha, ?_, d, hputs, hparse⟩
      cases hs : a.session with
      | some s => rfl
      | none =>
        rw [Answer.special_packet (hsend a ha) hs hputs hparse] at hanswer
        cases hanswer
    rw [hreturned] at hfollows
    obtain ⟨-, st, hst, -⟩ := id hfollows
    obtain ⟨a, ha, hs, -⟩ := hopened _ (mem_of_started hst).1
    refine ⟨a, ha, ?_⟩
    obtain ⟨s, hs'⟩ := Option.isSome_iff_exists.mp hs
    obtain ⟨first, mime', body', head, tail, hresponse, hchunks, hhonest⟩ :=
      (h.answers a ha).honest (hsend a ha) hs'
    have hears : HearsHonestly o first mime' head tail
        (.returned (.ok (.success mime body))) := by
      refine ⟨heard, fun packet hp => ?_, hfollows⟩
      obtain ⟨b, hb, hsb, d, hputs, hparse⟩ := hopened packet hp
      obtain rfl := eq_of_length_filter_le_one honce ha hb hs hsb
      exact hhonest d packet hputs hparse
    obtain ⟨rfl, rfl⟩ := hearsHonestly_success hchunks hears
    exact hresponse

end

/-- **A fetch returns what the handler said** to the request that its URL is, for every other peer,
loss, delay and repetition, if at most one session was opened for it. -/
theorem fetch_served {o o' : Overflow} {outside : Outside}
    (hcolon : ∀ t parsed, outside.parseUrl t = .ok parsed → ':' ∈ t) {url : Text}
    (hone : url.OneLine) (htrim : Text.trim url = url) {transaction : Transaction}
    (hfetch : fetch outside.parseUrl url = .ok transaction) {options : FetchOptions}
    {config : ServerConfig} {p : SocketAddr} {t : Sessions} (hfresh : t[p]? = none)
    {moves : List (Move ClientChoice (ServeChoice p))} {n : World}
    (hrun : (World.start o options transaction.request t).run
      (client o options transaction.request) (serving o' outside config p) moves = n)
    {r : GuppyResponse} (hreturned : n.left = .returned (.ok r))
    (hsend : ∀ a ∈ n.right.answers, a.response.Sendable config)
    (honce : (n.right.answers.filter fun a => a.session.isSome).length ≤ 1) :
    ∃ a ∈ n.right.answers, a.response = r ∧ parseRequest outside url p = some a.request := by
  obtain ⟨parsed, host, hparsed, hscheme, -, -, rfl⟩ := fetch_eq_ok_iff.mp hfetch
  obtain ⟨request, hread⟩ : ∃ request, parseRequest outside url p = some request := by
    unfold parseRequest
    simp only [htrim, hparsed, hscheme, ne_eq, not_true_eq_false, if_false]
    exact ⟨_, rfl⟩
  have hline := parseClientDatagram_url hone htrim (hcolon url parsed hparsed)
  have hkept : n.Kept o o' config p url request :=
    hrun ▸ World.kept_run hline hread hfresh moves
  obtain ⟨a, ha, hresponse⟩ := hkept.returned hsend honce hreturned
  refine ⟨a, ha, hresponse, hread.trans ?_⟩
  cases hkept.answers a ha <;> rfl

def siteOutside : Outside where
  parseUrl t := if t = "guppy://a/".toList then
      .ok ⟨"guppy".toList, some "a".toList, none, ['/'], none, none⟩
    else .error []
  percentDecode := id

/-- A session of two bytes in one chunk. -/
def briefSession : Session where
  packets := transmission 6 "text/plain".toList [104, 105] []
  nextUnsent := 0
  unacked := ∅
  lastSend := 0
  created := 0
  doneAt := none

def briefMoves : List (Move ClientChoice (ServeChoice samplePeer)) :=
  let client : ClientChoice := ⟨fun _ => none, none⟩
  [.right ⟨sampleTurn, .recvFailed, nofun⟩ (some 0), .left client (some 0), .left client (some 1)]

/-- A page of one chunk. -/
theorem fetch_served_page : ∃ n : World,
    (World.start .checked {} "guppy://a/\r\n".toList ∅).run (client .checked {}
      "guppy://a/\r\n".toList) (serving .checked siteOutside {} samplePeer) briefMoves = n ∧
    ∃ a ∈ n.right.answers, a.response = .success "text/plain".toList [104, 105] ∧
      parseRequest siteOutside "guppy://a/".toList samplePeer = some a.request := by
  have hfits : ¬ maxRequestBytes < (Utf8.encode "guppy://a/\r\n".toList).length := by decide
  have hline : parseClientDatagram (Utf8.encode "guppy://a/\r\n".toList) =
      .ok (.request "guppy://a/".toList) := by
    decide
  let request : Request :=
    ⟨⟨"guppy".toList, some "a".toList, none, ['/'], none, none⟩, ['/'], none, samplePeer⟩
  have hrequest : parseRequest siteOutside "guppy://a/".toList samplePeer = some request := by
    decide
  have hbuilt : buildSession .checked 0 0 "text/plain".toList [104, 105] 512 =
      some briefSession := rfl
  let r := openWindow {} sampleTurn.sendOk 0 briefSession
  have hserve : serveStep .checked siteOutside {} ∅ sampleRequest =
      some ((∅ : Sessions).insert samplePeer r.1,
        { sent := r.2.map fun wire => (samplePeer, wire), handled := some request }) := by
    simp only [serveStep, sampleRequest, hfits, if_false, hline, onRequest,
      Std.HashMap.contains_empty, Std.HashMap.size_empty, hrequest, sampleTurn, hbuilt]
    rfl
  let a : Answer := ⟨request, .success "text/plain".toList [104, 105],
    ((∅ : Sessions).insert samplePeer r.1)[samplePeer]?⟩
  let n : World := {
    left := .returned (.ok (.success "text/plain".toList [104, 105]))
    right := ⟨some ((∅ : Sessions).insert samplePeer r.1), [a]⟩
    toLeft := [encodeFirst 6 "text/plain".toList [104, 105], encodeContinuation 7 []]
    toRight := [Utf8.encode "guppy://a/\r\n".toList, encodeAck 6, encodeAck 7] }
  have hserving : serving .checked siteOutside {} samplePeer ⟨sampleTurn, .recvFailed, nofun⟩
      (some (Utf8.encode "guppy://a/\r\n".toList)) ⟨some ∅, []⟩ = (n.right, n.toLeft) := by
    unfold serving
    change (match serveStep .checked siteOutside {} ∅ sampleRequest with
      | none => _
      | some (t', effects) => _) = _
    rw [hserve]
    rfl
  let start := World.start .checked {} "guppy://a/\r\n".toList ∅
  have hfirst : start.step (client .checked {} "guppy://a/\r\n".toList)
      (serving .checked siteOutside {} samplePeer)
      (.right ⟨sampleTurn, .recvFailed, nofun⟩ (some 0)) =
        { start with right := n.right, toLeft := n.toLeft } :=
    congrArg (fun r : Serving × List Bytes => { start with right := r.1, toLeft := [] ++ r.2 })
      hserving
  have hrun : start.run (client .checked {} "guppy://a/\r\n".toList)
      (serving .checked siteOutside {} samplePeer) briefMoves = n := by
    unfold briefMoves Net.run
    rw [List.foldl_cons, hfirst]
    rfl
  have hcolon : ∀ t parsed, siteOutside.parseUrl t = .ok parsed → ':' ∈ t := by
    intro t parsed h
    change (if _ then _ else _) = _ at h
    split at h
    · next ht =>
      subst ht
      decide
    · cases h
  have hfetch : fetch siteOutside.parseUrl "guppy://a/".toList =
      .ok ⟨"a".toList, 6775, "guppy://a/\r\n".toList⟩ := by
    decide
  have hsend : ∀ b ∈ n.right.answers, b.response.Sendable {} := by
    intro b hb
    obtain rfl := List.mem_singleton.mp hb
    exact .success validMime_plain (by decide)
  have hone : Text.OneLine "guppy://a/".toList := Text.oneLine_iff.mpr (by decide)
  have htrim : Text.trim "guppy://a/".toList = "guppy://a/".toList := by decide
  exact ⟨n, hrun, fetch_served hcolon hone htrim hfetch Std.HashMap.getElem?_empty hrun rfl hsend
    (List.length_filter_le _ _)⟩

end Smolweb.Guppy
