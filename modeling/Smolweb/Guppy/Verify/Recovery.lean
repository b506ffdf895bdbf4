import Smolweb.Guppy.Verify.Transfer

/-!
# A transfer can always be completed

Whatever has become of the datagrams so far, and though all that are in flight be lost, a transfer
that goes on can still be completed, by retransmissions and timeouts alone: unless not one packet
has ever left the server (`conversation_recovers_iff`). A round takes the client's contiguous end
further (`Kept.round`): what comes next is in flight and is sent again, or was never sent, and then
the client's timeout acknowledges the last number sent, which makes room for it.
-/

namespace Smolweb.Guppy

/-! ## Completing a transfer -/

/-- A server that opens its window only when something is acknowledged: all that `serve` does for
a session once it is opened. -/
def listening (config : ServerConfig) : Party ServerChoice Session Bytes Bytes :=
  fun choice => server config { choice with resend := true }

theorem serves_server (config : ServerConfig) : Serves config (server config) :=
  fun choice => ⟨choice, rfl⟩

theorem serves_listening (config : ServerConfig) : Serves config (listening config) :=
  fun choice => ⟨{ choice with resend := true }, rfl⟩

/-- Every send succeeds. -/
def ready : ServerChoice where
  sendOk := fun _ => true
  now := 0
  resend := true

/-- Nothing fails. -/
def quiet : ClientChoice where
  sendError := fun _ => none
  recvError := none

theorem quiet_event (incoming : Option Bytes) : (quiet.event incoming).Quiet := by
  refine ⟨fun error => ?_, fun _ => rfl⟩
  cases incoming <;> simp [ClientChoice.event, quiet]

/-- The bytes of the packets after number `seq`. -/
def Setting.remaining (S : Setting) (seq : Nat) : Nat :=
  (S.tail.drop (seq - S.first)).flatten.length

/-- What is buffered and what comes after the contiguous end are within the limit. -/
def Setting.Affords (S : Setting) (r : Reassembly) : Prop :=
  r.buffered + S.remaining r.contiguousEnd ≤ S.options.maxBody

/-- The response has been received whole. -/
def Setting.Completed (S : Setting) (n : Conversation) : Prop :=
  n.left = .returned (.ok (.success S.mime (S.head ++ S.tail.flatten)))

section

variable {S : Setting} {heard : List Packet} {n : Conversation} {r : Reassembly} {st : Started}

/-- A transaction that has not failed goes on or has succeeded. -/
theorem Stands.goes_on {options : FetchOptions} {phase : Phase} (h : Stands options heard phase)
    (hst : started heard = some st) (hfills : ¬ st.Fills) (harrived : st.arrived ≤ options.maxBody)
    (hio : ∀ message, phase ≠ .returned (.error (.io message))) :
    (∃ mime body, phase = .returned (.ok (.success mime body))) ∨
      ∃ r, phase = .running (some r) ∧ Exact r st ∧ ¬ st.Whole := by
  unfold Stands at h
  split at h
  · rw [hst] at h
    cases h.1
  · next r =>
    obtain ⟨st', hst', hexact, hpending⟩ := h
    cases hst.symm.trans hst'
    exact .inr ⟨r, rfl, hexact, (hpending.2 st hst).2.1⟩
  · next mime body => exact .inl ⟨mime, body, rfl⟩
  · rw [hst] at h
    cases h.1
  · obtain ⟨st', hst', -, -, hlarge⟩ := h
    cases hst.symm.trans hst'
    omega
  · next message => exact absurd rfl (hio message)
  · obtain ⟨st', hst', hfills'⟩ := h
    cases hst.symm.trans hst'
    exact absurd hfills' hfills

/-- With enough room for what has arrived, the transfer is completed or goes on. -/
theorem Kept.goes_on (h : Kept S heard n) (hst : started heard = some st)
    (harrived : st.arrived ≤ S.options.maxBody)
    (hio : ∀ message, n.left ≠ .returned (.error (.io message))) :
    S.Completed n ∨ ∃ r, n.left = .running (some r) ∧ Exact r st ∧ ¬ st.Whole := by
  obtain ⟨hseq, -, -, hafter⟩ := honest_started h.honest hst
  rcases h.stands.goes_on hst (not_fills_honest hseq hafter S.hi) harrived hio with
    ⟨mime, body, hsuccess⟩ | hrunning
  · left
    have hhears : HearsHonestly S.o S.first S.mime S.head S.tail n.left :=
      ⟨heard, h.honest, h.follows⟩
    rw [hsuccess] at hhears
    obtain ⟨rfl, rfl⟩ := hearsHonestly_success ⟨rfl, S.ne_nil⟩ hhears
    exact hsuccess
  · exact .inr hrunning

/-- A datagram that was sent can be taken. -/
theorem Kept.takes (h : Kept S heard n) {state : Option Reassembly}
    (hleft : n.left = .running state) (q : Party ServerChoice Session Bytes Bytes) {d : Bytes}
    (hd : d ∈ n.toLeft) {p : Packet} (hp : parsePacket d = .ok p) :
    ∃ n', Net.Leads (client S.o S.options S.request) q n n' ∧ Kept S (heard ++ [p]) n' ∧
      ∀ message, n'.left ≠ .returned (.error (.io message)) := by
  obtain ⟨j, hj⟩ := List.mem_iff_getElem?.mp hd
  have hpacket : (quiet.event ((some j).bind (n.toLeft[·]?))).packet = some p := by
    simp [hj, ClientChoice.event, Event.packet, hp, Except.toOption]
  have hkept := h.left hleft q quiet (some j)
  rw [hpacket, Option.toList_some] at hkept
  refine ⟨_, .step n (.left quiet (some j)), hkept, fun message => ?_⟩
  exact step_quiet (quiet_event _) (by rw [hleft]; simp)

/-- The contiguous end is the number of a packet with data. -/
theorem Kept.end_le (h : Kept S heard n) (hst : started heard = some st) (hexact : Exact r st) :
    S.first ≤ r.contiguousEnd ∧ r.contiguousEnd ≤ S.first + S.tail.length := by
  obtain ⟨hseq, -, -, hafter⟩ := honest_started h.honest hst
  have hle := hexact.tracks.le_end
  refine ⟨hseq ▸ hle, ?_⟩
  by_cases hfirst : r.contiguousEnd = st.seq
  · omega
  · have hmem := hexact.tracks.contiguous _ hle (Nat.le_refl _)
    rw [Std.TreeMap.mem_iff_isSome_getElem?, hexact.tracks.chunks, Option.isSome_iff_exists] at hmem
    obtain ⟨d, hd⟩ := hmem
    obtain ⟨hin, hne⟩ := Started.mem_after_of_firstReceived hd hfirst
    obtain ⟨i, hi, hget⟩ := honest_data (hafter _ hin) hne
    have hlt := (List.getElem?_eq_some_iff.mp hget).1
    omega

/-- What comes next after the contiguous end was not heard. -/
theorem Kept.next_not_heard (h : Kept S heard n) (hst : started heard = some st)
    (hexact : Exact r st) (hwhole : ¬ st.Whole) : ¬ Heard heard (r.contiguousEnd + 1) := by
  obtain ⟨hseq, -, -, hafter⟩ := honest_started h.honest hst
  have hle := hexact.tracks.le_end
  rintro ⟨st', hst', hcases⟩
  cases hst.symm.trans hst'
  rcases hcases with heq | ⟨d, hd⟩
  · omega
  · by_cases hnil : d = []
    · subst hnil
      have hlast := honest_eof S.ne_nil (hafter _ hd)
      have hmem : r.contiguousEnd + 1 ∈ st.after.filterMap (Started.endsAt st.seq) :=
        List.mem_filterMap.mpr ⟨_, hd, if_pos (by omega)⟩
      apply hwhole
      rw [hexact.whole_iff_eofSeq, hexact.tracks.eof]
      cases heof : st.eof with
      | none =>
        rw [Started.eof, List.getLast?_eq_none_iff] at heof
        rw [heof] at hmem
        cases hmem
      | some seq => rw [(eof_honest S.ne_nil hafter heof).1, hlast]
    · have hreceived := Started.firstReceived_isSome hd (by omega) hnil
      rw [← hexact.tracks.chunks, ← Std.TreeMap.mem_iff_isSome_getElem?] at hreceived
      exact hexact.gap hreceived

/-- The packet after number `first + k`. -/
theorem Setting.next_packet (S : Setting) {k : Nat} (hk : k ≤ S.tail.length) :
    ∃ c, (S.tail ++ [[]])[k]? = some c ∧
      S.packets[k + 1]? = some (S.first + k + 1, encodeContinuation (S.first + k + 1) c) ∧
      c.length + S.remaining (S.first + k + 1) = S.remaining (S.first + k) := by
  have hlt : k < (S.tail ++ [[]]).length := by
    rw [List.length_append, List.length_singleton]
    omega
  refine ⟨_, List.getElem?_eq_getElem hlt, ?_, ?_⟩
  · rw [packets, getElem?_transmission, List.getElem?_cons_succ, List.getElem?_eq_getElem hlt,
      Option.map_some, packetOf, if_neg (by omega)]
    rfl
  · have hsub : S.first + k + 1 - S.first = k + 1 := by omega
    rw [remaining, remaining, hsub, Nat.add_sub_cancel_left]
    rcases Nat.lt_or_eq_of_le hk with hlt' | rfl
    · rw [List.getElem_append_left hlt', List.drop_eq_getElem_cons hlt', List.flatten_cons,
        List.length_append]
    · rw [List.drop_eq_nil_of_le (Nat.le_succ _), List.drop_length]
      simp

theorem length_encodeAck {seq : Nat} (h : seq ≤ maxU32) :
    (encodeAck seq).length ≤ maxRequestBytes := by
  have hdigits : (Text.decimal seq).length ≤ 10 :=
    (Nat.length_toDigits_le_iff (by decide) (by decide)).mpr (Nat.lt_of_le_of_lt h (by decide))
  have hle := Utf8.length_encode_le (Text.decimal seq ++ ['\r', '\n'])
  rw [List.length_append] at hle
  simp only [List.length_cons, List.length_nil] at hle
  exact Nat.le_trans hle (Nat.le_trans (by omega) (show 48 ≤ maxRequestBytes by decide))

/-- A retransmission sends again what was sent and was not heard. -/
theorem Kept.retransmits (h : Kept S heard n) {i seq : Nat} {d : Bytes}
    (hi : i < n.right.nextUnsent) (hget : S.packets[i]? = some (seq, d))
    (hnot : ¬ Heard heard seq) :
    d ∈ (n.step (client S.o S.options S.request) (listening S.config)
      (.right ready none)).toLeft := by
  rw [← h.session.packets] at hget
  have hunacked : seq ∈ n.right.unacked :=
    (h.session.window.settled i seq d hi hget).resolve_right hnot
  have hsorted : n.right.packets.Pairwise fun a b => a.1 < b.1 := h.session.packets ▸ S.sorted
  refine List.mem_append_right _ (List.mem_filterMap.mpr ⟨seq, ?_, packetNumbered_eq hsorted hget⟩)
  exact List.mem_filter.mpr ⟨Std.TreeSet.mem_toList.mpr hunacked, rfl⟩

/-- The head of the loop has nothing to do while packets are awaited. -/
theorem loopHead_pending (hexact : Exact r st) (hpending : Pending S.options heard)
    (hst : started heard = some st) :
    loopHead S.o S.options (some r) = .running (some r) := by
  obtain ⟨hfills, hwhole, harrived⟩ := hpending.2 st hst
  rw [hexact.fills_iff] at hfills
  rw [hexact.whole_iff_eofSeq] at hwhole
  have hlt : r.contiguousEnd + 1 ≤ maxU32 := by
    have hle := hexact.tracks.end_le
    omega
  have hbuffered : ¬ S.options.maxBody < r.buffered := by
    rw [hexact.buffered]
    omega
  simp only [loopHead, Reassembly.complete, Overflow.add_of_le S.o hlt, Option.bind_eq_bind,
    Option.bind_some, beq_eq_false_iff_ne.mpr hwhole, if_neg hbuffered]

/-- When what comes next was never sent, the client's next timeout has it sent: it acknowledges
the contiguous end, which is the last number sent. -/
theorem Kept.timeout_sends (h : Kept S heard n) (hleft : n.left = .running (some r))
    (hst : started heard = some st) (hexact : Exact r st) {k : Nat}
    (hk : r.contiguousEnd = S.first + k) (hnext : n.right.nextUnsent = k + 1) {seq : Nat}
    {d : Bytes} (hget : S.packets[k + 1]? = some (seq, d)) :
    ∃ n', Net.Leads (client S.o S.options S.request) (listening S.config) n n' ∧
      Kept S heard n' ∧ n'.left = n.left ∧ d ∈ n'.toLeft := by
  have hpending : Pending S.options heard := by
    have hstands := h.stands
    rw [hleft] at hstands
    exact hstands.pending
  -- the client's timeout
  have hkept := h.left hleft (listening S.config) quiet none
  have hstep : n.step (client S.o S.options S.request) (listening S.config) (.left quiet none) =
      { n with toRight := n.toRight ++ encodeAck r.contiguousEnd ::
          (r.eofSeq.map encodeAck).toList } := by
    have hturn : step S.o S.options S.request (quiet.event none) (.running (some r)) =
        (.running (some r), encodeAck r.contiguousEnd :: (r.eofSeq.map encodeAck).toList) := by
      have hsends : turn S.o S.request (some r) (quiet.event none) =
          (.running (some r), encodeAck r.contiguousEnd :: (r.eofSeq.map encodeAck).toList) :=
        sendAll_quiet (fun _ => rfl) 0 _ _
      simp only [step, hsends, loopHead_pending hexact hpending hst]
    simp only [Net.step, client, Option.bind_none, hleft, hturn]
  have hnone : (quiet.event ((none : Option Nat).bind (n.toLeft[·]?))).packet = none := rfl
  rw [hnone, Option.toList_none, List.append_nil, hstep] at hkept
  -- the server takes the acknowledgement, and has room for what comes next
  refine ⟨_, .trans (.step n (.left quiet none)) (.step _ (.right ready (some n.toRight.length))),
    ?_, ?_, ?_⟩
  · rw [hstep]
    exact hkept.right (serves_listening S.config) ready _
  · rw [hstep]
    rfl
  · rw [hstep]
    have harrives : (some n.toRight.length).bind ((n.toRight ++ encodeAck r.contiguousEnd ::
        (r.eofSeq.map encodeAck).toList)[·]?) = some (encodeAck r.contiguousEnd) := by
      rw [Option.bind_some, List.getElem?_append_right (Nat.le_refl _), Nat.sub_self]
      rfl
    have hserver : listening S.config ready (some (encodeAck r.contiguousEnd)) n.right =
        acknowledge S.config (fun _ => true) 0 r.contiguousEnd n.right := by
      have hend := hexact.tracks.end_le
      simp only [listening, server, if_neg (Nat.not_lt.mpr (length_encodeAck hend)),
        parseClientDatagram_encodeAck hend]
      rfl
    simp only [Net.step, harrives, hserver]
    refine List.mem_append_right _ ?_
    have hlt : n.right.nextUnsent ≠ n.right.packets.length := by
      have hindex := (List.getElem?_eq_some_iff.mp hget).1
      rw [h.session.packets]
      omega
    simp only [acknowledge, hlt, false_and, if_false]
    have hunsent : n.right.packets[n.right.nextUnsent]? = some (seq, d) := by
      rw [h.session.packets, hnext, hget]
    refine openWindow_sends_next ?_ hunsent rfl
    rcases h.session.room.erase h.session.window r.contiguousEnd with hroom | hlast
    · exact hroom
    · -- the last number sent is the one that is acknowledged
      obtain ⟨i, last, wire, hi, hlast, hmem⟩ := hlast
      rw [show i = k by have hi' : n.right.nextUnsent = i + 1 := hi; omega] at hlast
      have hlast' : S.packets[k]? = some (last, wire) := h.session.packets ▸ hlast
      exact absurd (S.getElem?_packets hlast').1 (hk ▸ (mem_erase.mp hmem).1)

theorem Setting.remaining_le (S : Setting) {seq seq' : Nat} (h : seq ≤ seq') :
    S.remaining seq' ≤ S.remaining seq := by
  have hsplit : seq' - S.first = seq - S.first + (seq' - S.first - (seq - S.first)) := by omega
  rw [remaining, remaining, hsplit, ← List.drop_drop]
  exact (List.drop_sublist _ _).flatten.length_le

/-- What comes next after the contiguous end is sent once more, or for the first time. -/
theorem Kept.next_sent (h : Kept S heard n) (hleft : n.left = .running (some r))
    (hst : started heard = some st) (hexact : Exact r st) (hwhole : ¬ st.Whole) :
    ∃ n', Net.Leads (client S.o S.options S.request) (listening S.config) n n' ∧
      Kept S heard n' ∧ n'.left = n.left ∧ ∃ c, ∃ d ∈ n'.toLeft,
        parsePacket d = .ok (.continuation (r.contiguousEnd + 1) c) ∧
        c.length + S.remaining (r.contiguousEnd + 1) = S.remaining r.contiguousEnd := by
  obtain ⟨hlo, hle⟩ := h.end_le hst hexact
  obtain ⟨k, hk⟩ := Nat.exists_eq_add_of_le hlo
  have hnot := h.next_not_heard hst hexact hwhole
  have hend : Heard heard r.contiguousEnd :=
    heard_of_chunk hexact.tracks hst
      (hexact.tracks.contiguous _ hexact.tracks.le_end (Nat.le_refl _))
  obtain ⟨c, -, hget, hremaining⟩ := S.next_packet (k := k) (by omega)
  rw [← hk] at hget hremaining
  have hparse : parsePacket (encodeContinuation (r.contiguousEnd + 1) c) =
      .ok (.continuation (r.contiguousEnd + 1) c) := by
    have hhi := S.hi
    exact parsePacket_encodeContinuation (by omega) c
  obtain ⟨i, hi, heq⟩ := h.sent _ hend
  rcases Nat.lt_or_ge (k + 1) n.right.nextUnsent with hsent | hunsent
  · have hmem := h.retransmits hsent hget hnot
    exact ⟨_, .step n (.right ready none), h.right (serves_listening S.config) ready none, rfl,
      c, _, hmem, hparse, hremaining⟩
  · obtain ⟨n', hleads, hkept, hsame, hmem⟩ := h.timeout_sends hleft hst hexact hk (by omega) hget
    exact ⟨n', hleads, hkept, hsame, c, _, hmem, hparse, hremaining⟩

/-- **One round** takes the contiguous end further, unless it completes the transfer. -/
theorem Kept.round (h : Kept S heard n) (hleft : n.left = .running (some r))
    (hafford : S.Affords r) :
    ∃ n' heard', Net.Leads (client S.o S.options S.request) (listening S.config) n n' ∧
      Kept S heard' n' ∧ (S.Completed n' ∨ ∃ r', n'.left = .running (some r') ∧ S.Affords r' ∧
        r.contiguousEnd < r'.contiguousEnd) := by
  have hstands := h.stands
  rw [hleft] at hstands
  obtain ⟨st, hst, hexact, hpending⟩ := hstands
  obtain ⟨-, hwhole, -⟩ := hpending.2 st hst
  obtain ⟨n₁, hleads₁, hkept₁, hsame, c, d, hmem, hparse, hremaining⟩ :=
    h.next_sent hleft hst hexact hwhole
  obtain ⟨n₂, hleads₂, hkept₂, hio⟩ :=
    hkept₁.takes (hsame.trans hleft) (listening S.config) hmem hparse
  refine ⟨n₂, _, hleads₁.trans hleads₂, hkept₂, ?_⟩
  have hst₂ := started_append_of_some hst (.continuation (r.contiguousEnd + 1) c)
  have hlt := Nat.lt_succ_of_le hexact.tracks.le_end
  have harrived : (st.snoc (.continuation (r.contiguousEnd + 1) c)).arrived =
      r.buffered + c.length := by
    rw [Started.arrived_snoc, Started.dataLength, if_pos hlt, hexact.buffered]
  unfold Setting.Affords at hafford
  rcases hkept₂.goes_on hst₂ (by omega) hio with hdone | ⟨r', hleft', hexact', hwhole'⟩
  · exact .inl hdone
  · have hfurther : r.contiguousEnd < r'.contiguousEnd := by
      by_contra hnot
      apply hkept₂.next_not_heard hst₂ hexact' hwhole'
      rcases Nat.lt_or_ge r'.contiguousEnd r.contiguousEnd with hbefore | hsame
      · have hlow := hexact'.tracks.le_end
        exact (heard_of_chunk hexact.tracks hst
          (hexact.tracks.contiguous _ (Nat.le_succ_of_le hlow) hbefore)).append _
      · rw [show r'.contiguousEnd = r.contiguousEnd by omega]
        exact heard_continuation hst _ c
    refine .inr ⟨r', hleft', ?_, hfurther⟩
    have hless := S.remaining_le (Nat.succ_le_of_lt hfurther)
    rw [Setting.Affords, hexact'.buffered, harrived]
    have hnext : S.remaining r.contiguousEnd.succ = S.remaining (r.contiguousEnd + 1) := rfl
    omega

/-- **A response that has started** can be completed, round by round. -/
theorem Kept.completes (h : Kept S heard n) (hleft : n.left = .running (some r))
    (hafford : S.Affords r) :
    ∃ n', Net.Leads (client S.o S.options S.request) (listening S.config) n n' ∧
      S.Completed n' := by
  obtain ⟨rounds, hrounds⟩ : ∃ rounds, S.first + S.tail.length + 1 - r.contiguousEnd = rounds :=
    ⟨_, rfl⟩
  induction rounds using Nat.strong_induction_on generalizing n heard r with
  | _ rounds ih =>
    obtain ⟨n', heard', hleads, hkept, hcases⟩ := h.round hleft hafford
    rcases hcases with hdone | ⟨r', hleft', hafford', hfurther⟩
    · exact ⟨n', hleads, hdone⟩
    · have hstands := h.stands
      rw [hleft] at hstands
      obtain ⟨st, hst, hexact, -⟩ := hstands
      obtain ⟨-, hle⟩ := h.end_le hst hexact
      obtain ⟨n'', hleads', hdone⟩ := ih _ (by omega) hkept hleft' hafford' rfl
      exact ⟨n'', hleads.trans hleads', hdone⟩

/-- A response that has not started, of which some packet was sent, can be completed. -/
theorem Kept.begins (h : Kept S heard n) (hleft : n.left = .running none)
    (hsent : n.right.nextUnsent ≠ 0)
    (hlimit : (S.head ++ S.tail.flatten).length ≤ S.options.maxBody) :
    ∃ n', Net.Leads (client S.o S.options S.request) (listening S.config) n n' ∧
      S.Completed n' := by
  have hstands := h.stands
  rw [hleft] at hstands
  obtain ⟨hnone, -⟩ := hstands
  have hnot : ¬ Heard heard S.first := by
    rintro ⟨st, hst, -⟩
    rw [hnone] at hst
    cases hst
  have hparse : parsePacket (encodeFirst S.first S.mime S.head) =
      .ok (.first S.first S.mime S.head) := by
    have hhi := S.hi
    exact parsePacket_encodeFirst (Nat.le_trans (by decide) S.lo) (by omega) S.valid _
  have hmem := h.retransmits (Nat.pos_of_ne_zero hsent) rfl hnot
  have hkept₁ := h.right (serves_listening S.config) ready none
  obtain ⟨n₂, hleads, hkept, hio⟩ := hkept₁.takes hleft (listening S.config) hmem hparse
  have hst := started_append_of_none hnone (.first S.first S.mime S.head)
  have harrived : Started.arrived ⟨S.first, S.mime, S.head, []⟩ = S.head.length := by
    simp [Started.arrived]
  rw [List.length_append] at hlimit
  have hleads' := (Net.Leads.step n (.right ready none)).trans hleads
  rcases hkept.goes_on hst (by omega) hio with hdone | ⟨r, hleft', hexact, -⟩
  · exact ⟨n₂, hleads', hdone⟩
  · have hafford : S.Affords r := by
      have hless := S.remaining_le hexact.tracks.le_end
      have hall : S.remaining S.first = S.tail.flatten.length := by
        rw [Setting.remaining, Nat.sub_self, List.drop_zero]
      rw [Setting.Affords, hexact.buffered, harrived]
      have hless' : S.remaining r.contiguousEnd ≤ S.remaining S.first := hless
      omega
    obtain ⟨n', hrest, hdone⟩ := hkept.completes hleft' hafford
    exact ⟨n', hleads'.trans hrest, hdone⟩

end

/-! ## When nothing was ever sent -/

/-- A transaction that hears nothing goes on, or ends with an error. -/
def Unanswered (phase : Phase) : Prop := phase = .running none ∨ ∃ e, phase = .returned (.error e)

theorem client_unanswered (o : Overflow) (options : FetchOptions) (request : Text) :
    (client o options request).Keeps Unanswered (fun _ => False)
      (fun d => d = Utf8.encode request) := by
  rintro choice incoming phase hphase hin
  cases incoming with
  | some d => exact absurd (hin d rfl) not_false
  | none =>
    rcases hphase with rfl | ⟨e, rfl⟩
    · cases hr : choice.recvError with
      | some error =>
        simp [client, step, turn, ClientChoice.event, hr, Unanswered]
      | none =>
        have hturn : turn o request none (choice.event none) =
            sendAll choice.sendError 0 [Utf8.encode request] (.running none) := by
          simp only [turn, ClientChoice.event, hr]
        cases hsend : choice.sendError 0 with
        | none => simp [client, step, hturn, sendAll, hsend, loopHead, Unanswered]
        | some error => simp [client, step, hturn, sendAll, hsend, Unanswered]
    · exact ⟨.inr ⟨e, rfl⟩, by simp [client, step]⟩

theorem listening_unanswered (config : ServerConfig) {request : Text}
    (hrequest : ∀ seq, parseClientDatagram (Utf8.encode request) ≠ .ok (.ack seq)) :
    (listening config).Keeps (fun s => ∀ seq, seq ∉ s.unacked) (fun d => d = Utf8.encode request)
      (fun _ => False) := by
  rintro choice incoming s hs hin
  unfold listening server
  cases incoming with
  | none =>
    refine ⟨hs, fun d hd => ?_⟩
    obtain ⟨seq, hseq, -⟩ := List.mem_filterMap.mp hd
    exact hs seq (Std.TreeSet.mem_toList.mp (List.mem_filter.mp hseq).1)
  | some d =>
    obtain rfl := hin d rfl
    simp only
    split
    · exact ⟨hs, by simp⟩
    · exact ⟨hs, by simp⟩

/-! ## What a limit leaves room for -/

/-- The bytes up to the contiguous end. -/
def Reassembly.inOrder (r : Reassembly) : Nat :=
  ((r.chunks.toList.filter fun chunk => decide (chunk.1 ≤ r.contiguousEnd)).map
    fun chunk => chunk.2.length).sum

/-- What is buffered, and what of the body comes after the contiguous end, are within the limit. -/
def Affords (options : FetchOptions) (body : Bytes) : Option Reassembly → Prop
  | none => body.length ≤ options.maxBody
  | some r => r.buffered + (body.length - r.inOrder) ≤ options.maxBody

section

variable {S : Setting} {heard : List Packet} {n : Conversation} {r : Reassembly} {st : Started}

/-- The chunks up to the contiguous end are the first of the transmission. -/
theorem Kept.inOrder_eq (h : Kept S heard n) (hst : started heard = some st)
    (hexact : Exact r st) :
    r.inOrder + S.remaining r.contiguousEnd = (S.head ++ S.tail.flatten).length := by
  obtain ⟨hseq, -, hdata, hafter⟩ := honest_started h.honest hst
  obtain ⟨hlo, hle⟩ := h.end_le hst hexact
  obtain ⟨k, hk⟩ := Nat.exists_eq_add_of_le hlo
  have hpresent : ∀ s, st.seq ≤ s → s ≤ r.contiguousEnd → (st.firstReceived s).isSome := by
    intro s h1 h2
    rw [← hexact.tracks.chunks, ← Std.TreeMap.mem_iff_isSome_getElem?]
    exact hexact.tracks.contiguous s h1 h2
  have hchunk : ∀ i < k, st.firstReceived (S.first + 1 + i) = S.tail[i]? := by
    intro i hi
    obtain ⟨d, hd⟩ := Option.isSome_iff_exists.mp (hpresent (S.first + 1 + i) (by omega) (by omega))
    obtain ⟨hin, hne⟩ := Started.mem_after_of_firstReceived hd (by omega)
    obtain ⟨j, hj, hget⟩ := honest_data (hafter _ hin) hne
    rw [hd, show i = j by omega, hget]
  have hrun : (List.range' S.first (k + 1)).map (fun s => (s, (st.firstReceived s).getD [])) =
      (S.first, S.head) :: (List.range k).map fun i =>
        (S.first + 1 + i, (S.tail[i]?).getD []) := by
    rw [List.range'_succ, List.map_cons, List.range'_eq_map_range, List.map_map]
    congr 1
    · rw [Started.firstReceived, if_pos hseq.symm, hdata, Option.getD_some]
    · refine List.map_congr_left fun i hi => ?_
      simp only [Function.comp_apply, hchunk i (List.mem_range.mp hi)]
  have hlist : r.chunks.toList = (S.first, S.head) :: (List.range k).map (fun i =>
      (S.first + 1 + i, (S.tail[i]?).getD [])) ++ entriesFrom r.chunks (r.contiguousEnd + 1) := by
    have hcontiguous : r.chunks.toList =
        (List.range' S.first (r.contiguousEnd + 1 - S.first)).map
          (fun s => (s, (st.firstReceived s).getD [])) ++
            entriesFrom r.chunks (r.contiguousEnd + 1) := by
      refine toList_eq_run_append (fun s v hv => ?_) (fun s h1 h2 => ?_)
      · rw [hexact.tracks.chunks] at hv
        exact hseq ▸ Started.le_of_firstReceived hv
      · obtain ⟨d, hd⟩ :=
          Option.isSome_iff_exists.mp (hpresent s (hseq ▸ h1) (Nat.le_of_lt_succ h2))
        rw [hexact.tracks.chunks, hd]
        rfl
    rwa [show r.contiguousEnd + 1 - S.first = k + 1 by omega, hrun] at hcontiguous
  have htake : (List.range k).map (fun i => (S.tail[i]?).getD []) = S.tail.take k := by
    refine List.ext_getElem (by simp; omega) fun i h1 h2 => ?_
    have hi : i < S.tail.length := by
      simp only [List.length_map, List.length_range] at h1
      omega
    simp [List.getElem?_eq_getElem hi]
  have hfilter : r.chunks.toList.filter (fun chunk => decide (chunk.1 ≤ r.contiguousEnd)) =
      (S.first, S.head) :: (List.range k).map fun i =>
        (S.first + 1 + i, (S.tail[i]?).getD []) := by
    rw [hlist, List.filter_append, List.filter_eq_self.mpr, List.filter_eq_nil_iff.mpr,
      List.append_nil]
    · intro chunk hchunk
      have hlate := of_decide_eq_true (List.mem_filter.mp hchunk).2
      simp only [decide_eq_true_eq]
      omega
    · intro chunk hchunk
      rcases List.mem_cons.mp hchunk with rfl | hchunk
      · exact decide_eq_true hlo
      · obtain ⟨i, hi, rfl⟩ := List.mem_map.mp hchunk
        have hik := List.mem_range.mp hi
        exact decide_eq_true (by omega)
  have hlengths : r.inOrder = S.head.length + (S.tail.take k).flatten.length := by
    rw [Reassembly.inOrder, hfilter, List.map_cons, List.sum_cons, List.map_map, ← htake,
      List.length_flatten, List.map_map]
    rfl
  have hremaining : S.remaining r.contiguousEnd = (S.tail.drop k).flatten.length := by
    rw [Setting.remaining, hk, Nat.add_sub_cancel_left]
  rw [hlengths, hremaining, List.length_append, Nat.add_assoc, ← List.length_append,
    ← List.flatten_append, List.take_append_drop]

theorem Kept.recovers_iff (h : Kept S heard n) {state : Option Reassembly}
    (hleft : n.left = .running state)
    (hafford : Affords S.options (S.head ++ S.tail.flatten) state) :
    (∃ more, S.Completed (n.lost.run (client S.o S.options S.request) (listening S.config) more)) ↔
      state ≠ none ∨ n.right.nextUnsent ≠ 0 := by
  constructor
  · rintro ⟨more, hdone⟩
    by_contra hnot
    obtain ⟨hnone, hunsent⟩ := not_or.mp hnot
    rw [not_ne_iff] at hnone hunsent
    have hstart : n.lost.Sat Unanswered (fun s => ∀ seq, seq ∉ s.unacked) (fun _ => False)
        (fun d => d = Utf8.encode S.request) := {
      left := .inl (hnone ▸ hleft)
      right := by
        intro seq hseq
        obtain ⟨i, -, hi, -⟩ := h.session.window.inFlight seq hseq
        omega
      toLeft := by simp [Net.lost]
      toRight := by simp [Net.lost] }
    have hend := (Net.sat_run (client_unanswered S.o S.options S.request)
      (listening_unanswered S.config S.notAck) hstart more).left
    rw [hdone] at hend
    rcases hend with hend | ⟨e, hend⟩
    · cases hend
    · cases hend
  · intro hcases
    have hleads : ∃ n', Net.Leads (client S.o S.options S.request) (listening S.config) n.lost n' ∧
        S.Completed n' := by
      cases state with
      | none => exact h.lost.begins hleft (hcases.resolve_left (not_not_intro rfl)) hafford
      | some r =>
        refine h.lost.completes hleft ?_
        have hstands := h.stands
        rw [hleft] at hstands
        obtain ⟨st, hst, hexact, -⟩ := hstands
        have hall := h.inOrder_eq hst hexact
        have hroom : r.buffered + ((S.head ++ S.tail.flatten).length - r.inOrder) ≤
          S.options.maxBody := hafford
        show r.buffered + S.remaining r.contiguousEnd ≤ S.options.maxBody
        omega
    obtain ⟨n', ⟨more, rfl⟩, hdone⟩ := hleads
    exact ⟨more, hdone⟩

/-- Before anything has happened a transfer is kept. -/
theorem kept_start {s : Session} (hs : s.packets = S.packets) (hunsent : s.nextUnsent = 0)
    (hunacked : s.unacked = ∅) :
    Kept S [] (Conversation.start S.o S.options S.request s) where
  honest := by simp
  stands := ⟨rfl, rfl⟩
  follows := rfl
  session := {
    packets := hs
    window := ⟨by simp [Conversation.start, hunsent], by simp [Conversation.start, hunacked],
      by simp [Conversation.start, hunacked], by simp [Conversation.start, hunsent]⟩
    room := by
      left
      have hwindow := S.window
      simpa [Conversation.start, hunacked] using hwindow }
  sent := by
    rintro seq ⟨st, hst, -⟩
    cases hst
  toLeft := by simp [Conversation.start]
  toRight := by
    intro d hd seq hack
    obtain rfl := List.mem_singleton.mp hd
    exact absurd hack (S.notAck seq)

end

/-- **A transfer can be completed** whatever has become of it and whatever is lost, as long as the
client goes on and its limit leaves room, unless no packet has ever left the server: the server only
retransmits and answers acknowledgements. -/
theorem conversation_recovers_iff {o o' : Overflow} {options : FetchOptions} {request : Text}
    {config : ServerConfig} {hash now : Nat} {mime : Text} {body : Bytes} {s : Session}
    (hm : ValidMime mime) (ht : packetCount body config.chunkSize < maxSeq - minSeq)
    (hs : buildSession o' hash now mime body config.chunkSize = some s)
    (hwindow : 0 < config.window)
    (hrequest : ∀ seq, parseClientDatagram (Utf8.encode request) ≠ .ok (.ack seq))
    {moves : List (Move ClientChoice ServerChoice)} {n : Conversation}
    (hn : (Conversation.start o options request s).run (client o options request) (server config)
      moves = n)
    {state : Option Reassembly} (hleft : n.left = .running state)
    (hafford : Affords options body state) :
    (∃ more, (n.lost.run (client o options request) (listening config) more).left =
        .returned (.ok (.success mime body))) ↔
      state ≠ none ∨ n.right.nextUnsent ≠ 0 := by
  obtain ⟨first, head, tail, hlo, hhi, hc, hcount, hbuilt⟩ :=
    buildSession_eq o' hash now mime body config.chunkSize ht
  rw [hs, Option.some.injEq] at hbuilt
  have hfit : first + 1 + tail.length ≤ maxU32 := by
    have : maxSeq ≤ maxU32 := by decide
    omega
  let S : Setting := ⟨o, options, request, config, first, mime, head, tail, hrequest, hwindow, hm,
    hlo, hfit, hc.ne_nil⟩
  have hstart : Kept S [] (Conversation.start o options request s) := by
    subst hbuilt
    exact kept_start rfl rfl rfl
  obtain ⟨heard, hkept⟩ := kept_run hstart (serves_server config) moves
  have hkept' : Kept S heard n := hn ▸ hkept
  have hiff : (∃ more, (n.lost.run (client o options request) (listening config) more).left =
      .returned (.ok (.success mime (head ++ tail.flatten)))) ↔
        state ≠ none ∨ n.right.nextUnsent ≠ 0 :=
    hkept'.recovers_iff hleft (hc.flatten.symm ▸ hafford)
  rwa [hc.flatten] at hiff

/-- The whole window was sent, and all of it lost. -/
theorem conversation_recovers_iff_window :
    (∃ more, (((Conversation.start .checked {} "guppy://a/\r\n".toList shortSession).run
        (client .checked {} "guppy://a/\r\n".toList) (server { chunkSize := 1 })
        [.right ⟨fun _ => true, 0, false⟩ none]).lost.run
          (client .checked {} "guppy://a/\r\n".toList) (listening { chunkSize := 1 }) more).left =
        .returned (.ok (.success "text/plain".toList [65, 66]))) ↔
      (none : Option Reassembly) ≠ none ∨
        ((Conversation.start .checked {} "guppy://a/\r\n".toList shortSession).run
          (client .checked {} "guppy://a/\r\n".toList) (server { chunkSize := 1 })
          [.right ⟨fun _ => true, 0, false⟩ none]).right.nextUnsent ≠ 0 := by
  have hparsed : parseClientDatagram (Utf8.encode "guppy://a/\r\n".toList) =
      .ok (.request "guppy://a/".toList) := by
    decide
  refine conversation_recovers_iff validMime_plain (by decide) buildSession_short (by decide)
    (fun seq hack => ?_) rfl rfl (show 2 ≤ 16 * 1024 * 1024 by decide)
  rw [hparsed] at hack
  cases hack

end Smolweb.Guppy
