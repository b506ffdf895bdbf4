import Smolweb.Guppy.Serve

/-!
# The table of sessions

`Change` says what a turn of the server loop can do to the table: drop and refresh sessions on a
tick, take an acknowledgement into the session of its sender, or open one for a peer that has
none. Everything about the table follows from it, in one turn and in whole runs.
-/

namespace Smolweb.Guppy

/-- Every packet was sent and acknowledged. -/
def Session.Complete (s : Session) : Prop :=
  s.nextUnsent = s.packets.length ∧ s.unacked.isEmpty = true

/-- The same response in transmission, further on. -/
structure Session.SameSession (s s' : Session) : Prop where
  packets : s'.packets = s.packets
  created : s'.created = s.created

/-- A session marked as done is complete. -/
def Session.Sound (s : Session) : Prop := ∀ done, s.doneAt = some done → s.Complete

/-- What a turn can do to the table. -/
inductive Change (config : ServerConfig) (t : Sessions) : ServeEvent → Sessions → Prop
  | same {event : ServeEvent} (h : ∀ now at' ok, event ≠ .tick now at' ok) : Change config t event t
  | tick (now : Nat) (resentAt : SocketAddr → Nat) (sendOk : SocketAddr → Nat → Bool) :
    Change config t (.tick now resentAt sendOk) (onTick config now resentAt sendOk t).1
  | ack {datagram : Bytes} {peer : SocketAddr} {turn : Turn} {seq : Nat} {s : Session}
    (hack : parseClientDatagram datagram = .ok (.ack seq)) (hs : t[peer]? = some s) :
    Change config t (.received datagram peer turn)
      (t.insert peer (acknowledge config turn.sendOk turn.now seq s).1)
  | opened {datagram : Bytes} {peer : SocketAddr} {turn : Turn} {line : Text} {s : Session}
    (hrequest : parseClientDatagram datagram = .ok (.request line))
    (hnone : t[peer]? = none) (hroom : t.size < config.maxSessions) (hnew : s.doneAt = none) :
    Change config t (.received datagram peer turn) (t.insert peer s)

section

variable {o : Overflow} {outside : Outside} {config : ServerConfig} {t t' : Sessions}
  {event : ServeEvent} {effects : Effects}

theorem openLoop_fields (window : Nat) (sendOk : Nat → Bool) (fuel : Nat) (s : Session) :
    (openLoop window sendOk fuel s).1.created = s.created ∧
      (openLoop window sendOk fuel s).1.doneAt = s.doneAt :=
  openLoop_induction (P := fun t => t.created = s.created ∧ t.doneAt = s.doneAt)
    (fun _ _ _ h _ _ => h) fuel ⟨rfl, rfl⟩

@[simp] theorem openWindow_created (config : ServerConfig) (sendOk : Nat → Bool) (now : Nat)
    (s : Session) : (openWindow config sendOk now s).1.created = s.created :=
  (openLoop_fields _ _ _ s).1

@[simp] theorem openWindow_doneAt (config : ServerConfig) (sendOk : Nat → Bool) (now : Nat)
    (s : Session) : (openWindow config sendOk now s).1.doneAt = s.doneAt :=
  (openLoop_fields _ _ _ s).2

theorem acknowledge_same (config : ServerConfig) (sendOk : Nat → Bool) (now seq : Nat)
    (s : Session) : s.SameSession (acknowledge config sendOk now seq s).1 := by
  refine ⟨acknowledge_packets .., ?_⟩
  simp only [acknowledge]
  split
  · rfl
  · exact openWindow_created ..

/-- A complete session stays complete, and only a complete one is marked as done. -/
theorem acknowledge_sound {config : ServerConfig} {sendOk : Nat → Bool} {now seq : Nat}
    {s : Session} (h : s.Sound) : (acknowledge config sendOk now seq s).1.Sound := by
  intro done hdone
  simp only [acknowledge] at hdone ⊢
  by_cases hall : s.nextUnsent = s.packets.length ∧ (s.unacked.erase seq).isEmpty = true
  · rw [if_pos hall]
    exact hall
  · rw [if_neg hall, openWindow_doneAt] at hdone
    obtain ⟨hsent, hacked⟩ := h done hdone
    have hempty : (s.unacked.erase seq).isEmpty = true := by
      rw [Std.TreeSet.isEmpty_erase, hacked]
      rfl
    exact absurd ⟨hsent, hempty⟩ hall

theorem buildSession_doneAt {hash now chunkSize : Nat} {mime : Text} {body : Bytes} {s : Session}
    (h : buildSession o hash now mime body chunkSize = some s) : s.doneAt = none := by
  simp only [buildSession, Option.bind_eq_bind, Option.bind_eq_some_iff, Option.some.injEq] at h
  obtain ⟨-, -, -, -, -, -, -, -, -, -, rfl⟩ := h
  rfl

/-- A request line leaves the table alone or opens a session for a peer that has none. -/
theorem onRequest_cases {peer : SocketAddr} {turn : Turn} {line : Text}
    (h : onRequest o outside config peer turn line t = some (t', effects)) :
    t' = t ∨ ∃ s, t[peer]? = none ∧ t.size < config.maxSessions ∧ s.doneAt = none ∧
      t' = t.insert peer s := by
  unfold onRequest at h
  split at h
  · cases h
    exact Or.inl rfl
  · next hlive =>
    split at h
    · cases h
      exact Or.inl rfl
    · next hroom =>
      split at h
      · cases h
        exact Or.inl rfl
      · split at h
        · simp only [Option.bind_eq_bind, Option.bind_eq_some_iff, Option.some.injEq,
            Prod.mk.injEq] at h
          obtain ⟨s, hs, rfl, -⟩ := h
          refine Or.inr ⟨_, ?_, Nat.lt_of_not_le hroom, ?_, rfl⟩
          · exact Std.HashMap.getElem?_eq_none (by simpa using hlive)
          · rw [openWindow_doneAt]
            exact buildSession_doneAt hs
        all_goals
          cases h
          exact Or.inl rfl

/-- **One turn** does one of the things that `Change` lists. -/
theorem serveStep_change (h : serveStep o outside config t event = some (t', effects)) :
    Change config t event t' := by
  cases event with
  | tick now resentAt sendOk =>
    cases h
    exact .tick now resentAt sendOk
  | recvFailed =>
    cases h
    exact .same (by simp)
  | received datagram peer turn =>
    have hsame : Change config t (.received datagram peer turn) t := .same (by simp)
    simp only [serveStep] at h
    split at h
    · cases h
      exact hsame
    · split at h
      · cases h
        exact hsame
      · next seq hack =>
        simp only [onAck, Option.some.injEq] at h
        cases hs : t[peer]? with
        | none =>
          rw [hs] at h
          cases h
          exact hsame
        | some s =>
          rw [hs] at h
          cases h
          exact .ack hack hs
      · next line hrequest =>
        obtain rfl | ⟨s, hlive, hroom, hnew, rfl⟩ := onRequest_cases h
        · exact hsame
        · exact .opened hrequest hlive hroom hnew

/-- A tick drops the sessions whose time is over and touches nothing of the others but the time
they were last sent to. -/
theorem getElem?_onTick (config : ServerConfig) (now : Nat) (resentAt : SocketAddr → Nat)
    (sendOk : SocketAddr → Nat → Bool) (t : Sessions) (p : SocketAddr) :
    (onTick config now resentAt sendOk t).1[p]? =
      (t[p]?.filter fun s => !(s.expired config now || s.lingered now)).map fun s =>
        if s.due config now then { s with lastSend := resentAt p } else s := by
  simp only [onTick, Std.HashMap.getElem?_map, Std.HashMap.getElem?_filter']
  rfl

/-- What a tick leaves at an address was there, and its time is not over. -/
theorem onTick_some {now : Nat} {resentAt : SocketAddr → Nat} {sendOk : SocketAddr → Nat → Bool}
    {p : SocketAddr} {s' : Session}
    (h : (onTick config now resentAt sendOk t).1[p]? = some s') :
    ∃ s, t[p]? = some s ∧ (s' = s ∨ s' = { s with lastSend := resentAt p }) := by
  rw [getElem?_onTick, Option.map_eq_some_iff] at h
  obtain ⟨s, hs, rfl⟩ := h
  refine ⟨s, (Option.filter_eq_some_iff.mp hs).1, ?_⟩
  split
  · exact Or.inr rfl
  · exact Or.inl rfl

/-! ## One turn -/

/-- What is kept of a session in a turn is that session, further on. -/
theorem Change.same_session (h : Change config t event t') {p : SocketAddr} {s s' : Session}
    (hs : t[p]? = some s) (hs' : t'[p]? = some s') : s.SameSession s' := by
  have hrefl : ∀ s : Session, s.SameSession s := fun s => ⟨rfl, rfl⟩
  cases h with
  | same =>
    rw [hs, Option.some.injEq] at hs'
    subst hs'
    exact hrefl s
  | tick now resentAt sendOk =>
    obtain ⟨s₀, hs₀, rfl | rfl⟩ := onTick_some hs'
    all_goals
      rw [hs, Option.some.injEq] at hs₀
      subst hs₀
      exact ⟨rfl, rfl⟩
  | @ack datagram peer turn seq s₀ hack hs₀ =>
    by_cases hp : peer = p
    · subst hp
      rw [Std.HashMap.getElem?_insert_self, Option.some.injEq] at hs'
      rw [hs, Option.some.injEq] at hs₀
      subst hs₀ hs'
      exact acknowledge_same ..
    · rw [Std.HashMap.getElem?_insert, if_neg (by simpa using hp), hs, Option.some.injEq] at hs'
      subst hs'
      exact hrefl s
  | @opened datagram peer turn line s₀ hrequest hnone hroom hnew =>
    have hp : peer ≠ p := by
      rintro rfl
      rw [hs] at hnone
      cases hnone
    rw [Std.HashMap.getElem?_insert, if_neg (by simpa using hp), hs, Option.some.injEq] at hs'
    subst hs'
    exact hrefl s

/-- **A session disappears** only on a tick, and only if its time is over. -/
theorem Change.gone (h : Change config t event t') {p : SocketAddr} {s : Session}
    (hs : t[p]? = some s) (hs' : t'[p]? = none) :
    ∃ now resentAt sendOk, event = .tick now resentAt sendOk ∧
      (s.expired config now || s.lingered now) = true := by
  cases h with
  | same =>
    rw [hs] at hs'
    cases hs'
  | tick now resentAt sendOk =>
    refine ⟨now, resentAt, sendOk, rfl, ?_⟩
    rw [getElem?_onTick, hs, Option.map_eq_none_iff, Option.filter_eq_none_iff] at hs'
    have hdropped := hs' s rfl
    rwa [Bool.not_eq_true', Bool.not_eq_false] at hdropped
  | ack | opened =>
    rw [Std.HashMap.getElem?_insert] at hs'
    split at hs'
    · cases hs'
    · rw [hs] at hs'
      cases hs'

/-- A datagram changes nothing at the addresses of other peers. -/
theorem Change.frame {datagram : Bytes} {peer : SocketAddr} {turn : Turn}
    (h : Change config t (.received datagram peer turn) t') {p : SocketAddr} (hp : p ≠ peer) :
    t'[p]? = t[p]? := by
  have hne : ¬ (peer == p) = true := by
    intro heq
    exact hp (eq_of_beq heq).symm
  cases h with
  | same => rfl
  | ack | opened => rw [Std.HashMap.getElem?_insert, if_neg hne]

theorem Change.size_le (h : Change config t event t') (hle : t.size ≤ config.maxSessions) :
    t'.size ≤ config.maxSessions := by
  cases h with
  | same => exact hle
  | tick now resentAt sendOk =>
    simp only [onTick, Std.HashMap.size_map]
    exact Nat.le_trans Std.HashMap.size_filter_le_size hle
  | ack hack hs =>
    rw [Std.HashMap.size_insert, if_pos (Std.HashMap.mem_iff_isSome_getElem?.mpr (by simp [hs]))]
    exact hle
  | opened hrequest hnone hroom hnew => exact Nat.le_trans Std.HashMap.size_insert_le hroom

/-- Only complete sessions are marked as done. -/
def Sessions.Sound (t : Sessions) : Prop :=
  ∀ (p : SocketAddr) (s : Session), t[p]? = some s → s.Sound

theorem Change.sound (h : Change config t event t') (hsound : Sessions.Sound t) :
    Sessions.Sound t' := by
  intro p s' hs'
  cases h with
  | same => exact hsound p s' hs'
  | tick now resentAt sendOk =>
    obtain ⟨s, hs, hkept⟩ := onTick_some hs'
    rcases hkept with rfl | rfl
    · exact hsound p s' hs
    · exact hsound p s hs
  | @ack datagram peer turn seq s hack hs =>
    rw [Std.HashMap.getElem?_insert] at hs'
    split at hs'
    · cases hs'
      exact acknowledge_sound (hsound peer s hs)
    · exact hsound p s' hs'
  | @opened datagram peer turn line s hrequest hnone hroom hnew =>
    rw [Std.HashMap.getElem?_insert] at hs'
    split at hs'
    · cases hs'
      intro done hdone
      rw [hnew] at hdone
      cases hdone
    · exact hsound p s' hs'

/-- A request from a peer with a live session is ignored. -/
theorem serveStep_live {datagram : Bytes} {peer : SocketAddr} {turn : Turn} {line : Text}
    {s : Session} (h : serveStep o outside config t (.received datagram peer turn) =
      some (t', effects))
    (hrequest : parseClientDatagram datagram = .ok (.request line)) (hs : t[peer]? = some s) :
    t' = t ∧ effects.handled = none := by
  have hlive : t.contains peer = true := by
    rw [Std.HashMap.contains_eq_isSome_getElem?, hs]
    rfl
  simp only [serveStep, hrequest, onRequest, hlive, if_true] at h
  split at h
  · cases h
    exact ⟨rfl, rfl⟩
  · cases h
    exact ⟨rfl, rfl⟩

/-! ## Whole runs -/

/-- What holds of the table at every point. -/
structure Sessions.WellFormed (config : ServerConfig) (t : Sessions) : Prop where
  size_le : t.size ≤ config.maxSessions
  sound : Sessions.Sound t

theorem Sessions.WellFormed.empty (config : ServerConfig) : Sessions.WellFormed config ∅ where
  size_le := by simp
  sound := by
    intro p s hs
    simp at hs

theorem Change.wellFormed (h : Change config t event t') (ht : Sessions.WellFormed config t) :
    Sessions.WellFormed config t' :=
  ⟨h.size_le ht.size_le, h.sound ht.sound⟩

theorem serve_wellFormed {events : List ServeEvent}
    (h : serve o outside config t events = some t') (ht : Sessions.WellFormed config t) :
    Sessions.WellFormed config t' := by
  induction events generalizing t with
  | nil =>
    cases h
    exact ht
  | cons event events ih =>
    simp only [serve, List.foldlM_cons, Option.bind_eq_bind, Option.bind_eq_some_iff,
      Option.map_eq_some_iff] at h
    obtain ⟨t₁, ⟨⟨_, effects⟩, hstep, rfl⟩, hrest⟩ := h
    exact ih hrest ((serveStep_change hstep).wellFormed ht)

/-- What the next turn may do to the table `t`. -/
structure TurnSafe (config : ServerConfig) (t : Sessions) (event : ServeEvent) (t' : Sessions)
    (effects : Effects) : Prop where
  /-- A request of a peer with a live session is ignored. -/
  live : ∀ datagram peer turn line, event = .received datagram peer turn →
    parseClientDatagram datagram = .ok (.request line) → peer ∈ t → t' = t ∧ effects.handled = none
  /-- A datagram of one peer, an acknowledgement or not, changes no other peer's session. -/
  frame : ∀ datagram peer turn p, event = .received datagram peer turn → p ≠ peer →
    t'[p]? = t[p]?
  /-- What stays is the same session. -/
  kept : ∀ (p : SocketAddr) (s s' : Session), t[p]? = some s → t'[p]? = some s' → s.SameSession s'
  /-- What goes goes on a tick, past the timeout or past the linger after completion. -/
  gone : ∀ (p : SocketAddr) (s : Session), t[p]? = some s → t'[p]? = none →
    ∃ now resentAt sendOk, event = .tick now resentAt sendOk ∧
      (config.sessionTimeout < now - s.created ∨
        s.Complete ∧ ∃ done, s.doneAt = some done ∧ doneLinger < now - done)

theorem serveStep_turnSafe (h : serveStep o outside config t event = some (t', effects))
    (ht : Sessions.WellFormed config t) : TurnSafe config t event t' effects := by
  have hchange := serveStep_change h
  refine ⟨?_, ?_, ?_, ?_⟩
  · rintro datagram peer turn line rfl hrequest hlive
    obtain ⟨s, hs⟩ := Option.isSome_iff_exists.mp (Std.HashMap.mem_iff_isSome_getElem?.mp hlive)
    exact serveStep_live h hrequest hs
  · rintro datagram peer turn p rfl hp
    exact hchange.frame hp
  · intro p s s' hs hs'
    exact hchange.same_session hs hs'
  · intro p s hs hs'
    obtain ⟨now, resentAt, sendOk, rfl, hover⟩ := hchange.gone hs hs'
    refine ⟨now, resentAt, sendOk, rfl, ?_⟩
    rcases Bool.or_eq_true_iff.mp hover with hexpired | hlingered
    · exact Or.inl (of_decide_eq_true hexpired)
    · right
      obtain ⟨done, hdone, hpast⟩ := (Option.any_eq_true _ _).mp hlingered
      exact ⟨ht.sound p s hs done hdone, done, hdone, of_decide_eq_true hpast⟩

/-- **The table of sessions**, at every point of every run from the empty one. -/
theorem serve_table {events : List ServeEvent} (h : serve o outside config ∅ events = some t) :
    t.size ≤ config.maxSessions ∧ (t.toList.map Prod.fst).Nodup ∧
      ∀ event t' effects, serveStep o outside config t event = some (t', effects) →
        TurnSafe config t event t' effects := by
  have ht := serve_wellFormed h (.empty config)
  refine ⟨ht.size_le, ?_, ?_⟩
  · rw [Std.HashMap.map_fst_toList_eq_keys]
    exact Std.HashMap.nodup_keys
  · intro event t' effects hstep
    exact serveStep_turnSafe hstep ht

end

/-! A peer's request opens the first session. -/

def samplePeer : SocketAddr := .v4 0x7f000001 50000

def sampleOutside : Outside where
  parseUrl t := .ok ⟨"guppy".toList, some "a".toList, none, t.drop 9, none, none⟩
  percentDecode := id

def sampleTurn : Turn where
  now := 0
  hash := 0
  sendOk _ := true
  handle _ := .success "text/plain".toList [104, 105]

def sampleRequest : ServeEvent :=
  .received (Utf8.encode "guppy://a/\r\n".toList) samplePeer sampleTurn

theorem serve_table_sample :
    ∃ s : Session,
      serve .checked sampleOutside {} ∅ [sampleRequest] =
        some ((∅ : Sessions).insert samplePeer s) ∧
      ((∅ : Sessions).insert samplePeer s).size ≤ 1024 ∧
      (((∅ : Sessions).insert samplePeer s).toList.map Prod.fst).Nodup ∧
      ∀ event t' effects,
        serveStep .checked sampleOutside {} ((∅ : Sessions).insert samplePeer s) event =
          some (t', effects) →
        TurnSafe {} ((∅ : Sessions).insert samplePeer s) event t' effects := by
  have hline : ¬ maxRequestBytes < (Utf8.encode "guppy://a/\r\n".toList).length := by decide
  have hparsed : parseClientDatagram (Utf8.encode "guppy://a/\r\n".toList) =
      .ok (.request "guppy://a/".toList) := by
    decide
  have hrequest : parseRequest sampleOutside "guppy://a/".toList samplePeer = some
      ⟨⟨"guppy".toList, some "a".toList, none, ['/'], none, none⟩, ['/'], none, samplePeer⟩ := by
    decide
  obtain ⟨s, hs⟩ : ∃ s, buildSession .checked 0 0 "text/plain".toList [104, 105] 512 = some s :=
    ⟨_, rfl⟩
  -- the hash of an address does not evaluate, so the table is computed by its lemmas
  have hrun : serve .checked sampleOutside {} ∅ [sampleRequest] =
      some ((∅ : Sessions).insert samplePeer (openWindow {} sampleTurn.sendOk 0 s).1) := by
    simp only [serve, List.foldlM_cons, List.foldlM_nil, serveStep, sampleRequest, hline, if_false,
      hparsed, onRequest, Std.HashMap.contains_empty, Std.HashMap.size_empty, hrequest, sampleTurn,
      hs]
    rfl
  exact ⟨_, hrun, serve_table hrun⟩

end Smolweb.Guppy
