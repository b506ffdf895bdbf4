import Mathlib.Data.List.Forall2
import Smolweb.Guppy.Verify.Window

/-!
# The server loop and its sessions

The loop of `serve` is, for each peer, a run of the session's own steps: a peer opens its session
with a request that the handler answers, and from then on only ticks and the peer's own
acknowledgements move it (`serve_sessions`). So what `run_window` says of a session holds of every
session of the table, at any point, whatever the other peers do.
-/

namespace Smolweb.Guppy

variable {o : Overflow} {outside : Outside} {config : ServerConfig} {t t' : Sessions}
  {event : ServeEvent} {effects : Effects} {p : SocketAddr}

/-- In this turn peer `p` opens session `s₀`, by a request that the handler answers. -/
inductive Opens (o : Overflow) (outside : Outside) (config : ServerConfig) (p : SocketAddr)
    (s₀ : Session) : ServeEvent → SessionStep → Prop
  | intro {datagram : Bytes} {turn : Turn} {line : Text} {request : Request} {mime : Text}
    {body : Bytes} (hline : parseClientDatagram datagram = .ok (.request line))
    (hrequest : parseRequest outside line p = some request)
    (hhandle : turn.handle request = .success mime body)
    (hbuilt : buildSession o turn.hash turn.now mime body config.chunkSize = some s₀) :
    Opens o outside config p s₀ (.received datagram p turn) (.openWindow turn.sendOk turn.now)

theorem Opens.built {s₀ : Session} {e : SessionStep} (h : Opens o outside config p s₀ event e) :
    ∃ hash now mime body chunkSize,
      buildSession o hash now mime body chunkSize = some s₀ := by
  cases h with
  | intro hline hrequest hhandle hbuilt => exact ⟨_, _, _, _, _, hbuilt⟩

/-- The turn moves the session of peer `p`: by a tick, or by an acknowledgement of its own. -/
inductive Moves (p : SocketAddr) : ServeEvent → SessionStep → Prop
  | tick (now : Nat) (resentAt : SocketAddr → Nat) (sendOk : SocketAddr → Nat → Bool) :
    Moves p (.tick now resentAt sendOk) (.retransmit (sendOk p) (resentAt p))
  | ack {datagram : Bytes} {turn : Turn} {seq : Nat}
    (hack : parseClientDatagram datagram = .ok (.ack seq)) :
    Moves p (.received datagram p turn) (.acknowledge turn.sendOk turn.now seq)

/-! ## One turn -/

theorem onRequest_opens {datagram : Bytes} {turn : Turn} {line : Text}
    (hline : parseClientDatagram datagram = .ok (.request line))
    (h : onRequest o outside config p turn line t = some (t', effects)) :
    t' = t ∨ t[p]? = none ∧ ∃ s₀,
      Opens o outside config p s₀ (.received datagram p turn) (.openWindow turn.sendOk turn.now) ∧
        t' = t.insert p (s₀.step config (.openWindow turn.sendOk turn.now)) := by
  unfold onRequest at h
  split at h
  · cases h
    exact .inl rfl
  · next hlive =>
    split at h
    · cases h
      exact .inl rfl
    · split at h
      · cases h
        exact .inl rfl
      · next request hrequest =>
        split at h
        · next mime body hhandle =>
          simp only [Option.bind_eq_bind, Option.bind_eq_some_iff, Option.some.injEq,
            Prod.mk.injEq] at h
          obtain ⟨s₀, hbuilt, rfl, -⟩ := h
          have hnone : t[p]? = none := Std.HashMap.getElem?_eq_none (by simpa using hlive)
          exact .inr ⟨hnone, s₀, .intro hline hrequest hhandle hbuilt, rfl⟩
        all_goals
          cases h
          exact .inl rfl

/-- **What one turn does to one peer**: its session is as it was, has moved, or is opened. -/
theorem serveStep_peer (h : serveStep o outside config t event = some (t', effects))
    {s' : Session} (hs' : t'[p]? = some s') :
    (∃ s, t[p]? = some s ∧ (s' = s ∨ ∃ e, Moves p event e ∧ s' = s.step config e)) ∨
      ∃ s₀ e, Opens o outside config p s₀ event e ∧ s' = s₀.step config e := by
  have hsame (heq : t' = t) : ∃ s, t[p]? = some s ∧
      (s' = s ∨ ∃ e, Moves p event e ∧ s' = s.step config e) := ⟨s', heq ▸ hs', .inl rfl⟩
  cases event with
  | tick now resentAt sendOk =>
    cases h
    obtain ⟨s, hs, rfl | rfl⟩ := onTick_some hs'
    · exact .inl ⟨_, hs, .inl rfl⟩
    · exact .inl ⟨s, hs, .inr ⟨_, .tick now resentAt sendOk, rfl⟩⟩
  | recvFailed =>
    cases h
    exact .inl (hsame rfl)
  | received datagram peer turn =>
    simp only [serveStep] at h
    split at h
    · cases h
      exact .inl (hsame rfl)
    · split at h
      · cases h
        exact .inl (hsame rfl)
      · next seq hack =>
        simp only [onAck, Option.some.injEq] at h
        cases hs : t[peer]? with
        | none =>
          rw [hs] at h
          cases h
          exact .inl (hsame rfl)
        | some s =>
          rw [hs] at h
          cases h
          by_cases hp : peer = p
          · subst hp
            rw [Std.HashMap.getElem?_insert_self, Option.some.injEq] at hs'
            exact .inl ⟨s, hs, .inr ⟨_, .ack hack, hs'.symm⟩⟩
          · rw [Std.HashMap.getElem?_insert, if_neg (by simpa using hp)] at hs'
            exact .inl ⟨s', hs', .inl rfl⟩
      · next line hline =>
        rcases onRequest_opens hline h with heq | ⟨-, s₀, hopens, rfl⟩
        · exact .inl (hsame heq)
        · by_cases hp : peer = p
          · subst hp
            rw [Std.HashMap.getElem?_insert_self, Option.some.injEq] at hs'
            exact .inr ⟨s₀, _, hopens, hs'.symm⟩
          · rw [Std.HashMap.getElem?_insert, if_neg (by simpa using hp)] at hs'
            exact .inl ⟨s', hs', .inl rfl⟩

/-- A tick sends to a peer only what is of its session. -/
theorem onTick_sends {now : Nat} {resentAt : SocketAddr → Nat} {sendOk : SocketAddr → Nat → Bool} :
    ∀ sent ∈ (onTick config now resentAt sendOk t).2.sent,
      ∃ s, (onTick config now resentAt sendOk t).1[sent.1]? = some s ∧
        sent.2 ∈ s.packets.map Prod.snd := by
  intro sent hsent
  obtain ⟨⟨p, s⟩, hkept, hsent⟩ := List.mem_flatMap.mp hsent
  split at hsent
  · next hdue =>
    obtain ⟨wire, hwire, rfl⟩ := List.mem_map.mp hsent
    have hget := Std.HashMap.mem_toList_iff_getElem?_eq_some.mp hkept
    refine ⟨(retransmit (sendOk p) (resentAt p) s).1, ?_, retransmit_sends hwire⟩
    simp only [onTick, Std.HashMap.getElem?_map, hget, Option.map_some]
    exact congrArg some (if_pos hdue)
  · cases hsent

end Smolweb.Guppy
