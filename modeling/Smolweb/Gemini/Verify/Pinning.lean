import Mathlib.Data.Nat.Find
import Smolweb.Gemini.Tofu

/-!
# Pins under concurrent first contacts

The law of the pin store is that no connection changes a pin and that a connection which succeeds
presented the pinned certificate (`PinsKept`, `ReturnsPinned`). It holds under exactly the schedules
in which all that ask for a host before the first of them arrives are shown the same certificate
(`pinned_iff`); two first contacts that overlap can break it (`pin_overwritten`).
-/

namespace Smolweb.Gemini

/-- Connections as concurrent threads on one store, each ending with its host and its result. -/
def connecting (digest : Bytes → Fingerprint) (calls : List (Text × Nat)) (store : InMemoryTofu) :
    Pool TofuOp.Result InMemoryTofu (Text × Except ClientError Bytes) where
  state := store
  threads := calls.map fun call =>
    some ((tofuConnect digest call.1 call.2).map fun result => (call.1, result))

section

variable (digest : Bytes → Fingerprint)
  (p : Pool TofuOp.Result InMemoryTofu (Text × Except ClientError Bytes))
  (schedule : List (Nat × Handshake))

/-- Once the store holds a fingerprint for a host, it holds that one for the rest of the run. -/
def PinsKept : Prop :=
  ∀ before after, schedule = before ++ after → ∀ host f,
    (p.run TofuOp.exec before).state.fingerprint host = some f →
      (p.run TofuOp.exec schedule).state.fingerprint host = some f

/-- A connection that returns its stream presented the certificate whose fingerprint the store
holds when it returns. -/
def ReturnsPinned : Prop :=
  ∀ before turn after, schedule = before ++ turn :: after → ∀ host leaf,
    ((p.run TofuOp.exec before).next? turn.1).isSome →
    (p.run TofuOp.exec (before ++ [turn])).threads[turn.1]? =
      some (some (.ret (host, .ok leaf))) →
    (p.run TofuOp.exec (before ++ [turn])).state.fingerprint host = some (digest leaf)

end

/-- A step pins only a host that has no pin yet, or has that very one. -/
def PinAgrees : TofuOp → Handshake → InMemoryTofu → Prop
  | .pin host fingerprint, _, store => ∀ f, store.fingerprint host = some f → f = fingerprint
  | _, _, _ => True

/-- No pin is lost or changed. -/
def keepPins : Guarantee InMemoryTofu where
  inv _ := True
  rel store store' := ∀ host f, store.fingerprint host = some f → store'.fingerprint host = some f
  refl _ _ _ h := h
  trans h h' host f hf := h' host f (h host f hf)

/-- A connection that succeeded presented the pinned certificate. -/
def Presented (digest : Bytes → Fingerprint) (host : Text) (result : Except ClientError Bytes)
    (store : InMemoryTofu) : Prop :=
  ∀ leaf, result = .ok leaf → store.fingerprint host = some (digest leaf)

section

variable {digest : Bytes → Fingerprint} {host : Text}

theorem fingerprint_pin_self (store : InMemoryTofu) (host : Text) (f : Fingerprint) :
    (store.pin host f).fingerprint host = some f :=
  Function.update_self ..

theorem pin_keeps {store : InMemoryTofu} {f : Fingerprint} {met : Handshake}
    (h : PinAgrees (.pin host f) met store) :
    keepPins.rel store (store.pin host f) := by
  intro host' f' hf
  by_cases heq : host' = host
  · subst heq
    rw [fingerprint_pin_self, h f' hf]
  · exact (Function.update_of_ne heq ..).trans hf

theorem safe_error (e : ClientError) (store : InMemoryTofu) :
    (Prog.ret (.error e) : Connect).Safe TofuOp.exec PinAgrees keepPins (Presented digest host)
      store :=
  fun _ _ _ _ h => by cases h

/-- Once the presented certificate is pinned, the rest of the connection is safe. -/
theorem safe_finish {leaf : Bytes} {store : InMemoryTofu}
    (h : store.fingerprint host = some (digest leaf)) :
    (Prog.call .finish fun _ => .ret (.ok leaf) : Connect).Safe TofuOp.exec PinAgrees keepPins
      (Presented digest host) store := by
  intro s₁ hrel₁ _ met r s₂ _ he
  cases he
  refine ⟨keepPins.refl _, trivial, fun s₃ hrel₃ _ leaf' hleaf => ?_⟩
  cases hleaf
  exact hrel₃ host _ (hrel₁ host _ h)

/-- With the pin that was looked up still in the store, whatever the handshake meets. -/
theorem safe_finishConnect {port : Text} {pinned : Option Fingerprint} (met : Handshake)
    {store : InMemoryTofu} (hp : ∀ f, pinned = some f → store.fingerprint host = some f) :
    (finishConnect digest host port pinned met).Safe TofuOp.exec PinAgrees keepPins
      (Presented digest host) store := by
  unfold finishConnect
  split
  · exact safe_error _ _
  · exact safe_error _ _
  · exact safe_error _ _
  · next leaf error =>
    simp only
    split
    · next hverify =>
      split
      · exact safe_error _ _
      · split
        · intro s₁ _ _ met r s₂ hagrees he
          cases he
          exact ⟨pin_keeps hagrees, trivial, safe_finish (fingerprint_pin_self ..)⟩
        · next hsome =>
          obtain ⟨f, rfl⟩ : ∃ f, pinned = some f :=
            Option.ne_none_iff_exists'.mp (by simpa using hsome)
          have heq : f = digest leaf := by simpa [verifyServerCert] using hverify
          exact safe_finish (heq ▸ hp f rfl)
    · exact safe_error _ _

theorem safe_tofuConnect (port : Nat) (store : InMemoryTofu) :
    (tofuConnect digest host port).Safe TofuOp.exec PinAgrees keepPins (Presented digest host)
      store := by
  intro s₁ _ _ met r s₂ _ he
  cases he
  refine ⟨keepPins.refl _, trivial, ?_⟩
  intro s₃ hrel₃ _ met' r' s₄ _ he'
  cases he'
  exact ⟨keepPins.refl _, trivial, safe_finishConnect met' fun f hf => hrel₃ host f hf⟩

theorem sound_connecting (digest : Bytes → Fingerprint) (calls : List (Text × Nat))
    (store : InMemoryTofu) :
    (connecting digest calls store).Sound TofuOp.exec PinAgrees keepPins
      (fun ended => Presented digest ended.1 ended.2) := by
  refine ⟨trivial, fun t ht => ?_⟩
  obtain ⟨call, -, heq⟩ := List.mem_map.mp ht
  cases heq
  rw [Prog.safe_map]
  exact safe_tofuConnect call.2 _

end

/-! ## First contacts -/

/-- A call to the host has taken its second turn, in which it was shown the certificate `leaf` and
nothing went wrong, and takes its next turn right after `before`. -/
def Arrives (calls : List (Text × Nat)) (schedule : List (Nat × Handshake)) (host : Text) (i : Nat)
    (leaf : Bytes) (before : List (Nat × Handshake)) : Prop :=
  (∃ port, calls[i]? = some (host, port)) ∧ (∃ met, turnsOf i before = [met, .shown leaf none]) ∧
    ∃ met after, schedule = before ++ (i, met) :: after

/-- Whoever asked for a host without a pin before the first call to it arrived, and arrives itself,
is shown a certificate with the fingerprint that the first one was shown. -/
def FirstContactsAgree (digest : Bytes → Fingerprint) (calls : List (Text × Nat))
    (store : InMemoryTofu) (schedule : List (Nat × Handshake)) : Prop :=
  ∀ host, store.fingerprint host = none → ∀ i j leaf leaf' a b,
    Arrives calls schedule host i leaf a → Arrives calls schedule host j leaf' b →
      (∀ k leaf'' c, Arrives calls schedule host k leaf'' c → a.length ≤ c.length) →
        turnsOf j a ≠ [] → digest leaf' = digest leaf

/-- The answers to a connection's operations, with what its lookup found. -/
def answers (found : Option Fingerprint) : (op : TofuOp) → Handshake → op.Result
  | .fingerprint _, _ => found
  | .handshake, met => met
  | .pin _ _, _ => ()
  | .finish, _ => ()

section

variable {digest : Bytes → Fingerprint} {host : Text} {port : Nat} {found : Option Fingerprint}

theorem resume_finish (leaf : Bytes) (turns : List Handshake) :
    (∃ next, (Prog.call .finish fun _ => .ret (.ok leaf) : Connect).resume (answers found) turns =
        .call .finish next) ∨
      ∃ r, (Prog.call .finish fun _ => .ret (.ok leaf) : Connect).resume (answers found) turns =
        .ret r := by
  cases turns with
  | nil => exact .inl ⟨_, Prog.resume_nil _⟩
  | cons met turns => exact .inr ⟨_, Prog.resume_ret ..⟩

/-- What a connection does next, by the turns it has taken: it pins only right after a handshake
that went well, and if its lookup found nothing. -/
theorem resume_eq_call {turns : List Handshake} {op : TofuOp} {next : op.Result → Connect}
    (h : (tofuConnect digest host port).resume (answers found) turns = .call op next) :
    (turns = [] ∧ op = .fingerprint host) ∨ op = .handshake ∨ op = .finish ∨
      ∃ met leaf, turns = [met, .shown leaf none] ∧ found = none ∧
        op = .pin host (digest leaf) := by
  cases turns with
  | nil =>
    cases h
    exact .inl ⟨rfl, rfl⟩
  | cons first turns =>
    cases turns with
    | nil =>
      cases h
      exact .inr (.inl rfl)
    | cons met turns =>
      change (finishConnect digest host (Text.decimal port) found met).resume (answers found)
        turns = _ at h
      have hret {e : ClientError}
          (h : (Prog.ret (.error e) : Connect).resume (answers found) turns = .call op next) :
          False := by
        rw [Prog.resume_ret] at h
        cases h
      have hfinish {leaf : Bytes} {turns : List Handshake}
          (h : (Prog.call .finish fun _ => .ret (.ok leaf) : Connect).resume (answers found) turns =
            .call op next) : op = .finish := by
        rcases @resume_finish found leaf turns with ⟨next', hnext⟩ | ⟨r, hr⟩
        · rw [hnext] at h
          cases h
          rfl
        · rw [hr] at h
          cases h
      unfold finishConnect at h
      split at h
      · exact (hret h).elim
      · exact (hret h).elim
      · exact (hret h).elim
      next leaf error =>
      simp only at h
      split at h
      · split at h
        · exact (hret h).elim
        · split at h
          · next hnone =>
            cases turns with
            | nil =>
              rw [Prog.resume_nil] at h
              cases h
              have hfound := Option.isNone_iff_eq_none.mp hnone
              exact .inr (.inr (.inr ⟨first, leaf, rfl, hfound, rfl⟩))
            | cons met turns => exact .inr (.inr (.inl (hfinish h)))
          · exact .inr (.inr (.inl (hfinish h)))
      · exact (hret h).elim

end

section

variable {digest : Bytes → Fingerprint} {calls : List (Text × Nat)} {store : InMemoryTofu}
  {host : Text} {port i : Nat} {before : List (Nat × Handshake)}

/-- The fingerprint that a call's lookup finds. -/
def lookedUp (digest : Bytes → Fingerprint) (calls : List (Text × Nat)) (store : InMemoryTofu)
    (schedule : List (Nat × Handshake)) (host : Text) (i : Nat) : Option Fingerprint :=
  ((connecting digest calls store).run TofuOp.exec (untilFirst i schedule)).state.fingerprint host

/-- A call is what its turns and its lookup have made of it. -/
theorem threads_connecting (hcall : calls[i]? = some (host, port))
    (before : List (Nat × Handshake)) :
    ((connecting digest calls store).run TofuOp.exec before).threads[i]? =
      some (some (((tofuConnect digest host port).resume
        (answers (lookedUp digest calls store before host i)) (turnsOf i before)).map
          fun result => (host, result))) := by
  have hthread : (connecting digest calls store).threads[i]? =
      some (some ((tofuConnect digest host port).map fun result => (host, result))) := by
    simp [connecting, hcall]
  rw [← Prog.resume_map]
  refine Pool.thread_run hthread before fun earlier input later heq op next hresume => ?_
  rw [Prog.resume_map] at hresume
  obtain ⟨next', hresume, -⟩ := Prog.map_eq_call hresume
  rcases resume_eq_call hresume with ⟨hnil, rfl⟩ | rfl | rfl | ⟨met, leaf, -, -, rfl⟩
  · have huntil : untilFirst i before = earlier := by
      rw [heq, untilFirst_append_of_nil hnil]
      simp [untilFirst]
    refine ⟨((connecting digest calls store).run TofuOp.exec earlier).state, ?_⟩
    show some (((connecting digest calls store).run TofuOp.exec earlier).state.fingerprint host,
      _) = some (lookedUp digest calls store before host i, _)
    rw [lookedUp, huntil]
  · exact ⟨_, rfl⟩
  · exact ⟨_, rfl⟩
  · exact ⟨_, rfl⟩

/-- Who pins, has arrived, and found no pin. -/
theorem arrived_of_pin {turn : Nat × Handshake} {host : Text} {f : Fingerprint}
    {next : Unit → Prog TofuOp.Result (Text × Except ClientError Bytes)}
    (h : ((connecting digest calls store).run TofuOp.exec before).next? turn.1 =
      some ⟨.pin host f, next⟩) (after : List (Nat × Handshake)) :
    lookedUp digest calls store before host turn.1 = none ∧
      ∃ leaf, f = digest leaf ∧
        Arrives calls (before ++ turn :: after) host turn.1 leaf before := by
  have hthread := Pool.next?_eq_some_iff.mp h
  obtain ⟨hlt, -⟩ := List.getElem?_eq_some_iff.mp hthread
  rw [Pool.length_threads_run, connecting, List.length_map] at hlt
  obtain ⟨⟨host', port⟩, hcall⟩ : ∃ call, calls[turn.1]? = some call :=
    ⟨_, List.getElem?_eq_getElem hlt⟩
  rw [threads_connecting hcall before, Option.some.injEq, Option.some.injEq] at hthread
  obtain ⟨next', hresume, -⟩ := Prog.map_eq_call hthread
  rcases resume_eq_call hresume with ⟨-, hop⟩ | hop | hop | ⟨met, leaf, hturns, hfound, hop⟩
  · cases hop
  · cases hop
  · cases hop
  · cases hop
    exact ⟨hfound, leaf, rfl, ⟨port, hcall⟩, ⟨met, hturns⟩, turn.2, after, rfl⟩

/-- Who arrives and found no pin, pins. -/
theorem pin_of_arrives {schedule : List (Nat × Handshake)} {leaf : Bytes}
    (h : Arrives calls schedule host i leaf before)
    (hfound : lookedUp digest calls store before host i = none) (met : Handshake) :
    ((connecting digest calls store).run TofuOp.exec (before ++ [(i, met)])).state.fingerprint
      host = some (digest leaf) := by
  obtain ⟨⟨port, hcall⟩, ⟨first, hturns⟩, -⟩ := h
  have hthread := @threads_connecting digest _ store _ _ _ hcall before
  rw [hturns, hfound] at hthread
  have hnext := Pool.next?_eq_some_iff.mpr hthread
  rw [Pool.run_append]
  refine Eq.trans (congrArg (InMemoryTofu.fingerprint · host) (Pool.state_step hnext rfl)) ?_
  exact fingerprint_pin_self ..

/-- A pin may be changed, but a host never loses its pin. -/
theorem state_none_of_initial {before : List (Nat × Handshake)}
    {after : List (Nat × Handshake)} (hinitial : before <+: after)
    (h : ((connecting digest calls store).run TofuOp.exec after).state.fingerprint host = none) :
    ((connecting digest calls store).run TofuOp.exec before).state.fingerprint host = none := by
  let G : Guarantee InMemoryTofu := ⟨fun _ => True,
    fun s s' => s'.fingerprint host = none → s.fingerprint host = none, fun _ => id,
    fun h h' hnone => h (h' hnone)⟩
  have hexec : ∀ (op : TofuOp) (met : Handshake) (s : InMemoryTofu) (r : op.Result)
      (s' : InMemoryTofu), G.inv s → True → TofuOp.exec op met s = some (r, s') →
        G.rel s s' ∧ G.inv s' := by
    intro op met s r s' _ _ he
    refine ⟨fun hnone => ?_, trivial⟩
    cases op with
    | pin host' f =>
      cases he
      by_cases heq : host' = host
      · subst heq
        rw [fingerprint_pin_self] at hnone
        cases hnone
      · exact (Function.update_of_ne (Ne.symm heq) ..).symm.trans hnone
    | _ =>
      cases he
      exact hnone
  have hsound : ((connecting digest calls store).run TofuOp.exec before).Sound TofuOp.exec
      (fun _ _ _ => True) G (fun _ _ => True) :=
    ⟨trivial, fun t _ => Prog.safe_of_exec hexec t _⟩
  obtain ⟨rest, rfl⟩ := hinitial
  rw [Pool.run_append] at h
  exact (Pool.sound_run hsound (.of_forall (fun _ _ _ => trivial) _ rest)).2 h

/-- Until a call to the host arrives its pin is what it was. -/
theorem state_of_no_arrival (before after : List (Nat × Handshake))
    (h : ∀ i leaf a, Arrives calls (before ++ after) host i leaf a → before.length ≤ a.length) :
    ((connecting digest calls store).run TofuOp.exec before).state.fingerprint host =
      store.fingerprint host := by
  induction before using List.reverseRecOn generalizing after with
  | nil => rfl
  | append_singleton before turn ih =>
    have hassoc : before ++ [turn] ++ after = before ++ turn :: after := by simp
    rw [hassoc] at h
    have hearlier := ih (turn :: after) fun i leaf a ha => by
      have := h i leaf a ha
      rw [List.length_append, List.length_singleton] at this
      omega
    rw [← hearlier, Pool.run_append]
    show ((((connecting digest calls store).run TofuOp.exec before).step TofuOp.exec
      turn).state).fingerprint host = _
    cases hnext : ((connecting digest calls store).run TofuOp.exec before).next? turn.1 with
    | none => rw [Pool.step_of_next?_none hnext]
    | some call =>
      obtain ⟨op, next⟩ := call
      cases op with
      | pin host' f =>
        rw [Pool.state_step hnext rfl]
        by_cases heq : host' = host
        · subst heq
          obtain ⟨-, leaf, -, harrives⟩ := arrived_of_pin hnext after
          have := h _ _ _ harrives
          rw [List.length_append, List.length_singleton] at this
          omega
        · exact Function.update_of_ne (Ne.symm heq) ..
      | _ => rw [Pool.state_step hnext rfl]

/-- The first call to arrive pins what it was shown. -/
theorem pin_of_first {schedule : List (Nat × Handshake)} {leaf : Bytes}
    (hstore : store.fingerprint host = none) (h : Arrives calls schedule host i leaf before)
    (hfirst : ∀ k leaf' c, Arrives calls schedule host k leaf' c → before.length ≤ c.length)
    (met : Handshake) :
    ((connecting digest calls store).run TofuOp.exec before).state.fingerprint host = none ∧
      ((connecting digest calls store).run TofuOp.exec (before ++ [(i, met)])).state.fingerprint
        host = some (digest leaf) := by
  obtain ⟨-, -, _, after, heq⟩ := id h
  have hnone : ((connecting digest calls store).run TofuOp.exec before).state.fingerprint host =
      none := by
    rw [state_of_no_arrival before _ (by rw [← heq]; exact hfirst), hstore]
  exact ⟨hnone, pin_of_arrives h (state_none_of_initial (untilFirst_initial before) hnone) met⟩

/-- Where some call has arrived there is one that was the first to. -/
theorem exists_first {schedule : List (Nat × Handshake)} {leaf : Bytes}
    (h : Arrives calls schedule host i leaf before) :
    ∃ k leaf' a, Arrives calls schedule host k leaf' a ∧ a.length ≤ before.length ∧
      ∀ k leaf'' c, Arrives calls schedule host k leaf'' c → a.length ≤ c.length := by
  classical
  have hex : ∃ n k leaf a, Arrives calls schedule host k leaf a ∧ a.length = n :=
    ⟨_, i, leaf, before, h, rfl⟩
  obtain ⟨k, leaf', a, ha, hlength⟩ := Nat.find_spec hex
  have hmin : ∀ k leaf'' c, Arrives calls schedule host k leaf'' c → a.length ≤ c.length :=
    fun k leaf'' c hc => hlength ▸ Nat.find_min' hex ⟨k, leaf'', c, hc, rfl⟩
  exact ⟨k, leaf', a, ha, hmin _ _ _ h, hmin⟩

/-- Who takes a turn for the first time after the first arrival finds a pin. -/
theorem asked_before_first {j : Nat} {leaf : Bytes} {a after : List (Nat × Handshake)}
    {met : Handshake} (hturn : turnsOf i a ≠ [])
    (hpin : ((connecting digest calls store).run TofuOp.exec (a ++ [(i, met)])).state.fingerprint
      host = some (digest leaf))
    (hfound : lookedUp digest calls store (a ++ (i, met) :: after) host j = none) :
    turnsOf j a ≠ [] := by
  intro hnil
  have hne : i ≠ j := by
    rintro rfl
    exact hturn hnil
  have hsplit : untilFirst j (a ++ (i, met) :: after) = a ++ [(i, met)] ++ untilFirst j after := by
    have hnil' : turnsOf j (a ++ [(i, met)]) = [] := by
      rw [turnsOf_append, hnil, turnsOf_cons_of_ne hne, turnsOf_nil]
      rfl
    rw [List.append_cons, untilFirst_append_of_nil hnil']
  rw [lookedUp, hsplit] at hfound
  rw [state_none_of_initial (List.prefix_append ..) hfound] at hpin
  cases hpin

/-- Where first contacts agree, no step pins another certificate than the one already pinned. -/
theorem meets_of_agree {schedule : List (Nat × Handshake)}
    (h : FirstContactsAgree digest calls store schedule) (before after : List (Nat × Handshake))
    (heq : schedule = before ++ after) :
    (connecting digest calls store).Meets TofuOp.exec PinAgrees before := by
  induction before using List.reverseRecOn generalizing after with
  | nil => trivial
  | append_singleton before turn ih =>
    have hassoc : schedule = before ++ turn :: after := by simp [heq]
    have hmeets := ih (turn :: after) hassoc
    refine Pool.Meets.append.mpr ⟨hmeets, fun op next hnext => ?_, trivial⟩
    cases op with
    | pin host f =>
      intro pinned hpinned
      obtain ⟨hfound, leaf', rfl, harrives⟩ := arrived_of_pin hnext after
      rw [← hassoc] at harrives
      have hstore : store.fingerprint host = none :=
        state_none_of_initial (List.nil_prefix) hfound
      -- the pin is not the store's own, so some call has arrived before
      obtain ⟨i, leaf, a, ha, hlt, hfirst⟩ : ∃ i leaf a, Arrives calls schedule host i leaf a ∧
          a.length < before.length ∧
            ∀ k leaf'' c, Arrives calls schedule host k leaf'' c → a.length ≤ c.length := by
        by_contra hnone
        obtain ⟨i, leaf, a, ha, hle, hfirst⟩ := exists_first harrives
        have hlength : a.length = before.length := by
          by_contra hne
          exact hnone ⟨i, leaf, a, ha, by omega, hfirst⟩
        have hstate := @state_of_no_arrival digest calls store host before (turn :: after)
          (by rw [← hassoc, ← hlength]; exact hfirst)
        rw [hstate, hstore] at hpinned
        cases hpinned
      obtain ⟨-, ⟨first, hturns⟩, met, later, hlater⟩ := id ha
      obtain ⟨-, hpin⟩ := @pin_of_first digest _ _ _ _ _ _ _ hstore ha hfirst met
      obtain ⟨between, rfl⟩ : ∃ between, before = a ++ (i, met) :: between := by
        have hboth := hassoc.symm.trans hlater
        rcases List.append_eq_append_iff.mp hboth with ⟨k, rfl, -⟩ | ⟨k, rfl, hk⟩
        · rw [List.length_append] at hlt
          omega
        · cases k with
          | nil =>
            rw [List.append_nil] at hlt
            exact absurd hlt (Nat.lt_irrefl _)
          | cons next k =>
            obtain ⟨rfl, -⟩ := List.cons.inj hk
            exact ⟨k, rfl⟩
      have hasked := asked_before_first (by rw [hturns]; simp) hpin hfound
      have hagree := h host hstore i turn.1 leaf leaf' a _ ha harrives hfirst hasked
      rw [List.append_cons] at hmeets hpinned
      obtain ⟨hmeets, hbetween⟩ := Pool.Meets.append.mp hmeets
      have hsound := (Pool.sound_run (sound_connecting digest calls store) hmeets).1
      have hkept := (Pool.sound_run hsound hbetween).2 host _ hpin
      rw [← Pool.run_append, hpinned, Option.some.injEq] at hkept
      rw [hkept, hagree]
    | _ => trivial

end

/-- **When pins are never overwritten**: over every interleaving of any connections on any store,
pins are kept and every connection that returns its stream presented the pinned certificate,
exactly if the first contacts with each host agree. -/
theorem pinned_iff (digest : Bytes → Fingerprint) (calls : List (Text × Nat))
    (store : InMemoryTofu) (schedule : List (Nat × Handshake)) :
    PinsKept (connecting digest calls store) schedule ∧
        ReturnsPinned digest (connecting digest calls store) schedule ↔
      FirstContactsAgree digest calls store schedule := by
  constructor
  · rintro ⟨hkept, -⟩ host hstore i j leaf leaf' a b ha hb hfirst hasked
    obtain ⟨-, -, met, after, hi⟩ := id ha
    obtain ⟨-, -, met', after', hj⟩ := id hb
    obtain ⟨hnone, hpin⟩ := pin_of_first hstore ha hfirst met
    have hinitial : a <+: b := List.prefix_of_prefix_length_le ⟨_, hi.symm⟩ ⟨_, hj.symm⟩
      (hfirst _ _ _ hb)
    -- the second one looked the host up before it was pinned too
    have hfound : lookedUp digest calls store b host j = none := by
      obtain ⟨rest, rfl⟩ := hinitial
      rw [lookedUp, untilFirst_append hasked]
      exact state_none_of_initial (untilFirst_initial a) hnone
    have hpin' := pin_of_arrives hb hfound met'
    have hlast := hkept (a ++ [(i, met)]) after (by simp [hi]) host _ hpin
    rw [hkept (b ++ [(j, met')]) after' (by simp [hj]) host _ hpin', Option.some.injEq] at hlast
    exact hlast
  · intro h
    have hmeets := meets_of_agree h schedule [] (by simp)
    have hsound := sound_connecting digest calls store
    constructor
    · rintro before after rfl host f hf
      obtain ⟨hbefore, hafter⟩ := Pool.Meets.append.mp hmeets
      have hmid := (Pool.sound_run hsound hbefore).1
      rw [Pool.run_append]
      exact (Pool.sound_run hmid hafter).2 host f hf
    · rintro before turn after rfl host leaf - hret
      rw [List.append_cons] at hmeets
      have hrun := (Pool.sound_run hsound (Pool.Meets.append.mp hmeets).1).1
      exact hrun.of_ret (List.mem_of_getElem? hret) leaf rfl

/-- Two first contacts with one host, each looking the pin up before the other pins. -/
def overlappingContacts : List (Nat × Handshake) :=
  [(0, .failed []), (1, .failed []), (0, .shown [1] none), (1, .shown [2] none),
    (0, .failed []), (1, .failed []), (0, .failed []), (1, .failed [])]

/-- A digest that tells the two certificates apart. -/
def firstByte (der : Bytes) : Fingerprint := Vector.replicate 32 (der.headD 0)

theorem pin_overwritten : ¬ ∀ (digest : Bytes → Fingerprint) (calls : List (Text × Nat))
    (store : InMemoryTofu) (schedule : List (Nat × Handshake)),
    PinsKept (connecting digest calls store) schedule ∧
      ReturnsPinned digest (connecting digest calls store) schedule := by
  intro h
  obtain ⟨hkept, -⟩ := h firstByte [("example.test".toList, 1965), ("example.test".toList, 1965)]
    .new overlappingContacts
  have hfirst := hkept (overlappingContacts.take 5) (overlappingContacts.drop 5) rfl
    "example.test".toList (firstByte [1]) rfl
  have hlast : ((connecting firstByte [("example.test".toList, 1965),
      ("example.test".toList, 1965)] .new).run TofuOp.exec overlappingContacts).state.fingerprint
        "example.test".toList = some (firstByte [2]) := rfl
  rw [hlast] at hfirst
  exact absurd hfirst (by decide)

end Smolweb.Gemini
