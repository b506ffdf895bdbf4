import Smolweb.Misfin.Verify.Delivery

/-!
# Trust on first use in the mailbox store

The store pins each claimed address to the fingerprint that first used it. `PinsHold` links the
pins to the messages: a message from a claimed address carries the pinned fingerprint. Every
transaction of a dispatch upholds it and keeps every pin (`safe_dispatch`), in whatever order the
transactions of concurrent dispatches fall.
-/

namespace Smolweb.Misfin

open MailboxStore

namespace MailboxStore

/-- The fingerprint an address is pinned to. -/
def pinned (s : MailboxStore) (addrSpec : Text) : Option Text :=
  (s.senderIdentities addrSpec).map PinnedIdentity.fingerprint

/-- Every message from a claimed address carries the fingerprint the address is pinned to. -/
def PinsHold (s : MailboxStore) : Prop :=
  ∀ n m a, s.messages n = some m → m.senderAddress = some a →
    s.pinned a = some m.senderFingerprint

/-- No pin is lost or changed. -/
def PinsKept (s s' : MailboxStore) : Prop :=
  ∀ a f, s.pinned a = some f → s'.pinned a = some f

theorem PinsHold.of_messages {s s' : MailboxStore} (h : s.PinsHold)
    (hm : s'.messages = s.messages) (hp : s.PinsKept s') : s'.PinsHold := by
  intro n m a hn ha
  rw [hm] at hn
  exact hp a _ (h n m a hn ha)

theorem checkAndRecordIdentity_pinsKept (addrSpec fingerprint : Text) (now : Nat)
    (s : MailboxStore) : s.PinsKept (s.checkAndRecordIdentity addrSpec fingerprint now).2 := by
  intro a f hf
  unfold checkAndRecordIdentity
  split
  · next hnone =>
    have hne : a ≠ addrSpec := by
      rintro rfl
      simp [pinned, hnone] at hf
    simpa [pinned, Function.update_of_ne hne] using hf
  · split <;> exact hf

theorem checkAndRecordIdentity_pinned {addrSpec fingerprint : Text} {now : Nat}
    {s : MailboxStore}
    (h : ∀ f, (s.checkAndRecordIdentity addrSpec fingerprint now).1 ≠ .changed f) :
    (s.checkAndRecordIdentity addrSpec fingerprint now).2.pinned addrSpec = some fingerprint := by
  unfold checkAndRecordIdentity at h ⊢
  split
  · simp [pinned]
  · next pin hpin =>
    split
    · next heq => simp [pinned, hpin, heq]
    · next hne =>
      simp only [hpin, if_neg hne] at h
      exact absurd rfl (h _)

theorem recordSender_pins (fingerprint : Text) (now : Nat) (s : MailboxStore) :
    (s.recordSender fingerprint now).2.senderIdentities = s.senderIdentities := by
  unfold recordSender
  split <;> rfl

theorem PinsKept.of_eq {s s' : MailboxStore} (h : s'.senderIdentities = s.senderIdentities) :
    s.PinsKept s' := by
  intro a f hf
  rwa [pinned, h]

theorem store_pinsHold {o : Overflow} {recipient : MisfinAddress} {fingerprint : Text}
    {sender : Option MisfinSender} {body : Text} {now n : Nat} {s s' : MailboxStore}
    (hs : s.PinsHold)
    (hpin : ∀ sender', sender = some sender' →
      s.pinned sender'.address.asAddrSpec = some fingerprint)
    (h : s.store o recipient fingerprint sender body now = some (n, s')) :
    s.PinsKept s' ∧ s'.PinsHold := by
  simp only [store, Option.bind_eq_bind, Option.bind_eq_some_iff, Option.some.injEq,
    Prod.mk.injEq] at h
  obtain ⟨next, -, -, rfl⟩ := h
  refine ⟨.of_eq rfl, ?_⟩
  intro k m a hk ha
  by_cases hseq : k = s.seq
  · subst hseq
    simp only [Function.update_self, Option.some.injEq] at hk
    subst hk
    obtain ⟨sender', hsender, rfl⟩ := Option.map_eq_some_iff.mp ha
    exact hpin sender' hsender
  · simp only [Function.update_of_ne hseq] at hk
    exact hs k m a hk ha

end MailboxStore

/-! ## A dispatch among others -/

/-- What every transaction of a dispatch upholds. -/
def tofu : Guarantee MailboxStore where
  inv := PinsHold
  rel := PinsKept
  refl _ _ _ h := h
  trans h h' a f hf := h' a f (h a f hf)

namespace Dispatcher

variable {o : Overflow} {crates : Crates} {d : Dispatcher}

/-- Transactions may fail as the scheduler likes. -/
abbrev anyStep : StoreOp → Option Text → MailboxStore → Prop := fun _ _ _ => True

/-- A reply of 20 is sent only where the sender, if one is claimed, is pinned to the fingerprint. -/
def PinnedReply (fingerprint : Text) (sender : Option MisfinSender) (reply : MisfinResponse)
    (s : MailboxStore) : Prop :=
  reply.status = 20 → ∀ sender', sender = some sender' →
    s.pinned sender'.address.asAddrSpec = some fingerprint

theorem safe_ret {fingerprint : Text} {sender : Option MisfinSender} {reply : MisfinResponse}
    (h : reply.status ≠ 20) (s : MailboxStore) :
    (Prog.ret reply : Dispatch).Safe (StoreOp.exec o) anyStep tofu
      (PinnedReply fingerprint sender) s :=
  fun _ _ _ h20 => absurd h20 h

/-- Once the claimed sender is pinned, the rest of the delivery is safe. -/
theorem safe_deliver {served : ServedMailbox} {recipient : MisfinAddress} {fingerprint : Text}
    {sender : Option MisfinSender} {message : Text} {now : Nat} {s : MailboxStore}
    (hpin : ∀ sender', sender = some sender' →
      s.pinned sender'.address.asAddrSpec = some fingerprint) :
    (deliver served recipient fingerprint sender message now).Safe (StoreOp.exec o) anyStep tofu
      (PinnedReply fingerprint sender) s := by
  intro s₁ hrel₁ hinv₁ fault seen s₂ _ hseen
  have hpin₁ : ∀ sender', sender = some sender' →
      s₁.pinned sender'.address.asAddrSpec = some fingerprint := fun sender' h =>
    hrel₁ _ _ (hpin sender' h)
  rcases exec_recordSender hseen with ⟨e, rfl, rfl⟩ | ⟨rfl, rfl⟩
  · exact ⟨tofu.refl _, hinv₁, safe_ret (by decide) _⟩
  have hkept : PinsKept s₁ (s₁.recordSender fingerprint now).2 :=
    .of_eq (recordSender_pins fingerprint now s₁)
  refine ⟨hkept, PinsHold.of_messages hinv₁ (recordSender_sameMail ..).messages hkept, ?_⟩
  intro s₃ hrel₃ hinv₃ fault stored s₄ _ hstored
  have hpin₃ : ∀ sender', sender = some sender' →
      s₃.pinned sender'.address.asAddrSpec = some fingerprint := fun sender' h =>
    hrel₃ _ _ (hkept _ _ (hpin₁ sender' h))
  rcases exec_store hstored with ⟨e, rfl, rfl⟩ | ⟨n, rfl, hst⟩
  · exact ⟨tofu.refl _, hinv₃, safe_ret (by decide) _⟩
  · obtain ⟨hkept₄, hinv₄⟩ := store_pinsHold hinv₃ hpin₃ hst
    refine ⟨hkept₄, hinv₄, ?_⟩
    intro s₅ hrel₅ _ _ sender' h
    exact hrel₅ _ _ (hkept₄ _ _ (hpin₃ sender' h))

/-- An admitted delivery is safe from any state when changed senders are rejected. -/
theorem safe_attempt (hd : d.rejectChangedSender = true) (dl : Delivery) (now : Nat)
    (s : MailboxStore) :
    (d.attempt now dl).Safe (StoreOp.exec o) anyStep tofu
      (PinnedReply dl.fingerprint dl.sender) s := by
  unfold attempt checkSender
  cases hsender : dl.sender with
  | none => exact safe_deliver (by simp)
  | some sender =>
    intro s₁ _ hinv₁ fault check s₂ _ hcheck
    rcases exec_checkAndRecordIdentity hcheck with ⟨e, rfl, rfl⟩ | ⟨rfl, rfl⟩
    · exact ⟨tofu.refl _, hinv₁, safe_ret (by decide) _⟩
    have hkept := checkAndRecordIdentity_pinsKept sender.address.asAddrSpec dl.fingerprint now s₁
    refine ⟨hkept, PinsHold.of_messages hinv₁ (checkAndRecordIdentity_sameMail ..).messages hkept,
      ?_⟩
    have hnext : (∀ f, (s₁.checkAndRecordIdentity sender.address.asAddrSpec dl.fingerprint
        now).1 ≠ .changed f) → (deliver dl.served dl.recipient dl.fingerprint (some sender)
          dl.message now).Safe (StoreOp.exec o) anyStep tofu
            (PinnedReply dl.fingerprint (some sender))
            (s₁.checkAndRecordIdentity sender.address.asAddrSpec dl.fingerprint now).2 := by
      intro hne
      refine safe_deliver fun sender' h => ?_
      cases h
      exact checkAndRecordIdentity_pinned hne
    cases hc : (s₁.checkAndRecordIdentity sender.address.asAddrSpec dl.fingerprint now).1 with
    | changed f =>
      simp only [hd, ite_true]
      exact safe_ret (by decide) _
    | first => exact hnext (by simp [hc])
    | «match» => exact hnext (by simp [hc])

theorem safe_dispatch (hd : d.rejectChangedSender = true) (request : Text) (cert : Bytes)
    (now : Nat) (s : MailboxStore) :
    (d.dispatch crates request (some cert) now).Safe (StoreOp.exec o) anyStep tofu
      (PinnedReply (sha256Hex crates cert) (claimedSender crates cert now)) s := by
  rcases dispatch_cases d crates request (some cert) now with
    ⟨reply, hret, hstatus⟩ | ⟨cert', dl, hcert, hadm, hatt⟩
  · rw [hret]
    refine safe_ret (fun h20 => ?_) s
    rw [h20] at hstatus
    exact absurd hstatus (by decide)
  · cases hcert
    rw [hatt, ← hadm.fingerprint, ← hadm.sender]
    exact safe_attempt hd dl now s

/-! ## Every interleaving -/

/-- One call of `dispatch`. -/
structure Call where
  request : Text
  peerCert : Option Bytes
  now : Nat

/-- The program of a call; it ends with the call and its reply. -/
def Call.program (d : Dispatcher) (crates : Crates) (call : Call) :
    Prog StoreOp.Result (Call × MisfinResponse) :=
  (d.dispatch crates call.request call.peerCert call.now).map fun reply => (call, reply)

/-- The calls as concurrent threads on one store. -/
def serving (d : Dispatcher) (crates : Crates) (calls : List Call) (s : MailboxStore) :
    Pool StoreOp.Result MailboxStore (Call × MisfinResponse) where
  state := s
  threads := calls.map fun call => some (call.program d crates)

/-- A call whose certificate claims a sender is answered 20 only where that sender is pinned to the
certificate's fingerprint. -/
def PinnedCall (crates : Crates) (ended : Call × MisfinResponse) (s : MailboxStore) : Prop :=
  ∀ cert sender, ended.1.peerCert = some cert →
    claimedSender crates cert ended.1.now = some sender → ended.2.status = 20 →
    s.pinned sender.address.asAddrSpec = some (sha256Hex crates cert)

theorem safe_program (hd : d.rejectChangedSender = true) (call : Call) (s : MailboxStore) :
    (call.program d crates).Safe (StoreOp.exec o) anyStep tofu (PinnedCall crates) s := by
  unfold Call.program
  rw [Prog.safe_map]
  cases hcert : call.peerCert with
  | none =>
    intro s' _ _ cert sender h
    rw [hcert] at h
    cases h
  | some cert =>
    refine (safe_dispatch hd call.request cert call.now s).imp fun reply s' h => ?_
    intro cert' sender hcert' hsender h20
    rw [hcert] at hcert'
    cases hcert'
    exact h h20 sender hsender

/-- **Trust on first use**: whatever calls run concurrently on an empty store, and however their
transactions interleave and fail, from any point of the run on every pin stays, every message from
a claimed address carries the fingerprint the address is pinned to, and a call whose certificate
claims an address was answered 20 only if the address is pinned to the certificate's own
fingerprint. -/
theorem serving_pins (hd : d.rejectChangedSender = true) (calls : List Call)
    (before after : List (Nat × Option Text)) :
    let mid := (serving d crates calls .empty).run (StoreOp.exec o) before
    let final := mid.run (StoreOp.exec o) after
    (∀ a f, mid.state.pinned a = some f → final.state.pinned a = some f) ∧
      (∀ n m a, mid.state.messages n = some m → m.senderAddress = some a →
        final.state.pinned a = some m.senderFingerprint) ∧
      ∀ call reply, some (.ret (call, reply)) ∈ mid.threads →
        ∀ cert sender, call.peerCert = some cert →
          claimedSender crates cert call.now = some sender → reply.status = 20 →
          final.state.pinned sender.address.asAddrSpec = some (sha256Hex crates cert) := by
  intro mid final
  have hstart : (serving d crates calls .empty).Sound (StoreOp.exec o) anyStep tofu
      (PinnedCall crates) := by
    refine ⟨fun n m a hn => (by cases hn), fun t ht => ?_⟩
    obtain ⟨call, -, heq⟩ := List.mem_map.mp ht
    cases heq
    exact safe_program hd call _
  have hany : ∀ p : Pool StoreOp.Result MailboxStore (Call × MisfinResponse), ∀ schedule,
      p.Meets (StoreOp.exec o) anyStep schedule := fun p schedule =>
    Pool.Meets.of_forall (fun _ _ _ => trivial) p schedule
  obtain ⟨hmid, -⟩ := Pool.sound_run hstart (hany _ before)
  obtain ⟨-, hkept⟩ := Pool.sound_run hmid (hany _ after)
  refine ⟨hkept, fun n m a hn ha => hkept a _ (hmid.inv n m a hn ha), ?_⟩
  intro call reply ht cert sender hcert hsender h20
  exact hkept _ _ (hmid.of_ret ht cert sender hcert hsender h20)

/-- Two certificates that both claim to be `ana@other.test`. -/
def contestedCrates : Crates where
  parseUrl := sampleCrates.parseUrl
  fromDer _ := some ⟨[(.userId, some "ana".toList)], some [.dnsName "other.test".toList], 0, 1000⟩
  isTimestamp _ := true
  sha256 der := der

def contestedCall (cert : Bytes) : Call :=
  ⟨"misfin://mark@example.test hi".toList, some cert, 100⟩

/-- The second certificate comes between the first one's check and its message, and is refused. -/
theorem serving_pins_contested :
    let final := (serving sampleDispatcher contestedCrates [contestedCall [1], contestedCall [2]]
      .empty).run (StoreOp.exec .checked) [(0, none), (1, none), (0, none), (0, none)]
    some (.ret (contestedCall [1], ⟨20, "aa11".toList⟩)) ∈ final.threads ∧
      final.state.pinned "ana@other.test".toList = some "01".toList := by
  have hmem : some (.ret (contestedCall [1], ⟨20, "aa11".toList⟩)) ∈
      ((serving sampleDispatcher contestedCrates [contestedCall [1], contestedCall [2]]
        .empty).run (StoreOp.exec .checked) [(0, none), (1, none), (0, none), (0, none)]).threads :=
    List.mem_of_getElem? (i := 0) rfl
  exact ⟨hmem, (serving_pins rfl [contestedCall [1], contestedCall [2]]
    [(0, none), (1, none), (0, none), (0, none)] []).2.2 _ _ hmem [1]
      ⟨⟨"ana".toList, "other.test".toList⟩, none⟩ rfl rfl rfl⟩

end Dispatcher

end Smolweb.Misfin
