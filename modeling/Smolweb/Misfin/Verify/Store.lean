import Smolweb.Misfin.Mailbox

/-!
# What the transactions do to the store

The mail of a store is its messages, their index and the next number. `WellFormed` is the
invariant that ties the three together, `SameMail` says that a transaction left them alone, and
`Appended` that it added one message.
-/

namespace Smolweb.Misfin

namespace MailboxStore

/-- Every message is stored under its own number, below the next one, and is indexed under its
recipient and nowhere else. -/
structure WellFormed (s : MailboxStore) : Prop where
  seq_lt : ∀ n m, s.messages n = some m → n < s.seq
  seq_eq : ∀ n m, s.messages n = some m → m.seq = n
  index : ∀ spec n, n ∈ s.mailboxIndex spec ↔
    ∃ m, s.messages n = some m ∧ m.recipient = spec

/-- The messages, their index and the next number are the same. -/
structure SameMail (s s' : MailboxStore) : Prop where
  messages : s'.messages = s.messages
  mailboxIndex : s'.mailboxIndex = s.mailboxIndex
  nextSeq : s'.nextSeq = s.nextSeq

/-- `m` is the only new message, and it is held under the number `n`. -/
structure Added (s s' : MailboxStore) (n : Nat) (m : ReceivedMessage) : Prop where
  fresh : s.messages n = none
  messages : s'.messages = Function.update s.messages n (some m)

/-- `m` is the only new message; it has the next number and is indexed under its recipient. -/
structure Appended (s s' : MailboxStore) (m : ReceivedMessage) : Prop
    extends Added s s' m.seq m where
  seq : m.seq = s.seq
  mailboxIndex : s'.mailboxIndex =
    Function.update s.mailboxIndex m.recipient (insert m.seq (s.mailboxIndex m.recipient))

variable {s s' s'' : MailboxStore}

theorem wellFormed_empty : empty.WellFormed where
  seq_lt _ _ h := by cases h
  seq_eq _ _ h := by cases h
  index spec n := by simp [empty]

theorem WellFormed.fresh (h : s.WellFormed) : s.messages s.seq = none := by
  cases hm : s.messages s.seq with
  | none => rfl
  | some m => exact absurd (h.seq_lt _ _ hm) (Nat.lt_irrefl _)

namespace SameMail

theorem refl (s : MailboxStore) : SameMail s s := ⟨rfl, rfl, rfl⟩

theorem trans (h : SameMail s s') (h' : SameMail s' s'') : SameMail s s'' :=
  ⟨h'.messages.trans h.messages, h'.mailboxIndex.trans h.mailboxIndex,
    h'.nextSeq.trans h.nextSeq⟩

theorem seq_eq (h : SameMail s s') : s'.seq = s.seq := by rw [seq, seq, h.nextSeq]

theorem wellFormed (h : SameMail s s') (hs : s.WellFormed) : s'.WellFormed where
  seq_lt n m hm := by rw [h.seq_eq]; exact hs.seq_lt n m (h.messages ▸ hm)
  seq_eq n m hm := hs.seq_eq n m (h.messages ▸ hm)
  index spec n := by rw [h.mailboxIndex, h.messages]; exact hs.index spec n

end SameMail

theorem Added.unique {n n' : Nat} {m m' : ReceivedMessage} (h : Added s s' n m)
    (h' : Added s s' n' m') : n = n' ∧ m = m' := by
  have hm : s'.messages n = some m := by rw [h.messages, Function.update_self]
  rw [h'.messages] at hm
  by_cases hn : n = n'
  · subst hn
    rw [Function.update_self, Option.some.injEq] at hm
    exact ⟨rfl, hm.symm⟩
  · rw [Function.update_of_ne hn, h.fresh] at hm
    cases hm

theorem SameMail.not_added (h : SameMail s s') (n : Nat) (m : ReceivedMessage) :
    ¬Added s s' n m := by
  intro ha
  have hm : s'.messages n = some m := by rw [ha.messages, Function.update_self]
  rw [h.messages, ha.fresh] at hm
  cases hm

theorem recordSender_sameMail (fingerprint : Text) (now : Nat) (s : MailboxStore) :
    SameMail s (s.recordSender fingerprint now).2 := by
  unfold recordSender
  split
  · exact .refl s
  · exact ⟨rfl, rfl, rfl⟩

theorem checkAndRecordIdentity_sameMail (addrSpec fingerprint : Text) (now : Nat)
    (s : MailboxStore) : SameMail s (s.checkAndRecordIdentity addrSpec fingerprint now).2 := by
  unfold checkAndRecordIdentity
  split
  · exact ⟨rfl, rfl, rfl⟩
  · split <;> exact .refl s

theorem checkAndRecordIdentity_changed {addrSpec fingerprint pinned : Text} {now : Nat}
    {s : MailboxStore}
    (h : (s.checkAndRecordIdentity addrSpec fingerprint now).1 = .changed pinned) :
    (s.checkAndRecordIdentity addrSpec fingerprint now).2 = s := by
  unfold checkAndRecordIdentity at h ⊢
  split
  · next hn => simp [hn] at h
  · split <;> rfl

/-- The message that `store` writes. -/
def delivered (s : MailboxStore) (recipient : MisfinAddress) (senderFingerprint : Text)
    (sender : Option MisfinSender) (body : Text) (receivedAt : Nat) : ReceivedMessage where
  seq := s.seq
  recipient := recipient.asAddrSpec
  senderFingerprint := senderFingerprint
  senderAddress := sender.map fun sender => sender.address.asAddrSpec
  body := body
  receivedAt := receivedAt

/-- `store` appends one message and changes nothing else but the next number. -/
theorem store_appended {o : Overflow} {recipient : MisfinAddress} {fingerprint : Text}
    {sender : Option MisfinSender} {body : Text} {now n : Nat} (hs : s.messages s.seq = none)
    (h : s.store o recipient fingerprint sender body now = some (n, s')) :
    Appended s s' (s.delivered recipient fingerprint sender body now) ∧
      s'.nextSeq = o.add maxU64 s.seq 1 ∧
      s'.senders = s.senders ∧ s'.senderIdentities = s.senderIdentities := by
  simp only [store, Option.bind_eq_bind, Option.bind_eq_some_iff, Option.some.injEq,
    Prod.mk.injEq] at h
  obtain ⟨next, hnext, -, rfl⟩ := h
  exact ⟨⟨⟨hs, rfl⟩, rfl, rfl⟩, hnext.symm, rfl, rfl⟩

theorem SameMail.appended (h : SameMail s s') {recipient : MisfinAddress} {fingerprint : Text}
    {sender : Option MisfinSender} {body : Text} {now : Nat}
    (happ : Appended s' s'' (s'.delivered recipient fingerprint sender body now)) :
    Appended s s'' (s.delivered recipient fingerprint sender body now) := by
  have hd : s'.delivered recipient fingerprint sender body now =
      s.delivered recipient fingerprint sender body now := by
    rw [delivered, delivered, h.seq_eq]
  rw [hd] at happ
  refine ⟨⟨?_, ?_⟩, happ.seq.trans h.seq_eq, ?_⟩
  · rw [← h.messages]
    exact happ.fresh
  · rw [← h.messages]
    exact happ.messages
  · rw [← h.mailboxIndex]
    exact happ.mailboxIndex

namespace Appended

variable {m : ReceivedMessage} (h : Appended s s' m)
include h

theorem messages_self : s'.messages m.seq = some m := by rw [h.messages, Function.update_self]

theorem messages_of_ne {n : Nat} (hn : n ≠ m.seq) : s'.messages n = s.messages n := by
  rw [h.messages, Function.update_of_ne hn]

theorem wellFormed (hs : s.WellFormed) (hseq : s'.seq = s.seq + 1) : s'.WellFormed where
  seq_lt n m' hm := by
    by_cases hn : n = m.seq
    · rw [hseq, hn, h.seq]
      omega
    · rw [h.messages_of_ne hn] at hm
      have := hs.seq_lt n m' hm
      omega
  seq_eq n m' hm := by
    by_cases hn : n = m.seq
    · subst hn
      rw [h.messages_self, Option.some.injEq] at hm
      rw [hm]
    · rw [h.messages_of_ne hn] at hm
      exact hs.seq_eq n m' hm
  index spec n := by
    rw [h.mailboxIndex]
    by_cases hn : n = m.seq
    · subst hn
      have hnot : m.seq ∉ s.mailboxIndex spec := by
        rw [hs.index, h.fresh]
        rintro ⟨m', hm', -⟩
        cases hm'
      rw [h.messages_self]
      by_cases hspec : spec = m.recipient
      · subst hspec
        simp
      · simp [Function.update_of_ne hspec, hnot, Ne.symm hspec]
    · rw [h.messages_of_ne hn, ← hs.index]
      by_cases hspec : spec = m.recipient
      · subst hspec
        simp [hn]
      · rw [Function.update_of_ne hspec]

end Appended

theorem store_wellFormed {o : Overflow} {recipient : MisfinAddress} {fingerprint : Text}
    {sender : Option MisfinSender} {body : Text} {now n : Nat} (hs : s.WellFormed)
    (hseq : s.seq < maxU64) (h : s.store o recipient fingerprint sender body now = some (n, s')) :
    s'.WellFormed := by
  obtain ⟨happ, hnext, -, -⟩ := store_appended hs.fresh h
  rw [Overflow.add_of_le o (show s.seq + 1 ≤ maxU64 by omega)] at hnext
  exact happ.wellFormed hs (by rw [seq, hnext]; rfl)

end MailboxStore

/-! ## Transactions that may fail -/

section

variable {o : Overflow} {fault : Option Text} {s s' : MailboxStore}

/-- Each transaction fails without effect or does its work. -/
theorem exec_checkAndRecordIdentity {addrSpec fingerprint : Text} {now : Nat}
    {r : Except Text IdentityCheck}
    (h : StoreOp.exec o (.checkAndRecordIdentity addrSpec fingerprint now) fault s =
      some (r, s')) :
    (∃ e, r = .error e ∧ s' = s) ∨
      r = .ok (s.checkAndRecordIdentity addrSpec fingerprint now).1 ∧
        s' = (s.checkAndRecordIdentity addrSpec fingerprint now).2 := by
  cases fault with
  | some e =>
    cases h
    exact Or.inl ⟨e, rfl, rfl⟩
  | none =>
    cases h
    exact Or.inr ⟨rfl, rfl⟩

theorem exec_recordSender {fingerprint : Text} {now : Nat} {r : Except Text SenderSeen}
    (h : StoreOp.exec o (.recordSender fingerprint now) fault s = some (r, s')) :
    (∃ e, r = .error e ∧ s' = s) ∨ r = .ok (s.recordSender fingerprint now).1 ∧
      s' = (s.recordSender fingerprint now).2 := by
  cases fault with
  | some e =>
    cases h
    exact Or.inl ⟨e, rfl, rfl⟩
  | none =>
    cases h
    exact Or.inr ⟨rfl, rfl⟩

theorem exec_store {recipient : MisfinAddress} {fingerprint : Text} {sender : Option MisfinSender}
    {body : Text} {now : Nat} {r : Except Text Nat}
    (h : StoreOp.exec o (.store recipient fingerprint sender body now) fault s = some (r, s')) :
    (∃ e, r = .error e ∧ s' = s) ∨
      ∃ n, r = .ok n ∧ s.store o recipient fingerprint sender body now = some (n, s') := by
  cases fault with
  | some e =>
    cases h
    exact Or.inl ⟨e, rfl, rfl⟩
  | none =>
    obtain ⟨⟨n, t⟩, hst, heq⟩ := Option.map_eq_some_iff.mp h
    cases heq
    exact Or.inr ⟨n, rfl, hst⟩

open MailboxStore in
theorem exec_wellFormed {op : StoreOp} {r : StoreOp.Result op} (hs : s.WellFormed)
    (hseq : s.seq < maxU64) (h : StoreOp.exec o op fault s = some (r, s')) : s'.WellFormed := by
  cases op with
  | checkAndRecordIdentity addrSpec fingerprint now =>
    rcases exec_checkAndRecordIdentity h with ⟨e, -, rfl⟩ | ⟨-, rfl⟩
    · exact hs
    · exact (checkAndRecordIdentity_sameMail ..).wellFormed hs
  | recordSender fingerprint now =>
    rcases exec_recordSender h with ⟨e, -, rfl⟩ | ⟨-, rfl⟩
    · exact hs
    · exact (recordSender_sameMail ..).wellFormed hs
  | store recipient fingerprint sender body now =>
    rcases exec_store h with ⟨e, -, rfl⟩ | ⟨n, -, hst⟩
    · exact hs
    · exact store_wellFormed hs hseq hst

end

/-- **Every store a pool of programs reaches is well formed**, until the numbers run out. -/
theorem pool_wellFormed {o : Overflow} {α : Type} {p : Pool StoreOp.Result MailboxStore α}
    (hs : p.state.WellFormed) {schedule : List (Nat × Option Text)}
    (hm : p.Meets (StoreOp.exec o) (fun _ _ s => s.seq < maxU64) schedule) :
    (p.run (StoreOp.exec o) schedule).state.WellFormed := by
  let G : Guarantee MailboxStore := ⟨MailboxStore.WellFormed, fun _ _ => True, fun _ => trivial,
    fun _ _ => trivial⟩
  have hexec : ∀ (op : StoreOp) (i : Option Text) (s : MailboxStore) (r : op.Result)
      (s' : MailboxStore), G.inv s → s.seq < maxU64 → StoreOp.exec o op i s = some (r, s') →
        G.rel s s' ∧ G.inv s' :=
    fun _ _ _ _ _ hinv hseq he => ⟨trivial, exec_wellFormed hinv hseq he⟩
  have hsound : p.Sound (StoreOp.exec o) (fun _ _ s => s.seq < maxU64) G (fun _ _ => True) :=
    ⟨hs, fun t _ => Prog.safe_of_exec hexec t _⟩
  exact (Pool.sound_run hsound hm).1.inv

end Smolweb.Misfin
