import Smolweb.Lib.IndexedLog
import Smolweb.Misfin.Verify.Store

/-!
# The store as an append log

Of a run of calls on the store, the messages that were stored make up a log (`mailLog`), numbered
as the calls said. The five tables keep that log: the messages by number, their recipients in the
index, the next number in `meta`. `keeps_log_iff` is the refinement, with the one thing that bounds
it, the 64-bit counter.
-/

namespace Smolweb.Misfin

open MailboxStore

/-- The message that a call stored, if it stored one. -/
def StoreEvent.stored : StoreEvent → Option ReceivedMessage
  | ⟨.transaction (.store recipient senderFingerprint sender body receivedAt), some (.ok seq)⟩ =>
    some {
      seq
      recipient := recipient.asAddrSpec
      senderFingerprint
      senderAddress := sender.map fun sender => sender.address.asAddrSpec
      body
      receivedAt }
  | _ => none

/-- **The append log**: the messages that calls stored, in order. -/
def mailLog (events : List StoreEvent) : List ReceivedMessage := events.filterMap StoreEvent.stored

namespace MailboxStore

/-- The tables keep the log, and the messages have their places in it as numbers. -/
structure Keeps (s : MailboxStore) (log : List ReceivedMessage) : Prop where
  indexed : IndexedLog ReceivedMessage.recipient s.messages s.mailboxIndex log
  numbered : log.map ReceivedMessage.seq = List.range log.length

theorem Keeps.empty : Keeps .empty [] := ⟨IndexedLog.nil _, rfl⟩

variable {s s' : MailboxStore} {log : List ReceivedMessage}

theorem Keeps.sameMail (h : s.Keeps log) (hs : SameMail s s') : s'.Keeps log := by
  refine ⟨?_, h.numbered⟩
  rw [hs.messages, hs.mailboxIndex]
  exact h.indexed

/-- **Listing** a mailbox gives its part of the log. -/
theorem Keeps.list_eq (h : s.Keeps log) (mailbox : Text) :
    s.list mailbox = log.filter fun m => m.recipient = mailbox := by
  have hsorted : (log.filter fun m => m.recipient = mailbox).Pairwise
      fun a b => (decide (a.seq ≤ b.seq)) = true := by
    apply List.Pairwise.filter
    have := List.pairwise_le_range (n := log.length)
    rw [← h.numbered, List.pairwise_map] at this
    exact this.imp fun hle => decide_eq_true hle
  rw [list, h.indexed.select, List.mergeSort_of_pairwise hsorted]

end MailboxStore

/-! ## What one call does -/

section

variable {o : Overflow} {call : StoreCall} {fault : Option Text} {s : MailboxStore}

/-- A call that stores and does not fail. -/
def stores : StoreCall × Option Text → Bool
  | (.transaction (.store ..), none) => true
  | _ => false

/-- What a call that stored a message did to the tables. -/
structure Stored (o : Overflow) (s s' : MailboxStore) (m : ReceivedMessage) : Prop where
  seq : m.seq = s.seq
  next : o.add maxU64 s.seq 1 = some s'.seq
  messages : s'.messages = Function.update s.messages m.seq (some m)
  mailboxIndex : s'.mailboxIndex =
    Function.update s.mailboxIndex m.recipient (insert m.seq (s.mailboxIndex m.recipient))
  senders : s'.senders = s.senders

theorem stored_of_store {recipient : MisfinAddress} {senderFingerprint body : Text}
    {sender : Option MisfinSender} {receivedAt n : Nat} {s' : MailboxStore}
    (h : s.store o recipient senderFingerprint sender body receivedAt = some (n, s')) :
    n = s.seq ∧
      Stored o s s' (s.delivered recipient senderFingerprint sender body receivedAt) := by
  simp only [store, Option.bind_eq_bind, Option.bind_eq_some_iff, Option.some.injEq,
    Prod.mk.injEq] at h
  obtain ⟨next, hnext, rfl, rfl⟩ := h
  exact ⟨rfl, rfl, hnext, rfl, rfl, rfl⟩

/-- **One call** stores no message and leaves the mail alone, or stores one. -/
theorem step_cases (o : Overflow) (call : StoreCall) (fault : Option Text) (s : MailboxStore) :
    ((call.step o fault s).1.stored = none ∧ SameMail s (call.step o fault s).2) ∨
      stores (call, fault) = true ∧
        ∃ m, (call.step o fault s).1.stored = some m ∧ Stored o s (call.step o fault s).2 m := by
  cases call with
  | forgetSenderIdentity addrSpec =>
    left
    cases fault <;> exact ⟨rfl, rfl, rfl, rfl⟩
  | list mailbox =>
    left
    cases fault <;> exact ⟨rfl, .refl s⟩
  | transaction op =>
    cases op with
    | checkAndRecordIdentity addrSpec fingerprint now =>
      left
      cases fault with
      | some e => exact ⟨rfl, .refl s⟩
      | none => exact ⟨rfl, checkAndRecordIdentity_sameMail addrSpec fingerprint now s⟩
    | recordSender fingerprint now =>
      left
      cases fault with
      | some e => exact ⟨rfl, .refl s⟩
      | none => exact ⟨rfl, recordSender_sameMail fingerprint now s⟩
    | store recipient senderFingerprint sender body receivedAt =>
      cases fault with
      | some e =>
        left
        exact ⟨rfl, .refl s⟩
      | none =>
        cases hst : s.store o recipient senderFingerprint sender body receivedAt with
        | none =>
          left
          simp only [StoreCall.step, StoreCall.exec, StoreOp.exec, hst, Option.map_none]
          exact ⟨rfl, .refl s⟩
        | some r =>
          right
          obtain ⟨hn, hstored⟩ := stored_of_store hst
          simp only [StoreCall.step, StoreCall.exec, StoreOp.exec, hst, Option.map_some]
          refine ⟨rfl, _, rfl, ?_⟩
          rw [hn]
          exact hstored

/-- Where addition wraps around, a call that should store does. -/
theorem stored_wrapping (h : stores (call, fault) = true) :
    (call.step .wrapping fault s).1.stored ≠ none := by
  unfold stores at h
  split at h
  · next recipient senderFingerprint sender body receivedAt heq =>
    cases heq
    obtain ⟨next, hnext⟩ : ∃ next, Overflow.wrapping.add maxU64 s.seq 1 = some next := by
      unfold Overflow.add
      split <;> exact ⟨_, rfl⟩
    have hst : ∃ r, s.store .wrapping recipient senderFingerprint sender body receivedAt =
        some r := by
      simp only [store, hnext]
      exact ⟨_, rfl⟩
    obtain ⟨r, hst⟩ := hst
    simp only [StoreCall.step, StoreCall.exec, StoreOp.exec, hst, Option.map_some]
    exact Option.some_ne_none _
  · cases h

theorem step_call : (call.step o fault s).1.1 = call := by
  unfold StoreCall.step
  split <;> rfl

/-- A listing that went through is the store's. -/
theorem list_of_step {mailbox : Text} {messages : List ReceivedMessage}
    (h : (⟨.list mailbox, some (.ok messages)⟩ : StoreEvent) = (call.step o fault s).1) :
    messages = s.list mailbox := by
  obtain rfl : .list mailbox = call := (congrArg Sigma.fst h).trans step_call
  cases fault with
  | some e =>
    have hresult : (some (.ok messages) : Option (Except Text (List ReceivedMessage))) =
        some (.error e) := eq_of_heq (Sigma.mk.inj h).2
    cases hresult
  | none =>
    have hresult : (some (.ok messages) : Option (Except Text (List ReceivedMessage))) =
        some (.ok (s.list mailbox)) := eq_of_heq (Sigma.mk.inj h).2
    cases hresult
    rfl

theorem senders_recordSender {fingerprint fingerprint' : Text} {time now : Nat}
    (h : s.senders fingerprint = some time) :
    (s.recordSender fingerprint' now).2.senders fingerprint = some time := by
  unfold recordSender
  split
  · exact h
  · next hnone =>
    have hne : fingerprint ≠ fingerprint' := by
      rintro rfl
      rw [h] at hnone
      cases hnone
    exact (Function.update_of_ne hne _ _).trans h

theorem senders_checkAndRecordIdentity (addrSpec fingerprint : Text) (now : Nat) :
    (s.checkAndRecordIdentity addrSpec fingerprint now).2.senders = s.senders := by
  unfold checkAndRecordIdentity
  split
  · rfl
  · split <;> rfl

/-- The time a sender was first seen stays. -/
theorem senders_step {fingerprint : Text} {time : Nat} (h : s.senders fingerprint = some time) :
    (call.step o fault s).2.senders fingerprint = some time := by
  cases call with
  | forgetSenderIdentity addrSpec => cases fault <;> exact h
  | list mailbox => cases fault <;> exact h
  | transaction op =>
    cases fault with
    | some e => cases op <;> exact h
    | none =>
      cases op with
      | checkAndRecordIdentity addrSpec fingerprint now =>
        exact (congrFun (senders_checkAndRecordIdentity addrSpec fingerprint now) _).trans h
      | recordSender fingerprint now => exact senders_recordSender h
      | store recipient senderFingerprint sender body receivedAt =>
        cases hst : s.store o recipient senderFingerprint sender body receivedAt with
        | none =>
          simp only [StoreCall.step, StoreCall.exec, StoreOp.exec, hst, Option.map_none]
          exact h
        | some r =>
          simp only [StoreCall.step, StoreCall.exec, StoreOp.exec, hst, Option.map_some]
          rw [(stored_of_store hst).2.senders]
          exact h

/-! ## Whole runs -/

variable {log : List ReceivedMessage}

/-- A message with the next number is one more entry of the log. -/
theorem MailboxStore.Keeps.stored (h : s.Keeps log) {s' : MailboxStore} {m : ReceivedMessage}
    (hs : Stored o s s' m) (hseq : s.seq = log.length) : s'.Keeps (log ++ [m]) := by
  have hm : m.seq = log.length := hs.seq.trans hseq
  refine ⟨?_, ?_⟩
  · rw [hs.messages, hs.mailboxIndex, hm]
    exact h.indexed.append m
  · rw [List.map_append, h.numbered, List.length_append, List.length_singleton, List.range_succ,
      List.map_singleton, hm]

/-- The next number and the numbers given out count the log, as far as 64 bits go. -/
structure Counts (o : Overflow) (s : MailboxStore) (log : List ReceivedMessage) : Prop where
  next : s.seq = log.length % (maxU64 + 1)
  seqs : log.map ReceivedMessage.seq = (List.range log.length).map (· % (maxU64 + 1))
  checked : o = .checked → log.length ≤ maxU64

theorem Counts.empty (o : Overflow) : Counts o .empty [] := ⟨rfl, rfl, fun _ => Nat.zero_le _⟩

theorem Counts.sameMail {s' : MailboxStore} (h : Counts o s log) (hs : SameMail s s') :
    Counts o s' log := ⟨hs.seq_eq.trans h.next, h.seqs, h.checked⟩

theorem Counts.stored {s' : MailboxStore} {m : ReceivedMessage} (h : Counts o s log)
    (hs : Stored o s s' m) : Counts o s' (log ++ [m]) := by
  have hlt : log.length % (maxU64 + 1) < maxU64 + 1 := Nat.mod_lt _ (Nat.succ_pos _)
  have hmax : s.seq ≤ maxU64 := by
    rw [h.next]
    omega
  refine ⟨?_, ?_, ?_⟩
  · rw [List.length_append, List.length_singleton, Overflow.add_one_eq_mod hmax hs.next, h.next,
      Nat.mod_add_mod]
  · rw [List.map_append, h.seqs, List.length_append, List.length_singleton, List.range_succ,
      List.map_append, List.map_singleton, List.map_singleton, hs.seq, h.next]
  · intro ho
    subst ho
    have hadd := hs.next
    unfold Overflow.add at hadd
    split at hadd
    · next hle =>
      have := h.checked rfl
      rw [h.next, Nat.mod_eq_of_lt (by omega)] at hle
      simpa using hle
    · cases hadd

theorem mailLog_cons (c : StoreCall × Option Text) (calls : List (StoreCall × Option Text)) :
    mailLog (s.runCalls o (c :: calls)).1 = (c.1.step o c.2 s).1.stored.toList ++
      mailLog ((c.1.step o c.2 s).2.runCalls o calls).1 := by
  simp only [runCalls, mailLog, List.filterMap_cons]
  cases (c.1.step o c.2 s).1.stored <;> rfl

/-- Messages keep being counted. -/
theorem counts_runCalls (calls : List (StoreCall × Option Text)) (h : Counts o s log) :
    Counts o (s.runCalls o calls).2 (log ++ mailLog (s.runCalls o calls).1) := by
  induction calls generalizing s log with
  | nil => simpa [runCalls, mailLog] using h
  | cons c calls ih =>
    rw [mailLog_cons, ← List.append_assoc]
    rcases step_cases o c.1 c.2 s with ⟨hnone, hmail⟩ | ⟨-, m, hm, hstored⟩
    · rw [hnone, Option.toList_none, List.append_nil]
      exact ih (h.sameMail hmail)
    · rw [hm, Option.toList_some]
      exact ih (h.stored hstored)

/-- Until the numbers run out, the tables keep the log. -/
theorem keeps_runCalls (calls : List (StoreCall × Option Text)) (hk : s.Keeps log)
    (hc : Counts o s log)
    (hle : (log ++ mailLog (s.runCalls o calls).1).length ≤ maxU64 + 1) :
    (s.runCalls o calls).2.Keeps (log ++ mailLog (s.runCalls o calls).1) := by
  induction calls generalizing s log with
  | nil => simpa [runCalls, mailLog] using hk
  | cons c calls ih =>
    rw [mailLog_cons, ← List.append_assoc] at hle ⊢
    rcases step_cases o c.1 c.2 s with ⟨hnone, hmail⟩ | ⟨-, m, hm, hstored⟩
    · rw [hnone, Option.toList_none, List.append_nil] at hle ⊢
      exact ih (hk.sameMail hmail) (hc.sameMail hmail) hle
    · rw [hm, Option.toList_some] at hle ⊢
      have hseq : s.seq = log.length := by
        rw [List.length_append, List.length_append, List.length_singleton] at hle
        rw [hc.next, Nat.mod_eq_of_lt (by omega)]
      exact ih (hk.stored hstored hseq) (hc.stored hstored) hle

/-- Where addition wraps around, the log has one message for each call that should store. -/
theorem length_mailLog_wrapping (calls : List (StoreCall × Option Text)) :
    (mailLog (s.runCalls .wrapping calls).1).length = calls.countP stores := by
  induction calls generalizing s with
  | nil => rfl
  | cons c calls ih =>
    rw [mailLog_cons, List.length_append, ih, List.countP_cons]
    rcases step_cases .wrapping c.1 c.2 s with ⟨hnone, -⟩ | ⟨hstores, m, hm, -⟩
    · have hstores : ¬stores c = true := fun h => stored_wrapping h hnone
      simp [hnone, hstores]
    · simp [hm, show stores c = true from hstores]
      omega

theorem senders_runCalls {fingerprint : Text} {time : Nat}
    (calls : List (StoreCall × Option Text)) (h : s.senders fingerprint = some time) :
    (s.runCalls o calls).2.senders fingerprint = some time := by
  induction calls generalizing s with
  | nil => exact h
  | cons c calls ih => exact ih (senders_step h)

/-- An event of a run is a step from the state that the calls before it left. -/
theorem runCalls_split {calls : List (StoreCall × Option Text)} {before after : List StoreEvent}
    {event : StoreEvent} (h : (s.runCalls o calls).1 = before ++ event :: after) :
    ∃ earlier call fault later, calls = earlier ++ (call, fault) :: later ∧
      (s.runCalls o earlier).1 = before ∧
      event = (call.step o fault (s.runCalls o earlier).2).1 := by
  induction before generalizing s calls with
  | nil =>
    cases calls with
    | nil => cases h
    | cons c calls =>
      obtain ⟨hhead, -⟩ := List.cons.inj h
      exact ⟨[], c.1, c.2, calls, rfl, rfl, hhead.symm⟩
  | cons e before ih =>
    cases calls with
    | nil => cases h
    | cons c calls =>
      obtain ⟨hhead, htail⟩ := List.cons.inj h
      obtain ⟨earlier, call, fault, later, rfl, hbefore, hevent⟩ := ih htail
      refine ⟨c :: earlier, call, fault, later, rfl, ?_, hevent⟩
      rw [← hhead, ← hbefore]
      rfl

theorem mailLog_runCalls_append (earlier later : List (StoreCall × Option Text)) :
    (mailLog (s.runCalls o earlier).1).length ≤
      (mailLog (s.runCalls o (earlier ++ later)).1).length := by
  induction earlier generalizing s with
  | nil => exact Nat.zero_le _
  | cons c earlier ih =>
    rw [List.cons_append, mailLog_cons, mailLog_cons, List.length_append, List.length_append]
    exact Nat.add_le_add_left ih _

end

/-! ## Refinement -/

/-- The run of the calls on an empty store is one of an append log: the stored messages are
numbered by their place in it, every listing gives a mailbox's messages of the log so far, the
index points to messages of the right recipient, and the time a sender was first seen outlasts
all further calls. -/
structure AppendLog (o : Overflow) (calls : List (StoreCall × Option Text)) : Prop where
  numbered : (mailLog (empty.runCalls o calls).1).map ReceivedMessage.seq =
    List.range (mailLog (empty.runCalls o calls).1).length
  listed : ∀ before after mailbox messages,
    (empty.runCalls o calls).1 = before ++ ⟨.list mailbox, some (.ok messages)⟩ :: after →
      messages = (mailLog before).filter fun m => m.recipient = mailbox
  list : ∀ mailbox, (empty.runCalls o calls).2.list mailbox =
    (mailLog (empty.runCalls o calls).1).filter fun m => m.recipient = mailbox
  index : ∀ mailbox n, n ∈ (empty.runCalls o calls).2.mailboxIndex mailbox →
    ∃ m, (empty.runCalls o calls).2.messages n = some m ∧ m.recipient = mailbox
  senders : ∀ fingerprint time, (empty.runCalls o calls).2.senders fingerprint = some time →
    ∀ more, ((empty.runCalls o calls).2.runCalls o more).2.senders fingerprint = some time

/-- Until the numbers run out, a run is one of an append log. -/
theorem appendLog_of_le {o : Overflow} {calls : List (StoreCall × Option Text)}
    (hle : (mailLog (empty.runCalls o calls).1).length ≤ maxU64 + 1) : AppendLog o calls := by
  have hkeeps := keeps_runCalls calls .empty (.empty o) hle
  rw [List.nil_append] at hkeeps
  refine ⟨hkeeps.numbered, ?_, hkeeps.list_eq, fun _ _ => hkeeps.indexed.entry,
    fun _ _ h more => senders_runCalls more h⟩
  intro before after mailbox messages hsplit
  obtain ⟨earlier, call, fault, later, rfl, rfl, hevent⟩ := runCalls_split hsplit
  have hless := Nat.le_trans (mailLog_runCalls_append earlier _) hle
  have hearlier := keeps_runCalls earlier .empty (.empty o) hless
  rw [List.nil_append] at hearlier
  rw [← hearlier.list_eq]
  exact list_of_step hevent

/-- Past the last number the counter starts again, and a number is given out twice. -/
theorem not_appendLog {calls : List (StoreCall × Option Text)}
    (hlt : maxU64 + 1 < calls.countP stores) : ¬AppendLog .wrapping calls := by
  intro h
  have hcounts := counts_runCalls calls (.empty .wrapping)
  rw [List.nil_append] at hcounts
  have hseqs := hcounts.seqs
  rw [h.numbered, length_mailLog_wrapping] at hseqs
  have hat := congrArg (·[maxU64 + 1]?) hseqs
  simp only [List.getElem?_map, List.getElem?_range hlt, Option.map_some, Nat.mod_self,
    Option.some.injEq] at hat
  exact absurd hat (Nat.succ_ne_zero _)

/-- **Refinement**: the store is an append log in every run in which at most `2 ^ 64` messages are
stored, or of any length where overflow is checked, and in no other. -/
theorem keeps_log_iff (o : Overflow) (calls : List (StoreCall × Option Text)) :
    AppendLog o calls ↔ o = .checked ∨ calls.countP stores ≤ maxU64 + 1 := by
  cases o with
  | checked =>
    refine iff_of_true (appendLog_of_le ?_) (Or.inl rfl)
    have hcounts := counts_runCalls calls (.empty .checked)
    rw [List.nil_append] at hcounts
    exact Nat.le_succ_of_le (hcounts.checked rfl)
  | wrapping =>
    constructor
    · intro h
      right
      apply Nat.le_of_not_lt
      exact fun hlt => not_appendLog hlt h
    · rintro (h | h)
      · cases h
      · apply appendLog_of_le
        rw [length_mailLog_wrapping]
        exact h

/-- A message for the same mailbox, over and over. -/
def sampleStore : StoreCall × Option Text :=
  (.transaction (.store ⟨"mark".toList, "example.test".toList⟩ "aa11".toList none "hi".toList 100),
    none)

/-- One message more than there are numbers. -/
theorem log_wraps_around : ¬AppendLog .wrapping (List.replicate (maxU64 + 2) sampleStore) := by
  have hstores : stores sampleStore = true := rfl
  apply not_appendLog
  rw [List.countP_replicate, if_pos hstores]
  exact Nat.lt_succ_self _

end Smolweb.Misfin
