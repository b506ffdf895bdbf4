import Smolweb.Misfin.Verify.Request
import Smolweb.Misfin.Verify.Store

/-!
# What a dispatch does to the store

A dispatch either replies at once and leaves the store alone, or admits a delivery
(`dispatch_cases`). From there the store's transactions decide: the three tables of the mail
change together or not at all (`run_deliver`), which gives the law of every reply
(`dispatch_delivers`).
-/

namespace Smolweb.Misfin

/-! ## What a dispatch admits -/

namespace Dispatcher

open MailboxStore

/-- The sender a certificate claims to be. -/
def claimedSender (crates : Crates) (cert : Bytes) (now : Nat) : Option MisfinSender :=
  let identity := parseCertificateIdentity crates cert now
  (identity.bind claimedAddress).map fun address =>
    { address, blurb := identity.bind CertificateIdentity.blurb }

structure Delivery where
  served : ServedMailbox
  recipient : MisfinAddress
  fingerprint : Text
  sender : Option MisfinSender
  message : Text

/-- The request passes every check that does not need the store. -/
structure Admits (d : Dispatcher) (crates : Crates) (request : Text) (cert : Bytes) (now : Nat)
    (dl : Delivery) : Prop where
  split : ∃ target, splitRequest request = some (target, dl.message) ∧
    parseRecipient crates target = some dl.recipient
  served : d.findMailbox dl.recipient = some dl.served
  fingerprint : dl.fingerprint = sha256Hex crates cert
  valid : (parseCertificateIdentity crates cert now).any CertificateIdentity.expired = false
  sender : dl.sender = claimedSender crates cert now
  identified : dl.sender = none → d.requireSenderIdentity = false

/-- The transactions of an admitted delivery. -/
def attempt (d : Dispatcher) (now : Nat) (dl : Delivery) : Dispatch :=
  d.checkSender dl.fingerprint now dl.sender
    (deliver dl.served dl.recipient dl.fingerprint dl.sender dl.message now)

theorem findMailbox_address {d : Dispatcher} {recipient : MisfinAddress} {served : ServedMailbox}
    (h : d.findMailbox recipient = some served) :
    served ∈ d.served ∧ served.address = recipient :=
  ⟨List.mem_of_find?_eq_some h, by simpa using List.find?_some h⟩

theorem servesHost_of_findMailbox {d : Dispatcher} {recipient : MisfinAddress}
    {served : ServedMailbox} (h : d.findMailbox recipient = some served) :
    d.servesHost recipient.host = true := by
  obtain ⟨hm, rfl⟩ := findMailbox_address h
  exact List.any_eq_true.mpr ⟨served, hm, by simp⟩

variable {d : Dispatcher} {crates : Crates} {request : Text} {now : Nat}

theorem dispatch_of_admits {cert : Bytes} {dl : Delivery}
    (h : d.Admits crates request cert now dl) :
    d.dispatch crates request (some cert) now = d.attempt now dl := by
  obtain ⟨⟨target, hsplit, hrecipient⟩, hserved, hfp, hvalid, hsender, hid⟩ := h
  have hreq : (((parseCertificateIdentity crates cert now).bind claimedAddress).isNone &&
      d.requireSenderIdentity) = false := by
    cases hc : (parseCertificateIdentity crates cert now).bind claimedAddress with
    | some address => rfl
    | none => exact hid (by rw [hsender, claimedSender, hc]; rfl)
  simp only [dispatch, hsplit, hrecipient, servesHost_of_findMailbox hserved, hserved, hvalid,
    hreq, attempt, hfp, hsender, claimedSender, Bool.not_true, Bool.false_eq_true, ite_false]

/-- **What a dispatch starts with**: a reply that leaves the store alone, or an admitted
delivery. -/
theorem dispatch_cases (d : Dispatcher) (crates : Crates) (request : Text)
    (peerCert : Option Bytes) (now : Nat) :
    (∃ reply, d.dispatch crates request peerCert now = .ret reply ∧
        reply.status ∈ [51, 53, 59, 60, 62]) ∨
      ∃ cert dl, peerCert = some cert ∧ d.Admits crates request cert now dl ∧
        d.dispatch crates request peerCert now = d.attempt now dl := by
  cases peerCert with
  | none => exact Or.inl ⟨_, rfl, by decide⟩
  | some cert =>
    unfold dispatch
    simp only
    split
    · exact Or.inl ⟨_, rfl, by decide⟩
    next target message hsplit =>
    split
    · exact Or.inl ⟨_, rfl, by decide⟩
    next recipient hrecipient =>
    split
    · exact Or.inl ⟨_, rfl, by decide⟩
    split
    · exact Or.inl ⟨_, rfl, by decide⟩
    next served hserved =>
    split
    · exact Or.inl ⟨_, rfl, by decide⟩
    next hvalid =>
    split
    · exact Or.inl ⟨_, rfl, by decide⟩
    next hreq =>
    refine Or.inr ⟨cert, ⟨served, recipient, sha256Hex crates cert,
      claimedSender crates cert now, message⟩, rfl, ?_, rfl⟩
    refine ⟨⟨target, hsplit, hrecipient⟩, hserved, rfl, by simpa using hvalid, rfl, ?_⟩
    intro hnone
    simp only [claimedSender, Option.map_eq_none_iff] at hnone
    simpa [hnone] using hreq

/-! ## Runs -/

section

variable {o : Overflow} {faults : Nat → Option Text} {s s' : MailboxStore}
  {reply : MisfinResponse}

/-- How an admitted delivery goes once its sender has passed: its message is appended and the reply
is 20, or the mail stays as it is. -/
def Settled (dl : Delivery) (now : Nat) (s s' : MailboxStore) (reply : MisfinResponse) : Prop :=
  (reply = ⟨20, dl.served.fingerprint⟩ ∧
      Appended s s' (s.delivered dl.recipient dl.fingerprint dl.sender dl.message now)) ∨
    (reply = temporaryError ∧ SameMail s s')

theorem Settled.of_sameMail {dl : Delivery} {s'' : MailboxStore} (hmail : SameMail s s')
    (h : Settled dl now s' s'' reply) : Settled dl now s s'' reply := by
  rcases h with ⟨rfl, happ⟩ | ⟨rfl, hmail'⟩
  · exact Or.inl ⟨rfl, hmail.appended happ⟩
  · exact Or.inr ⟨rfl, hmail.trans hmail'⟩

theorem run_deliver (hs : s.WellFormed) {dl : Delivery}
    (h : (deliver dl.served dl.recipient dl.fingerprint dl.sender dl.message now).run
      (StoreOp.exec o) faults s = some (reply, s')) : Settled dl now s s' reply := by
  obtain ⟨seen, s₁, hseen, hrun⟩ := Prog.run_call_eq_some.mp h
  rcases exec_recordSender hseen with ⟨e, rfl, rfl⟩ | ⟨rfl, rfl⟩
  · obtain ⟨rfl, rfl⟩ := Prog.run_ret_eq_some.mp hrun
    exact Or.inr ⟨rfl, .refl s₁⟩
  have hmail := recordSender_sameMail dl.fingerprint now s
  obtain ⟨stored, s₂, hstored, hend⟩ := Prog.run_call_eq_some.mp hrun
  rcases exec_store hstored with ⟨e, rfl, rfl⟩ | ⟨n, rfl, hst⟩
  · obtain ⟨rfl, rfl⟩ := Prog.run_ret_eq_some.mp hend
    exact Or.inr ⟨rfl, hmail⟩
  · obtain ⟨rfl, rfl⟩ := Prog.run_ret_eq_some.mp hend
    obtain ⟨happ, -⟩ := store_appended (hmail.wellFormed hs).fresh hst
    exact Or.inl ⟨rfl, hmail.appended happ⟩

/-- The whole of an admitted delivery: it settles, or the sender is refused and nothing changes. -/
theorem run_attempt (hs : s.WellFormed) {dl : Delivery}
    (h : (d.attempt now dl).run (StoreOp.exec o) faults s = some (reply, s')) :
    Settled dl now s s' reply ∨ reply.status = 63 ∧ s' = s := by
  unfold attempt checkSender at h
  cases hsender : dl.sender with
  | none =>
    rw [hsender] at h
    exact Or.inl (run_deliver hs (by rw [hsender]; exact h))
  | some sender =>
    rw [hsender] at h
    obtain ⟨check, s₁, hcheck, hrun⟩ := Prog.run_call_eq_some.mp h
    rcases exec_checkAndRecordIdentity hcheck with ⟨e, rfl, rfl⟩ | ⟨rfl, rfl⟩
    · obtain ⟨rfl, rfl⟩ := Prog.run_ret_eq_some.mp hrun
      exact Or.inl (Or.inr ⟨rfl, .refl s₁⟩)
    have hmail := checkAndRecordIdentity_sameMail sender.address.asAddrSpec dl.fingerprint now s
    have hnext : ∀ faults, (deliver dl.served dl.recipient dl.fingerprint (some sender) dl.message
        now).run (StoreOp.exec o) faults
          (s.checkAndRecordIdentity sender.address.asAddrSpec dl.fingerprint now).2 =
            some (reply, s') → Settled dl now s s' reply := fun faults hd =>
      .of_sameMail hmail (run_deliver (hmail.wellFormed hs) (by rw [hsender]; exact hd))
    cases hc : (s.checkAndRecordIdentity sender.address.asAddrSpec dl.fingerprint now).1 with
    | changed pinned =>
      rw [hc] at hrun
      simp only at hrun
      split at hrun
      · obtain ⟨rfl, rfl⟩ := Prog.run_ret_eq_some.mp hrun
        exact Or.inr ⟨rfl, checkAndRecordIdentity_changed hc⟩
      · exact Or.inl (hnext _ hrun)
    | first =>
      rw [hc] at hrun
      exact Or.inl (hnext _ hrun)
    | «match» =>
      rw [hc] at hrun
      exact Or.inl (hnext _ hrun)

/-- **Delivery is all or nothing**: a reply of 20 is sent exactly when one message was added, and
that message has the next number, is indexed under the served mailbox that was asked for, and
carries the text of the request; a refusal leaves the whole store alone, and a temporary error the
mail. -/
theorem dispatch_allOrNothing {peerCert : Option Bytes} (hs : s.WellFormed)
    (h : (d.dispatch crates request peerCert now).run (StoreOp.exec o) faults s =
      some (reply, s')) :
    (reply.status = 20 ↔ ∃ n m, Added s s' n m) ∧
      (∀ n m, Added s s' n m → Appended s s' m ∧ n = m.seq ∧
        ∃ target served, splitRequest request = some (target, m.body) ∧
          parseRecipient crates target = some served.address ∧ served ∈ d.served ∧
          m.recipient = served.address.asAddrSpec) ∧
      (reply.status ∈ [51, 53, 59, 60, 62, 63] → s' = s) ∧
      (reply.status = 40 → SameMail s s') := by
  have unchanged : reply.status ≠ 20 → SameMail s s' →
      (reply.status = 20 ↔ ∃ n m, Added s s' n m) ∧
        ∀ n m, Added s s' n m → Appended s s' m ∧ n = m.seq ∧
          ∃ target served, splitRequest request = some (target, m.body) ∧
            parseRecipient crates target = some served.address ∧ served ∈ d.served ∧
            m.recipient = served.address.asAddrSpec := by
    intro hne hmail
    refine ⟨⟨fun h20 => absurd h20 hne, ?_⟩, fun n m ha => absurd ha (hmail.not_added n m)⟩
    rintro ⟨n, m, ha⟩
    exact absurd ha (hmail.not_added n m)
  rcases dispatch_cases d crates request peerCert now with
    ⟨reply', hret, hstatus⟩ | ⟨cert, dl, rfl, hadm, hatt⟩
  · rw [hret] at h
    obtain ⟨rfl, rfl⟩ := Prog.run_ret_eq_some.mp h
    have h20 : reply'.status ≠ 20 := by
      intro h20
      rw [h20] at hstatus
      exact absurd hstatus (by decide)
    obtain ⟨h1, h2⟩ := unchanged h20 (.refl s)
    exact ⟨h1, h2, fun _ => rfl, fun _ => .refl s⟩
  rw [hatt] at h
  rcases run_attempt hs h with (⟨rfl, happ⟩ | ⟨rfl, hmail⟩) | ⟨h63, rfl⟩
  · refine ⟨⟨fun _ => ⟨_, _, happ.toAdded⟩, fun _ => rfl⟩, fun n m ha => ?_, ?_, ?_⟩
    · obtain ⟨rfl, rfl⟩ := ha.unique happ.toAdded
      obtain ⟨target, hsplit, hrecipient⟩ := hadm.split
      obtain ⟨hmem, haddr⟩ := findMailbox_address hadm.served
      exact ⟨happ, rfl, target, dl.served, hsplit, by rw [haddr]; exact hrecipient, hmem,
        by rw [haddr]; rfl⟩
    · intro hst
      simp at hst
    · intro hst
      simp at hst
  · obtain ⟨h1, h2⟩ := unchanged (by decide) hmail
    refine ⟨h1, h2, ?_, fun _ => hmail⟩
    intro hst
    exact absurd hst (by decide)
  · obtain ⟨h1, h2⟩ := unchanged (by rw [h63]; decide) (.refl s')
    exact ⟨h1, h2, fun _ => rfl, fun _ => .refl s'⟩

end

def sampleMailbox : ServedMailbox :=
  ⟨sampleRecipient, "aa11".toList⟩

def sampleDispatcher : Dispatcher := ⟨[sampleMailbox], false, true⟩

theorem dispatch_allOrNothing_sample :
    ∃ s', (sampleDispatcher.dispatch sampleCrates "misfin://mark@example.test hi there".toList
        (some []) 100).run (StoreOp.exec .checked) (fun _ => none) .empty =
          some (⟨20, "aa11".toList⟩, s') ∧
      ∃ m, Appended .empty s' m ∧ m.body = "hi there".toList := by
  obtain ⟨s', h⟩ : ∃ s', (sampleDispatcher.dispatch sampleCrates
      "misfin://mark@example.test hi there".toList (some []) 100).run (StoreOp.exec .checked)
        (fun _ => none) .empty = some (⟨20, "aa11".toList⟩, s') := ⟨_, rfl⟩
  obtain ⟨h20, hadded, -, -⟩ := dispatch_allOrNothing wellFormed_empty h
  obtain ⟨n, m, ha⟩ := h20.mp rfl
  obtain ⟨happ, -, target, served, hsplit, -⟩ := hadded n m ha
  have hs : splitRequest "misfin://mark@example.test hi there".toList =
      some ("misfin://mark@example.test".toList, "hi there".toList) := by decide
  rw [hs, Option.some.injEq, Prod.mk.injEq] at hsplit
  exact ⟨s', h, m, happ, hsplit.2.symm⟩

end Dispatcher

end Smolweb.Misfin
