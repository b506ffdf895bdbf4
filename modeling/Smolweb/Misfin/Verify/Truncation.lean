import Smolweb.Misfin.Verify.Delivery
import Smolweb.Misfin.Verify.Tofu

/-!
# Half-received messages

A stream that ends without a CRLF is dispatched like a whole line, and line breaks before a CRLF
are trimmed with it (`Mangled`). `stores_whole_line_iff` says which streams therefore make the
server store something else than the message of a terminated line.
-/

namespace Smolweb.Misfin

open MailboxStore

/-- Text that the server takes for a request although it is not the line before a CRLF within the
ceiling, or not all of it. -/
inductive Mangled (stream : Bytes) : Text → Prop
  /-- The stream ends before any CRLF. -/
  | unterminated {text : Text} (hcrlf : crlfPosition stream = none)
      (hlen : stream.length < maxRequestBytes) (htext : Utf8.decode stream = some text) :
      Mangled stream text
  /-- The line before the CRLF itself ends in a line break. -/
  | lineBreak {p : Nat} {text : Text} {c : Char} (hcrlf : crlfPosition stream = some p)
      (hlen : p + 2 ≤ maxRequestBytes) (htext : Utf8.decode (stream.take p) = some text)
      (hlast : text.getLast? = some c) (hbreak : Text.isLineBreak c = true) :
      Mangled stream text

/-- The body is the message of the line before the first CRLF, which lies within the ceiling. -/
def WholeLine (stream : Bytes) (body : Text) : Prop :=
  ∃ p text target, crlfPosition stream = some p ∧ p + 2 ≤ maxRequestBytes ∧
    Utf8.decode (stream.take p) = some text ∧ splitRequest text = some (target, body)

/-! ## The text that is dispatched -/

theorem readRequest_mangled {stream : Bytes} {text : Text} (h : Mangled stream text) :
    readRequest stream .closed = .ok (.line (Text.trimEndMatches Text.isLineBreak text)) := by
  cases h with
  | unterminated hcrlf hlen htext =>
    rw [readRequest_of_no_crlf hcrlf hlen, requestLine, htext]
  | lineBreak hcrlf hlen htext hlast hbreak =>
    rw [readRequest_of_crlf hcrlf hlen, requestLine_crlf htext]

/-- A line that is dispatched is whole, or comes of mangled text. -/
theorem readRequest_whole_or_mangled {stream : Bytes} {line : Text}
    (h : readRequest stream .closed = .ok (.line line)) :
    (∃ p, crlfPosition stream = some p ∧ p + 2 ≤ maxRequestBytes ∧
        Utf8.decode (stream.take p) = some line) ∨
      ∃ text, Mangled stream text ∧ line = Text.trimEndMatches Text.isLineBreak text := by
  rcases readRequest_line h with ⟨p, hp, hle, hline⟩ | ⟨hp, hlt, hline⟩
  · cases htext : Utf8.decode (stream.take p) with
    | none =>
      rw [requestLine, decode_append_crlf, htext] at hline
      cases hline
    | some text =>
      rw [requestLine_crlf htext, RequestRead.line.injEq] at hline
      by_cases hlast : ∃ c, text.getLast? = some c ∧ Text.isLineBreak c = true
      · obtain ⟨c, hc, hbreak⟩ := hlast
        exact Or.inr ⟨text, .lineBreak hp hle htext hc hbreak, hline.symm⟩
      · have hself : Text.trimEndMatches Text.isLineBreak text = text := by
          refine Text.trimEndMatches_eq_self_iff.mpr fun c hc => ?_
          cases hb : Text.isLineBreak c with
          | false => rfl
          | true => exact absurd ⟨c, hc, hb⟩ hlast
        rw [hself] at hline
        exact Or.inl ⟨p, hp, hle, by rw [htext, hline]⟩
  · unfold requestLine at hline
    split at hline
    · next text htext =>
      rw [RequestRead.line.injEq] at hline
      exact Or.inr ⟨text, .unterminated hp hlt htext, hline.symm⟩
    · cases hline

/-- What a request is split into grows with the text after it. -/
theorem splitRequest_append {request target message : Text}
    (h : splitRequest request = some (target, message)) (u : Text) :
    splitRequest (request ++ u) = some (target, message ++ u) := by
  simp only [splitRequest, Option.bind_eq_bind, Option.bind_eq_some_iff] at h ⊢
  obtain ⟨⟨a, b⟩, hsplit, hscheme⟩ := h
  obtain ⟨heq, ha⟩ := Text.splitOnce_eq_some_iff.mp hsplit
  have hstart : Text.trimStart (request ++ u) = Text.trimStart request ++ u := by
    unfold Text.trimStart at heq ⊢
    rw [List.dropWhile_append, heq]
    cases a <;> rfl
  refine ⟨(a, b ++ u), ?_, ?_⟩
  · rw [hstart, heq, List.append_assoc, List.cons_append]
    exact Text.splitOnce_append ha _
  · split at hscheme
    · next hpre =>
      cases hscheme
      rw [if_pos hpre]
    · cases hscheme

/-- The message that mangled text is stored with is not that of a whole line. -/
theorem not_wholeLine_of_mangled {stream : Bytes} {text target body : Text}
    (h : Mangled stream text)
    (hsplit : splitRequest (Text.trimEndMatches Text.isLineBreak text) = some (target, body)) :
    ¬WholeLine stream body := by
  rintro ⟨p, text', target', hp, -, htext', hsplit'⟩
  cases h with
  | unterminated hcrlf =>
    rw [hcrlf] at hp
    cases hp
  | lineBreak hcrlf hlen htext hlast hbreak =>
    rw [hcrlf, Option.some.injEq] at hp
    subst hp
    rw [htext, Option.some.injEq] at htext'
    subst htext'
    obtain ⟨u, hu⟩ := Text.trimEndMatches_initial Text.isLineBreak text
    have hgrown := splitRequest_append hsplit u
    rw [hu, hsplit', Option.some.injEq, Prod.mk.injEq] at hgrown
    have hnil : u = [] := by simpa using hgrown.2
    rw [hnil, List.append_nil] at hu
    have := Text.trimEndMatches_eq_self_iff.mp hu _ hlast
    rw [hbreak] at this
    cases this

/-! ## Which deliveries the store lets through -/

namespace Dispatcher

variable {d : Dispatcher} {now : Nat} {s s' : MailboxStore}

/-- The claimed sender is not pinned to another fingerprint, or that is not checked. -/
def Unconflicted (d : Dispatcher) (dl : Delivery) (s : MailboxStore) : Prop :=
  d.rejectChangedSender = true → ∀ sender, dl.sender = some sender →
    ∀ f, s.pinned sender.address.asAddrSpec = some f → f = dl.fingerprint

theorem checkAndRecordIdentity_changed_iff {addrSpec fingerprint f : Text} (now : Nat)
    {s : MailboxStore} :
    (s.checkAndRecordIdentity addrSpec fingerprint now).1 = .changed f ↔
      s.pinned addrSpec = some f ∧ f ≠ fingerprint := by
  unfold checkAndRecordIdentity pinned
  cases hpin : s.senderIdentities addrSpec with
  | none => simp
  | some pin =>
    by_cases heq : pin.fingerprint = fingerprint
    · simp only [heq, ite_true, Option.map_some, Option.some.injEq, reduceCtorEq, false_iff,
        not_and, ne_eq, not_not]
      exact fun h => h.symm
    · simp only [heq, ite_false, Option.map_some, Option.some.injEq, IdentityCheck.changed.injEq,
        ne_eq]
      exact ⟨fun h => ⟨h, h ▸ heq⟩, fun h => h.1⟩

theorem unconflicted_of_run {o : Overflow} {faults : Nat → Option Text} {dl : Delivery}
    {reply : MisfinResponse}
    (h : (d.attempt now dl).run (StoreOp.exec o) faults s = some (reply, s'))
    (h20 : reply.status = 20) : d.Unconflicted dl s := by
  intro hd sender hsender f hf
  by_contra hne
  have hchanged := (checkAndRecordIdentity_changed_iff now).mpr ⟨hf, hne⟩
  simp only [attempt, checkSender, hsender] at h
  obtain ⟨check, s₁, hcheck, hrun⟩ := Prog.run_call_eq_some.mp h
  rcases exec_checkAndRecordIdentity hcheck with ⟨e, rfl, rfl⟩ | ⟨rfl, rfl⟩
  · obtain ⟨rfl, -⟩ := Prog.run_ret_eq_some.mp hrun
    exact absurd h20 (by decide)
  · rw [hchanged] at hrun
    simp only [hd, ite_true] at hrun
    obtain ⟨rfl, -⟩ := Prog.run_ret_eq_some.mp hrun
    exact absurd h20 (by decide)

theorem wrapping_add (max a b : Nat) : ∃ n, Overflow.wrapping.add max a b = some n := by
  unfold Overflow.add
  split <;> exact ⟨_, rfl⟩

theorem deliver_delivers (dl : Delivery) (now : Nat) (s : MailboxStore) :
    ∃ s', (deliver dl.served dl.recipient dl.fingerprint dl.sender dl.message now).run
      (StoreOp.exec .wrapping) (fun _ => none) s = some (⟨20, dl.served.fingerprint⟩, s') := by
  obtain ⟨n, hn⟩ := wrapping_add maxU64 (s.recordSender dl.fingerprint now).2.seq 1
  have hstore : ∃ r, (s.recordSender dl.fingerprint now).2.store .wrapping dl.recipient
      dl.fingerprint dl.sender dl.message now = some r := by
    simp only [store, hn]
    exact ⟨_, rfl⟩
  obtain ⟨⟨seq, s'⟩, hstore⟩ := hstore
  refine ⟨s', Prog.run_call_eq_some.mpr ⟨.ok _, _, rfl, ?_⟩⟩
  refine Prog.run_call_eq_some.mpr ⟨.ok seq, s', ?_, rfl⟩
  exact Option.map_eq_some_iff.mpr ⟨_, hstore, rfl⟩

theorem attempt_delivers {dl : Delivery} (h : d.Unconflicted dl s) (now : Nat) :
    ∃ s', (d.attempt now dl).run (StoreOp.exec .wrapping) (fun _ => none) s =
      some (⟨20, dl.served.fingerprint⟩, s') := by
  cases hsender : dl.sender with
  | none =>
    obtain ⟨s', hrun⟩ := deliver_delivers dl now s
    refine ⟨s', ?_⟩
    simp only [attempt, checkSender, hsender] at hrun ⊢
    exact hrun
  | some sender =>
    obtain ⟨s', hrun⟩ := deliver_delivers dl now
      (s.checkAndRecordIdentity sender.address.asAddrSpec dl.fingerprint now).2
    rw [hsender] at hrun
    refine ⟨s', ?_⟩
    simp only [attempt, checkSender, hsender]
    refine Prog.run_call_eq_some.mpr ⟨.ok _, _, rfl, ?_⟩
    cases hc : (s.checkAndRecordIdentity sender.address.asAddrSpec dl.fingerprint now).1 with
    | changed f =>
      obtain ⟨hf, hne⟩ := (checkAndRecordIdentity_changed_iff _).mp hc
      have hd : d.rejectChangedSender = false := by
        cases hd : d.rejectChangedSender with
        | false => rfl
        | true => exact absurd (h hd sender hsender f hf) hne
      simp only [hd, Bool.false_eq_true, ite_false]
      exact hrun
    | first => exact hrun
    | «match» => exact hrun

end Dispatcher

/-! ## What a connection stores -/

section

variable {d : Dispatcher} {crates : Crates} {stream : Bytes} {peerCert : Option Bytes} {now : Nat}
  {s s' : MailboxStore} {o : Overflow} {faults : Nat → Option Text}

theorem handleConnection_added (hs : s.WellFormed) {reply : Option MisfinResponse}
    (h : (handleConnection d crates stream .closed peerCert now).run (StoreOp.exec o) faults s =
      some (reply, s')) {n : Nat} {m : ReceivedMessage} (ha : Added s s' n m) :
    ∃ line cert dl, readRequest stream .closed = .ok (.line line) ∧ peerCert = some cert ∧
      d.Admits crates line cert now dl ∧ d.Unconflicted dl s ∧ m.body = dl.message := by
  unfold handleConnection at h
  split at h
  · next line hread =>
    rw [Prog.run_map, Option.map_eq_some_iff] at h
    obtain ⟨⟨reply', s₁⟩, hrun, heq⟩ := h
    cases heq
    rcases Dispatcher.dispatch_cases d crates line peerCert now with
      ⟨reply'', hret, -⟩ | ⟨cert, dl, hcert, hadm, hatt⟩
    · rw [hret] at hrun
      obtain ⟨-, rfl⟩ := Prog.run_ret_eq_some.mp hrun
      exact absurd ha ((SameMail.refl _).not_added n m)
    · rw [hatt] at hrun
      refine ⟨line, cert, dl, hread, hcert, hadm, ?_⟩
      rcases Dispatcher.run_attempt hs hrun with (⟨rfl, happ⟩ | ⟨-, hmail⟩) | ⟨-, rfl⟩
      · obtain ⟨-, rfl⟩ := ha.unique happ.toAdded
        exact ⟨Dispatcher.unconflicted_of_run hrun rfl, rfl⟩
      · exact absurd ha (hmail.not_added n m)
      · exact absurd ha ((SameMail.refl _).not_added n m)
  · obtain ⟨-, rfl⟩ := Prog.run_ret_eq_some.mp h
    exact absurd ha ((SameMail.refl _).not_added n m)
  · obtain ⟨-, rfl⟩ := Prog.run_ret_eq_some.mp h
    exact absurd ha ((SameMail.refl _).not_added n m)
  · obtain ⟨-, rfl⟩ := Prog.run_ret_eq_some.mp h
    exact absurd ha ((SameMail.refl _).not_added n m)

theorem handleConnection_stores (hs : s.WellFormed) {line : Text} {cert : Bytes}
    {dl : Dispatcher.Delivery} (hread : readRequest stream .closed = .ok (.line line))
    (hadm : d.Admits crates line cert now dl) (hun : d.Unconflicted dl s) :
    ∃ reply s' m, (handleConnection d crates stream .closed (some cert) now).run
      (StoreOp.exec .wrapping) (fun _ => none) s = some (reply, s') ∧ Added s s' m.seq m ∧
        m.body = dl.message := by
  obtain ⟨s', hrun⟩ := Dispatcher.attempt_delivers hun now
  have hsettled := Dispatcher.run_attempt hs hrun
  rcases hsettled with (⟨-, happ⟩ | ⟨h40, -⟩) | ⟨h63, -⟩
  · refine ⟨some ⟨20, dl.served.fingerprint⟩, s', _, ?_, happ.toAdded, rfl⟩
    rw [handleConnection, hread]
    simp only
    rw [Prog.run_map, Dispatcher.dispatch_of_admits hadm, hrun]
    rfl
  · have := congrArg MisfinResponse.status h40
    simp [Dispatcher.temporaryError, MisfinResponse.new] at this
  · simp at h63

/-- **When only whole lines are stored**: whatever the build and whichever transactions fail, a
stored message is that of the line before a CRLF within the ceiling, exactly when the stream is not
mangled text that the server admits and the pins let through. -/
theorem stores_whole_line_iff (hs : s.WellFormed) :
    (∀ o faults reply s', (handleConnection d crates stream .closed peerCert now).run
        (StoreOp.exec o) faults s = some (reply, s') →
        ∀ n m, Added s s' n m → WholeLine stream m.body) ↔
      ¬∃ text cert dl, Mangled stream text ∧ peerCert = some cert ∧
        d.Admits crates (Text.trimEndMatches Text.isLineBreak text) cert now dl ∧
        d.Unconflicted dl s := by
  constructor
  · rintro h ⟨text, cert, dl, hmangled, rfl, hadm, hun⟩
    obtain ⟨reply, s', m, hrun, ha, hbody⟩ :=
      handleConnection_stores hs (readRequest_mangled hmangled) hadm hun
    obtain ⟨target, hsplit, -⟩ := hadm.split
    have := h _ _ reply s' hrun _ m ha
    rw [hbody] at this
    exact not_wholeLine_of_mangled hmangled hsplit this
  · intro h o faults reply s' hrun n m ha
    obtain ⟨line, cert, dl, hread, hcert, hadm, hun, hbody⟩ := handleConnection_added hs hrun ha
    rcases readRequest_whole_or_mangled hread with ⟨p, hp, hle, htext⟩ | ⟨text, hmangled, rfl⟩
    · obtain ⟨target, hsplit, -⟩ := hadm.split
      exact ⟨p, line, target, hp, hle, htext, by rw [hbody]; exact hsplit⟩
    · exact absurd ⟨text, cert, dl, hmangled, hcert, hadm, hun⟩ h

end

open Dispatcher in
theorem admits_sample : sampleDispatcher.Admits sampleCrates
    "misfin://mark@example.test half a mess".toList [] 100 ⟨sampleMailbox, sampleRecipient,
      sha256Hex sampleCrates [], none, "half a mess".toList⟩ where
  split := ⟨"misfin://mark@example.test".toList, by decide, rfl⟩
  served := rfl
  fingerprint := rfl
  valid := rfl
  sender := rfl
  identified _ := rfl

theorem mangled_sample :
    Mangled (Utf8.encode "misfin://mark@example.test half a mess".toList)
      "misfin://mark@example.test half a mess".toList :=
  .unterminated (by decide) (by decide) (Utf8.decode_encode _)

theorem stores_whole_line_iff_sample :
    (∀ o faults reply s', (handleConnection Dispatcher.sampleDispatcher sampleCrates
        (Utf8.encode "misfin://mark@example.test half a mess".toList) .closed (some []) 100).run
          (StoreOp.exec o) faults .empty = some (reply, s') →
        ∀ n m, Added .empty s' n m →
          WholeLine (Utf8.encode "misfin://mark@example.test half a mess".toList) m.body) ↔
      ¬∃ text cert dl, Mangled (Utf8.encode "misfin://mark@example.test half a mess".toList) text ∧
        some [] = some cert ∧ Dispatcher.sampleDispatcher.Admits sampleCrates
          (Text.trimEndMatches Text.isLineBreak text) cert 100 dl ∧
        Dispatcher.sampleDispatcher.Unconflicted dl .empty :=
  stores_whole_line_iff wellFormed_empty

/-- A message cut off in the middle of its line is stored. -/
theorem stores_half_line : ¬ ∀ (d : Dispatcher) (crates : Crates) (stream : Bytes)
    (peerCert : Option Bytes) (now : Nat) (s : MailboxStore), s.WellFormed →
    ∀ o faults reply s', (handleConnection d crates stream .closed peerCert now).run
      (StoreOp.exec o) faults s = some (reply, s') →
      ∀ n m, Added s s' n m → WholeLine stream m.body := by
  intro h
  have hread := readRequest_mangled mangled_sample
  have htrim : Text.trimEndMatches Text.isLineBreak
      "misfin://mark@example.test half a mess".toList =
        "misfin://mark@example.test half a mess".toList := by decide
  rw [htrim] at hread
  obtain ⟨reply, s', m, hrun, ha, -⟩ := handleConnection_stores wellFormed_empty hread
    admits_sample (fun _ sender hs => by cases hs)
  obtain ⟨p, text, target, hp, -⟩ := h _ _ _ _ _ _ wellFormed_empty _ _ _ _ hrun _ _ ha
  have hnone : crlfPosition (Utf8.encode "misfin://mark@example.test half a mess".toList) = none :=
    by decide
  rw [hnone] at hp
  cases hp

end Smolweb.Misfin
