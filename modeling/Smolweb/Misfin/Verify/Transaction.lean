import Smolweb.Misfin.Verify.Delivery
import Smolweb.Misfin.Verify.Reply

/-!
# A misfin transaction, from end to end

A reply is read back as it was sent exactly if its meta is one that a line can carry
(`receipt_iff`). The client's receipt is the server's reply, and it says that the message is
delivered exactly if the server's store has one message more, which is the one that was sent
(`send_tells`). With a fingerprint pinned that is not the server's, nothing is sent and nothing
changes.
-/

namespace Smolweb.Misfin

open DuplexM MailboxStore

/-! ## Every reply is readable -/

theorem MisfinResponse.readable_iff (reply : MisfinResponse) : reply.Readable ↔
    reply.status < 100 ∧ reply.metaText.CrlfFree ∧
      Text.trimEndMatches Text.isLineBreak reply.metaText = reply.metaText ∧
        (Utf8.encode reply.encode).length ≤ maxRequestBytes := by
  rw [Text.trimEndMatches_eq_self_iff]
  exact ⟨fun h => ⟨h.status, h.crlfFree, h.last, h.fits⟩, fun ⟨h1, h2, h3, h4⟩ => ⟨h1, h2, h3, h4⟩⟩

instance (reply : MisfinResponse) : Decidable reply.Readable :=
  decidable_of_iff _ reply.readable_iff.symm

/-- The mailbox's fingerprint can be sent to whoever delivers to it. -/
def ServedMailbox.Reportable (served : ServedMailbox) : Prop :=
  MisfinResponse.Readable ⟨20, served.fingerprint⟩

namespace Dispatcher

variable {d : Dispatcher}

theorem ends_deliver {served : ServedMailbox} (h : served.Reportable) (recipient : MisfinAddress)
    (fingerprint : Text) (sender : Option MisfinSender) (message : Text) (now : Nat) :
    (deliver served recipient fingerprint sender message now).Ends MisfinResponse.Readable := by
  have htemporary : temporaryError.Readable := by decide +kernel
  refine .call fun seen => ?_
  cases seen with
  | error e => exact .ret htemporary
  | ok seen =>
    refine .call fun stored => ?_
    cases stored with
    | error e => exact .ret htemporary
    | ok n => exact .ret h

theorem ends_checkSender {next : Dispatch} (h : next.Ends MisfinResponse.Readable)
    (d : Dispatcher) (fingerprint : Text) (now : Nat) (sender : Option MisfinSender) :
    (d.checkSender fingerprint now sender next).Ends MisfinResponse.Readable := by
  cases sender with
  | none => exact h
  | some sender =>
    refine .call fun check => ?_
    cases check with
    | error e => exact .ret (by decide +kernel)
    | ok check =>
      cases check with
      | first => exact h
      | «match» => exact h
      | changed pinned =>
        simp only
        split
        · exact .ret (by decide +kernel)
        · exact h

theorem ends_dispatch (hserved : ∀ served ∈ d.served, served.Reportable) (crates : Crates)
    (request : Text) (peerCert : Option Bytes) (now : Nat) :
    (d.dispatch crates request peerCert now).Ends MisfinResponse.Readable := by
  cases peerCert with
  | none => exact .ret (by decide +kernel)
  | some cert =>
    unfold dispatch
    simp only
    split
    · exact .ret (by decide +kernel)
    split
    · exact .ret (by decide +kernel)
    split
    · exact .ret (by decide +kernel)
    split
    · exact .ret (by decide +kernel)
    next served hfind =>
    split
    · exact .ret (by decide +kernel)
    split
    · exact .ret (by decide +kernel)
    · exact ends_checkSender (ends_deliver (hserved _ (findMailbox_address hfind).1) ..) ..

end Dispatcher

/-! ## The two ends -/

/-- The pinned fingerprint, if there is one, is the server's. -/
def SendOptions.Trusts (options : SendOptions) (fingerprint : Text) : Prop :=
  ∀ expected, options.expectedFingerprint = some expected →
    normalizeFingerprint expected = fingerprint

/-- What is done with the response line. -/
def receiptOf (serverFingerprint : Text) (line : Text) :
    DuplexM UInt8 SendFailure SendReceipt :=
  match parseResponseLine line with
  | .error error => throw (.badResponse error)
  | .ok (status, metaText) => return { status, metaText, serverFingerprint }

theorem reads_receiptOf (serverFingerprint line : Text) :
    Reads (receiptOf serverFingerprint line) := by
  unfold receiptOf
  split
  · exact .throw _
  · exact .pure _

section

variable {crates : Crates} {recipient : MisfinAddress} {message request : Text}
  {options : SendOptions} {cert : Bytes}

theorem send_of_trusts (hb : buildRequest recipient message = .ok request)
    (h : options.Trusts (sha256Hex crates cert)) :
    send crates recipient message options (some cert) =
      DuplexM.write (Utf8.encode request) >>= fun _ =>
        readResponseLine >>= receiptOf (sha256Hex crates cert) := by
  have hfilter : options.expectedFingerprint.filter
      (normalizeFingerprint · ≠ sha256Hex crates cert) = none := by
    rw [Option.filter_eq_none_iff]
    intro expected hexpected
    simp [h expected hexpected]
  rw [send, hb]
  simp only [hfilter]
  rfl

theorem says_send_of_trusts (hb : buildRequest recipient message = .ok request)
    (h : options.Trusts (sha256Hex crates cert)) :
    (send crates recipient message options (some cert)).Says (Utf8.encode request) := by
  rw [send_of_trusts hb h]
  exact .write_bind _ (reads_readResponseLine.bind fun line => reads_receiptOf _ line)

theorem send_of_not_trusts (hb : buildRequest recipient message = .ok request)
    (h : ¬options.Trusts (sha256Hex crates cert)) :
    ∃ expected, options.expectedFingerprint = some expected ∧
      send crates recipient message options (some cert) = throw (.fingerprintMismatch
        (normalizeFingerprint expected) (sha256Hex crates cert)) := by
  unfold SendOptions.Trusts at h
  push Not at h
  obtain ⟨expected, hexpected, hne⟩ := h
  refine ⟨expected, hexpected, ?_⟩
  rw [send, hb, hexpected]
  simp only [Option.filter_some, ne_eq, hne, not_false_eq_true, decide_true, ite_true]

theorem on_send_of_trusts (hb : buildRequest recipient message = .ok request)
    (h : options.Trusts (sha256Hex crates cert)) {stream written : Bytes} {line : Text}
    (hline : (readResponseLine.on ⟨stream, written ++ Utf8.encode request⟩).1 = .ok line) :
    ((send crates recipient message options (some cert)).on ⟨stream, written⟩).1 =
      ((parseResponseLine line).mapError SendFailure.badResponse).map fun read =>
        ⟨read.1, read.2, sha256Hex crates cert⟩ := by
  rw [send_of_trusts hb h, on_write_bind, on_bind]
  rcases hread : readResponseLine.on ⟨stream, written ++ Utf8.encode request⟩ with ⟨line', s⟩
  rw [hread] at hline
  obtain rfl : line' = .ok line := hline
  simp only [receiptOf]
  cases parseResponseLine line <;> rfl

theorem on_send_of_readable (hb : buildRequest recipient message = .ok request)
    (h : options.Trusts (sha256Hex crates cert)) {reply : MisfinResponse}
    (hreply : reply.Readable) (rest written : Bytes) :
    ((send crates recipient message options (some cert)).on
      ⟨Utf8.encode reply.encode ++ rest, written⟩).1 =
      .ok ⟨.fromCode reply.status, reply.metaText, sha256Hex crates cert⟩ := by
  rw [on_send_of_trusts hb h (on_readResponseLine hreply rest _),
    (parseResponseLine_encode_iff reply).mpr ⟨hreply.status, hreply.last⟩]
  rfl

/-- **When a reply is read back** as it was sent, if it is within the client's ceiling: its status
has two digits, and its meta neither holds a CRLF nor ends in a line break. -/
theorem receipt_iff (hb : buildRequest recipient message = .ok request)
    (h : options.Trusts (sha256Hex crates cert)) {reply : MisfinResponse}
    (hfits : (Utf8.encode reply.encode).length ≤ maxRequestBytes) (rest written : Bytes) :
    ((send crates recipient message options (some cert)).on
        ⟨Utf8.encode reply.encode ++ rest, written⟩).1 =
        .ok ⟨.fromCode reply.status, reply.metaText, sha256Hex crates cert⟩ ↔
      reply.status < 100 ∧ reply.metaText.CrlfFree ∧
        ∀ c, reply.metaText.getLast? = some c → Text.isLineBreak c = false := by
  constructor
  · intro hread
    -- what is read is the line up to the first CRLF, which may be one of the meta
    obtain ⟨line, after, hsplit, hline⟩ := Text.exists_line (t := reply.encode)
      (List.suffix_append _ _).isInfix
    have hstream : Utf8.encode reply.encode ++ rest =
        Utf8.encode line ++ crlf ++ (Utf8.encode after ++ rest) := by
      rw [hsplit, Utf8.encode_append, Utf8.encode_append, encode_crlf, List.append_assoc]
    have hshort : (Utf8.encode line).length + 2 ≤ maxRequestBytes := by
      rw [hsplit, Utf8.encode_append, Utf8.encode_append, encode_crlf, List.length_append,
        List.length_append] at hfits
      have hcrlf : crlf.length = 2 := rfl
      omega
    rw [hstream, on_send_of_trusts hb h (on_readResponseLine_line hline hshort _ _)] at hread
    cases hparse : parseResponseLine (line ++ ['\r', '\n']) with
    | error e =>
      rw [hparse] at hread
      cases hread
    | ok parsed =>
      obtain ⟨status, metaText⟩ := parsed
      rw [hparse] at hread
      obtain ⟨rfl, rfl, -⟩ := SendReceipt.mk.inj (Except.ok.inj hread)
      have hcode := code_lt_of_parseResponseLine hparse
      rw [MisfinStatus.code_fromCode] at hcode
      have hsuffix := suffix_of_parseResponseLine hparse
      have hlast := Text.trimEndMatches_eq_self_of_suffix hsuffix
        (List.rdropWhile_idempotent _ _)
      rw [Text.trimEndMatches_append _ (by simp [Text.isLineBreak])] at hsuffix
      refine ⟨hcode, fun hi => hline ?_, Text.trimEndMatches_eq_self_iff.mp hlast⟩
      exact hi.trans (hsuffix.isInfix.trans (Text.trimEndMatches_initial _ line).isInfix)
  · rintro ⟨hstatus, hcrlf, hlast⟩
    exact on_send_of_readable hb h ⟨hstatus, hcrlf, hlast, hfits⟩ rest written

end

/-- A meta that spaces lead and end, with more on the stream behind it. -/
theorem receipt_iff_sample :
    ((send sampleCrates sampleRecipient "hi there".toList {} (some [])).on
        ⟨Utf8.encode (MisfinResponse.encode ⟨20, "  aa11 ".toList⟩) ++ [13, 10, 50], []⟩).1 =
        .ok ⟨.delivered, "  aa11 ".toList, sha256Hex sampleCrates []⟩ ↔
      20 < 100 ∧ Text.CrlfFree "  aa11 ".toList ∧
        ∀ c, "  aa11 ".toList.getLast? = some c → Text.isLineBreak c = false :=
  have hbuild : buildRequest sampleRecipient "hi there".toList =
      .ok "misfin://mark@example.test hi there\r\n".toList := rfl
  receipt_iff hbuild (fun _ h => by cases h) (by decide +kernel) _ _

/-! ## What a receipt tells -/

/-- What a receipt says about the store of the server that it comes from. -/
structure SendReceipt.Tells (receipt : SendReceipt) (d : Dispatcher) (recipient : MisfinAddress)
    (message : Text) (sender : Option Text) (s s' : MailboxStore) : Prop where
  delivered_iff : receipt.status = .delivered ↔ ∃ m, Appended s s' m
  message : ∀ n m, Added s s' n m → Appended s s' m ∧ n = m.seq ∧
    m.recipient = recipient.asAddrSpec ∧ m.body = message ∧ sender = some m.senderFingerprint ∧
      ∃ served ∈ d.served, served.address = recipient ∧ receipt.metaText = served.fingerprint
  kept : receipt.status ≠ .delivered → SameMail s s'
  refused : receipt.status.isSuccess = false → receipt.status ≠ .temporaryError → s' = s

theorem MisfinStatus.fromCode_eq_delivered_iff {n : Nat} : fromCode n = .delivered ↔ n = 20 := by
  constructor
  · intro h
    have hcode := congrArg code h
    rwa [code_fromCode] at hcode
  · rintro rfl
    rfl

theorem SendReceipt.Tells.of_sameMail {receipt : SendReceipt} (h : receipt.status ≠ .delivered)
    {s s' : MailboxStore} (hmail : SameMail s s')
    (hrefused : receipt.status ≠ .temporaryError → s' = s) (d : Dispatcher)
    (recipient : MisfinAddress) (message : Text) (sender : Option Text) :
    receipt.Tells d recipient message sender s s' where
  delivered_iff :=
    ⟨fun hd => absurd hd h, fun ⟨m, hm⟩ => absurd hm.toAdded (hmail.not_added m.seq m)⟩
  message n m hm := absurd hm (hmail.not_added n m)
  kept _ := hmail
  refused _ := hrefused

section

variable {d : Dispatcher} {crates : Crates} {recipient : MisfinAddress} {s s' : MailboxStore}
  {o : Overflow} {faults : Nat → Option Text} {now : Nat}

theorem tells_of_dispatch (hs : s.WellFormed) {line target message : Text}
    (hsplit : splitRequest line = some (target, message))
    (hrecipient : parseRecipient crates target = some recipient) {peerCert : Option Bytes}
    {reply : MisfinResponse}
    (hrun : (d.dispatch crates line peerCert now).run (StoreOp.exec o) faults s =
      some (reply, s')) (serverFingerprint : Text) :
    SendReceipt.Tells ⟨.fromCode reply.status, reply.metaText, serverFingerprint⟩ d recipient
      message (peerCert.map (sha256Hex crates)) s s' := by
  have hother (h : reply.status ≠ 20) : MisfinStatus.fromCode reply.status ≠ .delivered :=
    fun hd => h (MisfinStatus.fromCode_eq_delivered_iff.mp hd)
  rcases Dispatcher.dispatch_cases d crates line peerCert now with
    ⟨reply', hret, hstatus⟩ | ⟨cert, dl, rfl, hadm, hatt⟩
  · rw [hret] at hrun
    obtain ⟨rfl, rfl⟩ := Prog.run_ret_eq_some.mp hrun
    refine .of_sameMail (hother fun h20 => ?_) (.refl s) (fun _ => rfl) ..
    rw [h20] at hstatus
    exact absurd hstatus (by decide)
  rw [hatt] at hrun
  rcases Dispatcher.run_attempt hs hrun with (⟨rfl, happ⟩ | ⟨rfl, hmail⟩) | ⟨h63, rfl⟩
  · obtain ⟨target', hsplit', hrecipient'⟩ := hadm.split
    rw [hsplit, Option.some.injEq, Prod.mk.injEq] at hsplit'
    obtain ⟨rfl, rfl⟩ := hsplit'
    rw [hrecipient, Option.some.injEq] at hrecipient'
    obtain ⟨hmem, haddress⟩ := Dispatcher.findMailbox_address hadm.served
    have hsuccess : (MisfinStatus.fromCode 20).isSuccess = true := rfl
    refine ⟨⟨fun _ => ⟨_, happ⟩, fun _ => rfl⟩, fun n m ha => ?_, fun h => absurd rfl h,
      fun h => absurd (hsuccess.symm.trans h) (by decide)⟩
    obtain ⟨rfl, rfl⟩ := ha.unique happ.toAdded
    refine ⟨happ, rfl, by rw [hrecipient']; rfl, rfl, ?_, dl.served, hmem, ?_, rfl⟩
    · rw [Option.map_some, ← hadm.fingerprint]
      rfl
    · rw [haddress, hrecipient']
  · exact .of_sameMail (hother (by decide)) hmail (fun h => absurd rfl h) ..
  · exact .of_sameMail (hother (by rw [h63]; decide)) (.refl s') (fun _ => rfl) ..

/-- A connection that is closed before a request changes nothing. -/
theorem run_handleConnection_nil {last : StreamEnd} {peerCert : Option Bytes}
    {reply? : Option MisfinResponse}
    (h : (handleConnection d crates [] last peerCert now).run (StoreOp.exec o) faults s =
      some (reply?, s')) : s' = s := by
  cases last with
  | closed =>
    have hread : readRequest [] .closed = .ok (.line []) := rfl
    rw [handleConnection, hread] at h
    cases peerCert with
    | none => exact (Prog.run_ret_eq_some.mp h).2.symm
    | some cert => exact (Prog.run_ret_eq_some.mp h).2.symm
  | failed e => exact (Prog.run_ret_eq_some.mp h).2.symm
  | timedOut => exact (Prog.run_ret_eq_some.mp h).2.symm

/-- **What a transaction comes to**, for both ends and any store that the server's transactions
reach: a server that is not the pinned one is told nothing and keeps its store; otherwise the
client's receipt is the server's reply and tells what has become of the message. -/
theorem send_tells {α : Type} {pool : Pool StoreOp.Result MailboxStore α}
    (hpool : pool.state.WellFormed) {schedule : List (Nat × Option Text)} {o' : Overflow}
    (hroom : pool.Meets (StoreOp.exec o') (fun _ _ s => s.seq < maxU64) schedule)
    (hreached : (pool.run (StoreOp.exec o') schedule).state = s) (hurl : crates.SerialisedUrls)
    (hr : parseRecipient crates ("misfin://".toList ++ recipient.asAddrSpec) = some recipient)
    {message request : Text} (hb : buildRequest recipient message = .ok request)
    (hserved : ∀ served ∈ d.served, served.Reportable) (options : SendOptions) (cert : Bytes) :
    ∃ out, (send crates recipient message options (some cert)).Says out ∧
      ∀ (last : StreamEnd) (now : Nat) (o : Overflow) (faults : Nat → Option Text)
        (reply? : Option MisfinResponse) (s' : MailboxStore),
        (handleConnection d crates out last options.identity now).run (StoreOp.exec o) faults s =
          some (reply?, s') →
        (options.Trusts (sha256Hex crates cert) → ∃ reply receipt, reply? = some reply ∧
          ((send crates recipient message options (some cert)).on
            ⟨Utf8.encode reply.encode, []⟩).1 = .ok receipt ∧
          receipt = ⟨.fromCode reply.status, reply.metaText, sha256Hex crates cert⟩ ∧
          receipt.Tells d recipient (Text.trimEndMatches Text.isLineBreak message)
            (options.identity.map (sha256Hex crates)) s s') ∧
        (¬options.Trusts (sha256Hex crates cert) → s' = s ∧ ∃ expected,
          options.expectedFingerprint = some expected ∧
            send crates recipient message options (some cert) = throw (.fingerprintMismatch
              (normalizeFingerprint expected) (sha256Hex crates cert))) := by
  have hs : s.WellFormed := hreached ▸ pool_wellFormed hpool hroom
  by_cases htrusts : options.Trusts (sha256Hex crates cert)
  · refine ⟨Utf8.encode request, says_send_of_trusts hb htrusts,
      fun last now o faults reply? s' hrun => ⟨fun _ => ?_, fun h => absurd htrusts h⟩⟩
    obtain ⟨line, hread, hsplit⟩ := readRequest_buildRequest hurl hr hb [] last
    rw [List.append_nil] at hread
    rw [handleConnection, hread] at hrun
    simp only at hrun
    rw [Prog.run_map, Option.map_eq_some_iff] at hrun
    obtain ⟨⟨reply, s₁⟩, hdispatch, heq⟩ := hrun
    cases heq
    have hreadable := (Dispatcher.ends_dispatch hserved crates line options.identity now).of_run
      hdispatch
    have hsend := on_send_of_readable hb htrusts hreadable [] []
    rw [List.append_nil] at hsend
    exact ⟨reply, _, rfl, hsend, rfl,
      tells_of_dispatch hs hsplit hr hdispatch _⟩
  · obtain ⟨expected, hexpected, hsend⟩ := send_of_not_trusts hb htrusts
    refine ⟨[], ?_, fun last now o faults reply? s' hrun =>
      ⟨fun h => absurd h htrusts, fun _ => ⟨run_handleConnection_nil hrun, expected, hexpected,
        hsend⟩⟩⟩
    rw [hsend]
    intro stream
    exact (List.append_nil _).symm

end

/-- A message that is delivered, over a connection that is left open behind it. -/
theorem send_tells_sample : ∃ out s' m,
    (send sampleCrates sampleRecipient "hi there".toList { identity := some [] } (some [])).Says
        out ∧
      (handleConnection Dispatcher.sampleDispatcher sampleCrates out .timedOut (some []) 100).run
        (StoreOp.exec .checked) (fun _ => none) .empty =
          some (some ⟨20, "aa11".toList⟩, s') ∧
      Appended .empty s' m ∧ m.body = "hi there".toList := by
  have hserved : ∀ served ∈ Dispatcher.sampleDispatcher.served, served.Reportable := by
    intro served h
    obtain rfl := List.mem_singleton.mp h
    exact (by decide +kernel : MisfinResponse.Readable ⟨20, "aa11".toList⟩)
  have hbuild : buildRequest sampleRecipient "hi there".toList =
      .ok "misfin://mark@example.test hi there\r\n".toList := rfl
  have htrusts : ({ identity := some [] } : SendOptions).Trusts (sha256Hex sampleCrates []) :=
    fun _ h => by cases h
  let pool : Pool StoreOp.Result MailboxStore Unit := ⟨.empty, []⟩
  have hroom : pool.Meets (StoreOp.exec .checked) (fun _ _ s => s.seq < maxU64) [] := trivial
  have hreached : (pool.run (StoreOp.exec .checked) []).state = .empty := rfl
  obtain ⟨out, hsays, hruns⟩ := send_tells wellFormed_empty hroom hreached
    sampleCrates_serialisedUrls rfl hbuild hserved { identity := some [] } []
  obtain rfl := hsays.unique (says_send_of_trusts hbuild htrusts)
  obtain ⟨s', hrun⟩ : ∃ s', (handleConnection Dispatcher.sampleDispatcher sampleCrates
      (Utf8.encode "misfin://mark@example.test hi there\r\n".toList) .timedOut (some []) 100).run
        (StoreOp.exec .checked) (fun _ => none) .empty =
          some (some ⟨20, "aa11".toList⟩, s') := ⟨_, rfl⟩
  obtain ⟨reply, receipt, hreply, -, rfl, htells⟩ :=
    (hruns .timedOut 100 .checked _ _ s' hrun).1 htrusts
  cases hreply
  obtain ⟨m, happ⟩ := htells.delivered_iff.mp rfl
  obtain ⟨-, -, -, hbody, -⟩ := htells.message _ _ happ.toAdded
  exact ⟨_, s', m, hsays, hrun, happ, hbody⟩

end Smolweb.Misfin
