import Smolweb.Lib.StreamLine

/-!
# A client and a server on one stream

In a protocol of one request and one reply, what the client says does not depend on what it hears
(`Says`), and the server has said its reply once it has heard the request, however the stream goes
on (`Answers`). `Dialogue client server r` puts the two together: the client ends with `r`.
-/

namespace Smolweb

namespace DuplexM

variable {β ε ε' α γ : Type}

/-- `p` says `out`, whatever it hears. -/
def Says (p : DuplexM β ε α) (out : List β) : Prop :=
  ∀ s, (p.on s).2.written = s.written ++ out

/-- `p` says `reply` when it hears `request`, however the stream goes on. -/
def Answers (p : DuplexM β ε α) (request reply : List β) : Prop :=
  ∀ rest written, (p.on ⟨request ++ rest, written⟩).2.written = written ++ reply

/-- On what the server answers to it, and closes the stream after, the client ends with `r`. -/
def Dialogue (client : DuplexM β ε α) (server : DuplexM β ε' γ) (r : Except ε α) : Prop :=
  ∃ request reply, client.Says request ∧ server.Answers request reply ∧
    (client.on ⟨reply, []⟩).1 = r

theorem Says.unique {p : DuplexM β ε α} {out out' : List β} (h : p.Says out) (h' : p.Says out') :
    out = out' := by
  have hboth := (h ⟨[], []⟩).symm.trans (h' ⟨[], []⟩)
  simpa using hboth

theorem Answers.unique {p : DuplexM β ε α} {request reply reply' : List β}
    (h : p.Answers request reply) (h' : p.Answers request reply') : reply = reply' := by
  have hboth := (h [] []).symm.trans (h' [] [])
  simpa using hboth

/-- A client that reads only once it has written. -/
theorem Says.write_bind (out : List β) {f : Unit → DuplexM β ε α} (hf : Reads (f ())) :
    (write out >>= f).Says out := by
  intro s
  rw [on_write_bind, hf.written]

theorem Says.bind_reads {p : DuplexM β ε γ} {out : List β} (hp : p.Says out)
    {f : γ → DuplexM β ε α} (hf : ∀ a, Reads (f a)) : (p >>= f).Says out := by
  intro s
  rw [written_bind p hf]
  exact hp s

theorem Exchange.answers {p : DuplexM β ε α} {request reply : List β} {r : Except ε α}
    (h : Exchange p reply request r) : p.Answers request reply := by
  intro rest written
  rw [h written rest]

/-- A computation that hears nothing. -/
theorem Exchange.says {p : DuplexM β ε α} {out : List β} {r : Except ε α}
    (h : Exchange p out [] r) : p.Says out :=
  fun s => congrArg (fun e => e.2.written) (h s.written s.unread)

/-- **A dialogue ends in one way.** -/
theorem Dialogue.unique {client : DuplexM β ε α} {server : DuplexM β ε' γ} {r r' : Except ε α}
    (h : Dialogue client server r) (h' : Dialogue client server r') : r = r' := by
  obtain ⟨request, reply, hsays, hanswers, hend⟩ := h
  obtain ⟨request', reply', hsays', hanswers', hend'⟩ := h'
  obtain rfl := hsays.unique hsays'
  obtain rfl := hanswers.unique hanswers'
  exact hend.symm.trans hend'

/-- The client that writes first and then takes the whole of the reply. -/
theorem Dialogue.of_readToEnd {out reply : List β} {p : DuplexM β ε Unit}
    (hp : Exchange p out [] (.ok ())) {server : DuplexM β ε' γ} (hserver : server.Answers out reply)
    {f : List β → DuplexM β ε α} (hf : ∀ a, Reads (f a)) {r : Except ε α}
    (hend : ((f reply).on ⟨[], out⟩).1 = r) :
    Dialogue (p >>= fun _ => readToEnd >>= f) server r := by
  refine ⟨out, reply, hp.says.bind_reads fun _ => Reads.readToEnd.bind hf, hserver, ?_⟩
  have hrun := hp [] reply
  rw [List.nil_append, List.nil_append] at hrun
  rw [on_bind, hrun]
  exact hend

/-! ## Servers of one line -/

/-- **What a server says that answers a line**, whatever the stream holds. -/
theorem written_answerLine [DecidableEq β] {sep : β} {cap : Nat} {answer : List β → List β}
    (s : Duplex β) : ((answerLine sep cap answer : DuplexM β ε Unit).on s).2.written =
      s.written ++ if cap < (firstLine sep s.unread).length then []
        else answer (firstLine sep s.unread) := by
  rw [answerLine, on_bind]
  by_cases hlong : cap < (firstLine sep s.unread).length
  · have hnone := on_readLine_none (ε := ε) hlong
    have hreads := (Reads.readLine (ε := ε) sep cap).written s
    rcases hread : (readLine sep cap : DuplexM β ε (Option (List β))).on s with ⟨line?, s'⟩
    rw [hread] at hnone hreads
    cases hnone
    rw [if_pos hlong, List.append_nil, ← hreads]
    rfl
  · rw [on_readLine (Nat.le_of_not_lt hlong), if_neg hlong]
    rfl

/-- It answers a line that fits. -/
theorem answers_answerLine [DecidableEq β] {sep : β} {cap : Nat} (answer : List β → List β)
    {line : List β} (hsep : sep ∉ line) (hfits : line.length ≤ cap) :
    (answerLine sep cap answer : DuplexM β ε Unit).Answers (line ++ [sep]) (answer line) := by
  intro rest written
  rw [written_answerLine, List.append_assoc, List.singleton_append, firstLine_append hsep,
    if_neg (Nat.not_lt.mpr hfits)]

end DuplexM

end Smolweb
