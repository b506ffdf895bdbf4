import Smolweb.Guppy.Verify.Session
import Smolweb.Guppy.Verify.Table
import Smolweb.Lib.Run

/-!
# The send window

A session's life is a run of three kinds of step: its window is opened, an acknowledgement arrives
(for any number), the packets in flight go again. `InWindow` is what holds of the window after any
run (`run_window`), and `Starves` the one kind of step after which a session has nothing in flight
although it is not done (`run_live_iff`).
-/

namespace Smolweb.Guppy

/-- A step of a session; `sendOk` tells which of its sends succeed. -/
inductive SessionStep where
  | openWindow (sendOk : Nat → Bool) (now : Nat)
  | acknowledge (sendOk : Nat → Bool) (now seq : Nat)
  | retransmit (sendOk : Nat → Bool) (now : Nat)

def Session.step (config : ServerConfig) (s : Session) : SessionStep → Session
  | .openWindow sendOk now => (openWindow config sendOk now s).1
  | .acknowledge sendOk now seq => (acknowledge config sendOk now seq s).1
  | .retransmit sendOk now => (retransmit sendOk now s).1

/-- Packet `i`, which was sent before, is acknowledged by its number. -/
def Acknowledges (i seq : Nat) (s : Session) (e : SessionStep) : Prop :=
  i < s.nextUnsent ∧ ∃ sendOk now, e = .acknowledge sendOk now seq

/-- The first number of the packets that `build_session` makes. -/
def firstSeq (o : Overflow) (hash : Nat) (body : Bytes) (chunkSize : Nat) : Option Nat := do
  let count ← o.add maxU32 1 (continuationCount body (max chunkSize 1) % (maxU32 + 1))
  let total ← o.add maxU32 count 1
  randomSeq o hash total

/-- The numbers from the first packet's on suffice for all packets. -/
def NumbersFit (o : Overflow) (hash : Nat) (body : Bytes) (chunkSize : Nat) : Prop :=
  ∀ first, firstSeq o hash body chunkSize = some first →
    first + packetCount body chunkSize ≤ maxU32 + 1

/-! ## The numbers of a session's packets -/

section Numbers

theorem continuationsFrom_sorted (seq : Nat) (cs : List Bytes) :
    (continuationsFrom seq cs).Pairwise fun a b => a.1 < b.1 := by
  induction cs generalizing seq with
  | nil => exact List.Pairwise.nil
  | cons c cs ih =>
    refine List.Pairwise.cons ?_ (ih (seq + 1))
    rintro ⟨n, wire⟩ hm
    obtain ⟨i, -, -, rfl, -⟩ := mem_continuationsFrom hm
    simp only
    omega

theorem transmission_sorted (first : Nat) (mime : Text) (head : Bytes) (tail : List Bytes) :
    (transmission first mime head tail).Pairwise fun a b => a.1 < b.1 := by
  refine List.Pairwise.cons ?_ (continuationsFrom_sorted _ _)
  rintro ⟨n, wire⟩ hm
  obtain ⟨i, -, -, rfl, -⟩ := mem_continuationsFrom hm
  simp only
  omega

theorem packetCount_eq (body : Bytes) (chunkSize : Nat) :
    packetCount body chunkSize =
      divCeil (body.length - min body.length (max chunkSize 1)) (max chunkSize 1) + 2 := by
  obtain ⟨hcount, htotal⟩ := continuationCount_eq body (show 0 < max chunkSize 1 by omega)
  rw [packetCount, ← htotal, hcount]
  omega

/-- Where overflow panics, the loop of `build_session` stays within a `u32`. -/
theorem continuations_checked {chunkSize : Nat} (hc : 0 < chunkSize) {fuel seq : Nat}
    {rest : Bytes} {r : List (Nat × Bytes) × Nat} (hseq : seq ≤ maxU32)
    (hlen : rest.length ≤ fuel) (h : continuations .checked chunkSize fuel seq rest = some r) :
    seq + divCeil rest.length chunkSize ≤ maxU32 ∧
      r.2 = seq + divCeil rest.length chunkSize := by
  have hzero : divCeil 0 chunkSize = 0 := by simp [divCeil]
  induction fuel generalizing seq rest r with
  | zero =>
    cases h
    rw [Nat.eq_zero_of_le_zero hlen, hzero]
    exact ⟨hseq, rfl⟩
  | succ fuel ih =>
    unfold continuations at h
    split at h
    · next hnil =>
      cases h
      rw [List.isEmpty_iff.mp hnil, List.length_nil, hzero]
      exact ⟨hseq, rfl⟩
    · next hne =>
      simp only [Option.bind_eq_bind, Option.bind_eq_some_iff, Option.some.injEq] at h
      obtain ⟨n, hadd, ⟨packets, last⟩, hloop, rfl⟩ := h
      have hpos : 0 < rest.length := List.length_pos_iff.mpr (by simpa using hne)
      have hstep := divCeil_step hc hpos
      obtain ⟨hlt, rfl⟩ := Overflow.checked_add_eq_some hadd
      obtain ⟨hle, hlast⟩ := ih hlt (by rw [List.length_drop]; omega) hloop
      rw [List.length_drop] at hle hlast
      simp only at hlast ⊢
      omega

theorem randomSeq_checked_le {hash total first : Nat}
    (h : randomSeq .checked hash total = some first) : first ≤ maxU32 := by
  simp only [randomSeq, Option.bind_eq_bind, Option.bind_eq_some_iff] at h
  obtain ⟨below, -, span, -, h⟩ := h
  split at h
  · cases h
  · obtain ⟨hle, rfl⟩ := Overflow.checked_add_eq_some h
    exact hle

/-- Where overflow panics, a session is built only if the numbers suffice. -/
theorem numbersFit_of_checked {hash now chunkSize : Nat} {mime : Text} {body : Bytes}
    {s : Session} (h : buildSession .checked hash now mime body chunkSize = some s) :
    NumbersFit .checked hash body chunkSize := by
  intro first hfirst
  simp only [buildSession, firstSeq, Option.bind_eq_bind, Option.bind_eq_some_iff] at h hfirst
  obtain ⟨count, hcount, total, htotal, hseq⟩ := hfirst
  obtain ⟨count', hcount', total', htotal', first', hseq', ⟨packets, last⟩, hloop, eof, heof, -⟩ :=
    h
  obtain rfl : count = count' := Option.some.inj (hcount.symm.trans hcount')
  obtain rfl : total = total' := Option.some.inj (htotal.symm.trans htotal')
  obtain rfl : first = first' := Option.some.inj (hseq.symm.trans hseq')
  obtain ⟨hle, hlast⟩ := continuations_checked (by omega) (randomSeq_checked_le hseq)
    (by simp) hloop
  rw [List.length_drop, List.length_take, Nat.min_assoc, Nat.min_comm _ body.length,
    ← Nat.min_assoc, Nat.min_self] at hle hlast
  simp only at hlast heof
  rw [packetCount_eq]
  obtain ⟨hlt, -⟩ := Overflow.checked_add_eq_some heof
  omega

/-- **A session whose numbers fit** holds the transmission of the body's chunks. -/
theorem buildSession_packets {o : Overflow} {hash now chunkSize : Nat} {mime : Text}
    {body : Bytes} {s : Session} (h : buildSession o hash now mime body chunkSize = some s)
    (hfit : NumbersFit o hash body chunkSize) :
    ∃ first head tail, s.packets = transmission first mime head tail := by
  have hc : 0 < max chunkSize 1 := by omega
  simp only [buildSession, Option.bind_eq_bind, Option.bind_eq_some_iff, Option.some.injEq] at h
  obtain ⟨count, hcount, total, htotal, first, hseq, ⟨packets, last⟩, hloop, eof, heof, rfl⟩ := h
  have hle := hfit first (by simp [firstSeq, hcount, htotal, hseq])
  rw [packetCount_eq] at hle
  have hdrop := length_drop_take body (max chunkSize 1)
  obtain ⟨cs, -, -, hlen, heq⟩ := continuations_eq o hc body.length first
    (body.drop (body.take (min body.length (max chunkSize 1))).length) (by omega)
    (by rw [hdrop]; omega)
  rw [hdrop] at hlen
  rw [heq, Option.some.injEq, Prod.mk.injEq] at hloop
  obtain ⟨rfl, rfl⟩ := hloop
  rw [Overflow.add_of_le o (by omega), Option.some.injEq] at heof
  subst heof
  refine ⟨first, body.take (min body.length (max chunkSize 1)), cs, ?_⟩
  simp only [transmission, continuationsFrom_append, continuationsFrom, List.cons_append]
  rw [show first + 1 + cs.length = first + cs.length + 1 by omega]

end Numbers

/-! ## What a step does to the window -/

/-- The window of a session: what was sent is in flight, or settled as `A` says of its index and
its number. -/
structure Session.InWindow (config : ServerConfig) (A : Nat → Nat → Prop) (s : Session) :
    Prop where
  sent_le : s.nextUnsent ≤ s.packets.length
  size_le : s.unacked.size ≤ config.window
  inFlight : ∀ seq ∈ s.unacked, ∃ i wire, i < s.nextUnsent ∧ s.packets[i]? = some (seq, wire)
  settled : ∀ i seq wire, i < s.nextUnsent → s.packets[i]? = some (seq, wire) →
    seq ∈ s.unacked ∨ A i seq

section Steps

variable {config : ServerConfig} {s : Session} {A : Nat → Nat → Prop}

theorem mem_insert {t : Std.TreeSet Nat} {a b : Nat} : a ∈ t.insert b ↔ a = b ∨ a ∈ t := by
  rw [Std.TreeSet.mem_insert, Nat.compare_eq_eq, eq_comm]

theorem mem_erase {t : Std.TreeSet Nat} {a b : Nat} : a ∈ t.erase b ↔ a ≠ b ∧ a ∈ t := by
  rw [Std.TreeSet.mem_erase, ne_eq, Nat.compare_eq_eq, eq_comm]

theorem Session.InWindow.send {seq : Nat} {wire : Bytes} (h : s.InWindow config A)
    (hroom : s.unacked.size < config.window)
    (hget : s.packets[s.nextUnsent]? = some (seq, wire)) :
    Session.InWindow config A
      { s with unacked := s.unacked.insert seq, nextUnsent := s.nextUnsent + 1 } where
  sent_le := (List.getElem?_eq_some_iff.mp hget).1
  size_le := Nat.le_trans Std.TreeSet.size_insert_le hroom
  inFlight := by
    intro n hn
    rcases mem_insert.mp hn with rfl | hn
    · exact ⟨s.nextUnsent, wire, Nat.lt_succ_self _, hget⟩
    · obtain ⟨i, w, hi, hw⟩ := h.inFlight n hn
      exact ⟨i, w, Nat.lt_succ_of_lt hi, hw⟩
  settled := by
    intro i n w hi hw
    rcases Nat.lt_succ_iff_lt_or_eq.mp hi with hlt | rfl
    · rcases h.settled i n w hlt hw with hn | hA
      · exact Or.inl (mem_insert.mpr (Or.inr hn))
      · exact Or.inr hA
    · rw [show s.packets[s.nextUnsent]? = some (n, w) from hw] at hget
      cases hget
      exact Or.inl (mem_insert.mpr (Or.inl rfl))

theorem Session.InWindow.openWindow (h : s.InWindow config A) (sendOk : Nat → Bool) (now : Nat) :
    (openWindow config sendOk now s).1.InWindow config A := by
  have hloop : (openLoop config.window sendOk (s.packets.length - s.nextUnsent) s).1.InWindow
      config A :=
    openLoop_induction (fun _ _ _ => Session.InWindow.send) _ h
  exact ⟨hloop.sent_le, hloop.size_le, hloop.inFlight, hloop.settled⟩

/-- An acknowledged number leaves the window, its packets settled. -/
theorem Session.InWindow.erase {B : Nat → Nat → Prop} {seq : Nat} (h : s.InWindow config A)
    (hAB : ∀ i n, A i n → B i n) (hB : ∀ i, i < s.nextUnsent → B i seq) :
    Session.InWindow config B { s with unacked := s.unacked.erase seq } where
  sent_le := h.sent_le
  size_le := Nat.le_trans Std.TreeSet.size_erase_le h.size_le
  inFlight := fun n hn => h.inFlight n (mem_erase.mp hn).2
  settled := by
    intro i n w hi hw
    by_cases heq : n = seq
    · subst heq
      exact Or.inr (hB i hi)
    · rcases h.settled i n w hi hw with hn | hA
      · exact Or.inl (mem_erase.mpr ⟨heq, hn⟩)
      · exact Or.inr (hAB i n hA)

theorem Session.InWindow.mono {B : Nat → Nat → Prop} (h : s.InWindow config A)
    (hAB : ∀ i n, A i n → B i n) : s.InWindow config B :=
  { h with settled := fun i n w hi hw => (h.settled i n w hi hw).imp_right (hAB i n) }

/-- The session that an acknowledgement leaves is done, or has its window opened. -/
theorem acknowledge_eq (config : ServerConfig) (sendOk : Nat → Bool) (now seq : Nat)
    (s : Session) :
    (acknowledge config sendOk now seq s).1 =
      if s.nextUnsent = s.packets.length ∧ (s.unacked.erase seq).isEmpty then
        { s with unacked := s.unacked.erase seq, doneAt := s.doneAt.orElse fun _ => some now }
      else (openWindow config sendOk now { s with unacked := s.unacked.erase seq }).1 := by
  simp only [acknowledge]
  split <;> rfl

theorem Session.InWindow.step {B : Nat → Nat → Prop} {e : SessionStep} (h : s.InWindow config A)
    (hAB : ∀ i n, A i n → B i n) (hB : ∀ i n, Acknowledges i n s e → B i n) :
    (s.step config e).InWindow config B := by
  cases e with
  | openWindow sendOk now => exact (h.mono hAB).openWindow sendOk now
  | retransmit sendOk now =>
    have := h.mono hAB
    exact ⟨this.sent_le, this.size_le, this.inFlight, this.settled⟩
  | acknowledge sendOk now seq =>
    have herase := h.erase hAB fun i hi => hB i seq ⟨hi, sendOk, now, rfl⟩
    simp only [Session.step, acknowledge_eq]
    split
    · exact ⟨herase.sent_le, herase.size_le, herase.inFlight, herase.settled⟩
    · exact herase.openWindow sendOk now

@[simp] theorem step_packets (config : ServerConfig) (s : Session) (e : SessionStep) :
    (s.step config e).packets = s.packets := by
  cases e with
  | openWindow => exact openWindow_packets ..
  | acknowledge => exact acknowledge_packets ..
  | retransmit => rfl

theorem step_sound {e : SessionStep} (h : s.Sound) : (s.step config e).Sound := by
  cases e with
  | openWindow sendOk now =>
    intro done hdone
    rw [Session.step, openWindow_doneAt] at hdone
    obtain ⟨hsent, hacked⟩ := h done hdone
    -- with everything sent the loop does not start
    simp only [Session.step, Session.Complete, openWindow, hsent, Nat.sub_self, openLoop, hacked,
      and_self]
  | acknowledge => exact acknowledge_sound h
  | retransmit => exact h

/-- A time of completion, once set, stays. -/
theorem step_doneAt {e : SessionStep} {done : Nat} (h : s.doneAt = some done) :
    (s.step config e).doneAt = some done := by
  cases e with
  | openWindow => rwa [Session.step, openWindow_doneAt]
  | acknowledge =>
    simp only [Session.step, acknowledge_eq]
    split
    · simp [h]
    · rwa [openWindow_doneAt]
  | retransmit => exact h

end Steps

/-! ## What an opened window has in flight -/

section Opening

variable {config : ServerConfig} {s : Session} {sendOk : Nat → Bool}

theorem mem_openLoop {window : Nat} (fuel : Nat) {seq : Nat} (h : seq ∈ s.unacked) :
    seq ∈ (openLoop window sendOk fuel s).1.unacked :=
  openLoop_induction (P := fun t : Session => seq ∈ t.unacked)
    (fun _ _ _ hmem _ _ => mem_insert.mpr (Or.inr hmem)) fuel h

/-- With room in the window the first unsent packet goes out, if its send succeeds. -/
theorem mem_openWindow {now seq : Nat} {wire : Bytes} (hroom : s.unacked.size < config.window)
    (hget : s.packets[s.nextUnsent]? = some (seq, wire)) (hok : sendOk s.nextUnsent = true) :
    seq ∈ (openWindow config sendOk now s).1.unacked := by
  have hlt : s.nextUnsent < s.packets.length := (List.getElem?_eq_some_iff.mp hget).1
  obtain ⟨fuel, hfuel⟩ : ∃ fuel, s.packets.length - s.nextUnsent = fuel + 1 :=
    ⟨s.packets.length - s.nextUnsent - 1, by omega⟩
  simp only [openWindow, hfuel, openLoop, hroom, hget, hok, if_true]
  exact mem_openLoop fuel (mem_insert.mpr (Or.inl rfl))

/-- When the first send fails, or nothing is left to send, opening the window sends nothing. -/
theorem openWindow_idle (now : Nat)
    (h : s.nextUnsent < s.packets.length → sendOk s.nextUnsent = false) :
    (openWindow config sendOk now s).1 = { s with lastSend := now } := by
  rcases Nat.lt_or_ge s.nextUnsent s.packets.length with hlt | hge
  · obtain ⟨fuel, hfuel⟩ : ∃ fuel, s.packets.length - s.nextUnsent = fuel + 1 :=
      ⟨s.packets.length - s.nextUnsent - 1, by omega⟩
    simp only [openWindow, hfuel, openLoop, List.getElem?_eq_getElem hlt, h hlt]
    split <;> rfl
  · rw [openWindow, Nat.sub_eq_zero_of_le hge]
    rfl

theorem isEmpty_eq_false_of_mem {t : Std.TreeSet Nat} {a : Nat} (h : a ∈ t) :
    t.isEmpty = false :=
  Std.TreeSet.isEmpty_eq_false_iff_exists_mem.mpr ⟨a, h⟩

/-- **An opened window is empty** only if it was, with nothing left to send or with the first send
failing. -/
theorem openWindow_isEmpty_iff (hwindow : 0 < config.window) (now : Nat) :
    (openWindow config sendOk now s).1.unacked.isEmpty = true ↔
      s.unacked.isEmpty = true ∧
        (s.nextUnsent < s.packets.length → sendOk s.nextUnsent = false) := by
  constructor
  · intro hempty
    have hbefore : s.unacked.isEmpty = true := by
      rw [Std.TreeSet.isEmpty_iff_forall_not_mem] at hempty ⊢
      exact fun seq hmem => hempty seq (mem_openLoop _ hmem)
    refine ⟨hbefore, fun hlt => ?_⟩
    by_contra hok
    have hroom : s.unacked.size < config.window := by
      rw [Std.TreeSet.isEmpty_eq_size_eq_zero, beq_iff_eq] at hbefore
      omega
    have hmem : _ ∈ (openWindow config sendOk now s).1.unacked :=
      mem_openWindow hroom (List.getElem?_eq_getElem hlt) (Bool.not_eq_false _ ▸ hok)
    rw [isEmpty_eq_false_of_mem hmem] at hempty
    cases hempty
  · rintro ⟨hempty, hidle⟩
    rw [openWindow_idle now hidle]
    exact hempty

end Opening

/-! ## Whole runs -/

section Runs

variable {o : Overflow} {hash now chunkSize : Nat} {mime : Text} {body : Bytes} {s : Session}
  {config : ServerConfig}

/-- What `build_session` returns was not transmitted yet, and ends with the end of the file. -/
theorem buildSession_fresh (h : buildSession o hash now mime body chunkSize = some s) :
    s.nextUnsent = 0 ∧ s.unacked = ∅ ∧ s.doneAt = none ∧ 2 ≤ s.packets.length ∧
      ∃ eof, s.packets.getLast? = some (eof, encodeContinuation eof []) := by
  simp only [buildSession, Option.bind_eq_bind, Option.bind_eq_some_iff, Option.some.injEq] at h
  obtain ⟨-, -, -, -, -, -, -, -, eof, -, rfl⟩ := h
  refine ⟨rfl, rfl, rfl, ?_, eof, ?_⟩
  · simp
  · exact List.getLast?_concat

/-- The window after some steps: the packets that left it were acknowledged after they were
sent. -/
theorem run_inWindow (config : ServerConfig)
    (h : buildSession o hash now mime body chunkSize = some s)
    (steps : List SessionStep) :
    (Run.after (Session.step config) s steps).packets = s.packets ∧
    (Run.after (Session.step config) s steps).Sound ∧
    (Run.after (Session.step config) s steps).InWindow config fun i seq =>
      Run.Saw (Session.step config) (Acknowledges i seq) s steps := by
  obtain ⟨hsent, hunacked, hdone, -, -⟩ := buildSession_fresh h
  refine Run.induction (I := fun past (t : Session) => t.packets = s.packets ∧ t.Sound ∧
    t.InWindow config fun i seq => Run.Saw (Session.step config) (Acknowledges i seq) s past)
    ?_ ?_ steps
  · refine ⟨rfl, ?_, ?_⟩
    · intro done hd
      rw [hdone] at hd
      cases hd
    · exact ⟨by omega, by simp [hunacked], by simp [hunacked], by omega⟩
  · rintro past e ⟨hpackets, hsound, hwindow⟩
    refine ⟨by rw [step_packets, hpackets], step_sound hsound, ?_⟩
    exact hwindow.step (fun _ _ hA => hA.append [e]) fun _ _ hack => Run.saw_concat hack

theorem run_doneAt {t : Session} {done : Nat} (h : t.doneAt = some done)
    (steps : List SessionStep) :
    (Run.after (Session.step config) t steps).doneAt = some done :=
  Run.induction (I := fun _ (u : Session) => u.doneAt = some done) h (fun _ _ => step_doneAt) steps

/-- With ascending numbers the packet of every number in flight is found again. -/
theorem packetNumbered_eq {t : Session} {seq i : Nat} {wire : Bytes}
    (hsorted : t.packets.Pairwise fun a b => a.1 < b.1)
    (hget : t.packets[i]? = some (seq, wire)) : packetNumbered t seq = some wire := by
  have hfound : binarySearchByKey Prod.fst seq t.packets = some i :=
    binarySearchByKey_eq hsorted hget
  simp only [packetNumbered, hfound, hget, Option.bind_eq_bind, Option.bind_some]

/-- What is in flight is found again, as long as the numbers do not wrap around. -/
theorem run_packetNumbered (h : buildSession o hash now mime body chunkSize = some s)
    (hfit : o = .wrapping → NumbersFit o hash body chunkSize) (steps : List SessionStep) :
    ∀ seq ∈ (Run.after (Session.step config) s steps).unacked, ∃ wire, (seq, wire) ∈ s.packets ∧
      packetNumbered (Run.after (Session.step config) s steps) seq = some wire := by
  intro seq hmem
  have hnumbers : NumbersFit o hash body chunkSize := by
    cases o with
    | checked => exact numbersFit_of_checked h
    | wrapping => exact hfit rfl
  obtain ⟨first, head, tail, heq⟩ := buildSession_packets h hnumbers
  obtain ⟨hpackets, -, hwindow⟩ := run_inWindow config h steps
  obtain ⟨i, wire, -, hget⟩ := hwindow.inFlight seq hmem
  refine ⟨wire, ?_, packetNumbered_eq ?_ hget⟩
  · rw [← hpackets]
    exact List.mem_of_getElem? hget
  · rw [hpackets, heq]
    exact transmission_sorted first mime head tail

/-- What holds of the window of `t`, the state of session `s` after `steps`. -/
structure WindowKept (config : ServerConfig) (s : Session) (steps : List SessionStep)
    (t : Session) : Prop where
  size_le : t.unacked.size ≤ config.window
  /-- What is in flight are numbers of packets that were sent. -/
  inFlight : ∀ seq ∈ t.unacked, ∃ i wire, i < t.nextUnsent ∧ s.packets[i]? = some (seq, wire)
  /-- What was sent is in flight, or was acknowledged after it was sent. -/
  settled : ∀ i seq wire, i < t.nextUnsent → s.packets[i]? = some (seq, wire) →
    seq ∈ t.unacked ∨ Run.Saw (Session.step config) (Acknowledges i seq) s steps
  /-- A session is done when every packet, up to the end of the file, was sent and acknowledged. -/
  done : ∀ time, t.doneAt = some time → t.nextUnsent = s.packets.length ∧
    (∃ eof, s.packets.getLast? = some (eof, encodeContinuation eof [])) ∧
    ∀ i seq wire, s.packets[i]? = some (seq, wire) →
      Run.Saw (Session.step config) (Acknowledges i seq) s steps
  done_stays : ∀ time, t.doneAt = some time → ∀ more,
    (Run.after (Session.step config) s (steps ++ more)).doneAt = some time

/-- **The send window**, after any steps of a session under a fixed configuration; where overflow
wraps around, packets are found again as long as their numbers do not. -/
theorem run_window (h : buildSession o hash now mime body chunkSize = some s)
    (config : ServerConfig) (steps : List SessionStep) :
    WindowKept config s steps (Run.after (Session.step config) s steps) ∧
      ((o = .wrapping → NumbersFit o hash body chunkSize) →
        ∀ seq ∈ (Run.after (Session.step config) s steps).unacked, ∃ wire,
          (seq, wire) ∈ s.packets ∧
          packetNumbered (Run.after (Session.step config) s steps) seq = some wire) := by
  obtain ⟨hpackets, hsound, hwindow⟩ := run_inWindow config h steps
  obtain ⟨-, hsize, hflight, hsettled⟩ := hwindow
  rw [hpackets] at hflight hsettled
  refine ⟨⟨hsize, hflight, hsettled, ?_, ?_⟩, fun hfit => run_packetNumbered h hfit steps⟩
  · intro time hdone
    obtain ⟨hall, hempty⟩ := hsound time hdone
    rw [hpackets] at hall
    obtain ⟨-, -, -, -, heof⟩ := buildSession_fresh h
    refine ⟨hall, heof, fun i seq wire hget => ?_⟩
    have hi : i < s.packets.length := (List.getElem?_eq_some_iff.mp hget).1
    rcases hsettled i seq wire (hall ▸ hi) hget with hmem | hsaw
    · exact absurd (Std.TreeSet.isEmpty_iff_forall_not_mem.mp hempty seq) (not_not_intro hmem)
    · exact hsaw
  · intro time hdone more
    rw [Run.after_append]
    exact run_doneAt hdone more

theorem run_window_sample : ∃ s : Session,
    buildSession .checked 7 0 "text/plain".toList [104, 105] 1 = some s ∧
      WindowKept { window := 1 } s
        [.openWindow (fun _ => true) 0, .acknowledge (fun _ => true) 1 13]
        (Run.after (Session.step { window := 1 }) s
          [.openWindow (fun _ => true) 0, .acknowledge (fun _ => true) 1 13]) ∧
      ∀ seq ∈ (Run.after (Session.step { window := 1 }) s
          [.openWindow (fun _ => true) 0, .acknowledge (fun _ => true) 1 13]).unacked,
        ∃ wire, (seq, wire) ∈ s.packets ∧
          packetNumbered (Run.after (Session.step { window := 1 }) s
            [.openWindow (fun _ => true) 0, .acknowledge (fun _ => true) 1 13]) seq =
              some wire := by
  obtain ⟨first, head, tail, -, -, -, -, hbuild⟩ := buildSession_eq .checked 7 0
    "text/plain".toList [104, 105] 1 (by decide)
  have hkept := run_window hbuild { window := 1 }
    [.openWindow (fun _ => true) 0, .acknowledge (fun _ => true) 1 13]
  exact ⟨_, hbuild, hkept.1, hkept.2 (by simp)⟩

/-- From `u32::MAX` on, the loop of `build_session` goes on at 0 where overflow wraps around. -/
theorem continuations_wrap {fuel : Nat} {rest : Bytes} (hne : rest ≠ [])
    (hlen : rest.length ≤ fuel) (hmax : rest.length ≤ maxU32) :
    ∃ c cs, cs.length + 1 = rest.length ∧ continuations .wrapping 1 fuel maxU32 rest =
      some ((0, encodeContinuation 0 c) :: continuationsFrom 1 cs, cs.length) := by
  have hpos : 0 < rest.length := List.length_pos_iff.mpr hne
  obtain ⟨fuel, rfl⟩ : ∃ fuel', fuel = fuel' + 1 := ⟨fuel - 1, by omega⟩
  have hone : ∀ n, divCeil n 1 = n := by simp [divCeil, Nat.mod_one]
  have hdrop : (rest.drop 1).length = rest.length - 1 := List.length_drop
  obtain ⟨cs, -, -, hcount, heq⟩ := continuations_eq .wrapping Nat.one_pos fuel 0 (rest.drop 1)
    (by omega) (by rw [hone]; omega)
  rw [hone, hdrop] at hcount
  have hzero : Overflow.wrapping.add maxU32 maxU32 1 = some 0 := by decide
  refine ⟨rest.take 1, cs, by omega, ?_⟩
  rw [Nat.zero_add, Nat.zero_add] at heq
  simp only [continuations, List.isEmpty_eq_false_iff.mpr hne, Bool.false_eq_true, ite_false,
    hzero, heq, Option.bind_eq_bind, Option.bind_some]

/-- A body of one byte a packet, so long that `MAX_SEQ - total_packets - MIN_SEQ` wraps around:
the first packet may be numbered `u32::MAX`, and those that follow it from 0 on. -/
theorem buildSession_wraps (mime : Text) {body : Bytes} (hlen : body.length = 2147483641) :
    ∃ s wire rest, buildSession .wrapping 4294967289 0 mime body 1 = some s ∧
      s.nextUnsent = 0 ∧ s.unacked = ∅ ∧
      s.packets = (maxU32, wire) :: rest ∧ rest ≠ [] ∧ ∀ p ∈ rest, p.1 < maxU32 := by
  have hone : ∀ n, divCeil n 1 = n := by simp [divCeil, Nat.mod_one]
  obtain ⟨-, hcount⟩ := continuationCount_eq body Nat.one_pos
  rw [hone, hlen] at hcount
  have hmod : continuationCount body 1 % (maxU32 + 1) = 2147483640 := by
    rw [Nat.mod_eq_of_lt (by rw [maxU32]; omega)]
    omega
  have h1 : Overflow.wrapping.add maxU32 1 2147483640 = some 2147483641 := by decide
  have h2 : Overflow.wrapping.add maxU32 2147483641 1 = some 2147483642 := by decide
  have hfirst : randomSeq .wrapping 4294967289 2147483642 = some maxU32 := by decide
  have hrest : (body.drop (body.take (min body.length 1)).length).length = 2147483640 := by
    rw [length_drop_take, hlen]
    omega
  have hne : body.drop (body.take (min body.length 1)).length ≠ [] := by
    intro hnil
    rw [hnil, List.length_nil] at hrest
    omega
  obtain ⟨c, cs, hcs, hloop⟩ := continuations_wrap hne
    (show _ ≤ body.length by omega) (by rw [hrest, maxU32]; omega)
  have heof : Overflow.wrapping.add maxU32 cs.length 1 = some (cs.length + 1) :=
    Overflow.add_of_le _ (by rw [maxU32]; omega)
  have hbuild : buildSession .wrapping 4294967289 0 mime body 1 = some {
      packets := (maxU32, encodeFirst maxU32 mime (body.take (min body.length 1))) ::
        ((0, encodeContinuation 0 c) :: continuationsFrom 1 cs ++
          [(cs.length + 1, encodeContinuation (cs.length + 1) [])])
      nextUnsent := 0
      unacked := ∅
      lastSend := 0
      created := 0
      doneAt := none } := by
    simp only [buildSession, Nat.max_self, hmod, h1, h2, hfirst, hloop, heof, Option.bind_eq_bind,
      Option.bind_some, List.cons_append]
  refine ⟨_, _, _, hbuild, rfl, rfl, rfl, List.cons_ne_nil _ _, ?_⟩
  rintro ⟨n, wire⟩ hm
  rw [List.cons_append, List.mem_cons, List.mem_append, List.mem_singleton] at hm
  rcases hm with heq | hm | heq
  · rw [(Prod.mk.inj heq).1]
    exact Nat.zero_lt_of_lt (Nat.lt_succ_self _)
  · obtain ⟨i, d, hd, rfl, -⟩ := mem_continuationsFrom hm
    have hi : i < cs.length := (List.getElem?_eq_some_iff.mp hd).1
    simp only [maxU32]
    omega
  · rw [(Prod.mk.inj heq).1, maxU32]
    omega

/-- The first packet of such a session goes out and is not found again. -/
theorem run_window_wraps : ∃ s : Session,
    buildSession .wrapping 4294967289 0 "text/plain".toList (List.replicate 2147483641 0) 1 =
      some s ∧
    maxU32 ∈ (Run.after (Session.step {}) s [.openWindow (fun _ => true) 0]).unacked ∧
    packetNumbered (Run.after (Session.step {}) s [.openWindow (fun _ => true) 0]) maxU32 =
      none := by
  obtain ⟨s, wire, rest, hbuild, hsent, hempty, hpackets, hne, hlt⟩ :=
    buildSession_wraps "text/plain".toList List.length_replicate
  refine ⟨s, hbuild, ?_, ?_⟩
  · have hroom : s.unacked.size < 16 := by
      rw [hempty]
      decide
    have hget : s.packets[s.nextUnsent]? = some (maxU32, wire) := by
      rw [hsent, hpackets]
      rfl
    exact mem_openWindow hroom hget rfl
  · have hkept : (Run.after (Session.step {}) s [.openWindow (fun _ => true) 0]).packets =
        (maxU32, wire) :: rest := by
      rw [← hpackets]
      exact step_packets {} s (.openWindow (fun _ => true) 0)
    have hle : ∀ p ∈ (maxU32, wire) :: rest, p.1 ≤ maxU32 := by
      intro p hp
      rcases List.mem_cons.mp hp with rfl | hp
      · exact Nat.le_refl _
      · exact Nat.le_of_lt (hlt p hp)
    have hlast : ((maxU32, wire) :: rest).getLast? = some (rest.getLast hne) := by
      rw [List.getLast?_cons, List.getLast?_eq_some_getLast hne, Option.getD_some]
    have hmiss := binarySearchByKey_eq_none hle hlast
      (Nat.ne_of_lt (hlt _ (List.getLast_mem hne)))
    simp only [packetNumbered, hkept, hmiss, Option.bind_eq_bind, Option.bind_none]

end Runs

/-! ## A live session has something in flight -/

/-- The step opens the window while nothing is in flight, and its first send fails. -/
def Starves (s : Session) : SessionStep → Prop
  | .openWindow sendOk _ =>
    s.unacked.isEmpty = true ∧ s.nextUnsent < s.packets.length ∧ sendOk s.nextUnsent = false
  | .acknowledge sendOk _ seq =>
    (s.unacked.erase seq).isEmpty = true ∧ s.nextUnsent < s.packets.length ∧
      sendOk s.nextUnsent = false
  | .retransmit _ _ => False

/-- A session that is not done has something in flight. -/
def Session.Live (s : Session) : Prop := s.doneAt = none → s.unacked.isEmpty = false

/-- What is done is complete, and what is complete is done. -/
structure Session.Settled (s : Session) : Prop where
  sent_le : s.nextUnsent ≤ s.packets.length
  sound : s.Sound
  complete : s.Complete → s.doneAt ≠ none

section Live

variable {config : ServerConfig} {s : Session}

/-- With something left to send a session is not done. -/
theorem Session.Settled.doneAt_eq_none (h : s.Settled) (hlt : s.nextUnsent < s.packets.length) :
    s.doneAt = none := by
  cases hdone : s.doneAt with
  | none => rfl
  | some done =>
    have hall := (h.sound done hdone).1
    omega

/-- After its window was opened a session is live, unless that starved it. -/
theorem openWindow_live_iff (hwindow : 0 < config.window) (h : s.Settled) (sendOk : Nat → Bool)
    (now : Nat) :
    (openWindow config sendOk now s).1.Live ↔ ¬ Starves s (.openWindow sendOk now) := by
  rw [Session.Live, openWindow_doneAt, ← Bool.not_eq_true, openWindow_isEmpty_iff hwindow]
  constructor
  · rintro hlive ⟨hempty, hlt, hfail⟩
    exact hlive (h.doneAt_eq_none hlt) ⟨hempty, fun _ => hfail⟩
  · rintro hfed hdone ⟨hempty, hfail⟩
    rcases Nat.lt_or_eq_of_le h.sent_le with hlt | heq
    · exact hfed ⟨hempty, hlt, hfail hlt⟩
    · exact h.complete ⟨heq, hempty⟩ hdone

theorem Session.Settled.openWindow (hwindow : 0 < config.window) (h : s.Settled)
    (sendOk : Nat → Bool) (now : Nat) : (openWindow config sendOk now s).1.Settled where
  sent_le := by
    rw [openWindow_packets]
    exact (openLoop_induction (P := fun t => t.packets = s.packets ∧
      t.nextUnsent ≤ s.packets.length) (fun t _ _ ht _ hget =>
        ⟨ht.1, ht.1 ▸ (List.getElem?_eq_some_iff.mp hget).1⟩) _ ⟨rfl, h.sent_le⟩).2
  sound := step_sound (e := .openWindow sendOk now) h.sound
  complete := by
    rintro ⟨hsent, hempty⟩
    obtain ⟨hbefore, hidle⟩ := (openWindow_isEmpty_iff hwindow now).mp hempty
    rw [openWindow_idle now hidle] at hsent ⊢
    exact h.complete ⟨hsent, hbefore⟩

/-- An acknowledgement that leaves something to do leaves the session settled. -/
theorem Session.Settled.erase {seq : Nat} (h : s.Settled)
    (hopen : ¬ (s.nextUnsent = s.packets.length ∧ (s.unacked.erase seq).isEmpty = true)) :
    Session.Settled { s with unacked := s.unacked.erase seq } where
  sent_le := h.sent_le
  sound := by
    intro done hdone
    obtain ⟨hsent, hempty⟩ := h.sound done hdone
    refine absurd ⟨hsent, ?_⟩ hopen
    rw [Std.TreeSet.isEmpty_erase, hempty]
    rfl
  complete := fun hall => absurd hall hopen

theorem Session.Settled.step (hwindow : 0 < config.window) (h : s.Settled) (e : SessionStep) :
    (s.step config e).Settled := by
  cases e with
  | openWindow sendOk now => exact h.openWindow hwindow sendOk now
  | retransmit => exact ⟨h.sent_le, h.sound, h.complete⟩
  | acknowledge sendOk now seq =>
    simp only [Session.step, acknowledge_eq]
    split
    · next hall => exact ⟨h.sent_le, fun _ _ => hall, fun _ => by cases s.doneAt <;> simp⟩
    · next hopen => exact (h.erase hopen).openWindow hwindow sendOk now

/-- **One step** leaves a session live unless it starves it; a retransmission changes nothing. -/
theorem step_live_iff (hwindow : 0 < config.window) (h : s.Settled) (e : SessionStep) :
    (s.step config e).Live ↔
      ¬ Starves s e ∧ ∀ sendOk now, e = .retransmit sendOk now → s.Live := by
  cases e with
  | openWindow sendOk now =>
    rw [Session.step, openWindow_live_iff hwindow h]
    simp
  | retransmit sendOk now => simp [Session.step, retransmit, Session.Live, Starves]
  | acknowledge sendOk now seq =>
    simp only [Session.step, acknowledge_eq]
    split
    · next hall =>
      have hdone : (s.doneAt.orElse fun _ => some now) ≠ none := by cases s.doneAt <;> simp
      refine iff_of_true (fun hnone => absurd hnone hdone) ⟨?_, by simp⟩
      rintro ⟨-, hlt, -⟩
      omega
    · next hopen =>
      rw [openWindow_live_iff hwindow (h.erase hopen)]
      simp [Starves]

theorem buildSession_settled {o : Overflow} {hash now chunkSize : Nat} {mime : Text}
    {body : Bytes} (h : buildSession o hash now mime body chunkSize = some s) : s.Settled := by
  obtain ⟨hsent, -, hdone, hlen, -⟩ := buildSession_fresh h
  refine ⟨by omega, ?_, ?_⟩
  · intro done hd
    rw [hdone] at hd
    cases hd
  · rintro ⟨hall, -⟩
    omega

theorem run_settled (hwindow : 0 < config.window) (h : s.Settled) (steps : List SessionStep) :
    (Run.after (Session.step config) s steps).Settled :=
  Run.induction (I := fun _ (t : Session) => t.Settled) h
    (fun _ e ht => ht.step hwindow e) steps

/-- What is sent again is something, when what is in flight is found again. -/
theorem retransmit_ne_nil {now seq : Nat} {wire : Bytes} (hmem : seq ∈ s.unacked)
    (hfound : packetNumbered s seq = some wire) : (retransmit (fun _ => true) now s).2 ≠ [] := by
  refine List.ne_nil_of_mem (a := wire) (List.mem_filterMap.mpr ⟨seq, ?_, hfound⟩)
  exact List.mem_filter.mpr ⟨Std.TreeSet.mem_toList.mpr hmem, rfl⟩

/-- **A live session has something in flight** in every state that follows its opening, as long as
no step starves it and only then; and what is in flight goes again, the numbers allowing. -/
theorem run_live_iff {o : Overflow} {hash now chunkSize : Nat} {mime : Text} {body : Bytes}
    (h : buildSession o hash now mime body chunkSize = some s) (hwindow : 0 < config.window)
    (sendOk : Nat → Bool) (opened : Nat) (steps : List SessionStep) :
    ((∀ before later, steps = before ++ later →
        (Run.after (Session.step config) s (.openWindow sendOk opened :: before)).Live) ↔
      ¬ Run.Saw (Session.step config) Starves s (.openWindow sendOk opened :: steps)) ∧
    ((o = .wrapping → NumbersFit o hash body chunkSize) →
      ∀ before later time, steps = before ++ later →
        (Run.after (Session.step config) s
          (.openWindow sendOk opened :: before)).unacked.isEmpty = false →
        (retransmit (fun _ => true) time (Run.after (Session.step config) s
          (.openWindow sendOk opened :: before))).2 ≠ []) := by
  have hsettled := buildSession_settled h
  refine ⟨⟨?_, ?_⟩, ?_⟩
  · rintro hlive ⟨before, e, later, heq, hstarved⟩
    cases before with
    | nil =>
      obtain ⟨rfl, rfl⟩ := List.cons.inj heq
      have hafter := hlive [] steps rfl
      rw [Run.after_cons, Run.after_nil] at hafter
      exact ((step_live_iff hwindow hsettled _).mp hafter).1 hstarved
    | cons first before =>
      obtain ⟨rfl, rfl⟩ := List.cons.inj heq
      have hafter := hlive (before ++ [e]) later (by simp)
      rw [← List.cons_append, Run.after_concat] at hafter
      exact ((step_live_iff hwindow (run_settled hwindow hsettled _) e).mp hafter).1 hstarved
  · intro hfed before
    induction before using List.reverseRecOn with
    | nil =>
      intro later heq
      refine (step_live_iff hwindow hsettled (.openWindow sendOk opened)).mpr
        ⟨fun hstarved => hfed ?_, by simp⟩
      exact ⟨[], _, steps, rfl, hstarved⟩
    | append_singleton before e ih =>
      intro later heq
      rw [← List.cons_append, Run.after_concat]
      refine (step_live_iff hwindow (run_settled hwindow hsettled _) e).mpr
        ⟨fun hstarved => hfed ?_, fun _ _ _ => ih (e :: later) (by rw [heq]; simp)⟩
      exact ⟨_ :: before, e, later, by rw [heq]; simp, hstarved⟩
  · intro hfit before later time heq hflight
    obtain ⟨seq, hmem⟩ := Std.TreeSet.isEmpty_eq_false_iff_exists_mem.mp hflight
    obtain ⟨wire, -, hfound⟩ := run_packetNumbered h hfit _ seq hmem
    exact retransmit_ne_nil hmem hfound

theorem run_live_sample : ∃ s : Session,
    buildSession .checked 7 0 "text/plain".toList [104, 105] 1 = some s ∧
      ((∀ before later, [SessionStep.retransmit (fun _ => false) 1] = before ++ later →
          (Run.after (Session.step {}) s (.openWindow (fun _ => true) 0 :: before)).Live) ↔
        ¬ Run.Saw (Session.step {}) Starves s
          [.openWindow (fun _ => true) 0, .retransmit (fun _ => false) 1]) := by
  obtain ⟨first, head, tail, -, -, -, -, hbuild⟩ := buildSession_eq .checked 7 0
    "text/plain".toList [104, 105] 1 (by decide)
  exact ⟨_, hbuild, (@run_live_iff {} _ _ _ _ _ _ _ hbuild (by decide) _ _ _).1⟩

/-- The first datagram of a session could not be sent: nothing is in flight, and no tick sends
anything again. -/
theorem run_live_stuck : ∃ s : Session,
    buildSession .checked 7 0 "text/plain".toList [104, 105] 512 = some s ∧
      (Run.after (Session.step {}) s [.openWindow (fun _ => false) 0]).doneAt = none ∧
      (Run.after (Session.step {}) s [.openWindow (fun _ => false) 0]).unacked.isEmpty = true ∧
      ∀ sendOk time, (retransmit sendOk time
        (Run.after (Session.step {}) s [.openWindow (fun _ => false) 0])).2 = [] := by
  obtain ⟨first, head, tail, -, -, -, -, hbuild⟩ := buildSession_eq .checked 7 0
    "text/plain".toList [104, 105] 512 (by decide)
  refine ⟨_, hbuild, ?_⟩
  rw [Run.after_cons, Run.after_nil, Session.step, openWindow_idle 0 fun _ => rfl]
  exact ⟨rfl, rfl, fun _ _ => rfl⟩

end Live

end Smolweb.Guppy
