import Smolweb.Guppy.Client
import Smolweb.Lib.Contiguous

/-!
# What a guppy client has heard

The abstract view of a transaction is the list of packets received so far: the first packet that
started the response and what came after it (`Started`), with the first-received data of each
number and the last end-of-file number. `Tracks` ties the client's reassembly state to that view;
one turn of the loop preserves it (`follows_step`), and so does a run (`follows_runLoop`).

A success is then read off the view: its body is the chunks numbered up to the end of the file,
followed by whatever was buffered beyond it (`success_body`).
-/

namespace Smolweb.Guppy

/-! ## The abstract view -/

/-- The first packet of a response, and the packets heard after it. -/
structure Started where
  seq : Nat
  mime : Text
  data : Bytes
  after : List Packet
  deriving Repr, DecidableEq

/-- The response that a list of packets started, if a first packet is among them. -/
def started : List Packet → Option Started
  | [] => none
  | .first seq mime data :: after => some ⟨seq, mime, data, after⟩
  | _ :: heard => started heard

namespace Started

/-- The data a packet brings for number `s` of a response that starts at `first`. -/
def dataFor (first s : Nat) : Packet → Option Bytes
  | .continuation n d => if n = s ∧ first < n ∧ d ≠ [] then some d else none
  | _ => none

/-- The number a packet ends such a response at. -/
def endsAt (first : Nat) : Packet → Option Nat
  | .continuation n [] => if first < n then some n else none
  | _ => none

/-- The first-received data of number `s`. -/
def firstReceived (st : Started) (s : Nat) : Option Bytes :=
  if s = st.seq then some st.data else st.after.findSome? (dataFor st.seq s)

/-- The number of the end-of-file packet, the last one heard. -/
def eof (st : Started) : Option Nat := (st.after.filterMap (endsAt st.seq)).getLast?

/-- One more packet heard. -/
def snoc (st : Started) (p : Packet) : Started := { st with after := st.after ++ [p] }

theorem firstReceived_snoc (st : Started) (p : Packet) (s : Nat) :
    (st.snoc p).firstReceived s = (st.firstReceived s).or (dataFor st.seq s p) := by
  unfold firstReceived snoc
  split
  · rfl
  · simp only [List.findSome?_append, List.findSome?_singleton]

theorem eof_snoc (st : Started) (p : Packet) :
    (st.snoc p).eof = (endsAt st.seq p).or st.eof := by
  simp only [eof, snoc, List.filterMap_append, List.getLast?_append]
  cases h : endsAt st.seq p <;> simp [h]

theorem le_of_firstReceived {st : Started} {s : Nat} {d : Bytes}
    (h : st.firstReceived s = some d) : st.seq ≤ s := by
  unfold firstReceived at h
  split at h
  · omega
  · obtain ⟨p, -, hp⟩ := List.exists_of_findSome?_eq_some h
    cases p <;> simp only [dataFor, reduceCtorEq] at hp
    split at hp
    · omega
    · cases hp

theorem lt_of_eof {st : Started} {n : Nat} (h : st.eof = some n) : st.seq < n := by
  obtain ⟨p, -, hp⟩ := List.mem_filterMap.mp (List.mem_of_getLast? h)
  unfold endsAt at hp
  split at hp
  · split at hp
    · cases hp
      assumption
    · cases hp
  · cases hp

end Started

/-- Packets heard later do not change how the response started. -/
theorem started_append_of_some {heard : List Packet} {st : Started} (h : started heard = some st)
    (p : Packet) : started (heard ++ [p]) = some (st.snoc p) := by
  induction heard with
  | nil => cases h
  | cons q heard ih =>
    cases q with
    | first seq mime data =>
      cases h
      rfl
    | _ => exact ih h

theorem started_append_of_none {heard : List Packet} (h : started heard = none) (p : Packet) :
    started (heard ++ [p]) = started [p] := by
  induction heard with
  | nil => rfl
  | cons q heard ih =>
    cases q with
    | first seq mime data => cases h
    | _ => exact ih h

/-! ## The reassembly state against the view -/

/-- The reassembly state holds exactly the first-received data of the packets heard, and the
contiguous end is one. -/
structure Tracks (r : Reassembly) (st : Started) : Prop where
  firstSeq : r.firstSeq = st.seq
  mime : r.mime = st.mime
  chunks : ∀ s, r.chunks[s]? = st.firstReceived s
  eof : r.eofSeq = st.eof
  contiguous : ∀ s, st.seq ≤ s → s ≤ r.contiguousEnd → s ∈ r.chunks
  le_end : st.seq ≤ r.contiguousEnd
  end_le : r.contiguousEnd ≤ maxU32

/-- With every `u32` present the loop of `insert` never ends. -/
theorem advance_full {o : Overflow} {chunks : Std.TreeMap Nat Bytes}
    (h : ∀ s, s ≤ maxU32 → s ∈ chunks) :
    ∀ fuel e, e ≤ maxU32 → advance o chunks fuel e = none := by
  intro fuel
  induction fuel with
  | zero => intro e _; rfl
  | succ fuel ih =>
    intro e he
    simp only [advance, Option.bind_eq_bind]
    cases hn : o.add maxU32 e 1 with
    | none => rfl
    | some next =>
      have hle : next ≤ maxU32 := by
        rcases Overflow.add_one_eq_some he hn with h' | h' <;> omega
      rw [Option.bind_some, if_pos (Std.TreeMap.mem_iff_contains.mp (h next hle)), ih next hle]

/-- The loop of `insert` ends at a number up to which everything is present. When the sum wraps
around to zero, zero being present means that every number is, and then the loop does not end. -/
theorem advance_spec {o : Overflow} {chunks : Std.TreeMap Nat Bytes} {lo : Nat}
    (hlo : ∀ s ∈ chunks, lo ≤ s) :
    ∀ fuel e e', lo ≤ e → e ≤ maxU32 → (∀ s, lo ≤ s → s ≤ e → s ∈ chunks) →
      advance o chunks fuel e = some e' →
      e ≤ e' ∧ e' ≤ maxU32 ∧ ∀ s, lo ≤ s → s ≤ e' → s ∈ chunks := by
  intro fuel
  induction fuel with
  | zero => intro e e' _ _ _ h; cases h
  | succ fuel ih =>
    intro e e' hle hmax hc h
    simp only [advance, Option.bind_eq_bind] at h
    cases hn : o.add maxU32 e 1 with
    | none => rw [hn] at h; cases h
    | some next =>
      rw [hn, Option.bind_some] at h
      split at h
      · next hcont =>
        have hmem : next ∈ chunks := Std.TreeMap.mem_iff_contains.mpr hcont
        rcases Overflow.add_one_eq_some hmax hn with ⟨rfl, hlt⟩ | ⟨rfl, rfl⟩
        · have hc' : ∀ s, lo ≤ s → s ≤ e + 1 → s ∈ chunks := by
            intro s h1 h2
            rcases Nat.lt_or_ge e s with h3 | h3
            · rwa [show s = e + 1 by omega]
            · exact hc s h1 h3
          obtain ⟨h1, h2⟩ := ih (e + 1) e' (by omega) (by omega) hc' h
          exact ⟨by omega, h2⟩
        · have h0 : lo = 0 := Nat.le_zero.mp (hlo 0 hmem)
          rw [advance_full (fun s hs => hc s (by omega) hs) fuel 0 (by omega)] at h
          cases h
      · cases h
        exact ⟨Nat.le_refl _, hmax, hc⟩

namespace Tracks

theorem start {seq : Nat} (h : seq ≤ maxU32) (mime : Text) (data : Bytes) :
    Tracks (Reassembly.start seq mime data) ⟨seq, mime, data, []⟩ where
  firstSeq := rfl
  mime := rfl
  chunks := by
    intro s
    simp only [Reassembly.start, Std.TreeMap.getElem?_insert, Started.firstReceived,
      List.findSome?_nil, Std.TreeMap.getElem?_emptyc, Nat.compare_eq_eq]
    by_cases hs : seq = s
    · simp [hs]
    · simp [hs, Ne.symm hs]
  eof := rfl
  contiguous := by
    intro s h1 h2
    simp only [Reassembly.start] at h1 h2 ⊢
    rw [show s = seq by omega]
    exact Std.TreeMap.mem_insert_self
  le_end := Nat.le_refl _
  end_le := h

variable {r : Reassembly} {st : Started}

/-- A packet that brings neither data nor an end leaves the state as it is. -/
theorem stray (h : Tracks r st) {p : Packet} (hd : ∀ s, Started.dataFor st.seq s p = none)
    (he : Started.endsAt st.seq p = none) : Tracks r (st.snoc p) where
  firstSeq := h.firstSeq
  mime := h.mime
  chunks := by
    intro s
    rw [h.chunks, Started.firstReceived_snoc, hd, Option.or_none]
  eof := by rw [h.eof, Started.eof_snoc, he, Option.none_or]
  contiguous := h.contiguous
  le_end := h.le_end
  end_le := h.end_le

theorem setEof (h : Tracks r st) {n : Nat} (hn : st.seq < n) :
    Tracks { r with eofSeq := some n } (st.snoc (.continuation n [])) where
  firstSeq := h.firstSeq
  mime := h.mime
  chunks := by
    intro s
    rw [Started.firstReceived_snoc]
    simpa [Started.dataFor] using h.chunks s
  eof := by simp [Started.eof_snoc, Started.endsAt, hn]
  contiguous := h.contiguous
  le_end := h.le_end
  end_le := h.end_le

theorem insert {o : Overflow} (h : Tracks r st) {n : Nat} {d : Bytes} (hn : st.seq < n)
    (hd : d ≠ []) {r' : Reassembly} (hi : r.insert o n d = some r') :
    Tracks r' (st.snoc (.continuation n d)) := by
  simp only [Reassembly.insert, Option.bind_eq_bind, Option.bind_eq_some_iff,
    Option.some.injEq] at hi
  obtain ⟨e, ha, rfl⟩ := hi
  have hchunks : ∀ s, (r.chunks.insertIfNew n d)[s]? =
      (st.snoc (.continuation n d)).firstReceived s := by
    intro s
    rw [Std.TreeMap.getElem?_insertIfNew, Started.firstReceived_snoc, ← h.chunks]
    simp only [Nat.compare_eq_eq, Started.dataFor, Std.TreeMap.mem_iff_isSome_getElem?]
    by_cases hs : n = s
    · subst hs
      cases hc : r.chunks[n]? <;> simp [hn, hd]
    · cases hc : r.chunks[s]? <;> simp [hs]
  have hlo : ∀ s ∈ r.chunks.insertIfNew n d, st.seq ≤ s := by
    intro s hs
    rw [Std.TreeMap.mem_iff_isSome_getElem?, Option.isSome_iff_exists] at hs
    obtain ⟨v, hv⟩ := hs
    rw [hchunks] at hv
    have hle := Started.le_of_firstReceived hv
    exact hle
  obtain ⟨h1, h2, h3⟩ := advance_spec hlo _ _ e h.le_end h.end_le
    (fun s hs hs' => Std.TreeMap.mem_insertIfNew.mpr (Or.inr (h.contiguous s hs hs'))) ha
  exact {
    firstSeq := h.firstSeq
    mime := h.mime
    chunks := hchunks
    eof := by
      rw [Started.eof_snoc]
      cases d with
      | nil => exact absurd rfl hd
      | cons b d => exact h.eof
    contiguous := h3
    le_end := Nat.le_trans h.le_end h1
    end_le := h2 }

end Tracks

/-! ## A run of the loop -/

/-- The packet an event brings, if it brings one. -/
def Event.packet (e : Event) : Option Packet :=
  match e.incoming with
  | .datagram bytes => (parsePacket bytes).toOption
  | _ => none

/-- The events a transaction takes from the network before it ends. -/
def eventsRead (o : Overflow) (options : FetchOptions) (request : Text) :
    Phase → List Event → List Event
  | .running state, e :: events =>
    e :: eventsRead o options request (step o options request e (.running state)).1 events
  | _, _ => []

@[simp] theorem eventsRead_returned (o : Overflow) (options : FetchOptions) (request : Text)
    (result : Except ClientError GuppyResponse) (events : List Event) :
    eventsRead o options request (.returned result) events = [] := by
  cases events <;> rfl

@[simp] theorem eventsRead_panicked (o : Overflow) (options : FetchOptions) (request : Text)
    (events : List Event) : eventsRead o options request .panicked events = [] := by
  cases events <;> rfl

/-- What the packets heard so far say about the phase of the transaction. -/
def Follows (o : Overflow) (heard : List Packet) : Phase → Prop
  | .running none => started heard = none
  | .running (some r) => ∃ st, started heard = some st ∧ Tracks r st
  | .returned (.ok (.success mime body)) => ∃ r st, started heard = some st ∧ Tracks r st ∧
      r.complete o = some true ∧ r.intoResponse = .success mime body
  | _ => True

theorem follows_loopHead {o : Overflow} {options : FetchOptions} {heard : List Packet}
    {state : Option Reassembly} (h : Follows o heard (.running state)) :
    Follows o heard (loopHead o options state) := by
  cases state with
  | none => exact h
  | some r =>
    obtain ⟨st, hst, ht⟩ := h
    cases hc : r.complete o with
    | none => simp only [loopHead, hc, Follows]
    | some complete =>
      cases complete with
      | true =>
        simp only [loopHead, hc]
        exact ⟨r, st, hst, ht, hc, rfl⟩
      | false =>
        simp only [loopHead, hc]
        split
        · trivial
        · exact ⟨st, hst, ht⟩

/-- Sends end the transaction with an error, or leave the phase alone. -/
theorem follows_sendAll {o : Overflow} {heard : List Packet} (sendError : Nat → Option Text)
    {next : Phase} (h : Follows o heard next) (k : Nat) (datagrams : List Bytes) :
    Follows o heard (sendAll sendError k datagrams next).1 := by
  induction datagrams generalizing k with
  | nil => exact h
  | cons d ds ih =>
    unfold sendAll
    split
    · trivial
    · exact ih (k + 1)

theorem follows_onPacket {o : Overflow} {heard : List Packet} {state : Option Reassembly}
    (h : Follows o heard (.running state)) {p : Packet}
    (hseq : ∀ seq mime data, p = .first seq mime data → seq ≤ maxU32) :
    Follows o (heard ++ [p]) (onPacket o state p).2 := by
  cases state with
  | none =>
    have happ := started_append_of_none h p
    cases p with
    | first seq mime data => exact ⟨_, happ, Tracks.start (hseq _ _ _ rfl) mime data⟩
    | continuation seq data => exact happ
    | _ => trivial
  | some r =>
    obtain ⟨st, hst, ht⟩ := h
    have happ := started_append_of_some hst p
    cases p with
    | first seq mime data => exact ⟨_, happ, ht.stray (fun _ => rfl) rfl⟩
    | continuation seq data =>
      simp only [onPacket]
      by_cases hle : seq ≤ r.firstSeq
      · rw [if_pos hle]
        rw [ht.firstSeq] at hle
        refine ⟨_, happ, ht.stray (fun s => ?_) ?_⟩
        · simp [Started.dataFor, Nat.not_lt.mpr hle]
        · cases data <;> simp [Started.endsAt, Nat.not_lt.mpr hle]
      · rw [if_neg hle]
        have hlt : st.seq < seq := by
          rw [← ht.firstSeq]
          exact Nat.lt_of_not_le hle
        cases data with
        | nil => exact ⟨_, happ, ht.setEof hlt⟩
        | cons b data =>
          simp only [List.isEmpty_cons, Bool.false_eq_true, ite_false]
          cases hi : r.insert o seq (b :: data) with
          | none => trivial
          | some r' => exact ⟨_, happ, ht.insert hlt (List.cons_ne_nil _ _) hi⟩
    | _ => exact ⟨_, happ, ht.stray (fun _ => rfl) rfl⟩

/-- One turn takes the packets heard to one more, if the turn brings one. -/
theorem follows_step {o : Overflow} (options : FetchOptions) (request : Text)
    {heard : List Packet} {state : Option Reassembly} (h : Follows o heard (.running state))
    (e : Event) :
    Follows o (heard ++ e.packet.toList) (step o options request e (.running state)).1 := by
  have hturn : Follows o (heard ++ e.packet.toList) (turn o request state e).1 := by
    unfold turn Event.packet
    cases e.incoming with
    | failed error => trivial
    | timeout => simpa using follows_sendAll e.sendError h 0 _
    | datagram bytes =>
      cases hp : parsePacket bytes with
      | error _ =>
        simp only [hp, Except.toOption, Option.toList_none, List.append_nil]
        exact h
      | ok p =>
        simp only [hp, Except.toOption, Option.toList_some]
        exact follows_sendAll e.sendError (follows_onPacket h (parsePacket_seq_le hp).1) 0 _
  unfold step
  simp only
  split
  · next hr => exact follows_loopHead (by rw [← hr]; exact hturn)
  · exact hturn

/-- **A run of the loop** ends in a phase that follows from the packets it has read. -/
theorem follows_runLoop {o : Overflow} (options : FetchOptions) (request : Text)
    {heard : List Packet} {phase : Phase} (h : Follows o heard phase) (events : List Event) :
    Follows o (heard ++ (eventsRead o options request phase events).filterMap Event.packet)
      (runLoop o options request phase events) := by
  induction events generalizing heard phase with
  | nil => simpa [eventsRead, runLoop] using h
  | cons e events ih =>
    cases phase with
    | running state =>
      have hstep := ih (follows_step options request h e)
      rw [List.append_assoc] at hstep
      have hread : (eventsRead o options request (.running state) (e :: events)).filterMap
          Event.packet = e.packet.toList ++ (eventsRead o options request
            (step o options request e (.running state)).1 events).filterMap Event.packet := by
        rw [eventsRead, List.filterMap_cons]
        cases e.packet <;> rfl
      rw [hread]
      exact hstep
    | returned result => simpa [runLoop, step] using ih h
    | panicked => simpa [runLoop, step] using ih h

/-! ## What a success holds -/

namespace Started

/-- The first-received data of the numbers from the first packet's up to `eof`, in order. -/
def joinedTo (st : Started) (eof : Nat) : Bytes :=
  (List.range' st.seq (eof - st.seq)).flatMap fun s => (st.firstReceived s).getD []

/-- `body` is the response that was heard: there is an end-of-file packet, the numbers before it
are all present, and `body` is their first-received data in order. -/
def IsWholeBody (st : Started) (body : Bytes) : Prop :=
  ∃ eof, st.eof = some eof ∧ (∀ s, st.seq ≤ s → s < eof → (st.firstReceived s).isSome) ∧
    body = st.joinedTo eof

/-- No packet with data is numbered at or beyond the end-of-file packet. -/
def NoStray (st : Started) : Prop :=
  ∀ eof, st.eof = some eof → ∀ n d, .continuation n d ∈ st.after → d ≠ [] → n < eof

theorem mem_after_of_firstReceived {st : Started} {s : Nat} {d : Bytes}
    (h : st.firstReceived s = some d) (hs : s ≠ st.seq) :
    .continuation s d ∈ st.after ∧ d ≠ [] := by
  rw [firstReceived, if_neg hs] at h
  obtain ⟨p, hm, hp⟩ := List.exists_of_findSome?_eq_some h
  cases p <;> simp only [dataFor, reduceCtorEq] at hp
  split at hp
  · next hc =>
    cases hp
    obtain ⟨rfl, -, hd⟩ := hc
    exact ⟨hm, hd⟩
  · cases hp

theorem firstReceived_isSome {st : Started} {n : Nat} {d : Bytes}
    (hm : .continuation n d ∈ st.after) (hn : st.seq < n) (hd : d ≠ []) :
    (st.firstReceived n).isSome := by
  rw [firstReceived, if_neg (by omega), List.findSome?_isSome_iff]
  exact ⟨_, hm, by simp [dataFor, hn, hd]⟩

end Started

/-- **The body of a success**: the numbers up to the end of the file are all present, and the body
is their data followed by every chunk buffered from the end-of-file number on. -/
theorem success_body {o : Overflow} {r : Reassembly} {st : Started} (ht : Tracks r st)
    (hc : r.complete o = some true) :
    ∃ eof, st.eof = some eof ∧ (∀ s, st.seq ≤ s → s < eof → (st.firstReceived s).isSome) ∧
      r.intoResponse = .success st.mime
        (st.joinedTo eof ++ (entriesFrom r.chunks eof).flatMap Prod.snd) := by
  simp only [Reassembly.complete, Option.bind_eq_bind, Option.bind_eq_some_iff,
    Option.some.injEq, beq_iff_eq] at hc
  obtain ⟨eof, hadd, heof⟩ := hc
  rw [ht.eof] at heof
  have hlt := Started.lt_of_eof heof
  have hnext : eof = r.contiguousEnd + 1 := by
    rcases Overflow.add_one_eq_some ht.end_le hadd with h | h <;> omega
  have hpresent : ∀ s, st.seq ≤ s → s < eof → (st.firstReceived s).isSome := by
    intro s h1 h2
    rw [← ht.chunks, ← Std.TreeMap.mem_iff_isSome_getElem?]
    exact ht.contiguous s h1 (by omega)
  refine ⟨eof, heof, hpresent, ?_⟩
  have hlo : ∀ k v, r.chunks[k]? = some v → st.seq ≤ k := by
    intro k v hk
    rw [ht.chunks] at hk
    exact Started.le_of_firstReceived hk
  have hrun : ∀ k, st.seq ≤ k → k < eof →
      r.chunks[k]? = some ((st.firstReceived k).getD []) := by
    intro k h1 h2
    obtain ⟨v, hv⟩ := Option.isSome_iff_exists.mp (hpresent k h1 h2)
    rw [ht.chunks, hv]
    rfl
  have hlist := toList_eq_run_append hlo hrun
  rw [Reassembly.intoResponse, hlist, List.flatMap_append, List.flatMap_map, ht.mime]
  rfl

/-- Nothing is left beyond the end-of-file number exactly when no stray data was heard. -/
theorem entriesFrom_eq_nil_iff {r : Reassembly} {st : Started} (ht : Tracks r st) {eof : Nat}
    (heof : st.eof = some eof) :
    (entriesFrom r.chunks eof).flatMap Prod.snd = [] ↔ st.NoStray := by
  have hlt := Started.lt_of_eof heof
  rw [List.flatMap_eq_nil_iff]
  constructor
  · intro h eof' heof' n d hm hd
    rw [heof, Option.some.injEq] at heof'
    subst heof'
    rcases Nat.lt_or_ge n eof with hn | hn
    · exact hn
    · obtain ⟨v, hv⟩ := Option.isSome_iff_exists.mp
        (Started.firstReceived_isSome hm (by omega) hd)
      have hmem : (n, v) ∈ entriesFrom r.chunks eof :=
        List.mem_filter.mpr ⟨mem_toList_iff.mpr (by rw [ht.chunks, hv]), by simpa using hn⟩
      exact absurd (h _ hmem) (Started.mem_after_of_firstReceived hv (by omega)).2
  · rintro h ⟨k, v⟩ hm
    obtain ⟨hl, hk⟩ := List.mem_filter.mp hm
    rw [mem_toList_iff, ht.chunks] at hl
    have hk' : eof ≤ k := by simpa using hk
    obtain ⟨hmem, hv⟩ := Started.mem_after_of_firstReceived hl (by omega)
    have := h eof heof k v hmem hv
    omega

/-- The packets a whole transaction reads before it ends. -/
def packetsRead (o : Overflow) (options : FetchOptions) (request : Text) (events : List Event) :
    List Packet :=
  (eventsRead o options request (loopHead o options none) events).filterMap Event.packet

theorem transact_success {o : Overflow} {options : FetchOptions} {request : Text}
    {sendError : Option Text} {events : List Event} {mime : Text} {body : Bytes}
    (h : transact o options request sendError events = .returned (.ok (.success mime body))) :
    ∃ r st, started (packetsRead o options request events) = some st ∧ Tracks r st ∧
      r.complete o = some true ∧ r.intoResponse = .success mime body := by
  cases sendError with
  | some e => cases h
  | none =>
    have hstart : Follows o [] (loopHead o options none) := rfl
    have hrun := follows_runLoop options request hstart events
    change runLoop o options request (loopHead o options none) events = _ at h
    rw [h, List.nil_append] at hrun
    exact hrun

/-- **When the body is the response's**: for any datagrams in any order, a success's body is the
first-received data of the packets from the first one up to the end of the file exactly when no
packet with data was numbered at or beyond the end-of-file packet. -/
theorem transact_body_iff {o : Overflow} {options : FetchOptions} {request : Text}
    {sendError : Option Text} {events : List Event} {mime : Text} {body : Bytes}
    (h : transact o options request sendError events = .returned (.ok (.success mime body))) :
    ∃ st, started (packetsRead o options request events) = some st ∧
      (st.IsWholeBody body ↔ st.NoStray) := by
  obtain ⟨r, st, hst, ht, hc, hresp⟩ := transact_success h
  refine ⟨st, hst, ?_⟩
  obtain ⟨eof, heof, hpresent, hbody⟩ := success_body ht hc
  rw [hresp, GuppyResponse.success.injEq] at hbody
  obtain ⟨-, rfl⟩ := hbody
  rw [← entriesFrom_eq_nil_iff ht heof]
  constructor
  · rintro ⟨eof', heof', -, hjoin⟩
    rw [heof, Option.some.injEq] at heof'
    subst heof'
    exact List.append_right_eq_self.mp hjoin
  · intro hnil
    exact ⟨eof, heof, hpresent, by rw [hnil, List.append_nil]⟩

/-- A datagram that arrives in a turn whose sends succeed. -/
def arrival (bytes : Bytes) : Event := ⟨.datagram bytes, fun _ => none⟩

/-- Three datagrams of a text that ends at number 101, and one chunk numbered beyond its end. -/
def strayRun : List Event :=
  [arrival (encodeFirst 100 "text/plain".toList [65]), arrival (encodeContinuation 102 [67]),
    arrival (encodeContinuation 101 [])]

theorem transact_strayRun (o : Overflow) : transact o {} [] none strayRun =
    .returned (.ok (.success "text/plain".toList [65, 67])) := by
  cases o <;> rfl

theorem transact_body_iff_strayRun :
    ∃ st, started (packetsRead .checked {} [] strayRun) = some st ∧
      (st.IsWholeBody [65, 67] ↔ st.NoStray) :=
  transact_body_iff (transact_strayRun .checked)

/-- The chunk numbered 102 is joined to the body of a response that ends at 101. -/
theorem transact_body_not_whole : ¬ ∀ (o : Overflow) (options : FetchOptions) (request : Text)
    (sendError : Option Text) (events : List Event) (mime : Text) (body : Bytes),
    transact o options request sendError events = .returned (.ok (.success mime body)) →
      ∃ st, started (packetsRead o options request events) = some st ∧ st.IsWholeBody body := by
  intro h
  obtain ⟨st, hst, eof, heof, -, hbody⟩ := h _ _ _ _ _ _ _ (transact_strayRun .checked)
  have hst' : started (packetsRead .checked {} [] strayRun) = some ⟨100, "text/plain".toList, [65],
      [.continuation 102 [67], .continuation 101 []]⟩ := by rfl
  rw [hst', Option.some.injEq] at hst
  subst hst
  have heof' : eof = 101 := by
    have : Started.eof ⟨100, "text/plain".toList, [65],
      [.continuation 102 [67], .continuation 101 []]⟩ = some 101 := by decide
    rw [this, Option.some.injEq] at heof
    exact heof.symm
  subst heof'
  revert hbody
  decide

end Smolweb.Guppy
