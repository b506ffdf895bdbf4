import Mathlib.Algebra.GroupWithZero.Nat
import Mathlib.Data.List.Perm.Subperm
import Smolweb.Guppy.Verify.Reassembly

/-!
# How a transaction ends

As long as the socket works, the packets that arrive decide how a transaction ends: it goes on
while they are `Pending`, and ends at the first packet after which they are not. `Stands` says
where a transaction stands after some packets; a turn keeps it (`stands_step`), and so does a run
(`stands_runLoop`).

The one way to a panic, or to a sum that wraps around, is data for every number up to the largest
`u32` (`transact_inRange_iff`).
-/

namespace Smolweb.Guppy

/-! ## What the packets decide -/

/-- A prompt, a redirect or an error arrived before any first packet. -/
def answered : List Packet → Bool
  | [] => false
  | .first _ _ _ :: _ => false
  | .continuation _ _ :: heard => answered heard
  | _ :: _ => true

namespace Started

/-- The bytes that a packet adds to what is buffered. -/
def dataLength (first : Nat) : Packet → Nat
  | .continuation n d => if first < n then d.length else 0
  | _ => 0

/-- The bytes that have arrived, every chunk counted as often as it came. -/
def arrived (st : Started) : Nat := st.data.length + (st.after.map (dataLength st.seq)).sum

/-- There is data for every number from the first packet's to the largest. -/
def Fills (st : Started) : Prop :=
  ∀ s, st.seq ≤ s → s ≤ maxU32 → (st.firstReceived s).isSome

/-- The end of the file is known, and there is data for the numbers before it and not for its
own. -/
def Whole (st : Started) : Prop :=
  ∃ eof, st.eof = some eof ∧ (∀ s, st.seq ≤ s → s < eof → (st.firstReceived s).isSome) ∧
    st.firstReceived eof = none

theorem arrived_snoc (st : Started) (p : Packet) :
    (st.snoc p).arrived = st.arrived + dataLength st.seq p := by
  simp only [arrived, snoc, List.map_append, List.map_singleton, List.sum_append,
    List.sum_singleton, Nat.add_assoc]

end Started

/-- The transaction goes on after these packets. -/
def Pending (options : FetchOptions) (heard : List Packet) : Prop :=
  answered heard = false ∧
    ∀ st, started heard = some st → ¬ st.Fills ∧ ¬ st.Whole ∧ st.arrived ≤ options.maxBody

theorem answered_append_of_some {heard : List Packet} {st : Started}
    (h : started heard = some st) (p : Packet) : answered (heard ++ [p]) = answered heard := by
  induction heard with
  | nil => cases h
  | cons q heard ih =>
    cases q with
    | continuation => exact ih h
    | _ => rfl

theorem answered_append_of_none {heard : List Packet} (h : started heard = none)
    (ha : answered heard = false) (p : Packet) : answered (heard ++ [p]) = answered [p] := by
  induction heard with
  | nil => rfl
  | cons q heard ih =>
    cases q with
    | continuation => exact ih h ha
    | first => cases h
    | _ => cases ha

/-! ## The reassembly state against the packets -/

/-- The reassembly state tracks the packets, its contiguous end is the largest one, and it counts
the bytes that arrived. -/
structure Exact (r : Reassembly) (st : Started) : Prop where
  tracks : Tracks r st
  gap : r.contiguousEnd + 1 ∉ r.chunks
  buffered : r.buffered = st.arrived

/-- Where overflow panics, the loop of `insert` ends before a gap. -/
theorem advance_gap {chunks : Std.TreeMap Nat Bytes} {fuel e e' : Nat}
    (h : advance .checked chunks fuel e = some e') : e' + 1 ∉ chunks := by
  induction fuel generalizing e with
  | zero => cases h
  | succ fuel ih =>
    simp only [advance, Option.bind_eq_bind, Option.bind_eq_some_iff] at h
    obtain ⟨next, hadd, h⟩ := h
    obtain ⟨-, rfl⟩ := Overflow.checked_add_eq_some hadd
    split at h
    · exact ih h
    · next hmissing =>
      cases h
      rwa [Std.TreeMap.mem_iff_contains]

/-- The loop of `insert` fails by an overflow, with every number present, or for want of fuel. -/
theorem advance_eq_none {chunks : Std.TreeMap Nat Bytes} {fuel e : Nat} (he : e ≤ maxU32)
    (h : advance .checked chunks fuel e = none) :
    (∀ s, e < s → s ≤ maxU32 → s ∈ chunks) ∨ ∀ s, e < s → s ≤ e + fuel → s ∈ chunks := by
  induction fuel generalizing e with
  | zero =>
    right
    intro s h1 h2
    omega
  | succ fuel ih =>
    simp only [advance, Option.bind_eq_bind] at h
    rcases Nat.lt_or_ge e maxU32 with hlt | hge
    · rw [Overflow.add_of_le .checked hlt, Option.bind_some] at h
      split at h
      · next hcont =>
        have hnext : e + 1 ∈ chunks := Std.TreeMap.mem_iff_contains.mpr hcont
        have hcons : ∀ s, e < s → (e + 1 < s → s ∈ chunks) → s ∈ chunks := by
          intro s h1 h2
          rcases Nat.lt_or_eq_of_le (Nat.succ_le_of_lt h1) with h3 | h3
          · exact h2 h3
          · rwa [← h3]
        rcases ih hlt h with hall | hfuel
        · exact Or.inl fun s h1 h2 => hcons s h1 fun h3 => hall s h3 h2
        · exact Or.inr fun s h1 h2 => hcons s h1 fun h3 => hfuel s h3 (by omega)
      · cases h
    · left
      intro s h1 h2
      omega

/-- Consecutive keys are no more than the map has. -/
theorem le_size_of_consecutive {chunks : Std.TreeMap Nat Bytes} {e n : Nat}
    (h : ∀ s, e < s → s ≤ e + n → s ∈ chunks) : n ≤ chunks.size := by
  have hsub : List.range' (e + 1) n ⊆ chunks.keys := by
    intro s hs
    rw [List.mem_range'_1] at hs
    exact Std.TreeMap.mem_keys.mpr (h s (by omega) (by omega))
  have hnodup : (List.range' (e + 1) n).Nodup := List.nodup_range'
  have hle := (List.subperm_of_subset hnodup hsub).length_le
  rwa [List.length_range', Std.TreeMap.length_keys] at hle

namespace Exact

variable {r : Reassembly} {st : Started}

theorem start {seq : Nat} (h : seq ≤ maxU32) (mime : Text) (data : Bytes) :
    Exact (Reassembly.start seq mime data) ⟨seq, mime, data, []⟩ where
  tracks := Tracks.start h mime data
  gap := by
    simp [Reassembly.start, Std.TreeMap.mem_insert]
  buffered := rfl

theorem stray (h : Exact r st) {p : Packet} (hd : ∀ s, Started.dataFor st.seq s p = none)
    (he : Started.endsAt st.seq p = none) (hlen : Started.dataLength st.seq p = 0) :
    Exact r (st.snoc p) where
  tracks := h.tracks.stray hd he
  gap := h.gap
  buffered := by rw [Started.arrived_snoc, hlen, h.buffered, Nat.add_zero]

theorem setEof (h : Exact r st) {n : Nat} (hn : st.seq < n) :
    Exact { r with eofSeq := some n } (st.snoc (.continuation n [])) where
  tracks := h.tracks.setEof hn
  gap := h.gap
  buffered := by
    rw [Started.arrived_snoc, Started.dataLength, if_pos hn]
    exact h.buffered

theorem insert (h : Exact r st) {n : Nat} {d : Bytes} (hn : st.seq < n) (hd : d ≠ [])
    {r' : Reassembly} (hi : r.insert .checked n d = some r') :
    Exact r' (st.snoc (.continuation n d)) where
  tracks := h.tracks.insert hn hd hi
  gap := by
    simp only [Reassembly.insert, Option.bind_eq_bind, Option.bind_eq_some_iff,
      Option.some.injEq] at hi
    obtain ⟨e, ha, rfl⟩ := hi
    exact advance_gap ha
  buffered := by
    simp only [Reassembly.insert, Option.bind_eq_bind, Option.bind_eq_some_iff,
      Option.some.injEq] at hi
    obtain ⟨e, ha, rfl⟩ := hi
    rw [Started.arrived_snoc, Started.dataLength, if_pos hn, ← h.buffered]

/-- An insertion that overflows completes the numbers. -/
theorem insert_none (h : Exact r st) {n : Nat} {d : Bytes} (hn : st.seq < n) (hd : d ≠ [])
    (hi : r.insert .checked n d = none) : (st.snoc (.continuation n d)).Fills := by
  have hadvance : advance .checked (r.chunks.insertIfNew n d)
      ((r.chunks.insertIfNew n d).size + 1) r.contiguousEnd = none := by
    cases ha : advance .checked (r.chunks.insertIfNew n d)
        ((r.chunks.insertIfNew n d).size + 1) r.contiguousEnd with
    | none => rfl
    | some e => simp [Reassembly.insert, ha] at hi
  have hpresent : ∀ s, s ∈ r.chunks.insertIfNew n d →
      ((st.snoc (.continuation n d)).firstReceived s).isSome := by
    intro s hs
    rw [Started.firstReceived_snoc, ← h.tracks.chunks]
    rcases Std.TreeMap.mem_insertIfNew.mp hs with heq | hs
    · rw [Nat.compare_eq_eq] at heq
      subst heq
      simp [Started.dataFor, hn, hd]
    · rw [Option.isSome_or, Std.TreeMap.mem_iff_isSome_getElem?.mp hs]
      rfl
  have hbelow : ∀ s, st.seq ≤ s → s ≤ r.contiguousEnd → s ∈ r.chunks.insertIfNew n d :=
    fun s h1 h2 => Std.TreeMap.mem_insertIfNew.mpr (Or.inr (h.tracks.contiguous s h1 h2))
  rcases advance_eq_none h.tracks.end_le hadvance with hall | hfuel
  · intro s h1 h2
    rcases Nat.lt_or_ge r.contiguousEnd s with h3 | h3
    · exact hpresent s (hall s h3 h2)
    · exact hpresent s (hbelow s h1 h3)
  · have := le_size_of_consecutive hfuel
    omega

/-- All numbers are there exactly when the contiguous end is the last one. -/
theorem fills_iff (h : Exact r st) : st.Fills ↔ r.contiguousEnd = maxU32 := by
  constructor
  · intro hfills
    rcases Nat.lt_or_eq_of_le h.tracks.end_le with hlt | heq
    · have hnext := hfills (r.contiguousEnd + 1) (Nat.le_succ_of_le h.tracks.le_end) hlt
      rw [← h.tracks.chunks, ← Std.TreeMap.mem_iff_isSome_getElem?] at hnext
      exact absurd hnext h.gap
    · exact heq
  · intro heq s h1 h2
    rw [← h.tracks.chunks, ← Std.TreeMap.mem_iff_isSome_getElem?]
    exact h.tracks.contiguous s h1 (heq ▸ h2)

/-- The response is whole exactly when its end follows the contiguous end. -/
theorem whole_iff_eofSeq (h : Exact r st) : st.Whole ↔ r.eofSeq = some (r.contiguousEnd + 1) := by
  rw [h.tracks.eof]
  constructor
  · rintro ⟨eof, heof, hpresent, habsent⟩
    have hlt := Started.lt_of_eof heof
    have hle := h.tracks.le_end
    rcases Nat.lt_trichotomy (r.contiguousEnd + 1) eof with h1 | rfl | h1
    · have hnext := hpresent (r.contiguousEnd + 1) (by omega) h1
      rw [← h.tracks.chunks, ← Std.TreeMap.mem_iff_isSome_getElem?] at hnext
      exact absurd hnext h.gap
    · exact heof
    · have hmem := h.tracks.contiguous eof (by omega) (by omega)
      rw [Std.TreeMap.mem_iff_isSome_getElem?, h.tracks.chunks, habsent] at hmem
      cases hmem
  · intro heof
    refine ⟨_, heof, ?_, ?_⟩
    · intro s h1 h2
      rw [← h.tracks.chunks, ← Std.TreeMap.mem_iff_isSome_getElem?]
      exact h.tracks.contiguous s h1 (by omega)
    · rw [← h.tracks.chunks]
      exact Std.TreeMap.getElem?_eq_none h.gap

end Exact

/-! ## Where a transaction stands -/

/-- Where the transaction stands after the packets `heard`, an I/O error apart. -/
def Stands (options : FetchOptions) (heard : List Packet) : Phase → Prop
  | .running none => started heard = none ∧ answered heard = false
  | .running (some r) => ∃ st, started heard = some st ∧ Exact r st ∧ Pending options heard
  | .returned (.ok (.success _ _)) => ∃ st, started heard = some st ∧ ¬ st.Fills ∧ st.Whole
  | .returned (.ok _) => started heard = none ∧ answered heard = true
  | .returned (.error (.bodyTooLarge _)) => ∃ st, started heard = some st ∧ ¬ st.Fills ∧
      ¬ st.Whole ∧ options.maxBody < st.arrived
  | .returned (.error (.io _)) => True
  | .panicked => ∃ st, started heard = some st ∧ st.Fills

/-- The same at the end of a turn, before the checks at the head of the loop. -/
def Turned (options : FetchOptions) (heard : List Packet) : Phase → Prop
  | .running (some r) => ∃ st, started heard = some st ∧ Exact r st ∧ answered heard = false
  | phase => Stands options heard phase

variable {options : FetchOptions} {request : Text} {heard : List Packet}

theorem Stands.pending {state : Option Reassembly} (h : Stands options heard (.running state)) :
    Pending options heard := by
  cases state with
  | none =>
    refine ⟨h.2, fun st hst => ?_⟩
    rw [h.1] at hst
    cases hst
  | some r =>
    obtain ⟨st, -, -, hpending⟩ := h
    exact hpending

theorem Stands.turned {phase : Phase} (h : Stands options heard phase) :
    Turned options heard phase := by
  unfold Turned
  split
  · obtain ⟨st, hst, hexact, hpending⟩ := h
    exact ⟨st, hst, hexact, hpending.1⟩
  · exact h

/-- The head of the loop decides by what has arrived. -/
theorem stands_loopHead {state : Option Reassembly}
    (h : Turned options heard (.running state)) :
    Stands options heard (loopHead .checked options state) := by
  cases state with
  | none => exact h
  | some r =>
    obtain ⟨st, hst, hexact, hanswered⟩ := h
    simp only [loopHead, Reassembly.complete, Option.bind_eq_bind]
    rcases Nat.lt_or_eq_of_le hexact.tracks.end_le with hlt | heq
    · rw [Overflow.add_of_le .checked hlt, Option.bind_some]
      have hfills : ¬ st.Fills := fun hf => Nat.ne_of_lt hlt (hexact.fills_iff.mp hf)
      by_cases hwhole : r.eofSeq = some (r.contiguousEnd + 1)
      · simp only [hwhole, beq_self_eq_true]
        exact ⟨st, hst, hfills, hexact.whole_iff_eofSeq.mpr hwhole⟩
      · simp only [beq_eq_false_iff_ne.mpr hwhole]
        rw [← hexact.whole_iff_eofSeq] at hwhole
        split
        · next hlarge => exact ⟨st, hst, hfills, hwhole, hexact.buffered ▸ hlarge⟩
        · next hsmall =>
          refine ⟨st, hst, hexact, hanswered, fun st' hst' => ?_⟩
          cases hst.symm.trans hst'
          exact ⟨hfills, hwhole, hexact.buffered ▸ Nat.le_of_not_lt hsmall⟩
    · have hpanic : Overflow.checked.add maxU32 r.contiguousEnd 1 = none := by
        rw [heq]
        rfl
      rw [hpanic, Option.bind_none]
      exact ⟨st, hst, hexact.fills_iff.mpr heq⟩

theorem turned_sendAll (sendError : Nat → Option Text) {next : Phase}
    (h : Turned options heard next) (k : Nat) (datagrams : List Bytes) :
    Turned options heard (sendAll sendError k datagrams next).1 := by
  induction datagrams generalizing k with
  | nil => exact h
  | cons d ds ih =>
    unfold sendAll
    split
    · trivial
    · exact ih (k + 1)

theorem turned_onPacket {state : Option Reassembly} (h : Stands options heard (.running state))
    {p : Packet} (hseq : ∀ seq mime data, p = .first seq mime data → seq ≤ maxU32) :
    Turned options (heard ++ [p]) (onPacket .checked state p).2 := by
  cases state with
  | none =>
    obtain ⟨hnone, hanswered⟩ := h
    have happ := started_append_of_none hnone p
    have hans := answered_append_of_none hnone hanswered p
    cases p with
    | first seq mime data => exact ⟨_, happ, Exact.start (hseq _ _ _ rfl) mime data, hans⟩
    | _ => exact ⟨happ, hans⟩
  | some r =>
    obtain ⟨st, hst, hexact, hanswered, -⟩ := h
    have happ := started_append_of_some hst p
    have hans := (answered_append_of_some hst p).trans hanswered
    cases p with
    | continuation seq data =>
      simp only [onPacket]
      by_cases hle : seq ≤ r.firstSeq
      · rw [if_pos hle]
        rw [hexact.tracks.firstSeq] at hle
        refine ⟨_, happ, hexact.stray (fun s => ?_) ?_ ?_, hans⟩
        · simp [Started.dataFor, Nat.not_lt.mpr hle]
        · cases data <;> simp [Started.endsAt, Nat.not_lt.mpr hle]
        · exact if_neg (Nat.not_lt.mpr hle)
      · rw [if_neg hle]
        have hlt : st.seq < seq := by
          rw [← hexact.tracks.firstSeq]
          exact Nat.lt_of_not_le hle
        cases data with
        | nil => exact ⟨_, happ, hexact.setEof hlt, hans⟩
        | cons b data =>
          simp only [List.isEmpty_cons, Bool.false_eq_true, ite_false]
          cases hi : r.insert .checked seq (b :: data) with
          | none => exact ⟨_, happ, hexact.insert_none hlt (List.cons_ne_nil _ _) hi⟩
          | some r' => exact ⟨_, happ, hexact.insert hlt (List.cons_ne_nil _ _) hi, hans⟩
    | _ => exact ⟨_, happ, hexact.stray (fun _ => rfl) rfl rfl, hans⟩

/-- One turn takes the packets to one more, if the turn brings one. -/
theorem stands_step {state : Option Reassembly} (h : Stands options heard (.running state))
    (e : Event) :
    Stands options (heard ++ e.packet.toList)
      (step .checked options request e (.running state)).1 := by
  have hturn : Turned options (heard ++ e.packet.toList) (turn .checked request state e).1 := by
    unfold turn Event.packet
    cases e.incoming with
    | failed error => trivial
    | timeout => simpa using turned_sendAll e.sendError h.turned 0 _
    | datagram bytes =>
      cases hp : parsePacket bytes with
      | error _ =>
        simp only [hp, Except.toOption, Option.toList_none, List.append_nil]
        exact h.turned
      | ok p =>
        simp only [hp, Except.toOption, Option.toList_some]
        exact turned_sendAll e.sendError (turned_onPacket h (parsePacket_seq_le hp).1) 0 _
  unfold step
  simp only
  split
  · next hr => exact stands_loopHead (hr ▸ hturn)
  · next phase hne =>
    unfold Turned at hturn
    split at hturn
    · next r hr => exact absurd hr (hne (some r))
    · exact hturn

/-! ## Whole runs -/

/-- The packets that some events bring. -/
def arriving (events : List Event) : List Packet := events.filterMap Event.packet

/-- Nothing fails in the turn but, perhaps, the wait for a datagram. -/
def Event.Quiet (e : Event) : Prop :=
  (∀ error, e.incoming ≠ .failed error) ∧ ∀ k, e.sendError k = none

/-- A run over the packets `all` read `heard` of them and ended in `phase`. -/
structure Ends (options : FetchOptions) (heard all : List Packet) (phase : Phase) : Prop where
  isRead : heard <+: all
  stands : Stands options heard phase
  before : ∀ pre, pre <+: heard → pre ≠ heard → Pending options pre
  readAll : ∀ state, phase = .running state → heard = all

/-- A run that ends reads no packets after that. -/
theorem runLoop_ended {o : Overflow} {phase : Phase} (h : ∀ state, phase ≠ .running state)
    (events : List Event) : runLoop o options request phase events = phase := by
  induction events with
  | nil => rfl
  | cons e events ih =>
    have hstep : (step o options request e phase).1 = phase := by
      cases phase with
      | running state => exact absurd rfl (h state)
      | _ => rfl
    rw [runLoop, List.foldl_cons, hstep]
    exact ih

/-- **A run** reads packets up to the first after which it is not pending. -/
theorem runLoop_ends {phase : Phase} (h : Stands options heard phase)
    (hbefore : ∀ pre, pre <+: heard → pre ≠ heard → Pending options pre) (events : List Event) :
    ∃ more, Ends options (heard ++ more) (heard ++ arriving events)
      (runLoop .checked options request phase events) := by
  induction events generalizing heard phase with
  | nil =>
    refine ⟨[], ?_⟩
    rw [arriving, List.filterMap_nil, List.append_nil]
    exact ⟨List.prefix_rfl, h, hbefore, fun _ _ => rfl⟩
  | cons e events ih =>
    by_cases hrunning : ∃ state, phase = .running state
    · obtain ⟨state, rfl⟩ := hrunning
      have hnext : ∀ pre, pre <+: heard ++ e.packet.toList → pre ≠ heard ++ e.packet.toList →
          Pending options pre := by
        intro pre hpre hne
        cases hp : e.packet with
        | none =>
          rw [hp, Option.toList_none, List.append_nil] at hpre hne
          exact hbefore pre hpre hne
        | some p =>
          rw [hp, Option.toList_some] at hpre hne
          rcases List.prefix_concat_iff.mp hpre with heq | hpre
          · exact absurd heq hne
          · by_cases heq : pre = heard
            · exact heq ▸ h.pending
            · exact hbefore pre hpre heq
      obtain ⟨more, hends⟩ := ih (stands_step h e) hnext
      have hall : heard ++ arriving (e :: events) =
          heard ++ e.packet.toList ++ arriving events := by
        rw [arriving, List.filterMap_cons, List.append_assoc]
        cases e.packet <;> rfl
      refine ⟨e.packet.toList ++ more, ?_⟩
      rw [hall, ← List.append_assoc]
      exact hends
    · have hended : ∀ state, phase ≠ .running state := fun state heq => hrunning ⟨state, heq⟩
      refine ⟨[], ?_⟩
      rw [runLoop_ended hended, List.append_nil]
      exact ⟨List.prefix_append _ _, h, hbefore, fun state heq => absurd heq (hended state)⟩

/-- A run that has ended, not by an I/O error, is no longer pending. -/
theorem Stands.not_pending {phase : Phase} (h : Stands options heard phase)
    (hended : ∀ state, phase ≠ .running state)
    (hio : ∀ message, phase ≠ .returned (.error (.io message))) : ¬ Pending options heard := by
  rintro ⟨hanswered, hpending⟩
  unfold Stands at h
  split at h
  · exact hended _ rfl
  · exact hended _ rfl
  · obtain ⟨st, hst, -, hwhole⟩ := h
    exact (hpending st hst).2.1 hwhole
  · rw [h.2] at hanswered
    cases hanswered
  · obtain ⟨st, hst, -, -, hlarge⟩ := h
    exact Nat.not_le_of_lt hlarge (hpending st hst).2.2
  · exact hio _ rfl
  · obtain ⟨st, hst, hfills⟩ := h
    exact (hpending st hst).1 hfills

/-- **Where a run ends**: at the first packets after which it is not pending, unless the socket
fails. -/
theorem Ends.eq_first {all pre : List Packet} {phase : Phase} (h : Ends options heard all phase)
    (hio : ∀ message, phase ≠ .returned (.error (.io message))) (hpre : pre <+: all)
    (hstop : ¬ Pending options pre)
    (hfirst : ∀ q, q <+: pre → q ≠ pre → Pending options q) : heard = pre := by
  rcases List.prefix_or_prefix_of_prefix h.isRead hpre with hle | hle
  · by_contra hne
    by_cases hrunning : ∃ state, phase = .running state
    · obtain ⟨state, hstate⟩ := hrunning
      have hall := h.readAll state hstate
      exact hne (hle.eq_of_length_le (hall ▸ hpre.length_le))
    · exact h.stands.not_pending (fun state heq => hrunning ⟨state, heq⟩) hio
        (hfirst heard hle hne)
  · by_contra hne
    exact hstop (h.before pre hle (Ne.symm hne))

/-! ## Quiet turns -/

/-- With sends that succeed, all datagrams of a turn go out. -/
theorem sendAll_quiet {sendError : Nat → Option Text} (h : ∀ k, sendError k = none) (k : Nat)
    (datagrams : List Bytes) (next : Phase) :
    sendAll sendError k datagrams next = (next, datagrams) := by
  induction datagrams generalizing k with
  | nil => rfl
  | cons d ds ih => simp only [sendAll, h, ih]

theorem onPacket_ne_io {o : Overflow} {state : Option Reassembly} {p : Packet} {message : Text} :
    (onPacket o state p).2 ≠ .returned (.error (.io message)) := by
  cases p <;> simp only [onPacket] <;> (repeat' split) <;> simp

theorem loopHead_ne_io {o : Overflow} {state : Option Reassembly} {message : Text} :
    loopHead o options state ≠ .returned (.error (.io message)) := by
  unfold loopHead
  repeat' split
  all_goals simp

theorem step_quiet {o : Overflow} {e : Event} (he : e.Quiet) {phase : Phase} {message : Text}
    (h : phase ≠ .returned (.error (.io message))) :
    (step o options request e phase).1 ≠ .returned (.error (.io message)) := by
  cases phase with
  | running state =>
    have hturn : (turn o request state e).1 ≠ .returned (.error (.io message)) := by
      unfold turn
      cases hin : e.incoming with
      | failed error => exact absurd hin (he.1 error)
      | timeout => simp [sendAll_quiet he.2]
      | datagram bytes =>
        simp only
        split
        · simp
        · simp only [sendAll_quiet he.2]
          exact onPacket_ne_io
    unfold step
    simp only
    split
    · exact loopHead_ne_io
    · exact hturn
  | _ => exact h

theorem runLoop_quiet {o : Overflow} {events : List Event} (he : ∀ e ∈ events, e.Quiet)
    {phase : Phase} {message : Text} (h : phase ≠ .returned (.error (.io message))) :
    runLoop o options request phase events ≠ .returned (.error (.io message)) := by
  induction events generalizing phase with
  | nil => exact h
  | cons e events ih =>
    exact ih (fun e' he' => he e' (List.mem_cons_of_mem _ he'))
      (step_quiet (he e List.mem_cons_self) h)

/-! ## Overflow -/

section Overflow

variable {o : Overflow}

theorem advance_of_checked {chunks : Std.TreeMap Nat Bytes} {fuel e e' : Nat}
    (h : advance .checked chunks fuel e = some e') : advance o chunks fuel e = some e' := by
  induction fuel generalizing e with
  | zero => cases h
  | succ fuel ih =>
    simp only [advance, Option.bind_eq_bind, Option.bind_eq_some_iff] at h ⊢
    obtain ⟨next, hadd, h⟩ := h
    refine ⟨next, o.add_of_checked hadd, ?_⟩
    split
    · next hcont =>
      rw [if_pos hcont] at h
      exact ih h
    · next hmissing => rwa [if_neg hmissing] at h

theorem insert_of_checked {r r' : Reassembly} {seq : Nat} {data : Bytes}
    (h : r.insert .checked seq data = some r') : r.insert o seq data = some r' := by
  simp only [Reassembly.insert, Option.bind_eq_bind, Option.bind_eq_some_iff] at h ⊢
  obtain ⟨e, hadvance, hr⟩ := h
  exact ⟨e, advance_of_checked hadvance, hr⟩

theorem complete_of_checked {r : Reassembly} {b : Bool} (h : r.complete .checked = some b) :
    r.complete o = some b := by
  simp only [Reassembly.complete, Option.bind_eq_bind, Option.bind_eq_some_iff] at h ⊢
  obtain ⟨next, hadd, hb⟩ := h
  exact ⟨next, o.add_of_checked hadd, hb⟩

theorem loopHead_of_checked {state : Option Reassembly}
    (h : loopHead .checked options state ≠ .panicked) :
    loopHead o options state = loopHead .checked options state := by
  cases state with
  | none => rfl
  | some r =>
    cases hc : r.complete .checked with
    | none => simp [loopHead, hc] at h
    | some b => simp only [loopHead, hc, complete_of_checked hc]

theorem onPacket_of_checked {state : Option Reassembly} {p : Packet}
    (h : (onPacket .checked state p).2 ≠ .panicked) :
    onPacket o state p = onPacket .checked state p := by
  cases p with
  | continuation seq data =>
    cases state with
    | none => rfl
    | some r =>
      cases hi : r.insert .checked seq data with
      | some r' => simp only [onPacket, hi, insert_of_checked hi]
      | none =>
        simp only [onPacket, hi] at h ⊢
        split
        · rfl
        · next hlt =>
          rw [if_neg hlt] at h
          cases data with
          | nil => rfl
          | cons b data => simp at h
  | _ => rfl

/-- The datagrams a packet has the client send do not depend on the arithmetic. -/
theorem onPacket_datagrams (state : Option Reassembly) (p : Packet) :
    (onPacket o state p).1 = (onPacket .checked state p).1 := by
  cases p with
  | continuation seq data =>
    cases state with
    | none => rfl
    | some r =>
      simp only [onPacket]
      split <;> rfl
  | _ => rfl

/-- Sends that do not all succeed end the transaction whatever comes next. -/
theorem sendAll_cases (sendError : Nat → Option Text) (k : Nat) (datagrams : List Bytes) :
    (∃ sent, ∀ next, sendAll sendError k datagrams next = (next, sent)) ∨
      ∃ sent message, ∀ next,
        sendAll sendError k datagrams next = (.returned (.error (.io message)), sent) := by
  induction datagrams generalizing k with
  | nil => exact Or.inl ⟨[], fun _ => rfl⟩
  | cons d ds ih =>
    cases hk : sendError k with
    | some e => exact Or.inr ⟨[], _, fun next => by simp only [sendAll, hk]; rfl⟩
    | none =>
      rcases ih (k + 1) with ⟨sent, h⟩ | ⟨sent, message, h⟩
      · exact Or.inl ⟨d :: sent, fun next => by simp only [sendAll, hk, h]⟩
      · exact Or.inr ⟨d :: sent, message, fun next => by simp only [sendAll, hk, h]⟩

theorem turn_of_checked {state : Option Reassembly} {e : Event}
    (h : (turn .checked request state e).1 ≠ .panicked) :
    turn o request state e = turn .checked request state e := by
  unfold turn at h ⊢
  cases hin : e.incoming with
  | failed error => rfl
  | timeout => rfl
  | datagram bytes =>
    rw [hin] at h
    simp only at h ⊢
    cases hp : parsePacket bytes with
    | error _ => rfl
    | ok p =>
      rw [hp] at h
      simp only [onPacket_datagrams] at h ⊢
      rcases sendAll_cases e.sendError 0 (onPacket .checked state p).1 with
        ⟨sent, hsent⟩ | ⟨sent, message, hsent⟩
      · rw [hsent] at h
        rw [hsent, hsent, onPacket_of_checked h]
      · rw [hsent, hsent]

theorem step_of_checked {e : Event} {phase : Phase}
    (h : (step .checked options request e phase).1 ≠ .panicked) :
    step o options request e phase = step .checked options request e phase := by
  cases phase with
  | running state =>
    have hturn : (turn .checked request state e).1 ≠ .panicked := by
      intro hpanic
      simp [step, hpanic] at h
    unfold step at h ⊢
    simp only [turn_of_checked hturn] at h ⊢
    split
    · next hr =>
      rw [hr] at h
      rw [loopHead_of_checked h]
    · rfl
  | _ => rfl

/-- A run that does not panic where overflow panics is the same in every build. -/
theorem runLoop_of_checked {events : List Event} {phase : Phase}
    (h : runLoop .checked options request phase events ≠ .panicked) :
    runLoop o options request phase events = runLoop .checked options request phase events := by
  induction events generalizing phase with
  | nil => rfl
  | cons e events ih =>
    have hstep : (step .checked options request e phase).1 ≠ .panicked := by
      intro hpanic
      rw [runLoop, List.foldl_cons, hpanic] at h
      exact h (runLoop_ended (by simp) events)
    rw [runLoop, List.foldl_cons, step_of_checked hstep]
    exact ih h

end Overflow

/-- Over these packets a transaction comes to have data for every number from the first packet's to
the largest: it does not end before. -/
def Overruns (options : FetchOptions) (all : List Packet) : Prop :=
  ∃ pre, pre <+: all ∧ (∃ st, started pre = some st ∧ st.Fills) ∧
    ∀ q, q <+: pre → q ≠ pre → Pending options q

/-- No sum of the transaction leaves a `u32`: it neither panics nor depends on what the build does
on overflow. -/
def InRange (options : FetchOptions) (request : Text) (sendError : Option Text)
    (events : List Event) : Prop :=
  transact .checked options request sendError events ≠ .panicked ∧
    transact .wrapping options request sendError events =
      transact .checked options request sendError events

/-- A transaction over some events ends somewhere in the packets they bring. -/
theorem transact_ends (options : FetchOptions) (request : Text) (events : List Event) :
    ∃ heard, Ends options heard (arriving events)
      (transact .checked options request none events) := by
  have hstart : Stands options [] (loopHead .checked options none) := ⟨rfl, rfl⟩
  exact runLoop_ends hstart (fun pre hpre hne => absurd (List.prefix_nil.mp hpre) hne) events

theorem transact_of_checked {o : Overflow} {events : List Event}
    (h : transact .checked options request none events ≠ .panicked) :
    transact o options request none events = transact .checked options request none events :=
  runLoop_of_checked h

theorem transact_quiet {o : Overflow} {events : List Event} (h : ∀ e ∈ events, e.Quiet)
    (message : Text) :
    transact o options request none events ≠ .returned (.error (.io message)) :=
  runLoop_quiet h nofun

/-- **The numbers stay within a `u32`** unless there comes to be data for every one of them up to
the largest; and when the socket does not fail, only then. -/
theorem transact_inRange_iff (options : FetchOptions) (request : Text) (sendError : Option Text)
    (events : List Event) :
    (¬ Overruns options (arriving events) → InRange options request sendError events) ∧
      (sendError = none → (∀ e ∈ events, e.Quiet) →
        InRange options request sendError events → ¬ Overruns options (arriving events)) := by
  constructor
  · intro hnot
    cases sendError with
    | some e => exact ⟨nofun, rfl⟩
    | none =>
      have hsafe : transact .checked options request none events ≠ .panicked := by
        intro hpanic
        obtain ⟨heard, hends⟩ := transact_ends options request events
        rw [hpanic] at hends
        exact hnot ⟨heard, hends.isRead, hends.stands, hends.before⟩
      exact ⟨hsafe, transact_of_checked hsafe⟩
  · rintro rfl hquiet ⟨hsafe, -⟩ ⟨pre, hpre, ⟨st, hst, hfills⟩, hfirst⟩
    obtain ⟨heard, hends⟩ := transact_ends options request events
    have hstop : ¬ Pending options pre := fun hp => (hp.2 st hst).1 hfills
    have heq := hends.eq_first (transact_quiet hquiet) hpre hstop hfirst
    subst heq
    have hstands := hends.stands
    cases hphase : transact .checked options request none events with
    | panicked => exact hsafe hphase
    | running state =>
      rw [hphase] at hstands
      exact hstop hstands.pending
    | returned result =>
      rw [hphase] at hstands
      unfold Stands at hstands
      split at hstands
      · next heq => cases heq
      · next heq => cases heq
      · obtain ⟨st', hst', hnot, -⟩ := hstands
        cases hst.symm.trans hst'
        exact hnot hfills
      · rw [hst] at hstands
        cases hstands.1
      · obtain ⟨st', hst', hnot, -⟩ := hstands
        cases hst.symm.trans hst'
        exact hnot hfills
      · next message heq => exact transact_quiet hquiet message (hphase.trans heq)
      · next heq => cases heq

/-- One first packet with the largest number is enough. -/
theorem transact_largest : ¬ InRange {} [] none
    [arrival (encodeFirst 4294967295 "text/plain".toList [])] := by
  rintro ⟨hsafe, -⟩
  exact hsafe rfl

end Smolweb.Guppy
