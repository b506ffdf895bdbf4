import Smolweb.Guppy.Verify.EndToEnd
import Smolweb.Guppy.Verify.Outcome

/-!
# The limit on a body

The client counts every chunk that arrives, repeats included, and looks at its limit only while a
packet is missing. `LimitMet` is when that decides as a limit on the body would
(`transact_limit_iff`).
-/

namespace Smolweb.Guppy

namespace Started

/-- A packet of each of the numbers has arrived. -/
def Covers (st : Started) (numbers : List Nat) : Prop :=
  ∀ n ∈ numbers, n = st.seq ∨ ∃ d, .continuation n d ∈ st.after

theorem Covers.append {st : Started} {numbers : List Nat} (h : st.Covers numbers)
    (more : List Packet) : Covers { st with after := st.after ++ more } numbers := by
  intro n hn
  rcases h n hn with heq | ⟨d, hd⟩
  · exact Or.inl heq
  · exact Or.inr ⟨d, List.mem_append_left _ hd⟩

end Started

/-- What was heard after a response started is heard in any longer run as well. -/
theorem started_of_le {heard all : List Packet} {st : Started}
    (h : started heard = some st) (hle : heard <+: all) :
    ∃ more, started all = some { st with after := st.after ++ more } := by
  obtain ⟨more, rfl⟩ := hle
  refine ⟨more, ?_⟩
  induction heard with
  | nil => cases h
  | cons q heard ih =>
    cases q with
    | first seq mime data =>
      cases h
      rfl
    | _ => exact ih h

/-! ## The packets of a session -/

section Honest

variable {first : Nat} {mime : Text} {head : Bytes} {tail : List Bytes}

theorem answered_honest {heard : List Packet}
    (h : ∀ p ∈ heard, Honest first mime head tail p) : answered heard = false := by
  induction heard with
  | nil => rfl
  | cons p heard ih =>
    have htail := ih fun q hq => h q (List.mem_cons_of_mem _ hq)
    cases h p List.mem_cons_self with
    | first => rfl
    | chunk => exact htail
    | eof => exact htail

theorem not_fills_honest {st : Started} (hseq : st.seq = first)
    (hafter : ∀ p ∈ st.after, Honest first mime head tail p)
    (hhi : first + 1 + tail.length ≤ maxU32) : ¬ st.Fills := by
  intro hfills
  obtain ⟨d, hd⟩ := Option.isSome_iff_exists.mp (hfills maxU32 (by omega) (Nat.le_refl _))
  obtain ⟨hm, hne⟩ := Started.mem_after_of_firstReceived hd (by omega)
  obtain ⟨i, hi, hget⟩ := honest_data (hafter _ hm) hne
  have hlt := (List.getElem?_eq_some_iff.mp hget).1
  omega

/-- The numbers of a transmission. -/
theorem mem_numbers {n : Nat} : n ∈ (transmission first mime head tail).map Prod.fst ↔
    first ≤ n ∧ n ≤ first + 1 + tail.length := by
  rw [List.mem_map]
  constructor
  · rintro ⟨⟨m, wire⟩, hm, rfl⟩
    rcases List.mem_cons.mp hm with heq | hm
    · rw [(Prod.mk.inj heq).1]
      omega
    · obtain ⟨i, c, hc, rfl, -⟩ := mem_continuationsFrom hm
      have hlt := (List.getElem?_eq_some_iff.mp hc).1
      rw [List.length_append, List.length_singleton] at hlt
      simp only
      omega
  · rintro ⟨hlo, hhi⟩
    have hget := getElem?_transmission first mime head tail (n - first)
    have hlt : n - first < (head :: (tail ++ [[]])).length := by
      simp only [List.length_cons, List.length_append, List.length_nil]
      omega
    rw [List.getElem?_eq_getElem hlt, Option.map_some] at hget
    refine ⟨_, List.mem_of_getElem? hget, ?_⟩
    simp only [packetOf]
    omega

/-- What the eof packet that has arrived is. -/
theorem eof_honest (hne : ∀ c ∈ tail, c ≠ []) {st : Started}
    (hafter : ∀ p ∈ st.after, Honest first mime head tail p) {n : Nat} (hn : st.eof = some n) :
    n = first + 1 + tail.length ∧ .continuation n [] ∈ st.after := by
  obtain ⟨p, hp, hends⟩ := List.mem_filterMap.mp (List.mem_of_getLast? hn)
  unfold Started.endsAt at hends
  split at hends
  · split at hends
    · cases hends
      exact ⟨honest_eof hne (hafter _ hp), hp⟩
    · cases hends
  · cases hends

/-- A packet with the last number is the eof packet: it carries no data. -/
theorem firstReceived_last {st : Started} (hseq : st.seq = first)
    (hafter : ∀ p ∈ st.after, Honest first mime head tail p) :
    st.firstReceived (first + 1 + tail.length) = none := by
  cases hd : st.firstReceived (first + 1 + tail.length) with
  | none => rfl
  | some d =>
    obtain ⟨hm, hnil⟩ := Started.mem_after_of_firstReceived hd (by omega)
    obtain ⟨i, hi, hget⟩ := honest_data (hafter _ hm) hnil
    have hlt := (List.getElem?_eq_some_iff.mp hget).1
    omega

theorem eof_of_covers (hne : ∀ c ∈ tail, c ≠ []) {st : Started} (hseq : st.seq = first)
    (hafter : ∀ p ∈ st.after, Honest first mime head tail p)
    (hcovers : st.Covers ((transmission first mime head tail).map Prod.fst)) :
    st.eof = some (first + 1 + tail.length) := by
  have hlast : .continuation (first + 1 + tail.length) [] ∈ st.after := by
    rcases hcovers _ (mem_numbers.mpr ⟨by omega, Nat.le_refl _⟩) with heq | ⟨d, hd⟩
    · omega
    · by_cases hnil : d = []
      · exact hnil ▸ hd
      · obtain ⟨i, hi, hget⟩ := honest_data (hafter _ hd) hnil
        have hlt := (List.getElem?_eq_some_iff.mp hget).1
        omega
  have hmem : first + 1 + tail.length ∈ st.after.filterMap (Started.endsAt st.seq) :=
    List.mem_filterMap.mpr ⟨_, hlast, if_pos (by omega)⟩
  cases heof : st.eof with
  | none =>
    rw [Started.eof, List.getLast?_eq_none_iff] at heof
    rw [heof] at hmem
    cases hmem
  | some n => rw [(eof_honest hne hafter heof).1]

/-- The response of a session is whole when a packet of each of its numbers has arrived. -/
theorem whole_iff_covers (hne : ∀ c ∈ tail, c ≠ []) {st : Started} (hseq : st.seq = first)
    (hafter : ∀ p ∈ st.after, Honest first mime head tail p) :
    st.Whole ↔ st.Covers ((transmission first mime head tail).map Prod.fst) := by
  constructor
  · rintro ⟨eof, heof, hpresent, -⟩ n hn
    obtain ⟨rfl, hm⟩ := eof_honest hne hafter heof
    obtain ⟨hlo, hhi⟩ := mem_numbers.mp hn
    by_cases hfirst : n = st.seq
    · exact Or.inl hfirst
    · right
      rcases Nat.lt_or_eq_of_le hhi with hlt | rfl
      · obtain ⟨d, hd⟩ := Option.isSome_iff_exists.mp (hpresent n (hseq ▸ hlo) hlt)
        exact ⟨d, (Started.mem_after_of_firstReceived hd hfirst).1⟩
      · exact ⟨[], hm⟩
  · intro hcovers
    refine ⟨_, eof_of_covers hne hseq hafter hcovers, ?_, firstReceived_last hseq hafter⟩
    intro n hlo hlt
    rcases hcovers n (mem_numbers.mpr ⟨hseq ▸ hlo, by omega⟩) with rfl | ⟨d, hd⟩
    · simp [Started.firstReceived]
    · rcases Nat.lt_or_eq_of_le hlo with hgt | rfl
      · refine Started.firstReceived_isSome hd hgt ?_
        rintro rfl
        have := honest_eof hne (hafter _ hd)
        omega
      · simp [Started.firstReceived]

end Honest

/-! ## When the limit is exact -/

/-- A success is no longer than the limit, and only a longer body is refused as too large. -/
def LimitExact (options : FetchOptions) (body : Bytes) (phase : Phase) : Prop :=
  (∀ mime' body', phase = .returned (.ok (.success mime' body')) →
    body.length ≤ options.maxBody) ∧
  ∀ max, phase = .returned (.error (.bodyTooLarge max)) → options.maxBody < body.length

/-- A body within the limit: as long as one of the packets numbered `numbers` is missing, what has
arrived, repeats included, is within it. A body beyond the limit: unless a packet stays missing,
what has arrived while one was missing is beyond it at some point. -/
structure LimitMet (maxBody : Nat) (numbers : List Nat) (body : Bytes) (all : List Packet) :
    Prop where
  within : body.length ≤ maxBody → ∀ pre st, pre <+: all → started pre = some st →
    ¬ st.Covers numbers → st.arrived ≤ maxBody
  beyond : maxBody < body.length → ∀ st, started all = some st → st.Covers numbers →
    ∃ pre st', pre <+: all ∧ started pre = some st' ∧ ¬ st'.Covers numbers ∧
      maxBody < st'.arrived

/-- All that the packets which arrive say about a transaction with an honest session. -/
structure Faithful (numbers : List Nat) (all : List Packet) : Prop where
  answered : ∀ heard, heard <+: all → answered heard = false
  notFills : ∀ heard st, heard <+: all → started heard = some st → ¬ st.Fills
  whole_iff : ∀ heard st, heard <+: all → started heard = some st →
    (st.Whole ↔ st.Covers numbers)

section

variable {options : FetchOptions} {numbers : List Nat} {body : Bytes} {all heard : List Packet}
  {phase : Phase}

theorem Pending.of_covers_not (h : Pending options heard) (hf : Faithful numbers all)
    (hle : heard <+: all) {st : Started} (hst : started heard = some st) :
    ¬ st.Covers numbers ∧ st.arrived ≤ options.maxBody := by
  obtain ⟨-, hwhole, harrived⟩ := h.2 st hst
  rw [hf.whole_iff heard st hle hst] at hwhole
  exact ⟨hwhole, harrived⟩

/-- A packet that is missing after a run was missing at any point of it. -/
theorem not_covers_of_le {pre : List Packet} {st st' : Started} (hle : pre <+: heard)
    (hst : started heard = some st) (hst' : started pre = some st')
    (hmissing : ¬ st.Covers numbers) : ¬ st'.Covers numbers := by
  intro hcovers
  obtain ⟨more, hmore⟩ := started_of_le hst' hle
  rw [hst, Option.some.injEq] at hmore
  exact hmissing (hmore ▸ hcovers.append more)

/-- A run that ends with every number heard was within the limit wherever one was still missing. -/
theorem Ends.arrived_le (h : Ends options heard all phase) {pre : List Packet} {st st' : Started}
    (hst : started heard = some st) (hwhole : st.Covers numbers) (hle : pre <+: all)
    (hst' : started pre = some st') (hmissing : ¬ st'.Covers numbers) :
    st'.arrived ≤ options.maxBody := by
  rcases List.prefix_or_prefix_of_prefix hle h.isRead with hpre | hpre
  · refine ((h.before pre hpre ?_).2 st' hst').2.2
    rintro rfl
    cases hst.symm.trans hst'
    exact hmissing hwhole
  · exact absurd hwhole (not_covers_of_le hpre hst' hst hmissing)

theorem Ends.limitExact (h : Ends options heard all phase) (hf : Faithful numbers all)
    (hmet : LimitMet options.maxBody numbers body all) : LimitExact options body phase := by
  refine ⟨?_, ?_⟩
  · rintro mime' body' rfl
    obtain ⟨st, hst, -, hwhole⟩ := h.stands
    rw [hf.whole_iff heard st h.isRead hst] at hwhole
    by_contra hlong
    obtain ⟨more, hall⟩ := started_of_le hst h.isRead
    obtain ⟨pre, st', hpre, hst', hmissing, hlarge⟩ :=
      hmet.beyond (Nat.lt_of_not_le hlong) _ hall (hwhole.append more)
    have := h.arrived_le hst hwhole hpre hst' hmissing
    omega
  · rintro max rfl
    obtain ⟨st, hst, -, hwhole, hlarge⟩ := h.stands
    rw [hf.whole_iff heard st h.isRead hst] at hwhole
    by_contra hshort
    have := hmet.within (Nat.le_of_not_lt hshort) heard st h.isRead hst hwhole
    omega

theorem Ends.limitMet (h : Ends options heard all phase) (hf : Faithful numbers all)
    (hio : ∀ message, phase ≠ .returned (.error (.io message)))
    (hexact : LimitExact options body phase) : LimitMet options.maxBody numbers body all := by
  have hstands := h.stands
  cases phase with
  | panicked =>
    obtain ⟨st, hst, hfills⟩ := hstands
    exact absurd hfills (hf.notFills heard st h.isRead hst)
  | running state =>
    -- everything was read, and at no point of it was anything beyond the limit
    have hall := h.readAll state rfl
    have hpending : ∀ pre, pre <+: all → Pending options pre := by
      intro pre hle
      by_cases heq : pre = heard
      · exact heq ▸ hstands.pending
      · exact h.before pre (hall ▸ hle) heq
    refine ⟨?_, ?_⟩
    · intro _ pre st hle hst _
      exact ((hpending pre hle).2 st hst).2.2
    · intro _ st hst hcovers
      exact absurd hcovers ((hpending all List.prefix_rfl).of_covers_not hf List.prefix_rfl hst).1
  | returned result =>
    cases result with
    | ok response =>
      cases response with
      | success mime' body' =>
        obtain ⟨st, hst, -, hwhole⟩ := hstands
        rw [hf.whole_iff heard st h.isRead hst] at hwhole
        have hshort := hexact.1 mime' body' rfl
        refine ⟨?_, fun hlong => absurd hshort (Nat.not_le_of_lt hlong)⟩
        intro _ pre st' hle hst' hmissing
        exact h.arrived_le hst hwhole hle hst' hmissing
      | _ =>
        obtain ⟨-, hanswered⟩ := hstands
        rw [hf.answered heard h.isRead] at hanswered
        cases hanswered
    | error e =>
      cases e with
      | io message => exact absurd rfl (hio message)
      | bodyTooLarge max =>
        obtain ⟨st, hst, -, hwhole, hlarge⟩ := hstands
        rw [hf.whole_iff heard st h.isRead hst] at hwhole
        have hlong := hexact.2 max rfl
        refine ⟨fun hshort => absurd hshort (Nat.not_le_of_lt hlong), fun _ _ _ _ => ?_⟩
        exact ⟨heard, st, h.isRead, hst, hwhole, hlarge⟩

end

/-- The datagrams of a session that arrive decide as the session's packets. -/
theorem faithful_arriving {first : Nat} {mime : Text} {head : Bytes} {tail : List Bytes}
    (hm : ValidMime mime) (hlo : minSeq ≤ first) (hhi : first + 1 + tail.length ≤ maxU32)
    (hne : ∀ c ∈ tail, c ≠ []) {events : List Event}
    (hevents : ∀ e ∈ events, ∀ bytes, e.incoming = .datagram bytes →
      bytes ∈ (transmission first mime head tail).map Prod.snd) :
    Faithful ((transmission first mime head tail).map Prod.fst) (arriving events) := by
  have hhonest : ∀ heard, heard <+: arriving events →
      ∀ p ∈ heard, Honest first mime head tail p := by
    intro heard hle p hp
    obtain ⟨e, he, hpacket⟩ := List.mem_filterMap.mp (hle.subset hp)
    unfold Event.packet at hpacket
    split at hpacket
    · next bytes hin =>
      obtain ⟨q, hq, hhonest⟩ := honest_of_mem hm hlo hhi (hevents e he bytes hin)
      rw [hq] at hpacket
      cases hpacket
      exact hhonest
    · cases hpacket
  refine ⟨?_, ?_, ?_⟩
  · intro heard hle
    exact answered_honest (hhonest heard hle)
  · intro heard st hle hst
    obtain ⟨hseq, -, -, hafter⟩ := honest_started (hhonest heard hle) hst
    exact not_fills_honest hseq hafter hhi
  · intro heard st hle hst
    obtain ⟨hseq, -, -, hafter⟩ := honest_started (hhonest heard hle) hst
    exact whole_iff_covers hne hseq hafter

/-- **When the limit is exact**: for the datagrams of a session in any order, with any losses and
repeats, whenever `LimitMet`; and if the socket does not fail, only then. -/
theorem transact_limit_iff (o : Overflow) (options : FetchOptions) (request : Text)
    (sendError : Option Text) {o' : Overflow} {hash now chunkSize : Nat} {mime : Text}
    {body : Bytes} {s : Session} {events : List Event} (hm : ValidMime mime)
    (ht : packetCount body chunkSize < maxSeq - minSeq)
    (hs : buildSession o' hash now mime body chunkSize = some s)
    (hevents : ∀ e ∈ events, ∀ bytes, e.incoming = .datagram bytes →
      bytes ∈ s.packets.map Prod.snd) :
    (LimitMet options.maxBody (s.packets.map Prod.fst) body (arriving events) →
      LimitExact options body (transact o options request sendError events)) ∧
    (sendError = none → (∀ e ∈ events, e.Quiet) →
      LimitExact options body (transact o options request sendError events) →
      LimitMet options.maxBody (s.packets.map Prod.fst) body (arriving events)) := by
  obtain ⟨first, head, tail, hlo, hhi, hc, hcount, hbuilt⟩ :=
    buildSession_eq o' hash now mime body chunkSize ht
  rw [hs, Option.some.injEq] at hbuilt
  subst hbuilt
  have hfit : first + 1 + tail.length ≤ maxU32 := by
    have : maxSeq ≤ maxU32 := by decide
    omega
  have hf := faithful_arriving hm hlo hfit hc.ne_nil hevents
  obtain ⟨heard, hends⟩ := transact_ends options request events
  have hsame : transact o options request none events =
      transact .checked options request none events := by
    refine transact_of_checked fun hpanic => ?_
    rw [hpanic] at hends
    obtain ⟨st, hst, hfills⟩ := hends.stands
    exact hf.notFills heard st hends.isRead hst hfills
  constructor
  · intro hmet
    cases sendError with
    | some e => exact ⟨nofun, nofun⟩
    | none =>
      rw [hsame]
      exact hends.limitExact hf hmet
  · rintro rfl hquiet hexact
    rw [hsame] at hexact
    exact hends.limitMet hf (transact_quiet hquiet) hexact

/-- Datagrams of the short session, in the order of their positions. -/
def shortRun (order : List Nat) : List Event :=
  (order.filterMap (shortSession.packets[·]?)).map fun p => arrival p.2

theorem transact_limit_short :
    (LimitMet 2 [6, 7, 8] [65, 66] (arriving (shortRun [0, 2, 1])) →
      LimitExact { maxBody := 2 } [65, 66]
        (transact .checked { maxBody := 2 } [] none (shortRun [0, 2, 1]))) ∧
    (LimitExact { maxBody := 2 } [65, 66]
        (transact .checked { maxBody := 2 } [] none (shortRun [0, 2, 1])) →
      LimitMet 2 [6, 7, 8] [65, 66] (arriving (shortRun [0, 2, 1]))) := by
  have hquiet : ∀ e ∈ shortRun [0, 2, 1], e.Quiet := by
    intro e he
    obtain ⟨p, -, rfl⟩ := List.mem_map.mp he
    exact ⟨by simp [arrival], fun _ => rfl⟩
  have hevents : ∀ e ∈ shortRun [0, 2, 1], ∀ bytes, e.incoming = .datagram bytes →
      bytes ∈ shortSession.packets.map Prod.snd := by
    intro e he bytes hin
    obtain ⟨p, hp, rfl⟩ := List.mem_map.mp he
    obtain ⟨i, -, hget⟩ := List.mem_filterMap.mp hp
    cases hin
    exact List.mem_map_of_mem (List.mem_of_getElem? hget)
  have hiff := transact_limit_iff .checked { maxBody := 2 } [] none validMime_plain (by decide)
    buildSession_short hevents
  exact ⟨hiff.1, hiff.2 rfl hquiet⟩

/-- With the end of the file early, a body of two bytes passes a limit of one; with a chunk
repeated it does not pass a limit of two. -/
theorem transact_limit_inexact :
    buildSession .checked 0 0 "text/plain".toList [65, 66] 1 = some shortSession ∧
      transact .checked { maxBody := 1 } [] none (shortRun [0, 2, 1]) =
        .returned (.ok (.success "text/plain".toList [65, 66])) ∧
      transact .checked { maxBody := 2 } [] none (shortRun [0, 1, 1]) =
        .returned (.error (.bodyTooLarge 2)) :=
  ⟨buildSession_short, rfl, rfl⟩

end Smolweb.Guppy
