import Smolweb.Guppy.Server

/-!
# What a guppy session transmits

The abstract view of a session: consecutive numbers for the chunks of the body and one last empty
chunk (`transmission`). `buildSession_eq` says that `build_session` produces such a transmission,
that its chunks join to the body, and that no chunk but the first and the last is empty;
`mem_transmission` reads a datagram of the session back to the chunk it carries.
-/

namespace Smolweb.Guppy

/-- Continuations carrying `chunks`, numbered from `seq`. -/
def continuationsFrom (seq : Nat) : List Bytes → List (Nat × Bytes)
  | [] => []
  | c :: cs => (seq, encodeContinuation seq c) :: continuationsFrom (seq + 1) cs

/-- The packets of a response with MIME type `mime` whose first packet is numbered `first`: the
chunk `head`, the chunks `tail`, and the empty chunk that ends the file. -/
def transmission (first : Nat) (mime : Text) (head : Bytes) (tail : List Bytes) :
    List (Nat × Bytes) :=
  (first, encodeFirst first mime head) :: continuationsFrom (first + 1) (tail ++ [[]])

/-- A cutting of a body into chunks, in order, none empty but possibly the first. -/
structure Chunking (body head : Bytes) (tail : List Bytes) : Prop where
  flatten : head ++ tail.flatten = body
  ne_nil : ∀ c ∈ tail, c ≠ []

theorem continuationsFrom_append (seq : Nat) (as bs : List Bytes) :
    continuationsFrom seq (as ++ bs) =
      continuationsFrom seq as ++ continuationsFrom (seq + as.length) bs := by
  induction as generalizing seq with
  | nil => simp [continuationsFrom]
  | cons a as ih =>
    simp only [List.cons_append, continuationsFrom, ih, List.length_cons]
    rw [show seq + 1 + as.length = seq + (as.length + 1) by omega]

theorem mem_continuationsFrom {seq n : Nat} {cs : List Bytes} {wire : Bytes}
    (h : (n, wire) ∈ continuationsFrom seq cs) :
    ∃ i c, cs[i]? = some c ∧ n = seq + i ∧ wire = encodeContinuation (seq + i) c := by
  induction cs generalizing seq with
  | nil => cases h
  | cons c cs ih =>
    rcases List.mem_cons.mp h with heq | h
    · obtain ⟨rfl, rfl⟩ := Prod.mk.inj heq
      exact ⟨0, c, rfl, rfl, rfl⟩
    · obtain ⟨i, d, hd, hn, hw⟩ := ih h
      refine ⟨i + 1, d, hd, ?_, ?_⟩
      · omega
      · rw [hw, show seq + 1 + i = seq + (i + 1) by omega]

/-- A datagram of the session is its first packet, or a continuation carrying the chunk of its
own number. -/
theorem mem_transmission {first : Nat} {mime : Text} {head : Bytes} {tail : List Bytes}
    {wire : Bytes} (h : wire ∈ (transmission first mime head tail).map Prod.snd) :
    wire = encodeFirst first mime head ∨
      ∃ i c, (tail ++ [[]])[i]? = some c ∧ wire = encodeContinuation (first + 1 + i) c := by
  obtain ⟨⟨n, w⟩, hm, rfl⟩ := List.mem_map.mp h
  rcases List.mem_cons.mp hm with heq | hm
  · exact Or.inl (Prod.mk.inj heq).2
  · obtain ⟨i, c, hc, -, hw⟩ := mem_continuationsFrom hm
    exact Or.inr ⟨i, c, hc, hw⟩

/-! ## The sending loop -/

/-- What is left of a body after its first chunk. -/
theorem length_drop_take (body : Bytes) (count : Nat) :
    (body.drop (body.take (min body.length count)).length).length =
      body.length - min body.length count := by
  rw [List.length_drop, List.length_take]
  omega

/-- The loop of `build_session` numbers the chunks of what is left consecutively, as long as the
numbers stay within a `u32`. -/
theorem continuations_eq (o : Overflow) {chunkSize : Nat} (hc : 0 < chunkSize) :
    ∀ (fuel seq : Nat) (rest : Bytes), rest.length ≤ fuel →
      seq + divCeil rest.length chunkSize ≤ maxU32 →
      ∃ cs : List Bytes, cs.flatten = rest ∧ (∀ c ∈ cs, c ≠ []) ∧
        cs.length = divCeil rest.length chunkSize ∧
        continuations o chunkSize fuel seq rest =
          some (continuationsFrom (seq + 1) cs, seq + cs.length) := by
  intro fuel
  induction fuel with
  | zero =>
    intro seq rest hlen hmax
    have hnil : rest = [] := List.length_eq_zero_iff.mp (by omega)
    subst hnil
    exact ⟨[], rfl, by simp, by simp [divCeil], rfl⟩
  | succ fuel ih =>
    intro seq rest hlen hmax
    by_cases hnil : rest = []
    · subst hnil
      exact ⟨[], rfl, by simp, by simp [divCeil], rfl⟩
    · have hpos : 0 < rest.length := List.length_pos_iff.mpr hnil
      have hdiv : divCeil rest.length chunkSize =
          divCeil (rest.drop chunkSize).length chunkSize + 1 := by
        rw [List.length_drop]
        exact divCeil_step hc hpos
      have hnext : seq + 1 ≤ maxU32 := by omega
      obtain ⟨cs, hflat, hne, hcount, heq⟩ := ih (seq + 1) (rest.drop chunkSize)
        (by rw [List.length_drop]; omega) (by omega)
      refine ⟨rest.take chunkSize :: cs, ?_, ?_, ?_, ?_⟩
      · rw [List.flatten_cons, hflat, List.take_append_drop]
      · intro c hm
        rcases List.mem_cons.mp hm with rfl | hm
        · intro h0
          have := congrArg List.length h0
          rw [List.length_take, List.length_nil] at this
          omega
        · exact hne c hm
      · rw [List.length_cons, hcount, hdiv]
      · simp only [continuations, List.isEmpty_eq_false_iff.mpr hnil, Bool.false_eq_true,
          ite_false, Overflow.add_of_le o hnext, heq, Option.bind_eq_bind, Option.bind_some,
          continuationsFrom, List.length_cons]
        rw [show seq + 1 + cs.length = seq + (cs.length + 1) by omega]

/-- The number of packets `build_session` makes of a body: one for each chunk, one for the end of
the file. -/
def packetCount (body : Bytes) (chunkSize : Nat) : Nat :=
  max 1 (divCeil body.length (max chunkSize 1)) + 1

/-- With fewer packets than there are numbers, there is a first number that leaves room for all. -/
theorem randomSeq_eq_some (o : Overflow) (hash : Nat) {total : Nat}
    (ht : total < maxSeq - minSeq) : ∃ first, randomSeq o hash total = some first ∧
      minSeq ≤ first ∧ first + total < maxSeq := by
  have h1 : total ≤ maxSeq := by omega
  have h2 : minSeq ≤ maxSeq - total := by omega
  have hspan : maxSeq - total - minSeq ≠ 0 := by omega
  have hmod := Nat.mod_lt hash (Nat.pos_of_ne_zero hspan)
  have hfit : minSeq + hash % (maxSeq - total - minSeq) ≤ maxU32 := by
    simp only [minSeq, maxSeq, maxU32] at hmod ⊢
    omega
  refine ⟨minSeq + hash % (maxSeq - total - minSeq), ?_, by omega, by omega⟩
  simp only [randomSeq, Overflow.sub_of_le o maxU32 h1, Overflow.sub_of_le o maxU32 h2,
    Option.bind_eq_bind, Option.bind_some]
  rw [if_neg hspan, Overflow.add_of_le o hfit]

theorem continuationCount_eq (body : Bytes) {chunkSize : Nat} (hc : 0 < chunkSize) :
    continuationCount body chunkSize =
      divCeil (body.length - min body.length chunkSize) chunkSize ∧
    1 + continuationCount body chunkSize = max 1 (divCeil body.length chunkSize) := by
  unfold continuationCount
  split
  · next hlt =>
    have hstep := divCeil_step hc (show 0 < body.length by omega)
    rw [Nat.min_eq_right (by omega)]
    omega
  · next hge =>
    have hzero : divCeil 0 chunkSize = 0 := by simp [divCeil]
    rw [Nat.min_eq_left (by omega), Nat.sub_self, hzero]
    refine ⟨rfl, ?_⟩
    rcases Nat.eq_zero_or_pos body.length with h0 | hpos
    · rw [h0, hzero]
      rfl
    · have hstep := divCeil_step hc hpos
      rw [show body.length - chunkSize = 0 by omega, hzero] at hstep
      omega

/-- **What `build_session` yields**: with fewer packets than there are numbers it neither panics
nor wraps, and the session holds the transmission of a chunking of the body, none of it sent. -/
theorem buildSession_eq (o : Overflow) (hash now : Nat) (mime : Text) (body : Bytes)
    (chunkSize : Nat) (ht : packetCount body chunkSize < maxSeq - minSeq) :
    ∃ first head tail, minSeq ≤ first ∧ first + packetCount body chunkSize < maxSeq ∧
      Chunking body head tail ∧ tail.length + 2 = packetCount body chunkSize ∧
      buildSession o hash now mime body chunkSize = some {
        packets := transmission first mime head tail
        nextUnsent := 0
        unacked := ∅
        lastSend := now
        created := now
        doneAt := none } := by
  have hc : 0 < max chunkSize 1 := by omega
  obtain ⟨hcount, htotal⟩ := continuationCount_eq body hc
  have hbound : maxSeq < maxU32 := by decide
  have hpc : packetCount body chunkSize = 1 + continuationCount body (max chunkSize 1) + 1 := by
    rw [packetCount, htotal]
  have hmod : continuationCount body (max chunkSize 1) % (maxU32 + 1) =
      continuationCount body (max chunkSize 1) := Nat.mod_eq_of_lt (by omega)
  obtain ⟨first, hfirst, hlo, hhi⟩ := randomSeq_eq_some o hash ht
  have hdrop := length_drop_take body (max chunkSize 1)
  obtain ⟨cs, hflat, hne, hlen, hloop⟩ := continuations_eq o hc body.length first
    (body.drop (body.take (min body.length (max chunkSize 1))).length) (by omega)
    (by rw [hdrop, ← hcount]; omega)
  rw [hdrop, ← hcount] at hlen
  refine ⟨first, body.take (min body.length (max chunkSize 1)), cs, hlo, hhi, ⟨?_, hne⟩, by omega,
    ?_⟩
  · rw [hflat, List.length_take, Nat.min_eq_left (Nat.min_le_left _ _)]
    exact List.take_append_drop _ _
  · have h1 : 1 + continuationCount body (max chunkSize 1) ≤ maxU32 := by omega
    have h2 : 1 + continuationCount body (max chunkSize 1) + 1 ≤ maxU32 := by omega
    have h3 : first + cs.length + 1 ≤ maxU32 := by omega
    simp only [buildSession, hmod, Overflow.add_of_le o h1, Overflow.add_of_le o h2,
      Option.bind_eq_bind, Option.bind_some, ← hpc, hfirst, hloop, Overflow.add_of_le o h3]
    simp only [transmission, continuationsFrom_append, continuationsFrom]
    rw [show first + 1 + cs.length = first + cs.length + 1 by omega]
    rfl

/-! ## The chunks one by one -/

theorem getElem?_continuationsFrom (seq : Nat) (cs : List Bytes) (i : Nat) :
    (continuationsFrom seq cs)[i]? =
      cs[i]?.map fun c => (seq + i, encodeContinuation (seq + i) c) := by
  induction cs generalizing seq i with
  | nil => rfl
  | cons c cs ih =>
    cases i with
    | zero => rfl
    | succ i =>
      rw [continuationsFrom, List.getElem?_cons_succ, List.getElem?_cons_succ, ih]
      rw [show seq + 1 + i = seq + (i + 1) by omega]

@[simp] theorem length_continuationsFrom (seq : Nat) (cs : List Bytes) :
    (continuationsFrom seq cs).length = cs.length := by
  induction cs generalizing seq with
  | nil => rfl
  | cons c cs ih => rw [continuationsFrom, List.length_cons, ih, List.length_cons]

/-- The packet numbered `seq` with the data `data`: the first one carries the MIME type. -/
def packetOf (mime : Text) (first seq : Nat) (data : Bytes) : Nat × Bytes :=
  (seq, if seq = first then encodeFirst seq mime data else encodeContinuation seq data)

theorem getElem?_transmission (first : Nat) (mime : Text) (head : Bytes) (tail : List Bytes)
    (i : Nat) :
    (transmission first mime head tail)[i]? =
      (head :: (tail ++ [[]]))[i]?.map (packetOf mime first (first + i)) := by
  cases i with
  | zero => simp [transmission, packetOf]
  | succ i =>
    rw [transmission, List.getElem?_cons_succ, List.getElem?_cons_succ, getElem?_continuationsFrom]
    congr 1
    funext c
    simp only [packetOf, Prod.mk.injEq]
    rw [if_neg (by omega), show first + 1 + i = first + (i + 1) by omega]
    exact ⟨rfl, rfl⟩

/-! A build that does not panic on overflow yields the session that one that does would yield. -/

theorem randomSeq_of_checked (o : Overflow) {hash total first : Nat}
    (h : randomSeq .checked hash total = some first) : randomSeq o hash total = some first := by
  simp only [randomSeq, Option.bind_eq_bind, Option.bind_eq_some_iff] at h ⊢
  obtain ⟨below, hbelow, span, hspan, h⟩ := h
  refine ⟨below, o.sub_of_checked hbelow, span, o.sub_of_checked hspan, ?_⟩
  split at h
  · cases h
  · next hne =>
    rw [if_neg hne]
    exact o.add_of_checked h

theorem continuations_of_checked (o : Overflow) {chunkSize fuel seq : Nat} {rest : Bytes}
    {r : List (Nat × Bytes) × Nat} (h : continuations .checked chunkSize fuel seq rest = some r) :
    continuations o chunkSize fuel seq rest = some r := by
  induction fuel generalizing seq rest r with
  | zero => exact h
  | succ fuel ih =>
    simp only [continuations] at h ⊢
    split
    · next hnil => rwa [if_pos hnil] at h
    · next hne =>
      rw [if_neg hne] at h
      simp only [Option.bind_eq_bind, Option.bind_eq_some_iff] at h ⊢
      obtain ⟨next, hnext, rest', hloop, hr⟩ := h
      exact ⟨next, o.add_of_checked hnext, rest', ih hloop, hr⟩

theorem buildSession_of_checked (o : Overflow) {hash now chunkSize : Nat} {mime : Text}
    {body : Bytes} {s : Session}
    (h : buildSession .checked hash now mime body chunkSize = some s) :
    buildSession o hash now mime body chunkSize = some s := by
  simp only [buildSession, Option.bind_eq_bind, Option.bind_eq_some_iff] at h ⊢
  obtain ⟨count, hcount, total, htotal, first, hfirst, r, hloop, eof, heof, hs⟩ := h
  exact ⟨count, o.add_of_checked hcount, total, o.add_of_checked htotal, first,
    randomSeq_of_checked o hfirst, r, continuations_of_checked o hloop, eof,
    o.add_of_checked heof, hs⟩

/-- **Chunking**: without a panic and without wrapping around, as many packets as predicted, with
consecutive numbers in the range of the protocol, the first with the MIME type; their data joins
to the body, and of those after the first the last alone has none. -/
theorem buildSession_chunks (hash now : Nat) (mime : Text) (body : Bytes) (chunkSize : Nat)
    (ht : packetCount body chunkSize < maxSeq - minSeq) :
    ∃ (s : Session) (first : Nat) (datas : List Bytes),
      (∀ o, buildSession o hash now mime body chunkSize = some s) ∧
      s.packets.length = packetCount body chunkSize ∧
      datas.length = packetCount body chunkSize ∧
      (∀ i, s.packets[i]? = datas[i]?.map (packetOf mime first (first + i))) ∧
      (∀ i < packetCount body chunkSize, minSeq ≤ first + i ∧ first + i ≤ maxSeq) ∧
      datas.flatten = body ∧
      ∀ i, 0 < i → (datas[i]? = some [] ↔ i + 1 = packetCount body chunkSize) := by
  obtain ⟨first, head, tail, hlo, hhi, hchunks, hcount, hbuild⟩ :=
    buildSession_eq .checked hash now mime body chunkSize ht
  refine ⟨_, first, head :: (tail ++ [[]]), fun o => buildSession_of_checked o hbuild, ?_, ?_,
    getElem?_transmission first mime head tail, fun i hi => by omega, ?_, ?_⟩
  · simp only [transmission, List.length_cons, length_continuationsFrom, List.length_append,
      List.length_nil]
    omega
  · simp only [List.length_cons, List.length_append, List.length_nil]
    omega
  · rw [← hchunks.flatten]
    simp
  · intro i hi
    obtain ⟨i, rfl⟩ : ∃ j, i = j + 1 := ⟨i - 1, by omega⟩
    rw [List.getElem?_cons_succ]
    rcases Nat.lt_trichotomy i tail.length with hlt | rfl | hgt
    · rw [List.getElem?_append_left hlt, List.getElem?_eq_getElem hlt, Option.some.injEq]
      have hne := hchunks.ne_nil _ (List.getElem_mem hlt)
      exact iff_of_false hne (by omega)
    · rw [List.getElem?_append_right (Nat.le_refl _), Nat.sub_self]
      exact iff_of_true rfl (by omega)
    · rw [List.getElem?_eq_none (by simp; omega)]
      exact iff_of_false (by simp) (by omega)

theorem buildSession_chunks_three : packetCount [104, 105, 33] 2 < maxSeq - minSeq ∧
    ∃ (s : Session) (first : Nat) (datas : List Bytes),
      (∀ o, buildSession o 7 0 "text/plain".toList [104, 105, 33] 2 = some s) ∧
      s.packets.length = 3 ∧ datas.length = 3 ∧
      (∀ i, s.packets[i]? = datas[i]?.map (packetOf "text/plain".toList first (first + i))) ∧
      (∀ i < 3, minSeq ≤ first + i ∧ first + i ≤ maxSeq) ∧
      datas.flatten = [104, 105, 33] ∧ ∀ i, 0 < i → (datas[i]? = some [] ↔ i + 1 = 3) :=
  ⟨by decide, buildSession_chunks 7 0 "text/plain".toList [104, 105, 33] 2 (by decide)⟩

end Smolweb.Guppy
