/-!
# Talking over a stream

A client of a two-way stream writes to it and reads from it, and may fail at any point, which
leaves the stream where it is (`DuplexM`). `Exchange p out inp r` says what `p` says and hears: it
writes `out`, reads `inp` and not one element more, and ends with `r`. Exchanges compose along
`>>=` and along a loop (`Exchange.bind`, `Exchange.collect`).
-/

namespace Smolweb

/-- The client's end of a stream: what it has not read yet and what it has written. -/
structure Duplex (β : Type) where
  unread : List β
  written : List β
  deriving Repr, DecidableEq

abbrev DuplexM (β ε α : Type) := ExceptT ε (StateM (Duplex β)) α

namespace DuplexM

variable {β ε α γ : Type}

/-- What a computation does to a stream. -/
def on (p : DuplexM β ε α) (s : Duplex β) : Except ε α × Duplex β := p s

def write (out : List β) : DuplexM β ε Unit :=
  fun s => (.ok (), { s with written := s.written ++ out })

/-- Read to the end of the first element that is `sep`, or to the end of the stream. -/
def readThrough [DecidableEq β] (sep : β) : DuplexM β ε (List β) := fun s =>
  let head := s.unread.takeWhile (· ≠ sep)
  match s.unread.drop head.length with
  | [] => (.ok head, { s with unread := [] })
  | b :: rest => (.ok (head ++ [b]), { s with unread := rest })

/-- Read `n` elements; `none` if the stream ends before the last of them. -/
def readExact (n : Nat) : DuplexM β ε (Option (List β)) := fun s =>
  if n ≤ s.unread.length then (.ok (some (s.unread.take n)), { s with unread := s.unread.drop n })
  else (.ok none, { s with unread := [] })

/-- Read to the end of the stream, but no more than `n` elements. -/
def readUpTo (n : Nat) : DuplexM β ε (List β) := fun s =>
  (.ok (s.unread.take n), { s with unread := s.unread.drop n })

/-- Read to the end of the stream. -/
def readToEnd : DuplexM β ε (List β) := fun s => (.ok s.unread, { s with unread := [] })

/-- The loop of `readLine`, which takes one element after another. -/
def lineLoop [DecidableEq β] (sep : β) (cap : Nat) :
    (line unread : List β) → Option (List β) × List β
  | line, [] => (some line, [])
  | line, b :: rest =>
    if b = sep then (some line, rest)
    else if cap < line.length + 1 then (none, rest)
    else lineLoop sep cap (line ++ [b]) rest

/-- Read through the first `sep`, or to the end of the stream, and drop the `sep`; `none` as soon
as what stands before it is longer than `cap`. -/
def readLine [DecidableEq β] (sep : β) (cap : Nat) : DuplexM β ε (Option (List β)) := fun s =>
  let r := lineLoop sep cap [] s.unread
  (.ok r.1, { s with unread := r.2 })

/-- The server that answers a line, and says nothing to one that is too long. -/
def answerLine [DecidableEq β] (sep : β) (cap : Nat) (answer : List β → List β) :
    DuplexM β ε Unit := do
  match ← readLine sep cap with
  | none => pure ()
  | some line => write (answer line)

theorem on_pure (a : α) (s : Duplex β) : (pure a : DuplexM β ε α).on s = (.ok a, s) := rfl

theorem on_throw (e : ε) (s : Duplex β) : (throw e : DuplexM β ε α).on s = (.error e, s) := rfl

theorem on_bind (p : DuplexM β ε α) (f : α → DuplexM β ε γ) (s : Duplex β) : (p >>= f).on s =
    match p.on s with
    | (.ok a, s') => (f a).on s'
    | (.error e, s') => (.error e, s') := by
  show ExceptT.bindCont f (p s).1 (p s).2 = _
  unfold on
  cases p s with
  | mk r s' => cases r <;> rfl

theorem on_bind_error {p : DuplexM β ε α} {s : Duplex β} {e : ε} (h : (p.on s).1 = .error e)
    (f : α → DuplexM β ε γ) : ((p >>= f).on s).1 = .error e := by
  rw [on_bind]
  rcases hp : p.on s with ⟨r, s'⟩
  rw [hp] at h
  cases h
  rfl

theorem on_write_bind (out : List β) (f : Unit → DuplexM β ε γ) (s : Duplex β) :
    (write out >>= f).on s = (f ()).on { s with written := s.written ++ out } := by
  rw [on_bind]
  rfl

theorem takeWhile_append_sep [DecidableEq β] {sep : β} {a : List β} (h : sep ∉ a)
    (rest : List β) : (a ++ sep :: rest).takeWhile (· ≠ sep) = a := by
  rw [List.takeWhile_append_of_pos (by
    intro b hb
    exact decide_eq_true fun he => h (he ▸ hb))]
  simp

/-- What is read is what the stream is shorter by. -/
theorem length_of_readThrough [DecidableEq β] {sep : β} {s s' : Duplex β} {a : List β}
    (h : (readThrough sep : DuplexM β ε (List β)).on s = (.ok a, s')) :
    s.unread.length = a.length + s'.unread.length := by
  unfold readThrough on at h
  have hlen := List.length_drop
    (l := s.unread) (i := (s.unread.takeWhile (fun b => decide (b ≠ sep))).length)
  have hinitial : s.unread.takeWhile (fun b => decide (b ≠ sep)) <+: s.unread :=
    List.takeWhile_prefix _
  have hle := hinitial.length_le
  simp only at h
  split at h
  · next hd =>
    cases h
    rw [hd, List.length_nil] at hlen
    simp only [List.length_nil]
    omega
  · next hd =>
    cases h
    rw [hd, List.length_cons] at hlen
    simp only [List.length_append, List.length_singleton]
    omega

/-! ## Reading -/

/-- The computation only reads. -/
structure Reads (p : DuplexM β ε α) : Prop where
  written : ∀ s, (p.on s).2.written = s.written
  unread : ∀ s, (p.on s).2.unread <:+ s.unread

/-- Where the computation succeeds it has read something. -/
def Consumes (p : DuplexM β ε α) : Prop :=
  ∀ ⦃s a s'⦄, p.on s = (.ok a, s') → s'.unread.length < s.unread.length

theorem Reads.pure (a : α) : Reads (pure a : DuplexM β ε α) :=
  ⟨fun _ => rfl, fun _ => List.suffix_rfl⟩

theorem Reads.throw (e : ε) : Reads (throw e : DuplexM β ε α) :=
  ⟨fun _ => rfl, fun _ => List.suffix_rfl⟩

theorem Reads.readThrough [DecidableEq β] (sep : β) :
    Reads (DuplexM.readThrough sep : DuplexM β ε (List β)) where
  written s := by
    unfold on DuplexM.readThrough
    simp only
    split <;> rfl
  unread s := by
    unfold on DuplexM.readThrough
    simp only
    split
    · exact List.nil_suffix
    · next hd =>
      have hrest := List.drop_suffix (s.unread.takeWhile (· ≠ sep)).length s.unread
      rw [hd] at hrest
      exact (List.suffix_cons ..).trans hrest

theorem Reads.readExact (n : Nat) :
    Reads (DuplexM.readExact n : DuplexM β ε (Option (List β))) where
  written s := by
    unfold on DuplexM.readExact
    split <;> rfl
  unread s := by
    unfold on DuplexM.readExact
    split
    · exact List.drop_suffix ..
    · exact List.nil_suffix

theorem Reads.readUpTo (n : Nat) : Reads (DuplexM.readUpTo n : DuplexM β ε (List β)) :=
  ⟨fun _ => rfl, fun _ => List.drop_suffix ..⟩

theorem Reads.readToEnd : Reads (DuplexM.readToEnd : DuplexM β ε (List β)) :=
  ⟨fun _ => rfl, fun _ => List.nil_suffix⟩

theorem lineLoop_suffix [DecidableEq β] (sep : β) (cap : Nat) (line unread : List β) :
    (lineLoop sep cap line unread).2 <:+ unread := by
  induction unread generalizing line with
  | nil => exact List.suffix_rfl
  | cons b rest ih =>
    unfold lineLoop
    split
    · exact List.suffix_cons ..
    · split
      · exact List.suffix_cons ..
      · exact (ih _).trans (List.suffix_cons ..)

/-- The loop keeps what is no separator, as long as there is room for it. -/
theorem lineLoop_pass [DecidableEq β] {sep : β} {cap : Nat} {a : List β} (h : sep ∉ a)
    (line rest : List β) (hlen : line.length + a.length ≤ cap) :
    lineLoop sep cap line (a ++ rest) = lineLoop sep cap (line ++ a) rest := by
  induction a generalizing line with
  | nil => rw [List.nil_append, List.append_nil]
  | cons b a ih =>
    obtain ⟨hb, ha⟩ := List.ne_and_not_mem_of_not_mem_cons h
    rw [List.length_cons] at hlen
    have hcap : ¬cap < line.length + 1 := by omega
    have hnext := ih ha (line ++ [b]) (by simp; omega)
    rw [List.append_assoc] at hnext
    rw [List.cons_append, lineLoop, if_neg (Ne.symm hb), if_neg hcap, hnext]
    rfl

theorem Reads.readLine [DecidableEq β] (sep : β) (cap : Nat) :
    Reads (DuplexM.readLine sep cap : DuplexM β ε (Option (List β))) :=
  ⟨fun _ => rfl, fun _ => lineLoop_suffix ..⟩

theorem Reads.bind {p : DuplexM β ε α} {f : α → DuplexM β ε γ} (hp : Reads p)
    (hf : ∀ a, Reads (f a)) : Reads (p >>= f) := by
  have hs s : ((p >>= f).on s).2.written = s.written ∧ ((p >>= f).on s).2.unread <:+ s.unread := by
    have hw := hp.written s
    have hu := hp.unread s
    rw [on_bind]
    cases h : p.on s with
    | mk r s' =>
      rw [h] at hw hu
      cases r with
      | ok a => exact ⟨((hf a).written s').trans hw, ((hf a).unread s').trans hu⟩
      | error e => exact ⟨hw, hu⟩
  exact ⟨fun s => (hs s).1, fun s => (hs s).2⟩

theorem written_bind (p : DuplexM β ε α) {f : α → DuplexM β ε γ} (hf : ∀ a, Reads (f a))
    (s : Duplex β) : ((p >>= f).on s).2.written = (p.on s).2.written := by
  rw [on_bind]
  cases p.on s with
  | mk r s' =>
    cases r with
    | ok a => exact (hf a).written s'
    | error e => rfl

theorem Consumes.bind {p : DuplexM β ε α} {f : α → DuplexM β ε γ} (hp : Consumes p)
    (hf : ∀ a, Reads (f a)) : Consumes (p >>= f) := by
  intro s b s'' h
  rw [on_bind] at h
  cases hr : p.on s with
  | mk r s' =>
    rw [hr] at h
    cases r with
    | error e => cases h
    | ok a =>
      have hle := ((hf a).unread s').length_le
      have hh : (f a).on s' = (.ok b, s'') := h
      rw [hh] at hle
      exact Nat.lt_of_le_of_lt hle (hp hr)

/-! ## Loops -/

/-- A loop that collects what its body yields until it yields nothing. -/
def collect (body : DuplexM β ε (Option α)) (h : body.Consumes) : DuplexM β ε (List α) := fun s =>
  match _hs : body.on s with
  | (.error e, s') => (.error e, s')
  | (.ok none, s') => (.ok [], s')
  | (.ok (some a), s') =>
    match collect body h s' with
    | (.ok as, s'') => (.ok (a :: as), s'')
    | (.error e, s'') => (.error e, s'')
termination_by s => s.unread.length
decreasing_by exact h _hs

theorem on_collect {body : DuplexM β ε (Option α)} (h : body.Consumes) (s : Duplex β) :
    (collect body h).on s =
      match body.on s with
      | (.error e, s') => (.error e, s')
      | (.ok none, s') => (.ok [], s')
      | (.ok (some a), s') =>
        match (collect body h).on s' with
        | (.ok as, s'') => (.ok (a :: as), s'')
        | (.error e, s'') => (.error e, s'') := by
  show collect body h s = _
  rw [collect]
  split
  · next hs => simp only [hs]
  · next hs => simp only [hs]
  · next hs =>
    simp only [hs]
    rfl

theorem Reads.collect {body : DuplexM β ε (Option α)} (h : body.Consumes) (hb : Reads body) :
    Reads (DuplexM.collect body h) := by
  have hs s : ((DuplexM.collect body h).on s).2.written = s.written ∧
      ((DuplexM.collect body h).on s).2.unread <:+ s.unread := by
    induction hn : s.unread.length using Nat.strongRecOn generalizing s with
    | _ n ih =>
      have hw := hb.written s
      have hu := hb.unread s
      rw [on_collect]
      cases hr : body.on s with
      | mk r s' =>
        rw [hr] at hw hu
        match r with
        | .error e => exact ⟨hw, hu⟩
        | .ok none => exact ⟨hw, hu⟩
        | .ok (some a) =>
          obtain ⟨hw', hu'⟩ := ih s'.unread.length (hn ▸ h hr) s' rfl
          simp only
          cases hr' : (DuplexM.collect body h).on s' with
          | mk r' s'' =>
            rw [hr'] at hw' hu'
            have : s''.written = s.written ∧ s''.unread <:+ s.unread :=
              ⟨hw'.trans hw, hu'.trans hu⟩
            cases r' <;> exact this
  exact ⟨fun s => (hs s).1, fun s => (hs s).2⟩

/-! ## What a computation says and hears -/

/-- `p` writes `out`, reads exactly `inp` and ends with `r`, whatever else is on the stream. -/
def Exchange (p : DuplexM β ε α) (out inp : List β) (r : Except ε α) : Prop :=
  ∀ written rest, p.on ⟨inp ++ rest, written⟩ = (r, ⟨rest, written ++ out⟩)

namespace Exchange

theorem pure (a : α) : Exchange (pure a : DuplexM β ε α) [] [] (.ok a) := by
  intro written rest
  rw [on_pure, List.append_nil, List.nil_append]

theorem throw (e : ε) : Exchange (throw e : DuplexM β ε α) [] [] (.error e) := by
  intro written rest
  rw [on_throw, List.append_nil, List.nil_append]

theorem write (out : List β) : Exchange (DuplexM.write out : DuplexM β ε Unit) out [] (.ok ()) :=
  fun _ _ => rfl

theorem bind {p : DuplexM β ε α} {f : α → DuplexM β ε γ} {out out' inp inp' : List β} {a : α}
    {r : Except ε γ} (hp : Exchange p out inp (.ok a)) (hf : Exchange (f a) out' inp' r) :
    Exchange (p >>= f) (out ++ out') (inp ++ inp') r := by
  intro written rest
  rw [on_bind, List.append_assoc, hp written (inp' ++ rest)]
  simp only
  rw [hf, List.append_assoc]

/-- A continuation that says nothing. -/
theorem bind_read {p : DuplexM β ε α} {f : α → DuplexM β ε γ} {out inp inp' : List β} {a : α}
    {r : Except ε γ} (hp : Exchange p out inp (.ok a)) (hf : Exchange (f a) [] inp' r) :
    Exchange (p >>= f) out (inp ++ inp') r := by
  have := hp.bind hf
  rwa [List.append_nil] at this

/-- A computation that says nothing, and a continuation that hears nothing. -/
theorem bind_write {p : DuplexM β ε α} {f : α → DuplexM β ε γ} {out inp : List β} {a : α}
    {r : Except ε γ} (hp : Exchange p [] inp (.ok a)) (hf : Exchange (f a) out [] r) :
    Exchange (p >>= f) out inp r := by
  have := hp.bind hf
  rwa [List.nil_append, List.append_nil] at this

/-- A continuation that says and hears nothing. -/
theorem bind_silent {p : DuplexM β ε α} {f : α → DuplexM β ε γ} {out inp : List β} {a : α}
    {r : Except ε γ} (hp : Exchange p out inp (.ok a)) (hf : Exchange (f a) [] [] r) :
    Exchange (p >>= f) out inp r := by
  have := hp.bind_read hf
  rwa [List.append_nil] at this

theorem write_bind {out inp : List β} {f : Unit → DuplexM β ε γ} {r : Except ε γ}
    (hf : Exchange (f ()) [] inp r) : Exchange (DuplexM.write out >>= f) out inp r :=
  (write out).bind_read hf

theorem bind_error {p : DuplexM β ε α} {out inp : List β} {e : ε}
    (hp : Exchange p out inp (.error e)) (f : α → DuplexM β ε γ) :
    Exchange (p >>= f) out inp (.error e) := by
  intro written rest
  rw [on_bind, hp written rest]

theorem map {p : DuplexM β ε α} {out inp : List β} {r : Except ε α} (hp : Exchange p out inp r)
    (f : α → γ) : Exchange (p >>= fun a => Pure.pure (f a)) out inp (r.map f) := by
  cases r with
  | ok a => exact hp.bind_silent (pure (f a))
  | error e => exact hp.bind_error _

theorem readThrough [DecidableEq β] {sep : β} {a : List β} (h : sep ∉ a) :
    Exchange (DuplexM.readThrough sep : DuplexM β ε (List β)) [] (a ++ [sep])
      (.ok (a ++ [sep])) := by
  intro written rest
  have htake := takeWhile_append_sep h rest
  unfold DuplexM.readThrough on
  simp only [List.append_assoc, List.singleton_append, htake, List.drop_left, List.append_nil]

theorem lineLoop_append [DecidableEq β] {sep : β} {cap : Nat} {a : List β} (h : sep ∉ a)
    (line rest : List β) (hlen : line.length + a.length ≤ cap) :
    lineLoop sep cap line (a ++ sep :: rest) = (some (line ++ a), rest) := by
  rw [lineLoop_pass h line _ hlen, lineLoop, if_pos rfl]

/-- A line that is not too long is read with its separator, which is dropped. -/
theorem readLine [DecidableEq β] {sep : β} {cap : Nat} {a : List β} (h : sep ∉ a)
    (hlen : a.length ≤ cap) :
    Exchange (DuplexM.readLine sep cap : DuplexM β ε (Option (List β))) [] (a ++ [sep])
      (.ok (some a)) := by
  intro written rest
  have hloop := lineLoop_append h [] rest (by simpa using hlen)
  unfold DuplexM.readLine on
  simp only [List.append_assoc, List.singleton_append, hloop, List.nil_append, List.append_nil]

theorem lineLoop_none [DecidableEq β] {sep : β} {cap : Nat} {a : List β} (h : sep ∉ a)
    (line rest : List β) (hline : line.length ≤ cap) (hlen : cap < line.length + a.length) :
    (lineLoop sep cap line (a ++ rest)).1 = none := by
  induction a generalizing line with
  | nil =>
    rw [List.length_nil] at hlen
    omega
  | cons b a ih =>
    obtain ⟨hb, ha⟩ := List.ne_and_not_mem_of_not_mem_cons h
    rw [List.length_cons] at hlen
    rw [List.cons_append, lineLoop, if_neg (Ne.symm hb)]
    split
    · rfl
    · exact ih ha (line ++ [b]) (by simp; omega) (by simp; omega)

/-- A line that is too long is given up. -/
theorem readLine_none [DecidableEq β] {sep : β} {cap : Nat} {a : List β} (h : sep ∉ a)
    (hlen : cap < a.length) (rest written : List β) :
    ((DuplexM.readLine sep cap : DuplexM β ε (Option (List β))).on ⟨a ++ rest, written⟩).1 =
      .ok none := by
  have hloop := lineLoop_none h [] rest (Nat.zero_le cap) (by simpa using hlen)
  unfold DuplexM.readLine on
  rw [← hloop]

theorem readExact (a : List β) :
    Exchange (DuplexM.readExact a.length : DuplexM β ε (Option (List β))) [] a (.ok (some a)) := by
  intro written rest
  unfold DuplexM.readExact on
  simp

theorem readUpTo (a : List β) :
    Exchange (DuplexM.readUpTo a.length : DuplexM β ε (List β)) [] a (.ok a) := by
  intro written rest
  unfold DuplexM.readUpTo on
  simp

/-- **Calls in a row hear what each of them hears**, one after another. -/
theorem mapM {ι : Type} {f : ι → DuplexM β ε α} (calls : List (ι × List β × α))
    (hcalls : ∀ c ∈ calls, Exchange (f c.1) [] c.2.1 (.ok c.2.2)) :
    Exchange ((calls.map Prod.fst).mapM f) [] (calls.flatMap fun c => c.2.1)
      (.ok (calls.map fun c => c.2.2)) := by
  induction calls with
  | nil => exact pure []
  | cons c cs ih =>
    have hhead := hcalls c List.mem_cons_self
    have htail := ih fun d hd => hcalls d (List.mem_cons_of_mem _ hd)
    rw [List.map_cons, List.mapM_cons]
    exact hhead.bind_read (htail.bind_silent (pure _))

/-- **A loop hears what its turns hear**, one after another, and then what ends it. -/
theorem collect {body : DuplexM β ε (Option α)} (h : body.Consumes) (turns : List (List β × α))
    (hturns : ∀ t ∈ turns, Exchange body [] t.1 (.ok (some t.2))) {last : List β}
    (hlast : Exchange body [] last (.ok none)) :
    Exchange (DuplexM.collect body h) [] (turns.flatMap Prod.fst ++ last)
      (.ok (turns.map Prod.snd)) := by
  induction turns with
  | nil =>
    intro written rest
    rw [on_collect, List.flatMap_nil, List.nil_append, hlast written rest]
    rfl
  | cons t ts ih =>
    intro written rest
    have hhead := hturns t List.mem_cons_self written (ts.flatMap Prod.fst ++ last ++ rest)
    have htail := ih (fun t ht => hturns t (List.mem_cons_of_mem _ ht)) (written ++ []) rest
    rw [on_collect, List.flatMap_cons, List.append_assoc, List.append_assoc,
      ← List.append_assoc _ last, hhead]
    simp only
    rw [htail]
    simp

end Exchange

end DuplexM

end Smolweb
