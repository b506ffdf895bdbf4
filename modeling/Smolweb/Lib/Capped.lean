import Smolweb.Lib.Dialogue

/-!
# Reading to the end, up to a cap

A stream is read in chunks, as they come in, and given up once they are more than the cap together.
How the stream is cut into chunks makes no difference (`cappedLoop_eq`), so `readCapped` takes one
element after another.
-/

namespace Smolweb.DuplexM

variable {β ε ε' α γ : Type}

/-- The loop over the chunks that are read. -/
def cappedLoop (max : Nat) (raw : List β) : List (List β) → Option (List β)
  | [] => some raw
  | chunk :: chunks =>
    if max < (raw ++ chunk).length then none else cappedLoop max (raw ++ chunk) chunks

/-- The stream to its end, or `none` if that is more than `max`. -/
def readCapped (max : Nat) : DuplexM β ε (Option (List β)) := fun s =>
  (.ok (cappedLoop max [] (s.unread.map fun b => [b])), { s with unread := [] })

/-- **However the stream is cut**, it is read whole if it is no more than the cap, and given up
otherwise. -/
theorem cappedLoop_eq {max : Nat} (chunks : List (List β)) {raw : List β} (h : raw.length ≤ max) :
    cappedLoop max raw chunks =
      if (raw ++ chunks.flatten).length ≤ max then some (raw ++ chunks.flatten) else none := by
  induction chunks generalizing raw with
  | nil => simp [cappedLoop, h]
  | cons chunk chunks ih =>
    unfold cappedLoop
    split
    · next hover =>
      rw [if_neg]
      rw [List.flatten_cons, ← List.append_assoc, List.length_append]
      omega
    · next hfits => rw [ih (Nat.le_of_not_lt hfits), List.flatten_cons, List.append_assoc]

theorem on_readCapped (max : Nat) (s : Duplex β) :
    (readCapped max : DuplexM β ε (Option (List β))).on s =
      (.ok (if s.unread.length ≤ max then some s.unread else none), { s with unread := [] }) := by
  have hflat : (s.unread.map fun b => [b]).flatten = s.unread := by
    rw [← List.flatMap_def, List.flatMap_singleton']
  have hempty : ([] : List β).length ≤ max := Nat.zero_le max
  have hloop := cappedLoop_eq (s.unread.map fun b => [b]) hempty
  rw [List.nil_append, hflat] at hloop
  simp only [readCapped, on, hloop]

theorem Reads.readCapped (max : Nat) :
    Reads (DuplexM.readCapped max : DuplexM β ε (Option (List β))) where
  written s := by rw [on_readCapped]
  unread s := by
    rw [on_readCapped]
    exact List.nil_suffix

/-- The client that writes first and then takes the whole of the reply, up to its cap. -/
theorem Dialogue.of_readCapped {out reply : List β} {p : DuplexM β ε Unit}
    (hp : Exchange p out [] (.ok ())) {server : DuplexM β ε' γ} (hserver : server.Answers out reply)
    {max : Nat} {f : Option (List β) → DuplexM β ε α} (hf : ∀ raw?, Reads (f raw?))
    {r : Except ε α}
    (hend : ((f (if reply.length ≤ max then some reply else none)).on ⟨[], out⟩).1 = r) :
    Dialogue (p >>= fun _ => DuplexM.readCapped max >>= f) server r := by
  refine ⟨out, reply, hp.says.bind_reads fun _ => (Reads.readCapped max).bind hf, hserver, ?_⟩
  have hrun := hp [] reply
  rw [List.nil_append, List.nil_append] at hrun
  rw [on_bind, hrun]
  simp only
  rw [on_bind, on_readCapped]
  exact hend

end Smolweb.DuplexM
