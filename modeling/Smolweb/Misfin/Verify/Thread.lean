import Mathlib.Data.List.Nodup
import Smolweb.Lib.Run
import Smolweb.Misfin.Verify.Gemmail

/-!
# Threads

A reply goes to everyone of the message but the one who replies, who is its sender. So however
often and by whomever of them a message is replied to, the same take part, and the next reply goes
once to each of the others (`thread_participants`).
-/

namespace Smolweb.Misfin

/-! ## Who a reply goes to -/

theorem nodup_pushRecipient {me candidate : MisfinAddress} {out : List MisfinAddress}
    (h : out.Nodup) : (pushRecipient me out candidate).Nodup := by
  unfold pushRecipient
  split
  · next hnew =>
    refine List.nodup_append.mpr ⟨h, List.nodup_singleton _, ?_⟩
    intro a ha b hb heq
    obtain rfl := List.mem_singleton.mp hb
    exact hnew.2 (heq ▸ ha)
  · exact h

theorem mem_pushRecipient {me candidate a : MisfinAddress} {out : List MisfinAddress} :
    a ∈ pushRecipient me out candidate ↔ a ∈ out ∨ (a = candidate ∧ a ≠ me) := by
  unfold pushRecipient
  split
  · next hnew =>
    rw [List.mem_append, List.mem_singleton]
    constructor
    · rintro (ha | rfl)
      · exact .inl ha
      · exact .inr ⟨rfl, hnew.1⟩
    · rintro (ha | ⟨rfl, -⟩)
      · exact .inl ha
      · exact .inr rfl
  · next hold =>
    refine ⟨.inl, ?_⟩
    rintro (ha | ⟨rfl, hme⟩)
    · exact ha
    · by_contra hout
      exact hold ⟨hme, hout⟩

theorem nodup_foldl_pushRecipient {me : MisfinAddress} {candidates out : List MisfinAddress}
    (h : out.Nodup) : (candidates.foldl (pushRecipient me) out).Nodup := by
  induction candidates generalizing out with
  | nil => exact h
  | cons candidate candidates ih => exact ih (nodup_pushRecipient h)

theorem mem_foldl_pushRecipient {me a : MisfinAddress} {candidates out : List MisfinAddress} :
    a ∈ candidates.foldl (pushRecipient me) out ↔ a ∈ out ∨ (a ∈ candidates ∧ a ≠ me) := by
  induction candidates generalizing out with
  | nil => simp
  | cons candidate candidates ih =>
    rw [List.foldl_cons, ih, mem_pushRecipient, List.mem_cons, or_and_right, or_assoc]

namespace MisfinGemmail

variable {gemmail first : MisfinGemmail} {me : MisfinSender} {a : MisfinAddress}

/-- Who takes part in a message: the one it is from and those it is to. -/
def participants (gemmail : MisfinGemmail) : List MisfinAddress :=
  (gemmail.sender.map MisfinSender.address).toList ++ gemmail.recipients

theorem nodup_replyRecipients (gemmail : MisfinGemmail) (me : MisfinAddress) :
    (replyRecipients gemmail me).Nodup := by
  unfold replyRecipients
  cases gemmail.sender with
  | none => exact nodup_foldl_pushRecipient List.nodup_nil
  | some sender => exact nodup_foldl_pushRecipient (nodup_pushRecipient List.nodup_nil)

theorem mem_replyRecipients {me : MisfinAddress} :
    a ∈ replyRecipients gemmail me ↔ a ∈ gemmail.participants ∧ a ≠ me := by
  unfold replyRecipients participants
  cases gemmail.sender with
  | none => simp [mem_foldl_pushRecipient]
  | some sender =>
    simp only [mem_foldl_pushRecipient, mem_pushRecipient, List.not_mem_nil, false_or,
      Option.map_some, Option.toList_some, List.mem_append, List.mem_singleton]
    rw [← or_and_right]

/-! ## Replies as they arrive -/

/-- The text of a reply, with the line that names its sender. -/
def replyText (gemmail : MisfinGemmail) (me : MisfinSender) (body : Text) : Text :=
  toGemtext {
    sender := some me
    recipients := replyRecipients gemmail me.address
    timestamp := none
    subject := none
    body }

/-- A reply as those who receive it read it. -/
def reply (gemmail : MisfinGemmail) (answer : MisfinSender × Text) : MisfinGemmail :=
  parseGemmail (gemmail.replyText answer.1 answer.2)

/-- Someone's certificate, as a sender line can name it. -/
def IsSender (me : MisfinSender) : Prop :=
  ∀ blurb, me.blurb = some blurb → blurb ≠ [] ∧ Text.IsTrimmed blurb

theorem Written.of_mem_participants (h : gemmail.Written) (ha : a ∈ gemmail.participants) :
    a.Written := by
  rcases List.mem_append.mp ha with ha | ha
  · obtain ⟨sender, hsender, rfl⟩ := Option.map_eq_some_iff.mp (Option.mem_toList.mp ha)
    exact (h.sender hsender).1.address
  · exact h.recipients a ha

/-- What is read of a reply that goes to anyone: whom it is from and whom it is to. -/
theorem reply_eq (h : gemmail.Written) (hme : me.address ∈ gemmail.participants)
    (hsender : IsSender me) (hne : replyRecipients gemmail me.address ≠ []) (body : Text) :
    (gemmail.reply (me, body)).sender = some me ∧
      (gemmail.reply (me, body)).recipients = replyRecipients gemmail me.address := by
  have hwritten : Written {
      sender := some me
      recipients := replyRecipients gemmail me.address
      timestamp := none
      subject := none
      body } := by
    refine ⟨?_, ?_, fun ht => by cases ht⟩
    · rintro _ ⟨⟩
      refine ⟨⟨h.of_mem_participants hme, fun hb => ?_⟩, fun b hb => (hsender b hb).2.2⟩
      exact ⟨(hsender _ hb).1, (hsender _ hb).2.1⟩
    · intro a ha
      exact h.of_mem_participants (mem_replyRecipients.mp ha).1
  rw [reply, replyText, parseGemmail, toGemtext,
    gemmailLines_append (isGemmailLine_of_mem_metadataLines hwritten), List.foldl_append,
    foldl_metadataLines hwritten, foldl_next]
  simp [Found.gemmail, hne]

/-- Two that take part: a reply by anyone goes to someone. -/
def Shared (gemmail : MisfinGemmail) : Prop :=
  ∃ a ∈ gemmail.participants, ∃ b ∈ gemmail.participants, a ≠ b

theorem Shared.replyRecipients_ne (h : gemmail.Shared) (me : MisfinAddress) :
    replyRecipients gemmail me ≠ [] := by
  obtain ⟨a, ha, b, hb, hab⟩ := h
  by_cases hme : a = me
  · exact List.ne_nil_of_mem (mem_replyRecipients.mpr ⟨hb, fun h => hab (hme.trans h.symm)⟩)
  · exact List.ne_nil_of_mem (mem_replyRecipients.mpr ⟨ha, hme⟩)

/-- **One reply** leaves everyone in. -/
theorem mem_participants_reply (h : gemmail.Written) (hshared : gemmail.Shared)
    (hme : me.address ∈ gemmail.participants) (hsender : IsSender me) (body : Text) :
    a ∈ (gemmail.reply (me, body)).participants ↔ a ∈ gemmail.participants := by
  obtain ⟨hfrom, hto⟩ := reply_eq h hme hsender (hshared.replyRecipients_ne me.address) body
  rw [participants, hfrom, hto, Option.map_some, Option.toList_some, List.mem_append,
    List.mem_singleton, mem_replyRecipients]
  constructor
  · rintro (rfl | ⟨ha, -⟩)
    · exact hme
    · exact ha
  · intro ha
    by_cases hself : a = me.address
    · exact .inl hself
    · exact .inr ⟨ha, hself⟩

/-- **All replies**, in whatever order and whatever they say, leave everyone in. -/
theorem mem_participants_after (h : first.Written) (hshared : first.Shared)
    {answers : List (MisfinSender × Text)}
    (hanswers : ∀ answer ∈ answers,
      answer.1.address ∈ first.participants ∧ IsSender answer.1) (a : MisfinAddress) :
    a ∈ (Run.after reply first answers).participants ↔ a ∈ first.participants := by
  induction answers generalizing first with
  | nil => rfl
  | cons answer answers ih =>
    obtain ⟨⟨hme, hsender⟩, hanswers⟩ := List.forall_mem_cons.mp hanswers
    have hstep (b : MisfinAddress) :
        b ∈ (first.reply answer).participants ↔ b ∈ first.participants :=
      mem_participants_reply h hshared hme hsender answer.2
    have hwritten : (first.reply answer).Written := written_parseGemmail _
    have hstill : (first.reply answer).Shared := by
      obtain ⟨b, hb, c, hc, hbc⟩ := hshared
      exact ⟨b, (hstep b).mpr hb, c, (hstep c).mpr hc, hbc⟩
    rw [Run.after_cons, ih hwritten hstill, hstep]
    intro other hother
    exact ⟨(hstep _).mpr (hanswers other hother).1, (hanswers other hother).2⟩

end MisfinGemmail

/-- **A thread keeps its participants**: after any replies of theirs, each of which is written,
sent and read again, the next reply of any of them goes to exactly the others, and once to each. -/
theorem thread_participants {text : Text} (hshared : (parseGemmail text).Shared)
    {answers : List (MisfinSender × Text)}
    (hanswers : ∀ answer ∈ answers, answer.1.address ∈ (parseGemmail text).participants ∧
      MisfinGemmail.IsSender answer.1) :
    let last := Run.after MisfinGemmail.reply (parseGemmail text) answers
    (∀ a, a ∈ last.participants ↔ a ∈ (parseGemmail text).participants) ∧
      ∀ me, (replyRecipients last me).Nodup ∧
        ∀ a, a ∈ replyRecipients last me ↔ a ∈ (parseGemmail text).participants ∧ a ≠ me := by
  intro last
  have hlast := MisfinGemmail.mem_participants_after (written_parseGemmail text) hshared hanswers
  refine ⟨hlast, fun me => ⟨last.nodup_replyRecipients me, fun a => ?_⟩⟩
  rw [MisfinGemmail.mem_replyRecipients, hlast]

theorem thread_participants_sample :
    let text := "< one@a.test\n: two@a.test one@a.test three@b.test\nhi".toList
    let two : MisfinAddress := ⟨"two".toList, "a.test".toList⟩
    let three : MisfinAddress := ⟨"three".toList, "b.test".toList⟩
    let answers : List (MisfinSender × Text) :=
      [(⟨two, some "Two".toList⟩, ": four@c.test".toList), (⟨three, none⟩, [])]
    let last := Run.after MisfinGemmail.reply (parseGemmail text) answers
    three ∈ last.participants ∧ (replyRecipients last two).Nodup ∧
      three ∈ replyRecipients last two := by
  intro text two three answers last
  have hthree : three ∈ (parseGemmail text).participants := by decide +kernel
  have htwo : two ∈ (parseGemmail text).participants := by decide +kernel
  have hshared : (parseGemmail text).Shared := ⟨three, hthree, two, htwo, by decide +kernel⟩
  have hanswers : ∀ answer ∈ answers, answer.1.address ∈ (parseGemmail text).participants ∧
      MisfinGemmail.IsSender answer.1 := by
    rw [List.forall_mem_cons, List.forall_mem_cons]
    refine ⟨⟨htwo, ?_⟩, ⟨hthree, ?_⟩, by simp⟩
    · rintro blurb ⟨⟩
      exact ⟨by decide, by decide +kernel, by decide⟩
    · rintro blurb ⟨⟩
  have hthread := thread_participants hshared hanswers
  exact ⟨(hthread.1 three).mpr hthree, (hthread.2 two).1,
    ((hthread.2 two).2 three).mpr ⟨hthree, by decide +kernel⟩⟩

end Smolweb.Misfin
