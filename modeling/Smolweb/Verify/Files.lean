import Smolweb.Guppy.Files
import Smolweb.Nex.Server
import Smolweb.Spartan.Files

/-!
# Static files stay below their root

A segment is pushed only if it is a component that goes down (`Component`), so what the loop of
`resolve` makes is the root with such components behind it (`pushSegments_joined`). The three
handlers differ in the name they add to a directory, which is one more such component, and so none
of them leaves its root (`resolve_staysInside`).
-/

namespace Smolweb

/-- A component that goes down by one. -/
structure Component (t : Text) : Prop where
  ne_nil : t ≠ []
  ne_dot : t ≠ ['.']
  ne_dotDot : t ≠ ['.', '.']
  slash : '/' ∉ t
  backslash : '\\' ∉ t
  colon : ':' ∉ t

/-- A path with components behind it. -/
def joined (root : Bytes) (components : List Text) : Bytes :=
  components.foldl (fun path t => Path.below separator path ++ Utf8.encode t) root

/-- What `resolve` may answer: a path below the root or nothing, and nothing if the path that is
asked for has a `..` in it once it is percent-decoded. -/
def StaysInside (percentDecode : Text → Bytes) (root : Bytes) (requestPath : Text)
    (resolved : Option Bytes) : Prop :=
  (∀ path, resolved = some path →
    ∃ components, (∀ t ∈ components, Component t) ∧ path = joined root components) ∧
  ([0x2E, 0x2E] ∈ (percentDecode requestPath).splitOn separator → resolved = none)

/-! ## Components -/

theorem component_of_kept {t : Text} {segments : List Text} (hkept : t ∈ kept segments)
    (hslash : '/' ∉ t) (hpush : Pushable t) : Component t := by
  have hskip : isSkipped t = false := by simpa using (List.mem_filter.mp hkept).2
  rw [isSkipped, Bool.or_eq_false_iff, beq_eq_false_iff_ne, beq_eq_false_iff_ne] at hskip
  exact ⟨hskip.1, hskip.2, hpush.1, hslash, hpush.2.1, hpush.2.2⟩

/-- **The loop** puts the segments it keeps behind the root, and each of them goes down. -/
theorem pushSegments_joined {segments : List Text} (hslash : ∀ t ∈ segments, '/' ∉ t)
    {root path : Bytes} (h : pushSegments root segments = some path) :
    (∀ t ∈ kept segments, Component t) ∧ path = joined root (kept segments) := by
  induction segments generalizing root with
  | nil =>
    obtain rfl := Option.some_inj.mp h
    exact ⟨fun t ht => (List.not_mem_nil ht).elim, rfl⟩
  | cons segment rest ih =>
    have hrest : ∀ t ∈ rest, '/' ∉ t := fun t ht => hslash t (List.mem_cons_of_mem segment ht)
    have hsegment := hslash segment List.mem_cons_self
    cases hskip : isSkipped segment with
    | true =>
      have hkept : kept (segment :: rest) = kept rest :=
        List.filter_cons_of_neg (by simp [hskip])
      rw [pushSegments, if_pos hskip] at h
      rw [hkept]
      exact ih hrest h
    | false =>
      have hkept : kept (segment :: rest) = segment :: kept rest :=
        List.filter_cons_of_pos (by simp [hskip])
      obtain ⟨hpush, h⟩ := (pushSegments_cons_iff hskip).mp h
      rw [push_segment root hsegment] at h
      obtain ⟨hcomponents, hpath⟩ := ih hrest h
      rw [hkept]
      refine ⟨?_, hpath⟩
      intro t ht
      obtain rfl | ht := List.mem_cons.mp ht
      · exact component_of_kept (hkept ▸ List.mem_cons_self) hsegment hpush
      · exact hcomponents t ht

theorem pushSegments_dotDot {segments : List Text} (h : ['.', '.'] ∈ segments) (root : Bytes) :
    pushSegments root segments = none := by
  obtain ⟨before, rest, rfl⟩ := List.append_of_mem h
  rw [pushSegments_append]
  cases pushSegments root before with
  | none => rfl
  | some path => rfl

/-! ## Decoded paths -/

theorem encode_intercalate {c : Char} (hc : c.toNat < 128) (ts : List Text) :
    Utf8.encode ([c].intercalate ts) = [UInt8.ofNat c.toNat].intercalate (ts.map Utf8.encode) := by
  induction ts with
  | nil => rfl
  | cons t ts ih =>
    cases ts with
    | nil => simp
    | cons u ts =>
      rw [List.intercalate_cons_cons]
      simp [ih, Utf8.encodeChar_ascii hc]

/-- A text is split at a character where its encoding is split at its byte. -/
theorem splitOn_encode {c : Char} (hc : c.toNat < 128) (t : Text) :
    (Utf8.encode t).splitOn (UInt8.ofNat c.toNat) = (t.splitOn c).map Utf8.encode := by
  have hfree : ∀ b ∈ (t.splitOn c).map Utf8.encode, UInt8.ofNat c.toNat ∉ b := by
    intro b hb hm
    obtain ⟨field, hfield, rfl⟩ := List.mem_map.mp hb
    exact Text.not_mem_of_mem_splitOn hfield ((Utf8.mem_encode_ascii hc).mp hm)
  have hne : (t.splitOn c).map Utf8.encode ≠ [] :=
    mt List.map_eq_nil_iff.mp (List.splitOn_ne_nil c t)
  have hjoin : Utf8.encode t =
      [UInt8.ofNat c.toNat].intercalate ((t.splitOn c).map Utf8.encode) := by
    rw [← encode_intercalate hc, List.intercalate_splitOn]
  rw [hjoin, List.splitOn_intercalate _ hfree hne]

theorem dotDot_mem_splitOn {decoded : Text}
    (h : [0x2E, 0x2E] ∈ (Utf8.encode decoded).splitOn separator) :
    ['.', '.'] ∈ decoded.splitOn '/' := by
  have hsplit : (Utf8.encode decoded).splitOn separator = (decoded.splitOn '/').map Utf8.encode :=
    splitOn_encode (c := '/') (by decide) decoded
  rw [hsplit] at h
  obtain ⟨t, ht, hencode⟩ := List.mem_map.mp h
  have hdots : t = ['.', '.'] := Utf8.encode_injective hencode
  exact hdots ▸ ht

/-- **A handler stays inside** its root if it adds at most a component to what the loop makes. -/
theorem staysInside_of_add {percentDecode : Text → Bytes} {root : Bytes} {requestPath : Text}
    {resolved : Option Bytes}
    (h : ∀ path, resolved = some path → ∃ decoded below added,
      Utf8.decode (percentDecode requestPath) = some decoded ∧
      pushSegments root (decoded.splitOn '/') = some below ∧
      (∀ t ∈ added, Component t) ∧ path = joined below added) :
    StaysInside percentDecode root requestPath resolved := by
  constructor
  · intro path hpath
    obtain ⟨decoded, below, added, -, hpush, hadded, rfl⟩ := h path hpath
    have hslash : ∀ t ∈ decoded.splitOn '/', '/' ∉ t := fun t ht => Text.not_mem_of_mem_splitOn ht
    obtain ⟨hcomponents, rfl⟩ := pushSegments_joined hslash hpush
    refine ⟨kept (decoded.splitOn '/') ++ added, ?_, ?_⟩
    · intro t ht
      exact (List.mem_append.mp ht).elim (hcomponents t) (hadded t)
    · rw [joined, joined, joined, List.foldl_append]
  · intro hdots
    cases hresolved : resolved with
    | none => rfl
    | some path =>
      obtain ⟨decoded, below, added, hdecode, hpush, -⟩ := h path hresolved
      rw [← Utf8.encode_of_decode hdecode] at hdots
      rw [pushSegments_dotDot (dotDot_mem_splitOn hdots)] at hpush
      cases hpush

theorem component_index : Component "index.gmi".toList where
  ne_nil := by decide
  ne_dot := by decide
  ne_dotDot := by decide
  slash := by decide
  backslash := by decide
  colon := by decide

/-- The name of a directory's file is put behind the directory, where it is. -/
theorem joined_of_index {p : Prop} [Decidable p] {below path : Bytes}
    (h : (if p then some (Path.push separator below (Utf8.encode "index.gmi".toList))
      else some below) = some path) :
    ∃ added, (∀ t ∈ added, Component t) ∧ path = joined below added := by
  split at h
  · rw [push_segment below component_index.slash, Option.some_inj] at h
    refine ⟨["index.gmi".toList], ?_, h.symm⟩
    intro t ht
    rw [List.mem_singleton.mp ht]
    exact component_index
  · exact ⟨[], fun t ht => (List.not_mem_nil ht).elim, (Option.some_inj.mp h).symm⟩

theorem staysInside_index (percentDecode : Text → Bytes) (root : Bytes) (requestPath : Text)
    (p : Text → Prop) [DecidablePred p] : StaysInside percentDecode root requestPath (do
      let decoded ← Utf8.decode (percentDecode requestPath)
      let resolved ← pushSegments root (decoded.splitOn '/')
      if p decoded then some (Path.push separator resolved (Utf8.encode "index.gmi".toList))
      else some resolved) := by
  apply staysInside_of_add
  intro path h
  obtain ⟨decoded, hdecode, h⟩ := Option.bind_eq_some_iff.mp h
  obtain ⟨below, hpush, h⟩ := Option.bind_eq_some_iff.mp h
  obtain ⟨added, hadded, hpath⟩ := joined_of_index h
  exact ⟨decoded, below, added, hdecode, hpush, hadded, hpath⟩

/-- **Static files stay inside** the root, whatever path is asked for. -/
theorem resolve_staysInside (percentDecode : Text → Bytes) (root : Bytes) (requestPath : Text) :
    StaysInside percentDecode root requestPath
        (Spartan.FileHandler.resolve percentDecode ⟨root⟩ requestPath) ∧
      StaysInside percentDecode root requestPath
        (Guppy.FileHandler.resolve percentDecode ⟨root⟩ requestPath) ∧
      StaysInside percentDecode root requestPath
        (Nex.FileHandler.resolve percentDecode ⟨root⟩ requestPath) := by
  refine ⟨?_, ?_, ?_⟩
  · exact staysInside_index percentDecode root requestPath fun decoded =>
      ['/'] <:+ decoded ∨ decoded.isEmpty = true
  · exact staysInside_index percentDecode root requestPath fun decoded => ['/'] <:+ decoded
  · apply staysInside_of_add
    intro path h
    obtain ⟨decoded, hdecode, hpush⟩ := Option.bind_eq_some_iff.mp h
    exact ⟨decoded, path, [], hdecode, hpush, fun t ht => (List.not_mem_nil ht).elim, rfl⟩

end Smolweb
