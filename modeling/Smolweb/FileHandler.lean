import Smolweb.Lib.Fields
import Smolweb.Lib.Path
import Smolweb.Lib.Percent

/-!
# Files below a root

The part that the three `FileHandler`s share: the loop of `resolve` over the segments of a decoded
request path, and what they ask of the file system.
-/

namespace Smolweb

/-- The byte between the components of a path. -/
def separator : UInt8 := 0x2F

/-- A segment that the loop passes over. -/
def isSkipped (segment : Text) : Bool := segment == [] || segment == ['.']

/-- The loop of `resolve`; `none` is a path that is refused. -/
def pushSegments (resolved : Bytes) : List Text → Option Bytes
  | [] => some resolved
  | segment :: rest =>
    if isSkipped segment then pushSegments resolved rest
    else if segment = ['.', '.'] then none
    else if segment.any fun c => c == '\\' || c == ':' then none
    else pushSegments (Path.push separator resolved (Utf8.encode segment)) rest

/-- The name of a file in a directory. -/
structure FileName where
  bytes : Bytes
  ne_nil : bytes ≠ []
  ne_dot : bytes ≠ [0x2E]
  ne_dotDot : bytes ≠ [0x2E, 0x2E]
  separator_not_mem : separator ∉ bytes
  nul_not_mem : 0 ∉ bytes

structure DirEntry where
  name : FileName
  /-- Whether `file_type` succeeds and `is_dir`. -/
  isDir : Bool

/-- What the handlers are told of the file system: the content of a file that is read, whether a
path is a directory, and the entries of a directory until the first that is not read. -/
structure FileSystem where
  read : Bytes → Option Bytes
  isDir : Bytes → Bool
  readDir : Bytes → List DirEntry

/-- The extension that a `mime_for` looks up: empty where there is none, in lower case. -/
def extensionOf (path : Bytes) : Text :=
  (((Path.extension separator 0x2E path).bind Utf8.decode).getD []).map Char.toLower

/-! ## Segments -/

/-- The segments that are not passed over. -/
def kept (segments : List Text) : List Text := segments.filter fun segment => !isSkipped segment

theorem head_ne_of_not_mem {b : Bytes} (h : separator ∉ b) : b.head? ≠ some separator := by
  intro hhead
  exact h (List.mem_of_mem_head? hhead)

theorem separator_not_mem_encode {t : Text} (h : '/' ∉ t) : separator ∉ Utf8.encode t :=
  fun hm => h ((Utf8.mem_encode_ascii (c := '/') (by decide)).mp hm)

/-- What a slash separates is decoded on its own. -/
theorem decode_append_slash (s u : Text) :
    Percent.decode (s ++ '/' :: u) = Percent.decode s ++ separator :: Percent.decode u := by
  have hencode : Utf8.encode (s ++ '/' :: u) = Utf8.encode s ++ separator :: Utf8.encode u := by
    rw [Utf8.encode_append, Utf8.encode_cons, Utf8.encodeChar_ascii (by decide)]
    rfl
  rw [Percent.decode, hencode]
  exact Percent.decodeBytes_append_cons (by decide) (by decide) _ _

/-- A segment is put behind a path, not in its place. -/
theorem push_segment (path : Bytes) {segment : Text} (h : '/' ∉ segment) :
    Path.push separator path (Utf8.encode segment) =
      Path.below separator path ++ Utf8.encode segment :=
  Path.push_eq path (head_ne_of_not_mem (separator_not_mem_encode h))

/-- A segment that is pushed. -/
def Pushable (segment : Text) : Prop :=
  segment ≠ ['.', '.'] ∧ '\\' ∉ segment ∧ ':' ∉ segment

theorem pushSegments_kept (resolved : Bytes) (segments : List Text) :
    pushSegments resolved (kept segments) = pushSegments resolved segments := by
  induction segments generalizing resolved with
  | nil => rfl
  | cons segment rest ih =>
    unfold kept at ih ⊢
    cases hskip : isSkipped segment with
    | true =>
      rw [List.filter_cons_of_neg (by simp [hskip]), ih, pushSegments, if_pos hskip]
    | false =>
      rw [List.filter_cons_of_pos (by simp [hskip]), pushSegments, pushSegments]
      simp only [ih]

theorem pushSegments_append (resolved : Bytes) (a b : List Text) :
    pushSegments resolved (a ++ b) = (pushSegments resolved a).bind (pushSegments · b) := by
  induction a generalizing resolved with
  | nil => rfl
  | cons segment rest ih =>
    rw [List.cons_append, pushSegments, pushSegments]
    simp only [ih]
    split
    · rfl
    · split
      · rfl
      · split <;> rfl

theorem pushSegments_cons_iff {segment : Text} {rest : List Text} {resolved path : Bytes}
    (h : isSkipped segment = false) :
    pushSegments resolved (segment :: rest) = some path ↔ Pushable segment ∧
      pushSegments (Path.push separator resolved (Utf8.encode segment)) rest = some path := by
  have hany : (segment.any fun c => c == '\\' || c == ':') = true ↔
      '\\' ∈ segment ∨ ':' ∈ segment := by
    simp only [List.any_eq_true, Bool.or_eq_true, beq_iff_eq]
    constructor
    · rintro ⟨c, hc, rfl | rfl⟩
      · exact .inl hc
      · exact .inr hc
    · rintro (hc | hc)
      · exact ⟨_, hc, .inl rfl⟩
      · exact ⟨_, hc, .inr rfl⟩
  rw [pushSegments, if_neg (by simp [h]), Pushable]
  split
  · next hdots => simp [hdots]
  · next hdots =>
    split
    · next hbad =>
      rcases hany.mp hbad with hm | hm
      · simp [hm]
      · simp [hm]
    · next hgood =>
      have hnot := mt hany.mpr hgood
      rw [not_or] at hnot
      simp [hdots, hnot.1, hnot.2]

end Smolweb
