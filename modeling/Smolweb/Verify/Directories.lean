import Smolweb.Guppy.Files
import Smolweb.Spartan.Files

/-!
# Directories and the slashes behind them

A directory may be asked for with slashes behind it or without one. Guppy's handler serves its
index either way (`Guppy.FileHandler.directory_served`). Spartan's sends whoever asks to the path
with a slash behind it, and serves the index there; who follows is redirected once at most, unless
the index is a directory too: then there is a slash more every time, without end
(`Spartan.FileHandler.directory_followed`).
-/

namespace Smolweb

/-! ## Paths with a slash behind them -/

/-- What a request path leads to, whatever stands at its end. -/
def directory (percentDecode : Text → Bytes) (root : Bytes) (requestPath : Text) : Option Bytes :=
  (Utf8.decode (percentDecode requestPath)).bind fun decoded =>
    pushSegments root (decoded.splitOn '/')

/-- The index of a directory. -/
def indexOf (path : Bytes) : Bytes := Path.push separator path (Utf8.encode "index.gmi".toList)

theorem extensionOf_indexOf (path : Bytes) : extensionOf (indexOf path) = "gmi".toList := by
  have hname : Path.fileName separator 0x2E (indexOf path) =
      some (Utf8.encode "index.gmi".toList) := by
    rw [indexOf, push_segment path (by decide)]
    exact Path.fileName_below path (by decide) (by decide) (by decide) (by decide)
  rw [extensionOf, Path.extension, hname]
  decide +kernel

section Slash

variable {percentDecode : Text → Bytes} (hdecode : Percent.Decodes percentDecode)
include hdecode

theorem decode_concat_slash (requestPath : Text) :
    Utf8.decode (percentDecode (requestPath ++ ['/'])) =
      (Utf8.decode (percentDecode requestPath)).map (· ++ ['/']) := by
  obtain rfl := hdecode.eq
  rw [decode_append_slash]
  exact Utf8.decode_concat_ascii (c := '/') (by decide) (Percent.decode requestPath)

/-- A slash at the end leads nowhere else. -/
theorem directory_slash (root : Bytes) (requestPath : Text) :
    directory percentDecode root (requestPath ++ ['/']) =
      directory percentDecode root requestPath := by
  unfold directory
  rw [decode_concat_slash hdecode]
  cases Utf8.decode (percentDecode requestPath) with
  | none => rfl
  | some decoded =>
    simp only [Option.map_some, Option.bind_some]
    rw [List.splitOn_append_cons_self, List.splitOn_nil, pushSegments_append]
    cases pushSegments root (decoded.splitOn '/') with
    | none => rfl
    | some path => rfl

end Slash

theorem directory_sample : directory Percent.decode (Utf8.encode "/srv".toList) "/d".toList =
    some (Utf8.encode "/srv/d".toList) := by
  rw [directory, Percent.decode_of_not_mem (by decide), Utf8.decode_encode]
  rfl

/-! ## Guppy -/

namespace Guppy.FileHandler

variable {percentDecode : Text → Bytes} {handler : FileHandler} {fs : FileSystem}
  {requestPath : Text} {dir : Bytes}

/-- What is said of a directory: its index, as gemtext. -/
def served (fs : FileSystem) (dir : Bytes) (requestPath : Text) : GuppyResponse :=
  match fs.read (indexOf dir) with
  | some body => .success "text/gemini".toList body
  | none => .error (requestPath ++ " not found".toList)

theorem mimeFor_indexOf (path : Bytes) : mimeFor (indexOf path) = "text/gemini".toList := by
  rw [mimeFor, extensionOf_indexOf]
  rfl

/-- A directory with an index of one byte. -/
def sampleFiles : FileSystem where
  read path := if path = Utf8.encode "/srv/d/index.gmi".toList then some [1] else none
  isDir path := path == Utf8.encode "/srv/d".toList
  readDir _ := []

end Guppy.FileHandler

/-! ## Spartan -/

namespace Spartan.FileHandler

theorem mimeFor_indexOf (path : Bytes) : mimeFor (indexOf path) = "text/gemini".toList := by
  rw [mimeFor, extensionOf_indexOf]
  rfl

/-- Behind a slash, the index of the directory is meant. -/
theorem resolve_slash {percentDecode : Text → Bytes} (hdecode : Percent.Decodes percentDecode)
    (handler : FileHandler) (requestPath : Text) :
    handler.resolve percentDecode (requestPath ++ ['/']) =
      (directory percentDecode handler.root requestPath).map indexOf := by
  rw [← directory_slash hdecode, directory, resolve, decode_concat_slash hdecode]
  cases Utf8.decode (percentDecode requestPath) with
  | none => rfl
  | some decoded =>
    simp only [Option.map_some, bind, Option.bind_some]
    cases pushSegments handler.root ((decoded ++ ['/']).splitOn '/') with
    | none => rfl
    | some path =>
      rw [Option.bind_some, if_pos (.inl (List.suffix_append decoded ['/'])), Option.map_some]
      rfl

variable {P : Type} (percentDecode : Text → Bytes) (handler : FileHandler) (disk : Disk)

/-- What the handler answers to a request without data. -/
def page (host : Text) (peer : P) (path : Text) : SpartanResponse :=
  handler.handle percentDecode disk { host, path, data := [], peer }

/-- The path that is asked for after `n` redirects, if there are as many. -/
def redirected (host : Text) (peer : P) : Nat → Text → Option Text
  | 0, path => some path
  | n + 1, path =>
    match handler.page percentDecode disk host peer path with
    | .redirect target => redirected host peer n target
    | _ => none

/-- What the path is resolved to is a directory: what it leads to, or the index of that if the path
ends in a slash. -/
def ResolvesToDir (path : Text) : Prop :=
  ∃ resolved, handler.resolve percentDecode path = some resolved ∧ disk.isDir resolved = true

/-- The index of what a path leads to is a directory. -/
def IndexIsDir (path : Text) : Prop :=
  ∃ dir, directory percentDecode handler.root path = some dir ∧ disk.isDir (indexOf dir) = true

variable {percentDecode handler disk} {host : Text} {peer : P} {path target : Text}

/-- A redirect appends a slash to the path of a directory. -/
theorem page_eq_redirect_iff : handler.page percentDecode disk host peer path = .redirect target ↔
    target = path ++ ['/'] ∧ ResolvesToDir percentDecode handler disk path := by
  unfold page handle ResolvesToDir
  rw [if_neg (by simp)]
  constructor
  · intro h
    split at h
    · cases h
    · next resolved hresolved =>
      split at h
      · next hisDir =>
        injection h with h
        exact ⟨h.symm, resolved, hresolved, hisDir⟩
      · split at h
        · cases h
        · cases h
        · cases h
  · rintro ⟨rfl, resolved, hresolved, hisDir⟩
    rw [hresolved]
    simp only [hisDir, if_true]

/-- One redirect is followed, and then the others. -/
theorem redirected_succ_iff {n : Nat} :
    handler.redirected percentDecode disk host peer (n + 1) path = some target ↔
      ResolvesToDir percentDecode handler disk path ∧
        handler.redirected percentDecode disk host peer n (path ++ ['/']) = some target := by
  rw [redirected]
  constructor
  · intro h
    split at h
    · next next hpage =>
      obtain ⟨rfl, hdir⟩ := page_eq_redirect_iff.mp hpage
      exact ⟨hdir, h⟩
    · cases h
  · rintro ⟨hdir, h⟩
    rw [page_eq_redirect_iff.mpr ⟨rfl, hdir⟩]
    exact h

section Slash

variable (hdecode : Percent.Decodes percentDecode)
include hdecode

theorem resolvesToDir_slash_iff : ResolvesToDir percentDecode handler disk (path ++ ['/']) ↔
    IndexIsDir percentDecode handler disk path := by
  rw [ResolvesToDir, resolve_slash hdecode]
  constructor
  · rintro ⟨resolved, hmap, hisDir⟩
    obtain ⟨dir, hdir, rfl⟩ := Option.map_eq_some_iff.mp hmap
    exact ⟨dir, hdir, hisDir⟩
  · rintro ⟨dir, hdir, hisDir⟩
    exact ⟨indexOf dir, by rw [hdir, Option.map_some], hisDir⟩

theorem indexIsDir_slash_iff : IndexIsDir percentDecode handler disk (path ++ ['/']) ↔
    IndexIsDir percentDecode handler disk path := by
  rw [IndexIsDir, directory_slash hdecode, IndexIsDir]

/-- From a path with a slash at its end there are redirects without end, or none. -/
theorem redirected_slash_iff (n : Nat) :
    handler.redirected percentDecode disk host peer n (path ++ ['/']) = some target ↔
      target = path ++ List.replicate (n + 1) '/' ∧
        (n ≠ 0 → IndexIsDir percentDecode handler disk path) := by
  induction n generalizing path with
  | zero => simp [redirected, eq_comm]
  | succ n ih =>
    rw [redirected_succ_iff, ih, resolvesToDir_slash_iff hdecode, indexIsDir_slash_iff hdecode,
      List.append_assoc, List.replicate_succ (n := n + 1)]
    constructor
    · rintro ⟨hindex, htarget, -⟩
      exact ⟨htarget, fun _ => hindex⟩
    · rintro ⟨htarget, hindex⟩
      have hindex := hindex n.succ_ne_zero
      exact ⟨hindex, htarget, fun _ => hindex⟩

theorem redirected_eq_some_iff (n : Nat) :
    handler.redirected percentDecode disk host peer n path = some target ↔
      target = path ++ List.replicate n '/' ∧
        (n ≠ 0 → ResolvesToDir percentDecode handler disk path) ∧
        (1 < n → IndexIsDir percentDecode handler disk path) := by
  cases n with
  | zero => simp [redirected, eq_comm]
  | succ n =>
    rw [redirected_succ_iff, redirected_slash_iff hdecode]
    constructor
    · rintro ⟨hdir, htarget, hindex⟩
      exact ⟨htarget, fun _ => hdir, fun hn => hindex (by omega)⟩
    · rintro ⟨htarget, hdir, hindex⟩
      exact ⟨hdir n.succ_ne_zero, htarget, fun hn => hindex (by omega)⟩

/-- Behind its slash, a directory is its index, as gemtext. -/
theorem page_slash {dir : Bytes} (hdir : directory percentDecode handler.root path = some dir)
    (hindex : disk.isDir (indexOf dir) = false) {body : Bytes}
    (hread : disk.read (indexOf dir) = .ok body) :
    handler.page percentDecode disk host peer (path ++ ['/']) =
      .success "text/gemini".toList body := by
  rw [page, handle, if_neg (by simp)]
  simp only [resolve_slash hdecode, hdir, Option.map_some, hindex, hread, mimeFor_indexOf]
  rfl

end Slash

/-- **Directories are found**: after `n` redirects the path has `n` slashes behind it. There is a
first one exactly if the path is resolved to a directory, and another one exactly if the index of
that is a directory too, then without end; an index that is a file is served behind the slash. -/
theorem directory_followed (hdecode : Percent.Decodes percentDecode) (handler : FileHandler)
    (disk : Disk) (host : Text) (peer : P) (path : Text) :
    (∀ n target, handler.redirected percentDecode disk host peer n path = some target ↔
      target = path ++ List.replicate n '/' ∧
        (n ≠ 0 → ResolvesToDir percentDecode handler disk path) ∧
        (1 < n → IndexIsDir percentDecode handler disk path)) ∧
    ∀ dir body, directory percentDecode handler.root path = some dir →
      disk.isDir (indexOf dir) = false → disk.read (indexOf dir) = .ok body →
      handler.page percentDecode disk host peer (path ++ ['/']) =
        .success "text/gemini".toList body :=
  ⟨fun n _ => redirected_eq_some_iff hdecode n,
    fun _ _ hdir hindex hread => page_slash hdecode hdir hindex hread⟩

/-- A disk with a directory, whose index is a file of one byte. -/
def sampleDisk : Disk where
  read path := if path = Utf8.encode "/srv/d/index.gmi".toList then .ok [1] else .error .notFound
  isDir path := path == Utf8.encode "/srv/d".toList

theorem directory_followed_sample :
    redirected Percent.decode ⟨Utf8.encode "/srv".toList⟩ sampleDisk [] () 1 "/d".toList =
        some "/d/".toList ∧
      page Percent.decode ⟨Utf8.encode "/srv".toList⟩ sampleDisk [] () "/d/".toList =
        .success "text/gemini".toList [1] := by
  obtain ⟨hredirected, hserved⟩ := directory_followed Percent.decodes_decode
    ⟨Utf8.encode "/srv".toList⟩ sampleDisk [] () "/d".toList
  refine ⟨(hredirected 1 _).mpr ⟨rfl, fun _ => ?_, fun hn => absurd hn (by decide)⟩,
    hserved _ _ directory_sample (by decide +kernel) (by decide +kernel)⟩
  refine ⟨Utf8.encode "/srv/d".toList, ?_, by decide +kernel⟩
  rw [resolve, Percent.decode_of_not_mem (by decide), Utf8.decode_encode]
  rfl

end Spartan.FileHandler

end Smolweb
