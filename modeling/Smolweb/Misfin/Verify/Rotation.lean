import Smolweb.Misfin.Verify.IdentityStore

/-!
# Rotations that fail

A rotation removes the old file first, and mints, writes and reads the new identity after that. A
removal that is refused leaves everything as it was; whatever fails later has the old identity gone
(`rotateIdentity_keeps_iff`).
-/

namespace Smolweb.Misfin

section

variable (crates : IdentityCrates) (io : Io) (spec : MisfinIdentitySpec) (root : Text)

/-- What the file of a new identity is to hold, where minting and rendering it succeed. -/
def newContent : Except Text Text := do
  let identity ← generateIdentity crates io spec
  crates.toStringPretty (persistedIdentity spec identity)

/-- What a file that was not there holds after `content` was written to it, if it is there now. -/
def Io.leaves (content : Text) : Option Bytes :=
  match io.write with
  | none => some (Utf8.encode content)
  | some (_, length) => length.map fun n => (Utf8.encode content).take n

/-- The status of an identity whose file holds `content` can be told. -/
def Reported (content : Bytes) : Prop :=
  ∃ persisted certificate,
    readPersisted crates io.statusRead (identityPathForSpec spec root) content = .ok persisted ∧
      decodeHex persisted.certificateDerHex = .ok certificate

/-- Where there is no file, nothing fails: a new identity is minted, written and read. -/
def Renews : Prop :=
  io.createDirAll = none ∧ io.write = none ∧
    ∃ content, newContent crates io spec = .ok content ∧
      Reported crates io spec root (Utf8.encode content)

/-- Where there is no file, one is written that holds `old`. -/
def Restores (old : Bytes) : Prop :=
  io.createDirAll = none ∧
    ∃ content, newContent crates io spec = .ok content ∧ io.leaves content = some old

end

variable {crates : IdentityCrates} {io : Io} {spec : MisfinIdentitySpec} {root : Text}

/-! ## Steps -/

theorem identityStatus_ok_iff {disk : Disk} {content : Bytes}
    (h : disk.files (identityPathForSpec spec root) = some content) :
    (∃ status, identityStatusWithRoot crates io spec root disk = .ok status) ↔
      Reported crates io spec root content := by
  simp only [identityStatusWithRoot, h, Reported]
  cases hread : readPersisted crates io.statusRead (identityPathForSpec spec root) content with
  | error e =>
    constructor
    · rintro ⟨status, hstatus⟩
      cases hstatus
    · rintro ⟨persisted, certificate, hpersisted, -⟩
      cases hpersisted
  | ok persisted =>
    cases hhex : decodeHex persisted.certificateDerHex with
    | error e =>
      constructor
      · rintro ⟨status, hstatus⟩
        simp only [bind, Except.bind, hhex] at hstatus
        cases hstatus
      · rintro ⟨_, certificate, hpersisted, hcertificate⟩
        cases hpersisted
        rw [hhex] at hcertificate
        cases hcertificate
    | ok certificate =>
      constructor
      · exact fun _ => ⟨persisted, certificate, rfl, hhex⟩
      · intro _
        simp only [bind, Except.bind, hhex]
        exact ⟨_, rfl⟩

theorem write_spec {path content : Text} {disk : Disk} (hnone : disk.files path = none) :
    (disk.write io path content).2.files path = io.leaves content ∧
      ((disk.write io path content).1 = .ok () ↔ io.write = none) := by
  unfold Disk.write Io.leaves
  rcases io.write with - | ⟨error, - | n⟩
  · simp
  · simpa using hnone
  · simp

/-- What becomes of a file that was not there when an identity is created, and when the creation
succeeds. -/
theorem createIdentity_spec (crates : IdentityCrates) (io : Io) (spec : MisfinIdentitySpec)
    {path : Text} {disk : Disk} (hnone : disk.files path = none) :
    (createIdentity crates io spec path disk).2.files path =
        (newContent crates io spec).toOption.bind io.leaves ∧
      ((∃ identity, (createIdentity crates io spec path disk).1 = .ok identity) ↔
        (∃ content, newContent crates io spec = .ok content) ∧ io.write = none) := by
  unfold createIdentity newContent
  cases generateIdentity crates io spec with
  | error e => exact ⟨hnone, by simp [bind, Except.bind]⟩
  | ok identity =>
    simp only [bind, Except.bind]
    cases crates.toStringPretty (persistedIdentity spec identity) with
    | error e => exact ⟨hnone, by simp⟩
    | ok content =>
      have hminted : ({ disk with minted := disk.minted ++ [(spec, identity)] } : Disk).files path
          = none := hnone
      obtain ⟨hfile, hok⟩ := @write_spec io path content _ hminted
      simp only [Except.toOption, Option.bind_some]
      rcases hw : Disk.write io path content
        { disk with minted := disk.minted ++ [(spec, identity)] } with ⟨_ | _, disk'⟩
      · rw [hw] at hfile hok
        exact ⟨hfile, by simpa using hok⟩
      · rw [hw] at hfile hok
        exact ⟨hfile, by simpa using hok⟩

theorem restores_iff (hdir : io.createDirAll = none) (old : Bytes) :
    Restores crates io spec old ↔
      (newContent crates io spec).toOption.bind io.leaves = some old := by
  unfold Restores
  cases newContent crates io spec with
  | error e => simp [Except.toOption]
  | ok content => simp [hdir, Except.toOption]

/-- Where there is no file, an identity is ensured exactly when nothing fails. -/
theorem ensureIdentity_spec (crates : IdentityCrates) (io : Io) {disk : Disk}
    (hnone : disk.files (identityPathForSpec spec root) = none) (old : Bytes) :
    ((∃ status, (ensureIdentityWithRoot crates io spec root disk).1 = .ok status) ↔
        Renews crates io spec root) ∧
      ((ensureIdentityWithRoot crates io spec root disk).2.files
          (identityPathForSpec spec root) = some old ↔ Restores crates io spec old) := by
  unfold ensureIdentityWithRoot loadOrCreateIdentity
  cases hdir : io.createDirAll with
  | some error => simp [Renews, Restores, hdir, hnone]
  | none =>
    simp only [hnone]
    rw [restores_iff hdir]
    have hcreate := createIdentity_spec crates io spec hnone
    rcases hresult : createIdentity crates io spec (identityPathForSpec spec root) disk with
      ⟨_ | identity, disk'⟩
    · -- no identity was created
      rw [hresult] at hcreate
      obtain ⟨hfile, hok⟩ := hcreate
      refine ⟨?_, by rw [← hfile]⟩
      constructor
      · rintro ⟨status, hstatus⟩
        cases hstatus
      · rintro ⟨-, hwrite, content, hcontent, -⟩
        obtain ⟨identity, hidentity⟩ := hok.mpr ⟨⟨content, hcontent⟩, hwrite⟩
        cases hidentity
    · -- one was created, and the status is read from its file
      rw [hresult] at hcreate
      obtain ⟨hfile, hok⟩ := hcreate
      refine ⟨?_, by rw [← hfile]⟩
      obtain ⟨⟨content, hcontent⟩, hwrite⟩ := hok.mp ⟨identity, rfl⟩
      have hleaves : io.leaves content = some (Utf8.encode content) := by
        rw [Io.leaves, hwrite]
      rw [hcontent] at hfile
      simp only [Except.toOption, Option.bind_some, hleaves] at hfile
      simp only
      rw [identityStatus_ok_iff hfile]
      constructor
      · exact fun h => ⟨hdir, hwrite, content, hcontent, h⟩
      · rintro ⟨-, -, content', hcontent', h⟩
        rw [hcontent] at hcontent'
        cases hcontent'
        exact h

/-! ## Rotations -/

/-- The disk without the file at `path`. -/
def Disk.removed (disk : Disk) (path : Text) : Disk :=
  { disk with files := Function.update disk.files path none }

@[simp] theorem removed_files (disk : Disk) (path : Text) :
    (disk.removed path).files path = none := by
  simp only [Disk.removed, Function.update_self]

theorem rotateIdentity_eq (crates : IdentityCrates) {disk : Disk} {old : Bytes}
    (hold : disk.files (identityPathForSpec spec root) = some old)
    (hremove : io.removeFile = none) :
    rotateIdentityWithRoot crates io spec root disk =
      ensureIdentityWithRoot crates io spec root
        (disk.removed (identityPathForSpec spec root)) := by
  simp only [rotateIdentityWithRoot, forgetIdentityWithRoot, hold, hremove, Disk.removed]

/-- **A failed rotation** keeps the old identity exactly when the removal is what failed. Whatever
else fails, the old file is gone, unless the new one happens to hold the same. -/
theorem rotateIdentity_keeps_iff {disk : Disk} {old : Bytes}
    (hold : disk.files (identityPathForSpec spec root) = some old) :
    ((∃ e, (rotateIdentityWithRoot crates io spec root disk).1 = .error e) →
        (rotateIdentityWithRoot crates io spec root disk).2.files
          (identityPathForSpec spec root) = some old) ↔
      io.removeFile ≠ none ∨ Renews crates io spec root ∨ Restores crates io spec old := by
  cases hremove : io.removeFile with
  | some error =>
    simp only [rotateIdentityWithRoot, forgetIdentityWithRoot, hold, hremove]
    simp
  | none =>
    obtain ⟨hok, hfile⟩ := ensureIdentity_spec crates io
      (removed_files disk (identityPathForSpec spec root)) old
    rw [rotateIdentity_eq crates hold hremove, hfile, ← hok]
    simp only [ne_eq, not_true_eq_false, false_or]
    cases (ensureIdentityWithRoot crates io spec root _).1 with
    | error e => simp
    | ok status => simp

/-- The path of the sample's identity. -/
def samplePath : Text := identityPathForSpec ⟨plus, none⟩ sampleRoot

theorem sampleDisk_files : sampleDisk.files samplePath = some (Utf8.encode sampleJson) := by
  simp only [sampleDisk, samplePath, Function.update_self]

/-- A removal that is refused. -/
def refusedIo : Io := { sampleIo with removeFile := some "Permission denied".toList }

theorem rotateIdentity_refused :
    (∃ e, (rotateIdentityWithRoot sampleIdentityCrates refusedIo ⟨plus, none⟩ sampleRoot
        sampleDisk).1 = .error e) ∧
      (rotateIdentityWithRoot sampleIdentityCrates refusedIo ⟨plus, none⟩ sampleRoot
        sampleDisk).2.files samplePath = some (Utf8.encode sampleJson) := by
  have hfails : ∃ e, (rotateIdentityWithRoot sampleIdentityCrates refusedIo ⟨plus, none⟩ sampleRoot
      sampleDisk).1 = .error e := by
    have hfile : sampleDisk.files (identityPathForSpec ⟨plus, none⟩ sampleRoot) = _ :=
      sampleDisk_files
    simp only [rotateIdentityWithRoot, forgetIdentityWithRoot, hfile, refusedIo]
    exact ⟨_, rfl⟩
  have hrefused : refusedIo.removeFile ≠ none := by simp [refusedIo]
  exact ⟨hfails, (rotateIdentity_keeps_iff sampleDisk_files).mpr (.inl hrefused) hfails⟩

/-- A disk without room: the new file is opened, and nothing gets into it. -/
def fullIo : Io := { sampleIo with write := some ("No space left on device".toList, some 0) }

/-- The rotation fails, and the old identity is not in its file any more. -/
theorem rotateIdentity_loses :
    sampleDisk.files samplePath = some (Utf8.encode sampleJson) ∧
      (∃ e, (rotateIdentityWithRoot sampleIdentityCrates fullIo ⟨plus, none⟩ sampleRoot
        sampleDisk).1 = .error e) ∧
      (rotateIdentityWithRoot sampleIdentityCrates fullIo ⟨plus, none⟩ sampleRoot
        sampleDisk).2.files samplePath ≠ some (Utf8.encode sampleJson) := by
  refine ⟨sampleDisk_files, ?_⟩
  obtain ⟨hok, hfile⟩ := ensureIdentity_spec sampleIdentityCrates fullIo
    (removed_files sampleDisk samplePath) (Utf8.encode sampleJson)
  rw [rotateIdentity_eq sampleIdentityCrates sampleDisk_files rfl]
  constructor
  · cases hresult : (ensureIdentityWithRoot sampleIdentityCrates fullIo ⟨plus, none⟩ sampleRoot
      (sampleDisk.removed samplePath)).1 with
    | error e => exact ⟨e, hresult⟩
    | ok status =>
      obtain ⟨-, hwrite, -⟩ := hok.mp ⟨status, hresult⟩
      cases hwrite
  · intro h
    obtain ⟨-, content, -, hleaves⟩ := hfile.mp h
    simp only [Io.leaves, fullIo, Option.map_some, List.take_zero, Option.some_inj] at hleaves
    have hempty : ([] : Text) = sampleJson := Utf8.encode_injective hleaves
    exact absurd hempty (by decide)

end Smolweb.Misfin
