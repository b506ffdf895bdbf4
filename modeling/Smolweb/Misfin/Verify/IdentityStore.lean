import Mathlib.Data.List.Forall2
import Mathlib.Data.Set.Insert
import Smolweb.Misfin.IdentityStore

/-!
# Identities of different addresses

Files are kept apart by their names, and a name is an address with every character that is not
plain replaced by `_`. Addresses that differ only in such characters share a file; below a root
where no two addresses do, every call leaves the other addresses' files alone (`Confined`), so what
is read for an address was minted for it (`Owned`).
-/

namespace Smolweb.Misfin

/-! ## Hexadecimal digits -/

/-- The byte of a digit. -/
def hexByte (value : UInt8) : UInt8 := (nibbleToHex value).toNat.toUInt8

/-- A digit is one byte, which is read as the value the digit was written for. -/
theorem hexByte_digit {value : UInt8} (h : value < 16) :
    Utf8.encode [nibbleToHex value] = [hexByte value] ∧
      fromHexDigit (hexByte value) = .ok value := by
  have hall : ∀ n < 16, Utf8.encode [nibbleToHex (UInt8.ofNat n)] = [hexByte (UInt8.ofNat n)] ∧
      fromHexDigit (hexByte (UInt8.ofNat n)) = .ok (UInt8.ofNat n) := by decide
  have hvalue := hall value.toNat (UInt8.lt_iff_toNat_lt.mp h)
  rwa [UInt8.ofNat_toNat] at hvalue

theorem nibbles (b : UInt8) :
    b >>> 4 < 16 ∧ b &&& 0x0F < 16 ∧ (b >>> 4) <<< 4 ||| (b &&& 0x0F) = b := by
  revert b
  exact byte_all (by decide +kernel)

theorem encode_encodeHex_cons (b : UInt8) (bytes : Bytes) :
    Utf8.encode (encodeHex (b :: bytes)) =
      hexByte (b >>> 4) :: hexByte (b &&& 0x0F) :: Utf8.encode (encodeHex bytes) := by
  obtain ⟨hhigh, hlow, -⟩ := nibbles b
  have hcons : encodeHex (b :: bytes) =
      [nibbleToHex (b >>> 4)] ++ ([nibbleToHex (b &&& 0x0F)] ++ encodeHex bytes) := rfl
  rw [hcons, Utf8.encode_append, Utf8.encode_append, (hexByte_digit hhigh).1,
    (hexByte_digit hlow).1]
  rfl

theorem decodeHexBytes_encodeHex (bytes : Bytes) :
    decodeHexBytes (Utf8.encode (encodeHex bytes)) = .ok bytes := by
  induction bytes with
  | nil => rfl
  | cons b bytes ih =>
    obtain ⟨hhigh, hlow, hbyte⟩ := nibbles b
    rw [encode_encodeHex_cons, decodeHexBytes, (hexByte_digit hhigh).2, (hexByte_digit hlow).2, ih]
    simp only [bind, Except.bind, pure, Except.pure, hbyte]

theorem length_encodeHex (bytes : Bytes) :
    (Utf8.encode (encodeHex bytes)).length = 2 * bytes.length := by
  induction bytes with
  | nil => rfl
  | cons b bytes ih =>
    rw [encode_encodeHex_cons]
    simp only [List.length_cons, ih]
    omega

@[simp] theorem decodeHex_encodeHex (bytes : Bytes) : decodeHex (encodeHex bytes) = .ok bytes := by
  unfold decodeHex
  simp only [length_encodeHex, Nat.mul_mod_right, ne_eq, not_true_eq_false, if_false,
    decodeHexBytes_encodeHex]

/-! ## Names of files -/

/-- A character that stands as `_` in a file name. -/
def isUnderscored (c : Char) : Bool := !isPlain c || c == '_'

/-- Addresses that differ in no character a file name keeps. -/
def Alike (a b : MisfinAddress) : Prop :=
  List.Forall₂ (fun c d => c = d ∨ isUnderscored c ∧ isUnderscored d) a.asAddrSpec b.asAddrSpec

theorem Alike.symm {a b : MisfinAddress} (h : Alike a b) : Alike b a := by
  have hflip := List.Forall₂.flip h
  refine hflip.imp fun c d hcd => ?_
  rcases hcd with rfl | ⟨hd, hc⟩
  · exact .inl rfl
  · exact .inr ⟨hc, hd⟩

theorem sanitized_eq_iff (c d : Char) :
    (if isPlain c then c else '_') = (if isPlain d then d else '_') ↔
      c = d ∨ isUnderscored c ∧ isUnderscored d := by
  have hunderscore : isPlain '_' = true := by decide
  unfold isUnderscored
  by_cases hc : isPlain c = true <;> by_cases hd : isPlain d = true
  · simp only [hc, hd, if_true]
    refine ⟨.inl, ?_⟩
    rintro (h | ⟨h, h'⟩)
    · exact h
    · rw [show c = '_' by simpa using h, show d = '_' by simpa using h']
  · simp only [hc, hd, if_true, Bool.false_eq_true, if_false]
    constructor
    · rintro rfl
      simp
    · rintro (rfl | ⟨h, -⟩)
      · exact absurd hc hd
      · simpa using h
  · simp only [hc, hd, if_true, Bool.false_eq_true, if_false]
    constructor
    · rintro rfl
      simp
    · rintro (rfl | ⟨-, h⟩)
      · exact absurd hd hc
      · exact (show d = '_' by simpa using h).symm
  · simp [hc, hd]

theorem sanitizeFilename_eq_iff (a b : MisfinAddress) :
    sanitizeFilename a.asAddrSpec = sanitizeFilename b.asAddrSpec ↔ Alike a b := by
  unfold sanitizeFilename Alike
  rw [← List.forall₂_eq_eq_eq, List.forall₂_map_left_iff, List.forall₂_map_right_iff]
  simp only [sanitized_eq_iff]

theorem head_name (a : MisfinAddress) :
    (sanitizeFilename a.asAddrSpec ++ ".json".toList).head? ≠ some '/' := by
  intro h
  have hmem : '/' ∈ sanitizeFilename a.asAddrSpec := by
    cases hname : sanitizeFilename a.asAddrSpec with
    | nil =>
      rw [hname] at h
      exact absurd h (by decide)
    | cons c name =>
      rw [hname] at h
      rw [show c = '/' by simpa using h]
      exact List.mem_cons_self
  obtain ⟨c, -, hc⟩ := List.mem_map.mp hmem
  split at hc
  · next hplain =>
    rw [hc] at hplain
    exact absurd hplain (by decide)
  · exact absurd hc (by decide)

theorem identityPathForSpec_eq_iff (a b : MisfinIdentitySpec) (root : Text) :
    identityPathForSpec a root = identityPathForSpec b root ↔ Alike a.address b.address := by
  unfold identityPathForSpec
  rw [Path.push_inj root (head_name a.address) (head_name b.address), List.append_left_inj,
    sanitizeFilename_eq_iff]

/-! ## What a call changes -/

/-- What `serde_json` is relied on for: a value is read back as it was written, and nothing is read
where the end of a written value is missing. -/
structure LawfulJson (crates : IdentityCrates) : Prop where
  lossless : ∀ {p t}, crates.toStringPretty p = .ok t → crates.fromStr t = .ok p
  truncated : ∀ {p t s rest q}, crates.toStringPretty p = .ok t → s ++ rest = t → rest ≠ [] →
    crates.fromStr s ≠ .ok q

section Store

variable {crates : IdentityCrates} (json : LawfulJson crates) {root : Text}

/-- The content of a file from which at most one identity can be read, one minted for the address.
-/
def MintedFor (crates : IdentityCrates) (disk : Disk) (address : MisfinAddress)
    (content : Bytes) : Prop :=
  ∃ m ∈ disk.minted, m.1.address = address ∧ ∀ text p, Utf8.decode content = some text →
    crates.fromStr text = .ok p → p = persistedIdentity m.1 m.2

/-- What a call for `spec` may do to the disk: only its own file changes, and what is new in it was
minted for its address. -/
structure Confined (crates : IdentityCrates) (root : Text) (spec : MisfinIdentitySpec)
    (disk disk' : Disk) : Prop where
  minted : disk.minted ⊆ disk'.minted
  others : ∀ path ≠ identityPathForSpec spec root, disk'.files path = disk.files path
  own : ∀ content, disk'.files (identityPathForSpec spec root) = some content →
    disk.files (identityPathForSpec spec root) = some content ∨
      MintedFor crates disk' spec.address content

theorem MintedFor.mono {disk disk' : Disk} {address : MisfinAddress} {content : Bytes}
    (h : MintedFor crates disk address content) (hminted : disk.minted ⊆ disk'.minted) :
    MintedFor crates disk' address content := by
  obtain ⟨m, hm, haddress, hread⟩ := h
  exact ⟨m, hminted hm, haddress, hread⟩

namespace Confined

variable {spec : MisfinIdentitySpec} {a b c : Disk}

theorem refl (a : Disk) : Confined crates root spec a a :=
  ⟨fun _ h => h, fun _ _ => rfl, fun _ h => .inl h⟩

theorem trans (hab : Confined crates root spec a b) (hbc : Confined crates root spec b c) :
    Confined crates root spec a c := by
  refine ⟨List.Subset.trans hab.minted hbc.minted, fun path hpath => ?_, fun content hcontent => ?_⟩
  · rw [hbc.others path hpath, hab.others path hpath]
  · rcases hbc.own content hcontent with hb | hminted
    · rcases hab.own content hb with ha | hminted
      · exact .inl ha
      · exact .inr (hminted.mono hbc.minted)
    · exact .inr hminted

end Confined

variable (io : Io) (spec : MisfinIdentitySpec) (disk : Disk)

theorem forgetIdentity_confined :
    Confined crates root spec disk (forgetIdentityWithRoot io spec root disk).2 := by
  unfold forgetIdentityWithRoot
  simp only
  split
  · exact .refl disk
  · split
    · exact .refl disk
    · refine ⟨fun _ h => h, fun path hpath => ?_, fun content hcontent => ?_⟩
      · exact Function.update_of_ne hpath none disk.files
      · simp at hcontent

/-- Only the whole rendering of a value can be read, and it is read as the value. -/
theorem fromStr_take {p q : PersistedMisfinIdentity} {t text : Text} {n : Nat}
    (json : LawfulJson crates) (ht : crates.toStringPretty p = .ok t)
    (hdecode : Utf8.decode ((Utf8.encode t).take n) = some text)
    (hread : crates.fromStr text = .ok q) : q = p := by
  have hsplit : Utf8.encode text ++ (Utf8.encode t).drop n = Utf8.encode t := by
    rw [Utf8.encode_of_decode hdecode, List.take_append_drop]
  obtain ⟨rest, hrest⟩ := Utf8.exists_append_of_encode hsplit
  by_cases hnil : rest = []
  · rw [hnil, List.append_nil] at hrest
    rw [hrest, json.lossless ht] at hread
    exact (Except.ok.inj hread).symm
  · exact absurd hread (json.truncated ht hrest hnil)

/-- Wherever its writing ends, an identity's file is confined. -/
theorem update_confined {identity : MisfinClientIdentity} {content : Text}
    (json : LawfulJson crates)
    (hcontent : crates.toStringPretty (persistedIdentity spec identity) = .ok content) (n : Nat) :
    Confined crates root spec disk {
      files := Function.update disk.files (identityPathForSpec spec root)
        (some ((Utf8.encode content).take n))
      minted := disk.minted ++ [(spec, identity)] } := by
  refine ⟨List.subset_append_left _ _, fun path hpath => ?_, fun bytes hbytes => .inr ?_⟩
  · exact Function.update_of_ne hpath _ disk.files
  · simp only [Function.update_self, Option.some_inj] at hbytes
    refine ⟨(spec, identity), by simp, rfl, fun text p hdecode hread => ?_⟩
    rw [← hbytes] at hdecode
    exact fromStr_take json hcontent hdecode hread

theorem minted_confined (identity : MisfinClientIdentity) :
    Confined crates root spec disk { disk with minted := disk.minted ++ [(spec, identity)] } :=
  ⟨List.subset_append_left _ _, fun _ _ => rfl, fun _ h => .inl h⟩

theorem createIdentity_confined (json : LawfulJson crates) : Confined crates root spec disk
    (createIdentity crates io spec (identityPathForSpec spec root) disk).2 := by
  unfold createIdentity
  split
  · exact .refl disk
  · next identity _ =>
    simp only
    split
    · exact minted_confined spec disk identity
    · next content hcontent =>
      unfold Disk.write
      rcases hwrite : io.write with - | ⟨error, - | n⟩
      · have hwhole := @update_confined crates root spec disk identity content json hcontent
          (Utf8.encode content).length
        rwa [List.take_length] at hwhole
      · exact minted_confined spec disk identity
      · exact update_confined spec disk json hcontent n

theorem loadOrCreateIdentity_confined (json : LawfulJson crates) :
    Confined crates root spec disk (loadOrCreateIdentity crates io spec root disk).2 := by
  unfold loadOrCreateIdentity
  split
  · exact .refl disk
  · simp only
    split
    · exact .refl disk
    · exact createIdentity_confined io spec disk json

theorem ensureIdentity_confined (json : LawfulJson crates) :
    Confined crates root spec disk (ensureIdentityWithRoot crates io spec root disk).2 := by
  have hload : Confined crates root spec disk (loadOrCreateIdentity crates io spec root disk).2 :=
    loadOrCreateIdentity_confined io spec disk json
  unfold ensureIdentityWithRoot
  split
  · next hresult =>
    rw [hresult] at hload
    exact hload
  · next hresult =>
    rw [hresult] at hload
    exact hload

theorem rotateIdentity_confined (json : LawfulJson crates) :
    Confined crates root spec disk (rotateIdentityWithRoot crates io spec root disk).2 := by
  have hforget : Confined crates root spec disk (forgetIdentityWithRoot io spec root disk).2 :=
    forgetIdentity_confined io spec disk
  unfold rotateIdentityWithRoot
  split
  · next hresult =>
    rw [hresult] at hforget
    exact hforget
  · next forgotten hresult =>
    rw [hresult] at hforget
    exact hforget.trans (ensureIdentity_confined io spec forgotten json)

theorem Call.perform_confined (json : LawfulJson crates) (call : Call) :
    Confined crates root call.spec disk (call.perform crates root disk).2 := by
  cases call with
  | ensure spec io => exact ensureIdentity_confined io spec disk json
  | rotate spec io => exact rotateIdentity_confined io spec disk json
  | forget spec io => exact forgetIdentity_confined io spec disk
  | status spec io => exact .refl disk
  | material spec io => exact loadOrCreateIdentity_confined io spec disk json

/-! ## What is read -/

/-- An answer about an address: what it says of an identity is said of one minted for the address.
-/
def Answer.IsFor (crates : IdentityCrates) (disk : Disk) (address : MisfinAddress) : Answer → Prop
  | .status (.ok found) => found.address = address.asAddrSpec ∧
    if found.present then ∃ m ∈ disk.minted, m.1.address = address ∧ found.blurb = m.1.blurb ∧
      found.certificateFingerprint =
        some (sha256Hex crates.toCrates m.2.material.certificateDer)
    else found.certificateFingerprint = none
  | .material (.ok found) => ∃ m ∈ disk.minted, m.1.address = address ∧ found = m.2.material
  | _ => True

/-- The files of some addresses hold only identities minted for them. -/
def Owned (crates : IdentityCrates) (root : Text) (S : Set MisfinAddress) (disk : Disk) : Prop :=
  ∀ spec : MisfinIdentitySpec, spec.address ∈ S → ∀ content,
    disk.files (identityPathForSpec spec root) = some content →
      MintedFor crates disk spec.address content

variable {spec disk}

theorem readPersisted_eq {readError : Option Text} {path : Text} {content : Bytes}
    {p : PersistedMisfinIdentity} (h : readPersisted crates readError path content = .ok p) :
    ∃ text, Utf8.decode content = some text ∧ crates.fromStr text = .ok p := by
  unfold readPersisted at h
  split at h
  · cases h
  · split at h
    · cases h
    · next text hdecode =>
      split at h
      · cases h
      · next q hread =>
        cases h
        exact ⟨text, hdecode, hread⟩

/-- Whatever is loaded from a file minted for an address is the material that was minted. -/
theorem loadIdentity_eq {path : Text} {content : Bytes} {address : MisfinAddress}
    (hfile : MintedFor crates disk address content) {identity : MisfinClientIdentity}
    (h : loadIdentity crates io path content = .ok identity) :
    ∃ m ∈ disk.minted, m.1.address = address ∧ identity.material = m.2.material := by
  obtain ⟨m, hm, haddress, honly⟩ := hfile
  refine ⟨m, hm, haddress, ?_⟩
  unfold loadIdentity at h
  cases hread : readPersisted crates io.loadRead path content with
  | error e =>
    rw [hread] at h
    cases h
  | ok p =>
    obtain ⟨text, hdecode, hparse⟩ := readPersisted_eq hread
    obtain rfl := honly text p hdecode hparse
    rw [hread] at h
    simp only [bind, Except.bind, pure, Except.pure, persistedIdentity, decodeHex_encodeHex] at h
    obtain rfl := Except.ok.inj h
    rfl

theorem identityStatus_isFor
    (hfile : ∀ content, disk.files (identityPathForSpec spec root) = some content →
      MintedFor crates disk spec.address content) :
    (Answer.status (identityStatusWithRoot crates io spec root disk)).IsFor crates disk
      spec.address := by
  unfold identityStatusWithRoot
  simp only
  split
  · exact ⟨rfl, rfl⟩
  · next content hcontent =>
    obtain ⟨m, hm, haddress, honly⟩ := hfile content hcontent
    cases hread : readPersisted crates io.statusRead (identityPathForSpec spec root) content with
    | error e => trivial
    | ok p =>
      obtain ⟨text, hdecode, hparse⟩ := readPersisted_eq hread
      obtain rfl := honly text p hdecode hparse
      simp only [bind, Except.bind, pure, Except.pure, persistedIdentity, decodeHex_encodeHex]
      refine ⟨by rw [haddress], ?_⟩
      rw [if_pos rfl]
      exact ⟨m, hm, haddress, rfl, rfl⟩

theorem createIdentity_mem {path : Text} {identity : MisfinClientIdentity} {disk' : Disk}
    (h : createIdentity crates io spec path disk = (.ok identity, disk')) :
    (spec, identity) ∈ disk'.minted := by
  unfold createIdentity at h
  split at h
  · cases h
  · simp only at h
    split at h
    · cases h
    · split at h
      · cases h
      · next written hwrite =>
        obtain ⟨hidentity, rfl⟩ := Prod.mk.inj h
        obtain rfl := Except.ok.inj hidentity
        unfold Disk.write at hwrite
        split at hwrite
        · obtain ⟨-, rfl⟩ := Prod.mk.inj hwrite
          simp
        · cases hwrite
        · cases hwrite

theorem loadOrCreateIdentity_material {identity : MisfinClientIdentity} {disk' : Disk}
    (hfile : ∀ content, disk.files (identityPathForSpec spec root) = some content →
      MintedFor crates disk spec.address content)
    (h : loadOrCreateIdentity crates io spec root disk = (.ok identity, disk')) :
    ∃ m ∈ disk'.minted, m.1.address = spec.address ∧ identity.material = m.2.material := by
  unfold loadOrCreateIdentity at h
  split at h
  · cases h
  · simp only at h
    split at h
    · next content hcontent =>
      obtain ⟨hload, rfl⟩ := Prod.mk.inj h
      exact loadIdentity_eq io (hfile content hcontent) hload
    · exact ⟨(spec, identity), createIdentity_mem io h, rfl, rfl⟩

/-! ## Runs -/

/-- No two of the addresses are told apart only by characters that stand as `_`. -/
def Apart (S : Set MisfinAddress) : Prop := ∀ a ∈ S, ∀ b ∈ S, a ≠ b → ¬ Alike a b

variable {S : Set MisfinAddress}

theorem Owned.confined {disk' : Disk} (hS : Apart S) (howned : Owned crates root S disk)
    (hspec : spec.address ∈ S) (h : Confined crates root spec disk disk') :
    Owned crates root S disk' := by
  intro other hother content hcontent
  by_cases hpath : identityPathForSpec other root = identityPathForSpec spec root
  · have hsame : other.address = spec.address := by
      by_contra hne
      exact hS _ hother _ hspec hne ((identityPathForSpec_eq_iff other spec root).mp hpath)
    rw [hpath] at hcontent
    rw [hsame]
    rcases h.own content hcontent with hold | hminted
    · exact (howned spec hspec content hold).mono h.minted
    · exact hminted
  · rw [h.others _ hpath] at hcontent
    exact (howned other hother content hcontent).mono h.minted

theorem ensureIdentity_isFor (json : LawfulJson crates) (hS : Apart S)
    (howned : Owned crates root S disk) (hspec : spec.address ∈ S) :
    (Answer.status (ensureIdentityWithRoot crates io spec root disk).1).IsFor crates
      (ensureIdentityWithRoot crates io spec root disk).2 spec.address := by
  have hload := howned.confined hS hspec (loadOrCreateIdentity_confined io spec disk json)
  unfold ensureIdentityWithRoot
  split
  · trivial
  · next disk' hresult =>
    rw [hresult] at hload
    exact identityStatus_isFor io (hload spec hspec)

theorem rotateIdentity_isFor (json : LawfulJson crates) (hS : Apart S)
    (howned : Owned crates root S disk) (hspec : spec.address ∈ S) :
    (Answer.status (rotateIdentityWithRoot crates io spec root disk).1).IsFor crates
      (rotateIdentityWithRoot crates io spec root disk).2 spec.address := by
  have hforget := howned.confined hS hspec (forgetIdentity_confined io spec disk)
  unfold rotateIdentityWithRoot
  split
  · trivial
  · next disk' hresult =>
    rw [hresult] at hforget
    exact ensureIdentity_isFor io json hS hforget hspec

theorem Call.perform_isFor (json : LawfulJson crates) (hS : Apart S)
    (howned : Owned crates root S disk) (call : Call) (hspec : call.spec.address ∈ S) :
    (call.perform crates root disk).1.IsFor crates (call.perform crates root disk).2
      call.spec.address := by
  cases call with
  | ensure spec io => exact ensureIdentity_isFor io json hS howned hspec
  | rotate spec io => exact rotateIdentity_isFor io json hS howned hspec
  | forget spec io => trivial
  | status spec io => exact identityStatus_isFor io (howned spec hspec)
  | material spec io =>
    simp only [Call.perform, identityMaterialWithRoot, Prod.map]
    cases hresult : loadOrCreateIdentity crates io spec root disk with
    | mk result disk' =>
      cases result with
      | error e => trivial
      | ok identity => exact loadOrCreateIdentity_material io (howned spec hspec) hresult

theorem Owned.run (json : LawfulJson crates) (hS : Apart S) (calls : List Call) :
    ∀ {disk}, Owned crates root S disk → (∀ call ∈ calls, call.spec.address ∈ S) →
      Owned crates root S (Call.run crates root disk calls) := by
  induction calls with
  | nil => exact fun howned _ => howned
  | cons call calls ih =>
    intro disk howned hcalls
    have hstep := howned.confined hS (hcalls call List.mem_cons_self)
      (call.perform_confined disk json)
    exact ih hstep fun c hc => hcalls c (List.mem_cons_of_mem call hc)

/-- A disk reached by calls for some addresses from one without their files. -/
def Reachable (crates : IdentityCrates) (root : Text) (S : Set MisfinAddress)
    (disk : Disk) : Prop :=
  ∃ (fresh : Disk) (calls : List Call),
    (∀ a : MisfinIdentitySpec, a.address ∈ S → fresh.files (identityPathForSpec a root) = none) ∧
    (∀ call ∈ calls, call.spec.address ∈ S) ∧ disk = Call.run crates root fresh calls

/-- The identities of some addresses are isolated below a root: their files differ, and on every
disk that is reached every answer is about an identity minted for the address asked for, and every
call leaves the other addresses' files as they are. -/
structure Isolated (crates : IdentityCrates) (root : Text) (S : Set MisfinAddress) : Prop where
  paths : ∀ a b : MisfinIdentitySpec, a.address ∈ S → b.address ∈ S → a.address ≠ b.address →
    identityPathForSpec a root ≠ identityPathForSpec b root
  answers : ∀ disk, Reachable crates root S disk → ∀ call : Call, call.spec.address ∈ S →
    (call.perform crates root disk).1.IsFor crates (call.perform crates root disk).2
      call.spec.address
  others : ∀ disk, Reachable crates root S disk → ∀ call : Call, call.spec.address ∈ S →
    ∀ other : MisfinIdentitySpec, other.address ∈ S → other.address ≠ call.spec.address →
      (call.perform crates root disk).2.files (identityPathForSpec other root) =
        disk.files (identityPathForSpec other root)

theorem Reachable.owned {crates : IdentityCrates} {root : Text} {disk : Disk}
    (json : LawfulJson crates) (hS : Apart S) (h : Reachable crates root S disk) :
    Owned crates root S disk := by
  obtain ⟨fresh, calls, hfresh, hcalls, rfl⟩ := h
  have hnone : Owned crates root S fresh := by
    intro spec hspec content hcontent
    rw [hfresh spec hspec] at hcontent
    cases hcontent
  exact hnone.run json hS calls hcalls

theorem Isolated.exists_minted {crates : IdentityCrates} {root : Text} {disk disk' : Disk}
    {io : Io} {spec : MisfinIdentitySpec} {found : MisfinIdentityMaterial}
    (h : Isolated crates root S) (hdisk : Reachable crates root S disk) (hspec : spec.address ∈ S)
    (hfound : identityMaterialWithRoot crates io spec root disk = (.ok found, disk')) :
    ∃ m ∈ disk'.minted, m.1.address = spec.address := by
  have hanswer := h.answers disk hdisk (.material spec io) hspec
  simp only [Call.perform, hfound, Prod.map, id, Answer.IsFor] at hanswer
  obtain ⟨m, hm, haddress, -⟩ := hanswer
  exact ⟨m, hm, haddress⟩

/-- **Identities are isolated exactly where no two addresses are alike.** -/
theorem isolated_iff_apart (json : LawfulJson crates) (root : Text) (S : Set MisfinAddress) :
    Isolated crates root S ↔ Apart S := by
  constructor
  · intro h a ha b hb hne halike
    exact h.paths ⟨a, none⟩ ⟨b, none⟩ ha hb hne
      ((identityPathForSpec_eq_iff ⟨a, none⟩ ⟨b, none⟩ root).mpr halike)
  · intro hS
    have hpaths (a b : MisfinIdentitySpec) (ha : a.address ∈ S) (hb : b.address ∈ S)
        (hne : a.address ≠ b.address) : identityPathForSpec a root ≠ identityPathForSpec b root :=
      fun hpath => hS _ ha _ hb hne ((identityPathForSpec_eq_iff a b root).mp hpath)
    refine ⟨hpaths, fun disk hdisk call hcall => ?_, fun disk _ call hcall other hother hne => ?_⟩
    · exact call.perform_isFor json hS (hdisk.owned json hS) hcall
    · exact (call.perform_confined disk json).others _ (hpaths other call.spec hother hcall hne)

end Store

section Sample

/-- The material of an identity whose file is there and is read. -/
theorem identityMaterial_of_file {crates : IdentityCrates} {io : Io} {spec : MisfinIdentitySpec}
    {root : Text} {disk : Disk} {content : Text} {p : PersistedMisfinIdentity}
    {certificate key : Bytes} (hdir : io.createDirAll = none) (hio : io.loadRead = none)
    (hfile : disk.files (identityPathForSpec spec root) = some (Utf8.encode content))
    (hread : crates.fromStr content = .ok p)
    (hcertificate : decodeHex p.certificateDerHex = .ok certificate)
    (hkey : decodeHex p.privateKeyDerHex = .ok key) :
    identityMaterialWithRoot crates io spec root disk = (.ok ⟨certificate, key⟩, disk) := by
  simp only [identityMaterialWithRoot, loadOrCreateIdentity, hdir, hfile, loadIdentity,
    readPersisted, hio, Utf8.decode_encode, hread, bind, Except.bind, hcertificate, hkey]
  rfl

/-- A persisted identity, as it is written. -/
def samplePersisted : PersistedMisfinIdentity where
  address := "a+b@hive.local".toList
  blurb := none
  certificateDerHex := "300201".toList
  privateKeyDerHex := "3002".toList

def sampleJson : Text :=
  "\x7b\n  \"address\": \"a+b@hive.local\",\n  \"blurb\": null,\n  ".toList ++
  "\"certificate_der_hex\": \"300201\",\n  \"private_key_der_hex\": \"3002\"\n\x7d".toList

/-- Crates that mint and write the sample. -/
def sampleIdentityCrates : IdentityCrates where
  parseUrl _ := none
  fromDer _ := none
  isTimestamp _ := true
  sha256 bytes := bytes
  KeyPair := Bytes
  generateKeyPair random := .ok random
  serializeDer keyPair := 0x30 :: keyPair
  paramsError _ := none
  selfSigned _ keyPair random := .ok (0x30 :: keyPair ++ random)
  toStringPretty p := if p = samplePersisted then .ok sampleJson else .error "".toList
  fromStr t := if t = sampleJson then .ok samplePersisted else .error "expected value".toList

theorem lawfulJson_sample : LawfulJson sampleIdentityCrates := by
  have hwritten {p t} (h : sampleIdentityCrates.toStringPretty p = .ok t) :
      p = samplePersisted ∧ t = sampleJson := by
    simp only [sampleIdentityCrates] at h
    split at h
    · next hp => exact ⟨hp, (Except.ok.inj h).symm⟩
    · cases h
  constructor
  · intro p t h
    obtain ⟨rfl, rfl⟩ := hwritten h
    simp only [sampleIdentityCrates, if_true]
  · intro p t s rest q h hsplit hrest hread
    obtain ⟨-, rfl⟩ := hwritten h
    simp only [sampleIdentityCrates] at hread
    split at hread
    · next hs =>
      rw [hs] at hsplit
      exact hrest (List.append_right_eq_self.mp hsplit)
    · cases hread

def plus : MisfinAddress := ⟨"a+b".toList, "hive.local".toList⟩

def underscore : MisfinAddress := ⟨"a_b".toList, "hive.local".toList⟩

def other : MisfinAddress := ⟨"worker".toList, "hive.local".toList⟩

def sampleRoot : Text := "/identities".toList

theorem isolated_sample : Isolated sampleIdentityCrates sampleRoot {plus, other} := by
  refine (isolated_iff_apart lawfulJson_sample _ _).mpr ?_
  have hapart : ¬ Alike plus other := by
    intro h
    exact absurd h.length_eq (by decide)
  rintro a (rfl | rfl) b (rfl | rfl) hne
  · exact absurd rfl hne
  · exact hapart
  · exact fun h => hapart h.symm
  · exact absurd rfl hne

def sampleIo : Io := { keyRandom := [2], signRandom := [1] }

def sampleIdentity : MisfinClientIdentity := ⟨[[0x30, 2, 1]], [0x30, 2]⟩

/-- A root with the one identity. -/
def sampleDisk : Disk where
  files := Function.update (fun _ => none) (identityPathForSpec ⟨plus, none⟩ sampleRoot)
    (some (Utf8.encode sampleJson))
  minted := [(⟨plus, none⟩, sampleIdentity)]

theorem create_sample : createIdentity sampleIdentityCrates sampleIo ⟨plus, none⟩
    (identityPathForSpec ⟨plus, none⟩ sampleRoot) ⟨fun _ => none, []⟩ =
      (.ok sampleIdentity, sampleDisk) := by
  have hgenerate : generateIdentity sampleIdentityCrates sampleIo ⟨plus, none⟩ =
      .ok sampleIdentity := rfl
  have hpersisted : persistedIdentity ⟨plus, none⟩ sampleIdentity = samplePersisted := by decide
  have hwritten : sampleIdentityCrates.toStringPretty samplePersisted = .ok sampleJson := by
    simp only [sampleIdentityCrates, if_true]
  unfold createIdentity
  simp only [hgenerate, hpersisted, hwritten]
  simp only [Disk.write, sampleIo, sampleDisk, List.nil_append]

theorem run_sample : Call.run sampleIdentityCrates sampleRoot ⟨fun _ => none, []⟩
    [.material ⟨plus, none⟩ sampleIo] = sampleDisk := by
  have hload : loadOrCreateIdentity sampleIdentityCrates sampleIo ⟨plus, none⟩ sampleRoot
      ⟨fun _ => none, []⟩ = (.ok sampleIdentity, sampleDisk) := create_sample
  simp only [Call.run, List.foldl_cons, List.foldl_nil, Call.perform, identityMaterialWithRoot,
    hload, Prod.map, id]

/-- What is loaded for `a_b@hive.local` is the identity of `a+b@hive.local`. -/
theorem material_underscore :
    identityMaterialWithRoot sampleIdentityCrates sampleIo ⟨underscore, none⟩ sampleRoot
      sampleDisk = (.ok sampleIdentity.material, sampleDisk) := by
  have hpath : identityPathForSpec ⟨underscore, none⟩ sampleRoot =
      identityPathForSpec ⟨plus, none⟩ sampleRoot := by decide
  have hread : sampleIdentityCrates.fromStr sampleJson = .ok samplePersisted := by
    simp only [sampleIdentityCrates, if_true]
  apply @identityMaterial_of_file _ _ _ _ _ sampleJson samplePersisted _ _ rfl rfl
  · simp only [hpath, sampleDisk, Function.update_self]
  · exact hread
  · decide
  · decide

/-- The identity of `a+b@hive.local` is given out for `a_b@hive.local`. -/
theorem not_isolated : ¬ ∀ (crates : IdentityCrates), LawfulJson crates → ∀ (root : Text)
    (S : Set MisfinAddress), (∀ a ∈ S, ∃ input, MisfinAddress.parse input = .ok a) →
      Isolated crates root S := by
  intro hall
  have haccepted : ∀ a ∈ ({plus, underscore} : Set MisfinAddress),
      ∃ input, MisfinAddress.parse input = .ok a := by
    rintro a (rfl | rfl)
    · exact ⟨"a+b@hive.local".toList, by decide⟩
    · exact ⟨"a_b@hive.local".toList, by decide⟩
  have hisolated := hall sampleIdentityCrates lawfulJson_sample sampleRoot _ haccepted
  have hreachable : Reachable sampleIdentityCrates sampleRoot {plus, underscore} sampleDisk := by
    refine ⟨⟨fun _ => none, []⟩, [.material ⟨plus, none⟩ sampleIo], fun _ _ => rfl, ?_,
      run_sample.symm⟩
    simp only [List.forall_mem_singleton, Call.spec]
    exact Set.mem_insert plus {underscore}
  obtain ⟨m, hm, haddress⟩ := hisolated.exists_minted hreachable
    (Set.mem_insert_of_mem plus (Set.mem_singleton underscore)) material_underscore
  rw [List.mem_singleton.mp hm] at haddress
  exact absurd haddress (by decide)

end Sample

end Smolweb.Misfin
