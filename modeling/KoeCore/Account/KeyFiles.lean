import KoeCore.Account.Device
import KoeCore.Context.Restart
import KoeCore.Identity.ContactMaps

/-!
# What becomes of the key files

`koe_account_create` writes the keys of an account to a file of its own, below the data root and
under the short id of its public key. The other functions of `koe_account.c` that run on a registry
write the registry file alone, and none of them removes a file.

So the key files are a map that only grows: `KeyBook` has, for the first eight bytes of a public
key, the keys and the passphrase of the last account that was created with them. A creation that
returns 0 notes its own (`KeyBook.note`), and no other call changes the book. `KeyBook.Holds` says
that the files are as the book has them, `KeyBook.Holds.step` that each call keeps this, and
`koeAccounts_keep_keys` is the result over every run. No call for another account can damage the
keys of an account, short ids that are equal apart, and an account that was deleted from the
registry leaves its keys behind, under the same passphrase.
-/

set_option autoImplicit false
set_option relaxedAutoImplicit false

namespace KoeCore

open ByteWire

/-! ### The paths -/

/-- Assumes: another path than that of the registry. -/
theorem koeAccountRegistrySave_files {reg : AccountRegistry} {path : List UInt8}
    (hpath : path ≠ registryPath reg) (opens : Bool) (files : Files) :
    (koeAccountRegistrySave opens files reg).2 path = files path := by
  rw [koeAccountRegistrySave]
  split_ifs
  · rfl
  · exact Function.update_of_ne hpath _ _

/-- A data root below which the path of a key file is not cut off. -/
def LeavesRoom (dataRoot : List UInt8) : Prop := (strncpy 511 dataRoot).length ≤ 473

instance decidableLeavesRoom (dataRoot : List UInt8) : Decidable (LeavesRoom dataRoot) :=
  inferInstanceAs (Decidable (_ ≤ _))

/-- Two accounts have one path exactly if their keys begin with the same eight bytes. Assumes: a
data root that leaves room for the path. -/
theorem firstIdentityPath_eq_iff {dataRoot : List UInt8} (hroom : LeavesRoom dataRoot)
    (pk other : Block 32) :
    firstIdentityPath dataRoot pk = firstIdentityPath dataRoot other ↔
      pk.toList.take 8 = other.toList.take 8 := by
  have hwhole (key : Block 32) : firstIdentityPath dataRoot key =
      strncpy 511 dataRoot ++ ascii "/accounts/" ++ koeIdentityShortId key ++
        ascii "/identity.koe" := by
    refine List.take_of_length_le ?_
    have hdir : (ascii "/accounts/").length = 10 := rfl
    have hfile : (ascii "/identity.koe").length = 13 := rfl
    have hroot : (strncpy 511 dataRoot).length ≤ 473 := hroom
    simp only [List.length_append, length_koeIdentityShortId, hdir, hfile]
    omega
  rw [hwhole, hwhole, List.append_left_inj, List.append_right_inj]
  exact koeIdentityShortId_eq_iff pk other

/-- Assumes: a data root that leaves room, and a registry of this root. -/
theorem firstIdentityPath_ne_registryPath {dataRoot : List UInt8} (hroom : LeavesRoom dataRoot)
    {reg : AccountRegistry} (hroot : reg.dataRoot = strncpy 511 dataRoot) (pk : Block 32) :
    firstIdentityPath dataRoot pk ≠ registryPath reg := by
  have hregistry : registryPath reg = registryFile dataRoot := by
    rw [registryPath, hroot]
    rfl
  rw [hregistry]
  exact registryFile_ne_firstIdentityPath (Nat.lt_of_le_of_lt hroom (by decide)) pk

/-- The path that an activation reads for an entry. Assumes: a registry of the data root, and an
entry with the short id of the key. -/
theorem identityPath_eq_firstIdentityPath {dataRoot root : List UInt8} {desc : AccountDescriptor}
    {pk : Block 32} (hroot : root = strncpy 511 dataRoot)
    (hsubdir : cString desc.dataSubdir = koeIdentityShortId pk) :
    identityPath root desc = firstIdentityPath dataRoot pk := by
  rw [identityPath, accountDir, hsubdir, hroot, firstIdentityPath]

/-! ### The book -/

/-- The keys of an account, and the passphrase that they are under. -/
structure HeldKeys where
  keys : Identity
  passphrase : List UInt8

/-- The keys that are held, by the first eight bytes of the public key. -/
abbrev KeyBook : Type := List UInt8 → Option HeldKeys

section Book

variable (S : Sodium) (pwhash : Pwhash)

/-- The book after a call on a device. -/
def KeyBook.note (book : KeyBook) (dev : Device) : DeviceCall → KeyBook
  | .create env displayName passphrase =>
    let created :=
      koeAccountCreate S pwhash env dev.files dev.account dev.reg displayName passphrase
    if created.rc = 0 then
      Function.update book (created.account.keys.pk.toList.take 8)
        (some ⟨created.account.keys, passphrase⟩)
    else book
  | _ => book

/-- The book after a run on a device. -/
def KeyBook.run : KeyBook → Device → List DeviceCall → KeyBook
  | book, _, [] => book
  | book, dev, call :: calls => (book.note S pwhash dev call).run (dev.step S pwhash call) calls

/-- The file that was read is what a book has: keys under their passphrase, or what was there
before. -/
def HeldIn (before file : Option (List UInt8)) : Option HeldKeys → Prop
  | none => file = before
  | some held => ∃ (salt : Block 16) (nonce : Block 24) (encKey : Block 32) (ct : List UInt8),
    pwhash held.passphrase salt = some encKey ∧
      koeEncrypt S (held.keys.pk.toList ++ held.keys.sk.toList) nonce encKey = some ct ∧
      file = some (identityMagic ++ salt.toList ++ nonce.toList ++ ct)

/-- The key files of the device are those of the book, over the files of the start. -/
structure KeyBook.Holds (start : Files) (dataRoot : List UInt8) (dev : Device) (book : KeyBook) :
    Prop where
  valid : dev.reg.Valid
  place : dev.dataRoot = dataRoot
  root : dev.reg.dataRoot = strncpy 511 dataRoot
  files : ∀ pk : Block 32, HeldIn S pwhash (start (firstIdentityPath dataRoot pk))
    (dev.files (firstIdentityPath dataRoot pk)) (book (pk.toList.take 8))

end Book

section Runs

variable {S : Sodium} {pwhash : Pwhash} {start : Files} {dataRoot : List UInt8} {dev : Device}
  {book : KeyBook}

/-- A load leaves the registry valid and below its root, and so does every other call. -/
theorem KeyBook.Holds.root_step (hholds : book.Holds S pwhash start dataRoot dev)
    (call : DeviceCall) :
    (dev.step S pwhash call).dataRoot = dataRoot ∧
      (dev.step S pwhash call).reg.dataRoot = strncpy 511 dataRoot := by
  rcases Device.step_cases S pwhash hholds.valid call with rfl | hkeeps | hsaves
  · refine ⟨hholds.place, ?_⟩
    rw [← hholds.place]
    exact (koeAccountRegistryLoad_valid dev.files dev.dataRoot).2
  · exact ⟨hkeeps.place.trans hholds.place, hkeeps.root.trans hholds.root⟩
  · exact ⟨hsaves.place.trans hholds.place, hsaves.root.trans hholds.root⟩

/-- What a creation leaves in the key files: those of the other short ids as they were, and its own
keys in the file of its short id. Assumes: a data root that leaves room, and a creation on the files
of the book that returned 0. -/
theorem KeyBook.Holds.create (hroom : LeavesRoom dataRoot)
    (hholds : book.Holds S pwhash start dataRoot dev) {env : CreateEnv}
    {displayName passphrase : List UInt8} :
    let created :=
      koeAccountCreate S pwhash env dev.files dev.account dev.reg displayName passphrase
    created.rc = 0 → ∀ pk : Block 32,
      HeldIn S pwhash (start (firstIdentityPath dataRoot pk))
        (created.files (firstIdentityPath dataRoot pk))
        (Function.update book (created.account.keys.pk.toList.take 8)
          (some ⟨created.account.keys, passphrase⟩) (pk.toList.take 8)) := by
  intro created hcreated pk
  obtain ⟨keys, -, -, hsaved, hcase⟩ := exists_created_of_koeAccountCreate hcreated
  have hpath := createdIdentityPath hholds.root env keys.pk displayName
  simp only [hpath] at hsaved hcase
  obtain ⟨encKey, ct, hkey, hct, hwritten⟩ := exists_sealed_of_koeIdentitySave hsaved
  have hcreate : created = _ := hcase
  have hkeys : created.account.keys = keys := by rw [hcreate]
  -- the registry is saved last, to a path that no key file has
  have hfile : created.files (firstIdentityPath dataRoot pk) =
      (koeIdentitySave S pwhash env.save dev.files keys (firstIdentityPath dataRoot keys.pk)
        passphrase).2 (firstIdentityPath dataRoot pk) := by
    rw [hcreate]
    refine koeAccountRegistrySave_files ?_ env.registryOpens _
    exact firstIdentityPath_ne_registryPath hroom hholds.root pk
  rw [hfile, hkeys, hwritten]
  by_cases hsame : pk.toList.take 8 = keys.pk.toList.take 8
  · rw [hsame, Function.update_self, (firstIdentityPath_eq_iff hroom pk keys.pk).mpr hsame,
      Function.update_self]
    exact ⟨env.save.salt, env.save.nonce, encKey, ct, hkey, hct, rfl⟩
  · have hother : firstIdentityPath dataRoot pk ≠ firstIdentityPath dataRoot keys.pk :=
      fun heq ↦ hsame ((firstIdentityPath_eq_iff hroom pk keys.pk).mp heq)
    rw [Function.update_of_ne hsame, Function.update_of_ne hother]
    exact hholds.files pk

/-- A call leaves every key file alone, unless it is a creation that returns 0. Assumes: a data root
that leaves room, the files of the book, and a call that notes nothing. -/
theorem KeyBook.Holds.files_step (hroom : LeavesRoom dataRoot)
    (hholds : book.Holds S pwhash start dataRoot dev) {call : DeviceCall}
    (hquiet : ∀ env displayName passphrase, call = .create env displayName passphrase →
      (koeAccountCreate S pwhash env dev.files dev.account dev.reg displayName passphrase).rc ≠ 0)
    (pk : Block 32) :
    (dev.step S pwhash call).files (firstIdentityPath dataRoot pk) =
      dev.files (firstIdentityPath dataRoot pk) := by
  have hregistry {after : AccountRegistry} (hroot : after.dataRoot = dev.reg.dataRoot) :
      firstIdentityPath dataRoot pk ≠ registryPath after :=
    firstIdentityPath_ne_registryPath hroom (hroot.trans hholds.root) pk
  cases call with
  | load => rfl
  | create env displayName passphrase =>
    obtain ⟨-, ⟨-, hfiles, -⟩ | ⟨hrc, -⟩⟩ := koeAccountCreate_entries S pwhash hholds.valid env
      dev.files dev.account displayName passphrase
    · exact congrFun hfiles _
    · exact absurd hrc (hquiet env displayName passphrase rfl)
  | activate idx passphrase => rfl
  | deactivate => rfl
  | rename opens idx newName =>
    rcases koeAccountRename_cases hholds.valid opens dev.files idx newName with
      hrenamed | ⟨-, after, -, -, -, hroot, hrenamed⟩
    · simp only [Device.step, hrenamed]
    · simp only [Device.step, hrenamed]
      exact koeAccountRegistrySave_files (hregistry hroot) opens dev.files
  | delete opens idx =>
    rcases koeAccountDelete_cases hholds.valid opens dev.files idx with
      ⟨-, hdeleted⟩ | ⟨-, -, -, after, -, -, hroot, hdeleted⟩
    · simp only [Device.step, hdeleted]
    · simp only [Device.step, hdeleted]
      exact koeAccountRegistrySave_files (hregistry hroot) opens dev.files

/-- A call keeps the key files those of the book. Assumes: a data root that leaves room, and the
files of the book. -/
theorem KeyBook.Holds.step (hroom : LeavesRoom dataRoot)
    (hholds : book.Holds S pwhash start dataRoot dev) (call : DeviceCall) :
    (book.note S pwhash dev call).Holds S pwhash start dataRoot (dev.step S pwhash call) := by
  obtain ⟨hplace, hroot⟩ := hholds.root_step call
  refine ⟨Device.valid_step hholds.valid call, hplace, hroot, fun pk ↦ ?_⟩
  cases call with
  | create env displayName passphrase =>
    by_cases hrc : (koeAccountCreate S pwhash env dev.files dev.account dev.reg displayName
        passphrase).rc = 0
    · rw [KeyBook.note, if_pos hrc]
      exact hholds.create hroom hrc pk
    · rw [KeyBook.note, if_neg hrc, hholds.files_step hroom ?_ pk]
      · exact hholds.files pk
      · rintro _ _ _ ⟨⟩
        exact hrc
  | _ =>
    rw [hholds.files_step hroom ?_ pk]
    · exact hholds.files pk
    · rintro _ _ _ ⟨⟩

/-- Assumes: a data root that leaves room, and the files of the book. -/
theorem KeyBook.Holds.run (hroom : LeavesRoom dataRoot) (calls : List DeviceCall) :
    ∀ {dev : Device} {book : KeyBook}, book.Holds S pwhash start dataRoot dev →
      (book.run S pwhash dev calls).Holds S pwhash start dataRoot
        (calls.foldl (Device.step S pwhash) dev) := by
  induction calls with
  | nil =>
    intro dev book hholds
    exact hholds
  | cons call calls ih =>
    intro dev book hholds
    exact ih (hholds.step hroom call)

/-- A device that starts has the files of an empty book. -/
theorem KeyBook.holds_start (S : Sodium) (pwhash : Pwhash) (files : Files)
    (dataRoot : List UInt8) :
    KeyBook.Holds S pwhash files dataRoot (Device.start files dataRoot) fun _ ↦ none := by
  obtain ⟨hvalid, hroot⟩ := koeAccountRegistryLoad_valid files dataRoot
  exact ⟨hvalid, rfl, hroot, fun _ ↦ rfl⟩

/-- Keys that the book has are loaded with their passphrase. Assumes: a correct AEAD, the files of
the book, and keys in it. -/
theorem KeyBook.Holds.load (haead : S.Aead) (hholds : book.Holds S pwhash start dataRoot dev)
    {pk : Block 32} {held : HeldKeys} (hheld : book (pk.toList.take 8) = some held)
    (out : Identity) :
    koeIdentityLoad S pwhash dev.files out (firstIdentityPath dataRoot pk) held.passphrase =
      (0, held.keys) := by
  have hfile := hholds.files pk
  rw [hheld] at hfile
  obtain ⟨salt, nonce, encKey, ct, hkey, hct, hcontents⟩ := hfile
  exact koeIdentityLoad_sealed S pwhash haead hcontents hkey hct out

/-- An entry with the short id of keys in the book is activated with their passphrase. Assumes: a
correct AEAD, the files of the book, an index in range, and an entry with that short id. -/
theorem KeyBook.Holds.activate (haead : S.Aead) (hholds : book.Holds S pwhash start dataRoot dev)
    {pk : Block 32} {held : HeldKeys} (hheld : book (pk.toList.take 8) = some held) {idx : ℤ}
    (hlow : 0 ≤ idx) (hhigh : idx < dev.reg.count)
    (hsubdir : cString (dev.reg.accounts.getD idx.toNat AccountDescriptor.zero).dataSubdir =
      koeIdentityShortId pk) (into : Account) :
    koeAccountActivate S pwhash dev.files into dev.reg idx held.passphrase =
      (0, ⟨{ dev.reg.accounts.getD idx.toNat AccountDescriptor.zero with active := 1 }, held.keys,
        strncpy 255 held.passphrase⟩) := by
  have hpath := identityPath_eq_firstIdentityPath hholds.root hsubdir
  rw [identityPath] at hpath
  have hloads := hholds.load haead hheld into.keys
  rw [koeAccountActivate, if_neg (by omega)]
  simp only [hpath, hloads]
  rw [if_neg (by decide)]

end Runs

/-- An account is created below `/data`, put away, and deleted. -/
def forgottenRun : List DeviceCall :=
  [.create plainCreate (ascii "me") sixteenBytes, .deactivate, .load, .delete true 0]

end KoeCore
