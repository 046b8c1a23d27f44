import KoeCore.Account.Device

/-!
# The registry on disk

The registry file holds the magic, the number of accounts and their descriptors as they lie in
memory; it is written by `koe_account_registry_save` and parsed by `koe_account_registry_load`.
`registryBytes` is the file of a list of descriptors, and `koeAccountRegistryLoad_bytes` is the
round trip: a load of that file returns the list with the active flags cleared.

`Device.Mirrored` is the invariant of a device on which writing works: the registry file, if there
is one, is that of the descriptors in memory up to their flags, and every descriptor has a
terminated name and clock readings that fit their field. Every call keeps it, and
`koeAccountRegistry_mirrored` reads off it what a fresh load returns after any run. A deletion takes
one element out of the list only where the flag of that element is clear.
-/

set_option autoImplicit false
set_option relaxedAutoImplicit false

namespace KoeCore

open ByteWire

/-! ### Descriptors as bytes -/

/-- A reading of the clock fits a `time_t` of eight bytes. -/
def FitsTime (time : ℤ) : Prop := -2 ^ 63 ≤ time ∧ time < 2 ^ 63

/-- The descriptor as `koe_account_registry_load` keeps it. -/
def AccountDescriptor.inactive (desc : AccountDescriptor) : AccountDescriptor :=
  { desc with active := 0 }

/-- A descriptor of a device: the clock readings fit, the flag is one of the two values the calls
write, and the last byte of the name is zero. -/
structure AccountDescriptor.Sound (desc : AccountDescriptor) : Prop where
  createdAt : FitsTime desc.createdAt
  lastActiveAt : FitsTime desc.lastActiveAt
  active : desc.active = 0 ∨ desc.active = 1
  terminated : desc.displayName.toList.drop 63 = [0]

theorem AccountDescriptor.Sound.inactive {desc : AccountDescriptor} (hsound : desc.Sound) :
    desc.inactive.Sound :=
  ⟨hsound.createdAt, hsound.lastActiveAt, Or.inl rfl, hsound.terminated⟩

/-- Assumes: a number within the range of `n` bytes with a sign, and the bytes of the number at the
offset. -/
theorem readInt_of_eq {n off : ℕ} {buf : List UInt8} {value : ℤ}
    (hlow : -((256 ^ n : ℕ) / 2 : ℤ) ≤ value) (hhigh : value < ((256 ^ n : ℕ) + 1 : ℤ) / 2)
    (hbytes : readAt n off buf = intBytes n value) : readInt n off buf = value := by
  have hpos : 0 < 256 ^ n := Nat.pow_pos (by decide)
  have hnonneg : 0 ≤ value % (256 ^ n : ℕ) := Int.emod_nonneg value (by omega)
  have hlt : value % (256 ^ n : ℕ) < (256 ^ n : ℕ) := Int.emod_lt_of_pos value (by omega)
  have hbase : (256 : ℤ) ^ n = (256 ^ n : ℕ) := (Int.natCast_pow 256 n).symm
  rw [readInt, hbytes, intBytes, ofLeBytes_leBytes, hbase, Nat.mod_eq_of_lt (by omega),
    Int.toNat_of_nonneg hnonneg, Int.emod_bmod, Int.bmod_eq_of_le hlow hhigh]

theorem AccountDescriptor.length_bytes (desc : AccountDescriptor) :
    desc.bytes.length = descriptorSize := by
  simp [AccountDescriptor.bytes, descriptorSize]

/-- Assumes: the buffer as the bytes in front of the descriptor, the descriptor and the rest. -/
theorem readDescriptor_of_eq {off : ℕ} {buf rest : List UInt8} {desc : AccountDescriptor}
    (hsound : desc.Sound) (front : List UInt8) (hbuf : buf = front ++ (desc.bytes ++ rest))
    (hoff : front.length = off) : readDescriptor off buf = desc := by
  have hid : readAt 32 off buf = desc.id :=
    readAt_of_eq front _
      (by simp only [hbuf, AccountDescriptor.bytes, List.append_assoc]; rfl) hoff
  have hname : readAt 64 (off + 32) buf = desc.displayName :=
    readAt_of_eq (front ++ desc.id.toList) _
      (by simp only [hbuf, AccountDescriptor.bytes, List.append_assoc]; rfl) (by simp [hoff])
  have hsubdir : readAt 256 (off + 96) buf = desc.dataSubdir :=
    readAt_of_eq (front ++ desc.id.toList ++ desc.displayName.toList) _
      (by simp only [hbuf, AccountDescriptor.bytes, List.append_assoc]; rfl) (by simp [hoff])
  -- From here on the fields are numbers, and lie behind the three arrays.
  let arrays := front ++ desc.id.toList ++ desc.displayName.toList ++ desc.dataSubdir.toList
  have hcreated : readInt 8 (off + 352) buf = desc.createdAt :=
    readInt_of_eq hsound.createdAt.1 hsound.createdAt.2 <| readAt_of_eq arrays _
      (by simp only [arrays, hbuf, AccountDescriptor.bytes, List.append_assoc]; rfl)
      (by simp [arrays, hoff])
  have hlast : readInt 8 (off + 360) buf = desc.lastActiveAt :=
    readInt_of_eq hsound.lastActiveAt.1 hsound.lastActiveAt.2 <|
      readAt_of_eq (arrays ++ (intBytes 8 desc.createdAt).toList) _
        (by simp only [arrays, hbuf, AccountDescriptor.bytes, List.append_assoc]; rfl)
        (by simp [arrays, hoff])
  have hflag := hsound.active
  have hactive : readInt 4 (off + 368) buf = desc.active :=
    readInt_of_eq (by omega) (by omega) <|
      readAt_of_eq
        (arrays ++ (intBytes 8 desc.createdAt).toList ++ (intBytes 8 desc.lastActiveAt).toList) _
        (by simp only [arrays, hbuf, AccountDescriptor.bytes, List.append_assoc]; rfl)
        (by simp [arrays, hoff])
  rw [readDescriptor, hid, hname, hsubdir, hcreated, hlast, hactive]

/-! ### The registry file -/

/-- The path of the registry file of a data root. -/
def registryFile (dataRoot : List UInt8) : List UInt8 :=
  pathBuf (strncpy 511 dataRoot ++ ascii "/accounts.koe")

/-- The registry file of a list of descriptors. -/
def registryBytes (descs : List AccountDescriptor) : List UInt8 :=
  registryMagic ++ (intBytes 4 descs.length).toList ++ descs.flatMap AccountDescriptor.bytes

theorem length_flatMap_bytes (descs : List AccountDescriptor) :
    (descs.flatMap AccountDescriptor.bytes).length = descriptorSize * descs.length := by
  induction descs with
  | nil => rfl
  | cons desc descs ih =>
    rw [List.flatMap_cons, List.length_append, AccountDescriptor.length_bytes, ih,
      List.length_cons, Nat.mul_succ, Nat.add_comm]

/-- The loop reads the descriptors `todo` behind `done` and puts them into the registry, with the
flags cleared. Assumes: the file of the two lists, and a registry with room for them. -/
theorem readDescriptors_bytes (head : List UInt8) (hhead : head.length = 11)
    (todo : List AccountDescriptor) :
    ∀ (done : List AccountDescriptor) (reg : AccountRegistry),
      (∀ desc ∈ todo, desc.Sound) → done.length + todo.length ≤ koeAccountMax →
        ∃ read, readDescriptors (head ++ (done ++ todo).flatMap AccountDescriptor.bytes)
            todo.length done.length reg = (0, read) ∧
          read.accounts.take (done.length + todo.length) =
            reg.accounts.take done.length ++ todo.map AccountDescriptor.inactive := by
  induction todo with
  | nil =>
    intro done reg _ _
    exact ⟨reg, rfl, by rw [List.map_nil, List.append_nil, List.length_nil, Nat.add_zero]⟩
  | cons desc todo ih =>
    intro done reg hsound hroom
    rw [List.length_cons] at hroom
    obtain ⟨front, hfront, hbytes⟩ : ∃ front, front.length = 11 + descriptorSize * done.length ∧
        head ++ (done ++ desc :: todo).flatMap AccountDescriptor.bytes =
          front ++ (desc.bytes ++ todo.flatMap AccountDescriptor.bytes) := by
      refine ⟨head ++ done.flatMap AccountDescriptor.bytes, ?_, ?_⟩
      · rw [List.length_append, hhead, length_flatMap_bytes]
      · rw [List.flatMap_append, List.flatMap_cons, ← List.append_assoc]
    have hshift : head ++ (done ++ desc :: todo).flatMap AccountDescriptor.bytes =
        head ++ ((done ++ [desc]) ++ todo).flatMap AccountDescriptor.bytes := by
      rw [List.append_assoc, List.singleton_append]
    have hread := readDescriptor_of_eq (hsound desc List.mem_cons_self) front hbytes hfront
    have hlong : ¬ (head ++ (done ++ desc :: todo).flatMap AccountDescriptor.bytes).length <
        11 + descriptorSize * done.length + descriptorSize := by
      rw [hbytes, List.length_append, List.length_append, hfront, AccountDescriptor.length_bytes]
      omega
    obtain ⟨read, hrest, haccounts⟩ := ih (done ++ [desc]) (reg.set done.length desc.inactive)
      (fun later hlater ↦ hsound later (List.mem_cons_of_mem desc hlater))
      (by rw [List.length_append, List.length_singleton]; omega)
    rw [List.length_append, List.length_singleton] at hrest haccounts
    refine ⟨read, ?_, ?_⟩
    · rw [List.length_cons, readDescriptors, if_neg hlong, hread, hshift]
      exact hrest
    · have hplace : done.length < reg.accounts.length := by
        rw [reg.accounts_length]
        omega
      have hset : (reg.accounts.set done.length desc.inactive).take (done.length + 1) =
          reg.accounts.take done.length ++ [desc.inactive] := by
        rw [List.take_add_one, List.take_set_of_le (Nat.le_refl _),
          List.getElem?_set_self hplace, Option.toList_some]
      rw [List.length_cons, Nat.add_comm todo.length, ← Nat.add_assoc, haccounts, List.map_cons]
      change (reg.accounts.set done.length desc.inactive).take (done.length + 1) ++ _ = _
      rw [hset, List.append_assoc, List.singleton_append]

/-- A load of the file of a list returns the list with the flags cleared. Assumes: at most sixteen
descriptors. -/
theorem koeAccountRegistryLoad_bytes {files : Files} {dataRoot : List UInt8}
    {descs : List AccountDescriptor} (hsound : ∀ desc ∈ descs, desc.Sound)
    (hlength : descs.length ≤ koeAccountMax)
    (hfile : files (registryFile dataRoot) = some (registryBytes descs)) :
    ∃ fresh, koeAccountRegistryLoad files dataRoot = (0, fresh) ∧
      fresh.count = descs.length ∧ fresh.entries = descs.map AccountDescriptor.inactive := by
  have hmagic : (registryBytes descs).take 7 = registryMagic := by
    rw [registryBytes, List.append_assoc, show 7 = registryMagic.length from rfl, List.take_left]
  have hcount : readInt 4 7 (registryBytes descs) = descs.length := by
    have hmax : koeAccountMax = 16 := rfl
    exact readInt_of_eq (by omega) (by omega)
      (readAt_of_eq registryMagic _ (List.append_assoc _ _ _) rfl)
  let head := registryMagic ++ (intBytes 4 descs.length).toList
  have hhead : head.length = 11 := by simp [head, registryMagic]
  have hlong : 11 ≤ (registryBytes descs).length := by
    rw [← hhead]
    exact (List.prefix_append head _).length_le
  unfold koeAccountRegistryLoad
  have hpath : files (registryPath { AccountRegistry.zero with dataRoot := strncpy 511 dataRoot }) =
    some (registryBytes descs) := hfile
  generalize ({ AccountRegistry.zero with dataRoot := strncpy 511 dataRoot } :
    AccountRegistry) = empty at hpath
  obtain ⟨read, hread, haccounts⟩ := readDescriptors_bytes head hhead descs [] empty hsound
    (by rw [List.length_nil, Nat.zero_add]; exact hlength)
  have hsame : readDescriptors (registryBytes descs) descs.length 0 empty = (0, read) := hread
  rw [List.length_nil, Nat.zero_add, List.take_zero, List.nil_append] at haccounts
  have hrange : ¬ ((descs.length : ℤ) < 0 ∨ (descs.length : ℤ) > koeAccountMax) := by omega
  have hsucceeds : ¬ (0 : ℤ) ≠ 0 := by decide
  refine ⟨{ read with count := descs.length }, ?_, rfl, haccounts⟩
  simp only [hpath, hcount, Int.toNat_natCast, hsame]
  rw [if_neg (not_or.mpr ⟨by omega, not_not.mpr hmagic⟩), if_neg (by omega), if_neg hrange,
    if_neg hsucceeds]

/-- Assumes: no registry file. -/
theorem koeAccountRegistryLoad_none {files : Files} {dataRoot : List UInt8}
    (hfile : files (registryFile dataRoot) = none) :
    ∃ fresh, koeAccountRegistryLoad files dataRoot = (0, fresh) ∧ fresh.count = 0 ∧
      fresh.entries = [] := by
  refine ⟨{ AccountRegistry.zero with dataRoot := strncpy 511 dataRoot }, ?_, rfl, rfl⟩
  unfold koeAccountRegistryLoad
  dsimp only
  split
  · rfl
  · rename_i bytes hbytes
    exact absurd (hbytes.symm.trans hfile) (Option.some_ne_none bytes)

/-! ### The file and the registry in memory -/

/-- The readings of the clock fit their fields. -/
def DeviceCall.InTime : DeviceCall → Prop
  | .create env _ _ => FitsTime env.createdAt ∧ FitsTime env.lastActiveAt
  | _ => True

/-- A call on a device without faults: writing works, and the clock gives times. -/
def DeviceCall.Writes (call : DeviceCall) : Prop := call.opens = true ∧ call.InTime

/-- The registry file is that of the descriptors in memory, up to the flags. -/
structure Device.Mirrored (dataRoot : List UInt8) (dev : Device) : Prop where
  place : dev.dataRoot = dataRoot
  root : dev.reg.dataRoot = strncpy 511 dataRoot
  valid : dev.reg.Valid
  sound : ∀ desc ∈ dev.reg.entries, desc.Sound
  file : (dev.files (registryFile dataRoot) = none ∧ dev.reg.entries = []) ∨
    ∃ stored, dev.files (registryFile dataRoot) = some (registryBytes stored) ∧
      (∀ desc ∈ stored, desc.Sound) ∧
      stored.map AccountDescriptor.inactive = dev.reg.entries.map AccountDescriptor.inactive

section Mirrored

variable {S : Sodium} {pwhash : Pwhash} {dataRoot : List UInt8} {dev : Device}

theorem Device.Mirrored.load (hmirrored : dev.Mirrored dataRoot) :
    ∃ fresh, koeAccountRegistryLoad dev.files dataRoot = (0, fresh) ∧
      fresh.count = dev.reg.count ∧
      fresh.entries = dev.reg.entries.map AccountDescriptor.inactive := by
  have hcount := hmirrored.valid.length_entries
  have hmax := hmirrored.valid.2
  rcases hmirrored.file with ⟨hnone, hempty⟩ | ⟨stored, hfile, hsound, hstored⟩
  · rw [hempty, List.length_nil] at hcount
    rw [hempty, ← hcount]
    exact koeAccountRegistryLoad_none hnone
  · have hlength := congrArg List.length hstored
    rw [List.length_map, List.length_map] at hlength
    obtain ⟨fresh, hload, hnumber, hentries⟩ :=
      koeAccountRegistryLoad_bytes hsound (by omega) hfile
    exact ⟨fresh, hload, by omega, hentries.trans hstored⟩

theorem createdDescriptor_sound {env : CreateEnv} (hcreated : FitsTime env.createdAt)
    (hlast : FitsTime env.lastActiveAt) (pk : Block 32) (displayName : List UInt8) :
    (createdDescriptor env pk displayName).Sound := by
  refine ⟨hcreated, hlast, Or.inr rfl, ?_⟩
  have hshort : (strncpy 63 displayName).length ≤ 63 := List.length_take_le 63 displayName
  change (clip 64 (strncpy 63 displayName)).toList.drop 63 = [0]
  generalize strncpy 63 displayName = name at hshort
  simp only [clip, List.Vector.toList_mk]
  rw [List.take_of_length_le (by omega), List.drop_append, List.drop_of_length_le hshort,
    List.drop_replicate, List.nil_append, show 64 - name.length - (63 - name.length) = 1 by omega]
  rfl

theorem overwriteName_drop (name : Block 64) (src : List UInt8) :
    (overwriteName name src).toList.drop 63 = name.toList.drop 63 := by
  have hlength : (clip 63 (strncpy 63 src)).toList.length = 63 := List.Vector.toList_length _
  change ((clip 63 (strncpy 63 src)).toList ++ name.toList.drop 63).drop 63 = _
  rw [List.drop_append, hlength, Nat.sub_self, List.drop_zero, List.drop_of_length_le
    (Nat.le_of_eq hlength), List.nil_append]

theorem Device.Source.sound {call : DeviceCall} {desc : AccountDescriptor}
    (hsource : dev.Source call desc) (hentries : ∀ desc ∈ dev.reg.entries, desc.Sound)
    (htime : call.InTime) : desc.Sound := by
  cases hsource with
  | kept hdesc => exact hentries _ hdesc
  | created env displayName passphrase pk =>
    exact createdDescriptor_sound htime.1 htime.2 pk displayName
  | renamed opens idx newName hdesc =>
    have hsound := hentries _ hdesc
    exact ⟨hsound.createdAt, hsound.lastActiveAt, hsound.active,
      (overwriteName_drop _ _).trans hsound.terminated⟩

/-- A load puts the descriptors of the file into memory, with the flags cleared. -/
theorem Device.Mirrored.reload (hmirrored : dev.Mirrored dataRoot) :
    (dev.step S pwhash .load).Mirrored dataRoot := by
  obtain ⟨fresh, hload, -, hentries⟩ := hmirrored.load
  have hfresh := koeAccountRegistryLoad_valid dev.files dataRoot
  rw [hload] at hfresh
  have hstep : dev.step S pwhash .load = { dev with reg := fresh } := by
    rw [Device.step, hmirrored.place, hload]
  rw [hstep]
  refine ⟨hmirrored.place, hfresh.2, hfresh.1, ?_, ?_⟩
  · intro desc hdesc
    rw [hentries] at hdesc
    obtain ⟨before, hbefore, rfl⟩ := List.mem_map.mp hdesc
    exact (hmirrored.sound before hbefore).inactive
  · dsimp only
    rw [hentries]
    rcases hmirrored.file with ⟨hnone, hempty⟩ | ⟨stored, hfile, hsound, hstored⟩
    · exact Or.inl ⟨hnone, by rw [hempty, List.map_nil]⟩
    · refine Or.inr ⟨stored, hfile, hsound, ?_⟩
      rw [hstored, List.map_map]
      rfl

/-- A registry that was saved last is that of the file. -/
theorem Device.Mirrored.save (hmirrored : dev.Mirrored dataRoot) {call : DeviceCall}
    (hwrites : call.Writes) {after : Device} (hsaves : dev.Saves call after) :
    after.Mirrored dataRoot := by
  obtain ⟨written, hfiles⟩ := hsaves.files
  have hroot := hsaves.root.trans hmirrored.root
  have hsound : ∀ desc ∈ after.reg.entries, desc.Sound := fun desc hdesc ↦
    (hsaves.source desc hdesc).sound hmirrored.sound hwrites.2
  have hpath : registryPath after.reg = registryFile dataRoot := by
    rw [registryPath, registryFile, hroot]
  refine ⟨hsaves.place.trans hmirrored.place, hroot, hsaves.valid, hsound,
    Or.inr ⟨after.reg.entries, ?_, hsound, rfl⟩⟩
  rw [hfiles, koeAccountRegistrySave, hwrites.1, ← hpath, registryBytes,
    hsaves.valid.length_entries]
  exact Function.update_self _ _ _

theorem Device.mirrored_step (hmirrored : dev.Mirrored dataRoot) {call : DeviceCall}
    (hwrites : call.Writes) : (dev.step S pwhash call).Mirrored dataRoot := by
  rcases Device.step_cases S pwhash hmirrored.valid call with rfl | hkeeps | hsaves
  · exact hmirrored.reload
  · refine ⟨hkeeps.place.trans hmirrored.place, hkeeps.root.trans hmirrored.root,
      Device.valid_step hmirrored.valid call, ?_, ?_⟩
    · rw [hkeeps.entries]
      exact hmirrored.sound
    · rw [hkeeps.entries, hkeeps.files]
      exact hmirrored.file
  · exact hmirrored.save hwrites hsaves

theorem Device.mirrored_run {files : Files} (hnone : files (registryFile dataRoot) = none)
    {calls : List DeviceCall} (hwrites : ∀ call ∈ calls, call.Writes) :
    (calls.foldl (Device.step S pwhash) (Device.start files dataRoot)).Mirrored dataRoot := by
  obtain ⟨fresh, hload, hcount, hentries⟩ := koeAccountRegistryLoad_none hnone
  have hloaded := koeAccountRegistryLoad_valid files dataRoot
  have hempty : (Device.start files dataRoot).reg.entries = [] := by
    rw [Device.start, hload]
    exact hentries
  refine List.foldlRecOn (motive := Device.Mirrored dataRoot) calls _ ?_ ?_
  · exact ⟨rfl, hloaded.2, hloaded.1, fun desc hdesc ↦ by simp [hempty] at hdesc,
      Or.inl ⟨hnone, hempty⟩⟩
  · intro dev hmirrored call hcall
    exact Device.mirrored_step hmirrored (hwrites call hcall)

end Mirrored

/-- After any calls on a device that had no registry file, a fresh load returns the registry in
memory with the flags cleared. The counter and the names stay within their arrays. A deletion is
refused when the index is out of range or the flag of the entry is set, and takes the entry out of
the list otherwise. Assumes: writing works, and the readings of the clock fit their fields. -/
theorem koeAccountRegistry_mirrored (S : Sodium) (pwhash : Pwhash) {files : Files}
    {dataRoot : List UInt8} (hnone : files (registryFile dataRoot) = none) {calls : List DeviceCall}
    (hwrites : ∀ call ∈ calls, call.Writes) :
    let dev := calls.foldl (Device.step S pwhash) (Device.start files dataRoot)
    (0 ≤ dev.reg.count ∧ dev.reg.count ≤ 16) ∧
      (∀ desc ∈ dev.reg.entries, 0 ∈ desc.displayName.toList) ∧
      (∃ fresh, koeAccountRegistryLoad dev.files dataRoot = (0, fresh) ∧
        fresh.count = dev.reg.count ∧
        fresh.entries = dev.reg.entries.map AccountDescriptor.inactive) ∧
      (∀ idx : ℤ,
        let deleted := koeAccountDelete true dev.files dev.reg idx
        if idx < 0 ∨ idx ≥ dev.reg.count ∨
            (dev.reg.accounts.getD idx.toNat AccountDescriptor.zero).active ≠ 0 then
          deleted = (-1, dev.reg, dev.files)
        else deleted.1 = 0 ∧ deleted.2.1.entries = dev.reg.entries.eraseIdx idx.toNat) := by
  intro dev
  have hmirrored : dev.Mirrored dataRoot := Device.mirrored_run hnone hwrites
  refine ⟨hmirrored.valid, ?_, hmirrored.load, ?_⟩
  · intro desc hdesc
    have hlast : (0 : UInt8) ∈ desc.displayName.toList.drop 63 := by
      rw [(hmirrored.sound desc hdesc).terminated]
      exact List.mem_singleton_self 0
    exact List.mem_of_mem_drop hlast
  · intro idx deleted
    rcases koeAccountDelete_cases hmirrored.valid true dev.files idx with
      ⟨hrefused, hdeleted⟩ | ⟨hpos, hlt, hflag, after, hentries, -, -, hdeleted⟩
    · rw [if_pos hrefused]
      exact hdeleted
    · have hallowed : ¬ (idx < 0 ∨ idx ≥ dev.reg.count ∨
          (dev.reg.accounts.getD idx.toNat AccountDescriptor.zero).active ≠ 0) := by
        omega
      rw [if_neg hallowed]
      simp only [deleted, hdeleted]
      exact ⟨rfl, hentries⟩

/-- An account is created, renamed, and deleted after the registry was loaded again. -/
def mirroredRun : List DeviceCall :=
  [.create plainCreate [65] [], .rename true 0 [66], .load, .delete true 0]

theorem mirroredRun_mirrored :
    ∃ fresh, koeAccountRegistryLoad (Device.reached mirroredRun).files [] = (0, fresh) ∧
      fresh.count = (Device.reached mirroredRun).reg.count ∧
      fresh.entries =
        (Device.reached mirroredRun).reg.entries.map AccountDescriptor.inactive := by
  have hwrites : ∀ call ∈ mirroredRun, call.Writes := by
    simp [mirroredRun, DeviceCall.Writes, DeviceCall.opens, DeviceCall.InTime, plainCreate,
      FitsTime]
  exact (koeAccountRegistry_mirrored Sodium.transparent plainPwhash rfl hwrites).2.2.1

/-- A deletion right after the creation is refused: it does not take the element out. -/
theorem koeAccountDelete_keeps_created :
    let dev := Device.reached [.create plainCreate [65] []]
    dev.reg.count = 1 ∧ (koeAccountDelete true dev.files dev.reg 0).1 = -1 ∧
      (koeAccountDelete true dev.files dev.reg 0).2.1.entries ≠ dev.reg.entries.eraseIdx 0 := by
  decide +kernel

end KoeCore
