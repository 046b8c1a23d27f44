import KoeCore.Identity.File

/-!
# Accounts

`koe_account.c`: the registry of the accounts on a device and its file, and creating, activating,
deactivating, renaming and deleting an account. The descriptors are written to the registry file as
they lie in memory, and each account has its own identity file. Directories are left out; a file can
be opened or not, as the environment says.

`koeAccountActivate_cases` and `koeAccountCreate_created` say what the two calls leave in the
account: an account that they load is marked active and has the keys that were read or drawn.

The first `count` descriptors are the accounts of the registry (`AccountRegistry.entries`), and what
the calls do is said in terms of this list: creating appends to it (`koeAccountCreate_entries`), and
deleting, which shifts the descriptors behind the deleted one in place, takes one element out
(`koeAccountDelete_cases`).
-/

set_option autoImplicit false
set_option relaxedAutoImplicit false

namespace KoeCore

open ByteWire

/-- `KOE_ACCOUNT_MAX`. -/
def koeAccountMax : ℕ := 16

/-- `KOE_ACCOUNT_DISPLAY_NAME_MAX`. -/
def koeAccountDisplayNameMax : ℕ := 64

/-- `koe_account_descriptor_t`. -/
structure AccountDescriptor where
  id : Block 32
  displayName : Block 64
  dataSubdir : Block 256
  createdAt : ℤ
  lastActiveAt : ℤ
  active : ℤ
deriving DecidableEq

/-- The descriptor that `memset(.., 0, ..)` leaves. -/
def AccountDescriptor.zero : AccountDescriptor :=
  ⟨Block.zero 32, Block.zero 64, Block.zero 256, 0, 0, 0⟩

/-- `koe_account_t`. -/
structure Account where
  desc : AccountDescriptor
  keys : Identity
  passphrase : List UInt8
deriving DecidableEq

/-- The account that `memset(.., 0, ..)` leaves. -/
def Account.zero : Account := ⟨AccountDescriptor.zero, Identity.erased, []⟩

/-- `koe_account_registry_t`. -/
structure AccountRegistry where
  accounts : List AccountDescriptor
  count : ℤ
  dataRoot : List UInt8
  accounts_length : accounts.length = koeAccountMax

/-- The registry that `memset(.., 0, ..)` leaves. -/
def AccountRegistry.zero : AccountRegistry where
  accounts := List.replicate koeAccountMax AccountDescriptor.zero
  count := 0
  dataRoot := []
  accounts_length := List.length_replicate

/-- The assignment `reg->accounts[i] = desc`. -/
def AccountRegistry.set (reg : AccountRegistry) (i : ℕ) (desc : AccountDescriptor) :
    AccountRegistry :=
  { reg with
    accounts := reg.accounts.set i desc
    accounts_length := by rw [List.length_set, reg.accounts_length] }

/-! ### Paths -/

/-- The string in an array of characters. -/
def cString {n : ℕ} (chars : Block n) : List UInt8 := chars.toList.takeWhile (· ≠ 0)

/-- The array that `strncpy(dst, src, n - 1)` leaves when it was zeroed before. -/
def charArray (n : ℕ) (src : List UInt8) : Block n := clip n (strncpy (n - 1) src)

/-- What `snprintf` leaves in a buffer of 512 bytes. -/
def pathBuf (text : List UInt8) : List UInt8 := text.take 511

/-- The bytes of an ASCII text. -/
def ascii (text : String) : List UInt8 := text.toList.map fun char ↦ UInt8.ofNat char.toNat

def registryPath (reg : AccountRegistry) : List UInt8 :=
  pathBuf (reg.dataRoot ++ ascii "/accounts.koe")

/-- The directory of an account. -/
def accountDir (dataRoot : List UInt8) (desc : AccountDescriptor) : List UInt8 :=
  dataRoot ++ ascii "/accounts/" ++ cString desc.dataSubdir

/-! ### The registry file -/

/-- `REGISTRY_MAGIC`. -/
def registryMagic : List UInt8 := [0x4b, 0x4f, 0x45, 0x52, 0x45, 0x47, 0x01]

/-- The two's complement of a number in `n` bytes, as it lies in memory. -/
def intBytes (n : ℕ) (value : ℤ) : Block n := leBytes n (value % 256 ^ n).toNat

/-- The signed number in the `n` bytes at an offset. -/
def readInt (n off : ℕ) (buf : List UInt8) : ℤ :=
  Int.bmod (ofLeBytes (readAt n off buf).toList) (256 ^ n)

/-- `sizeof(koe_account_descriptor_t)`. -/
def descriptorSize : ℕ := 376

/-- A descriptor as it lies in memory, with the four bytes of padding at its end. -/
def AccountDescriptor.bytes (desc : AccountDescriptor) : List UInt8 :=
  desc.id.toList ++ desc.displayName.toList ++ desc.dataSubdir.toList ++
    (intBytes 8 desc.createdAt).toList ++ (intBytes 8 desc.lastActiveAt).toList ++
    (intBytes 4 desc.active).toList ++ [0, 0, 0, 0]

/-- The descriptor whose bytes start at an offset. -/
def readDescriptor (off : ℕ) (buf : List UInt8) : AccountDescriptor where
  id := readAt 32 off buf
  displayName := readAt 64 (off + 32) buf
  dataSubdir := readAt 256 (off + 96) buf
  createdAt := readInt 8 (off + 352) buf
  lastActiveAt := readInt 8 (off + 360) buf
  active := readInt 4 (off + 368) buf

/-- The loop of `koe_account_registry_load` over the descriptors from `i` on, with the number of
descriptors left to read. -/
def readDescriptors (bytes : List UInt8) : ℕ → ℕ → AccountRegistry → ℤ × AccountRegistry
  | 0, _, reg => (0, reg)
  | left + 1, i, reg =>
    let off := 11 + descriptorSize * i
    if bytes.length < off + descriptorSize then (-1, reg)
    else
      readDescriptors bytes left (i + 1) (reg.set i { readDescriptor off bytes with active := 0 })

/-- The return code, and the registry after the call. -/
def koeAccountRegistryLoad (files : Files) (dataRoot : List UInt8) : ℤ × AccountRegistry :=
  let reg := { AccountRegistry.zero with dataRoot := strncpy 511 dataRoot }
  match files (registryPath reg) with
  | none => (0, reg)
  | some bytes =>
    if bytes.length < 7 ∨ bytes.take 7 ≠ registryMagic then (-1, reg)
    else if bytes.length < 11 then (-1, reg)
    else
      let count := readInt 4 7 bytes
      if count < 0 ∨ count > koeAccountMax then (-1, reg)
      else
        let read := readDescriptors bytes count.toNat 0 reg
        if read.1 ≠ 0 then read else (0, { read.2 with count := count })

/-- The return code, and the files after the call; `opens` says whether the file can be opened. -/
def koeAccountRegistrySave (opens : Bool) (files : Files) (reg : AccountRegistry) : ℤ × Files :=
  if !opens then (-1, files)
  else
    (0, Function.update files (registryPath reg)
      (some (registryMagic ++ (intBytes 4 reg.count).toList ++
        (reg.accounts.take reg.count.toNat).flatMap AccountDescriptor.bytes)))

/-! ### The life of an account -/

/-- What `koe_account_create` takes from its environment: the key pair drawn, the two readings of
the clock, the answers to `koe_identity_save`, and whether the registry file can be opened. -/
structure CreateEnv where
  drawn : Option Identity
  createdAt : ℤ
  lastActiveAt : ℤ
  save : SaveEnv
  registryOpens : Bool

/-- A creation with given keys, in which everything works. -/
def plainCreate : CreateEnv :=
  ⟨some (Sodium.transparentIdentity 1), 1, 1, ⟨Block.zero 16, Block.zero 24, true⟩, true⟩

/-- The return code, and the account, the registry and the files after a call. -/
structure Created where
  rc : ℤ
  account : Account
  registry : AccountRegistry
  files : Files

/-- The descriptor that `koe_account_create` fills in. -/
def createdDescriptor (env : CreateEnv) (pk : Block 32) (displayName : List UInt8) :
    AccountDescriptor where
  id := pk
  displayName := charArray koeAccountDisplayNameMax displayName
  dataSubdir := charArray 256 (koeIdentityShortId pk)
  createdAt := env.createdAt
  lastActiveAt := env.lastActiveAt
  active := 1

section Accounts

variable (S : Sodium) (pwhash : Pwhash)

def koeAccountCreate (env : CreateEnv) (files : Files) (out : Account) (reg : AccountRegistry)
    (displayName passphrase : List UInt8) : Created :=
  if reg.count ≥ koeAccountMax then ⟨-1, out, reg, files⟩
  else
    let generated := koeIdentityGenerate env.drawn out.keys
    let out := { out with keys := generated.2 }
    if generated.1 ≠ 0 then ⟨-1, out, reg, files⟩
    else
      let desc := createdDescriptor env out.keys.pk displayName
      let reg := reg.set reg.count.toNat desc
      let out := { out with desc := desc, passphrase := strncpy 255 passphrase }
      let acctDir := pathBuf (accountDir reg.dataRoot desc)
      let idPath := pathBuf (acctDir ++ ascii "/identity.koe")
      let saved := koeIdentitySave S pwhash env.save files out.keys idPath passphrase
      if saved.1 ≠ 0 then ⟨-1, out, reg, saved.2⟩
      else
        let reg := { reg with count := reg.count + 1 }
        ⟨0, out, reg, (koeAccountRegistrySave env.registryOpens saved.2 reg).2⟩

/-- The return code, and the account after the call. -/
def koeAccountActivate (files : Files) (out : Account) (reg : AccountRegistry) (idx : ℤ)
    (passphrase : List UInt8) : ℤ × Account :=
  if idx < 0 ∨ idx ≥ reg.count then (-1, out)
  else
    let desc := reg.accounts.getD idx.toNat AccountDescriptor.zero
    let idPath := pathBuf (accountDir reg.dataRoot desc ++ ascii "/identity.koe")
    let loaded := koeIdentityLoad S pwhash files out.keys idPath passphrase
    if loaded.1 ≠ 0 then (-1, { out with keys := loaded.2 })
    else
      (0,
        { desc := { desc with active := 1 }
          keys := loaded.2
          passphrase := strncpy 255 passphrase })

def koeAccountDeactivate (account : Account) : Account where
  desc := { account.desc with active := 0 }
  keys := Identity.erased
  passphrase := []

/-- The loop of `koe_account_delete` from `i` on, with the number of descriptors left to shift. -/
def shiftEntries : ℕ → ℕ → AccountRegistry → AccountRegistry
  | 0, _, reg => reg
  | left + 1, i, reg =>
    shiftEntries left (i + 1) (reg.set i (reg.accounts.getD (i + 1) AccountDescriptor.zero))

/-- The return code, and the registry and the files after the call. -/
def koeAccountDelete (opens : Bool) (files : Files) (reg : AccountRegistry) (idx : ℤ) :
    ℤ × AccountRegistry × Files :=
  if idx < 0 ∨ idx ≥ reg.count then (-1, reg, files)
  else if (reg.accounts.getD idx.toNat AccountDescriptor.zero).active ≠ 0 then (-1, reg, files)
  else
    let shifted := shiftEntries (reg.count - 1 - idx).toNat idx.toNat reg
    let reg := { shifted with count := reg.count - 1 }
    let saved := koeAccountRegistrySave opens files reg
    (saved.1, reg, saved.2)

/-- The array that `strncpy(dst, src, n)` leaves in an array of one byte more: the last byte stays
as it was. -/
def overwriteName (name : Block 64) (src : List UInt8) : Block 64 :=
  ⟨(clip 63 (strncpy 63 src)).toList ++ name.toList.drop 63, by simp⟩

/-- The return code, and the registry and the files after the call. -/
def koeAccountRename (opens : Bool) (files : Files) (reg : AccountRegistry) (idx : ℤ)
    (newName : List UInt8) : ℤ × AccountRegistry × Files :=
  if idx < 0 ∨ idx ≥ reg.count then (-1, reg, files)
  else
    let desc := reg.accounts.getD idx.toNat AccountDescriptor.zero
    let reg := reg.set idx.toNat { desc with displayName := overwriteName desc.displayName newName }
    let saved := koeAccountRegistrySave opens files reg
    (saved.1, reg, saved.2)

/-- The return code, and the account and the files after the call; `check` is what the local
variable of that name holds before. The path of the identity file starts at the subdirectory. -/
def koeAccountChangePassphrase (env : SaveEnv) (files : Files) (account : Account)
    (check : Identity) (oldPassphrase newPassphrase : List UInt8) : ℤ × Account × Files :=
  if account.desc.active = 0 then (-1, account, files)
  else
    let idPath := pathBuf (cString account.desc.dataSubdir ++ ascii "/identity.koe")
    if (koeIdentityLoad S pwhash files check idPath oldPassphrase).1 ≠ 0 then (-1, account, files)
    else
      let saved := koeIdentitySave S pwhash env files account.keys idPath newPassphrase
      if saved.1 ≠ 0 then (-1, account, saved.2)
      else (0, { account with passphrase := strncpy 255 newPassphrase }, saved.2)

variable {S pwhash}

/-- An activation fails and leaves the account alone, or marks it active with the keys that were
read from its file. -/
theorem koeAccountActivate_cases (files : Files) (out : Account) (reg : AccountRegistry) (idx : ℤ)
    (passphrase : List UInt8) :
    koeAccountActivate S pwhash files out reg idx passphrase = (-1, out) ∨
      ∃ account, koeAccountActivate S pwhash files out reg idx passphrase = (0, account) ∧
        account.desc.active = 1 ∧
        ∃ path, koeIdentityLoad S pwhash files out.keys path passphrase = (0, account.keys) := by
  unfold koeAccountActivate
  dsimp only
  split_ifs with hidx hfails
  · exact Or.inl rfl
  · refine Or.inl ?_
    rcases koeIdentityLoad_cases S pwhash files out.keys _ passphrase with hload | hload
    · rw [hload]
    · exact absurd hload hfails
  · exact Or.inr ⟨_, rfl, rfl, _, Prod.ext (not_not.mp hfails) rfl⟩

/-- What a creation that returns 0 has done. Assumes: the return code 0. -/
theorem exists_created_of_koeAccountCreate {env : CreateEnv} {files : Files} {out : Account}
    {reg : AccountRegistry} {displayName passphrase : List UInt8}
    (hrc : (koeAccountCreate S pwhash env files out reg displayName passphrase).rc = 0) :
    ∃ keys, env.drawn = some keys ∧ reg.count < koeAccountMax ∧
      let desc := createdDescriptor env keys.pk displayName
      let after := { reg.set reg.count.toNat desc with count := reg.count + 1 }
      let idPath := pathBuf (pathBuf (accountDir reg.dataRoot desc) ++ ascii "/identity.koe")
      let saved := koeIdentitySave S pwhash env.save files keys idPath passphrase
      saved.1 = 0 ∧ koeAccountCreate S pwhash env files out reg displayName passphrase =
        ⟨0, ⟨desc, keys, strncpy 255 passphrase⟩, after,
          (koeAccountRegistrySave env.registryOpens saved.2 after).2⟩ := by
  have hne : ¬ (-1 : ℤ) = 0 := by decide
  by_cases hcount : reg.count ≥ koeAccountMax
  · rw [koeAccountCreate, if_pos hcount] at hrc
    exact absurd hrc hne
  rcases hdrawn : env.drawn with _ | keys
  · simp only [koeAccountCreate, if_neg hcount, koeIdentityGenerate, hdrawn, if_pos hne] at hrc
    exact absurd hrc hne
  · simp only [koeAccountCreate, if_neg hcount, koeIdentityGenerate, hdrawn] at hrc ⊢
    refine ⟨keys, rfl, not_le.mp hcount, ?_⟩
    split_ifs at hrc ⊢ with hzero hsaved
    · exact absurd hrc hne
    · exact absurd hrc hne
    · exact ⟨not_not.mp hsaved, rfl⟩

/-- An account that is created is marked active and has the keys drawn. Assumes: the return code
0. -/
theorem koeAccountCreate_created {env : CreateEnv} {files : Files} {out : Account}
    {reg : AccountRegistry} {displayName passphrase : List UInt8}
    (hrc : (koeAccountCreate S pwhash env files out reg displayName passphrase).rc = 0) :
    (koeAccountCreate S pwhash env files out reg displayName passphrase).account.desc.active = 1 ∧
      env.drawn =
        some (koeAccountCreate S pwhash env files out reg displayName passphrase).account.keys := by
  obtain ⟨keys, hdrawn, -, -, hcreated⟩ := exists_created_of_koeAccountCreate hrc
  rw [hcreated]
  exact ⟨rfl, hdrawn⟩

end Accounts

/-! ### The accounts of a registry -/

/-- The descriptors that count. -/
def AccountRegistry.entries (reg : AccountRegistry) : List AccountDescriptor :=
  reg.accounts.take reg.count.toNat

/-- The counter is within the array. -/
def AccountRegistry.Valid (reg : AccountRegistry) : Prop :=
  0 ≤ reg.count ∧ reg.count ≤ koeAccountMax

section Entries

variable {reg : AccountRegistry}

theorem AccountRegistry.Valid.length_entries (hvalid : reg.Valid) :
    (reg.entries.length : ℤ) = reg.count := by
  have hcount := hvalid.2
  have hpos := hvalid.1
  rw [AccountRegistry.entries, List.length_take, reg.accounts_length]
  omega

/-- Assumes: an index in range. -/
theorem AccountRegistry.Valid.getD_eq (hvalid : reg.Valid) {idx : ℤ} (hpos : 0 ≤ idx)
    (hlt : idx < reg.count) :
    reg.entries[idx.toNat]? = some (reg.accounts.getD idx.toNat AccountDescriptor.zero) := by
  have hcount := hvalid.2
  have hlength : idx.toNat < reg.accounts.length := by
    rw [reg.accounts_length]
    omega
  rw [AccountRegistry.entries, List.getElem?_take_of_lt (by omega), List.getD_eq_getElem?_getD,
    List.getElem?_eq_getElem hlength, Option.getD_some]

/-- A descriptor behind those that count is not seen. -/
theorem AccountRegistry.entries_set_count (reg : AccountRegistry) (desc : AccountDescriptor) :
    (reg.set reg.count.toNat desc).entries = reg.entries := by
  change (reg.accounts.set reg.count.toNat desc).take reg.count.toNat = _
  rw [List.take_set_of_le (Nat.le_refl _)]
  rfl

/-- Counting the descriptor behind those that count appends it. Assumes: a registry with room. -/
theorem AccountRegistry.entries_append (hvalid : reg.Valid) (hroom : reg.count < koeAccountMax)
    (desc : AccountDescriptor) :
    ({ reg.set reg.count.toNat desc with count := reg.count + 1 } : AccountRegistry).entries =
      reg.entries ++ [desc] := by
  have hpos := hvalid.1
  have hlength : reg.count.toNat < reg.accounts.length := by
    rw [reg.accounts_length]
    omega
  have hcount : (reg.count + 1).toNat = reg.count.toNat + 1 := by omega
  change (reg.accounts.set reg.count.toNat desc).take (reg.count + 1).toNat = _
  rw [hcount, List.take_add_one, List.take_set_of_le (Nat.le_refl _),
    List.getElem?_set_self hlength]
  rfl

theorem readDescriptors_frame (bytes : List UInt8) (left : ℕ) : ∀ (i : ℕ) (reg : AccountRegistry),
    (readDescriptors bytes left i reg).2.count = reg.count ∧
      (readDescriptors bytes left i reg).2.dataRoot = reg.dataRoot := by
  induction left with
  | zero => exact fun _ _ ↦ ⟨rfl, rfl⟩
  | succ left ih =>
    intro i reg
    rw [readDescriptors]
    split_ifs
    · exact ⟨rfl, rfl⟩
    · exact ih (i + 1) _

/-- Whatever the files hold, a load leaves a valid registry of the data root. -/
theorem koeAccountRegistryLoad_valid (files : Files) (dataRoot : List UInt8) :
    (koeAccountRegistryLoad files dataRoot).2.Valid ∧
      (koeAccountRegistryLoad files dataRoot).2.dataRoot = strncpy 511 dataRoot := by
  have hzero : (0 : ℤ) ≤ 0 ∧ (0 : ℤ) ≤ koeAccountMax := by decide
  unfold koeAccountRegistryLoad
  generalize strncpy 511 dataRoot = root
  generalize hempty : ({ AccountRegistry.zero with dataRoot := root } : AccountRegistry) = empty
  have hcount : empty.count = 0 := hempty ▸ rfl
  have hroot : empty.dataRoot = root := hempty ▸ rfl
  have hvalid : empty.Valid := by
    rw [AccountRegistry.Valid, hcount]
    exact hzero
  dsimp only
  split
  · exact ⟨hvalid, hroot⟩
  · rename_i bytes _
    obtain ⟨hframe, hkept⟩ := readDescriptors_frame bytes (readInt 4 7 bytes).toNat 0 empty
    generalize readInt 4 7 bytes = count at hframe hkept ⊢
    generalize readDescriptors bytes count.toNat 0 empty = read at hframe hkept ⊢
    rcases read with ⟨rc, ⟨accounts, number, root', haccounts⟩⟩
    split_ifs with hmagic hlength hrange hread
    · exact ⟨hvalid, hroot⟩
    · exact ⟨hvalid, hroot⟩
    · exact ⟨hvalid, hroot⟩
    · refine ⟨?_, hkept.trans hroot⟩
      rw [AccountRegistry.Valid, hframe]
      exact hvalid
    · rw [not_or, not_lt, not_lt] at hrange
      exact ⟨hrange, hkept.trans hroot⟩

theorem shiftEntries_dataRoot (left : ℕ) : ∀ (i : ℕ) (reg : AccountRegistry),
    (shiftEntries left i reg).dataRoot = reg.dataRoot := by
  induction left with
  | zero => exact fun _ _ ↦ rfl
  | succ left ih => exact fun i reg ↦ ih (i + 1) _

/-- Moving one descriptor down brings the gap one place on. Assumes: a place behind the gap. -/
theorem eraseIdx_set_succ {descs : List AccountDescriptor} {i : ℕ} (hi : i + 1 < descs.length)
    (m : ℕ) (hm : i + 1 < m) :
    ((descs.set i (descs.getD (i + 1) AccountDescriptor.zero)).take m).eraseIdx (i + 1) =
      (descs.take m).eraseIdx i := by
  have hnext : descs[i + 1]? = some (descs.getD (i + 1) AccountDescriptor.zero) := by
    rw [List.getD_eq_getElem?_getD, List.getElem?_eq_getElem hi, Option.getD_some]
  apply List.ext_getElem?
  intro j
  simp only [List.getElem?_eraseIdx, List.getElem?_take, List.getElem?_set]
  rcases Nat.lt_trichotomy j i with hlt | heq | hgt
  · rw [if_pos (Nat.lt_succ_of_lt hlt), if_pos hlt, if_neg (Nat.ne_of_gt hlt)]
  · subst heq
    rw [if_pos (Nat.lt_succ_self j), if_pos (Nat.lt_of_succ_lt hm), if_pos rfl,
      if_pos (Nat.lt_of_succ_lt hi), if_neg (Nat.lt_irrefl j), if_pos hm, hnext]
  · have hpast : ¬ j < i + 1 := by omega
    have hbehind : ¬ i = j + 1 := by omega
    rw [if_neg hpast, if_neg hbehind, if_neg (Nat.lt_asymm hgt)]

/-- The loop closes the gap at `i`. Assumes: places within the array. -/
theorem shiftEntries_take (left : ℕ) : ∀ (i : ℕ) (reg : AccountRegistry),
    i + left + 1 ≤ koeAccountMax →
      (shiftEntries left i reg).accounts.take (i + left) =
        (reg.accounts.take (i + left + 1)).eraseIdx i := by
  induction left with
  | zero =>
    intro i reg hroom
    have hlength : (reg.accounts.take i).length = i := by
      rw [List.length_take, reg.accounts_length]
      omega
    have hlt : i < reg.accounts.length := by
      rw [reg.accounts_length]
      omega
    change reg.accounts.take i = (reg.accounts.take (i + 1)).eraseIdx i
    rw [List.take_add_one, List.getElem?_eq_getElem hlt, Option.toList_some,
      List.eraseIdx_append_of_length_le (Nat.le_of_eq hlength), hlength, Nat.sub_self]
    exact (List.append_nil _).symm
  | succ left ih =>
    intro i reg hroom
    have hlt : i + 1 < reg.accounts.length := by
      rw [reg.accounts_length]
      omega
    have hrest := ih (i + 1) (reg.set i (reg.accounts.getD (i + 1) AccountDescriptor.zero))
      (by omega)
    rw [show i + (left + 1) = i + 1 + left by omega, shiftEntries, hrest]
    exact eraseIdx_set_succ hlt _ (by omega)

/-- What a deletion can do: refuse, when the index is out of range or the flag of the entry is set,
or take the entry out of the registry and save it. Assumes: a valid registry. -/
theorem koeAccountDelete_cases (hvalid : reg.Valid) (opens : Bool) (files : Files) (idx : ℤ) :
    ((idx < 0 ∨ idx ≥ reg.count ∨
          (reg.accounts.getD idx.toNat AccountDescriptor.zero).active ≠ 0) ∧
        koeAccountDelete opens files reg idx = (-1, reg, files)) ∨
      (0 ≤ idx ∧ idx < reg.count ∧
        (reg.accounts.getD idx.toNat AccountDescriptor.zero).active = 0 ∧
        ∃ after : AccountRegistry, after.entries = reg.entries.eraseIdx idx.toNat ∧
          after.count = reg.count - 1 ∧ after.dataRoot = reg.dataRoot ∧
          koeAccountDelete opens files reg idx =
            ((koeAccountRegistrySave opens files after).1, after,
              (koeAccountRegistrySave opens files after).2)) := by
  unfold koeAccountDelete
  by_cases hrange : idx < 0 ∨ idx ≥ reg.count
  · rw [if_pos hrange]
    exact Or.inl ⟨hrange.imp_right Or.inl, rfl⟩
  rw [if_neg hrange]
  by_cases hflag : (reg.accounts.getD idx.toNat AccountDescriptor.zero).active ≠ 0
  · rw [if_pos hflag]
    exact Or.inl ⟨Or.inr (Or.inr hflag), rfl⟩
  rw [if_neg hflag]
  have hcount := hvalid.2
  have hpos : 0 ≤ idx := by omega
  have hlt : idx < reg.count := by omega
  refine Or.inr ⟨hpos, hlt, not_not.mp hflag,
    { shiftEntries (reg.count - 1 - idx).toNat idx.toNat reg with count := reg.count - 1 }, ?_, rfl,
    shiftEntries_dataRoot _ _ _, rfl⟩
  have hshift := shiftEntries_take (reg.count - 1 - idx).toNat idx.toNat reg (by omega)
  have hafter : idx.toNat + (reg.count - 1 - idx).toNat = (reg.count - 1).toNat := by omega
  have hbefore : (reg.count - 1).toNat + 1 = reg.count.toNat := by omega
  rw [hafter, hbefore] at hshift
  exact hshift

/-- What a change of name can do: refuse an index out of range, or change the name of the entry and
save the registry. Assumes: a valid registry. -/
theorem koeAccountRename_cases (hvalid : reg.Valid) (opens : Bool) (files : Files) (idx : ℤ)
    (newName : List UInt8) :
    koeAccountRename opens files reg idx newName = (-1, reg, files) ∨
      ∃ (desc : AccountDescriptor) (after : AccountRegistry), desc ∈ reg.entries ∧
        after.entries = reg.entries.set idx.toNat
          { desc with displayName := overwriteName desc.displayName newName } ∧
        after.count = reg.count ∧ after.dataRoot = reg.dataRoot ∧
        koeAccountRename opens files reg idx newName =
          ((koeAccountRegistrySave opens files after).1, after,
            (koeAccountRegistrySave opens files after).2) := by
  unfold koeAccountRename
  by_cases hrange : idx < 0 ∨ idx ≥ reg.count
  · rw [if_pos hrange]
    exact Or.inl rfl
  rw [if_neg hrange]
  have hpos : 0 ≤ idx := by omega
  have hentry := hvalid.getD_eq hpos (by omega)
  let desc := reg.accounts.getD idx.toNat AccountDescriptor.zero
  let renamed := { desc with displayName := overwriteName desc.displayName newName }
  refine Or.inr ⟨desc, reg.set idx.toNat renamed, List.mem_of_getElem? hentry, ?_, rfl, rfl, rfl⟩
  exact List.take_set

variable (S : Sodium) (pwhash : Pwhash)

/-- What a creation can do to the registry: fail, with at most the descriptor behind those that
count changed, or append the new account and save the registry last. Assumes: a valid registry. -/
theorem koeAccountCreate_entries (hvalid : reg.Valid) (env : CreateEnv) (files : Files)
    (out : Account) (displayName passphrase : List UInt8) :
    let created := koeAccountCreate S pwhash env files out reg displayName passphrase
    created.registry.dataRoot = reg.dataRoot ∧
      ((created.rc = -1 ∧ created.files = files ∧ created.registry.entries = reg.entries ∧
          created.registry.count = reg.count) ∨
        (created.rc = 0 ∧ reg.count < koeAccountMax ∧
          created.registry.entries =
            reg.entries ++ [createdDescriptor env created.account.desc.id displayName] ∧
          created.registry.count = reg.count + 1 ∧
          ∃ written, created.files =
            (koeAccountRegistrySave env.registryOpens written created.registry).2)) := by
  intro created
  simp only [created, koeAccountCreate]
  by_cases hfull : reg.count ≥ koeAccountMax
  · rw [if_pos hfull]
    exact ⟨rfl, Or.inl ⟨rfl, rfl, rfl, rfl⟩⟩
  rw [if_neg hfull]
  split_ifs with hgenerated hsaved
  · exact ⟨rfl, Or.inl ⟨rfl, rfl, rfl, rfl⟩⟩
  · refine ⟨rfl, Or.inl ⟨rfl, ?_, reg.entries_set_count _, rfl⟩⟩
    exact koeIdentitySave_files hsaved
  · exact ⟨rfl, Or.inr ⟨rfl, by omega, AccountRegistry.entries_append hvalid (by omega) _, rfl, _,
      rfl⟩⟩

end Entries

end KoeCore
