import KoeCore.Account.Registry
import KoeCore.Identity.ShortId
import KoeCore.Identity.Tamper

/-!
# Changing the passphrase of an account

Three functions of `koe_account.c` build the path of an account's identity file, each on its own.
`koe_account_create` and `koe_account_activate` start at the data root and agree, also where the
buffer cuts the path off (`pathBuf_append`). `koe_account_change_passphrase` starts at the
subdirectory, so its path has 28 bytes and theirs has at least 38 (`identityPath_ne_changedPath`).

A change of the passphrase therefore never touches the file that an activation reads
(`koeAccountChangePassphrase_files`), and `koeAccountChangePassphrase_takesEffect_false` follows for
every data root: afterwards the account is activated with the passphrase from before or with none.
-/

set_option autoImplicit false
set_option relaxedAutoImplicit false

namespace KoeCore

open ByteWire

/-! ### The two paths -/

/-- The path that `koe_account_activate` reads. -/
def identityPath (dataRoot : List UInt8) (desc : AccountDescriptor) : List UInt8 :=
  pathBuf (accountDir dataRoot desc ++ ascii "/identity.koe")

/-- The path that `koe_account_change_passphrase` reads and writes. -/
def changedPath (desc : AccountDescriptor) : List UInt8 :=
  pathBuf (cString desc.dataSubdir ++ ascii "/identity.koe")

/-- Printing in two steps cuts off the same as printing in one. -/
theorem pathBuf_append (front back : List UInt8) :
    pathBuf (pathBuf front ++ back) = pathBuf (front ++ back) := by
  rw [pathBuf, pathBuf, pathBuf, List.take_append, List.take_append, List.take_take,
    Nat.min_self, List.length_take]
  by_cases hshort : front.length ≤ 511
  · rw [Nat.min_eq_right hshort]
  · rw [Nat.min_eq_left (by omega)]
    have hnone : 511 - front.length = 0 := by omega
    rw [hnone]

/-- The name of the subdirectory is the short id. -/
theorem cString_dataSubdir (env : CreateEnv) (pk : Block 32) (displayName : List UInt8) :
    cString (createdDescriptor env pk displayName).dataSubdir = koeIdentityShortId pk := by
  have hlength := length_koeIdentityShortId pk
  have harray : (createdDescriptor env pk displayName).dataSubdir.toList =
      koeIdentityShortId pk ++ List.replicate 241 0 := by
    have hcopied : strncpy 255 (koeIdentityShortId pk) = koeIdentityShortId pk :=
      List.take_of_length_le (by omega)
    change (strncpy 255 (koeIdentityShortId pk)).take 256 ++
      List.replicate (256 - (strncpy 255 (koeIdentityShortId pk)).length) 0 = _
    rw [hcopied, List.take_of_length_le (by omega), hlength]
  have hnonzero : ∀ char ∈ koeIdentityShortId pk, decide (char ≠ 0) = true := by
    intro char hchar
    refine decide_eq_true fun hzero ↦ ?_
    have hmem := mem_b58Alpha_of_mem_shortId pk char hchar
    rw [hzero] at hmem
    exact absurd hmem (by decide)
  rw [cString, harray, List.takeWhile_append_of_pos hnonzero]
  exact List.append_nil _

/-- The two paths differ for every data root. -/
theorem identityPath_ne_changedPath (dataRoot : List UInt8) (env : CreateEnv) (pk : Block 32)
    (displayName : List UInt8) :
    identityPath dataRoot (createdDescriptor env pk displayName) ≠
      changedPath (createdDescriptor env pk displayName) := by
  intro heq
  have hlength := congrArg List.length heq
  have hsubdir := congrArg List.length (cString_dataSubdir env pk displayName)
  have hdir : (ascii "/accounts/").length = 10 := rfl
  have hfile : (ascii "/identity.koe").length = 13 := rfl
  rw [length_koeIdentityShortId] at hsubdir
  simp only [identityPath, changedPath, pathBuf, accountDir, List.length_take, List.length_append,
    hsubdir, hdir, hfile] at hlength
  omega

/-! ### What an activation reads -/

section Change

variable {S : Sodium} {pwhash : Pwhash} {env : CreateEnv} {files : Files} {out : Account}
  {reg : AccountRegistry} {displayName passphrase : List UInt8}

/-- A change of the passphrase writes to its own path only. -/
theorem koeAccountChangePassphrase_files (saveEnv : SaveEnv) (later : Files) (account : Account)
    (check : Identity) (old new : List UInt8) {path : List UInt8}
    (hpath : path ≠ changedPath account.desc) :
    (koeAccountChangePassphrase S pwhash saveEnv later account check old new).2.2 path =
      later path := by
  have hsaved : (koeIdentitySave S pwhash saveEnv later account.keys (changedPath account.desc)
      new).2 path = later path := by
    by_cases hrc : (koeIdentitySave S pwhash saveEnv later account.keys (changedPath account.desc)
        new).1 = 0
    · obtain ⟨encKey, ct, -, -, hfiles⟩ := exists_sealed_of_koeIdentitySave hrc
      rw [hfiles, Function.update_of_ne hpath]
    · rw [koeIdentitySave_files hrc]
  unfold koeAccountChangePassphrase
  dsimp only
  split_ifs with hactive hload hfails
  · rfl
  · rfl
  · exact hsaved
  · exact hsaved

/-- An entry is activated exactly when its identity file loads. Assumes: an index in range. -/
theorem koeAccountActivate_eq_zero_iff {idx : ℤ} (hlow : 0 ≤ idx) (hhigh : idx < reg.count)
    (later : Files) (into : Account) (other : List UInt8) :
    (koeAccountActivate S pwhash later into reg idx other).1 = 0 ↔
      (koeIdentityLoad S pwhash later into.keys (identityPath reg.dataRoot
        (reg.accounts.getD idx.toNat AccountDescriptor.zero)) other).1 = 0 := by
  have hne : ¬ (-1 : ℤ) = 0 := by decide
  unfold koeAccountActivate identityPath
  rw [if_neg (by omega)]
  dsimp only
  split_ifs with hload
  · exact iff_of_false hne hload
  · exact iff_of_true rfl (not_not.mp hload)

/-- The entry of a created account is activated exactly when its identity file loads. Assumes: a
valid registry, and a creation that returned 0. -/
theorem koeAccountActivate_created_iff (hvalid : reg.Valid)
    (hcreated : (koeAccountCreate S pwhash env files out reg displayName passphrase).rc = 0)
    (later : Files) (into : Account) (other : List UInt8) :
    let created := koeAccountCreate S pwhash env files out reg displayName passphrase
    (koeAccountActivate S pwhash later into created.registry reg.count other).1 = 0 ↔
      (koeIdentityLoad S pwhash later into.keys
        (identityPath reg.dataRoot created.account.desc) other).1 = 0 := by
  intro created
  obtain ⟨keys, -, hroom, -, hcase⟩ := exists_created_of_koeAccountCreate hcreated
  have hlow := hvalid.1
  have hindex : reg.count.toNat < reg.accounts.length := by
    rw [reg.accounts_length]
    omega
  have hcreate : created = _ := hcase
  have hcount : created.registry.count = reg.count + 1 := by rw [hcreate]
  have hroot : created.registry.dataRoot = reg.dataRoot := by
    rw [hcreate]
    rfl
  have hentry : created.registry.accounts.getD reg.count.toNat AccountDescriptor.zero =
      created.account.desc := by
    rw [hcreate]
    change (reg.accounts.set reg.count.toNat _).getD reg.count.toNat _ = _
    rw [List.getD_eq_getElem?_getD, List.getElem?_set_self hindex, Option.getD_some]
  rw [koeAccountActivate_eq_zero_iff hlow (by omega), hroot, hentry]

/-- Saving the registry leaves a file alone or turns it into the registry. -/
theorem koeAccountRegistrySave_contents (opens : Bool) (files : Files) (reg : AccountRegistry)
    (path : List UInt8) :
    (koeAccountRegistrySave opens files reg).2 path = files path ∨
      ∃ rest, (koeAccountRegistrySave opens files reg).2 path = some (registryMagic ++ rest) := by
  unfold koeAccountRegistrySave
  rcases opens with _ | _
  · exact Or.inl rfl
  · by_cases hpath : path = registryPath reg
    · rw [hpath]
      exact Or.inr ⟨_, (Function.update_self _ _ _).trans (by rw [List.append_assoc])⟩
    · exact Or.inl (Function.update_of_ne hpath _ _)

/-- What a creation leaves in the identity file: the keys, under the passphrase, or the registry if
that has the same path. Assumes: a creation that returned 0. -/
theorem koeAccountCreate_contents
    (hcreated : (koeAccountCreate S pwhash env files out reg displayName passphrase).rc = 0) :
    let created := koeAccountCreate S pwhash env files out reg displayName passphrase
    let path := identityPath reg.dataRoot created.account.desc
    (∃ rest, created.files path = some (registryMagic ++ rest)) ∨
      ∃ encKey ct, pwhash passphrase env.save.salt = some encKey ∧
        koeEncrypt S (created.account.keys.pk.toList ++ created.account.keys.sk.toList)
          env.save.nonce encKey = some ct ∧
        created.files path = some (identityMagic ++ env.save.salt.toList ++
          env.save.nonce.toList ++ ct) := by
  intro created path
  obtain ⟨keys, -, -, hsaved, hcase⟩ := exists_created_of_koeAccountCreate hcreated
  simp only [pathBuf_append] at hsaved hcase
  obtain ⟨encKey, ct, hkey, hct, hfiles⟩ := exists_sealed_of_koeIdentitySave hsaved
  have hcreate : created = _ := hcase
  have hdesc : created.account.desc = createdDescriptor env keys.pk displayName := by rw [hcreate]
  have hkeys : created.account.keys = keys := by rw [hcreate]
  have hpath : path = identityPath reg.dataRoot (createdDescriptor env keys.pk displayName) :=
    congrArg (identityPath reg.dataRoot) hdesc
  have hread : created.files path = _ := congrArg (fun made ↦ made.files path) hcreate
  rw [hread, hkeys]
  rcases koeAccountRegistrySave_contents env.registryOpens _ _ path with hkept | hregistry
  · refine Or.inr ⟨encKey, ct, hkey, hct, hkept.trans ?_⟩
    rw [hfiles, hpath]
    exact Function.update_self _ _ _
  · exact Or.inl hregistry

variable (S pwhash) in
/-- A change of the passphrase takes effect: with the old passphrase it returns 0, and afterwards
the entry is activated with the new one, with the keys of the account, and no more with the old one;
with a wrong passphrase it returns -1, and the entry can still be activated. -/
def ChangeTakesEffect (saveEnv : SaveEnv) (files : Files) (account : Account) (check : Identity)
    (into : Account) (reg : AccountRegistry) (idx : ℤ) (old new : List UInt8) : Prop :=
  let changed := koeAccountChangePassphrase S pwhash saveEnv files account check old new
  (changed.1 = 0 ∧
    (koeAccountActivate S pwhash changed.2.2 into reg idx new).1 = 0 ∧
    (koeAccountActivate S pwhash changed.2.2 into reg idx new).2.keys = account.keys ∧
    (koeAccountActivate S pwhash changed.2.2 into reg idx old).1 = -1) ∧
  ∀ wrong, wrong ≠ old →
    let refused := koeAccountChangePassphrase S pwhash saveEnv files account check wrong new
    refused.1 = -1 ∧ (koeAccountActivate S pwhash refused.2.2 into reg idx old).1 = 0

/-- A change of the passphrase takes effect for no account, whatever the data root and the
passphrases are: the file that an activation reads stays as it was. Assumes: a correct AEAD, a valid
registry, a creation that returned 0, an identity file that is still as the creation left it, and an
account with the subdirectory of the created one. -/
theorem koeAccountChangePassphrase_takesEffect_false (haead : S.Aead) (hvalid : reg.Valid)
    (hcreated : (koeAccountCreate S pwhash env files out reg displayName passphrase).rc = 0)
    (saveEnv : SaveEnv) {later : Files} {account : Account} (check : Identity) (into : Account)
    (new : List UInt8) :
    let created := koeAccountCreate S pwhash env files out reg displayName passphrase
    let path := identityPath reg.dataRoot created.account.desc
    later path = created.files path → account.desc.dataSubdir = created.account.desc.dataSubdir →
      ¬ ChangeTakesEffect S pwhash saveEnv later account check into created.registry reg.count
        passphrase new := by
  intro created path hlater hsubdir htakes
  obtain ⟨⟨-, hnew, -, hold⟩, -⟩ := htakes
  have hother : path ≠ changedPath account.desc := by
    obtain ⟨keys, -, -, -, hcase⟩ := exists_created_of_koeAccountCreate hcreated
    have hcreate : created = _ := hcase
    have hdesc : created.account.desc = createdDescriptor env keys.pk displayName := by rw [hcreate]
    rw [changedPath, hsubdir, ← changedPath, hdesc]
    exact hdesc ▸ identityPath_ne_changedPath reg.dataRoot env keys.pk displayName
  have hkept : (koeAccountChangePassphrase S pwhash saveEnv later account check passphrase
      new).2.2 path = created.files path := by
    rw [koeAccountChangePassphrase_files saveEnv later account check passphrase new hother, hlater]
  rcases koeAccountCreate_contents hcreated with
    ⟨rest, hregistry⟩ | ⟨encKey, ct, hkey, hct, hsealed⟩
  · -- The registry has taken the place of the identity file, and no passphrase loads it.
    have hload := (koeAccountActivate_created_iff hvalid hcreated _ into new).mp hnew
    obtain ⟨salt, nonce, found, tail, key, hfile, -⟩ := exists_layout_of_koeIdentityLoad hload
    have hbytes := Option.some.inj ((hkept.trans hregistry).symm.trans hfile)
    have hmagic : registryMagic.take 5 = identityMagic := congrArg (List.take 5) hbytes
    exact absurd hmagic (by decide)
  · have hload : koeIdentityLoad S pwhash _ into.keys path passphrase =
        (0, created.account.keys) :=
      koeIdentityLoad_sealed S pwhash haead (hkept.trans hsealed) hkey hct into.keys
    have hactivates := (koeAccountActivate_created_iff hvalid hcreated _ into passphrase).mpr
      (congrArg Prod.fst hload)
    exact absurd (hold.symm.trans hactivates) (by decide)

end Change

/-! ### An account under `/data` -/

/-- An empty registry under `/data`. -/
def dataRegistry : AccountRegistry := { AccountRegistry.zero with dataRoot := ascii "/data" }

/-- The account that is created there under a passphrase of 16 bytes. -/
def dataAccount : Created :=
  koeAccountCreate Sodium.transparent sixteenPwhash plainCreate (fun _ ↦ none) Account.zero
    dataRegistry (ascii "me") sixteenBytes

/-- Changing its passphrase does not take effect. -/
theorem dataAccount_takesEffect_false :
    ¬ ChangeTakesEffect Sodium.transparent sixteenPwhash ⟨Block.zero 16, Block.zero 24, true⟩
      dataAccount.files dataAccount.account Identity.erased Account.zero dataAccount.registry 0
      sixteenBytes (List.replicate 16 0x71) := by
  have hvalid : dataRegistry.Valid := by
    change (0 : ℤ) ≤ 0 ∧ (0 : ℤ) ≤ koeAccountMax
    decide
  have hcreated : dataAccount.rc = 0 := rfl
  exact koeAccountChangePassphrase_takesEffect_false Sodium.transparent_aead hvalid hcreated _ _ _ _
    rfl rfl

/-- The passphrase that the account was created under is refused. -/
theorem dataAccount_refuses_passphrase :
    dataAccount.rc = 0 ∧ dataAccount.account.desc.active = 1 ∧
      (koeAccountChangePassphrase Sodium.transparent sixteenPwhash
        ⟨Block.zero 16, Block.zero 24, true⟩ dataAccount.files dataAccount.account Identity.erased
        sixteenBytes (List.replicate 16 0x71)).1 = -1 := by
  decide +kernel

end KoeCore
