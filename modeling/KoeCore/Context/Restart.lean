import KoeCore.Account.Mirror
import KoeCore.Account.Passphrase
import KoeCore.Context.Rotation

/-!
# Restarts

A program calls `koe_init`, runs, and is started again with the same configuration: what the next
`koe_init` finds is what the first one left in the files. `filesAfterInit` are these files; only the
creation of an account writes any of those that `koe_init` reads again.

`Installed` are files with one account in the registry and its keys in the identity file. The first
start on an empty data root installs its account, if the registry file can be opened
(`installed_of_koeInit`), and a start on installed files loads these keys and changes nothing
(`Installed.start`). `koeInit_restarts` draws the conclusion for any number of starts.

Whether the registry was written is not looked at. When it was not, the first start succeeds all the
same, and the next one finds no account and makes a new one.
-/

set_option autoImplicit false
set_option relaxedAutoImplicit false

namespace KoeCore

open ByteWire

section Starts

variable (S : Sodium) (pwhash : Pwhash)

/-- The files after `koe_init`. -/
def filesAfterInit (env : InitEnv) (cfg : Config) : Files :=
  if !env.sodiumInit then env.files
  else
    let loaded := koeAccountRegistryLoad env.files cfg.dataRoot
    if loaded.1 ≠ 0 then env.files
    else if loaded.2.count = 0 then
      (koeAccountCreate S pwhash env.create env.files Account.zero loaded.2 (ascii "me")
        cfg.passphrase).files
    else env.files

/-- The environment of a start that finds the given files. -/
def InitEnv.on (env : InitEnv) (files : Files) : InitEnv := { env with files := files }

/-- One start after the other, each in a process of its own: the return codes and the keys of the
active account. -/
def starts (cfg : Config) : Files → List InitEnv → List (ℤ × Identity)
  | _, [] => []
  | files, env :: envs =>
    let started := koeInit S pwhash (env.on files) cfg ⟨[], []⟩
    (started.1, started.2.ctx.account.keys) ::
      starts cfg (filesAfterInit S pwhash (env.on files) cfg) envs

end Starts

/-- The libraries start, and the database opens. -/
def InitEnv.Works (env : InitEnv) : Prop := env.sodiumInit = true ∧ env.stored.isSome = true

/-- The path that `koe_account_create` writes the keys to. -/
def firstIdentityPath (dataRoot : List UInt8) (pk : Block 32) : List UInt8 :=
  pathBuf (strncpy 511 dataRoot ++ ascii "/accounts/" ++ koeIdentityShortId pk ++
    ascii "/identity.koe")

/-- The registry has one account, and its identity file holds the keys under the passphrase. -/
structure Installed (S : Sodium) (pwhash : Pwhash) (cfg : Config) (keys : Identity)
    (files : Files) : Prop where
  registry : ∃ desc : AccountDescriptor, desc.Sound ∧
    cString desc.dataSubdir = koeIdentityShortId keys.pk ∧
    files (registryFile cfg.dataRoot) = some (registryBytes [desc])
  identity : ∃ (salt : Block 16) (nonce : Block 24) (encKey : Block 32) (ct : List UInt8),
    pwhash cfg.passphrase salt = some encKey ∧
    koeEncrypt S (keys.pk.toList ++ keys.sk.toList) nonce encKey = some ct ∧
    files (firstIdentityPath cfg.dataRoot keys.pk) =
      some (identityMagic ++ salt.toList ++ nonce.toList ++ ct)

section Installed

variable {S : Sodium} {pwhash : Pwhash} {cfg : Config} {keys : Identity} {files : Files}

/-- With a data root that leaves room for their names the two paths differ. Assumes: a data root
short enough. -/
theorem registryFile_ne_firstIdentityPath {dataRoot : List UInt8}
    (hroot : (strncpy 511 dataRoot).length < 502) (pk : Block 32) :
    firstIdentityPath dataRoot pk ≠ registryFile dataRoot := by
  intro heq
  have hbehind (tail : List UInt8) :
      (pathBuf (strncpy 511 dataRoot ++ tail))[(strncpy 511 dataRoot).length + 9]? = tail[9]? := by
    rw [pathBuf, List.getElem?_take_of_lt (by omega), List.getElem?_append_right (by omega),
      Nat.add_sub_cancel_left]
  -- Behind the data root and `/accounts` one has a slash and the other a point.
  have hbyte := congrArg (fun path : List UInt8 ↦ path[(strncpy 511 dataRoot).length + 9]?) heq
  simp only [firstIdentityPath, registryFile, List.append_assoc, hbehind] at hbyte
  have hslash : (ascii "/accounts/" ++ (koeIdentityShortId pk ++ ascii "/identity.koe"))[9]? =
      some 0x2f := rfl
  have hpoint : (ascii "/accounts.koe")[9]? = some 0x2e := rfl
  rw [hslash, hpoint] at hbyte
  exact absurd hbyte (by decide)

/-- A start on installed files loads the keys and leaves the files alone. Assumes: a correct AEAD,
installed files, libraries that start and a database that opens. -/
theorem Installed.start (haead : S.Aead) (hinstalled : Installed S pwhash cfg keys files)
    (hsqlite : cfg.sqlite = true) {env : InitEnv} (hworks : env.Works) :
    (koeInit S pwhash (env.on files) cfg ⟨[], []⟩).1 = 0 ∧
      (koeInit S pwhash (env.on files) cfg ⟨[], []⟩).2.ctx.account.keys = keys ∧
      filesAfterInit S pwhash (env.on files) cfg = files := by
  obtain ⟨desc, hsound, hsubdir, hregistry⟩ := hinstalled.registry
  obtain ⟨salt, nonce, encKey, ct, hkey, hct, hidentity⟩ := hinstalled.identity
  obtain ⟨hsodium, hstored⟩ := hworks
  obtain ⟨reg, hload, hcount, hentries⟩ := koeAccountRegistryLoad_bytes
    (fun other hother ↦ List.mem_singleton.mp hother ▸ hsound)
    (show 1 ≤ koeAccountMax by decide) hregistry
  obtain ⟨hvalid, hdataRoot⟩ := koeAccountRegistryLoad_valid files cfg.dataRoot
  rw [hload] at hvalid hdataRoot
  have hone : reg.count = 1 := hcount
  have hentry : reg.accounts.getD (0 : ℤ).toNat AccountDescriptor.zero = desc.inactive := by
    have hget := hvalid.getD_eq (le_refl 0) (by rw [hone]; decide)
    rw [hentries] at hget
    exact (Option.some.inj hget).symm
  have hpath : pathBuf (accountDir reg.dataRoot desc.inactive ++ ascii "/identity.koe") =
      firstIdentityPath cfg.dataRoot keys.pk := by
    have hinactive : cString desc.inactive.dataSubdir = koeIdentityShortId keys.pk := hsubdir
    rw [hdataRoot, accountDir, hinactive, firstIdentityPath]
  have hactivate : koeAccountActivate S pwhash files Account.zero reg 0 cfg.passphrase =
      (0, ⟨{ desc.inactive with active := 1 }, keys, strncpy 255 cfg.passphrase⟩) := by
    have hindex : ¬ ((0 : ℤ) < 0 ∨ (0 : ℤ) ≥ reg.count) := by omega
    have hkeys := koeIdentityLoad_sealed S pwhash haead hidentity hkey hct Account.zero.keys
    simp only [koeAccountActivate, if_neg hindex, hentry, hpath, hkeys]
    rfl
  have hfirst : firstAccount S pwhash (env.on files) cfg reg =
      (0, ⟨{ desc.inactive with active := 1 }, keys, strncpy 255 cfg.passphrase⟩, reg) := by
    have hnot : ¬ reg.count = 0 := by omega
    simp only [firstAccount, if_neg hnot, InitEnv.on, hactivate]
  obtain ⟨⟨queue, contacts⟩, htables⟩ := Option.isSome_iff_exists.mp hstored
  have hinit : (koeInit S pwhash (env.on files) cfg ⟨[], []⟩).1 = 0 ∧
      (koeInit S pwhash (env.on files) cfg ⟨[], []⟩).2.ctx.account.keys = keys := by
    simp [koeInit, InitEnv.on, hsodium, hload, koeDbOpen, htables, hsqlite] at hfirst ⊢
    simp [hfirst]
  refine ⟨hinit.1, hinit.2, ?_⟩
  have hnot : ¬ reg.count = 0 := by omega
  simp [filesAfterInit, InitEnv.on, hsodium, hload, hnot]

/-- Assumes: the return code `0`. -/
theorem koeInit_started {env : InitEnv} {conns : Connections}
    (hstart : (koeInit S pwhash env cfg conns).1 = 0) :
    env.sodiumInit = true ∧ (koeAccountRegistryLoad env.files cfg.dataRoot).1 = 0 ∧
      (firstAccount S pwhash env cfg (koeAccountRegistryLoad env.files cfg.dataRoot).2).1 = 0 ∧
      (koeInit S pwhash env cfg conns).2.ctx.account =
        (firstAccount S pwhash env cfg (koeAccountRegistryLoad env.files cfg.dataRoot).2).2.1 := by
  have hfailed : ¬ (-1 : ℤ) = 0 := by decide
  unfold koeInit at hstart ⊢
  dsimp only at hstart ⊢
  split_ifs at hstart ⊢ with hsodium hload hfirst hopened
  · exact absurd hstart hfailed
  · exact absurd hstart hfailed
  · exact absurd hstart hfailed
  · exact absurd hstart hfailed
  · exact ⟨by simpa using hsodium, not_not.mp hload, not_not.mp hfirst, rfl⟩

/-- What a first start has done. Assumes: no registry file, and the return code `0`. -/
theorem koeInit_created {env : InitEnv} (hnone : files (registryFile cfg.dataRoot) = none)
    (hstart : (koeInit S pwhash (env.on files) cfg ⟨[], []⟩).1 = 0) :
    ∃ reg, reg.count = 0 ∧ reg.dataRoot = strncpy 511 cfg.dataRoot ∧
      let created := koeAccountCreate S pwhash env.create files Account.zero reg (ascii "me")
        cfg.passphrase
      created.rc = 0 ∧ filesAfterInit S pwhash (env.on files) cfg = created.files ∧
        (koeInit S pwhash (env.on files) cfg ⟨[], []⟩).2.ctx.account = created.account := by
  obtain ⟨hsodium, -, hfirst, haccount⟩ := koeInit_started hstart
  obtain ⟨reg, hload, hcount, -⟩ := koeAccountRegistryLoad_none hnone
  have hdataRoot := (koeAccountRegistryLoad_valid files cfg.dataRoot).2
  have hloadOn : koeAccountRegistryLoad (env.on files).files cfg.dataRoot = (0, reg) := hload
  rw [hload] at hdataRoot
  rw [hloadOn] at hfirst haccount
  simp only [firstAccount, if_pos hcount] at hfirst haccount
  refine ⟨reg, hcount, hdataRoot, hfirst, ?_, haccount⟩
  have hguard : ¬ (!(env.on files).sodiumInit) = true := by simpa using hsodium
  simp only [filesAfterInit, if_neg hguard, hloadOn, ne_eq, not_true_eq_false, if_false,
    if_pos hcount]
  rfl

/-- Where the keys of a new account go. Assumes: a registry below the data root. -/
theorem createdIdentityPath {reg : AccountRegistry} {dataRoot : List UInt8}
    (hdataRoot : reg.dataRoot = strncpy 511 dataRoot) (env : CreateEnv) (pk : Block 32)
    (displayName : List UInt8) :
    pathBuf (pathBuf (accountDir reg.dataRoot (createdDescriptor env pk displayName)) ++
      ascii "/identity.koe") = firstIdentityPath dataRoot pk := by
  rw [pathBuf_append, accountDir, cString_dataSubdir env pk displayName, hdataRoot,
    firstIdentityPath]

/-- The first start installs the account that it makes. Assumes: no registry file, a data root short
enough, clock readings that fit, a registry file that can be opened, and the return code `0`. -/
theorem installed_of_koeInit {env : InitEnv} (hnone : files (registryFile cfg.dataRoot) = none)
    (hroot : (strncpy 511 cfg.dataRoot).length < 502)
    (hcreatedAt : FitsTime env.create.createdAt) (hlastActive : FitsTime env.create.lastActiveAt)
    (hopens : env.create.registryOpens = true)
    (hstart : (koeInit S pwhash (env.on files) cfg ⟨[], []⟩).1 = 0) :
    Installed S pwhash cfg (koeInit S pwhash (env.on files) cfg ⟨[], []⟩).2.ctx.account.keys
      (filesAfterInit S pwhash (env.on files) cfg) := by
  obtain ⟨reg, hcount, hdataRoot, hrc, hfiles, haccount⟩ := koeInit_created hnone hstart
  obtain ⟨keys, -, hroom, hsaved, hcreated⟩ := exists_created_of_koeAccountCreate hrc
  obtain ⟨encKey, ct, hkey, hct, hwritten⟩ := exists_sealed_of_koeIdentitySave hsaved
  rw [hfiles, haccount, hcreated]
  have hsubdir := cString_dataSubdir env.create keys.pk (ascii "me")
  have hidentityPath := createdIdentityPath hdataRoot env.create keys.pk (ascii "me")
  have hregistryPath : registryPath { reg.set reg.count.toNat
      (createdDescriptor env.create keys.pk (ascii "me")) with count := reg.count + 1 } =
      registryFile cfg.dataRoot := by
    change pathBuf (reg.dataRoot ++ ascii "/accounts.koe") = _
    rw [hdataRoot]
    rfl
  have hne := registryFile_ne_firstIdentityPath hroot keys.pk
  rw [hidentityPath] at hwritten
  constructor
  · refine ⟨createdDescriptor env.create keys.pk (ascii "me"),
      createdDescriptor_sound hcreatedAt hlastActive keys.pk (ascii "me"), hsubdir, ?_⟩
    simp only [koeAccountRegistrySave, hopens, Bool.not_true, Bool.false_eq_true, if_false]
    rw [hregistryPath, Function.update_self]
    have hpositions : 0 < reg.accounts.length := by
      rw [reg.accounts_length]
      decide
    have htake : (reg.accounts.set 0 (createdDescriptor env.create keys.pk (ascii "me"))).take 1 =
        [createdDescriptor env.create keys.pk (ascii "me")] := by
      rw [List.take_add_one, List.take_zero, List.getElem?_set_self hpositions]
      rfl
    simp only [hcount]
    change some (_ ++ ((reg.accounts.set 0 _).take 1).flatMap AccountDescriptor.bytes) = _
    rw [htake]
    rfl
  · refine ⟨env.create.save.salt, env.create.save.nonce, encKey, ct, hkey, hct, ?_⟩
    simp only [koeAccountRegistrySave, hopens, Bool.not_true, Bool.false_eq_true, if_false]
    rw [hregistryPath, Function.update_of_ne hne, hidentityPath, hwritten, Function.update_self]

/-- Starts on installed files. -/
theorem Installed.starts (haead : S.Aead) (hsqlite : cfg.sqlite = true) (envs : List InitEnv) :
    ∀ {files : Files}, Installed S pwhash cfg keys files → (∀ env ∈ envs, env.Works) →
      ∀ started ∈ starts S pwhash cfg files envs, started = (0, keys) := by
  induction envs with
  | nil =>
    intro files _ _ started hstarted
    exact absurd hstarted List.not_mem_nil
  | cons env envs ih =>
    intro files hinstalled hworks started hstarted
    obtain ⟨hrc, hkeys, hfiles⟩ := hinstalled.start haead hsqlite (hworks env List.mem_cons_self)
    rcases List.mem_cons.mp hstarted with rfl | hlater
    · rw [hrc, hkeys]
    · rw [hfiles] at hlater
      exact ih hinstalled (fun later hmem ↦ hworks later (List.mem_cons_of_mem _ hmem)) started
        hlater

end Installed

/-- A start that would draw the keys of party 2. -/
def otherInit : InitEnv :=
  { freshInit with
    create := { freshInit.create with drawn := some (Sodium.transparentIdentity 2) } }

end KoeCore
