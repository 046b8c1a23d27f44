import KoeCore.Account.Registry
import KoeCore.Library.Runs

/-!
# The accounts of a device

The calls of `koe_account.c` as a machine: one data root, the registry, one variable for the account
in use, and the files. `Device.loaded` notes which account is in use: a creation or an activation
that succeeds loads one, and a deactivation unloads it.

The flag that `koe_account_delete` looks at is the one in the registry. A creation sets it, a load
of the registry clears it, and neither an activation nor a deactivation touches it, so the flag does
not say which account is in use. `Device.step_cases` says what a call can do to the registry, for
this and for what lies on disk; `koeAccountDelete_inactive_iff` is the exact relation: deletions
spare the account in use and remove every other exactly where the flag of the entry agrees with
what is loaded.
-/

set_option autoImplicit false
set_option relaxedAutoImplicit false

namespace KoeCore

open ByteWire

/-- A device, with the identifier of the account in use, if there is one. -/
structure Device where
  dataRoot : List UInt8
  reg : AccountRegistry
  account : Account
  loaded : Option (Block 32)
  files : Files

/-- A device whose registry was just loaded. -/
def Device.start (files : Files) (dataRoot : List UInt8) : Device where
  dataRoot := dataRoot
  reg := (koeAccountRegistryLoad files dataRoot).2
  account := Account.zero
  loaded := none
  files := files

inductive DeviceCall
  | load
  | create (env : CreateEnv) (displayName passphrase : List UInt8)
  | activate (idx : ℤ) (passphrase : List UInt8)
  | deactivate
  | rename (opens : Bool) (idx : ℤ) (newName : List UInt8)
  | delete (opens : Bool) (idx : ℤ)

section Device

variable (S : Sodium) (pwhash : Pwhash)

/-- The device after a call. A call that fails loads and unloads nothing. -/
def Device.step (dev : Device) : DeviceCall → Device
  | .load => { dev with reg := (koeAccountRegistryLoad dev.files dev.dataRoot).2 }
  | .create env displayName passphrase =>
    let created :=
      koeAccountCreate S pwhash env dev.files dev.account dev.reg displayName passphrase
    { dev with
      reg := created.registry
      account := created.account
      loaded := if created.rc = 0 then some created.account.desc.id else dev.loaded
      files := created.files }
  | .activate idx passphrase =>
    let activated := koeAccountActivate S pwhash dev.files dev.account dev.reg idx passphrase
    { dev with
      account := activated.2
      loaded := if activated.1 = 0 then some activated.2.desc.id else dev.loaded }
  | .deactivate => { dev with account := koeAccountDeactivate dev.account, loaded := none }
  | .rename opens idx newName =>
    let renamed := koeAccountRename opens dev.files dev.reg idx newName
    { dev with reg := renamed.2.1, files := renamed.2.2 }
  | .delete opens idx =>
    let deleted := koeAccountDelete opens dev.files dev.reg idx
    { dev with reg := deleted.2.1, files := deleted.2.2 }

/-! ### What a call does to the registry -/

/-- Whether the call can open the registry file. -/
def DeviceCall.opens : DeviceCall → Bool
  | .create env _ _ => env.registryOpens
  | .rename opens _ _ => opens
  | .delete opens _ => opens
  | _ => true

/-- Where a descriptor of the registry after a call comes from. -/
inductive Device.Source (dev : Device) : DeviceCall → AccountDescriptor → Prop
  | kept {call : DeviceCall} {desc : AccountDescriptor} (hdesc : desc ∈ dev.reg.entries) :
    Source dev call desc
  | created (env : CreateEnv) (displayName passphrase : List UInt8) (pk : Block 32) :
    Source dev (.create env displayName passphrase) (createdDescriptor env pk displayName)
  | renamed (opens : Bool) (idx : ℤ) (newName : List UInt8) {desc : AccountDescriptor}
    (hdesc : desc ∈ dev.reg.entries) :
    Source dev (.rename opens idx newName)
      { desc with displayName := overwriteName desc.displayName newName }

/-- The call leaves the registry and the files alone, up to descriptors that do not count. -/
structure Device.Keeps (dev after : Device) : Prop where
  place : after.dataRoot = dev.dataRoot
  root : after.reg.dataRoot = dev.reg.dataRoot
  count : after.reg.count = dev.reg.count
  entries : after.reg.entries = dev.reg.entries
  files : after.files = dev.files

/-- The call edits the registry and saves it last. -/
structure Device.Saves (dev : Device) (call : DeviceCall) (after : Device) : Prop where
  place : after.dataRoot = dev.dataRoot
  root : after.reg.dataRoot = dev.reg.dataRoot
  valid : after.reg.Valid
  source : ∀ desc ∈ after.reg.entries, dev.Source call desc
  files : ∃ written, after.files = (koeAccountRegistrySave call.opens written after.reg).2

/-- A call loads the registry again, leaves it alone, or edits and saves it. Assumes: a valid
registry. -/
theorem Device.step_cases {dev : Device} (hvalid : dev.reg.Valid) (call : DeviceCall) :
    call = .load ∨ dev.Keeps (dev.step S pwhash call) ∨
      dev.Saves call (dev.step S pwhash call) := by
  have hlow := hvalid.1
  have hhigh := hvalid.2
  cases call with
  | load => exact Or.inl rfl
  | create env displayName passphrase =>
    obtain ⟨hroot, ⟨-, hfiles, hentries, hcount⟩ | ⟨-, hroom, hentries, hcount, hfiles⟩⟩ :=
      koeAccountCreate_entries S pwhash hvalid env dev.files dev.account displayName passphrase
    · exact Or.inr (Or.inl ⟨rfl, hroot, hcount, hentries, hfiles⟩)
    · refine Or.inr (Or.inr ⟨rfl, hroot, ⟨?_, ?_⟩, ?_, hfiles⟩)
      · exact hcount.symm ▸ by omega
      · exact hcount.symm ▸ by omega
      · intro desc hdesc
        rcases List.mem_append.mp (hentries ▸ hdesc) with hold | hnew
        · exact .kept hold
        · exact List.mem_singleton.mp hnew ▸ .created env displayName passphrase _
  | activate idx passphrase => exact Or.inr (Or.inl ⟨rfl, rfl, rfl, rfl, rfl⟩)
  | deactivate => exact Or.inr (Or.inl ⟨rfl, rfl, rfl, rfl, rfl⟩)
  | rename opens idx newName =>
    refine Or.inr ?_
    rcases koeAccountRename_cases hvalid opens dev.files idx newName with
      hrenamed | ⟨desc, after, hdesc, hentries, hcount, hroot, hrenamed⟩
    · simp only [Device.step, hrenamed]
      exact Or.inl ⟨rfl, rfl, rfl, rfl, rfl⟩
    · simp only [Device.step, hrenamed]
      refine Or.inr ⟨rfl, hroot, ?_, ?_, dev.files, rfl⟩
      · rw [AccountRegistry.Valid, hcount]
        exact hvalid
      · intro other hother
        rcases List.mem_or_eq_of_mem_set (hentries ▸ hother) with hold | hnew
        · exact .kept hold
        · exact hnew ▸ .renamed opens idx newName hdesc
  | delete opens idx =>
    refine Or.inr ?_
    rcases koeAccountDelete_cases hvalid opens dev.files idx with
      ⟨-, hdeleted⟩ | ⟨hpos, hlt, -, after, hentries, hcount, hroot, hdeleted⟩
    · simp only [Device.step, hdeleted]
      exact Or.inl ⟨rfl, rfl, rfl, rfl, rfl⟩
    · simp only [Device.step, hdeleted]
      refine Or.inr ⟨rfl, hroot, ?_, ?_, dev.files, rfl⟩
      · rw [AccountRegistry.Valid, hcount]
        omega
      · intro other hother
        exact .kept (List.mem_of_mem_eraseIdx (hentries ▸ hother))

variable {S pwhash} in
theorem Device.valid_step {dev : Device} (hvalid : dev.reg.Valid) (call : DeviceCall) :
    (dev.step S pwhash call).reg.Valid := by
  rcases Device.step_cases S pwhash hvalid call with rfl | hkeeps | hsaves
  · exact (koeAccountRegistryLoad_valid dev.files dev.dataRoot).1
  · rw [AccountRegistry.Valid, hkeeps.count]
    exact hvalid
  · exact hsaves.valid

end Device

/-! ### Deleting the account in use -/

/-- The entry is that of the account in use. -/
def Device.IsLoaded (dev : Device) (idx : ℤ) : Prop :=
  dev.loaded = some (dev.reg.accounts.getD idx.toNat AccountDescriptor.zero).id

/-- A deletion out of range or of the account in use fails and changes nothing, and any other
removes its entry. -/
def Device.DeletesInactive (dev : Device) : DeviceCall → Prop
  | .delete opens idx =>
    let deleted := koeAccountDelete opens dev.files dev.reg idx
    (idx < 0 ∨ idx ≥ dev.reg.count ∨ dev.IsLoaded idx → deleted = (-1, dev.reg, dev.files)) ∧
      (¬ (idx < 0 ∨ idx ≥ dev.reg.count ∨ dev.IsLoaded idx) →
        deleted.2.1.entries = dev.reg.entries.eraseIdx idx.toNat)
  | _ => True

/-- Where a deletion finds an entry, the flag in the registry says whether it is that of the account
in use. -/
def Device.FlagAgrees (dev : Device) : DeviceCall → Prop
  | .delete _ idx =>
    0 ≤ idx → idx < dev.reg.count →
      ((dev.reg.accounts.getD idx.toNat AccountDescriptor.zero).active ≠ 0 ↔ dev.IsLoaded idx)
  | _ => True

/-- Assumes: a valid registry. -/
theorem Device.deletesInactive_iff {dev : Device} (hvalid : dev.reg.Valid) (call : DeviceCall) :
    dev.DeletesInactive call ↔ dev.FlagAgrees call := by
  cases call with
  | delete opens idx =>
    simp only [Device.DeletesInactive, Device.FlagAgrees]
    rcases koeAccountDelete_cases hvalid opens dev.files idx with
      ⟨hrefused, hdeleted⟩ | ⟨hpos, hlt, hflag, after, hentries, hcount, -, hdeleted⟩
    · rw [hdeleted]
      constructor
      · rintro ⟨-, hremoved⟩ hpos hlt
        refine iff_of_true (hrefused.resolve_left (by omega) |>.resolve_left (by omega)) ?_
        -- an entry that is not loaded was to be removed, but the list is as long as before
        by_contra hloaded
        have herased := hremoved fun hspared ↦
          hloaded (hspared.resolve_left (by omega) |>.resolve_left (by omega))
        have hlength : dev.reg.entries.length = (dev.reg.entries.eraseIdx idx.toNat).length :=
          congrArg List.length herased
        have hentries := hvalid.length_entries
        rw [List.length_eraseIdx_of_lt (by omega)] at hlength
        omega
      · intro hagrees
        refine ⟨fun _ ↦ rfl, fun hfree ↦ ?_⟩
        have hpos : 0 ≤ idx := by omega
        have hlt : idx < dev.reg.count := by omega
        have hflag := hrefused.resolve_left (by omega) |>.resolve_left (by omega)
        exact absurd (Or.inr (Or.inr ((hagrees hpos hlt).mp hflag))) hfree
    · rw [hdeleted]
      constructor
      · rintro ⟨hspared, -⟩ _ _
        refine iff_of_false (fun hset ↦ hset hflag) fun hloaded ↦ ?_
        have hkept := hspared (Or.inr (Or.inr hloaded))
        have hreg : after = dev.reg := congrArg (fun result ↦ result.2.1) hkept
        rw [hreg] at hcount
        omega
      · intro hagrees
        refine ⟨fun hspared ↦ ?_, fun _ ↦ hentries⟩
        have hloaded := hspared.resolve_left (by omega) |>.resolve_left (by omega)
        exact absurd hflag ((hagrees hpos hlt).mpr hloaded)
  | _ => exact Iff.rfl

/-- Every deletion of a run spares the account in use and removes any other, exactly when every
deletion of the run finds the flag of its entry in agreement with what is loaded. -/
theorem koeAccountDelete_inactive_iff (S : Sodium) (pwhash : Pwhash) (files : Files)
    (dataRoot : List UInt8) (calls : List DeviceCall) :
    Runs.AllSteps (Device.step S pwhash) Device.DeletesInactive (Device.start files dataRoot)
        calls ↔
      Runs.AllSteps (Device.step S pwhash) Device.FlagAgrees (Device.start files dataRoot)
        calls := by
  let related (dev other : Device) : Prop := dev = other ∧ dev.reg.Valid
  have hiff : ∀ dev other call, related dev other → True →
      (dev.DeletesInactive call ↔ other.FlagAgrees call) := by
    rintro dev other call ⟨rfl, hvalid⟩ -
    exact Device.deletesInactive_iff hvalid call
  have hnext : ∀ dev other call, related dev other → True → dev.DeletesInactive call →
      related (dev.step S pwhash call) (other.step S pwhash call) := by
    rintro dev other call ⟨rfl, hvalid⟩ - -
    exact ⟨rfl, Device.valid_step hvalid call⟩
  exact Runs.allSteps_iff_of_simulates hiff hnext calls
    ⟨rfl, (koeAccountRegistryLoad_valid files dataRoot).1⟩ fun _ _ ↦ trivial

/-- The device without files after calls of the concrete runs. -/
def Device.reached (calls : List DeviceCall) : Device :=
  calls.foldl (Device.step Sodium.transparent plainPwhash) (Device.start (fun _ ↦ none) [])

/-- An account is created and put away: nothing is loaded. -/
def putAwayRun : List DeviceCall := [.create plainCreate [65] [], .deactivate]

/-- The registry is loaded again and the account is activated: it is loaded. -/
def takenBackRun : List DeviceCall := putAwayRun ++ [.load, .activate 0 []]

/-- The account that was put away cannot be deleted, and after it was taken back it can, while it is
loaded. -/
theorem koeAccountDelete_contrary :
    ¬ (Device.reached putAwayRun).DeletesInactive (.delete true 0) ∧
      ¬ (Device.reached takenBackRun).DeletesInactive (.delete true 0) := by
  constructor
  · rintro ⟨-, hremoved⟩
    obtain ⟨hfree, hkept⟩ : (¬ (0 < (0 : ℤ) ∨ 0 ≥ (Device.reached putAwayRun).reg.count ∨
          (Device.reached putAwayRun).IsLoaded 0)) ∧
        ¬ (koeAccountDelete true (Device.reached putAwayRun).files
          (Device.reached putAwayRun).reg 0).2.1.entries =
            (Device.reached putAwayRun).reg.entries.eraseIdx 0 := by
      unfold Device.IsLoaded
      decide +kernel
    exact hkept (hremoved hfree)
  · rintro ⟨hspared, -⟩
    obtain ⟨hloaded, hsucceeds⟩ : (Device.reached takenBackRun).IsLoaded 0 ∧
        ¬ (koeAccountDelete true (Device.reached takenBackRun).files
          (Device.reached takenBackRun).reg 0).1 = -1 := by
      unfold Device.IsLoaded
      decide +kernel
    exact hsucceeds (congrArg Prod.fst (hspared (Or.inr (Or.inr hloaded))))

end KoeCore
