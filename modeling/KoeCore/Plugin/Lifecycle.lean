import KoeCore.Library.Runs
import KoeCore.Plugin.Dispatch
import Mathlib.Algebra.Ring.Nat

/-!
# The life of a plugin

`koe_plugin_enable`, `koe_plugin_disable` and `koe_plugin_reload` of `koe_plugin.c`, over the
registry of plugins and the VMs that exist. Enabling a plugin overwrites its VM pointer first and
asks no questions: the VM of a plugin that was enabled before is lost, and if enabling fails, the
plugin is left without a VM and, if it was loaded, still marked as loaded.

`koePlugin_lifecycle` draws the balance over whole runs. The VMs that exist are those of the plugins
and one more for each call that enabled a plugin with a VM. As long as there is no such call, no
dispatch follows a `NULL` pointer; and a failed call on a plugin that listens is enough for the next
dispatch to do so. Reloading is safe throughout.
-/

set_option autoImplicit false
set_option relaxedAutoImplicit false

namespace KoeCore

/-- What `koe_plugin_enable` takes from its environment: whether `calloc` succeeds, the VM that
`mrb_open` returns, and the files. -/
structure EnableEnv (V : Type*) where
  vmAlloc : Bool
  opened : Option V
  files : List UInt8 → Option (List UInt8)

section Functions

variable {V : Type*} (ruby : Ruby V)

/-- The return code, the plugin, and the number of VMs that exist after the call. -/
def koePluginEnable (env : EnableEnv V) (plugin : Plugin V) (live : ℕ) : ℤ × Plugin V × ℕ :=
  -- `plugin->vm = calloc(..)`, and `plugin->vm = NULL` on every way out that fails.
  let failed := (-1, { plugin with vm := none }, live)
  if !env.vmAlloc then failed
  else
    match env.opened with
    | none => failed
    | some vm =>
      let vm := ruby.loadApi vm
      if ruby.exc vm then failed
      else
        match env.files plugin.desc.entryPoint with
        | none => failed
        | some contents =>
          let vm := ruby.loadFile contents vm
          if ruby.exc vm then failed
          else (0, { plugin with vm := some vm, loaded := 1 }, live + 1)

/-- The plugin, and the number of VMs that exist after the call. -/
def koePluginDisable (plugin : Plugin V) (live : ℕ) : Plugin V × ℕ :=
  ({ plugin with vm := none, loaded := 0 }, if plugin.vm.isSome then live - 1 else live)

def koePluginReload (env : EnableEnv V) (plugin : Plugin V) (live : ℕ) : ℤ × Plugin V × ℕ :=
  let disabled := koePluginDisable plugin live
  koePluginEnable ruby env disabled.1 disabled.2

end Functions

/-- A call on the plugin at a position of the registry, or a dispatch. -/
inductive PluginCall (V ρ : Type*)
  | enable (i : ℕ) (env : EnableEnv V)
  | disable (i : ℕ)
  | reload (i : ℕ) (env : EnableEnv V)
  | dispatch (ev : Event (EventData ρ))

/-- The plugins of the registry, and the number of VMs that exist. -/
structure PluginWorld (V : Type*) where
  plugins : List (Plugin V)
  live : ℕ

section World

variable {V ρ : Type*} (ruby : Ruby V)

/-- The registry with manifests and no VM yet. -/
def PluginWorld.start (descs : List PluginDescriptor) : PluginWorld V where
  plugins := descs.map fun desc ↦ ⟨desc, none, 0, 0, 0, 0⟩
  live := 0

/-- A call on one plugin. -/
def PluginWorld.onPlugin (world : PluginWorld V) (i : ℕ) (call : Plugin V → ℕ → Plugin V × ℕ) :
    PluginWorld V :=
  match world.plugins[i]? with
  | none => world
  | some plugin =>
    let after := call plugin world.live
    ⟨world.plugins.set i after.1, after.2⟩

/-- The world after the call; nothing comes after a `NULL` pointer. -/
def PluginCall.step (world : PluginWorld V) : PluginCall V ρ → PluginWorld V
  | enable i env => world.onPlugin i fun plugin live ↦ (koePluginEnable ruby env plugin live).2
  | disable i => world.onPlugin i koePluginDisable
  | reload i env => world.onPlugin i fun plugin live ↦ (koePluginReload ruby env plugin live).2
  | dispatch ev =>
    match koePluginDispatch ruby world.plugins ev with
    | none => world
    | some result => { world with plugins := result.2.1 }

/-- The number of VMs that the call takes a plugin's last pointer from: enabling a plugin that has
one. -/
def PluginCall.overwritten (world : PluginWorld V) : PluginCall V ρ → ℕ
  | enable i _ => (world.plugins[i]?.bind Plugin.vm).isSome.toNat
  | _ => 0

/-- Their number over a run. -/
def overwrites : PluginWorld V → List (PluginCall V ρ) → ℕ
  | _, [] => 0
  | world, call :: calls => call.overwritten world + overwrites (call.step ruby world) calls

/-- How often the call has events counted. -/
def PluginCall.dispatches : PluginCall V ρ → ℕ
  | dispatch _ => 1
  | _ => 0

/-- The call is not a dispatch that follows a `NULL` pointer. -/
def PluginCall.Returns (world : PluginWorld V) : PluginCall V ρ → Prop
  | dispatch ev => (koePluginDispatch ruby world.plugins ev).isSome = true
  | _ => True

/-- The plugins that have a VM. -/
def PluginWorld.running (world : PluginWorld V) : ℕ :=
  world.plugins.countP fun plugin ↦ plugin.vm.isSome

end World

/-! ### Single calls -/

section Calls

variable {V ρ : Type*} {ruby : Ruby V}

/-- What enabling can do: fail and leave no VM, or leave one and mark the plugin as loaded. -/
theorem koePluginEnable_cases (ruby : Ruby V) (env : EnableEnv V) (plugin : Plugin V) (live : ℕ) :
    koePluginEnable ruby env plugin live = (-1, { plugin with vm := none }, live) ∨
      ∃ vm, koePluginEnable ruby env plugin live =
        (0, { plugin with vm := some vm, loaded := 1 }, live + 1) := by
  unfold koePluginEnable
  dsimp only
  split_ifs with halloc
  · exact Or.inl rfl
  rcases env.opened with _ | vm
  · exact Or.inl rfl
  dsimp only
  split_ifs with hapi
  · exact Or.inl rfl
  rcases env.files plugin.desc.entryPoint with _ | contents
  · exact Or.inl rfl
  dsimp only
  split_ifs with hfile
  · exact Or.inl rfl
  · exact Or.inr ⟨_, rfl⟩

/-- The counters of a plugin after so many dispatches: modulo `2 ^ 64`, those of a plugin that has
suppressed and failed on no more events than it has seen. -/
def Plugin.Counted (plugin : Plugin V) (dispatches : ℕ) : Prop :=
  ∃ processed suppressed failed : ℕ, processed ≤ dispatches ∧
    suppressed ≤ processed ∧ failed ≤ processed ∧
    plugin.eventsProcessed = UInt64.ofNat processed ∧
    plugin.eventsSuppressed = UInt64.ofNat suppressed ∧ plugin.errors = UInt64.ofNat failed

/-- Assumes: the counters of a plugin, and too few dispatches for them to wrap. -/
theorem Plugin.Counted.le {plugin : Plugin V} {dispatches : ℕ}
    (hcounted : plugin.Counted dispatches) (hfew : dispatches < 2 ^ 64) :
    plugin.eventsSuppressed ≤ plugin.eventsProcessed ∧ plugin.errors ≤ plugin.eventsProcessed := by
  obtain ⟨processed, suppressed, failed, hprocessed, hsuppressed, hfailed, h₁, h₂, h₃⟩ := hcounted
  have hexact : ∀ n ≤ processed, (UInt64.ofNat n).toNat = n := fun n hn ↦
    UInt64.toNat_ofNat_of_lt' (by rw [UInt64.size]; omega)
  rw [h₁, h₂, h₃, UInt64.le_iff_toNat_le, UInt64.le_iff_toNat_le, hexact _ hsuppressed,
    hexact _ hfailed, hexact _ (Nat.le_refl _)]
  exact ⟨hsuppressed, hfailed⟩

theorem Plugin.Counted.mono {plugin : Plugin V} {dispatches more : ℕ}
    (hcounted : plugin.Counted dispatches) (hmore : dispatches ≤ more) : plugin.Counted more := by
  obtain ⟨processed, suppressed, failed, hprocessed, hrest⟩ := hcounted
  exact ⟨processed, suppressed, failed, Nat.le_trans hprocessed hmore, hrest⟩

/-- A plugin has a VM exactly when it is marked as loaded. -/
def Plugin.Honest (plugin : Plugin V) : Prop := plugin.vm.isSome = true ↔ plugin.loaded ≠ 0

def PluginWorld.Honest (world : PluginWorld V) : Prop :=
  ∀ plugin ∈ world.plugins, plugin.Honest

/-- What a call does to the plugin it is about, and to the VMs. -/
structure Acts (before : Plugin V) (live : ℕ) (after : Plugin V) (liveAfter lost : ℕ) :
    Prop where
  balance : liveAfter + before.vm.isSome.toNat = live + after.vm.isSome.toNat + lost
  counted : ∀ dispatches, before.Counted dispatches → after.Counted dispatches

variable (ruby) (env : EnableEnv V) (plugin : Plugin V) (live : ℕ)

theorem koePluginEnable_acts :
    Acts plugin live (koePluginEnable ruby env plugin live).2.1
      (koePluginEnable ruby env plugin live).2.2 plugin.vm.isSome.toNat := by
  rcases koePluginEnable_cases ruby env plugin live with hfails | ⟨vm, hworks⟩
  · rw [hfails]
    exact ⟨by simp, fun _ ↦ id⟩
  · rw [hworks]
    exact ⟨by simp, fun _ ↦ id⟩

/-- Assumes: the VM of the plugin is among those that exist. -/
theorem koePluginDisable_acts (hlive : plugin.vm.isSome.toNat ≤ live) :
    Acts plugin live (koePluginDisable plugin live).1 (koePluginDisable plugin live).2 0 := by
  refine ⟨?_, fun _ ↦ id⟩
  unfold koePluginDisable
  rcases hvm : plugin.vm.isSome with _ | _
  · simp
  · rw [hvm, Bool.toNat_true] at hlive
    simp only [Bool.toNat_true, Option.isSome_none, Bool.toNat_false, if_true]
    omega

/-- Assumes: the VM of the plugin is among those that exist. -/
theorem koePluginReload_acts (hlive : plugin.vm.isSome.toNat ≤ live) :
    Acts plugin live (koePluginReload ruby env plugin live).2.1
      (koePluginReload ruby env plugin live).2.2 0 := by
  have hdisabled := koePluginDisable_acts plugin live hlive
  have henabled := koePluginEnable_acts ruby env (koePluginDisable plugin live).1
    (koePluginDisable plugin live).2
  have hnone : (koePluginDisable plugin live).1.vm.isSome.toNat = 0 := rfl
  refine ⟨?_, fun n hcounted ↦ henabled.counted n (hdisabled.counted n hcounted)⟩
  have hfirst := hdisabled.balance
  have hsecond := henabled.balance
  rw [hnone] at hfirst hsecond
  change (koePluginEnable ruby env (koePluginDisable plugin live).1
    (koePluginDisable plugin live).2).2.2 + _ = _
  simp only [koePluginReload]
  omega

end Calls

/-! ### Runs -/

section Runs

variable {V ρ : Type*} {ruby : Ruby V} {world : PluginWorld V}

/-- The balance of the VMs, with so many lost, and the counters of every plugin after so many
dispatches. -/
structure PluginWorld.Balanced (world : PluginWorld V) (lost dispatches : ℕ) : Prop where
  live_eq : world.live = world.running + lost
  counted : ∀ plugin ∈ world.plugins, plugin.Counted dispatches

theorem PluginWorld.balanced_start (descs : List PluginDescriptor) :
    (PluginWorld.start descs : PluginWorld V).Balanced 0 0 where
  live_eq := by
    have hnone : (PluginWorld.start descs : PluginWorld V).running = 0 := by
      refine List.countP_eq_zero.mpr ?_
      intro plugin hplugin
      obtain ⟨desc, -, rfl⟩ := List.mem_map.mp hplugin
      exact Bool.false_ne_true
    rw [hnone]
    rfl
  counted := by
    intro plugin hplugin
    obtain ⟨desc, -, rfl⟩ := List.mem_map.mp hplugin
    exact ⟨0, 0, 0, Nat.le_refl _, Nat.le_refl _, Nat.le_refl _, rfl, rfl, rfl⟩

/-- A call on one plugin keeps the balance. Assumes: what the call does to the plugin, if its VM is
among those that exist. -/
theorem PluginWorld.Balanced.onPlugin {lost dispatches : ℕ}
    (hbalanced : world.Balanced lost dispatches) {i more : ℕ}
    {call : Plugin V → ℕ → Plugin V × ℕ}
    (hacts : ∀ plugin, world.plugins[i]? = some plugin → plugin.vm.isSome.toNat ≤ world.live →
      Acts plugin world.live (call plugin world.live).1 (call plugin world.live).2 more)
    (hnone : world.plugins[i]? = none → more = 0) :
    (world.onPlugin i call).Balanced (lost + more) dispatches := by
  unfold PluginWorld.onPlugin
  rcases hplugin : world.plugins[i]? with _ | plugin
  · rw [hnone hplugin, Nat.add_zero]
    exact hbalanced
  obtain ⟨hi, hget⟩ := List.getElem?_eq_some_iff.mp hplugin
  -- The plugin is one of those that `running` counts, if it has a VM.
  have hone : plugin.vm.isSome.toNat ≤ world.running := by
    rcases hvm : plugin.vm.isSome with _ | _
    · exact Nat.zero_le _
    · exact List.countP_pos_iff.mpr ⟨plugin, List.mem_of_getElem? hplugin, hvm⟩
  have hlive := hbalanced.live_eq
  obtain ⟨hbalance, hcounted⟩ := hacts plugin hplugin (by omega)
  constructor
  · have hset := List.countP_set (p := fun plugin : Plugin V ↦ plugin.vm.isSome)
      (a := (call plugin world.live).1) hi
    rw [hget] at hset
    change (call plugin world.live).2 = (world.plugins.set i (call plugin world.live).1).countP
      (fun plugin ↦ plugin.vm.isSome) + (lost + more)
    rw [hset]
    change world.live = world.plugins.countP (fun plugin ↦ plugin.vm.isSome) + lost at hlive
    change plugin.vm.isSome.toNat ≤ world.plugins.countP (fun plugin ↦ plugin.vm.isSome) at hone
    rcases hbefore : plugin.vm.isSome with _ | _
    all_goals
      rcases hafter : (call plugin world.live).1.vm.isSome with _ | _
      all_goals
        simp only [hbefore, hafter, Bool.toNat_false, Bool.toNat_true, Bool.false_eq_true,
          if_false, if_true] at hbalance hone ⊢
        omega
  · intro other hother
    rcases List.mem_or_eq_of_mem_set hother with hold | rfl
    · exact hbalanced.counted other hold
    · exact hcounted dispatches (hbalanced.counted plugin (List.mem_of_getElem? hplugin))

/-- A dispatch that returns changes no VM into none and none into one. -/
theorem running_dispatch {plugins after : List (Plugin V)} (hpresent : Plugin.AllPresent plugins)
    (hafter : List.Forall₂ Plugin.After plugins after) :
    (after.countP fun plugin ↦ plugin.vm.isSome) =
      plugins.countP fun plugin ↦ plugin.vm.isSome := by
  induction hafter with
  | nil => rfl
  | @cons before served plugins after hfirst _ ih =>
    have hsame : served.vm.isSome = before.vm.isSome := by
      unfold Plugin.After at hfirst
      split_ifs at hfirst with hlistens
      · rw [hfirst.vm, hpresent before List.mem_cons_self hlistens]
      · rw [hfirst]
    rw [List.countP_cons, List.countP_cons, hsame,
      ih fun plugin hplugin ↦ hpresent plugin (List.mem_cons_of_mem _ hplugin)]

/-- Assumes: what a dispatch makes of a property of each plugin. -/
theorem forall_dispatch {holds keeps : Plugin V → Prop}
    (hkeeps : ∀ before after, Plugin.After before after → holds before → keeps after)
    {plugins after : List (Plugin V)} (hafter : List.Forall₂ Plugin.After plugins after) :
    (∀ plugin ∈ plugins, holds plugin) → ∀ plugin ∈ after, keeps plugin := by
  induction hafter with
  | nil => exact fun _ _ hplugin ↦ absurd hplugin List.not_mem_nil
  | @cons before served plugins after hfirst _ ih =>
    intro hall plugin hplugin
    rcases List.mem_cons.mp hplugin with rfl | hlater
    · exact hkeeps before plugin hfirst (hall before List.mem_cons_self)
    · exact ih (fun other hother ↦ hall other (List.mem_cons_of_mem _ hother)) plugin hlater

/-- A counter that may go up goes up with the number it stands for. Assumes: such a counter. -/
theorem exists_ofNat_of_counts {before after : UInt64} {n bound : ℕ}
    (hbefore : before = UInt64.ofNat n) (hn : n ≤ bound)
    (hcounts : after = before ∨ after = before + 1) :
    ∃ m ≤ bound + 1, after = UInt64.ofNat m := by
  rcases hcounts with rfl | rfl
  · exact ⟨n, Nat.le_succ_of_le hn, hbefore⟩
  · exact ⟨n + 1, Nat.succ_le_succ hn, by rw [hbefore, UInt64.ofNat_add]; rfl⟩

theorem Plugin.After.counted {before after : Plugin V} (hafter : Plugin.After before after)
    {dispatches : ℕ} (hcounted : before.Counted dispatches) : after.Counted (dispatches + 1) := by
  unfold Plugin.After at hafter
  split_ifs at hafter with hlistens
  · obtain ⟨processed, suppressed, failed, hprocessed, hsuppressed, hfailed, h₁, h₂, h₃⟩ := hcounted
    obtain ⟨suppressed', hsuppressed', hsuppressedEq⟩ :=
      exists_ofNat_of_counts h₂ hsuppressed hafter.suppressed
    obtain ⟨failed', hfailed', hfailedEq⟩ := exists_ofNat_of_counts h₃ hfailed hafter.errors
    refine ⟨processed + 1, suppressed', failed', Nat.succ_le_succ hprocessed, hsuppressed',
      hfailed', ?_, hsuppressedEq, hfailedEq⟩
    rw [hafter.processed, h₁, UInt64.ofNat_add]
    rfl
  · rw [hafter]
    exact hcounted.mono (Nat.le_succ dispatches)

theorem Plugin.After.honest {before after : Plugin V} (hafter : Plugin.After before after)
    (hhonest : before.Honest) : after.Honest := by
  unfold Plugin.After at hafter
  split_ifs at hafter with hlistens
  · rw [Plugin.Honest, hafter.loaded]
    exact ⟨fun _ ↦ hlistens.1, fun _ ↦ hafter.vm⟩
  · rw [hafter]
    exact hhonest

/-- The step lemma: only enabling a plugin that has a VM loses one. -/
theorem PluginWorld.Balanced.step (ruby : Ruby V) {lost dispatches : ℕ}
    (hbalanced : world.Balanced lost dispatches) (call : PluginCall V ρ) :
    (call.step ruby world).Balanced (lost + call.overwritten world)
      (dispatches + call.dispatches) := by
  cases call with
  | enable i env =>
    change (world.onPlugin i fun plugin live ↦ (koePluginEnable ruby env plugin live).2).Balanced
      _ dispatches
    refine hbalanced.onPlugin ?_ ?_
    · intro plugin hplugin _
      simp only [PluginCall.overwritten, hplugin]
      exact koePluginEnable_acts ruby env plugin world.live
    · intro hplugin
      simp [PluginCall.overwritten, hplugin]
  | disable i =>
    exact hbalanced.onPlugin (fun plugin _ hlive ↦ koePluginDisable_acts plugin world.live hlive)
      fun _ ↦ rfl
  | reload i env =>
    change (world.onPlugin i fun plugin live ↦ (koePluginReload ruby env plugin live).2).Balanced
      lost dispatches
    exact hbalanced.onPlugin
      (fun plugin _ hlive ↦ koePluginReload_acts ruby env plugin world.live hlive) fun _ ↦ rfl
  | dispatch ev =>
    change (PluginCall.step ruby world (.dispatch ev)).Balanced lost (dispatches + 1)
    rcases hdispatch : koePluginDispatch ruby world.plugins ev with _ | ⟨rc, after, result⟩
    · simp only [PluginCall.step, hdispatch]
      exact ⟨hbalanced.live_eq, fun plugin hplugin ↦
        (hbalanced.counted plugin hplugin).mono (Nat.le_succ dispatches)⟩
    · obtain ⟨hpresent, hafter⟩ := koePluginDispatch_after hdispatch
      simp only [PluginCall.step, hdispatch]
      refine ⟨?_, forall_dispatch (fun _ _ hone hcounted ↦ hone.counted hcounted) hafter
        hbalanced.counted⟩
      have hlive := hbalanced.live_eq
      have hrunning := running_dispatch hpresent hafter
      simp only [PluginWorld.running] at hlive ⊢
      rw [hlive, hrunning]

/-- The run lemma. -/
theorem PluginWorld.Balanced.run (calls : List (PluginCall V ρ)) :
    ∀ {world : PluginWorld V} {lost dispatches : ℕ}, world.Balanced lost dispatches →
      (calls.foldl (fun world call ↦ call.step ruby world) world).Balanced
        (lost + overwrites ruby world calls)
        (dispatches + (calls.map PluginCall.dispatches).sum) := by
  induction calls with
  | nil =>
    intro world lost dispatches hbalanced
    exact hbalanced
  | cons call calls ih =>
    intro world lost dispatches hbalanced
    have hrest := ih (hbalanced.step ruby call)
    rw [overwrites, List.map_cons, List.sum_cons, ← Nat.add_assoc, ← Nat.add_assoc]
    exact hrest

/-- A call on one plugin leaves the others alone. Assumes: plugins that have their VM, and what the
call does to the one it is about. -/
theorem honest_onPlugin (hhonest : world.Honest) {i : ℕ}
    {call : Plugin V → ℕ → Plugin V × ℕ}
    (hcall : ∀ plugin, world.plugins[i]? = some plugin → plugin.Honest →
      (call plugin world.live).1.Honest) :
    (world.onPlugin i call).Honest := by
  unfold PluginWorld.onPlugin
  rcases hplugin : world.plugins[i]? with _ | plugin
  · exact hhonest
  · intro other hother
    rcases List.mem_or_eq_of_mem_set hother with hold | rfl
    · exact hhonest other hold
    · exact hcall plugin hplugin (hhonest plugin (List.mem_of_getElem? hplugin))

/-- Assumes: a plugin without a VM, that is not marked as loaded. -/
theorem koePluginEnable_honest (ruby : Ruby V) (env : EnableEnv V) {plugin : Plugin V}
    (hvm : plugin.vm = none) (hhonest : plugin.Honest) (live : ℕ) :
    (koePluginEnable ruby env plugin live).2.1.Honest := by
  rcases koePluginEnable_cases ruby env plugin live with hfails | ⟨vm, hworks⟩
  · rw [hfails]
    unfold Plugin.Honest at hhonest ⊢
    rw [hvm] at hhonest
    exact hhonest
  · rw [hworks]
    exact ⟨fun _ ↦ Int.one_ne_zero, fun _ ↦ rfl⟩

/-- The other step lemma. Assumes: plugins that are marked as loaded exactly when they have a VM,
and a call that enables none of those that have one. -/
theorem honest_step (ruby : Ruby V) (hhonest : world.Honest)
    (call : PluginCall V ρ) (hkeeps : call.overwritten world = 0) :
    (call.step ruby world).Honest := by
  cases call with
  | enable i env =>
    refine honest_onPlugin hhonest ?_
    intro plugin hplugin hone
    have hvm : plugin.vm = none := by
      simpa [PluginCall.overwritten, hplugin] using hkeeps
    exact koePluginEnable_honest ruby env hvm hone world.live
  | disable i =>
    refine honest_onPlugin hhonest ?_
    intro plugin _ _
    exact ⟨fun hsome ↦ absurd hsome Bool.false_ne_true, fun hloaded ↦ absurd rfl hloaded⟩
  | reload i env =>
    refine honest_onPlugin hhonest ?_
    intro plugin _ _
    refine koePluginEnable_honest ruby env rfl ?_ _
    exact ⟨fun hsome ↦ absurd hsome Bool.false_ne_true, fun hloaded ↦ absurd rfl hloaded⟩
  | dispatch ev =>
    rcases hdispatch : koePluginDispatch ruby world.plugins ev with _ | ⟨rc, after, result⟩
    · simp only [PluginCall.step, hdispatch]
      exact hhonest
    · obtain ⟨-, hafter⟩ := koePluginDispatch_after hdispatch
      simp only [PluginCall.step, hdispatch]
      exact forall_dispatch (fun _ _ ↦ Plugin.After.honest) hafter hhonest

/-- Assumes: plugins that are marked as loaded exactly when they have a VM. -/
theorem returns_of_honest (ruby : Ruby V) (hhonest : world.Honest)
    (call : PluginCall V ρ) : call.Returns ruby world := by
  cases call with
  | dispatch ev =>
    have hpresent : Plugin.AllPresent world.plugins := fun plugin hplugin hlistens ↦
      (hhonest plugin hplugin).mpr hlistens.1
    have hloop := (dispatchLoop_isSome_iff ruby world.plugins ev).mpr hpresent
    change (Option.map _ _).isSome = true
    rw [Option.isSome_map]
    exact hloop
  | _ => trivial

/-- A plugin that listened is asked without its VM. Assumes: a plugin that listens, and a call that
fails to enable it. -/
theorem koePluginDispatch_none_of_enable (ruby : Ruby V) {i : ℕ} {plugin : Plugin V}
    (hplugin : world.plugins[i]? = some plugin) (hlistens : plugin.Listens) {env : EnableEnv V}
    (hfails : (koePluginEnable ruby env plugin world.live).1 ≠ 0) (ev : Event (EventData ρ)) :
    koePluginDispatch ruby ((PluginCall.enable i env : PluginCall V ρ).step ruby world).plugins ev =
      none := by
  have hafter : (koePluginEnable ruby env plugin world.live).2.1 = { plugin with vm := none } := by
    rcases koePluginEnable_cases ruby env plugin world.live with hfailed | ⟨vm, hworks⟩
    · rw [hfailed]
    · rw [hworks] at hfails
      exact absurd rfl hfails
  have hset : ((PluginCall.enable i env : PluginCall V ρ).step ruby world).plugins =
      world.plugins.set i { plugin with vm := none } := by
    simp only [PluginCall.step, PluginWorld.onPlugin, hplugin, hafter]
  obtain ⟨hi, -⟩ := List.getElem?_eq_some_iff.mp hplugin
  have hmem : { plugin with vm := none } ∈ world.plugins.set i { plugin with vm := none } :=
    List.mem_set hi _
  have hmissing : ¬ Plugin.AllPresent (world.plugins.set i { plugin with vm := none }) :=
    fun hpresent ↦ absurd (hpresent _ hmem hlistens) Bool.false_ne_true
  rw [hset]
  exact (koePluginDispatch_eq_none_iff ruby _ ev).mpr hmissing

/-- The life of plugins, over every run on a registry whose plugins start without VMs. The VMs that
exist are those of the plugins and those whose plugin was enabled once more; with less than `2 ^ 64`
dispatches no counter wraps, and no plugin has suppressed or failed on more events than it has seen;
no dispatch follows a `NULL` pointer as long as no plugin is enabled that has a VM; and after a run
of any kind, failing to enable a plugin that listens makes the next dispatch follow one. -/
theorem koePlugin_lifecycle (ruby : Ruby V) (descs : List PluginDescriptor)
    (calls : List (PluginCall V ρ)) :
    let step := fun (world : PluginWorld V) (call : PluginCall V ρ) ↦ call.step ruby world
    let world := calls.foldl step (PluginWorld.start descs)
    world.live = world.running + overwrites ruby (PluginWorld.start descs) calls ∧
      ((calls.map PluginCall.dispatches).sum < 2 ^ 64 → ∀ plugin ∈ world.plugins,
        plugin.eventsSuppressed ≤ plugin.eventsProcessed ∧
          plugin.errors ≤ plugin.eventsProcessed) ∧
      (Runs.AllSteps step (fun world call ↦ call.overwritten world = 0) (PluginWorld.start descs)
          calls →
        Runs.AllSteps step (fun world call ↦ call.Returns ruby world) (PluginWorld.start descs)
          calls) ∧
      ∀ i plugin env, world.plugins[i]? = some plugin → plugin.Listens →
        (koePluginEnable ruby env plugin world.live).1 ≠ 0 → ∀ ev : Event (EventData ρ),
          koePluginDispatch ruby (step world (.enable i env)).plugins ev = none := by
  intro step world
  have hbalanced : world.Balanced (0 + overwrites ruby (PluginWorld.start descs) calls)
      (0 + (calls.map PluginCall.dispatches).sum) := (PluginWorld.balanced_start descs).run calls
  rw [Nat.zero_add, Nat.zero_add] at hbalanced
  have hstart : (PluginWorld.start descs : PluginWorld V).Honest := by
    intro plugin hplugin
    obtain ⟨desc, -, rfl⟩ := List.mem_map.mp hplugin
    exact ⟨fun hsome ↦ absurd hsome Bool.false_ne_true, fun hloaded ↦ absurd rfl hloaded⟩
  refine ⟨hbalanced.live_eq, fun hfew plugin hplugin ↦ (hbalanced.counted plugin hplugin).le hfew,
    ?_, ?_⟩
  · refine Runs.AllSteps.imp_of_invariant ?_ calls hstart
    intro before call hhonest hkeeps
    exact ⟨returns_of_honest ruby hhonest call, honest_step ruby hhonest call hkeeps⟩
  · intro i plugin env hplugin hlistens hfails ev
    exact koePluginDispatch_none_of_enable ruby hplugin hlistens hfails ev

end Runs

end KoeCore
