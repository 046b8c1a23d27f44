import KoeCore.Event.Ring
import Mathlib.Data.List.Forall2

/-!
# Plugins and the events they see

`koe_plugin_dispatch` of `koe_plugin.c`. A plugin is a Ruby script in a VM of its own. mruby is a
parameter (`Ruby`): what the methods of the module `KoeEvent` do to a VM, and what they return. A
text that Ruby returns is the C string that `mrb_str_to_cstr` makes of it.

The loop asks every plugin that is loaded, enabled and allowed to modify events, in the order of the
registry, and each sees the message as the plugins before it left it. A plugin that is marked as
loaded and has no VM makes the loop follow a `NULL` pointer; the result is then `none`.

`koePluginDispatch_refines_chain` compares the loop with `chain`, which stops at the first plugin
that suppresses the message. The loop does not stop there, and the plugins behind still run and
count, but neither the verdict nor the text can change any more. A text that does not fit the buffer
is dropped, and what is copied stays within it: the bound is a field of `MessageText`.
-/

set_option autoImplicit false
set_option relaxedAutoImplicit false

namespace KoeCore

/-! ### Messages and VMs -/

/-- `sizeof(ev->data.message.body)`. -/
def messageBodySize : ℕ := 4096

/-- The buffer of a received message, and how much of it is in use. -/
structure MessageText where
  body : List UInt8
  bodyLen : ℕ
  body_length : body.length = messageBodySize
  bodyLen_le : bodyLen ≤ messageBodySize
  deriving DecidableEq

/-- The union of the event data, as far as plugins are concerned: the message, and all the rest. -/
structure EventData (ρ : Type*) where
  message : MessageText
  rest : ρ
  deriving DecidableEq

/-- The bytes in use. -/
def MessageText.text (message : MessageText) : List UInt8 := message.body.take message.bodyLen

/-- `memcpy` of a text to the front of the buffer. -/
def MessageText.overwrite (message : MessageText) (text : List UInt8)
    (hfits : text.length < messageBodySize) : MessageText where
  body := text ++ message.body.drop text.length
  bodyLen := text.length
  body_length := by
    rw [List.length_append, List.length_drop, message.body_length]
    omega
  bodyLen_le := Nat.le_of_lt hfits

@[simp] theorem MessageText.text_overwrite (message : MessageText) (text : List UInt8)
    (hfits : text.length < messageBodySize) : (message.overwrite text hfits).text = text := by
  rw [MessageText.text, MessageText.overwrite, List.take_left]

/-- What the VM of a plugin does when it is called, with any type for `mrb_state`. -/
structure Ruby (V : Type*) where
  loadApi : V → V
  loadFile : List UInt8 → V → V
  exc : V → Bool
  clearExc : V → V
  setType : EventType → V → V
  setBody : List UInt8 → V → V
  setSuppressed : Bool → V → V
  respondsToOnEvent : V → Bool
  onEvent : V → V
  suppressed : V → Bool × V
  body : V → Option (List UInt8) × V

/-- `koe_plugin_descriptor_t`, the fields that are looked at. -/
structure PluginDescriptor where
  permissions : UInt32
  entryPoint : List UInt8
  enabled : ℤ

/-- `koe_plugin_t`; `none` is a `NULL` VM. -/
structure Plugin (V : Type*) where
  desc : PluginDescriptor
  vm : Option V
  loaded : ℤ
  eventsProcessed : UInt64
  eventsSuppressed : UInt64
  errors : UInt64

/-- `KOE_PLUGIN_PERM_MODIFY_EVENTS`. -/
def koePluginPermModifyEvents : UInt32 := 2

/-- The conditions under which the loop of a dispatch does not skip a plugin. -/
def Plugin.Listens {V : Type*} (plugin : Plugin V) : Prop :=
  plugin.loaded ≠ 0 ∧ plugin.desc.enabled ≠ 0 ∧
    plugin.desc.permissions &&& koePluginPermModifyEvents ≠ 0

instance {V : Type*} (plugin : Plugin V) : Decidable plugin.Listens :=
  inferInstanceAs (Decidable (_ ∧ _ ∧ _))

section Dispatch

variable {V ρ : Type*} (ruby : Ruby V)

/-- The VM after the event was shown to it and `on_event` has run. -/
def shown (ev : Event (EventData ρ)) (vm : V) : V :=
  let vm := ruby.setType ev.type vm
  let vm := if ev.type = .msgReceived then ruby.setBody ev.data.message.text vm else vm
  let vm := ruby.setSuppressed false vm
  if ruby.respondsToOnEvent vm then ruby.onEvent vm else vm

/-- The message with a new body, if Ruby returned a string and it is short enough. -/
def MessageText.rewrite (message : MessageText) : Option (List UInt8) → MessageText
  | none => message
  | some text => if hfits : text.length < messageBodySize then message.overwrite text hfits
    else message

/-- One round of the loop, for a plugin with a VM. -/
def serve (plugin : Plugin V) (vm : V) (ev : Event (EventData ρ)) :
    Plugin V × Event (EventData ρ) :=
  let answered := ruby.suppressed (shown ruby ev vm)
  let plugin :=
    if answered.1 then { plugin with eventsSuppressed := plugin.eventsSuppressed + 1 } else plugin
  let ev := if answered.1 then { ev with suppressed := 1 } else ev
  let reads := ev.type = .msgReceived ∧ ev.suppressed = 0
  let ev :=
    if reads then
      { ev with data :=
          { ev.data with message := ev.data.message.rewrite (ruby.body answered.2).1 } }
    else ev
  let vm := if reads then (ruby.body answered.2).2 else answered.2
  let plugin := if ruby.exc vm then { plugin with errors := plugin.errors + 1 } else plugin
  let vm := if ruby.exc vm then ruby.clearExc vm else vm
  ({ plugin with eventsProcessed := plugin.eventsProcessed + 1, vm := some vm }, ev)

/-- The loop over the plugins of the registry. -/
def dispatchLoop : List (Plugin V) → Event (EventData ρ) →
    Option (List (Plugin V) × Event (EventData ρ))
  | [], ev => some ([], ev)
  | plugin :: plugins, ev =>
    if plugin.Listens then
      match plugin.vm with
      | none => none
      | some vm =>
        let served := serve ruby plugin vm ev
        (dispatchLoop plugins served.2).map fun rest ↦ (served.1 :: rest.1, rest.2)
    else (dispatchLoop plugins ev).map fun rest ↦ (plugin :: rest.1, rest.2)

/-- The value returned, the plugins and the event after the call; `none` if a `NULL` pointer is
followed. -/
def koePluginDispatch (plugins : List (Plugin V)) (ev : Event (EventData ρ)) :
    Option (ℤ × List (Plugin V) × Event (EventData ρ)) :=
  (dispatchLoop ruby plugins ev).map fun result ↦
    (if result.2.suppressed ≠ 0 then 1 else 0, result.1, result.2)

end Dispatch

/-! ### One round -/

section Round

variable {V ρ : Type*} {ruby : Ruby V}

/-- What a round leaves of a plugin: it has a VM, has processed an event more, and may have
suppressed it or failed on it. -/
structure Plugin.Served (before after : Plugin V) : Prop where
  desc : after.desc = before.desc
  loaded : after.loaded = before.loaded
  vm : after.vm.isSome = true
  processed : after.eventsProcessed = before.eventsProcessed + 1
  suppressed : after.eventsSuppressed = before.eventsSuppressed ∨
    after.eventsSuppressed = before.eventsSuppressed + 1
  errors : after.errors = before.errors ∨ after.errors = before.errors + 1

theorem serve_served (ruby : Ruby V) (plugin : Plugin V) (vm : V) (ev : Event (EventData ρ)) :
    plugin.Served (serve ruby plugin vm ev).1 := by
  unfold serve
  dsimp only
  split_ifs
  all_goals exact ⟨rfl, rfl, rfl, rfl, by simp, by simp⟩

/-- What a plugin answers to a received message: whether it suppresses it, and what it makes of its
text. -/
def verdict (ruby : Ruby V) (vm : V) (text : List UInt8) : Bool × Option (List UInt8) :=
  let vm := ruby.setSuppressed false (ruby.setBody text (ruby.setType .msgReceived vm))
  let answered := ruby.suppressed (if ruby.respondsToOnEvent vm then ruby.onEvent vm else vm)
  (answered.1, (ruby.body answered.2).1)

/-- Assumes: a received message. -/
theorem serve_event {ev : Event (EventData ρ)} (htype : ev.type = .msgReceived)
    (plugin : Plugin V) (vm : V) :
    (serve ruby plugin vm ev).2 =
      if (verdict ruby vm ev.data.message.text).1 then { ev with suppressed := 1 }
      else if ev.suppressed = 0 then
        { ev with data := { ev.data with
            message := ev.data.message.rewrite (verdict ruby vm ev.data.message.text).2 } }
      else ev := by
  have hanswered : ruby.suppressed (shown ruby ev vm) =
      ruby.suppressed
        (let vm := ruby.setSuppressed false
          (ruby.setBody ev.data.message.text (ruby.setType .msgReceived vm))
        if ruby.respondsToOnEvent vm then ruby.onEvent vm else vm) := by
    simp only [shown, htype, if_true]
  have hverdict : (ruby.suppressed (shown ruby ev vm)).1 =
      (verdict ruby vm ev.data.message.text).1 := by
    rw [hanswered]
    rfl
  have hbody : (ruby.body (ruby.suppressed (shown ruby ev vm)).2).1 =
      (verdict ruby vm ev.data.message.text).2 := by
    rw [hanswered]
    rfl
  unfold serve
  dsimp only
  rw [hverdict, hbody]
  by_cases hsuppress : (verdict ruby vm ev.data.message.text).1 = true
  · simp [hsuppress]
  · simp [hsuppress, htype]

/-- Other events are not changed, except that they may be suppressed. Assumes: another event. -/
theorem serve_event_other {ev : Event (EventData ρ)} (htype : ev.type ≠ .msgReceived)
    (plugin : Plugin V) (vm : V) :
    (serve ruby plugin vm ev).2 = ev ∨
      (serve ruby plugin vm ev).2 = { ev with suppressed := 1 } := by
  unfold serve
  dsimp only
  by_cases hsuppress : (ruby.suppressed (shown ruby ev vm)).1 = true
  · exact Or.inr (by simp [hsuppress, htype])
  · exact Or.inl (by simp [hsuppress, htype])

end Round

/-! ### The chain -/

/-- The text that a plugin leaves. -/
def rewritten (text : List UInt8) : Option (List UInt8) → List UInt8
  | none => text
  | some new => if new.length < messageBodySize then new else text

/-- Each plugin sees the text as those before it left it, and the first that suppresses it ends the
chain. -/
def chain : List (List UInt8 → Bool × Option (List UInt8)) → List UInt8 → Bool × List UInt8
  | [], text => (false, text)
  | ask :: asks, text =>
    if (ask text).1 then (true, text) else chain asks (rewritten text (ask text).2)

section Chain

variable {V ρ : Type*} (ruby : Ruby V)

/-- The answers of the plugins that are asked, in the order of the registry. -/
def Plugin.asks : List (Plugin V) → List (List UInt8 → Bool × Option (List UInt8))
  | [] => []
  | plugin :: plugins =>
    if plugin.Listens then
      (plugin.vm.map (verdict ruby)).toList ++ Plugin.asks plugins
    else Plugin.asks plugins

/-- No plugin that would be asked lacks its VM. -/
def Plugin.AllPresent (plugins : List (Plugin V)) : Prop :=
  ∀ plugin ∈ plugins, plugin.Listens → plugin.vm.isSome = true

variable {ruby}

theorem MessageText.text_rewrite (message : MessageText) (new : Option (List UInt8)) :
    (message.rewrite new).text = rewritten message.text new := by
  cases new with
  | none => rfl
  | some text =>
    rw [MessageText.rewrite, rewritten]
    split_ifs with hfits
    · exact message.text_overwrite text hfits
    · rfl

/-- What a dispatch leaves of one plugin. -/
def Plugin.After (before after : Plugin V) : Prop :=
  if before.Listens then before.Served after else after = before

/-- The loop comes to an end exactly when every plugin it asks has its VM. -/
theorem dispatchLoop_isSome_iff (ruby : Ruby V) (plugins : List (Plugin V)) :
    ∀ ev : Event (EventData ρ),
      (dispatchLoop ruby plugins ev).isSome = true ↔ Plugin.AllPresent plugins := by
  induction plugins with
  | nil => exact fun ev ↦ iff_of_true rfl fun plugin hplugin ↦ absurd hplugin List.not_mem_nil
  | cons plugin plugins ih =>
    intro ev
    have hcons : Plugin.AllPresent (plugin :: plugins) ↔
        (plugin.Listens → plugin.vm.isSome = true) ∧ Plugin.AllPresent plugins := by
      simp [Plugin.AllPresent]
    rw [hcons]
    by_cases hlistens : plugin.Listens
    swap
    · rw [dispatchLoop, if_neg hlistens, Option.isSome_map, ih]
      simp [hlistens]
    rcases hvm : plugin.vm with _ | vm
    · simp [dispatchLoop, hlistens, hvm]
    · simp only [dispatchLoop, if_pos hlistens, hvm, Option.isSome_map, ih]
      simp

/-- The plugin at the head of a loop that comes to an end is skipped, or it is asked and the others
see the event as it leaves it. Assumes: a loop that comes to an end. -/
theorem dispatchLoop_cons_inv {plugin : Plugin V} {plugins after : List (Plugin V)}
    {ev result : Event (EventData ρ)}
    (hresult : dispatchLoop ruby (plugin :: plugins) ev = some (after, result)) :
    (¬ plugin.Listens ∧ ∃ rest, after = plugin :: rest ∧
        dispatchLoop ruby plugins ev = some (rest, result)) ∨
      (plugin.Listens ∧ ∃ vm rest, plugin.vm = some vm ∧
        after = (serve ruby plugin vm ev).1 :: rest ∧
        dispatchLoop ruby plugins (serve ruby plugin vm ev).2 = some (rest, result)) := by
  by_cases hlistens : plugin.Listens
  swap
  · rw [dispatchLoop, if_neg hlistens] at hresult
    obtain ⟨rest, hrest, heq⟩ := Option.map_eq_some_iff.mp hresult
    obtain ⟨rfl, rfl⟩ := Prod.mk.inj heq
    exact Or.inl ⟨hlistens, rest.1, rfl, hrest⟩
  rcases hvm : plugin.vm with _ | vm
  · simp [dispatchLoop, if_pos hlistens, hvm] at hresult
  · simp only [dispatchLoop, if_pos hlistens, hvm] at hresult
    obtain ⟨rest, hrest, heq⟩ := Option.map_eq_some_iff.mp hresult
    obtain ⟨rfl, rfl⟩ := Prod.mk.inj heq
    exact Or.inr ⟨hlistens, vm, rest.1, rfl, rfl, hrest⟩

/-- The loop leaves of each plugin what a round leaves. Assumes: a loop that comes to an end. -/
theorem dispatchLoop_after (plugins : List (Plugin V)) :
    ∀ {ev : Event (EventData ρ)} {after : List (Plugin V)} {result : Event (EventData ρ)},
      dispatchLoop ruby plugins ev = some (after, result) →
        List.Forall₂ Plugin.After plugins after := by
  induction plugins with
  | nil =>
    intro ev after result hresult
    obtain ⟨rfl, -⟩ := Prod.mk.inj (Option.some.inj hresult)
    exact List.Forall₂.nil
  | cons plugin plugins ih =>
    intro ev after result hresult
    rcases dispatchLoop_cons_inv hresult with
      ⟨hlistens, rest, rfl, hrest⟩ | ⟨hlistens, vm, rest, -, rfl, hrest⟩
    · refine List.Forall₂.cons ?_ (ih hrest)
      rw [Plugin.After, if_neg hlistens]
    · refine List.Forall₂.cons ?_ (ih hrest)
      rw [Plugin.After, if_pos hlistens]
      exact serve_served ruby plugin vm ev

/-- A dispatch follows a `NULL` pointer exactly when a plugin that is asked has no VM. -/
theorem koePluginDispatch_eq_none_iff (ruby : Ruby V) (plugins : List (Plugin V))
    (ev : Event (EventData ρ)) :
    koePluginDispatch ruby plugins ev = none ↔ ¬ Plugin.AllPresent plugins := by
  rw [koePluginDispatch, Option.map_eq_none_iff, ← dispatchLoop_isSome_iff ruby plugins ev]
  exact Option.not_isSome_iff_eq_none.symm

/-- A dispatch that returns is a loop that comes to an end, with `1` for a suppressed event.
Assumes: a dispatch that returns. -/
theorem dispatchLoop_of_koePluginDispatch {plugins : List (Plugin V)} {ev : Event (EventData ρ)}
    {result : ℤ × List (Plugin V) × Event (EventData ρ)}
    (hresult : koePluginDispatch ruby plugins ev = some result) :
    dispatchLoop ruby plugins ev = some result.2 ∧
      result.1 = if result.2.2.suppressed ≠ 0 then 1 else 0 := by
  obtain ⟨looped, hlooped, rfl⟩ := Option.map_eq_some_iff.mp hresult
  exact ⟨hlooped, rfl⟩

/-- Assumes: a dispatch that returns. -/
theorem koePluginDispatch_after {plugins : List (Plugin V)} {ev : Event (EventData ρ)}
    {result : ℤ × List (Plugin V) × Event (EventData ρ)}
    (hresult : koePluginDispatch ruby plugins ev = some result) :
    Plugin.AllPresent plugins ∧ List.Forall₂ Plugin.After plugins result.2.1 := by
  obtain ⟨hloop, -⟩ := dispatchLoop_of_koePluginDispatch hresult
  have hsome : (dispatchLoop ruby plugins ev).isSome = true := by
    rw [hloop]
    rfl
  exact ⟨(dispatchLoop_isSome_iff ruby plugins ev).mp hsome, dispatchLoop_after plugins hloop⟩

/-- What is left of an event: everything but the verdict and the message. -/
structure Event.Keeps (before after : Event (EventData ρ)) : Prop where
  type : after.type = before.type
  timestamp : after.timestamp = before.timestamp
  rest : after.data.rest = before.data.rest

/-- The verdict and the text of an event. -/
def Event.outcome (ev : Event (EventData ρ)) : Bool × List UInt8 :=
  (decide (ev.suppressed ≠ 0), ev.data.message.text)

/-- A message keeps its type in a round, and what the round does not touch. Assumes: a received
message. -/
theorem serve_keeps (ruby : Ruby V) {ev : Event (EventData ρ)} (htype : ev.type = .msgReceived)
    (plugin : Plugin V) (vm : V) : ev.Keeps (serve ruby plugin vm ev).2 := by
  rw [serve_event htype]
  split_ifs
  · exact ⟨rfl, rfl, rfl⟩
  · exact ⟨rfl, rfl, rfl⟩
  · exact ⟨rfl, rfl, rfl⟩

theorem Event.Keeps.trans {first second third : Event (EventData ρ)} (hfirst : first.Keeps second)
    (hsecond : second.Keeps third) : first.Keeps third :=
  ⟨hsecond.type.trans hfirst.type, hsecond.timestamp.trans hfirst.timestamp,
    hsecond.rest.trans hfirst.rest⟩

/-- Over the whole loop a message comes out as the chain has it, and a message that is already
suppressed as it was. Assumes: a received message, and a loop that comes to an end. -/
theorem dispatchLoop_outcome (plugins : List (Plugin V)) :
    ∀ {ev : Event (EventData ρ)} {after : List (Plugin V)} {result : Event (EventData ρ)},
      ev.type = .msgReceived → dispatchLoop ruby plugins ev = some (after, result) →
        ev.Keeps result ∧ result.outcome =
          if ev.suppressed = 0 then chain (Plugin.asks ruby plugins) ev.data.message.text
          else (true, ev.data.message.text) := by
  induction plugins with
  | nil =>
    intro ev after result htype hresult
    obtain ⟨rfl, rfl⟩ := Prod.mk.inj (Option.some.inj hresult)
    refine ⟨⟨rfl, rfl, rfl⟩, ?_⟩
    split_ifs with hzero
    · simp [Event.outcome, hzero, Plugin.asks, chain]
    · simp [Event.outcome, hzero]
  | cons plugin plugins ih =>
    intro ev after result htype hresult
    rcases dispatchLoop_cons_inv hresult with
      ⟨hlistens, rest, -, hrest⟩ | ⟨hlistens, vm, rest, hvm, -, hrest⟩
    · rw [Plugin.asks, if_neg hlistens]
      exact ih htype hrest
    have hkept := serve_keeps ruby htype plugin vm
    obtain ⟨hkeeps, houtcome⟩ := ih (hkept.type.trans htype) hrest
    refine ⟨hkept.trans hkeeps, ?_⟩
    have hasks : Plugin.asks ruby (plugin :: plugins) =
        verdict ruby vm :: Plugin.asks ruby plugins := by
      simp [Plugin.asks, if_pos hlistens, hvm]
    rw [houtcome, hasks, chain, serve_event htype]
    by_cases hsuppress : (verdict ruby vm ev.data.message.text).1 = true
    · -- From here on the message is suppressed, and its text stays.
      simp [hsuppress]
    · by_cases hzero : ev.suppressed = 0
      · simp [hsuppress, hzero, MessageText.text_rewrite]
      · simp [hsuppress, hzero]

/-- What a dispatch makes of a received message. It follows a `NULL` pointer exactly when a plugin
that is asked has no VM. Otherwise the message is suppressed and its text is what the chain of the
plugins makes of them, a message that was suppressed before stays as it is, `1` is returned exactly
for a suppressed message, nothing else of the event changes, every plugin that was asked has
processed one event more, and the others are as they were. Assumes: a received message. -/
theorem koePluginDispatch_refines_chain (ruby : Ruby V) (plugins : List (Plugin V))
    {ev : Event (EventData ρ)} (htype : ev.type = .msgReceived) :
    (koePluginDispatch ruby plugins ev = none ↔ ¬ Plugin.AllPresent plugins) ∧
      ∀ rc after result, koePluginDispatch ruby plugins ev = some (rc, after, result) →
        (result.outcome =
            if ev.suppressed = 0 then chain (Plugin.asks ruby plugins) ev.data.message.text
            else (true, ev.data.message.text)) ∧
          rc = (if result.outcome.1 then 1 else 0) ∧ ev.Keeps result ∧
          List.Forall₂ Plugin.After plugins after := by
  refine ⟨koePluginDispatch_eq_none_iff ruby plugins ev, fun rc after result hresult ↦ ?_⟩
  obtain ⟨hloop, hrc⟩ := dispatchLoop_of_koePluginDispatch hresult
  obtain ⟨hkeeps, houtcome⟩ := dispatchLoop_outcome plugins htype hloop
  refine ⟨houtcome, ?_, hkeeps, (koePluginDispatch_after hresult).2⟩
  change rc = _ at hrc
  rw [hrc]
  simp [Event.outcome]

end Chain

/-- A VM with a variable for the text and one for the verdict, and a word that it does not like. -/
structure ToyVm where
  text : List UInt8
  suppressed : Bool
  banned : List UInt8
  deriving DecidableEq

/-- A plugin that suppresses its word and puts an exclamation mark behind everything else. -/
def toyRuby : Ruby ToyVm where
  loadApi := id
  loadFile contents vm := { vm with banned := contents }
  exc _ := false
  clearExc := id
  setType _ := id
  setBody text vm := { vm with text := text }
  setSuppressed flag vm := { vm with suppressed := flag }
  respondsToOnEvent _ := true
  onEvent vm :=
    if vm.text = vm.banned then { vm with suppressed := true }
    else { vm with text := vm.text ++ [0x21] }
  suppressed vm := (vm.suppressed, vm)
  body vm := (some vm.text, vm)

/-- An enabled plugin that may modify events. -/
def toyPlugin (vm : Option ToyVm) (loaded : ℤ) : Plugin ToyVm where
  desc := ⟨koePluginPermModifyEvents, [], 1⟩
  vm := vm
  loaded := loaded
  eventsProcessed := 0
  eventsSuppressed := 0
  errors := 0

/-- A received message with the given text in front of the buffer. -/
def toyMessage (text : List UInt8) : Event (EventData Unit) where
  type := .msgReceived
  timestamp := 0
  suppressed := 0
  data := ⟨(⟨List.replicate messageBodySize 0, 0, List.length_replicate, Nat.zero_le _⟩ :
    MessageText).rewrite (some text), ()⟩

/-- Two plugins, with `a` and `b` for their words, see the message `c`. -/
theorem toyMessage_dispatched :
    let plugins := [toyPlugin (some ⟨[], false, [0x61]⟩) 1, toyPlugin (some ⟨[], false, [0x62]⟩) 1]
    ∃ after result, koePluginDispatch toyRuby plugins (toyMessage [0x63]) =
      some (0, after, result) ∧ result.outcome = (false, [0x63, 0x21, 0x21]) := by
  intro plugins
  have hpresent : Plugin.AllPresent plugins := by
    intro plugin hplugin _
    have hmem : plugin = toyPlugin (some ⟨[], false, [0x61]⟩) 1 ∨
        plugin = toyPlugin (some ⟨[], false, [0x62]⟩) 1 := by
      simpa [plugins] using hplugin
    rcases hmem with rfl | rfl
    · rfl
    · rfl
  obtain ⟨hnone, hresult⟩ := koePluginDispatch_refines_chain toyRuby plugins
    (show (toyMessage [0x63]).type = .msgReceived from rfl)
  obtain ⟨⟨rc, after, result⟩, hdispatch⟩ :=
    Option.ne_none_iff_exists'.mp fun hmissing ↦ hnone.mp hmissing hpresent
  obtain ⟨houtcome, hrc, -⟩ := hresult rc after result hdispatch
  have hchain : chain (Plugin.asks toyRuby plugins)
      (toyMessage [0x63]).data.message.text = (false, [0x63, 0x21, 0x21]) := by
    decide +kernel
  have hfresh : (toyMessage [0x63]).suppressed = 0 := rfl
  rw [if_pos hfresh, hchain] at houtcome
  rw [houtcome] at hrc
  refine ⟨after, result, ?_, houtcome⟩
  rw [hdispatch, hrc]
  rfl

end KoeCore
