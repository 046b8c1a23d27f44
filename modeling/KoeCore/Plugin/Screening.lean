import KoeCore.Event.Listeners
import KoeCore.Library.Transducer
import KoeCore.Plugin.Dispatch

/-!
# What listeners see of the events

The event loop of `koe_event.c` with the plugins of `koe_plugin.c` in it. A received message or
media offer that a poll takes out of the ring goes through `koe_plugin_dispatch` first, and the
listeners are called for it only if no plugin suppresses it.

The plugins of a process are those of a registry of which no plugin is asked without a VM
(`ReadyPlugins`); a dispatch then comes to an end and leaves such a registry. `screen` is what they
do to an event, a transducer from the events taken out of the ring to those that may be seen.
`koeEventPoll_screens` is about every run of a process, with listeners that post, register and
unregister, but do not poll: the plugins are in the state to which the events taken out lead,
listeners are called for what is emitted and for nothing else, in order, and a message reaches them
with the text of the chain. An event for which there is no listener is emitted to nobody.
-/

set_option autoImplicit false
set_option relaxedAutoImplicit false

namespace KoeCore

open DropOldest Transducer

/-! ### Plugins that are ready -/

/-- Plugins of which none is asked without a VM. -/
def ReadyPlugins (V : Type*) : Type _ := { plugins : List (Plugin V) // Plugin.AllPresent plugins }

section Ready

variable {V ρ : Type*}

/-- Assumes: what a dispatch leaves of each plugin. -/
theorem Plugin.allPresent_of_after {before after : List (Plugin V)}
    (hafter : List.Forall₂ Plugin.After before after) : Plugin.AllPresent after := by
  induction hafter with
  | nil => exact fun plugin hplugin ↦ absurd hplugin List.not_mem_nil
  | @cons first next before after hfirst _ ih =>
    intro plugin hplugin hlistens
    rcases List.mem_cons.mp hplugin with rfl | hlater
    · rw [Plugin.After] at hfirst
      split_ifs at hfirst with hbefore
      · exact hfirst.vm
      · exact absurd (hfirst ▸ hlistens) hbefore
    · exact ih plugin hlater hlistens

/-- A dispatch to plugins that are ready comes to an end. -/
theorem ReadyPlugins.isSome_dispatch (ruby : Ruby V) (plugins : ReadyPlugins V)
    (ev : Event (EventData ρ)) : (koePluginDispatch ruby plugins.val ev).isSome = true := by
  rw [koePluginDispatch, Option.isSome_map]
  exact (dispatchLoop_isSome_iff ruby plugins.val ev).mpr plugins.property

/-- `koe_plugin_dispatch`: the plugins and the event after the call. -/
def ReadyPlugins.dispatch (ruby : Ruby V) (plugins : ReadyPlugins V) (ev : Event (EventData ρ)) :
    ReadyPlugins V × Event (EventData ρ) :=
  let result := (koePluginDispatch ruby plugins.val ev).get (plugins.isSome_dispatch ruby ev)
  (⟨result.2.1, Plugin.allPresent_of_after
    (koePluginDispatch_after (Option.some_get _).symm).2⟩, result.2.2)

theorem ReadyPlugins.dispatchLoop_eq (ruby : Ruby V) (plugins : ReadyPlugins V)
    (ev : Event (EventData ρ)) :
    dispatchLoop ruby plugins.val ev =
      some ((plugins.dispatch ruby ev).1.val, (plugins.dispatch ruby ev).2) :=
  (dispatchLoop_of_koePluginDispatch (Option.some_get _).symm).1

/-- What a poll does with an event before the listeners: the plugins after it, and the event that
the listeners are called for, if they are. -/
def screen (ruby : Ruby V) (plugins : ReadyPlugins V) (ev : Event (EventData ρ)) :
    ReadyPlugins V × Option (Event (EventData ρ)) :=
  if ev.type = .msgReceived ∨ ev.type = .mediaOffer then
    let dispatched := plugins.dispatch ruby ev
    (dispatched.1, if dispatched.2.suppressed = 0 then some dispatched.2 else none)
  else (plugins, if ev.suppressed = 0 then some ev else none)

end Ready

/-! ### What passes the plugins -/

section Passing

variable {V ρ : Type*} {ruby : Ruby V}

/-- An event that comes through a filter for texts as another: it was not suppressed before, a
message has the text that the filter leaves, and everything else is as it was. -/
structure Event.Passes (filter : List UInt8 → Bool × List UInt8)
    (before after : Event (EventData ρ)) : Prop where
  unsuppressed : before.suppressed = 0
  keeps : before.Keeps after
  message : before.type = .msgReceived →
    filter before.data.message.text = (false, after.data.message.text)
  other : before.type ≠ .msgReceived → after = before

/-- Over the whole loop an event that is no message stays as it was, or is suppressed. Assumes:
another event, and a loop that comes to an end. -/
theorem dispatchLoop_other (plugins : List (Plugin V)) :
    ∀ {ev : Event (EventData ρ)} {after : List (Plugin V)} {result : Event (EventData ρ)},
      ev.type ≠ .msgReceived → dispatchLoop ruby plugins ev = some (after, result) →
        result = ev ∨ result = { ev with suppressed := 1 } := by
  induction plugins with
  | nil =>
    intro ev after result _ hresult
    exact Or.inl (Prod.mk.inj (Option.some.inj hresult)).2.symm
  | cons plugin plugins ih =>
    intro ev after result htype hresult
    rcases dispatchLoop_cons_inv hresult with ⟨-, rest, -, hrest⟩ | ⟨-, vm, rest, -, -, hrest⟩
    · exact ih htype hrest
    have hother : (serve ruby plugin vm ev).2 = ev ∨
        (serve ruby plugin vm ev).2 = { ev with suppressed := 1 } :=
      serve_event_other htype plugin vm
    rcases hother with hserved | hserved
    · rw [hserved] at hrest
      exact ih htype hrest
    · rw [hserved] at hrest
      have hstill : { ev with suppressed := 1 }.type ≠ .msgReceived := htype
      exact Or.inr ((ih hstill hrest).elim id id)

variable {plugins : ReadyPlugins V} {ev seen : Event (EventData ρ)}

/-- Assumes: a received message that is not suppressed. -/
theorem outcome_dispatch (htype : ev.type = .msgReceived) (hzero : ev.suppressed = 0) :
    (plugins.dispatch ruby ev).2.outcome =
      chain (Plugin.asks ruby plugins.val) ev.data.message.text := by
  have hloop := plugins.dispatchLoop_eq ruby ev
  rw [(dispatchLoop_outcome plugins.val htype hloop).2, if_pos hzero]

/-- A message is held back exactly when the chain suppresses it. Assumes: a received message that
is not suppressed. -/
theorem screen_eq_none_iff (htype : ev.type = .msgReceived) (hzero : ev.suppressed = 0) :
    (screen ruby plugins ev).2 = none ↔
      (chain (Plugin.asks ruby plugins.val) ev.data.message.text).1 = true := by
  rw [← outcome_dispatch htype hzero, screen, if_pos (Or.inl htype), Event.outcome]
  simp

/-- Assumes: an event that the listeners are called for. -/
theorem passes_of_screen (hseen : (screen ruby plugins ev).2 = some seen) :
    ev.Passes (chain (Plugin.asks ruby plugins.val)) seen := by
  have hloop := plugins.dispatchLoop_eq ruby ev
  rw [screen] at hseen
  by_cases hscreened : ev.type = .msgReceived ∨ ev.type = .mediaOffer
  · rw [if_pos hscreened, Option.ite_none_right_eq_some] at hseen
    obtain ⟨hpassed, hsome⟩ := hseen
    obtain rfl := Option.some.inj hsome
    by_cases htype : ev.type = .msgReceived
    · obtain ⟨hkeeps, houtcome⟩ := dispatchLoop_outcome plugins.val htype hloop
      have hverdict : (plugins.dispatch ruby ev).2.outcome =
          (false, (plugins.dispatch ruby ev).2.data.message.text) := by
        rw [Event.outcome, hpassed]
        rfl
      rw [hverdict] at houtcome
      split_ifs at houtcome with hzero
      · exact ⟨hzero, hkeeps, fun _ ↦ houtcome.symm, fun hother ↦ absurd htype hother⟩
      · exact absurd (congrArg Prod.fst houtcome) Bool.false_ne_true
    · rcases dispatchLoop_other plugins.val htype hloop with hsame | hsuppressed
      · rw [hsame] at hpassed ⊢
        exact ⟨hpassed, ⟨rfl, rfl, rfl⟩, fun hmessage ↦ absurd hmessage htype, fun _ ↦ rfl⟩
      · rw [hsuppressed] at hpassed
        exact absurd hpassed Int.one_ne_zero
  · rw [if_neg hscreened, Option.ite_none_right_eq_some] at hseen
    obtain ⟨hpassed, hsome⟩ := hseen
    obtain rfl := Option.some.inj hsome
    exact ⟨hpassed, ⟨rfl, rfl, rfl⟩, fun hmessage ↦ absurd (Or.inl hmessage) hscreened, fun _ ↦ rfl⟩

end Passing

/-! ### A process with plugins -/

/-- The plugins, the state of the rest of the application, and the calls of listeners so far. -/
structure Desk (V ρ φ γ σ : Type*) where
  plugins : ReadyPlugins V
  user : σ
  shown : List (Listener φ γ × Event (EventData ρ))

theorem length_zeroBody :
    (List.replicate messageBodySize (0 : UInt8)).length = messageBodySize :=
  List.length_replicate

instance : Inhabited MessageText :=
  ⟨⟨List.replicate messageBodySize 0, 0, length_zeroBody, Nat.zero_le _⟩⟩

instance {ρ : Type*} [Inhabited ρ] : Inhabited (EventData ρ) := ⟨⟨default, default⟩⟩

section Process

variable {V ρ φ γ σ : Type*}

/-- The code around the event loop, given its listeners. -/
def screenedApp (ruby : Ruby V)
    (onEvent : σ → Listener φ γ → Event (EventData ρ) → σ × List (LoopCall (EventData ρ) φ γ)) :
    App (EventData ρ) φ γ (Desk V ρ φ γ σ) where
  onEvent desk listener ev :=
    ({ desk with
        user := (onEvent desk.user listener ev).1
        shown := desk.shown ++ [(listener, ev)] },
      (onEvent desk.user listener ev).2)
  plugins := some fun desk ev ↦
    ({ desk with plugins := (desk.plugins.dispatch ruby ev).1 }, (desk.plugins.dispatch ruby ev).2)

namespace Machine

variable {ruby : Ruby V}
  {onEvent : σ → Listener φ γ → Event (EventData ρ) → σ × List (LoopCall (EventData ρ) φ γ)}
  {m : Machine (EventData ρ) φ γ (Desk V ρ φ γ σ)} {first : ReadyPlugins V}

/-- The plugins are where the events taken out lead, and the listeners have seen what these let
through. -/
structure Screened (ruby : Ruby V) (first : ReadyPlugins V)
    (m : Machine (EventData ρ) φ γ (Desk V ρ φ γ σ)) : Prop where
  plugins : m.app.plugins = after (screen ruby) first (taken m.history)
  shown : Repeats (m.app.shown.map Prod.snd) (output (screen ruby) first (taken m.history))

/-- What calls of the listeners for one event change. -/
structure Notified (ev : Event (EventData ρ)) (before after : Machine (EventData ρ) φ γ
    (Desk V ρ φ γ σ)) : Prop where
  plugins : after.app.plugins = before.app.plugins
  taken : taken after.history = taken before.history
  shown : ∃ count, after.app.shown.map Prod.snd =
    before.app.shown.map Prod.snd ++ List.replicate count ev

/-- Assumes: a machine whose listeners have seen what the plugins let through. -/
theorem Screened.congr {other : Machine (EventData ρ) φ γ (Desk V ρ φ γ σ)}
    (hscreened : m.Screened ruby first) (happ : other.app = m.app)
    (htaken : taken other.history = taken m.history) : other.Screened ruby first := by
  refine ⟨?_, ?_⟩
  · rw [happ, htaken]
    exact hscreened.plugins
  · rw [happ, htaken]
    exact hscreened.shown

variable (ruby onEvent)

/-- The plugins' part of a dispatch is one step of the transducer. -/
theorem pluginDispatch_screens (m : Machine (EventData ρ) φ γ (Desk V ρ φ γ σ))
    (ev : Event (EventData ρ)) :
    let dispatched := m.pluginDispatch (screenedApp ruby onEvent) ev
    dispatched.2.app.plugins = (screen ruby m.app.plugins ev).1 ∧
      (screen ruby m.app.plugins ev).2 =
        (if dispatched.1.suppressed = 0 then some dispatched.1 else none) ∧
      dispatched.2.history = m.history ∧ dispatched.2.app.shown = m.app.shown := by
  by_cases htype : ev.type = .msgReceived ∨ ev.type = .mediaOffer
  · rw [pluginDispatch, screen, if_pos htype, if_pos htype]
    exact ⟨rfl, rfl, rfl, rfl⟩
  · rw [pluginDispatch, screen, if_neg htype, if_neg htype]
    exact ⟨rfl, rfl, rfl, rfl⟩

variable [Inhabited ρ] [DecidableEq φ]

theorem taken_perform {δ σ : Type*} [Inhabited δ] (m : Machine δ φ γ σ) (call : LoopCall δ φ γ) :
    taken (m.perform call).history = taken m.history := by
  cases call with
  | post now ev =>
    rw [perform, taken_append]
    exact List.append_nil _
  | register listener => rfl
  | unregister fn => rfl

theorem taken_foldl_perform {δ σ : Type*} [Inhabited δ] (calls : List (LoopCall δ φ γ))
    (m : Machine δ φ γ σ) : taken (calls.foldl perform m).history = taken m.history := by
  induction calls generalizing m with
  | nil => rfl
  | cons call calls ih => rw [List.foldl_cons, ih, taken_perform]

theorem notified_notify (m : Machine (EventData ρ) φ γ (Desk V ρ φ γ σ)) (ev : Event (EventData ρ))
    (listener : Listener φ γ) :
    m.Notified ev (m.notify (screenedApp ruby onEvent) ev listener) := by
  refine ⟨?_, ?_, 1, ?_⟩
  · rw [notify, app_foldl_perform]
    rfl
  · rw [notify, taken_foldl_perform]
  · rw [notify, app_foldl_perform]
    exact List.map_append

theorem notified_notifyFrom (ev : Event (EventData ρ)) (left : ℕ) :
    ∀ (m : Machine (EventData ρ) φ γ (Desk V ρ φ γ σ)) (i : ℕ),
      m.Notified ev (m.notifyFrom (screenedApp ruby onEvent) ev left i) := by
  induction left with
  | zero =>
    intro m i
    exact ⟨rfl, rfl, 0, (List.append_nil _).symm⟩
  | succ left ih =>
    intro m i
    rw [notifyFrom]
    split
    · exact ⟨rfl, rfl, 0, (List.append_nil _).symm⟩
    · next listener _ =>
      obtain ⟨hplugins, htaken, count, hshown⟩ :=
        notified_notify ruby onEvent m ev listener
      obtain ⟨hplugins', htaken', count', hshown'⟩ :=
        ih (m.notify (screenedApp ruby onEvent) ev listener) (i + 1)
      refine ⟨hplugins'.trans hplugins, htaken'.trans htaken, count + count', ?_⟩
      rw [hshown', hshown, List.append_assoc, List.replicate_append_replicate]

variable {ruby onEvent}

/-- What an event does that was taken out. Assumes: the plugins and the listeners before it was. -/
theorem Screened.dispatch (hscreened : m.Screened ruby first) {ev : Event (EventData ρ)}
    {taking : Machine (EventData ρ) φ γ (Desk V ρ φ γ σ)} (happ : taking.app = m.app)
    (htaken : taken taking.history = taken m.history ++ [ev]) :
    (taking.dispatch (screenedApp ruby onEvent) ev).Screened ruby first := by
  obtain ⟨hplugins, hseen, hhistory, hshown⟩ :=
    pluginDispatch_screens ruby onEvent taking ev
  rw [happ] at hplugins hseen hshown
  have hafter : (screen ruby m.app.plugins ev).1 =
      after (screen ruby) first (taken m.history ++ [ev]) := by
    rw [after_concat, hscreened.plugins]
  have houtput : output (screen ruby) first (taken m.history ++ [ev]) =
      output (screen ruby) first (taken m.history) ++
        (screen ruby m.app.plugins ev).2.toList := by
    rw [output_concat, hscreened.plugins]
  rw [Machine.dispatch]
  by_cases hpassed : (taking.pluginDispatch (screenedApp ruby onEvent) ev).1.suppressed = 0
  · rw [if_pos hpassed]
    obtain ⟨hsame, hnothing, count, hcalls⟩ := notified_notifyFrom ruby onEvent
      (taking.pluginDispatch (screenedApp ruby onEvent) ev).1 koeMaxListeners
      (taking.pluginDispatch (screenedApp ruby onEvent) ev).2 0
    rw [if_pos hpassed] at hseen
    refine ⟨?_, ?_⟩
    · rw [hsame, hnothing, hplugins, hhistory, htaken, hafter]
    · rw [hcalls, hnothing, hhistory, htaken, houtput, hshown, hseen]
      exact hscreened.shown.snoc count _
  · rw [if_neg hpassed]
    rw [if_neg hpassed] at hseen
    refine ⟨?_, ?_⟩
    · rw [hplugins, hhistory, htaken, hafter]
    · rw [hhistory, htaken, houtput, hshown, hseen, Option.toList_none, List.append_nil]
      exact hscreened.shown

theorem Screened.pollLoop (rounds : ℕ) :
    ∀ {m : Machine (EventData ρ) φ γ (Desk V ρ φ γ σ)} (dispatched : ℕ), m.Screened ruby first →
      (m.pollLoop (screenedApp ruby onEvent) rounds dispatched).2.Screened ruby first := by
  induction rounds with
  | zero =>
    intro m dispatched hscreened
    exact hscreened
  | succ rounds ih =>
    intro m dispatched hscreened
    rw [Machine.pollLoop]
    split_ifs with hempty
    · refine hscreened.congr rfl ?_
      rw [findEmpty, taken_append]
      exact List.append_nil _
    · refine ih (dispatched + 1) (hscreened.dispatch rfl ?_)
      rw [takeOut, taken_append]
      rfl

theorem Screened.step (hscreened : m.Screened ruby first) (call : TopCall (EventData ρ) φ γ) :
    (m.step (screenedApp ruby onEvent) call).Screened ruby first := by
  cases call with
  | call call => exact hscreened.congr (app_perform m call) (taken_perform m call)
  | koeEventPoll rounds => exact Screened.pollLoop rounds 0 hscreened

end Machine

/-- Listeners see the events through the plugins, in every run of a process that starts with plugins
that are ready, with listeners that do not poll. The plugins are where the events taken out of the
ring lead; the calls of listeners are for the events that the plugins emit, in their order, for each
as many as there are listeners to call, also none. What a listener is called for is an event that
was taken out and has passed the chain of the plugins as they then were, and the plugins hold back a
message, if it was not suppressed before, exactly when this chain suppresses it. -/
theorem koeEventPoll_screens [Inhabited ρ] [DecidableEq φ] (ruby : Ruby V)
    (onEvent : σ → Listener φ γ → Event (EventData ρ) → σ × List (LoopCall (EventData ρ) φ γ))
    (first : ReadyPlugins V) (user : σ) (calls : List (TopCall (EventData ρ) φ γ)) :
    let m := calls.foldl (Machine.step (screenedApp ruby onEvent)) (Machine.start ⟨first, user, []⟩)
    m.app.plugins = after (screen ruby) first (taken m.history) ∧
      Repeats (m.app.shown.map Prod.snd) (output (screen ruby) first (taken m.history)) ∧
      (∀ call ∈ m.app.shown, ∃ front ev back, taken m.history = front ++ ev :: back ∧
        ev.Passes (chain (Plugin.asks ruby (after (screen ruby) first front).val)) call.2) ∧
      ∀ front ev back, taken m.history = front ++ ev :: back → ev.type = .msgReceived →
        ev.suppressed = 0 → ((screen ruby (after (screen ruby) first front) ev).2 = none ↔
          (chain (Plugin.asks ruby (after (screen ruby) first front).val)
            ev.data.message.text).1 = true) := by
  intro m
  have hscreened : m.Screened ruby first :=
    List.foldlRecOn calls _ ⟨rfl, repeats_nil⟩ fun _ hbefore call _ ↦ hbefore.step call
  refine ⟨hscreened.plugins, hscreened.shown, ?_, fun front ev back _ ↦ screen_eq_none_iff⟩
  intro call hcall
  have hemitted : call.2 ∈ output (screen ruby) first (taken m.history) :=
    hscreened.shown.mem (List.mem_map_of_mem hcall)
  obtain ⟨front, ev, back, hsplit, hseen⟩ := exists_of_mem_output (screen ruby) hemitted
  exact ⟨front, ev, back, hsplit, passes_of_screen hseen⟩

end Process

end KoeCore
