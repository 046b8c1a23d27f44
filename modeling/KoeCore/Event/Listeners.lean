import Mathlib.Data.List.InsertIdx
import KoeCore.Event.Ring
import KoeCore.Library.Runs
import KoeCore.Library.Walk

/-!
# Who is called for an event

`koe_event.h` says that listeners are called in registration order. To say which registration a call
goes to, `App.numbered` hands out a number with every call back into the event loop, a registration
keeps its number in the context of its listener, and the numbers of the listeners called are written
down. Forgetting the numbers gives the run of the event loop itself (`forget_run`).

The dispatch of an event delivers it (`DispatchDelivers`) if the numbers called increase and every
number that is in the table before and after it is called once. Numbers are not given out twice, so
these are the listeners registered throughout. A registration is appended to the table, but
`koe_event_unregister` moves the last listener into the place of the one removed. This keeps the
order of the others only if one of the last two is removed (`takeLastInto_eq_eraseIdx`), and during
a dispatch it must not move a listener behind the index of the loop.
`koeEventPoll_delivers` says that a run delivers every event when its removals are of this kind, and
`koeEventPoll_misdelivers` that otherwise listeners are called out of order or not at all.
-/

set_option autoImplicit false
set_option relaxedAutoImplicit false

namespace KoeCore

/-! ### Numbered registrations -/

section Numbered

variable {δ φ γ σ : Type*}

/-- The state of the application, the next number to be given out, and the numbers of the listeners
called so far. -/
structure Ledger (σ : Type*) where
  state : σ
  next : ℕ
  called : List ℕ

/-- A registration keeps its number in the context of its listener. -/
def LoopCall.numbered (number : ℕ) : LoopCall δ φ γ → LoopCall δ φ (ℕ × γ)
  | post now ev => post now ev
  | register listener => register ⟨listener.fn, (number, listener.ctx)⟩
  | unregister fn => unregister fn

/-- Calls with consecutive numbers. -/
def numberFrom : ℕ → List (LoopCall δ φ γ) → List (LoopCall δ φ (ℕ × γ))
  | _, [] => []
  | number, call :: calls => call.numbered number :: numberFrom (number + 1) calls

/-- The listener as it was registered. -/
def Listener.forget (listener : Listener φ (ℕ × γ)) : Listener φ γ :=
  ⟨listener.fn, listener.ctx.2⟩

/-- The same application, with its calls numbered. -/
def App.numbered (app : App δ φ γ σ) : App δ φ (ℕ × γ) (Ledger σ) where
  onEvent ledger listener ev :=
    (⟨(app.onEvent ledger.state listener.forget ev).1,
      ledger.next + (app.onEvent ledger.state listener.forget ev).2.length,
      ledger.called ++ [listener.ctx.1]⟩,
     numberFrom ledger.next (app.onEvent ledger.state listener.forget ev).2)
  plugins := app.plugins.map fun dispatch ledger ev ↦
    ({ ledger with state := (dispatch ledger.state ev).1 }, (dispatch ledger.state ev).2)

/-- The event loop with every listener replaced. -/
def EventLoop.mapListeners {γ' : Type*} (f : Listener φ γ → Listener φ γ')
    (loop : EventLoop δ φ γ) : EventLoop δ φ γ' :=
  ⟨loop.events, loop.head, loop.tail, loop.listeners.map f, loop.initialised⟩

namespace Machine

/-- The numbers in the table of listeners. -/
def numbers (m : Machine δ φ (ℕ × γ) σ) : List ℕ := m.loop.listeners.map fun l ↦ l.ctx.1

/-- The machine without the numbers. -/
def forget (m : Machine δ φ (ℕ × γ) (Ledger σ)) : Machine δ φ γ σ :=
  ⟨m.loop.mapListeners Listener.forget, m.app.state, m.history⟩

variable [Inhabited δ] [DecidableEq φ]

def numberedStart (state : σ) : Machine δ φ (ℕ × γ) (Ledger σ) := start ⟨state, 0, []⟩

/-- A top-level call gets a number as well. -/
def numberedStep (app : App δ φ γ σ) (m : Machine δ φ (ℕ × γ) (Ledger σ)) :
    TopCall δ φ γ → Machine δ φ (ℕ × γ) (Ledger σ)
  | .call call =>
    { m with app := { m.app with next := m.app.next + 1 } }.perform (call.numbered m.app.next)
  | .koeEventPoll rounds => (m.koeEventPoll app.numbered rounds).2

end Machine

/-! ### Forgetting the numbers -/

section MapListeners

variable {γ' : Type*} {f : Listener φ γ → Listener φ γ'}

@[simp] theorem EventLoop.mapListeners_head (loop : EventLoop δ φ γ) :
    (loop.mapListeners f).head = loop.head := rfl

@[simp] theorem EventLoop.mapListeners_tail (loop : EventLoop δ φ γ) :
    (loop.mapListeners f).tail = loop.tail := rfl

@[simp] theorem EventLoop.mapListeners_listeners (loop : EventLoop δ φ γ) :
    (loop.mapListeners f).listeners = loop.listeners.map f := rfl

theorem takeLastInto_map (f : Listener φ γ → Listener φ γ') (i : ℕ)
    (listeners : List (Listener φ γ)) :
    takeLastInto i (listeners.map f) = (takeLastInto i listeners).map f := by
  cases hlast : listeners.getLast? with
  | none => simp [takeLastInto, hlast]
  | some last => simp [takeLastInto, hlast, List.map_dropLast, List.map_set]

/-- Assumes: listeners that keep their function. -/
theorem koeEventUnregister_mapListeners [DecidableEq φ]
    (hfn : ∀ listener, (f listener).fn = listener.fn) (fn : φ) (loop : EventLoop δ φ γ) :
    (koeEventUnregister fn (loop.mapListeners f)).2 =
      (koeEventUnregister fn loop).2.mapListeners f := by
  have hfind : (loop.mapListeners f).listeners.findIdx? (fun l ↦ decide (l.fn = fn)) =
      loop.listeners.findIdx? fun l ↦ decide (l.fn = fn) := by
    rw [EventLoop.mapListeners, List.findIdx?_map]
    simp only [Function.comp_def, hfn]
  rw [koeEventUnregister, koeEventUnregister, hfind]
  cases loop.listeners.findIdx? fun l ↦ decide (l.fn = fn) with
  | none => rfl
  | some i =>
    simp only [EventLoop.mapListeners, takeLastInto_map]

variable [Inhabited δ]

theorem ensureInit_mapListeners (f : Listener φ γ → Listener φ γ') (loop : EventLoop δ φ γ) :
    ensureInit (loop.mapListeners f) = (ensureInit loop).mapListeners f := by
  rw [ensureInit, ensureInit, apply_ite (EventLoop.mapListeners f)]
  rfl

theorem koeEventPost_mapListeners (f : Listener φ γ → Listener φ γ') (now : ℤ) (ev : Event δ)
    (loop : EventLoop δ φ γ) :
    (koeEventPost now ev (loop.mapListeners f)).2 =
      (koeEventPost now ev loop).2.mapListeners f := by
  simp only [koeEventPost, ensureInit_mapListeners]
  by_cases hfull : 512 ≤ (ensureInit loop).tail - (ensureInit loop).head
  · simp only [EventLoop.mapListeners_head, EventLoop.mapListeners_tail, hfull, if_true]
    rfl
  · simp only [EventLoop.mapListeners_head, EventLoop.mapListeners_tail, hfull, if_false]
    rfl

theorem koeEventRegister_mapListeners (f : Listener φ γ → Listener φ γ')
    (listener : Listener φ γ) (loop : EventLoop δ φ γ) :
    (koeEventRegister (f listener) (loop.mapListeners f)).2 =
      (koeEventRegister listener loop).2.mapListeners f := by
  simp only [koeEventRegister, ensureInit_mapListeners]
  by_cases hfull : koeMaxListeners ≤ (ensureInit loop).listeners.length
  · simp only [EventLoop.mapListeners_listeners, List.length_map, if_pos hfull]
  · simp only [EventLoop.mapListeners_listeners, List.length_map, if_neg hfull]
    simp only [EventLoop.mapListeners, List.map_append, List.map_cons, List.map_nil]

end MapListeners

namespace Machine

variable [Inhabited δ] [DecidableEq φ]

theorem forget_perform (m : Machine δ φ (ℕ × γ) (Ledger σ)) (number : ℕ)
    (call : LoopCall δ φ γ) :
    (m.perform (call.numbered number)).forget = m.forget.perform call := by
  cases call with
  | post now ev =>
    simp only [LoopCall.numbered, forget, perform, koeEventPost_mapListeners]
  | register listener =>
    have hregister := koeEventRegister_mapListeners Listener.forget
      (⟨listener.fn, (number, listener.ctx)⟩ : Listener φ (ℕ × γ)) m.loop
    simp only [LoopCall.numbered, forget, perform, ← hregister]
    rfl
  | unregister fn =>
    have hunregister := koeEventUnregister_mapListeners (fun _ ↦ rfl : ∀ l : Listener φ (ℕ × γ),
      l.forget.fn = l.fn) fn m.loop
    simp only [LoopCall.numbered, forget, perform, hunregister]

theorem forget_foldl_perform (calls : List (LoopCall δ φ γ)) (number : ℕ)
    (m : Machine δ φ (ℕ × γ) (Ledger σ)) :
    ((numberFrom number calls).foldl perform m).forget = calls.foldl perform m.forget := by
  induction calls generalizing number m with
  | nil => rfl
  | cons call calls ih =>
    rw [numberFrom, List.foldl_cons, List.foldl_cons, ih, forget_perform]

theorem forget_notify (app : App δ φ γ σ) (ev : Event δ) (m : Machine δ φ (ℕ × γ) (Ledger σ))
    (listener : Listener φ (ℕ × γ)) :
    (m.notify app.numbered ev listener).forget = m.forget.notify app ev listener.forget :=
  forget_foldl_perform _ _ _

theorem forget_notifyFrom (app : App δ φ γ σ) (ev : Event δ) (left : ℕ) :
    ∀ (i : ℕ) (m : Machine δ φ (ℕ × γ) (Ledger σ)),
      (m.notifyFrom app.numbered ev left i).forget = m.forget.notifyFrom app ev left i := by
  induction left with
  | zero =>
    intro i m
    rfl
  | succ left ih =>
    intro i m
    have hat : m.forget.loop.listeners[i]? = m.loop.listeners[i]?.map Listener.forget :=
      List.getElem?_map
    rw [notifyFrom, notifyFrom, hat]
    cases m.loop.listeners[i]? with
    | none => rfl
    | some listener =>
      simp only [Option.map_some]
      rw [ih, forget_notify]

omit [Inhabited δ] [DecidableEq φ] in
theorem forget_pluginDispatch (app : App δ φ γ σ) (ev : Event δ)
    (m : Machine δ φ (ℕ × γ) (Ledger σ)) :
    ((m.pluginDispatch app.numbered ev).1, (m.pluginDispatch app.numbered ev).2.forget) =
      m.forget.pluginDispatch app ev := by
  simp only [pluginDispatch]
  split_ifs
  · simp only [App.numbered]
    cases app.plugins with
    | none => rfl
    | some dispatch => rfl
  · rfl

theorem forget_dispatch (app : App δ φ γ σ) (ev : Event δ) (m : Machine δ φ (ℕ × γ) (Ledger σ)) :
    (m.dispatch app.numbered ev).forget = m.forget.dispatch app ev := by
  rw [dispatch, dispatch, ← forget_pluginDispatch, ← forget_notifyFrom, apply_ite forget]

theorem forget_pollLoop (app : App δ φ γ σ) (rounds : ℕ) :
    ∀ (dispatched : ℕ) (m : Machine δ φ (ℕ × γ) (Ledger σ)),
      (m.pollLoop app.numbered rounds dispatched).2.forget =
        (m.forget.pollLoop app rounds dispatched).2 := by
  induction rounds with
  | zero =>
    intro dispatched m
    rfl
  | succ rounds ih =>
    intro dispatched m
    have hforget (ev : Event δ) : (m.takeOut.dispatch app.numbered ev).forget =
        m.forget.takeOut.dispatch app ev := forget_dispatch app ev m.takeOut
    rw [pollLoop, pollLoop]
    by_cases hempty : m.loop.head = m.loop.tail
    · have hforgetEmpty : m.forget.loop.head = m.forget.loop.tail := hempty
      rw [if_pos hempty, if_pos hforgetEmpty]
      rfl
    · have hforgetSome : ¬ m.forget.loop.head = m.forget.loop.tail := hempty
      rw [if_neg hempty, if_neg hforgetSome, ih, hforget]
      rfl

theorem forget_numberedStep (app : App δ φ γ σ) (m : Machine δ φ (ℕ × γ) (Ledger σ))
    (call : TopCall δ φ γ) : (m.numberedStep app call).forget = m.forget.step app call := by
  cases call with
  | call call => exact forget_perform _ _ call
  | koeEventPoll rounds => exact forget_pollLoop app rounds 0 m

/-- Forgetting the numbers gives the run of the event loop. -/
theorem forget_run (app : App δ φ γ σ) (state : σ) (calls : List (TopCall δ φ γ)) :
    (calls.foldl (numberedStep app) (numberedStart state)).forget =
      calls.foldl (step app) (start state) := by
  have hrun (m : Machine δ φ (ℕ × γ) (Ledger σ)) :
      (calls.foldl (numberedStep app) m).forget = calls.foldl (step app) m.forget := by
    induction calls generalizing m with
    | nil => rfl
    | cons call calls ih =>
      rw [List.foldl_cons, List.foldl_cons, ih, forget_numberedStep]
  exact hrun _

end Machine

end Numbered

/-! ### Delivery, and removals that keep it -/

section Removal

variable {δ φ γ σ : Type*}

/-- The index at which the loop of `koe_event_unregister` finds the function. -/
def removedAt [DecidableEq φ] (fn : φ) (listeners : List (Listener φ γ)) : Option ℕ :=
  listeners.findIdx? fun listener ↦ decide (listener.fn = fn)

/-- The other listeners keep their order if one of the last two is removed. Assumes: an index in the
table. -/
theorem takeLastInto_eq_eraseIdx {listeners : List (Listener φ γ)} {j : ℕ}
    (hj : j < listeners.length) (hlate : listeners.length ≤ j + 2) :
    takeLastInto j listeners = listeners.eraseIdx j := by
  obtain ⟨front, back, rfl, rfl⟩ : ∃ front back, listeners = front ++ back ∧ j = front.length :=
    ⟨listeners.take j, listeners.drop j, (List.take_append_drop j listeners).symm,
      (List.length_take_of_le (Nat.le_of_lt hj)).symm⟩
  rw [List.length_append] at hj hlate
  rw [List.eraseIdx_append_of_length_le (Nat.le_refl _), Nat.sub_self]
  match back with
  | [] => exact absurd hj (by simp)
  | [only] => simp [takeLastInto]
  | [removed, last] => simp [takeLastInto]
  | _ :: _ :: _ :: _ => simp at hlate

namespace Machine

variable [DecidableEq φ]

/-- A removal is of one of the last two listeners, and moves none behind the index that the loop
over the listeners reads next. Outside of a dispatch that index is `0`. -/
def RemovesInOrder (next : ℕ) (m : Machine δ φ γ σ) : LoopCall δ φ γ → Prop
  | .unregister fn => ∀ j ∈ removedAt fn m.loop.listeners,
      m.loop.listeners.length ≤ j + 2 ∧ (next ≤ j ∨ m.loop.listeners.length ≤ next)
  | .post _ _ => True
  | .register _ => True

instance decidableRemovesInOrder (next : ℕ) (m : Machine δ φ γ σ) :
    ∀ call, Decidable (m.RemovesInOrder next call)
  | .unregister fn => inferInstanceAs (Decidable (∀ j ∈ removedAt fn m.loop.listeners,
      m.loop.listeners.length ≤ j + 2 ∧ (next ≤ j ∨ m.loop.listeners.length ≤ next)))
  | .post _ _ => isTrue trivial
  | .register _ => isTrue trivial

variable [Inhabited δ]

/-- The removals by the listeners from the `i`-th on, while they are called for an event. -/
def NotifiesInOrder (app : App δ φ γ σ) (ev : Event δ) : ℕ → ℕ → Machine δ φ γ σ → Prop
  | 0, _, _ => True
  | left + 1, i, m => ∀ listener ∈ m.loop.listeners[i]?,
      Runs.AllSteps perform (RemovesInOrder (i + 1))
          { m with app := (app.onEvent m.app listener ev).1 }
          (app.onEvent m.app listener ev).2 ∧
        NotifiesInOrder app ev left (i + 1) (m.notify app ev listener)

instance decidableNotifiesInOrder (app : App δ φ γ σ) (ev : Event δ) :
    ∀ left i m, Decidable (NotifiesInOrder app ev left i m)
  | 0, _, _ => isTrue trivial
  | left + 1, i, m =>
    haveI (listener : Listener φ γ) :=
      decidableNotifiesInOrder app ev left (i + 1) (m.notify app ev listener)
    inferInstanceAs (Decidable (∀ listener ∈ m.loop.listeners[i]?, _ ∧ _))

/-- The removals during the dispatch of an event. -/
def DispatchesInOrder (app : App δ φ γ σ) (ev : Event δ) (m : Machine δ φ γ σ) : Prop :=
  (m.pluginDispatch app ev).1.suppressed = 0 →
    NotifiesInOrder app (m.pluginDispatch app ev).1 koeMaxListeners 0 (m.pluginDispatch app ev).2

instance decidableDispatchesInOrder (app : App δ φ γ σ) (ev : Event δ) (m : Machine δ φ γ σ) :
    Decidable (m.DispatchesInOrder app ev) :=
  inferInstanceAs (Decidable (_ → _))

/-- A statement about the dispatch of each event of a poll. -/
def AlongPoll (app : App δ φ γ σ) (holds : Event δ → Machine δ φ γ σ → Prop) :
    ℕ → Machine δ φ γ σ → Prop
  | 0, _ => True
  | rounds + 1, m => m.loop.head ≠ m.loop.tail →
      holds (m.loop.events (slot m.loop.head)) m.takeOut ∧
        AlongPoll app holds rounds (m.takeOut.dispatch app (m.loop.events (slot m.loop.head)))

instance decidableAlongPoll (app : App δ φ γ σ) (holds : Event δ → Machine δ φ γ σ → Prop)
    [∀ ev m, Decidable (holds ev m)] : ∀ rounds m, Decidable (AlongPoll app holds rounds m)
  | 0, _ => isTrue trivial
  | rounds + 1, m =>
    haveI := decidableAlongPoll app holds rounds
      (m.takeOut.dispatch app (m.loop.events (slot m.loop.head)))
    inferInstanceAs (Decidable (m.loop.head ≠ m.loop.tail → _ ∧ _))

/-- The numbers of the listeners called in the dispatch of an event. -/
def calledFor (app : App δ φ γ σ) (ev : Event δ) (m : Machine δ φ (ℕ × γ) (Ledger σ)) : List ℕ :=
  (m.dispatch app.numbered ev).app.called.drop m.app.called.length

/-- An event that is not suppressed goes to the listeners in the order in which they were
registered, and once to each that is registered throughout. -/
def DispatchDelivers (app : App δ φ γ σ) (ev : Event δ)
    (m : Machine δ φ (ℕ × γ) (Ledger σ)) : Prop :=
  (m.pluginDispatch app.numbered ev).1.suppressed = 0 →
    (m.calledFor app ev).Pairwise (· < ·) ∧
      ∀ number ∈ m.numbers, number ∈ (m.dispatch app.numbered ev).numbers →
        (m.calledFor app ev).count number = 1

instance decidableDispatchDelivers (app : App δ φ γ σ) (ev : Event δ)
    (m : Machine δ φ (ℕ × γ) (Ledger σ)) : Decidable (m.DispatchDelivers app ev) :=
  inferInstanceAs (Decidable (_ → _ ∧ ∀ number ∈ m.numbers, _ → _))

/-- The removals in a top-level call are in order. -/
def CallInOrder (app : App δ φ γ σ) (m : Machine δ φ (ℕ × γ) (Ledger σ)) : TopCall δ φ γ → Prop
  | .call call => m.RemovesInOrder 0 (call.numbered m.app.next)
  | .koeEventPoll rounds => m.AlongPoll app.numbered (DispatchesInOrder app.numbered) rounds

instance decidableCallInOrder (app : App δ φ γ σ) (m : Machine δ φ (ℕ × γ) (Ledger σ)) :
    ∀ call, Decidable (m.CallInOrder app call)
  | .call call => inferInstanceAs (Decidable (m.RemovesInOrder 0 (call.numbered m.app.next)))
  | .koeEventPoll rounds =>
    inferInstanceAs (Decidable (m.AlongPoll app.numbered (DispatchesInOrder app.numbered) rounds))

/-- A poll delivers its events. -/
def CallDelivers (app : App δ φ γ σ) (m : Machine δ φ (ℕ × γ) (Ledger σ)) :
    TopCall δ φ γ → Prop
  | .call _ => True
  | .koeEventPoll rounds => m.AlongPoll app.numbered (DispatchDelivers app) rounds

instance decidableCallDelivers (app : App δ φ γ σ) (m : Machine δ φ (ℕ × γ) (Ledger σ)) :
    ∀ call, Decidable (m.CallDelivers app call)
  | .call _ => isTrue trivial
  | .koeEventPoll rounds =>
    inferInstanceAs (Decidable (m.AlongPoll app.numbered (DispatchDelivers app) rounds))

/-! ### What a call does to the table -/

omit [DecidableEq φ] in
theorem listeners_ensureInit (loop : EventLoop δ φ γ) :
    (ensureInit loop).listeners = loop.listeners := by
  rw [ensureInit]
  split_ifs <;> rfl

omit [DecidableEq φ] in
theorem listeners_koeEventPost (now : ℤ) (ev : Event δ) (loop : EventLoop δ φ γ) :
    (koeEventPost now ev loop).2.listeners = loop.listeners := by
  rw [← listeners_ensureInit loop]
  simp only [koeEventPost]
  split_ifs <;> rfl

omit [DecidableEq φ] in
theorem listeners_koeEventRegister (listener : Listener φ γ) (loop : EventLoop δ φ γ) :
    (koeEventRegister listener loop).2.listeners =
      if koeMaxListeners ≤ loop.listeners.length then loop.listeners
      else loop.listeners ++ [listener] := by
  rw [← listeners_ensureInit loop]
  simp only [koeEventRegister]
  split_ifs <;> rfl

theorem app_perform (m : Machine δ φ γ σ) (call : LoopCall δ φ γ) :
    (m.perform call).app = m.app := by
  cases call <;> rfl

theorem app_foldl_perform (calls : List (LoopCall δ φ γ)) (m : Machine δ φ γ σ) :
    (calls.foldl perform m).app = m.app := by
  induction calls generalizing m with
  | nil => rfl
  | cons call calls ih => rw [List.foldl_cons, ih, app_perform]

/-- A walk over the table of listeners, which has room for 32. -/
structure Walking (start visited : List ℕ) (i number : ℕ) (m : Machine δ φ (ℕ × γ) σ) : Prop where
  walk : Walk start visited i number m.numbers
  length_le : m.loop.listeners.length ≤ koeMaxListeners

omit [Inhabited δ] in
theorem listeners_koeEventUnregister (fn : φ) (loop : EventLoop δ φ γ) :
    (koeEventUnregister fn loop).2.listeners =
      ((removedAt fn loop.listeners).map (takeLastInto · loop.listeners)).getD loop.listeners := by
  rw [koeEventUnregister, removedAt]
  cases loop.listeners.findIdx? fun listener ↦ decide (listener.fn = fn) with
  | none => rfl
  | some j => rfl

variable {start visited : List ℕ} {i number : ℕ} {m : Machine δ φ (ℕ × γ) σ}

omit [DecidableEq φ] [Inhabited δ] in
/-- Assumes: what the table holds. -/
theorem walking_of_listeners {listeners : List (Listener φ (ℕ × γ))}
    (hlisteners : m.loop.listeners = listeners)
    (hwalk : Walk start visited i number (listeners.map fun l ↦ l.ctx.1))
    (hlength : listeners.length ≤ koeMaxListeners) : m.Walking start visited i number :=
  ⟨by rwa [numbers, hlisteners], by rwa [hlisteners]⟩

/-- Assumes: a removal in order. -/
theorem Walking.perform (hwalking : m.Walking start visited i number) (call : LoopCall δ φ γ)
    (horder : m.RemovesInOrder i (call.numbered number)) :
    (m.perform (call.numbered number)).Walking start visited i (number + 1) := by
  have hraised : Walk start visited i (number + 1) m.numbers :=
    hwalking.walk.raise (Nat.le_succ number)
  cases call with
  | post now ev =>
    exact walking_of_listeners (listeners_koeEventPost now ev m.loop) hraised hwalking.length_le
  | register listener =>
    have hlisteners := listeners_koeEventRegister
      (⟨listener.fn, (number, listener.ctx)⟩ : Listener φ (ℕ × γ)) m.loop
    by_cases hfull : koeMaxListeners ≤ m.loop.listeners.length
    · rw [if_pos hfull] at hlisteners
      exact walking_of_listeners hlisteners hraised hwalking.length_le
    · rw [if_neg hfull] at hlisteners
      refine walking_of_listeners hlisteners ?_ ?_
      · rw [List.map_append]
        exact hwalking.walk.append (Nat.lt_succ_self number)
      · rw [List.length_append]
        exact Nat.not_le.mp hfull
  | unregister fn =>
    have hlisteners := listeners_koeEventUnregister fn m.loop
    cases hremoved : removedAt fn m.loop.listeners with
    | none =>
      rw [hremoved] at hlisteners
      exact walking_of_listeners hlisteners hraised hwalking.length_le
    | some j =>
      obtain ⟨hlate, hahead⟩ := horder j hremoved
      obtain ⟨hj, -⟩ := List.findIdx?_eq_some_iff_getElem.mp hremoved
      rw [hremoved, Option.map_some, Option.getD_some, takeLastInto_eq_eraseIdx hj hlate]
        at hlisteners
      refine walking_of_listeners hlisteners ?_ ?_
      · rw [← List.eraseIdx_map]
        refine hraised.erase ?_
        rwa [numbers, List.length_map]
      · exact Nat.le_trans (List.length_eraseIdx_le _ _) hwalking.length_le

/-- Assumes: removals in order. -/
theorem Walking.foldl_perform (calls : List (LoopCall δ φ γ)) :
    ∀ {number : ℕ} {m : Machine δ φ (ℕ × γ) σ}, m.Walking start visited i number →
      Runs.AllSteps Machine.perform (RemovesInOrder i) m (numberFrom number calls) →
      ((numberFrom number calls).foldl Machine.perform m).Walking start visited i
        (number + calls.length) := by
  induction calls with
  | nil =>
    intro number m hwalking _
    exact hwalking
  | cons call calls ih =>
    intro number m hwalking horder
    have hrest := ih (hwalking.perform call horder.1) horder.2
    rwa [Nat.add_right_comm] at hrest

/-! ### Whole dispatches -/

section Dispatch

variable {app : App δ φ γ σ} {ev : Event δ} {m : Machine δ φ (ℕ × γ) (Ledger σ)}

/-- The loop over the listeners walks over the table to its end. Assumes: rounds for the rest of the
table, and removals in order. -/
theorem Walking.notifyFrom (left : ℕ) :
    ∀ {i : ℕ} {visited : List ℕ} {m : Machine δ φ (ℕ × γ) (Ledger σ)},
      koeMaxListeners ≤ i + left → m.Walking start visited i m.app.next →
      m.NotifiesInOrder app.numbered ev left i →
      ∃ called last, (m.notifyFrom app.numbered ev left i).app.called = m.app.called ++ called ∧
        (m.notifyFrom app.numbered ev left i).Walking start (visited ++ called) last
          (m.notifyFrom app.numbered ev left i).app.next ∧
        (m.notifyFrom app.numbered ev left i).loop.listeners.length ≤ last := by
  induction left with
  | zero =>
    intro i visited m hrounds hwalking _
    refine ⟨[], i, (List.append_nil _).symm, ?_, Nat.le_trans hwalking.length_le hrounds⟩
    rwa [List.append_nil]
  | succ left ih =>
    intro i visited m hrounds hwalking horder
    cases hat : m.loop.listeners[i]? with
    | none =>
      have hend : m.notifyFrom app.numbered ev (left + 1) i = m := by
        rw [Machine.notifyFrom, hat]
      rw [hend]
      refine ⟨[], i, (List.append_nil _).symm, ?_, List.getElem?_eq_none_iff.mp hat⟩
      rwa [List.append_nil]
    | some listener =>
      have hnext : m.notifyFrom app.numbered ev (left + 1) i =
          (m.notify app.numbered ev listener).notifyFrom app.numbered ev left (i + 1) := by
        rw [Machine.notifyFrom, hat]
      obtain ⟨hcalls, hrest⟩ := horder listener hat
      have hvisit : Walk start (visited ++ [listener.ctx.1]) (i + 1) m.app.next m.numbers :=
        hwalking.walk.visit (by rw [numbers, List.getElem?_map, hat, Option.map_some])
      have hnotified : (m.notify app.numbered ev listener).Walking start
          (visited ++ [listener.ctx.1]) (i + 1) (m.notify app.numbered ev listener).app.next := by
        have hstarted : { m with app := (app.numbered.onEvent m.app listener ev).1 }.Walking start
            (visited ++ [listener.ctx.1]) (i + 1) m.app.next := ⟨hvisit, hwalking.length_le⟩
        rw [notify, app_foldl_perform]
        exact hstarted.foldl_perform (app.onEvent m.app.state listener.forget ev).2 hcalls
      obtain ⟨called, last, hcalled, hlast, hend⟩ := ih (by omega) hnotified hrest
      have hnow : (m.notify app.numbered ev listener).app.called =
          m.app.called ++ [listener.ctx.1] := by
        rw [notify, app_foldl_perform]
        rfl
      rw [hnext]
      refine ⟨listener.ctx.1 :: called, last, ?_, ?_, hend⟩
      · rw [hcalled, hnow, List.append_assoc, List.singleton_append]
      · rwa [List.append_assoc, List.singleton_append] at hlast

omit [Inhabited δ] [DecidableEq φ] in
/-- The plugins change neither the table nor the numbers. -/
theorem pluginDispatch_frame (app : App δ φ γ σ) (ev : Event δ)
    (m : Machine δ φ (ℕ × γ) (Ledger σ)) :
    (m.pluginDispatch app.numbered ev).2.loop = m.loop ∧
      (m.pluginDispatch app.numbered ev).2.app.next = m.app.next ∧
      (m.pluginDispatch app.numbered ev).2.app.called = m.app.called := by
  rw [pluginDispatch]
  split_ifs
  · rw [App.numbered]
    cases app.plugins with
    | none => exact ⟨rfl, rfl, rfl⟩
    | some dispatch => exact ⟨rfl, rfl, rfl⟩
  · exact ⟨rfl, rfl, rfl⟩

/-- Assumes: a table between dispatches, and removals in order. -/
theorem Walking.dispatch (hidle : m.Walking [] [] 0 m.app.next)
    (horder : m.DispatchesInOrder app.numbered ev) :
    m.DispatchDelivers app ev ∧
      (m.dispatch app.numbered ev).Walking [] [] 0 (m.dispatch app.numbered ev).app.next := by
  obtain ⟨hloop, hnext, hcalled⟩ := pluginDispatch_frame app ev m
  have hplugin : (m.pluginDispatch app.numbered ev).2.Walking m.numbers [] 0
      (m.pluginDispatch app.numbered ev).2.app.next := by
    rw [hnext]
    exact walking_of_listeners (congrArg EventLoop.listeners hloop) hidle.walk.begin
      hidle.length_le
  by_cases hsuppressed : (m.pluginDispatch app.numbered ev).1.suppressed = 0
  · have hdispatch : m.dispatch app.numbered ev =
        (m.pluginDispatch app.numbered ev).2.notifyFrom app.numbered
          (m.pluginDispatch app.numbered ev).1 koeMaxListeners 0 := if_pos hsuppressed
    obtain ⟨called, last, happend, hwalking, hend⟩ :=
      hplugin.notifyFrom koeMaxListeners (by omega) (horder hsuppressed)
    rw [← hdispatch, hcalled] at happend
    rw [← hdispatch, List.nil_append] at hwalking
    rw [← hdispatch] at hend
    have hcalledFor : m.calledFor app ev = called := by
      rw [calledFor, happend, List.drop_left]
    refine ⟨fun _ ↦ ?_, hwalking.walk.stop, hwalking.length_le⟩
    rw [hcalledFor]
    refine ⟨hwalking.walk.visited_sorted, fun number hstart hleft ↦ ?_⟩
    refine hwalking.walk.count_eq_one ?_ hstart hleft
    rwa [numbers, List.length_map]
  · have hdispatch : m.dispatch app.numbered ev = (m.pluginDispatch app.numbered ev).2 :=
      if_neg hsuppressed
    rw [hdispatch]
    exact ⟨fun hnot ↦ absurd hnot hsuppressed, hplugin.walk.stop, hplugin.length_le⟩

theorem Walking.pollLoop (rounds : ℕ) :
    ∀ {dispatched : ℕ} {m : Machine δ φ (ℕ × γ) (Ledger σ)}, m.Walking [] [] 0 m.app.next →
      m.AlongPoll app.numbered (DispatchesInOrder app.numbered) rounds →
      m.AlongPoll app.numbered (DispatchDelivers app) rounds ∧
        (m.pollLoop app.numbered rounds dispatched).2.Walking [] [] 0
          (m.pollLoop app.numbered rounds dispatched).2.app.next := by
  induction rounds with
  | zero =>
    intro dispatched m hidle _
    exact ⟨trivial, hidle⟩
  | succ rounds ih =>
    intro dispatched m hidle horder
    rw [Machine.pollLoop]
    by_cases hempty : m.loop.head = m.loop.tail
    · rw [if_pos hempty]
      exact ⟨fun hsome ↦ absurd hempty hsome, hidle.walk, hidle.length_le⟩
    · obtain ⟨hfirst, hrest⟩ := horder hempty
      have htaken : m.takeOut.Walking [] [] 0 m.takeOut.app.next := ⟨hidle.walk, hidle.length_le⟩
      obtain ⟨hdelivers, hafter⟩ := htaken.dispatch hfirst
      obtain ⟨halong, hlast⟩ := ih hafter hrest
      rw [if_neg hempty]
      exact ⟨fun _ ↦ ⟨hdelivers, halong⟩, hlast⟩

/-- Assumes: a table between dispatches, and removals in order. -/
theorem Walking.numberedStep (hidle : m.Walking [] [] 0 m.app.next) {call : TopCall δ φ γ}
    (horder : m.CallInOrder app call) :
    m.CallDelivers app call ∧
      (m.numberedStep app call).Walking [] [] 0 (m.numberedStep app call).app.next := by
  cases call with
  | call call =>
    have hbefore : { m with app := { m.app with next := m.app.next + 1 } }.Walking [] [] 0
        m.app.next := ⟨hidle.walk, hidle.length_le⟩
    have hafter := hbefore.perform call horder
    refine ⟨trivial, ?_⟩
    rw [Machine.numberedStep, app_perform]
    exact hafter
  | koeEventPoll rounds => exact hidle.pollLoop rounds horder

end Dispatch

end Machine

end Removal

/-- In every run in which each removal is of one of the last two listeners, and during a dispatch
moves no listener behind the index of the loop, every event that is dispatched and not suppressed
goes to the listeners in the order in which they were registered, and once to each that is
registered throughout. The numbers that say so are not seen by the event loop. -/
theorem koeEventPoll_delivers {δ φ γ σ : Type*} [Inhabited δ] [DecidableEq φ]
    (app : App δ φ γ σ) (state : σ) (calls : List (TopCall δ φ γ))
    (horder : Runs.AllSteps (Machine.numberedStep app) (Machine.CallInOrder app)
      (Machine.numberedStart state) calls) :
    Runs.AllSteps (Machine.numberedStep app) (Machine.CallDelivers app)
        (Machine.numberedStart state) calls ∧
      (calls.foldl (Machine.numberedStep app) (Machine.numberedStart state)).forget =
        calls.foldl (Machine.step app) (Machine.start state) := by
  refine ⟨?_, Machine.forget_run app state calls⟩
  have hstep (m : Machine δ φ (ℕ × γ) (Ledger σ)) (call : TopCall δ φ γ)
      (hidle : m.Walking [] [] 0 m.app.next) (hcall : m.CallInOrder app call) :
      m.CallDelivers app call ∧
        (m.numberedStep app call).Walking [] [] 0 (m.numberedStep app call).app.next :=
    hidle.numberedStep hcall
  have hstart : (Machine.numberedStart state : Machine δ φ (ℕ × γ) (Ledger σ)).Walking [] [] 0 0 :=
    ⟨Walk.idle List.Pairwise.nil fun _ hmark ↦ absurd hmark List.not_mem_nil, Nat.zero_le _⟩
  exact Runs.AllSteps.imp_of_invariant hstep calls hstart horder

/-- A listener function that removes itself, if it is the given one. -/
def selfRemoving (leaver : ℕ) : App Unit ℕ Unit Unit where
  onEvent _ listener _ := ((), if listener.fn = leaver then [.unregister leaver] else [])
  plugins := none

/-- Three registrations, an event and a poll, with a removal in between. -/
def removalRun (removed : ℕ) : List (TopCall Unit ℕ Unit) :=
  [.call (.register ⟨0, ()⟩), .call (.register ⟨1, ()⟩), .call (.register ⟨2, ()⟩),
    .call (.unregister removed), .call (.post 0 Event.zero), .koeEventPoll 2]

theorem koeEventPoll_delivers_removalRun :
    Runs.AllSteps (Machine.numberedStep (selfRemoving 2)) (Machine.CallInOrder (selfRemoving 2))
        (Machine.numberedStart ()) (removalRun 1) ∧
      Runs.AllSteps (Machine.numberedStep (selfRemoving 2)) (Machine.CallDelivers (selfRemoving 2))
        (Machine.numberedStart ()) (removalRun 1) := by
  have horder : Runs.AllSteps (Machine.numberedStep (selfRemoving 2))
      (Machine.CallInOrder (selfRemoving 2)) (Machine.numberedStart ()) (removalRun 1) := by
    decide +kernel
  exact ⟨horder, (koeEventPoll_delivers (selfRemoving 2) () (removalRun 1) horder).1⟩

/-- With the first of three listeners removed, the third is called before the second. A listener
that removes itself while it is called keeps the next one from being called. -/
theorem koeEventPoll_misdelivers :
    (((removalRun 0).foldl (Machine.numberedStep (selfRemoving 3))
        (Machine.numberedStart ())).app.called = [2, 1] ∧
      ¬ Runs.AllSteps (Machine.numberedStep (selfRemoving 3))
        (Machine.CallDelivers (selfRemoving 3)) (Machine.numberedStart ()) (removalRun 0)) ∧
    (((removalRun 2).foldl (Machine.numberedStep (selfRemoving 0))
        (Machine.numberedStart ())).app.called = [0] ∧
      ((removalRun 2).foldl (Machine.numberedStep (selfRemoving 0))
        (Machine.numberedStart ())).numbers = [1] ∧
      ¬ Runs.AllSteps (Machine.numberedStep (selfRemoving 0))
        (Machine.CallDelivers (selfRemoving 0)) (Machine.numberedStart ()) (removalRun 2)) := by
  decide +kernel

end KoeCore
