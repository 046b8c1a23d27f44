import KoeCore.Library.DropOldest
import Mathlib.Data.Int.Notation
import Mathlib.Logic.Function.Basic

/-!
# The event loop

The model of `koe_event.c`: a ring of 512 events between two free-running 32-bit counters, the table
of listeners, and the poll that takes events out and calls the listeners.

Listeners are the application's code. `App` holds what they do: from the application's state a
listener answers an event with a new state and a list of calls back into the event loop, among them
any number of posts. A poll need not return when its listeners keep posting, so it is run for a
number of rounds, and a statement about every number of rounds is one about every point of the poll.

`Machine.history` records what is posted and what is taken out. `koeEvent_refines_queue` says that
in every run this history is one of a queue of 512 elements that drops its oldest when full. The
ring stands for such a queue (`Represents`), and two facts carry this: advancing the head drops the
oldest element (`Represents.advance`), and writing behind the tail appends
(`Represents.append`). The counters wrap around at `2 ^ 32`, which is a multiple of 512, so the slot
of a counter is not disturbed (`slot_add`).
-/

set_option autoImplicit false
set_option relaxedAutoImplicit false

namespace KoeCore

open DropOldest

/-- `koe_event_type_t`. -/
inductive EventType
  | none
  | msgReceived
  | msgDelivered
  | msgRead
  | msgFailed
  | peerOnline
  | peerOffline
  | peerDiscovered
  | peerTyping
  | peerStoppedTyping
  | handshakeDone
  | sessionExpired
  | callIncoming
  | callAccepted
  | callRejected
  | callEnded
  | callAudioFrame
  | contactRequest
  | contactAccepted
  | contactBlocked
  | contactVerified
  | mediaOffer
  | mediaAccepted
  | mediaRejected
  | mediaProgress
  | mediaDone
  | mediaFailed
  | keyRevoked
  | identitySwitched
  | destructFired
  | scheduledDue
  | queueDrained
  | groupMsg
  | groupMemberJoin
  | groupMemberLeave
  | groupKicked
  | groupMetaUpdate
  | error
  deriving DecidableEq, Repr

/-- `koe_event_t`, with any type for the union of the event data. -/
structure Event (δ : Type*) where
  type : EventType
  timestamp : ℤ
  suppressed : ℤ
  data : δ
  deriving DecidableEq, Repr

/-- `koe_listener_t`, with any types for function pointers and contexts. -/
structure Listener (φ γ : Type*) where
  fn : φ
  ctx : γ
  deriving DecidableEq, Repr

/-- `RING_SIZE`. -/
def ringSize : ℕ := 512

/-- `KOE_MAX_LISTENERS`. -/
def koeMaxListeners : ℕ := 32

/-- The static variables of the event loop. The first `s_listener_count` listeners are kept. -/
structure EventLoop (δ φ γ : Type*) where
  events : ℕ → Event δ
  head : UInt32
  tail : UInt32
  listeners : List (Listener φ γ)
  initialised : Bool

section Calls

variable {δ φ γ : Type*}

/-- `counter & RING_MASK`. -/
def slot (counter : UInt32) : ℕ := (counter &&& 511).toNat

/-- Writing behind the tail. -/
def EventLoop.append (loop : EventLoop δ φ γ) (ev : Event δ) : EventLoop δ φ γ :=
  { loop with events := Function.update loop.events (slot loop.tail) ev, tail := loop.tail + 1 }

/-- Advancing the head. -/
def EventLoop.advance (loop : EventLoop δ φ γ) : EventLoop δ φ γ :=
  { loop with head := loop.head + 1 }

/-- `s_listeners[i] = s_listeners[--s_listener_count]`. -/
def takeLastInto (i : ℕ) (listeners : List (Listener φ γ)) : List (Listener φ γ) :=
  match listeners.getLast? with
  | none => listeners
  | some last => (listeners.set i last).dropLast

/-- `koe_event_unregister`. -/
def koeEventUnregister [DecidableEq φ] (fn : φ) (loop : EventLoop δ φ γ) :
    ℤ × EventLoop δ φ γ :=
  match loop.listeners.findIdx? fun listener ↦ decide (listener.fn = fn) with
  | none => (-1, loop)
  | some i => (0, { loop with listeners := takeLastInto i loop.listeners })

variable [Inhabited δ]

/-- An event with all bytes zero. -/
def Event.zero : Event δ := ⟨.none, 0, 0, default⟩

/-- The variables at program start. -/
def EventLoop.start : EventLoop δ φ γ := ⟨fun _ ↦ Event.zero, 0, 0, [], false⟩

/-- `ring_init`. -/
def ringInit (loop : EventLoop δ φ γ) : EventLoop δ φ γ :=
  { loop with events := fun _ ↦ Event.zero, head := 0, tail := 0 }

/-- `if (!s_initialised) { ring_init(); s_initialised = 1; }`. -/
def ensureInit (loop : EventLoop δ φ γ) : EventLoop δ φ γ :=
  if loop.initialised then loop else { ringInit loop with initialised := true }

/-- `koe_event_register`. -/
def koeEventRegister (listener : Listener φ γ) (loop : EventLoop δ φ γ) : ℤ × EventLoop δ φ γ :=
  let loop := ensureInit loop
  if koeMaxListeners ≤ loop.listeners.length then (-1, loop)
  else (0, { loop with listeners := loop.listeners ++ [listener] })

/-- `koe_event_post`, with the clock reading it makes. -/
def koeEventPost (now : ℤ) (ev : Event δ) (loop : EventLoop δ φ γ) : ℤ × EventLoop δ φ γ :=
  let loop := ensureInit loop
  let loop := if 512 ≤ loop.tail - loop.head then loop.advance else loop
  (0, loop.append { ev with timestamp := now })

end Calls

/-! ### Runs -/

/-- A call that a listener or the application makes into the event loop, apart from polling. -/
inductive LoopCall (δ φ γ : Type*)
  | post (now : ℤ) (ev : Event δ)
  | register (listener : Listener φ γ)
  | unregister (fn : φ)

/-- The code around the event loop. `plugins` is `koe_plugin_dispatch` on the registry, if there is
one, and may change the event. -/
structure App (δ φ γ σ : Type*) where
  onEvent : σ → Listener φ γ → Event δ → σ × List (LoopCall δ φ γ)
  plugins : Option (σ → Event δ → σ × Event δ)

/-- The event loop, the state of the application, and what was posted and taken out so far. -/
structure Machine (δ φ γ σ : Type*) where
  loop : EventLoop δ φ γ
  app : σ
  history : List (Op (Event δ))

/-- What the application does at its top level. A poll is followed for a number of rounds. -/
inductive TopCall (δ φ γ : Type*)
  | call (call : LoopCall δ φ γ)
  | koeEventPoll (rounds : ℕ)

namespace Machine

variable {δ φ γ σ : Type*}

/-- The plugins see received messages and media offers. -/
def pluginDispatch (app : App δ φ γ σ) (ev : Event δ) (m : Machine δ φ γ σ) :
    Event δ × Machine δ φ γ σ :=
  if ev.type = .msgReceived ∨ ev.type = .mediaOffer then
    match app.plugins with
    | none => (ev, m)
    | some dispatch => ((dispatch m.app ev).2, { m with app := (dispatch m.app ev).1 })
  else (ev, m)

/-- The oldest event is taken out of the ring. -/
def takeOut (m : Machine δ φ γ σ) : Machine δ φ γ σ :=
  { m with
    loop := m.loop.advance
    history := m.history ++ [.take (some (m.loop.events (slot m.loop.head)))] }

/-- The ring is found empty. -/
def findEmpty (m : Machine δ φ γ σ) : Machine δ φ γ σ :=
  { m with history := m.history ++ [.take none] }

variable [Inhabited δ]

def start (state : σ) : Machine δ φ γ σ := ⟨EventLoop.start, state, []⟩

variable [DecidableEq φ]

def perform (m : Machine δ φ γ σ) : LoopCall δ φ γ → Machine δ φ γ σ
  | .post now ev =>
    { m with
      loop := (koeEventPost now ev m.loop).2
      history := m.history ++ [.post { ev with timestamp := now }] }
  | .register listener => { m with loop := (koeEventRegister listener m.loop).2 }
  | .unregister fn => { m with loop := (koeEventUnregister fn m.loop).2 }

/-- One listener is called. -/
def notify (app : App δ φ γ σ) (ev : Event δ) (m : Machine δ φ γ σ) (listener : Listener φ γ) :
    Machine δ φ γ σ :=
  (app.onEvent m.app listener ev).2.foldl perform
    { m with app := (app.onEvent m.app listener ev).1 }

/-- The loop over the listeners from the `i`-th on. It reads the table afresh in each round, and
the table has room for as many rounds as are left. -/
def notifyFrom (app : App δ φ γ σ) (ev : Event δ) : ℕ → ℕ → Machine δ φ γ σ → Machine δ φ γ σ
  | 0, _, m => m
  | left + 1, i, m =>
    match m.loop.listeners[i]? with
    | none => m
    | some listener => notifyFrom app ev left (i + 1) (m.notify app ev listener)

/-- What a poll does with an event taken out. -/
def dispatch (app : App δ φ γ σ) (ev : Event δ) (m : Machine δ φ γ σ) : Machine δ φ γ σ :=
  if (pluginDispatch app ev m).1.suppressed = 0 then
    notifyFrom app (pluginDispatch app ev m).1 koeMaxListeners 0 (pluginDispatch app ev m).2
  else (pluginDispatch app ev m).2

/-- The first rounds of the loop of `koe_event_poll`, with the number of events dispatched. -/
def pollLoop (app : App δ φ γ σ) : ℕ → ℕ → Machine δ φ γ σ → ℕ × Machine δ φ γ σ
  | 0, dispatched, m => (dispatched, m)
  | rounds + 1, dispatched, m =>
    if m.loop.head = m.loop.tail then (dispatched, m.findEmpty)
    else
      pollLoop app rounds (dispatched + 1)
        (m.takeOut.dispatch app (m.loop.events (slot m.loop.head)))

/-- `koe_event_poll`, followed for a number of rounds. The timer pumps have empty bodies. -/
def koeEventPoll (app : App δ φ γ σ) (rounds : ℕ) (m : Machine δ φ γ σ) : ℕ × Machine δ φ γ σ :=
  pollLoop app rounds 0 m

def step (app : App δ φ γ σ) (m : Machine δ φ γ σ) : TopCall δ φ γ → Machine δ φ γ σ
  | .call call => m.perform call
  | .koeEventPoll rounds => (koeEventPoll app rounds m).2

end Machine

/-! ### The ring as a queue -/

theorem slot_eq (counter : UInt32) : slot counter = counter.toNat % 512 := by
  rw [slot, UInt32.toNat_and]
  exact Nat.and_two_pow_sub_one_eq_mod counter.toNat 9

/-- The counters wrap around at a multiple of the size of the ring. -/
theorem slot_add (counter : UInt32) (k : ℕ) :
    slot (counter + UInt32.ofNat k) = (counter.toNat + k) % 512 := by
  have hdvd : 512 ∣ 2 ^ 32 := ⟨2 ^ 23, rfl⟩
  rw [slot_eq, UInt32.toNat_add, UInt32.toNat_ofNat', Nat.add_mod_mod, Nat.mod_mod_of_dvd _ hdvd]

section Ring

variable {δ φ γ : Type*}

/-- The events from the head on are those of the queue, oldest first. -/
structure Represents (loop : EventLoop δ φ γ) (queue : List (Event δ)) : Prop where
  length_le : queue.length ≤ ringSize
  tail_eq : loop.tail = loop.head + UInt32.ofNat queue.length
  events_eq : ∀ k < queue.length,
    queue[k]? = some (loop.events (slot (loop.head + UInt32.ofNat k)))
  empty_of_uninitialised : loop.initialised = false → queue = []

variable {loop : EventLoop δ φ γ} {queue : List (Event δ)} {ev : Event δ}

/-- A ring with equal counters and no events. -/
theorem represents_nil (hcounters : loop.tail = loop.head) : Represents loop [] where
  length_le := Nat.zero_le _
  tail_eq := by rw [hcounters, List.length_nil]; exact (UInt32.add_zero loop.head).symm
  events_eq := fun k hk ↦ absurd hk (Nat.not_lt_zero k)
  empty_of_uninitialised := fun _ ↦ rfl

/-- The number of events is the difference of the counters. -/
theorem Represents.length_eq (hrep : Represents loop queue) :
    (loop.tail - loop.head).toNat = queue.length := by
  have hle := hrep.length_le
  rw [ringSize] at hle
  rw [hrep.tail_eq, UInt32.add_comm, UInt32.add_sub_cancel, UInt32.toNat_ofNat']
  exact Nat.mod_eq_of_lt (by omega)

theorem Represents.head_eq_tail_iff (hrep : Represents loop queue) :
    loop.head = loop.tail ↔ queue = [] := by
  rw [← List.length_eq_zero_iff, ← hrep.length_eq]
  constructor
  · intro heq
    rw [heq, UInt32.sub_self]
    rfl
  · intro hzero
    have hsub : loop.tail - loop.head = 0 := UInt32.toNat_inj.mp hzero
    rw [← UInt32.sub_add_cancel loop.tail loop.head, hsub, UInt32.zero_add]

/-- Assumes: the ring holds at least one event. -/
theorem Represents.advance (hrep : Represents loop (ev :: queue)) :
    Represents loop.advance queue where
  length_le := Nat.le_of_succ_le hrep.length_le
  tail_eq := by
    rw [EventLoop.advance, hrep.tail_eq, List.length_cons, UInt32.ofNat_add,
      UInt32.add_comm (UInt32.ofNat queue.length), ← UInt32.add_assoc]
    rfl
  events_eq := by
    intro k hk
    have hnext := hrep.events_eq (k + 1) (Nat.succ_lt_succ hk)
    rw [slot_add, List.getElem?_cons_succ] at hnext
    rw [hnext, EventLoop.advance, show loop.head + 1 = loop.head + UInt32.ofNat 1 from rfl,
      UInt32.add_assoc, ← UInt32.ofNat_add, slot_add, Nat.add_comm 1 k]
  empty_of_uninitialised := fun hinit ↦
    absurd (hrep.empty_of_uninitialised hinit) (List.cons_ne_nil ev queue)

/-- Assumes: an initialised ring with room. -/
theorem Represents.append (hrep : Represents loop queue) (hinit : loop.initialised = true)
    (hroom : queue.length < ringSize) (ev : Event δ) :
    Represents (loop.append ev) (queue ++ [ev]) where
  length_le := by
    rw [List.length_append, List.length_singleton]
    exact hroom
  tail_eq := by
    rw [EventLoop.append, hrep.tail_eq, List.length_append, UInt32.ofNat_add, ← UInt32.add_assoc]
    rfl
  events_eq := by
    intro k hk
    rw [List.length_append, List.length_singleton] at hk
    show (queue ++ [ev])[k]? = some (Function.update loop.events (slot loop.tail) ev
      (slot (loop.head + UInt32.ofNat k)))
    rw [hrep.tail_eq, slot_add, slot_add]
    rcases Nat.lt_succ_iff_lt_or_eq.mp hk with hlt | heq
    · -- Fewer than 512 places apart, the two counters have different slots.
      have hne : (loop.head.toNat + k) % 512 ≠ (loop.head.toNat + queue.length) % 512 := by
        rw [ringSize] at hroom
        omega
      rw [Function.update_of_ne hne, List.getElem?_append_left hlt, hrep.events_eq k hlt, slot_add]
    · rw [heq, Function.update_self, List.getElem?_concat_length]
  empty_of_uninitialised := fun hfalse ↦ absurd (hinit.symm.trans hfalse) Bool.false_ne_true.symm

/-- A change of the listeners leaves the ring alone. -/
theorem Represents.with_listeners (hrep : Represents loop queue)
    (listeners : List (Listener φ γ)) : Represents { loop with listeners := listeners } queue :=
  ⟨hrep.length_le, hrep.tail_eq, hrep.events_eq, hrep.empty_of_uninitialised⟩

theorem Represents.koeEventUnregister [DecidableEq φ] (hrep : Represents loop queue) (fn : φ) :
    Represents (KoeCore.koeEventUnregister fn loop).2 queue := by
  simp only [KoeCore.koeEventUnregister]
  split
  · exact hrep
  · exact hrep.with_listeners _

variable [Inhabited δ]

theorem Represents.ensureInit (hrep : Represents loop queue) :
    Represents (KoeCore.ensureInit loop) queue := by
  cases hinit : loop.initialised with
  | true =>
    rw [KoeCore.ensureInit, if_pos hinit]
    exact hrep
  | false =>
    rw [KoeCore.ensureInit, if_neg (by rw [hinit]; exact Bool.false_ne_true),
      hrep.empty_of_uninitialised hinit]
    exact represents_nil rfl

theorem ensureInit_initialised (loop : EventLoop δ φ γ) :
    (ensureInit loop).initialised = true := by
  cases hinit : loop.initialised with
  | true => rw [ensureInit, if_pos hinit, hinit]
  | false => rw [ensureInit, if_neg (by rw [hinit]; exact Bool.false_ne_true)]

/-- `koe_event_post` posts on the queue. -/
theorem Represents.koeEventPost (hrep : Represents loop queue) (now : ℤ) (ev : Event δ) :
    Represents (KoeCore.koeEventPost now ev loop).2
      (DropOldest.post ringSize queue { ev with timestamp := now }) := by
  have hready := hrep.ensureInit
  have hinit := ensureInit_initialised loop
  have hfull : 512 ≤ (KoeCore.ensureInit loop).tail - (KoeCore.ensureInit loop).head ↔
      ¬ queue.length < ringSize := by
    rw [UInt32.le_iff_toNat_le, hready.length_eq, ringSize, Nat.not_lt]
    rfl
  by_cases hroom : queue.length < ringSize
  · simp only [KoeCore.koeEventPost, if_neg (fun hle ↦ hfull.mp hle hroom), DropOldest.post,
      if_pos hroom]
    exact hready.append hinit hroom _
  · simp only [KoeCore.koeEventPost, if_pos (hfull.mpr hroom), DropOldest.post, if_neg hroom]
    cases queue with
    | nil => exact absurd (Nat.zero_lt_succ 511) hroom
    | cons oldest rest => exact hready.advance.append hinit hready.length_le _

theorem Represents.koeEventRegister (hrep : Represents loop queue) (listener : Listener φ γ) :
    Represents (KoeCore.koeEventRegister listener loop).2 queue := by
  simp only [KoeCore.koeEventRegister]
  split
  · exact hrep.ensureInit
  · exact hrep.ensureInit.with_listeners _

end Ring

/-! ### Whole runs -/

namespace Machine

variable {δ φ γ σ : Type*} {m : Machine δ φ γ σ}

/-- The ring stands for the queue to which the history leads. -/
def Refines (m : Machine δ φ γ σ) : Prop :=
  ∃ queue, Represents m.loop queue ∧ Replays ringSize [] m.history queue

theorem Refines.pluginDispatch (hrefines : m.Refines) (app : App δ φ γ σ) (ev : Event δ) :
    (m.pluginDispatch app ev).2.Refines := by
  rw [Machine.pluginDispatch]
  split
  · split
    · exact hrefines
    · exact hrefines
  · exact hrefines

/-- Assumes: equal counters. -/
theorem Refines.findEmpty (hrefines : m.Refines) (hempty : m.loop.head = m.loop.tail) :
    m.findEmpty.Refines := by
  obtain ⟨queue, hrep, hreplays⟩ := hrefines
  obtain rfl := hrep.head_eq_tail_iff.mp hempty
  exact ⟨[], hrep, replays_append _ hreplays ⟨rfl, rfl⟩⟩

/-- Assumes: different counters. -/
theorem Refines.takeOut (hrefines : m.Refines) (hsome : m.loop.head ≠ m.loop.tail) :
    m.takeOut.Refines := by
  obtain ⟨queue, hrep, hreplays⟩ := hrefines
  cases queue with
  | nil => exact absurd (hrep.head_eq_tail_iff.mpr rfl) hsome
  | cons oldest rest =>
    have holdest := hrep.events_eq 0 (Nat.zero_lt_succ _)
    rw [show m.loop.head + UInt32.ofNat 0 = m.loop.head from UInt32.add_zero _] at holdest
    exact ⟨rest, hrep.advance, replays_append _ hreplays ⟨holdest.symm, rfl⟩⟩

variable [Inhabited δ]

theorem refines_start (state : σ) : (start state : Machine δ φ γ σ).Refines :=
  ⟨[], represents_nil rfl, rfl⟩

variable [DecidableEq φ]

theorem Refines.perform (hrefines : m.Refines) (call : LoopCall δ φ γ) :
    (m.perform call).Refines := by
  obtain ⟨queue, hrep, hreplays⟩ := hrefines
  cases call with
  | post now ev => exact ⟨_, hrep.koeEventPost now ev, replays_append _ hreplays rfl⟩
  | register listener => exact ⟨queue, hrep.koeEventRegister listener, hreplays⟩
  | unregister fn => exact ⟨queue, hrep.koeEventUnregister fn, hreplays⟩

theorem Refines.notify (hrefines : m.Refines) (app : App δ φ γ σ) (ev : Event δ)
    (listener : Listener φ γ) : (m.notify app ev listener).Refines := by
  have hstate : { m with app := (app.onEvent m.app listener ev).1 }.Refines := hrefines
  exact List.foldlRecOn _ _ hstate fun _ hbefore call _ ↦ hbefore.perform call

theorem Refines.notifyFrom (app : App δ φ γ σ) (ev : Event δ) (left : ℕ) :
    ∀ {m : Machine δ φ γ σ} (i : ℕ), m.Refines → (m.notifyFrom app ev left i).Refines := by
  induction left with
  | zero =>
    intro m i hrefines
    exact hrefines
  | succ left ih =>
    intro m i hrefines
    rw [Machine.notifyFrom]
    split
    · exact hrefines
    · exact ih (i + 1) (hrefines.notify app ev _)

theorem Refines.dispatch (hrefines : m.Refines) (app : App δ φ γ σ) (ev : Event δ) :
    (m.dispatch app ev).Refines := by
  have hplugin := hrefines.pluginDispatch app ev
  rw [Machine.dispatch]
  split
  · exact Refines.notifyFrom app _ koeMaxListeners 0 hplugin
  · exact hplugin

theorem Refines.pollLoop (app : App δ φ γ σ) (rounds : ℕ) :
    ∀ {m : Machine δ φ γ σ} (dispatched : ℕ), m.Refines →
      (m.pollLoop app rounds dispatched).2.Refines := by
  induction rounds with
  | zero =>
    intro m dispatched hrefines
    exact hrefines
  | succ rounds ih =>
    intro m dispatched hrefines
    rw [Machine.pollLoop]
    by_cases hempty : m.loop.head = m.loop.tail
    · rw [if_pos hempty]
      exact hrefines.findEmpty hempty
    · rw [if_neg hempty]
      exact ih (dispatched + 1) ((hrefines.takeOut hempty).dispatch app _)

theorem Refines.step (hrefines : m.Refines) (app : App δ φ γ σ) (call : TopCall δ φ γ) :
    (m.step app call).Refines := by
  cases call with
  | call call => exact hrefines.perform call
  | koeEventPoll rounds => exact Refines.pollLoop app rounds 0 hrefines

end Machine

/-- In every run the history is one of a queue of 512 events that drops its oldest when full. What
is taken out can be numbered by what was posted: the numbers increase, and an event is passed over
only when 512 later ones have been posted. -/
theorem koeEvent_refines_queue {δ φ γ σ : Type*} [Inhabited δ] [DecidableEq φ]
    (app : App δ φ γ σ) (state : σ) (calls : List (TopCall δ φ γ)) :
    ∃ queue, Replays 512 [] (calls.foldl (Machine.step app) (Machine.start state)).history queue ∧
      ∃ next numbers, Numbered 512
        (posted (calls.foldl (Machine.step app) (Machine.start state)).history)
        (taken (calls.foldl (Machine.step app) (Machine.start state)).history)
        queue next numbers := by
  have hrun : (calls.foldl (Machine.step app) (Machine.start state)).Refines :=
    List.foldlRecOn _ _ (Machine.refines_start state) fun _ hbefore call _ ↦ hbefore.step app call
  obtain ⟨queue, -, hreplays⟩ := hrun
  exact ⟨queue, hreplays, hreplays.numbered (Nat.zero_lt_succ 511)⟩

end KoeCore
