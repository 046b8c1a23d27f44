import KoeCore.Event.Ring

/-!
# How long a poll takes

`koe_event.h` says that a posted event is delivered on the next poll. The loop of `koe_event_poll`
reads both counters again after every event, so it goes on until the ring is empty, and what a
listener posts is dispatched by the same poll.

`EventLoop.pending` are the events in the ring. Between two tests of the loop, listeners that post
nothing leave no more events than there were (`Follows`). So if nothing is posted while the pending
events are dispatched, the poll returns after them (`pollLoop_quiet`).
`koeEventPoll_bounded_iff` says that this is the only case in which the poll is as documented. A
listener that answers every event with another one keeps the poll from returning at all
(`koeEventPoll_echo`).
-/

set_option autoImplicit false
set_option relaxedAutoImplicit false

namespace KoeCore

open DropOldest

/-! ### The events in the ring -/

section Pending

variable {δ φ γ : Type*}

/-- The events between the counters, oldest first. -/
def EventLoop.pending (loop : EventLoop δ φ γ) : List (Event δ) :=
  (List.range (loop.tail - loop.head).toNat).map fun k ↦
    loop.events (slot (loop.head + UInt32.ofNat k))

variable {loop : EventLoop δ φ γ}

theorem pending_of_head_eq (hempty : loop.head = loop.tail) : loop.pending = [] := by
  rw [EventLoop.pending, hempty, UInt32.sub_self]
  rfl

/-- Assumes: different counters. -/
theorem pending_eq_cons (hsome : loop.head ≠ loop.tail) :
    loop.pending = loop.events (slot loop.head) :: loop.advance.pending := by
  have hlength : (loop.tail - loop.head).toNat = (loop.tail - (loop.head + 1)).toNat + 1 := by
    have hne : loop.head.toNat ≠ loop.tail.toNat := fun heq ↦ hsome (UInt32.toNat_inj.mp heq)
    have hhead := loop.head.toNat_lt
    have htail := loop.tail.toNat_lt
    have hone : (1 : UInt32).toNat = 1 := rfl
    rw [UInt32.toNat_sub, UInt32.toNat_sub, UInt32.toNat_add, hone]
    omega
  have hnext (k : ℕ) : loop.head + UInt32.ofNat (k + 1) = loop.head + 1 + UInt32.ofNat k := by
    rw [Nat.add_comm, UInt32.ofNat_add, UInt32.add_assoc]
    rfl
  rw [EventLoop.pending, hlength, List.range_succ_eq_map, List.map_cons, List.map_map]
  refine congrArg₂ List.cons ?_ (List.map_congr_left fun k _ ↦ ?_)
  · exact congrArg (fun counter ↦ loop.events (slot counter)) (UInt32.add_zero loop.head)
  · exact congrArg (fun counter ↦ loop.events (slot counter)) (hnext k)

theorem pending_eq_nil_iff : loop.pending = [] ↔ loop.head = loop.tail := by
  refine ⟨fun hnil ↦ ?_, pending_of_head_eq⟩
  by_contra hsome
  rw [pending_eq_cons hsome] at hnil
  exact absurd hnil (List.cons_ne_nil _ _)

variable [Inhabited δ]

/-- Initialising an event loop that was not empties its ring. -/
theorem pending_ensureInit_sublist (loop : EventLoop δ φ γ) :
    (ensureInit loop).pending.Sublist loop.pending := by
  have hnil : ({ ringInit loop with initialised := true } : EventLoop δ φ γ).pending = [] :=
    pending_of_head_eq rfl
  rw [ensureInit]
  split_ifs
  · exact List.Sublist.refl _
  · rw [hnil]
    exact List.nil_sublist _

theorem pending_koeEventRegister_sublist (listener : Listener φ γ) (loop : EventLoop δ φ γ) :
    (koeEventRegister listener loop).2.pending.Sublist loop.pending := by
  have hpending : (koeEventRegister listener loop).2.pending = (ensureInit loop).pending := by
    simp only [koeEventRegister]
    split_ifs <;> rfl
  rw [hpending]
  exact pending_ensureInit_sublist loop

omit [Inhabited δ] in
theorem pending_koeEventUnregister [DecidableEq φ] (fn : φ) (loop : EventLoop δ φ γ) :
    (koeEventUnregister fn loop).2.pending = loop.pending := by
  rw [koeEventUnregister]
  split <;> rfl

end Pending

/-! ### What listeners leave behind -/

namespace Machine

variable {δ φ γ σ : Type*}

/-- From the first machine to the second, nothing is taken out of the ring, and if nothing is posted
either, no events are added to it. -/
def Follows (m after : Machine δ φ γ σ) : Prop :=
  ∃ new, posted after.history = posted m.history ++ new ∧
    taken after.history = taken m.history ∧
    (new = [] → after.loop.pending.Sublist m.loop.pending)

theorem Follows.refl (m : Machine δ φ γ σ) : m.Follows m :=
  ⟨[], (List.append_nil _).symm, rfl, fun _ ↦ List.Sublist.refl _⟩

theorem Follows.trans {first second third : Machine δ φ γ σ} (hfirst : first.Follows second)
    (hsecond : second.Follows third) : first.Follows third := by
  obtain ⟨new, hposted, htaken, hsublist⟩ := hfirst
  obtain ⟨more, hmore, hmoreTaken, hmoreSublist⟩ := hsecond
  refine ⟨new ++ more, by rw [hmore, hposted, List.append_assoc], hmoreTaken.trans htaken, ?_⟩
  intro hnone
  obtain ⟨hnew, hmoreNil⟩ := List.append_eq_nil_iff.mp hnone
  exact (hmoreSublist hmoreNil).trans (hsublist hnew)

/-- Assumes: the same ring and the same history. -/
theorem follows_of_eq {m after : Machine δ φ γ σ} (hloop : after.loop = m.loop)
    (hhistory : after.history = m.history) : m.Follows after :=
  ⟨[], by rw [hhistory, List.append_nil], by rw [hhistory], fun _ ↦ by rw [hloop]⟩

theorem follows_pluginDispatch (app : App δ φ γ σ) (ev : Event δ) (m : Machine δ φ γ σ) :
    m.Follows (m.pluginDispatch app ev).2 := by
  rw [pluginDispatch]
  split_ifs
  · split
    · exact Follows.refl m
    · exact follows_of_eq rfl rfl
  · exact Follows.refl m

theorem posted_takeOut (m : Machine δ φ γ σ) : posted m.takeOut.history = posted m.history := by
  rw [takeOut, posted_append]
  exact List.append_nil _

theorem taken_takeOut (m : Machine δ φ γ σ) :
    taken m.takeOut.history = taken m.history ++ [m.loop.events (slot m.loop.head)] :=
  taken_append _ _

variable [Inhabited δ] [DecidableEq φ]

theorem follows_perform (m : Machine δ φ γ σ) (call : LoopCall δ φ γ) :
    m.Follows (m.perform call) := by
  cases call with
  | post now ev =>
    refine ⟨[{ ev with timestamp := now }], posted_append _ _, ?_, ?_⟩
    · rw [perform, taken_append]
      exact List.append_nil _
    · intro hnil
      exact absurd hnil (List.cons_ne_nil _ _)
  | register listener =>
    exact ⟨[], (List.append_nil _).symm, rfl, fun _ ↦
      pending_koeEventRegister_sublist listener m.loop⟩
  | unregister fn =>
    refine ⟨[], (List.append_nil _).symm, rfl, fun _ ↦ ?_⟩
    rw [perform, pending_koeEventUnregister]

theorem follows_notify (app : App δ φ γ σ) (ev : Event δ) (m : Machine δ φ γ σ)
    (listener : Listener φ γ) : m.Follows (m.notify app ev listener) := by
  have hstate : m.Follows { m with app := (app.onEvent m.app listener ev).1 } :=
    follows_of_eq rfl rfl
  exact List.foldlRecOn (motive := m.Follows) _ _ hstate fun _ hbefore call _ ↦
    hbefore.trans (follows_perform _ call)

theorem follows_notifyFrom (app : App δ φ γ σ) (ev : Event δ) (left : ℕ) :
    ∀ (i : ℕ) (m : Machine δ φ γ σ), m.Follows (m.notifyFrom app ev left i) := by
  induction left with
  | zero =>
    intro i m
    exact Follows.refl m
  | succ left ih =>
    intro i m
    rw [notifyFrom]
    split
    · exact Follows.refl m
    · exact (follows_notify app ev m _).trans (ih (i + 1) _)

theorem follows_dispatch (app : App δ φ γ σ) (ev : Event δ) (m : Machine δ φ γ σ) :
    m.Follows (m.dispatch app ev) := by
  rw [dispatch]
  split
  · exact (follows_pluginDispatch app ev m).trans (follows_notifyFrom app _ koeMaxListeners 0 _)
  · exact follows_pluginDispatch app ev m

/-- A round that dispatches an event. -/
def round (app : App δ φ γ σ) (m : Machine δ φ γ σ) : Machine δ φ γ σ :=
  m.takeOut.dispatch app (m.loop.events (slot m.loop.head))

/-- A round takes one event out. If it posts nothing, no events are added. Assumes: an event in the
ring. -/
theorem round_spec (app : App δ φ γ σ) {m : Machine δ φ γ σ} (hsome : m.loop.head ≠ m.loop.tail) :
    ∃ ev new, posted (m.round app).history = posted m.history ++ new ∧
      taken (m.round app).history = taken m.history ++ [ev] ∧
      (new = [] → (ev :: (m.round app).loop.pending).Sublist m.loop.pending) := by
  obtain ⟨new, hposted, htaken, hsublist⟩ :=
    follows_dispatch app (m.loop.events (slot m.loop.head)) m.takeOut
  refine ⟨m.loop.events (slot m.loop.head), new, ?_, ?_, ?_⟩
  · rw [round, hposted, posted_takeOut]
  · rw [round, htaken, taken_takeOut]
  · intro hnew
    rw [pending_eq_cons hsome]
    exact (hsublist hnew).cons_cons _

/-! ### The poll -/

/-- The poll returns within so many rounds. -/
def PollReturns (app : App δ φ γ σ) : ℕ → Machine δ φ γ σ → Prop
  | 0, _ => False
  | rounds + 1, m => m.loop.head = m.loop.tail ∨ PollReturns app rounds (m.round app)

variable {app : App δ φ γ σ}

/-- Assumes: an empty ring. -/
theorem pollLoop_of_empty {m : Machine δ φ γ σ} (hempty : m.loop.head = m.loop.tail)
    (rounds dispatched : ℕ) :
    m.pollLoop app (rounds + 1) dispatched = (dispatched, m.findEmpty) := if_pos hempty

/-- Assumes: an event in the ring. -/
theorem pollLoop_of_some {m : Machine δ φ γ σ} (hsome : m.loop.head ≠ m.loop.tail)
    (rounds dispatched : ℕ) :
    m.pollLoop app (rounds + 1) dispatched = (m.round app).pollLoop app rounds (dispatched + 1) :=
  if_neg hsome

omit [Inhabited δ] [DecidableEq φ] in
theorem history_findEmpty (m : Machine δ φ γ σ) :
    posted m.findEmpty.history = posted m.history ∧
      taken m.findEmpty.history = taken m.history := by
  rw [findEmpty, posted_append, taken_append]
  exact ⟨List.append_nil _, List.append_nil _⟩

theorem posted_prefix_pollLoop (app : App δ φ γ σ) (rounds : ℕ) :
    ∀ (dispatched : ℕ) (m : Machine δ φ γ σ),
      posted m.history <+: posted (m.pollLoop app rounds dispatched).2.history := by
  induction rounds with
  | zero =>
    intro dispatched m
    exact List.prefix_refl _
  | succ rounds ih =>
    intro dispatched m
    by_cases hempty : m.loop.head = m.loop.tail
    · refine ⟨[], ?_⟩
      rw [List.append_nil, pollLoop_of_empty hempty, (history_findEmpty m).1]
    · obtain ⟨-, new, hposted, -, -⟩ := round_spec app hempty
      have hround : posted m.history <+: posted (m.round app).history := ⟨new, hposted.symm⟩
      rw [pollLoop_of_some hempty]
      exact hround.trans (ih (dispatched + 1) (m.round app))

/-- More rounds only add to what was posted. -/
theorem posted_pollLoop_prefix (app : App δ φ γ σ) (rounds : ℕ) :
    ∀ (more dispatched : ℕ) (m : Machine δ φ γ σ),
      posted (m.pollLoop app rounds dispatched).2.history <+:
        posted (m.pollLoop app (rounds + more) dispatched).2.history := by
  induction rounds with
  | zero =>
    intro more dispatched m
    exact posted_prefix_pollLoop app _ dispatched m
  | succ rounds ih =>
    intro more dispatched m
    rw [Nat.add_right_comm]
    by_cases hempty : m.loop.head = m.loop.tail
    · refine ⟨[], ?_⟩
      rw [List.append_nil, pollLoop_of_empty hempty, pollLoop_of_empty hempty]
    · rw [pollLoop_of_some hempty, pollLoop_of_some hempty]
      exact ih more (dispatched + 1) (m.round app)

/-- A poll that has returned has left the ring empty, and more rounds change nothing. -/
theorem PollReturns.pollLoop {rounds : ℕ} :
    ∀ {m : Machine δ φ γ σ}, m.PollReturns app rounds → ∀ (more dispatched : ℕ),
      m.pollLoop app (rounds + more) dispatched = m.pollLoop app rounds dispatched ∧
        (m.pollLoop app rounds dispatched).2.loop.pending = [] := by
  induction rounds with
  | zero =>
    intro m hreturns
    exact absurd hreturns id
  | succ rounds ih =>
    intro m hreturns more dispatched
    rw [Nat.add_right_comm]
    by_cases hempty : m.loop.head = m.loop.tail
    · rw [pollLoop_of_empty hempty, pollLoop_of_empty hempty]
      exact ⟨rfl, pending_of_head_eq hempty⟩
    · rw [pollLoop_of_some hempty, pollLoop_of_some hempty]
      exact ih (hreturns.resolve_left hempty) more (dispatched + 1)

/-- The poll returns within so many rounds, has posted nothing and has dispatched only pending
events. -/
structure Drains (app : App δ φ γ σ) (m : Machine δ φ γ σ) (rounds dispatched : ℕ) : Prop where
  returns : m.PollReturns app rounds
  posts : posted (m.pollLoop app rounds dispatched).2.history = posted m.history
  dispatches : ∃ out, out.Sublist m.loop.pending ∧
    (m.pollLoop app rounds dispatched).1 = dispatched + out.length ∧
    taken (m.pollLoop app rounds dispatched).2.history = taken m.history ++ out

/-- Assumes: an empty ring. -/
theorem drains_of_empty {m : Machine δ φ γ σ} (hempty : m.loop.head = m.loop.tail)
    (rounds dispatched : ℕ) : m.Drains app (rounds + 1) dispatched := by
  obtain ⟨hposted, htaken⟩ := history_findEmpty m
  refine ⟨Or.inl hempty, ?_, [], List.nil_sublist _, ?_, ?_⟩
  · rw [pollLoop_of_empty hempty, hposted]
  · rw [pollLoop_of_empty hempty, List.length_nil, Nat.add_zero]
  · rw [pollLoop_of_empty hempty, htaken, List.append_nil]

/-- Assumes: as many rounds as there are pending events, in which nothing is posted. The poll
returns with the next test. -/
theorem pollLoop_quiet (rounds : ℕ) :
    ∀ {dispatched : ℕ} {m : Machine δ φ γ σ}, m.loop.pending.length ≤ rounds →
      posted (m.pollLoop app rounds dispatched).2.history = posted m.history →
      m.Drains app (rounds + 1) dispatched := by
  induction rounds with
  | zero =>
    intro dispatched m hrounds _
    have hnil : m.loop.pending = [] := List.length_eq_zero_iff.mp (Nat.le_zero.mp hrounds)
    exact drains_of_empty (pending_eq_nil_iff.mp hnil) 0 dispatched
  | succ rounds ih =>
    intro dispatched m hrounds hquiet
    by_cases hempty : m.loop.head = m.loop.tail
    · exact drains_of_empty hempty (rounds + 1) dispatched
    · obtain ⟨ev, new, hposted, htaken, hsublist⟩ := round_spec app hempty
      rw [pollLoop_of_some hempty] at hquiet
      -- What the round posts is still there at the end, so it is nothing.
      have hnew : new = [] := by
        have hprefix := posted_prefix_pollLoop app rounds (dispatched + 1) (m.round app)
        rw [hquiet, hposted] at hprefix
        have hlength := hprefix.length_le
        rw [List.length_append] at hlength
        exact List.length_eq_zero_iff.mp (by omega)
      have hround : posted (m.round app).history = posted m.history := by
        rw [hposted, hnew, List.append_nil]
      have hpending := hsublist hnew
      have hfewer : (m.round app).loop.pending.length ≤ rounds := by
        have hlength := hpending.length_le
        rw [List.length_cons] at hlength
        omega
      obtain ⟨hreturns, hend, out, hout, hcount, htakes⟩ := ih hfewer (hquiet.trans hround.symm)
      refine ⟨Or.inr hreturns, ?_, ev :: out, (hout.cons_cons ev).trans hpending, ?_, ?_⟩
      · rw [pollLoop_of_some hempty, hend, hround]
      · rw [pollLoop_of_some hempty, hcount, List.length_cons, Nat.add_assoc, Nat.add_comm 1]
      · rw [pollLoop_of_some hempty, htakes, htaken, List.append_assoc, List.singleton_append]

/-- The poll returns within so many rounds after dispatching some of the pending events, and the
events posted meanwhile are those in the ring, as many of them as it holds. -/
structure PollBounded (app : App δ φ γ σ) (m : Machine δ φ γ σ) (rounds : ℕ) : Prop where
  returns : m.PollReturns app rounds
  dispatches : ∃ out, out.Sublist m.loop.pending ∧ (m.koeEventPoll app rounds).1 = out.length ∧
    taken (m.koeEventPoll app rounds).2.history = taken m.history ++ out
  leaves : ∃ new, posted (m.koeEventPoll app rounds).2.history = posted m.history ++ new ∧
    (m.koeEventPoll app rounds).2.loop.pending = new.drop (new.length - ringSize)

/-- A poll that returns posts nothing if it leaves what it posts. -/
theorem PollBounded.posted_eq {m : Machine δ φ γ σ} {rounds : ℕ}
    (hbounded : m.PollBounded app rounds) :
    posted (m.koeEventPoll app rounds).2.history = posted m.history := by
  obtain ⟨new, hposted, hleft⟩ := hbounded.leaves
  have hempty := (hbounded.returns.pollLoop 0 0).2
  have hnone : new.drop (new.length - ringSize) = [] := hleft.symm.trans hempty
  have hlength := List.drop_eq_nil_iff.mp hnone
  rw [ringSize] at hlength
  have hnew : new = [] := List.length_eq_zero_iff.mp (by omega)
  rw [hposted, hnew, List.append_nil]

end Machine

/-- A poll returns after dispatching at most the pending events and leaves what its listeners post
for the next poll exactly when nothing is posted while the pending events are dispatched. -/
theorem koeEventPoll_bounded_iff {δ φ γ σ : Type*} [Inhabited δ] [DecidableEq φ]
    (app : App δ φ γ σ) (m : Machine δ φ γ σ) :
    (∃ rounds, m.PollBounded app rounds) ↔
      posted (m.koeEventPoll app m.loop.pending.length).2.history = posted m.history := by
  constructor
  · rintro ⟨rounds, hbounded⟩
    have hquiet := hbounded.posted_eq
    rcases Nat.le_total rounds m.loop.pending.length with hle | hle
    · obtain ⟨more, hmore⟩ := Nat.exists_eq_add_of_le hle
      rw [hmore, Machine.koeEventPoll, (hbounded.returns.pollLoop more 0).1]
      exact hquiet
    · obtain ⟨more, hmore⟩ := Nat.exists_eq_add_of_le hle
      have hprefix := Machine.posted_pollLoop_prefix app m.loop.pending.length more 0 m
      rw [← hmore] at hprefix
      have hstart := Machine.posted_prefix_pollLoop app m.loop.pending.length 0 m
      refine (hstart.eq_of_length_le ?_).symm
      exact hquiet ▸ hprefix.length_le
  · intro hquiet
    obtain ⟨hreturns, hposted, out, hout, hcount, htaken⟩ :=
      Machine.pollLoop_quiet m.loop.pending.length (Nat.le_refl _) hquiet
    refine ⟨m.loop.pending.length + 1, hreturns, ⟨out, hout, ?_, htaken⟩, [], ?_, ?_⟩
    · rw [Machine.koeEventPoll, hcount, Nat.zero_add]
    · exact hposted.trans (List.append_nil _).symm
    · rw [List.drop_nil]
      exact (hreturns.pollLoop 0 0).2

/-! ### A listener that answers -/

/-- One listener function, which posts the event that it is called for again. -/
def echo : App Unit Unit Unit Unit where
  onEvent _ _ ev := ((), [.post 0 ev])
  plugins := none

/-- The listener is registered, and an event is posted. -/
def echoStart : Machine Unit Unit Unit Unit :=
  ([.register ⟨(), ()⟩, .post 0 Event.zero] : List (LoopCall Unit Unit Unit)).foldl
    Machine.perform (Machine.start ())

/-- The listener is registered, and there is one event in the ring. -/
structure Machine.Echoing (m : Machine Unit Unit Unit Unit) : Prop where
  listeners : m.loop.listeners = [⟨(), ()⟩]
  initialised : m.loop.initialised = true
  tail : m.loop.tail = m.loop.head + 1
  event : m.loop.events (slot m.loop.head) = Event.zero

/-- The round takes the event out and posts it again. -/
theorem round_echo {events : ℕ → Event Unit} {head : UInt32} {history : List (Op (Event Unit))}
    (hevent : events (slot head) = Event.zero) :
    Machine.round echo ⟨⟨events, head, head + 1, [⟨(), ()⟩], true⟩, (), history⟩ =
      ⟨⟨Function.update events (slot (head + 1)) Event.zero, head + 1, head + 1 + 1, [⟨(), ()⟩],
        true⟩, (), history ++ [.take (some Event.zero)] ++ [.post Event.zero]⟩ := by
  have hpost : (koeEventPost 0 Event.zero
      (⟨events, head + 1, head + 1, [⟨(), ()⟩], true⟩ : EventLoop Unit Unit Unit)).2 =
        ⟨Function.update events (slot (head + 1)) Event.zero, head + 1, head + 1 + 1, [⟨(), ()⟩],
          true⟩ := by
    have hroom : ¬ 512 ≤ head + 1 - (head + 1) := by
      rw [UInt32.sub_self]
      decide
    simp only [koeEventPost, ensureInit, if_true, hroom, if_false]
    rfl
  change Machine.dispatch echo (events (slot head))
    ⟨⟨events, head + 1, head + 1, [⟨(), ()⟩], true⟩, (),
      history ++ [.take (some (events (slot head)))]⟩ = _
  rw [hevent]
  change (⟨(koeEventPost 0 Event.zero ⟨events, head + 1, head + 1, [⟨(), ()⟩], true⟩).2, (),
    history ++ [.take (some Event.zero)] ++ [.post Event.zero]⟩ :
      Machine Unit Unit Unit Unit).notifyFrom echo Event.zero 31 1 = _
  rw [hpost]
  rfl

theorem Machine.Echoing.round {m : Machine Unit Unit Unit Unit} (hechoing : m.Echoing) :
    (m.round echo).Echoing := by
  obtain ⟨⟨events, head, tail, listeners, initialised⟩, app, history⟩ := m
  obtain ⟨hlisteners, hinitialised, htail, hevent⟩ := hechoing
  dsimp only at hlisteners hinitialised htail hevent
  subst hlisteners hinitialised htail
  rw [round_echo hevent]
  exact ⟨rfl, rfl, rfl, Function.update_self _ _ _⟩

theorem Machine.Echoing.not_empty {m : Machine Unit Unit Unit Unit} (hechoing : m.Echoing) :
    m.loop.head ≠ m.loop.tail := by
  intro heq
  have hnext : m.loop.head.toNat = (m.loop.head.toNat + 1) % 2 ^ 32 :=
    congrArg UInt32.toNat (heq.trans hechoing.tail)
  have hlt := m.loop.head.toNat_lt
  omega

/-- The poll dispatches an event in every round and does not return. -/
theorem Machine.Echoing.poll (rounds : ℕ) :
    ∀ {m : Machine Unit Unit Unit Unit} (dispatched : ℕ), m.Echoing →
      ¬ m.PollReturns echo rounds ∧
        (m.pollLoop echo rounds dispatched).1 = dispatched + rounds := by
  induction rounds with
  | zero =>
    intro m dispatched _
    exact ⟨id, rfl⟩
  | succ rounds ih =>
    intro m dispatched hechoing
    obtain ⟨hnot, hcount⟩ := ih (dispatched + 1) hechoing.round
    constructor
    · rintro (hempty | hreturns)
      · exact hechoing.not_empty hempty
      · exact hnot hreturns
    · rw [pollLoop_of_some hechoing.not_empty, hcount, Nat.add_assoc, Nat.add_comm 1]

/-- A listener that answers every event with another one keeps the poll from returning, with one
event pending when it was entered. -/
theorem koeEventPoll_echo :
    echoStart.loop.pending.length = 1 ∧
      (∀ rounds, ¬ echoStart.PollReturns echo rounds ∧
        (echoStart.koeEventPoll echo rounds).1 = rounds) ∧
      ¬ ∃ rounds, echoStart.PollBounded echo rounds := by
  have hechoing : echoStart.Echoing := ⟨rfl, rfl, rfl, rfl⟩
  refine ⟨by decide, fun rounds ↦ ?_, ?_⟩
  · obtain ⟨hnot, hcount⟩ := hechoing.poll rounds 0
    exact ⟨hnot, hcount.trans (Nat.zero_add rounds)⟩
  · rintro ⟨rounds, hbounded⟩
    exact (hechoing.poll rounds 0).1 hbounded.returns

end KoeCore
