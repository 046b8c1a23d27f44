import KoeCore.Event.Ring
import Mathlib.Data.UInt

/-!
# The ring under two threads

`koe_event.h` calls the ring lock-free for a single producer and a single consumer. Here the two run
side by side: each load, store and fetch-add of a counter and each copy of a slot is one step, and
the steps of `koe_event_post` and `koe_event_poll` come in any order.

`foldl_postTurns` and `foldl_roundTurns` connect this to the calls of the event loop as a whole. A
post that is not interrupted is `koeEventPost`, and a round of a poll takes out the event at the
head.
-/

set_option autoImplicit false
set_option relaxedAutoImplicit false

namespace KoeCore

/-! ### The machine -/

/-- Where the producer is in `koe_event_post`, with the variables it still needs. -/
inductive Producer (δ : Type*)
  | idle
  | haveTail (ev : Event δ) (tail : UInt32)
  | toDrop (ev : Event δ) (tail : UInt32)
  | toWrite (ev : Event δ) (tail : UInt32)
  | toPublish

/-- Where the consumer is in the loop of `koe_event_poll`, with its copy of the head. It rests
between two polls and while it calls the listeners. -/
inductive Consumer
  | resting
  | haveHead (head : UInt32)
  | toCopy (head : UInt32)
  | toStore (head : UInt32)

/-- The event loop with the two threads, and the events that the consumer has copied. The other
variables are not in the program: the counters without their wrap-around, the one of the head also
as the consumer has last loaded it, the number of the event in each slot, and the numbers of the
events that the consumer has copied. -/
structure Interleaved (δ φ γ : Type*) where
  loop : EventLoop δ φ γ
  producer : Producer δ
  consumer : Consumer
  copied : List (Event δ)
  passed : ℕ
  published : ℕ
  mark : ℕ
  numbers : ℕ → Option ℕ
  taken : List (Option ℕ)

/-- Whose turn it is. For the producer, the clock and the event that it posts if it starts a
call. -/
inductive Turn (δ : Type*)
  | produce (now : ℤ) (ev : Event δ)
  | consume

/-- The tail that a post works with. -/
def Producer.tail {δ : Type*} : Producer δ → Option UInt32
  | .idle => none
  | .haveTail _ tail => some tail
  | .toDrop _ tail => some tail
  | .toWrite _ tail => some tail
  | .toPublish => none

/-- The head that a poll works with. -/
def Consumer.loaded : Consumer → Option UInt32
  | .resting => none
  | .haveHead head => some head
  | .toCopy head => some head
  | .toStore head => some head

/-- The head whose slot a poll is still to copy. -/
def Consumer.toRead : Consumer → Option UInt32
  | .resting => none
  | .haveHead head => some head
  | .toCopy head => some head
  | .toStore _ => none

theorem Consumer.loaded_of_toRead {consumer : Consumer} {head : UInt32}
    (hhead : consumer.toRead = some head) : consumer.loaded = some head := by
  cases consumer with
  | resting => exact hhead
  | haveHead loaded => exact hhead
  | toCopy loaded => exact hhead
  | toStore loaded => exact absurd hhead.symm (Option.some_ne_none _)

/-- The poll has found the ring not empty. -/
def Consumer.found : Consumer → Bool
  | .resting => false
  | .haveHead _ => false
  | .toCopy _ => true
  | .toStore _ => true

namespace Interleaved

variable {δ φ γ : Type*} [Inhabited δ]

/-- Both threads rest, and nothing has been posted. -/
def start : Interleaved δ φ γ :=
  ⟨EventLoop.start, .idle, .resting, [], 0, 0, 0, fun _ ↦ none, []⟩

/-- The next step of `koe_event_post`. The ring is set up together with the first load, which
changes nothing, and the copy of an event is one step with its timestamp. -/
def produce (now : ℤ) (ev : Event δ) (s : Interleaved δ φ γ) : Interleaved δ φ γ :=
  match s.producer with
  | .idle =>
    { s with loop := ensureInit s.loop, producer := .haveTail ev (ensureInit s.loop).tail }
  | .haveTail ev tail =>
    { s with
      producer := if 512 ≤ tail - s.loop.head then .toDrop ev tail else .toWrite ev tail }
  | .toDrop ev tail =>
    { s with loop := s.loop.advance, producer := .toWrite ev tail, passed := s.passed + 1 }
  | .toWrite ev tail =>
    { s with
      loop := { s.loop with
        events := Function.update s.loop.events (slot tail) { ev with timestamp := now } }
      producer := .toPublish
      numbers := Function.update s.numbers (slot tail) (some s.published) }
  | .toPublish =>
    { s with
      loop := { s.loop with tail := s.loop.tail + 1 }
      producer := .idle
      published := s.published + 1 }

/-- The next step of `koe_event_poll`. -/
def consume (s : Interleaved δ φ γ) : Interleaved δ φ γ :=
  match s.consumer with
  | .resting => { s with consumer := .haveHead s.loop.head, mark := s.passed }
  | .haveHead head =>
    { s with consumer := if head = s.loop.tail then .resting else .toCopy head }
  | .toCopy head =>
    { s with
      consumer := .toStore head
      copied := s.copied ++ [s.loop.events (slot head)]
      taken := s.taken ++ [s.numbers (slot head)] }
  | .toStore head =>
    { s with
      loop := { s.loop with head := head + 1 }
      consumer := .resting
      passed := s.mark + 1 }

def step (s : Interleaved δ φ γ) : Turn δ → Interleaved δ φ γ
  | .produce now ev => s.produce now ev
  | .consume => s.consume

end Interleaved

/-! ### Counters -/

/-- The distance of two counters is that of their numbers. Assumes: numbers less than `2 ^ 32`
apart. -/
theorem counter_sub {ahead behind : ℕ} (hle : behind ≤ ahead) (hlt : ahead < behind + 2 ^ 32) :
    (UInt32.ofNat ahead - UInt32.ofNat behind).toNat = ahead - behind := by
  rw [← UInt32.ofNat_sub hle, UInt32.toNat_ofNat']
  exact Nat.mod_eq_of_lt (by omega)

theorem slot_ofNat (number : ℕ) : slot (UInt32.ofNat number) = number % 512 := by
  have hslot := slot_add 0 number
  rw [UInt32.zero_add] at hslot
  rw [hslot]
  exact congrArg (· % 512) (Nat.zero_add number)

/-! ### Uninterrupted calls -/

namespace Interleaved

variable {δ φ γ : Type*} [Inhabited δ]

/-- The steps of a post from the given variables: one more when the ring is full. -/
def postTurns (now : ℤ) (ev : Event δ) (loop : EventLoop δ φ γ) : List (Turn δ) :=
  List.replicate (if 512 ≤ (ensureInit loop).tail - (ensureInit loop).head then 5 else 4)
    (.produce now ev)

/-- Without steps of the consumer in between, a post is `koeEventPost`. Assumes: a producer that
rests. -/
theorem foldl_postTurns {s : Interleaved δ φ γ} (hphase : s.producer = .idle) (now : ℤ)
    (ev : Event δ) :
    let posted := (postTurns now ev s.loop).foldl step s
    posted.loop = (koeEventPost now ev s.loop).2 ∧ posted.producer = .idle ∧
      posted.consumer = s.consumer ∧ posted.published = s.published + 1 ∧
      posted.taken = s.taken ∧ posted.mark = s.mark ∧
      posted.numbers =
        Function.update s.numbers (slot (ensureInit s.loop).tail) (some s.published) := by
  obtain ⟨loop, producer, consumer, copied, passed, published, mark, numbers, taken⟩ := s
  obtain rfl : producer = .idle := hphase
  unfold postTurns
  by_cases hfull : 512 ≤ (ensureInit loop).tail - (ensureInit loop).head
  · simp only [hfull, if_true, List.replicate, List.foldl, step, produce, koeEventPost,
      EventLoop.append, EventLoop.advance, and_self]
  · simp only [hfull, if_false, List.replicate, List.foldl, step, produce, koeEventPost,
      EventLoop.append, and_self]

/-- A post into a full ring drops the oldest event and writes to its slot. Assumes: a producer that
rests, and a full ring. -/
theorem foldl_fullPost {s : Interleaved δ φ γ} (hinit : s.loop.initialised = true)
    (hphase : s.producer = .idle) (hfull : 512 ≤ s.loop.tail - s.loop.head) (now : ℤ)
    (ev : Event δ) :
    let posted := (List.replicate 5 (.produce now ev)).foldl step s
    (posted.loop.initialised = true ∧ posted.loop.head = s.loop.head + 1 ∧
      posted.loop.tail = s.loop.tail + 1) ∧
      posted.producer = .idle ∧ posted.consumer = s.consumer ∧
      posted.published = s.published + 1 ∧ posted.taken = s.taken ∧
      posted.numbers = Function.update s.numbers (slot s.loop.tail) (some s.published) := by
  have hready : ensureInit s.loop = s.loop := if_pos hinit
  have hturns : postTurns now ev s.loop = List.replicate 5 (.produce now ev) := by
    rw [postTurns, hready, if_pos hfull]
  obtain ⟨hloop, hproducer, hconsumer, hpublished, htaken, -, hnumbers⟩ :=
    foldl_postTurns hphase now ev
  rw [hturns] at hloop hproducer hconsumer hpublished htaken hnumbers
  rw [hready] at hnumbers
  simp only [koeEventPost, hready, if_pos hfull] at hloop
  refine ⟨?_, hproducer, hconsumer, hpublished, htaken, hnumbers⟩
  rw [hloop]
  exact ⟨hinit, rfl, rfl⟩

/-- The steps of a round of a poll that finds an event. -/
def roundTurns : List (Turn δ) := List.replicate 4 .consume

/-- Without steps of the producer in between, a round takes out the event at the head. Assumes: a
consumer that rests, and a ring that is not empty. -/
theorem foldl_roundTurns {s : Interleaved δ φ γ} (hphase : s.consumer = .resting)
    (hsome : s.loop.head ≠ s.loop.tail) :
    roundTurns.foldl step s =
      { s with
        loop := s.loop.advance
        copied := s.copied ++ [s.loop.events (slot s.loop.head)]
        passed := s.passed + 1
        mark := s.passed
        taken := s.taken ++ [s.numbers (slot s.loop.head)] } := by
  obtain ⟨loop, producer, consumer, copied, passed, published, mark, numbers, taken⟩ := s
  obtain rfl : consumer = .resting := hphase
  have hne : loop.head ≠ loop.tail := hsome
  simp only [roundTurns, List.replicate, List.foldl, step, consume, hne, if_false,
    EventLoop.advance]

/-- Rounds of a poll, one after another. -/
def rounds (k : ℕ) : List (Turn δ) := (List.replicate k roundTurns).flatten

omit [Inhabited δ] in
theorem rounds_succ (k : ℕ) : (rounds (k + 1) : List (Turn δ)) = rounds k ++ roundTurns := by
  rw [rounds, rounds, List.replicate_succ', List.flatten_append, List.flatten_singleton]

/-- Rounds take out the events from the head on, slot by slot. Assumes: a consumer that rests, and
as many events as rounds. -/
theorem foldl_rounds {s : Interleaved δ φ γ} (hphase : s.consumer = .resting) {head tail : ℕ}
    (hhead : s.loop.head = UInt32.ofNat head) (htail : s.loop.tail = UInt32.ofNat tail)
    (hwrap : tail < 2 ^ 32) (k : ℕ) (hk : head + k ≤ tail) :
    let after := (rounds k).foldl step s
    after.consumer = .resting ∧ after.loop.head = UInt32.ofNat (head + k) ∧
      after.loop.tail = s.loop.tail ∧ after.numbers = s.numbers ∧
      after.taken = s.taken ++
        (List.range' head k).map fun number ↦ s.numbers (slot (UInt32.ofNat number)) := by
  induction k with
  | zero => exact ⟨hphase, hhead, rfl, rfl, (List.append_nil _).symm⟩
  | succ k ih =>
    obtain ⟨hresting, hat, hkept, hnumbers, htaken⟩ := ih (by omega)
    have hsome : ((rounds k).foldl step s).loop.head ≠ ((rounds k).foldl step s).loop.tail := by
      rw [hat, hkept, htail]
      intro hsame
      have hle : head + k ≤ tail := by omega
      have hdistance := counter_sub hle (by omega)
      rw [hsame, UInt32.sub_self] at hdistance
      have hzero : 0 = tail - (head + k) := hdistance
      omega
    simp only [rounds_succ, List.foldl_append, foldl_roundTurns hresting hsome]
    refine ⟨hresting, ?_, hkept, hnumbers, ?_⟩
    · change ((rounds k).foldl step s).loop.head + 1 = UInt32.ofNat (head + k + 1)
      rw [hat, UInt32.ofNat_add (head + k)]
      rfl
    · rw [htaken, hnumbers, hat, List.range'_concat, List.map_append, List.append_assoc,
        Nat.one_mul]
      rfl

end Interleaved

end KoeCore
