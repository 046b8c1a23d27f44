import KoeCore.Event.Threads
import KoeCore.Library.Runs
import Mathlib.Data.List.Nodup

/-!
# A producer that drops and a consumer that stores

The producer moves the head when it finds the ring full, and the consumer stores a head that it has
computed from an earlier load. So a post can pull the head from under a poll. `ring_safe` says what
has to hold at the two steps of a post that can do harm: when it drops an event the ring is not
empty and the head is where the consumer has found it, and when it writes an event this is not into
the slot that the consumer is about to read. As long as this holds (`Undisturbed`), the counters
stay within 512 of each other, the head moves forward, and no event is taken twice. The invariant
(`Tracks`) is about the numbers that the counters stand for, and about the number of the event in
each slot.

`late_consumer_moves_head_back` is a run without this: two posts into a full ring while the consumer
is between its loads and its copy.
-/

set_option autoImplicit false
set_option relaxedAutoImplicit false

namespace KoeCore

namespace Interleaved

variable {δ φ γ : Type*} [Inhabited δ]

/-! ### What is to hold -/

/-- The tail is at most 512 ahead of the head, modulo `2 ^ 32`. -/
def InBounds (s : Interleaved δ φ γ) : Prop := s.loop.tail - s.loop.head ≤ 512

/-- No posted event has been taken out twice. -/
def TakenOnce (s : Interleaved δ φ γ) : Prop := ∀ number : ℕ, s.taken.count (some number) ≤ 1

/-- The head stays where it is or moves on by one. -/
def Forward (s : Interleaved δ φ γ) (turn : Turn δ) : Prop :=
  (s.step turn).loop.head = s.loop.head ∨ (s.step turn).loop.head = s.loop.head + 1

/-- The producer does not drop an event from an empty ring or from under a consumer that has seen
another head, and does not write to the slot that the consumer is about to read. -/
def Undisturbed (s : Interleaved δ φ γ) : Turn δ → Prop
  | .consume => True
  | .produce _ _ =>
    match s.producer with
    | .toDrop _ _ => s.loop.head ≠ s.loop.tail ∧
        ∀ head, s.consumer.loaded = some head → s.loop.head = head
    | .toWrite _ tail => ∀ head, s.consumer.toRead = some head → tail - head < 512
    | _ => True

instance decidableUndisturbed (s : Interleaved δ φ γ) :
    (turn : Turn δ) → Decidable (s.Undisturbed turn)
  | .consume => isTrue trivial
  | .produce now ev =>
    match hphase : s.producer with
    | .idle => decidable_of_iff True (by simp [Undisturbed, hphase])
    | .haveTail _ _ => decidable_of_iff True (by simp [Undisturbed, hphase])
    | .toDrop _ _ => decidable_of_iff (s.loop.head ≠ s.loop.tail ∧
        (s.consumer.loaded.all fun head ↦ s.loop.head == head) = true)
        (by simp [Undisturbed, hphase, Option.all_eq_true])
    | .toWrite _ tail => decidable_of_iff
        ((s.consumer.toRead.all fun head ↦ decide (tail - head < 512)) = true)
        (by simp [Undisturbed, hphase, Option.all_eq_true])
    | .toPublish => decidable_of_iff True (by simp [Undisturbed, hphase])

/-! ### The counters and the numbers they stand for -/

/-- The number of events written to the ring. -/
def written (s : Interleaved δ φ γ) : ℕ :=
  match s.producer with
  | .toPublish => s.published + 1
  | _ => s.published

/-- The number of events for which the ring has to have room. -/
def reserved (s : Interleaved δ φ γ) : ℕ :=
  match s.producer with
  | .toWrite _ _ => s.published + 1
  | .toPublish => s.published + 1
  | _ => s.published

/-- All events taken out have smaller numbers. -/
def limit (s : Interleaved δ φ γ) : ℕ :=
  match s.consumer with
  | .resting => s.passed
  | .haveHead _ => s.mark
  | .toCopy _ => s.mark
  | .toStore _ => s.mark + 1

/-- The counters stand for their numbers, the ring has room for the event of a post and holds the
last 512 events that were written, and a consumer is at most one event behind the head, with its
slot as it was if it is still to read it. -/
structure Tracks (s : Interleaved δ φ γ) : Prop where
  head_eq : s.loop.head = UInt32.ofNat s.passed
  tail_eq : s.loop.tail = UInt32.ofNat s.published
  passed_le : s.passed ≤ s.published
  room : s.reserved ≤ s.passed + 512
  untouched : s.loop.initialised = false → s.producer = .idle ∧ s.published = 0
  held : ∀ number < s.written, s.written ≤ number + 512 →
    s.numbers (number % 512) = some number
  tail_kept : ∀ tail, s.producer.tail = some tail → tail = s.loop.tail
  loaded : ∀ head, s.consumer.loaded = some head →
    head = UInt32.ofNat s.mark ∧ s.mark ≤ s.passed ∧ s.passed ≤ s.mark + 1
  readable : ∀ head, s.consumer.toRead = some head → s.written ≤ s.mark + 512
  found : s.consumer.found = true → s.mark < s.published
  taken : ∃ order : List ℕ, s.taken = order.map some ∧ order.Pairwise (· < ·) ∧
    ∀ number ∈ order, number < s.limit

end Interleaved

namespace Interleaved

variable {δ φ γ : Type*} {s : Interleaved δ φ γ}

theorem published_le_written (s : Interleaved δ φ γ) : s.published ≤ s.written := by
  unfold written
  split
  · exact Nat.le_succ _
  · exact Nat.le_refl _

theorem written_le_reserved (s : Interleaved δ φ γ) : s.written ≤ s.reserved := by
  unfold written reserved
  cases s.producer with
  | idle => exact Nat.le_refl _
  | haveTail ev tail => exact Nat.le_refl _
  | toDrop ev tail => exact Nat.le_refl _
  | toWrite ev tail => exact Nat.le_succ _
  | toPublish => exact Nat.le_refl _

/-- Assumes: counters that stand for their numbers. -/
theorem Tracks.tail_sub_head (htracks : s.Tracks) :
    (s.loop.tail - s.loop.head).toNat = s.published - s.passed ∧
      s.published ≤ s.passed + 512 := by
  have hroom := htracks.room
  have hwritten := s.written_le_reserved
  have hpublished := s.published_le_written
  have hbound : s.published ≤ s.passed + 512 := by omega
  rw [htracks.head_eq, htracks.tail_eq]
  exact ⟨counter_sub htracks.passed_le (by omega), hbound⟩

theorem Tracks.inBounds (htracks : s.Tracks) : s.InBounds := by
  obtain ⟨hsub, hbound⟩ := htracks.tail_sub_head
  rw [InBounds, UInt32.le_iff_toNat_le, hsub]
  change s.published - s.passed ≤ 512
  omega

theorem Tracks.takenOnce (htracks : s.Tracks) : s.TakenOnce := by
  obtain ⟨order, htaken, hordered, -⟩ := htracks.taken
  have hnodup : s.taken.Nodup := by
    rw [htaken]
    exact hordered.nodup.map fun _ _ hsome ↦ Option.some.inj hsome
  exact fun number ↦ List.nodup_iff_count_le_one.mp hnodup (some number)

/-! ### The steps of a post -/

/-- A busy producer has set up the ring. Assumes: a post that has begun. -/
theorem Tracks.initialised (htracks : s.Tracks) (hbusy : s.producer ≠ .idle) :
    s.loop.initialised = true := by
  by_contra hinit
  exact hbusy (htracks.untouched (Bool.not_eq_true _ ▸ hinit)).1

/-- The producer goes on without touching the ring. Assumes: an initialised ring, no event written
since, and room for what the producer is about to do. -/
theorem Tracks.with_producer (htracks : s.Tracks) (hinit : s.loop.initialised = true)
    {producer : Producer δ} (hwritten : { s with producer := producer }.written = s.written)
    (hroom : { s with producer := producer }.reserved ≤ s.passed + 512)
    (htail : ∀ tail, producer.tail = some tail → tail = s.loop.tail) :
    { s with producer := producer }.Tracks where
  head_eq := htracks.head_eq
  tail_eq := htracks.tail_eq
  passed_le := htracks.passed_le
  room := hroom
  untouched := fun hfalse ↦ absurd (hinit.symm.trans hfalse) Bool.false_ne_true.symm
  held := by
    rw [hwritten]
    exact htracks.held
  tail_kept := htail
  loaded := htracks.loaded
  readable := by
    rw [hwritten]
    exact htracks.readable
  found := htracks.found
  taken := htracks.taken

/-- Assumes: a ring that is not empty, and a consumer that has seen no other head. -/
theorem Tracks.advance (htracks : s.Tracks) (hsome : s.passed < s.published)
    (hseen : ∀ head, s.consumer.loaded = some head → s.loop.head = head) :
    { s with loop := s.loop.advance, passed := s.passed + 1 }.Tracks where
  head_eq := by
    rw [UInt32.ofNat_add, ← htracks.head_eq]
    rfl
  tail_eq := htracks.tail_eq
  passed_le := hsome
  room := Nat.le_trans htracks.room (Nat.add_le_add_right (Nat.le_succ _) 512)
  untouched := htracks.untouched
  held := htracks.held
  tail_kept := htracks.tail_kept
  loaded := by
    intro head hhead
    obtain ⟨hmark, hle, hlt⟩ := htracks.loaded head hhead
    -- The head as loaded and the head are the same counter, less than two events apart.
    have hdistance := counter_sub hle (by omega)
    rw [← htracks.head_eq, ← hmark, hseen head hhead, UInt32.sub_self] at hdistance
    have hsame : 0 = s.passed - s.mark := hdistance
    refine ⟨hmark, Nat.le_succ_of_le hle, ?_⟩
    change s.passed + 1 ≤ s.mark + 1
    omega
  readable := htracks.readable
  found := htracks.found
  taken := by
    obtain ⟨order, htaken, hordered, hbelow⟩ := htracks.taken
    refine ⟨order, htaken, hordered, fun number hnumber ↦ ?_⟩
    refine Nat.lt_of_lt_of_le (hbelow number hnumber) ?_
    unfold limit
    cases s.consumer with
    | resting => exact Nat.le_succ _
    | haveHead head => exact Nat.le_refl _
    | toCopy head => exact Nat.le_refl _
    | toStore head => exact Nat.le_refl _

section Steps

variable [Inhabited δ]

theorem tracks_start : (start : Interleaved δ φ γ).Tracks where
  head_eq := rfl
  tail_eq := rfl
  passed_le := Nat.le_refl 0
  room := Nat.zero_le _
  untouched := fun _ ↦ ⟨rfl, rfl⟩
  held := fun _ hnumber ↦ absurd hnumber (Nat.not_lt_zero _)
  tail_kept := fun _ htail ↦ absurd htail.symm (Option.some_ne_none _)
  loaded := fun _ hhead ↦ absurd hhead.symm (Option.some_ne_none _)
  readable := fun _ hhead ↦ absurd hhead.symm (Option.some_ne_none _)
  found := fun hfound ↦ absurd hfound Bool.false_ne_true
  taken := ⟨[], rfl, List.Pairwise.nil, fun _ hnumber ↦ absurd hnumber List.not_mem_nil⟩

/-- Setting up the ring changes nothing. Assumes: a producer that rests. -/
theorem Tracks.ensureInit (htracks : s.Tracks) (hphase : s.producer = .idle) :
    { s with loop := KoeCore.ensureInit s.loop }.Tracks ∧
      (KoeCore.ensureInit s.loop).head = s.loop.head := by
  cases hinit : s.loop.initialised with
  | true =>
    rw [KoeCore.ensureInit, if_pos hinit]
    exact ⟨htracks, rfl⟩
  | false =>
    obtain ⟨-, hnone⟩ := htracks.untouched hinit
    have hpassed : s.passed = 0 := Nat.le_zero.mp (hnone ▸ htracks.passed_le)
    have hwritten : s.written = 0 := by rw [written, hphase, hnone]
    rw [KoeCore.ensureInit, if_neg (by rw [hinit]; exact Bool.false_ne_true)]
    refine ⟨⟨?_, ?_, htracks.passed_le, htracks.room, ?_, ?_, ?_, htracks.loaded,
      htracks.readable, htracks.found, htracks.taken⟩, ?_⟩
    · exact (congrArg UInt32.ofNat hpassed).symm
    · exact (congrArg UInt32.ofNat hnone).symm
    · exact fun hfalse ↦ absurd hfalse.symm Bool.false_ne_true
    · intro number hnumber
      change number < s.written at hnumber
      rw [hwritten] at hnumber
      exact absurd hnumber (Nat.not_lt_zero number)
    · intro tail htail
      change s.producer.tail = some tail at htail
      rw [hphase] at htail
      exact absurd htail.symm (Option.some_ne_none _)
    · rw [htracks.head_eq, hpassed]
      rfl

/-- Assumes: a post is called. -/
theorem Tracks.loadTail (htracks : s.Tracks) (hphase : s.producer = .idle) (now : ℤ)
    (ev : Event δ) : (s.produce now ev).Tracks := by
  have hready := (htracks.ensureInit hphase).1
  have hstep : s.produce now ev = { s with
      loop := KoeCore.ensureInit s.loop
      producer := .haveTail ev (KoeCore.ensureInit s.loop).tail } := by
    rw [produce, hphase]
  rw [hstep]
  refine hready.with_producer (ensureInit_initialised s.loop) ?_ hready.tail_sub_head.2 ?_
  · simp only [written, hphase]
  · exact fun tail htail ↦ (Option.some.inj htail).symm

/-- The ring is found full, or it has room. Assumes: the tail is loaded. -/
theorem Tracks.loadHead (htracks : s.Tracks) {ev : Event δ} {tail : UInt32}
    (hphase : s.producer = .haveTail ev tail) (now : ℤ) (other : Event δ) :
    (s.produce now other).Tracks := by
  obtain ⟨hsub, hbound⟩ := htracks.tail_sub_head
  have hinit := htracks.initialised (by rw [hphase]; simp)
  have htail : tail = s.loop.tail := htracks.tail_kept tail (by rw [hphase]; rfl)
  have hstep : s.produce now other = { s with
      producer := if 512 ≤ tail - s.loop.head then .toDrop ev tail else .toWrite ev tail } := by
    rw [produce, hphase]
  rw [hstep]
  split_ifs with hfull
  · refine htracks.with_producer hinit (by simp only [written, hphase]) hbound ?_
    exact fun kept hkept ↦ (Option.some.inj hkept).symm.trans htail
  · refine htracks.with_producer hinit (by simp only [written, hphase]) ?_ ?_
    · rw [htail, UInt32.le_iff_toNat_le, hsub] at hfull
      change ¬ 512 ≤ s.published - s.passed at hfull
      change s.published + 1 ≤ s.passed + 512
      omega
    · exact fun kept hkept ↦ (Option.some.inj hkept).symm.trans htail

/-- Assumes: a ring that was found full, and an undisturbed step. -/
theorem Tracks.drop (htracks : s.Tracks) {ev : Event δ} {tail : UInt32}
    (hphase : s.producer = .toDrop ev tail) {now : ℤ} {other : Event δ}
    (hundisturbed : s.Undisturbed (.produce now other)) : (s.produce now other).Tracks := by
  rw [Undisturbed, hphase] at hundisturbed
  obtain ⟨hempty, hseen⟩ := hundisturbed
  have hsome : s.passed < s.published := by
    refine Nat.lt_of_le_of_ne htracks.passed_le fun hsame ↦ hempty ?_
    rw [htracks.head_eq, htracks.tail_eq, hsame]
  have hadvance := htracks.advance hsome hseen
  have hstep : s.produce now other = { s with
      loop := s.loop.advance, producer := .toWrite ev tail, passed := s.passed + 1 } := by
    rw [produce, hphase]
  rw [hstep]
  refine hadvance.with_producer (htracks.initialised (by rw [hphase]; simp)) ?_ ?_ ?_
  · simp only [written, hphase]
  · change s.published + 1 ≤ s.passed + 1 + 512
    have hbound := htracks.tail_sub_head.2
    omega
  · intro kept hkept
    exact (Option.some.inj hkept).symm.trans (htracks.tail_kept tail (by rw [hphase]; rfl))

/-- Assumes: room in the ring, and an undisturbed step. -/
theorem Tracks.write (htracks : s.Tracks) {ev : Event δ} {tail : UInt32}
    (hphase : s.producer = .toWrite ev tail) {now : ℤ} {other : Event δ}
    (hundisturbed : s.Undisturbed (.produce now other)) : (s.produce now other).Tracks := by
  have htail : tail = UInt32.ofNat s.published :=
    (htracks.tail_kept tail (by rw [hphase]; rfl)).trans htracks.tail_eq
  have hwritten : s.written = s.published := by rw [written, hphase]
  have hroom := htracks.room
  rw [reserved, hphase] at hroom
  rw [Undisturbed, hphase] at hundisturbed
  have hinit := htracks.initialised (by rw [hphase]; simp)
  rw [produce, hphase]
  refine ⟨htracks.head_eq, htracks.tail_eq, htracks.passed_le, hroom, ?_, ?_, ?_, htracks.loaded,
    ?_, htracks.found, htracks.taken⟩
  · exact fun hfalse ↦ absurd (hinit.symm.trans hfalse) Bool.false_ne_true.symm
  · intro number hnumber hlast
    change number < s.published + 1 at hnumber
    change s.published + 1 ≤ number + 512 at hlast
    change Function.update s.numbers (slot tail) (some s.published) (number % 512) = some number
    rw [htail, slot_ofNat]
    rcases Nat.lt_succ_iff_lt_or_eq.mp hnumber with hold | rfl
    · -- Fewer than 512 events apart, the two are in different slots.
      have hne : number % 512 ≠ s.published % 512 := by omega
      rw [Function.update_of_ne hne]
      exact htracks.held number (by rw [hwritten]; exact hold) (by rw [hwritten]; omega)
    · rw [Function.update_self]
  · exact fun kept hkept ↦ absurd hkept.symm (Option.some_ne_none _)
  · intro head hhead
    change s.published + 1 ≤ s.mark + 512
    have hfree := hundisturbed head hhead
    have hwindow := htracks.readable head hhead
    obtain ⟨hmark, hle, -⟩ := htracks.loaded head (Consumer.loaded_of_toRead hhead)
    have hpassed := htracks.passed_le
    rw [hwritten] at hwindow
    rw [htail, hmark, UInt32.lt_iff_toNat_lt, counter_sub (by omega) (by omega)] at hfree
    change s.published - s.mark < 512 at hfree
    omega

/-- Assumes: an event that is written. -/
theorem Tracks.publish (htracks : s.Tracks) (hphase : s.producer = .toPublish) (now : ℤ)
    (other : Event δ) : (s.produce now other).Tracks := by
  have hwritten : s.written = s.published + 1 := by rw [written, hphase]
  have hroom := htracks.room
  have hheld := htracks.held
  have hreadable := htracks.readable
  have hinit := htracks.initialised (by rw [hphase]; simp)
  rw [reserved, hphase] at hroom
  rw [hwritten] at hheld hreadable
  rw [produce, hphase]
  refine ⟨htracks.head_eq, ?_, Nat.le_succ_of_le htracks.passed_le, hroom, ?_, hheld, ?_,
    htracks.loaded, hreadable, ?_, htracks.taken⟩
  · change s.loop.tail + 1 = UInt32.ofNat (s.published + 1)
    rw [UInt32.ofNat_add, ← htracks.tail_eq]
    rfl
  · exact fun hfalse ↦ absurd (hinit.symm.trans hfalse) Bool.false_ne_true.symm
  · exact fun kept hkept ↦ absurd hkept.symm (Option.some_ne_none _)
  · exact fun hfound ↦ Nat.lt_succ_of_lt (htracks.found hfound)

/-- Assumes: an undisturbed step. -/
theorem Tracks.produce (htracks : s.Tracks) {now : ℤ} {ev : Event δ}
    (hundisturbed : s.Undisturbed (.produce now ev)) : (s.produce now ev).Tracks := by
  cases hphase : s.producer with
  | idle => exact htracks.loadTail hphase now ev
  | haveTail posted tail => exact htracks.loadHead hphase now ev
  | toDrop posted tail => exact htracks.drop hphase hundisturbed
  | toWrite posted tail => exact htracks.write hphase hundisturbed
  | toPublish => exact htracks.publish hphase now ev

end Steps

/-! ### The steps of a poll -/

/-- The consumer goes on without touching the ring. Assumes: what the invariant says of the consumer
and of the events that it has taken. -/
theorem Tracks.with_consumer (htracks : s.Tracks) {consumer : Consumer} {copied : List (Event δ)}
    {mark : ℕ} {taken : List (Option ℕ)}
    (hloaded : ∀ head, consumer.loaded = some head →
      head = UInt32.ofNat mark ∧ mark ≤ s.passed ∧ s.passed ≤ mark + 1)
    (hreadable : ∀ head, consumer.toRead = some head → s.written ≤ mark + 512)
    (hfound : consumer.found = true → mark < s.published)
    (htaken : ∃ order : List ℕ, taken = order.map some ∧ order.Pairwise (· < ·) ∧
      ∀ number ∈ order, number < { s with consumer := consumer, mark := mark }.limit) :
    { s with consumer := consumer, copied := copied, mark := mark, taken := taken }.Tracks where
  head_eq := htracks.head_eq
  tail_eq := htracks.tail_eq
  passed_le := htracks.passed_le
  room := htracks.room
  untouched := htracks.untouched
  held := htracks.held
  tail_kept := htracks.tail_kept
  loaded := hloaded
  readable := hreadable
  found := hfound
  taken := htaken

/-- Assumes: a poll that begins a round. -/
theorem Tracks.beginRound (htracks : s.Tracks) (hphase : s.consumer = .resting) :
    s.consume.Tracks := by
  obtain ⟨order, htaken, hordered, hbelow⟩ := htracks.taken
  rw [limit, hphase] at hbelow
  rw [consume, hphase]
  refine htracks.with_consumer ?_ ?_ ?_ ⟨order, htaken, hordered, hbelow⟩
  · intro head hhead
    exact ⟨(Option.some.inj hhead).symm.trans htracks.head_eq, Nat.le_refl _, Nat.le_succ _⟩
  · exact fun head _ ↦ Nat.le_trans s.written_le_reserved htracks.room
  · exact fun hfound ↦ absurd hfound Bool.false_ne_true

/-- The ring is found empty, or there is an event at the head. Assumes: the head is loaded. -/
theorem Tracks.compare (htracks : s.Tracks) {head : UInt32} (hphase : s.consumer = .haveHead head) :
    s.consume.Tracks := by
  obtain ⟨order, htaken, hordered, hbelow⟩ := htracks.taken
  rw [limit, hphase] at hbelow
  have hloaded := htracks.loaded
  have hreadable := htracks.readable
  rw [hphase] at hloaded hreadable
  obtain ⟨hmark, hle, -⟩ := hloaded head rfl
  have hstep : s.consume = { s with
      consumer := if head = s.loop.tail then .resting else .toCopy head } := by
    rw [consume, hphase]
  rw [hstep]
  split_ifs with hempty
  · refine htracks.with_consumer ?_ ?_ ?_ ⟨order, htaken, hordered, ?_⟩
    · exact fun other hother ↦ absurd hother.symm (Option.some_ne_none _)
    · exact fun other hother ↦ absurd hother.symm (Option.some_ne_none _)
    · exact fun hfound ↦ absurd hfound Bool.false_ne_true
    · exact fun number hnumber ↦ Nat.lt_of_lt_of_le (hbelow number hnumber) hle
  · refine htracks.with_consumer hloaded hreadable ?_ ⟨order, htaken, hordered, hbelow⟩
    intro _
    refine Nat.lt_of_le_of_ne (Nat.le_trans hle htracks.passed_le) fun hsame ↦ hempty ?_
    rw [hmark, htracks.tail_eq, hsame]

/-- The slot still holds the event at the head as it was loaded. Assumes: a ring that was found not
empty. -/
theorem Tracks.copy (htracks : s.Tracks) {head : UInt32} (hphase : s.consumer = .toCopy head) :
    s.consume.Tracks := by
  obtain ⟨order, htaken, hordered, hbelow⟩ := htracks.taken
  rw [limit, hphase] at hbelow
  have hloaded := htracks.loaded
  rw [hphase] at hloaded
  have hsome : s.mark < s.published := htracks.found (by rw [hphase]; rfl)
  have hnumber : s.numbers (slot head) = some s.mark := by
    rw [(hloaded head rfl).1, slot_ofNat]
    exact htracks.held s.mark (Nat.lt_of_lt_of_le hsome s.published_le_written)
      (htracks.readable head (by rw [hphase]; rfl))
  rw [consume, hphase]
  refine htracks.with_consumer hloaded ?_ (fun _ ↦ hsome) ⟨order ++ [s.mark], ?_, ?_, ?_⟩
  · exact fun other hother ↦ absurd hother.symm (Option.some_ne_none _)
  · rw [htaken, hnumber, List.map_append]
    rfl
  · rw [List.pairwise_append]
    refine ⟨hordered, List.pairwise_singleton _ _, fun number hmem last hlast ↦ ?_⟩
    rw [List.mem_singleton.mp hlast]
    exact hbelow number hmem
  · intro number hmem
    change number < s.mark + 1
    rcases List.mem_append.mp hmem with hold | hnew
    · exact Nat.lt_succ_of_lt (hbelow number hold)
    · rw [List.mem_singleton.mp hnew]
      exact Nat.lt_succ_self _

/-- Assumes: an event that is copied. -/
theorem Tracks.store (htracks : s.Tracks) {head : UInt32} (hphase : s.consumer = .toStore head) :
    s.consume.Tracks := by
  obtain ⟨order, htaken, hordered, hbelow⟩ := htracks.taken
  rw [limit, hphase] at hbelow
  obtain ⟨hmark, -, hlt⟩ := htracks.loaded head (by rw [hphase]; rfl)
  have hsome : s.mark < s.published := htracks.found (by rw [hphase]; rfl)
  rw [consume, hphase]
  refine ⟨?_, htracks.tail_eq, hsome, ?_, htracks.untouched, htracks.held, htracks.tail_kept, ?_,
    ?_, ?_, order, htaken, hordered, hbelow⟩
  · change head + 1 = UInt32.ofNat (s.mark + 1)
    rw [hmark, UInt32.ofNat_add]
    rfl
  · exact Nat.le_trans htracks.room (Nat.add_le_add_right hlt 512)
  · exact fun other hother ↦ absurd hother.symm (Option.some_ne_none _)
  · exact fun other hother ↦ absurd hother.symm (Option.some_ne_none _)
  · exact fun hfound ↦ absurd hfound Bool.false_ne_true

theorem Tracks.consume (htracks : s.Tracks) : s.consume.Tracks := by
  cases hphase : s.consumer with
  | resting => exact htracks.beginRound hphase
  | haveHead head => exact htracks.compare hphase
  | toCopy head => exact htracks.copy hphase
  | toStore head => exact htracks.store hphase

/-! ### Runs -/

variable [Inhabited δ]

/-- Assumes: an undisturbed step. -/
theorem Tracks.step (htracks : s.Tracks) {turn : Turn δ} (hundisturbed : s.Undisturbed turn) :
    (s.step turn).Tracks := by
  cases turn with
  | produce now ev => exact htracks.produce hundisturbed
  | consume => exact htracks.consume

/-- No step moves the head back. Assumes: counters that stand for their numbers. -/
theorem Tracks.forward (htracks : s.Tracks) (turn : Turn δ) : s.Forward turn := by
  unfold Forward
  cases turn with
  | produce now ev =>
    change (s.produce now ev).loop.head = _ ∨ (s.produce now ev).loop.head = _
    cases hphase : s.producer with
    | idle =>
      refine Or.inl ?_
      rw [Interleaved.produce, hphase]
      exact (htracks.ensureInit hphase).2
    | haveTail posted tail =>
      refine Or.inl ?_
      rw [Interleaved.produce, hphase]
    | toDrop posted tail =>
      refine Or.inr ?_
      rw [Interleaved.produce, hphase]
      rfl
    | toWrite posted tail =>
      refine Or.inl ?_
      rw [Interleaved.produce, hphase]
    | toPublish =>
      refine Or.inl ?_
      rw [Interleaved.produce, hphase]
  | consume =>
    change s.consume.loop.head = _ ∨ s.consume.loop.head = _
    cases hphase : s.consumer with
    | resting =>
      refine Or.inl ?_
      rw [Interleaved.consume, hphase]
    | haveHead head =>
      refine Or.inl ?_
      rw [Interleaved.consume, hphase]
    | toCopy head =>
      refine Or.inl ?_
      rw [Interleaved.consume, hphase]
    | toStore head =>
      obtain ⟨hmark, hle, hlt⟩ := htracks.loaded head (by rw [hphase]; rfl)
      rw [Interleaved.consume, hphase]
      change head + 1 = s.loop.head ∨ head + 1 = s.loop.head + 1
      rcases Nat.eq_or_lt_of_le hle with hsame | hdropped
      · exact Or.inr (by rw [hmark, htracks.head_eq, hsame])
      · -- The producer has dropped the event that the consumer has copied.
        have hnext : s.passed = s.mark + 1 := Nat.le_antisymm hlt hdropped
        refine Or.inl ?_
        rw [hmark, htracks.head_eq, hnext, UInt32.ofNat_add]
        rfl

end Interleaved

open Interleaved in
/-- In every run of one producer and one consumer whose steps are all undisturbed, the tail is at
most 512 ahead of the head in every state, no event is taken out twice, and the head never moves
back. Assumes: undisturbed steps. -/
theorem ring_safe {δ φ γ : Type*} [Inhabited δ] {front back : List (Turn δ)}
    (hundisturbed : Runs.AllSteps step Undisturbed (start : Interleaved δ φ γ) (front ++ back)) :
    (front.foldl step (start : Interleaved δ φ γ)).InBounds ∧
      (front.foldl step (start : Interleaved δ φ γ)).TakenOnce ∧
      Runs.AllSteps step Forward (start : Interleaved δ φ γ) (front ++ back) := by
  have hkeeps (s : Interleaved δ φ γ) (turn : Turn δ) (htracks : s.Tracks)
      (hstep : s.Undisturbed turn) : (s.step turn).Tracks := htracks.step hstep
  have htracks : (front.foldl step (start : Interleaved δ φ γ)).Tracks :=
    Runs.AllSteps.invariant hkeeps front hundisturbed tracks_start
  refine ⟨htracks.inBounds, htracks.takenOnce, ?_⟩
  exact Runs.AllSteps.imp_of_invariant
    (fun s turn htracks hstep ↦ ⟨htracks.forward turn, htracks.step hstep⟩) _ tracks_start
    hundisturbed

/-- A post and a poll that overlap: the second event is written while the consumer is about to read
the first. -/
theorem ring_safe_overlap :
    let post : Turn Unit := .produce 0 Event.zero
    let turns := [post, post, post, post, .consume, .consume, post, post, post, post, .consume,
      .consume]
    let s : Interleaved Unit Unit Unit := turns.foldl Interleaved.step Interleaved.start
    s.InBounds ∧ s.TakenOnce ∧ s.taken = [some 0] ∧ s.published = 2 := by
  intro post turns s
  have hundisturbed : Runs.AllSteps Interleaved.step Interleaved.Undisturbed
      (Interleaved.start : Interleaved Unit Unit Unit) (turns ++ []) := by
    decide +kernel
  obtain ⟨hbounds, honce, -⟩ := ring_safe hundisturbed
  exact ⟨hbounds, honce, by decide +kernel, by decide +kernel⟩

namespace Interleaved

/-! ### A consumer that is late -/

/-- Posts without a poll in between, into a ring with room. -/
def posts (n : ℕ) : List (Turn Unit) :=
  (List.replicate n (List.replicate 4 (.produce 0 Event.zero))).flatten

/-- The ring holds this many events, and nothing has been taken out. -/
structure Filled (n : ℕ) (s : Interleaved Unit Unit Unit) : Prop where
  initialised : s.loop.initialised = true
  head_eq : s.loop.head = 0
  tail_eq : s.loop.tail = UInt32.ofNat n
  producer_eq : s.producer = .idle
  consumer_eq : s.consumer = .resting
  published_eq : s.published = n
  taken_eq : s.taken = []

theorem filled_posts (n : ℕ) (hn : n < 512) :
    Filled (n + 1) ((posts (n + 1)).foldl step start) := by
  induction n with
  | zero => exact ⟨rfl, rfl, rfl, rfl, rfl, rfl, rfl⟩
  | succ n ih =>
    have hfilled := ih (by omega)
    have hposts : posts (n + 1 + 1) =
        posts (n + 1) ++ List.replicate 4 (.produce 0 Event.zero) := by
      rw [posts, posts, List.replicate_succ', List.flatten_append, List.flatten_singleton]
    rw [hposts, List.foldl_append]
    generalize (posts (n + 1)).foldl step start = s at hfilled ⊢
    have hready : ensureInit s.loop = s.loop := if_pos hfilled.initialised
    have hroom : ¬ 512 ≤ s.loop.tail - s.loop.head := by
      rw [hfilled.tail_eq, hfilled.head_eq, UInt32.le_iff_toNat_le]
      have hdistance := counter_sub (Nat.zero_le (n + 1)) (by omega)
      change ¬ 512 ≤ (UInt32.ofNat (n + 1) - UInt32.ofNat 0).toNat
      omega
    have hturns : postTurns 0 Event.zero s.loop = List.replicate 4 (.produce 0 Event.zero) := by
      rw [postTurns, hready, if_neg hroom]
    obtain ⟨hloop, hproducer, hconsumer, hpublished, htaken, -, -⟩ :=
      foldl_postTurns hfilled.producer_eq 0 Event.zero
    rw [hturns] at hloop hproducer hconsumer hpublished htaken
    simp only [koeEventPost, hready, if_neg hroom] at hloop
    refine ⟨?_, ?_, ?_, hproducer, hconsumer.trans hfilled.consumer_eq, ?_,
      htaken.trans hfilled.taken_eq⟩
    · rw [hloop]
      exact hfilled.initialised
    · rw [hloop]
      exact hfilled.head_eq
    · rw [hloop]
      change s.loop.tail + 1 = UInt32.ofNat (n + 1 + 1)
      rw [hfilled.tail_eq, UInt32.ofNat_add (n + 1)]
      rfl
    · rw [hpublished, hfilled.published_eq]

/-- The consumer loads head and tail, the producer posts twice, and the consumer copies the slot at
its head. -/
def lateCopy : List (Turn Unit) :=
  [Turn.consume, Turn.consume] ++ List.replicate 5 (Turn.produce 0 Event.zero) ++
    List.replicate 5 (Turn.produce 0 Event.zero) ++ [Turn.consume]

/-- The two posts have moved the head by two and have written their events to the slots 0 and 1.
Assumes: a full ring. -/
theorem Filled.lateCopy {s : Interleaved Unit Unit Unit} (hfilled : Filled 512 s) :
    let late := Interleaved.lateCopy.foldl step s
    late.loop.head = 2 ∧ late.loop.tail = 514 ∧ late.consumer = .toStore 0 ∧
      late.taken = [some 512] ∧ late.numbers 0 = some 512 := by
  have hne : (0 : UInt32) ≠ UInt32.ofNat 512 := by decide
  -- The consumer has found the ring not empty.
  have hloads : [Turn.consume, Turn.consume].foldl step s =
      { s with consumer := .toCopy 0, mark := s.passed } := by
    simp only [List.foldl, step, consume, hfilled.consumer_eq, hfilled.head_eq, hfilled.tail_eq,
      hne, if_false]
  have hfull : 512 ≤ s.loop.tail - s.loop.head := by
    rw [hfilled.tail_eq, hfilled.head_eq]
    decide
  simp only [Interleaved.lateCopy, List.foldl_append, hloads]
  obtain ⟨⟨hinit, hhead, htail⟩, hidle, hconsumer, hpublished, htaken, hnumbers⟩ :=
    foldl_fullPost (s := { s with consumer := .toCopy 0, mark := s.passed }) hfilled.initialised
      hfilled.producer_eq hfull 0 Event.zero
  generalize (List.replicate 5 (Turn.produce 0 Event.zero)).foldl step
    { s with consumer := .toCopy 0, mark := s.passed } = once at *
  change once.loop.head = s.loop.head + 1 at hhead
  change once.loop.tail = s.loop.tail + 1 at htail
  rw [hfilled.head_eq] at hhead
  rw [hfilled.tail_eq] at htail
  have hagain : 512 ≤ once.loop.tail - once.loop.head := by
    rw [htail, hhead]
    decide
  obtain ⟨⟨-, hheadTwice, htailTwice⟩, -, hconsumerTwice, -, htakenTwice, hnumbersTwice⟩ :=
    foldl_fullPost hinit hidle hagain 0 Event.zero
  generalize (List.replicate 5 (Turn.produce 0 Event.zero)).foldl step once = twice at *
  have hslot : twice.numbers 0 = some 512 := by
    have hother : (0 : ℕ) ≠ slot (UInt32.ofNat 512 + 1) := by decide
    rw [hnumbersTwice, htail, Function.update_of_ne hother, hnumbers]
    change Function.update s.numbers (slot s.loop.tail) (some s.published) 0 = some 512
    have hzero : slot (UInt32.ofNat 512) = 0 := by decide
    rw [hfilled.tail_eq, hfilled.published_eq, hzero, Function.update_self]
  have hcopies : twice.consumer = .toCopy 0 := hconsumerTwice.trans hconsumer
  have hnone : twice.taken = [] := htakenTwice.trans (htaken.trans hfilled.taken_eq)
  simp only [List.foldl, step, consume, hcopies]
  refine ⟨?_, ?_, trivial, ?_, hslot⟩
  · rw [hheadTwice, hhead]
    decide
  · rw [htailTwice, htail]
    decide
  · rw [hnone]
    exact congrArg (fun number ↦ [number]) hslot

/-- The store moves the head back by one, and the tail is then 513 ahead. Assumes: a full ring. -/
theorem Filled.lateStore {s : Interleaved Unit Unit Unit} (hfilled : Filled 512 s) :
    let late := (Interleaved.lateCopy.foldl step s).step .consume
    late.loop.head = UInt32.ofNat 1 ∧ late.loop.tail = UInt32.ofNat 514 ∧
      late.consumer = .resting ∧ late.taken = [some 512] ∧ late.numbers 0 = some 512 := by
  obtain ⟨-, htail, hconsumer, htaken, hnumbers⟩ := hfilled.lateCopy
  generalize Interleaved.lateCopy.foldl step s = late at *
  simp only [step, consume, hconsumer]
  exact ⟨by decide, htail, trivial, htaken, hnumbers⟩

/-- The event 512 is taken out again when the consumer comes to its slot. Assumes: a full ring. -/
theorem Filled.drained {s : Interleaved Unit Unit Unit} (hfilled : Filled 512 s) :
    2 ≤ ((rounds 512).foldl step ((Interleaved.lateCopy.foldl step s).step .consume)).taken.count
      (some 512) := by
  obtain ⟨hhead, htail, hconsumer, htaken, hnumbers⟩ := hfilled.lateStore
  generalize (Interleaved.lateCopy.foldl step s).step .consume = late at *
  obtain ⟨-, -, -, -, hdrained⟩ := foldl_rounds hconsumer hhead htail (by omega) 512 (by omega)
  have hagain : some 512 ∈ (List.range' 1 512).map fun number ↦
      late.numbers (slot (UInt32.ofNat number)) := by
    refine List.mem_map.mpr ⟨512, List.mem_range'_1.mpr (by omega), ?_⟩
    have hzero : slot (UInt32.ofNat 512) = 0 := by decide
    rw [hzero, hnumbers]
  have hcount := List.one_le_count_iff.mpr hagain
  rw [hdrained, htaken, List.count_append, List.count_singleton_self]
  omega

end Interleaved

open Interleaved in
/-- With 512 events in the ring, a consumer is overtaken by two posts between its loads and its
copy. Its store moves the head from 2 back to 1, the tail is then 513 ahead, and when the ring is
drained the event 512 is taken out for a second time. -/
theorem late_consumer_moves_head_back :
    let before : Interleaved Unit Unit Unit := (posts 512 ++ lateCopy).foldl step start
    let after := before.step .consume
    let drained := (rounds 512).foldl step after
    before.loop.head = 2 ∧ after.loop.head = 1 ∧ after.loop.tail - after.loop.head = 513 ∧
      2 ≤ drained.taken.count (some 512) := by
  have hfilled : Filled 512 ((posts 512).foldl step start) := filled_posts 511 (by omega)
  intro before after drained
  have hbefore : before = lateCopy.foldl step ((posts 512).foldl step start) := List.foldl_append
  generalize (posts 512).foldl step start = full at hfilled hbefore
  obtain ⟨hhead, htail, -, -, -⟩ := hfilled.lateStore
  simp only [drained, after, hbefore]
  refine ⟨hfilled.lateCopy.1, hhead, ?_, hfilled.drained⟩
  rw [hhead, htail]
  decide

end KoeCore
