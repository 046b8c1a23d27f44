import Mathlib.Data.List.Basic
import Mathlib.Tactic.Common

/-!
# Bounded queues that drop their oldest element

A queue of a given capacity appends what is posted, and a full queue discards its oldest element
first. A history is the list of the operations made on such a queue, each taking with its answer,
and `Replays` says that a queue gives these answers.

In every history that can be replayed from the empty queue, what was taken can be numbered by what
was posted (`Replays.numbered`): the numbers increase, so nothing is taken twice or out of order,
and a number is passed over only when as many later elements have been posted as the queue holds.
-/

set_option autoImplicit false
set_option relaxedAutoImplicit false

namespace DropOldest

variable {α : Type*}

/-- An operation on a queue. Taking answers with the oldest element, or with nothing. -/
inductive Op (α : Type*)
  | post (item : α)
  | take (answer : Option α)

/-- The queue with an element posted. -/
def post (capacity : ℕ) (queue : List α) (item : α) : List α :=
  if queue.length < capacity then queue ++ [item] else queue.tail ++ [item]

/-- The history leads from the first queue to the last. -/
def Replays (capacity : ℕ) : List α → List (Op α) → List α → Prop
  | queue, [], last => last = queue
  | queue, .post item :: ops, last => Replays capacity (post capacity queue item) ops last
  | queue, .take answer :: ops, last =>
    answer = queue.head? ∧ Replays capacity queue.tail ops last

/-- What a history posts, in order. -/
def posted : List (Op α) → List α
  | [] => []
  | .post item :: ops => item :: posted ops
  | .take _ :: ops => posted ops

/-- What a history takes out, in order. -/
def taken : List (Op α) → List α
  | [] => []
  | .post _ :: ops => taken ops
  | .take answer :: ops => answer.toList ++ taken ops

theorem posted_append (front back : List (Op α)) :
    posted (front ++ back) = posted front ++ posted back := by
  induction front with
  | nil => rfl
  | cons op front ih =>
    cases op with
    | post item => exact congrArg (item :: ·) ih
    | take answer => exact ih

theorem taken_append (front back : List (Op α)) :
    taken (front ++ back) = taken front ++ taken back := by
  induction front with
  | nil => rfl
  | cons op front ih =>
    cases op with
    | post item => exact ih
    | take answer =>
      rw [List.cons_append, taken, taken, ih, List.append_assoc]

theorem replays_append {capacity : ℕ} (front : List (Op α)) :
    ∀ {first middle last : List α} {back : List (Op α)}, Replays capacity first front middle →
      Replays capacity middle back last → Replays capacity first (front ++ back) last := by
  induction front with
  | nil =>
    intro first middle last back hfront hback
    obtain rfl := hfront
    exact hback
  | cons op front ih =>
    intro first middle last back hfront hback
    cases op with
    | post item => exact ih hfront hback
    | take answer => exact ⟨hfront.1, ih hfront.2 hback⟩

/-- The numbers are those of the elements taken, in the order of taking. The elements before `next`
were taken or passed over, and those from `next` on are in the queue. -/
structure Numbered (capacity : ℕ) (posts takes : List α) (queue : List α) (next : ℕ)
    (numbers : List ℕ) : Prop where
  next_le : next ≤ posts.length
  queue_eq : queue = posts.drop next
  length_le : posts.length ≤ next + capacity
  increasing : numbers.Pairwise (· < ·)
  lt_next : ∀ i ∈ numbers, i < next
  takes_eq : takes.map some = numbers.map fun i ↦ posts[i]?
  passed_over : ∀ i < next, i ∈ numbers ∨ i + capacity < posts.length

section Numbered

variable {capacity : ℕ} {posts takes queue : List α} {next : ℕ} {numbers : List ℕ}

theorem numbered_nil (capacity : ℕ) : Numbered capacity ([] : List α) [] [] 0 [] where
  next_le := Nat.le_refl 0
  queue_eq := rfl
  length_le := Nat.zero_le _
  increasing := List.Pairwise.nil
  lt_next := fun _ hmem ↦ absurd hmem List.not_mem_nil
  takes_eq := rfl
  passed_over := fun i hi ↦ absurd hi (Nat.not_lt_zero i)

/-- Assumes: a positive capacity. -/
theorem Numbered.post (hnumbered : Numbered capacity posts takes queue next numbers)
    (hcapacity : 0 < capacity) (item : α) :
    ∃ after, Numbered capacity (posts ++ [item]) takes (post capacity queue item) after
      numbers := by
  have hlength : queue.length = posts.length - next := by
    rw [hnumbered.queue_eq, List.length_drop]
  have hle := hnumbered.next_le
  have hbound := hnumbered.length_le
  have htakes : takes.map some = numbers.map fun i ↦ (posts ++ [item])[i]? := by
    rw [hnumbered.takes_eq]
    apply List.map_congr_left
    intro i hi
    have hlt := hnumbered.lt_next i hi
    rw [List.getElem?_append_left (by omega)]
  by_cases hroom : queue.length < capacity
  · refine ⟨next, ?_, ?_, ?_, hnumbered.increasing, hnumbered.lt_next, htakes, ?_⟩
    · rw [List.length_append]
      omega
    · rw [DropOldest.post, if_pos hroom, hnumbered.queue_eq, List.drop_append_of_le_length hle]
    · rw [List.length_append, List.length_singleton]
      omega
    · intro i hi
      rw [List.length_append, List.length_singleton]
      exact (hnumbered.passed_over i hi).imp_right fun hlater ↦ by omega
  · -- The oldest element is dropped, and the posted ones after it fill the queue.
    refine ⟨next + 1, ?_, ?_, ?_, hnumbered.increasing, ?_, htakes, ?_⟩
    · rw [List.length_append, List.length_singleton]
      omega
    · rw [DropOldest.post, if_neg hroom, hnumbered.queue_eq, List.tail_drop,
        List.drop_append_of_le_length (by omega)]
    · rw [List.length_append, List.length_singleton]
      omega
    · intro i hi
      exact Nat.lt_succ_of_lt (hnumbered.lt_next i hi)
    · intro i hi
      rw [List.length_append, List.length_singleton]
      rcases Nat.lt_succ_iff_lt_or_eq.mp hi with hlt | heq
      · exact (hnumbered.passed_over i hlt).imp_right fun hlater ↦ by omega
      · exact Or.inr (by omega)

theorem Numbered.take (hnumbered : Numbered capacity posts takes queue next numbers) :
    ∃ after more, Numbered capacity posts (takes ++ queue.head?.toList) queue.tail after
      (numbers ++ more) := by
  have hle := hnumbered.next_le
  cases hqueue : queue with
  | nil =>
    refine ⟨next, [], ?_⟩
    rw [List.head?_nil, Option.toList_none, List.append_nil, List.append_nil, List.tail_nil,
      ← hqueue]
    exact hnumbered
  | cons item rest =>
    have hdrop : posts.drop next = item :: rest := by rw [← hnumbered.queue_eq, hqueue]
    have hlt : next < posts.length := by
      have hlength := congrArg List.length hdrop
      rw [List.length_drop, List.length_cons] at hlength
      omega
    rw [List.drop_eq_getElem_cons hlt] at hdrop
    obtain ⟨hitem, hrest⟩ := List.cons.inj hdrop
    refine ⟨next + 1, [next], hlt, hrest.symm, ?_, ?_, ?_, ?_, ?_⟩
    · have hbound := hnumbered.length_le
      omega
    · rw [List.pairwise_append]
      refine ⟨hnumbered.increasing, List.pairwise_singleton _ _, ?_⟩
      intro i hi j hj
      rw [List.mem_singleton.mp hj]
      exact hnumbered.lt_next i hi
    · intro i hi
      rcases List.mem_append.mp hi with hold | hnew
      · exact Nat.lt_succ_of_lt (hnumbered.lt_next i hold)
      · rw [List.mem_singleton.mp hnew]
        exact Nat.lt_succ_self next
    · simp [hnumbered.takes_eq, List.getElem?_eq_getElem hlt, hitem]
    · intro i hi
      rcases Nat.lt_succ_iff_lt_or_eq.mp hi with hbefore | heq
      · exact (hnumbered.passed_over i hbefore).imp_left fun hmem ↦ List.mem_append_left _ hmem
      · exact Or.inl (by simp [heq])

/-- Assumes: a positive capacity, a numbering of what happened before, and a history that can be
replayed from there. -/
theorem Replays.numbered_from (hcapacity : 0 < capacity) (ops : List (Op α)) :
    ∀ {posts takes queue last : List α} {next : ℕ} {numbers : List ℕ},
      Numbered capacity posts takes queue next numbers → Replays capacity queue ops last →
      ∃ after all, Numbered capacity (posts ++ posted ops) (takes ++ taken ops) last after all := by
  induction ops with
  | nil =>
    intro posts takes queue last next numbers hnumbered hreplays
    obtain rfl := hreplays
    refine ⟨next, numbers, ?_⟩
    rw [posted, taken, List.append_nil, List.append_nil]
    exact hnumbered
  | cons op ops ih =>
    intro posts takes queue last next numbers hnumbered hreplays
    cases op with
    | post item =>
      obtain ⟨after, hpost⟩ := hnumbered.post hcapacity item
      obtain ⟨final, all, hall⟩ := ih hpost hreplays
      refine ⟨final, all, ?_⟩
      rw [List.append_assoc] at hall
      exact hall
    | take answer =>
      obtain ⟨after, more, htake⟩ := hnumbered.take
      obtain ⟨final, all, hall⟩ := ih htake hreplays.2
      refine ⟨final, all, ?_⟩
      rw [List.append_assoc, ← hreplays.1] at hall
      exact hall

/-- Assumes: a positive capacity, and a history that can be replayed from the empty queue. -/
theorem Replays.numbered (hcapacity : 0 < capacity) {ops : List (Op α)} {last : List α}
    (hreplays : Replays capacity [] ops last) :
    ∃ next numbers, Numbered capacity (posted ops) (taken ops) last next numbers :=
  Replays.numbered_from hcapacity ops (numbered_nil capacity) hreplays

end Numbered

end DropOldest
