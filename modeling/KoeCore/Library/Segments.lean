import Mathlib.Data.Int.Notation
import Mathlib.Data.List.Basic
import Mathlib.Tactic.Common

/-!
# Reading and writing a stream in pieces

One direction of a connection carries a stream of items. A single call writes or reads a piece of
what was asked for, of a size that the connection chooses, and reports failure by an answer that is
not positive. `writeExact` and `readExact` repeat such calls until everything is written or read.

On a connection whose answers are all positive, the sizes of the pieces do not matter:
`writeExact` puts exactly the items at the end of the stream (`writeExact_eq`), and `readExact`
takes exactly the asked number off its front (`readExact_eq`). `each` repeats an operation for a
list of inputs: when each of them writes, or takes off, the frame of its input, so do they together
(`each_writes`, `each_reads`).
-/

set_option autoImplicit false
set_option relaxedAutoImplicit false

namespace Segments

variable {α : Type*}

/-- The items written and not yet read, and the number of calls made on this end. -/
structure Channel (α : Type*) where
  pending : List α
  calls : ℕ

/-- The writing loop, with a bound on the calls it makes. -/
def writeLoop (answer : ℕ → ℤ) : ℕ → List α → Channel α → ℤ × Channel α
  | 0, items, chan => (if items.isEmpty then 0 else -1, chan)
  | fuel + 1, items, chan =>
    if items.isEmpty then (0, chan)
    else
      let sent := min (answer chan.calls).toNat items.length
      if sent = 0 then (-1, { chan with calls := chan.calls + 1 })
      else
        writeLoop answer fuel (items.drop sent)
          ⟨chan.pending ++ items.take sent, chan.calls + 1⟩

/-- The return code, and the channel after all items were written, or one call failed. Each call
writes at least one item, so as many calls as items are enough. -/
def writeExact (answer : ℕ → ℤ) (chan : Channel α) (items : List α) : ℤ × Channel α :=
  writeLoop answer items.length items chan

/-- The reading loop, with a bound on the calls it makes. A call at the end of the stream answers
with zero. -/
def readLoop (answer : ℕ → ℤ) : ℕ → ℕ → Channel α → ℤ × List α × Channel α
  | 0, n, chan => (if n = 0 then 0 else -1, [], chan)
  | fuel + 1, n, chan =>
    if n = 0 then (0, [], chan)
    else
      let got := min (answer chan.calls).toNat (min n chan.pending.length)
      if got = 0 then (-1, [], { chan with calls := chan.calls + 1 })
      else
        let (rc, rest, after) :=
          readLoop answer fuel (n - got) ⟨chan.pending.drop got, chan.calls + 1⟩
        (rc, chan.pending.take got ++ rest, after)

/-- The return code, what was read, and the channel after the asked number of items was read, or one
call failed. -/
def readExact (answer : ℕ → ℤ) (chan : Channel α) (n : ℕ) : ℤ × List α × Channel α :=
  readLoop answer n n chan

section Working

variable {answer : ℕ → ℤ} (hworks : ∀ call, 0 < answer call)

include hworks

theorem writeLoop_eq (fuel : ℕ) : ∀ (items : List α) (chan : Channel α), items.length ≤ fuel →
    ∃ calls, writeLoop answer fuel items chan = (0, ⟨chan.pending ++ items, calls⟩) := by
  induction fuel with
  | zero =>
    intro items chan hfuel
    obtain rfl := List.length_eq_zero_iff.mp (Nat.le_zero.mp hfuel)
    exact ⟨chan.calls, by simp [writeLoop]⟩
  | succ fuel ih =>
    intro items chan hfuel
    by_cases hempty : items.isEmpty = true
    · rw [List.isEmpty_iff] at hempty
      exact ⟨chan.calls, by simp [writeLoop, hempty]⟩
    · have hpos : 0 < items.length := by
        rw [List.isEmpty_iff] at hempty
        exact List.length_pos_iff.mpr hempty
      have hanswer := hworks chan.calls
      have hsent : ¬ min (answer chan.calls).toNat items.length = 0 := by omega
      obtain ⟨calls, hrest⟩ := ih (items.drop (min (answer chan.calls).toNat items.length))
        ⟨chan.pending ++ items.take (min (answer chan.calls).toNat items.length), chan.calls + 1⟩
        (by rw [List.length_drop]; omega)
      refine ⟨calls, ?_⟩
      rw [writeLoop, if_neg hempty]
      simp only [if_neg hsent, hrest, List.append_assoc, List.take_append_drop]

/-- Assumes: a connection whose answers are all positive. -/
theorem writeExact_eq (chan : Channel α) (items : List α) :
    ∃ calls, writeExact answer chan items = (0, ⟨chan.pending ++ items, calls⟩) :=
  writeLoop_eq hworks items.length items chan (Nat.le_refl _)

theorem readLoop_eq (fuel : ℕ) : ∀ (n : ℕ) (chan : Channel α), n ≤ fuel →
    n ≤ chan.pending.length →
      ∃ calls, readLoop answer fuel n chan =
        (0, chan.pending.take n, ⟨chan.pending.drop n, calls⟩) := by
  induction fuel with
  | zero =>
    intro n chan hfuel _
    obtain rfl := Nat.le_zero.mp hfuel
    exact ⟨chan.calls, by simp [readLoop]⟩
  | succ fuel ih =>
    intro n chan hfuel hpending
    by_cases hzero : n = 0
    · exact ⟨chan.calls, by simp [readLoop, hzero]⟩
    · have hanswer := hworks chan.calls
      have hgot : ¬ min (answer chan.calls).toNat (min n chan.pending.length) = 0 := by omega
      have hle : min (answer chan.calls).toNat (min n chan.pending.length) ≤ n := by omega
      obtain ⟨calls, hrest⟩ := ih
        (n - min (answer chan.calls).toNat (min n chan.pending.length))
        ⟨chan.pending.drop (min (answer chan.calls).toNat (min n chan.pending.length)),
          chan.calls + 1⟩ (by omega) (by rw [List.length_drop]; omega)
      refine ⟨calls, ?_⟩
      rw [readLoop, if_neg hzero]
      simp only [if_neg hgot, hrest, List.drop_drop, Nat.add_sub_cancel' hle, ← List.take_add]

/-- Assumes: a connection whose answers are all positive, and a stream of at least `n` items. -/
theorem readExact_eq (chan : Channel α) {n : ℕ} (hpending : n ≤ chan.pending.length) :
    ∃ calls, readExact answer chan n =
      (0, chan.pending.take n, ⟨chan.pending.drop n, calls⟩) :=
  readLoop_eq hworks n n chan (Nat.le_refl n) hpending

/-- The items in front of the rest are read and taken off. Assumes: a connection whose answers are
all positive. -/
theorem readExact_append (items rest : List α) (calls : ℕ) :
    ∃ after, readExact answer ⟨items ++ rest, calls⟩ items.length = (0, items, ⟨rest, after⟩) := by
  obtain ⟨after, hread⟩ := readExact_eq hworks ⟨items ++ rest, calls⟩
    (show items.length ≤ (items ++ rest).length by rw [List.length_append]; omega)
  refine ⟨after, ?_⟩
  rw [hread]
  simp only [List.take_left, List.drop_left]

end Working

/-- Assumes: a loop that returned `0`. -/
theorem readLoop_inv {answer : ℕ → ℤ} (fuel : ℕ) : ∀ (n : ℕ) (chan : Channel α),
    (readLoop answer fuel n chan).1 = 0 →
      n ≤ chan.pending.length ∧ (readLoop answer fuel n chan).2.1 = chan.pending.take n ∧
        (readLoop answer fuel n chan).2.2.pending = chan.pending.drop n := by
  have hfails : ¬ (-1 : ℤ) = 0 := by decide
  induction fuel with
  | zero =>
    intro n chan hrc
    by_cases hzero : n = 0
    · subst hzero
      exact ⟨Nat.zero_le _, rfl, rfl⟩
    · rw [readLoop, if_neg hzero] at hrc
      exact absurd hrc hfails
  | succ fuel ih =>
    intro n chan hrc
    by_cases hzero : n = 0
    · subst hzero
      rw [readLoop, if_pos rfl]
      exact ⟨Nat.zero_le _, rfl, rfl⟩
    rw [readLoop, if_neg hzero] at hrc ⊢
    dsimp only at hrc ⊢
    generalize hgot : min (answer chan.calls).toNat (min n chan.pending.length) = got at hrc ⊢
    by_cases hnone : got = 0
    · rw [if_pos hnone] at hrc
      exact absurd hrc hfails
    · rw [if_neg hnone] at hrc ⊢
      obtain ⟨hlength, hread, hafter⟩ := ih (n - got) ⟨chan.pending.drop got, chan.calls + 1⟩ hrc
      rw [List.length_drop] at hlength
      have hle : got ≤ n := by omega
      dsimp only at hread hafter ⊢
      rw [hread, hafter, List.drop_drop, Nat.add_sub_cancel' hle, ← List.take_add,
        Nat.add_sub_cancel' hle]
      exact ⟨by omega, rfl, rfl⟩

/-- What was read is the front of the stream, however the connection answered. Assumes: a reading
that returned `0`. -/
theorem readExact_inv {answer : ℕ → ℤ} {chan : Channel α} {n : ℕ}
    (hrc : (readExact answer chan n).1 = 0) :
    n ≤ chan.pending.length ∧ (readExact answer chan n).2.1 = chan.pending.take n ∧
      (readExact answer chan n).2.2.pending = chan.pending.drop n :=
  readLoop_inv n n chan hrc

/-! ### One operation after the other -/

section Each

variable {ι ρ : Type*} {op : ι → Channel α → ρ × Channel α} {inputs : List ι} {frame : ι → List α}
  {result : ι → ρ}

/-- An operation for each input in turn: their results, and the channel after them. -/
def each (op : ι → Channel α → ρ × Channel α) : List ι → Channel α → List ρ × Channel α
  | [], chan => ([], chan)
  | input :: inputs, chan =>
    let first := op input chan
    let rest := each op inputs first.2
    (first.1 :: rest.1, rest.2)

theorem each_map {κ : Type*} (f : κ → ι) (inputs : List κ) : ∀ chan : Channel α,
    each op (inputs.map f) chan = each (fun input ↦ op (f input)) inputs chan := by
  induction inputs with
  | nil => exact fun _ ↦ rfl
  | cons input inputs ih =>
    intro chan
    simp only [List.map_cons, each, ih]

/-- Assumes: each operation writes the frame of its input at the end of the stream. Together they
write the frames one after the other. -/
theorem each_writes (hop : ∀ input ∈ inputs, ∀ chan : Channel α, ∃ calls,
      op input chan = (result input, ⟨chan.pending ++ frame input, calls⟩)) (chan : Channel α) :
    ∃ calls, each op inputs chan =
      (inputs.map result, ⟨chan.pending ++ inputs.flatMap frame, calls⟩) := by
  induction inputs generalizing chan with
  | nil => exact ⟨chan.calls, by simp [each]⟩
  | cons input inputs ih =>
    obtain ⟨between, hfirst⟩ := hop input List.mem_cons_self chan
    obtain ⟨calls, hrest⟩ := ih (fun later hlater ↦ hop later (List.mem_cons_of_mem _ hlater))
      ⟨chan.pending ++ frame input, between⟩
    refine ⟨calls, ?_⟩
    simp only [each, hfirst, hrest, List.map_cons, List.flatMap_cons, List.append_assoc]

/-- Assumes: each operation takes the frame of its input off a stream that starts with it. Together
they take the frames off one after the other. -/
theorem each_reads (hop : ∀ input ∈ inputs, ∀ (rest : List α) (calls : ℕ), ∃ after,
      op input ⟨frame input ++ rest, calls⟩ = (result input, ⟨rest, after⟩)) (rest : List α)
    (calls : ℕ) :
    ∃ after, each op inputs ⟨inputs.flatMap frame ++ rest, calls⟩ =
      (inputs.map result, ⟨rest, after⟩) := by
  induction inputs generalizing calls with
  | nil => exact ⟨calls, rfl⟩
  | cons input inputs ih =>
    obtain ⟨between, hfirst⟩ := hop input List.mem_cons_self (inputs.flatMap frame ++ rest) calls
    obtain ⟨after, hrest⟩ := ih (fun later hlater ↦ hop later (List.mem_cons_of_mem _ hlater))
      between
    refine ⟨after, ?_⟩
    simp only [each, List.flatMap_cons, List.append_assoc, hfirst, hrest, List.map_cons]

end Each

end Segments
