import Mathlib.Data.List.Basic
import Mathlib.Tactic.Common

/-!
# Cutting a list into pieces

A list is cut into pieces of a fixed size, of which the last may be shorter. `piece size items i` is
the piece with index `i`, and `count size length` the number of pieces of a list. The first `n`
pieces in order are the first `n * size` elements (`flatMap_piece`), hence all pieces together are
the list (`flatMap_piece_count`) and fewer are a proper part of it (`flatMap_piece_ne`), as are all
of them with a non-empty one left out (`piece_eq_nil_of_flatMap`).
-/

set_option autoImplicit false
set_option relaxedAutoImplicit false

namespace Pieces

variable {α : Type*}

/-- The number of pieces that a list of a given length is cut into. -/
def count (size length : ℕ) : ℕ := (length + size - 1) / size

/-- The piece with a given index. -/
def piece (size : ℕ) (items : List α) (i : ℕ) : List α := (items.drop (i * size)).take size

/-- An index is that of a piece exactly when the piece starts inside the list. -/
theorem lt_count_iff {size : ℕ} (hsize : 0 < size) (length i : ℕ) :
    i < count size length ↔ i * size < length := by
  rw [count, ← Nat.succ_le_iff, Nat.le_div_iff_mul_le hsize, Nat.succ_mul]
  omega

/-- A whole number of pieces. -/
theorem count_mul {size : ℕ} (hsize : 0 < size) (n : ℕ) : count size (size * n) = n := by
  rw [count, Nat.add_sub_assoc hsize, Nat.mul_add_div hsize,
    Nat.div_eq_of_lt (Nat.sub_lt hsize Nat.one_pos), Nat.add_zero]

theorem length_piece (size : ℕ) (items : List α) (i : ℕ) :
    (piece size items i).length = min size (items.length - i * size) := by
  rw [piece, List.length_take, List.length_drop]

theorem flatMap_piece (size : ℕ) (items : List α) (n : ℕ) :
    (List.range n).flatMap (piece size items) = items.take (n * size) := by
  induction n with
  | zero => simp
  | succ n ih =>
    rw [List.range_succ, List.flatMap_append, ih, Nat.succ_mul, List.take_add]
    simp [piece]

/-- All pieces together are the list. -/
theorem flatMap_piece_count {size : ℕ} (hsize : 0 < size) (items : List α) :
    (List.range (count size items.length)).flatMap (piece size items) = items := by
  have hend : ¬ count size items.length < count size items.length := Nat.lt_irrefl _
  rw [lt_count_iff hsize] at hend
  rw [flatMap_piece, List.take_of_length_le (Nat.not_lt.mp hend)]

/-- Assumes: fewer pieces than the list has. They are not the whole list. -/
theorem flatMap_piece_ne {size : ℕ} (hsize : 0 < size) (items : List α) {n : ℕ}
    (hfew : n < count size items.length) :
    (List.range n).flatMap (piece size items) ≠ items := by
  rw [lt_count_iff hsize] at hfew
  intro hall
  have hlength := congrArg List.length hall
  rw [flatMap_piece, List.length_take] at hlength
  omega

/-- Assumes: a list of all pieces, of which some are left out. Only empty pieces are. -/
theorem piece_eq_nil_of_flatMap {size : ℕ} {items : List α} {kept : ℕ → Prop} [DecidablePred kept]
    {n : ℕ} (hall : ((List.range n).flatMap fun i ↦ if kept i then piece size items i else []) =
      (List.range n).flatMap (piece size items)) :
    ∀ i < n, ¬ kept i → piece size items i = [] := by
  have hshorter (m : ℕ) :
      ((List.range m).flatMap fun i ↦ if kept i then piece size items i else []).length ≤
        ((List.range m).flatMap (piece size items)).length := by
    induction m with
    | zero => exact Nat.le_refl _
    | succ m ih =>
      simp only [List.range_succ, List.flatMap_append, List.flatMap_singleton, List.length_append]
      split_ifs
      · omega
      · rw [List.length_nil]
        omega
  induction n with
  | zero =>
    intro i hi
    exact absurd hi (Nat.not_lt_zero i)
  | succ n ih =>
    have hlengths := congrArg List.length hall
    have hle := hshorter n
    simp only [List.range_succ, List.flatMap_append, List.flatMap_singleton,
      List.length_append] at hall hlengths
    have hfront :
        ((List.range n).flatMap fun i ↦ if kept i then piece size items i else []).length =
          ((List.range n).flatMap (piece size items)).length := by
      split_ifs at hlengths
      · omega
      · rw [List.length_nil] at hlengths
        omega
    obtain ⟨hbefore, hlast⟩ := List.append_inj hall hfront
    intro i hi hout
    rcases Nat.lt_succ_iff_lt_or_eq.mp hi with hlt | heq
    · exact ih hbefore i hlt hout
    · rw [heq] at hout ⊢
      rw [if_neg hout] at hlast
      exact hlast.symm

end Pieces
