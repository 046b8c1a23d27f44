import Mathlib.Data.List.Basic
import Mathlib.Tactic.Common

/-!
# Rings that keep the last writes

A ring of `n` places is written in turn, and a write replaces what its place held. `Holds` compares
the ring with everything that was ever written to it: each of the last `n` writes is still in its
place. A write at the next place keeps this (`Holds.write`), and the place after it is the next one
again (`succ_mod`).
-/

set_option autoImplicit false
set_option relaxedAutoImplicit false

namespace LastWrites

variable {α : Type*} {n : ℕ} {ring writes : List α}

/-- Of the writes, the oldest first, the last `n` are in the ring. -/
structure Holds (n : ℕ) (ring writes : List α) : Prop where
  length_ring : ring.length = n
  recent : ∀ k < writes.length, writes.length ≤ k + n → ring[k % n]? = writes[k]?

/-- Assumes: a ring of the given size. -/
theorem holds_nil (hring : ring.length = n) : Holds n ring [] :=
  ⟨hring, fun k hk ↦ absurd hk (Nat.not_lt_zero k)⟩

theorem succ_mod (n : ℕ) (writes : List α) (item : α) :
    (writes.length % n + 1) % n = (writes ++ [item]).length % n := by
  rw [List.length_append, List.length_singleton, Nat.mod_add_mod]

/-- Two of the last writes are in different places. Assumes: an earlier and a later number less than
`n` apart. -/
theorem mod_ne_mod {k later : ℕ} (hlt : k < later) (hnear : later < k + n) : k % n ≠ later % n := by
  intro heq
  have hdvd : n ∣ later - k :=
    Nat.dvd_of_mod_eq_zero (Nat.sub_mod_eq_zero_of_mod_eq heq.symm)
  have hle : n ≤ later - k := Nat.le_of_dvd (Nat.sub_pos_of_lt hlt) hdvd
  omega

/-- A write at the next place. Assumes: a ring with the writes so far, and at least one place. -/
theorem Holds.write (hholds : Holds n ring writes) (hn : 0 < n) (item : α) :
    Holds n (ring.set (writes.length % n) item) (writes ++ [item]) := by
  refine ⟨by rw [List.length_set, hholds.length_ring], ?_⟩
  intro k hk hrecent
  rw [List.length_append, List.length_singleton] at hk hrecent
  rcases Nat.lt_or_eq_of_le (Nat.lt_succ_iff.mp hk) with hold | rfl
  · have hother : writes.length % n ≠ k % n := (mod_ne_mod hold (by omega)).symm
    rw [List.getElem?_set_ne hother, List.getElem?_append_left hold]
    exact hholds.recent k hold (by omega)
  · have hplace : writes.length % n < ring.length := by
      rw [hholds.length_ring]
      exact Nat.mod_lt _ hn
    rw [List.getElem?_set_self hplace, List.getElem?_concat_length]

end LastWrites
