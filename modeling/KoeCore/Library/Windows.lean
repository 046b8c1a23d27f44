import KoeCore.Library.Slots
import Mathlib.Data.List.Nodup
import Mathlib.Data.List.Perm.Basic
import Mathlib.Logic.Function.Basic

/-!
# The used part of an array

An array with a counter: the places below the counter are in use, and the others keep what was last
written to them. An array is a function on indices, and `window` the list of its first places. A
write behind the window appends (`window_push`), a write to the first place that passes a test is
`Slots.updateFirst` on the window (`window_updateFirst`), and a removal that moves the last place
into the freed one takes one element away, up to order (`perm_window_moveLast`).
-/

set_option autoImplicit false
set_option relaxedAutoImplicit false

namespace Windows

variable {α : Type*} {f : ℕ → α} {n : ℕ}

/-- The first `n` places of an array. -/
def window (f : ℕ → α) (n : ℕ) : List α := (List.range n).map f

@[simp] theorem length_window : (window f n).length = n := by
  rw [window, List.length_map, List.length_range]

theorem mem_window {item : α} : item ∈ window f n ↔ ∃ i < n, f i = item := by
  simp only [window, List.mem_map, List.mem_range]

theorem window_succ : window f (n + 1) = window f n ++ [f n] := by
  rw [window, List.range_succ, List.map_append, List.map_singleton]
  rfl

/-- Assumes: arrays that agree on the window. -/
theorem window_congr {g : ℕ → α} (hagree : ∀ i < n, f i = g i) : window f n = window g n :=
  List.map_congr_left fun i hi ↦ hagree i (List.mem_range.mp hi)

/-- A write behind the window. -/
theorem window_push (item : α) :
    window (Function.update f n item) (n + 1) = window f n ++ [item] := by
  have hagree : window (Function.update f n item) n = window f n :=
    window_congr fun i hi ↦ Function.update_of_ne (Nat.ne_of_lt hi) item f
  rw [window_succ, hagree, Function.update_self]

/-! ### Searches -/

/-- The index of the first place that passes a test. -/
def firstIndex (test : α → Bool) (f : ℕ → α) (n : ℕ) : Option ℕ :=
  (List.range n).find? fun i ↦ test (f i)

theorem firstIndex_map (test : α → Bool) :
    (firstIndex test f n).map f = (window f n).find? test := by
  rw [window, List.find?_map]
  rfl

theorem firstIndex_eq_none_iff {test : α → Bool} :
    firstIndex test f n = none ↔ ∀ item ∈ window f n, test item = false := by
  simp [firstIndex, window]

/-- A write to the first place that passes a test. -/
theorem window_updateFirst {test : α → Bool} {i : ℕ} (hfirst : firstIndex test f n = some i)
    (change : α → α) :
    window (Function.update f i (change (f i))) n = Slots.updateFirst test change (window f n) := by
  have hlist (indices : List ℕ) (hnodup : indices.Nodup)
      (hfind : (indices.find? fun i ↦ test (f i)) = some i) :
      indices.map (Function.update f i (change (f i))) =
        Slots.updateFirst test change (indices.map f) := by
    induction indices with
    | nil => exact absurd hfind (by simp)
    | cons j indices ih =>
      rw [List.nodup_cons] at hnodup
      rw [List.map_cons, List.map_cons, Slots.updateFirst]
      by_cases htest : test (f j) = true
      · simp only [List.find?_cons, htest, Option.some_inj] at hfind
        subst hfind
        rw [if_pos htest, Function.update_self]
        congr 1
        exact List.map_congr_left fun k hk ↦
          Function.update_of_ne (fun heq : k = j ↦ hnodup.1 (heq ▸ hk)) _ f
      · simp only [List.find?_cons, htest] at hfind
        have hpasses := List.find?_some hfind
        have hne : j ≠ i := by
          rintro rfl
          exact htest hpasses
        rw [if_neg htest, Function.update_of_ne hne, ih hnodup.2 hfind]
  exact hlist (List.range n) List.nodup_range hfirst

/-! ### Removal -/

theorem window_update {i : ℕ} (item : α) :
    window (Function.update f i item) n = (window f n).set i item := by
  apply List.ext_getElem?
  intro k
  by_cases hk : k < n
  · by_cases hki : k = i
    · subst hki
      simp [window, hk]
    · rw [List.getElem?_set_ne (Ne.symm hki)]
      simp [window, hk, Function.update_of_ne hki]
  · simp [window, hk]

/-- The last place is moved into the freed one. Assumes: a place of the window. -/
theorem perm_window_moveLast {i : ℕ} (hi : i ≤ n) :
    (f i :: window (Function.update f i (f n)) n).Perm (window f (n + 1)) := by
  rw [window_succ]
  rcases Nat.lt_or_eq_of_le hi with hlt | rfl
  · have hplace : i < (window f n).length := by rwa [length_window]
    have hget : (window f n)[i] = f i := by simp [window]
    rw [window_update]
    have hset : (f i :: (window f n).set i (f n)).Perm (f i :: f n :: (window f n).eraseIdx i) :=
      (List.set_perm_cons_eraseIdx hplace (f n)).cons (f i)
    have hback : (f i :: (window f n).eraseIdx i).Perm (window f n) := by
      rw [← hget]
      exact List.getElem_cons_eraseIdx_perm hplace
    exact (hset.trans (List.Perm.swap _ _ _)).trans
      ((hback.cons (f n)).trans (List.perm_append_singleton _ _).symm)
  · have hagree : window (Function.update f i (f i)) i = window f i := by
      rw [Function.update_eq_self]
    rw [hagree]
    exact (List.perm_append_singleton _ _).symm

end Windows
