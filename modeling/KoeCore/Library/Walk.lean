import Mathlib.Data.List.Nodup
import Mathlib.Tactic.Common

/-!
# Walking over a table that changes

A loop goes over the entries of a table by index and visits each one, while entries are appended to
the table and taken out of it. Entries carry numbers as marks. They increase along the table, and a
new entry gets a mark above all that were given out. `Walk` is what such a loop maintains in front
of index `i`: the marks visited so far increase and lie below those still ahead, and of the entries
that the table had when the loop started, those that are left have been visited or are still ahead.

Visiting the entry at the index (`Walk.visit`) and appending an entry (`Walk.append`) keep this.
Taking an entry out at `j` moves the later ones down by one place, and keeps it only if none of them
is moved behind the index (`Walk.erase`). When the index has passed the end, every entry of the
start that is left has been visited once (`Walk.count_eq_one`).
-/

set_option autoImplicit false
set_option relaxedAutoImplicit false

/-- The state of a walk at index `i`: the marks of the table, those it had at the start and those
visited so far, all below `bound`. -/
structure Walk (start visited : List ℕ) (i bound : ℕ) (table : List ℕ) : Prop where
  sorted : table.Pairwise (· < ·)
  below : ∀ mark ∈ table, mark < bound
  start_below : ∀ mark ∈ start, mark < bound
  visited_below : ∀ mark ∈ visited, mark < bound
  visited_sorted : visited.Pairwise (· < ·)
  ahead : ∀ old ∈ visited, ∀ k mark, i ≤ k → table[k]? = some mark → old < mark
  reached : ∀ mark ∈ start, mark ∈ table → mark ∈ visited ∨ ∃ k, i ≤ k ∧ table[k]? = some mark

namespace Walk

variable {start visited table : List ℕ} {i bound : ℕ}

/-- A table on its own, before a walk or after one. -/
theorem idle (hsorted : table.Pairwise (· < ·)) (hbelow : ∀ mark ∈ table, mark < bound) :
    Walk [] [] 0 bound table where
  sorted := hsorted
  below := hbelow
  start_below := fun _ hmark ↦ absurd hmark List.not_mem_nil
  visited_below := fun _ hmark ↦ absurd hmark List.not_mem_nil
  visited_sorted := List.Pairwise.nil
  ahead := fun _ hold ↦ absurd hold List.not_mem_nil
  reached := fun _ hmark ↦ absurd hmark List.not_mem_nil

theorem stop (hwalk : Walk start visited i bound table) : Walk [] [] 0 bound table :=
  idle hwalk.sorted hwalk.below

/-- A walk starts at the first entry with nothing visited. -/
theorem begin (hidle : Walk [] [] 0 bound table) : Walk table [] 0 bound table where
  sorted := hidle.sorted
  below := hidle.below
  start_below := hidle.below
  visited_below := hidle.visited_below
  visited_sorted := List.Pairwise.nil
  ahead := hidle.ahead
  reached := by
    intro mark hmark _
    obtain ⟨k, hk⟩ := List.mem_iff_getElem?.mp hmark
    exact Or.inr ⟨k, Nat.zero_le k, hk⟩

/-- Assumes: a higher bound. -/
theorem raise {higher : ℕ} (hwalk : Walk start visited i bound table) (hle : bound ≤ higher) :
    Walk start visited i higher table where
  sorted := hwalk.sorted
  below := fun mark hmark ↦ Nat.lt_of_lt_of_le (hwalk.below mark hmark) hle
  start_below := fun mark hmark ↦ Nat.lt_of_lt_of_le (hwalk.start_below mark hmark) hle
  visited_below := fun mark hmark ↦ Nat.lt_of_lt_of_le (hwalk.visited_below mark hmark) hle
  visited_sorted := hwalk.visited_sorted
  ahead := hwalk.ahead
  reached := hwalk.reached

/-- The entry at the index is visited. Assumes: such an entry. -/
theorem visit {mark : ℕ} (hwalk : Walk start visited i bound table)
    (hmark : table[i]? = some mark) : Walk start (visited ++ [mark]) (i + 1) bound table where
  sorted := hwalk.sorted
  below := hwalk.below
  start_below := hwalk.start_below
  visited_below := by
    intro old hold
    rcases List.mem_append.mp hold with hearlier | hlast
    · exact hwalk.visited_below old hearlier
    · rw [List.mem_singleton.mp hlast]
      exact hwalk.below mark (List.mem_of_getElem? hmark)
  visited_sorted := by
    refine List.pairwise_append.mpr ⟨hwalk.visited_sorted, List.pairwise_singleton _ _, ?_⟩
    intro old hold last hlast
    rw [List.mem_singleton.mp hlast]
    exact hwalk.ahead old hold i mark (Nat.le_refl i) hmark
  ahead := by
    intro old hold k later hk hlater
    rcases List.mem_append.mp hold with hearlier | hlast
    · exact hwalk.ahead old hearlier k later (Nat.le_of_succ_le hk) hlater
    · obtain ⟨hi, rfl⟩ := List.getElem?_eq_some_iff.mp hmark
      obtain ⟨hkt, rfl⟩ := List.getElem?_eq_some_iff.mp hlater
      rw [List.mem_singleton.mp hlast]
      exact List.pairwise_iff_getElem.mp hwalk.sorted i k hi hkt hk
  reached := by
    intro old hold htable
    rcases hwalk.reached old hold htable with hearlier | ⟨k, hk, hat⟩
    · exact Or.inl (List.mem_append_left _ hearlier)
    · rcases Nat.eq_or_lt_of_le hk with rfl | hlater
      · obtain rfl := Option.some.inj (hmark.symm.trans hat)
        exact Or.inl (List.mem_append_right _ (List.mem_singleton_self _))
      · exact Or.inr ⟨k, hlater, hat⟩

/-- An entry is appended. Assumes: its mark is the old bound, and below the new one. -/
theorem append {higher : ℕ} (hwalk : Walk start visited i bound table) (hlt : bound < higher) :
    Walk start visited i higher (table ++ [bound]) where
  sorted := by
    refine List.pairwise_append.mpr ⟨hwalk.sorted, List.pairwise_singleton _ _, ?_⟩
    intro mark hmark last hlast
    rw [List.mem_singleton.mp hlast]
    exact hwalk.below mark hmark
  below := by
    intro mark hmark
    rcases List.mem_append.mp hmark with hold | hlast
    · exact Nat.lt_trans (hwalk.below mark hold) hlt
    · rw [List.mem_singleton.mp hlast]
      exact hlt
  start_below := fun mark hmark ↦ Nat.lt_trans (hwalk.start_below mark hmark) hlt
  visited_below := fun mark hmark ↦ Nat.lt_trans (hwalk.visited_below mark hmark) hlt
  visited_sorted := hwalk.visited_sorted
  ahead := by
    intro old hold k mark hk hmark
    by_cases hlast : k < table.length
    · rw [List.getElem?_append_left hlast] at hmark
      exact hwalk.ahead old hold k mark hk hmark
    · rw [List.getElem?_append_right (Nat.not_lt.mp hlast)] at hmark
      rw [List.mem_singleton.mp (List.mem_of_getElem? hmark)]
      exact hwalk.visited_below old hold
  reached := by
    intro mark hmark htable
    have hne : mark ≠ bound := Nat.ne_of_lt (hwalk.start_below mark hmark)
    rcases List.mem_append.mp htable with hold | hlast
    · rcases hwalk.reached mark hmark hold with hvisited | ⟨k, hk, hat⟩
      · exact Or.inl hvisited
      · refine Or.inr ⟨k, hk, ?_⟩
        rw [List.getElem?_append_left (List.getElem?_eq_some_iff.mp hat).1]
        exact hat
    · exact absurd (List.mem_singleton.mp hlast) hne

/-- An entry is taken out. Assumes: no entry is moved behind the index. -/
theorem erase {j : ℕ} (hwalk : Walk start visited i bound table)
    (hclear : i ≤ j ∨ table.length ≤ i) : Walk start visited i bound (table.eraseIdx j) where
  sorted := hwalk.sorted.sublist (List.eraseIdx_sublist table j)
  below := fun mark hmark ↦ hwalk.below mark (List.mem_of_mem_eraseIdx hmark)
  start_below := hwalk.start_below
  visited_below := hwalk.visited_below
  visited_sorted := hwalk.visited_sorted
  ahead := by
    intro old hold k mark hk hmark
    rw [List.getElem?_eraseIdx] at hmark
    split_ifs at hmark
    · exact hwalk.ahead old hold k mark hk hmark
    · exact hwalk.ahead old hold (k + 1) mark (Nat.le_succ_of_le hk) hmark
  reached := by
    intro mark hmark htable
    rcases hwalk.reached mark hmark (List.mem_of_mem_eraseIdx htable) with hvisited | ⟨k, hk, hat⟩
    · exact Or.inl hvisited
    · obtain ⟨hlength, rfl⟩ := List.getElem?_eq_some_iff.mp hat
      obtain ⟨l, hl⟩ := List.mem_iff_getElem?.mp htable
      refine Or.inr ⟨l, ?_, hl⟩
      -- An entry found in front of the index was there before, and is not the one at `k`.
      by_contra hbehind
      have hfront : l < j := by omega
      rw [List.getElem?_eraseIdx_of_lt hfront] at hl
      obtain ⟨hlt, heq⟩ := List.getElem?_eq_some_iff.mp hl
      have hless := List.pairwise_iff_getElem.mp hwalk.sorted l k hlt hlength (by omega)
      exact absurd heq (Nat.ne_of_lt hless)

/-- Assumes: a walk past the end, and an entry of the start that is left. -/
theorem count_eq_one {mark : ℕ} (hwalk : Walk start visited i bound table)
    (hend : table.length ≤ i) (hstart : mark ∈ start) (hleft : mark ∈ table) :
    visited.count mark = 1 := by
  have hvisited : mark ∈ visited := by
    rcases hwalk.reached mark hstart hleft with hvisited | ⟨k, hk, hat⟩
    · exact hvisited
    · rw [List.getElem?_eq_none (Nat.le_trans hend hk)] at hat
      exact absurd hat (by simp)
  have hnodup : visited.Nodup := hwalk.visited_sorted.imp Nat.ne_of_lt
  exact List.count_eq_one_of_mem hnodup hvisited

end Walk
