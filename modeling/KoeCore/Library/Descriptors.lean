import Mathlib.Algebra.BigOperators.Group.List.Basic
import Mathlib.Algebra.Order.Group.Multiset
import Mathlib.Data.List.Perm.Subperm
import Mathlib.Data.Int.Notation
import Mathlib.Tactic.Abel

/-!
# Descriptors and the variables that hold them

A process has a table of open descriptors. The system hands out the lowest number that is free, and
a variable of type `int` holds a descriptor or, with `-1`, none. `held` is what a variable holds.

Whose descriptors these are is a matter of accounting, with multisets that are added up: a
descriptor that is opened is one more than before, held by the variable it is stored in
(`opened_openAt`), and closing what a variable holds takes it out of the account
(`opened_closeAt`). Since the table has no descriptor twice, parts of one account are disjoint.
-/

set_option autoImplicit false
set_option relaxedAutoImplicit false

namespace Descriptors

/-- The open descriptors of a process. -/
structure Table where
  opened : List ℕ
  nodup : opened.Nodup

/-- What a variable holds. -/
def held (fd : ℤ) : Multiset ℕ := if 0 ≤ fd then {fd.toNat} else 0

/-- What all variables of a list hold. -/
def heldAll (fds : List ℤ) : Multiset ℕ := (fds.map held).sum

@[simp] theorem held_natCast (n : ℕ) : held n = {n} := by
  rw [held, if_pos (Int.natCast_nonneg n), Int.toNat_natCast]

@[simp] theorem held_neg_one : held (-1) = 0 := rfl

/-- Assumes: a variable that holds nothing. -/
theorem held_of_neg {fd : ℤ} (hfd : fd < 0) : held fd = 0 := if_neg (Int.not_le.mpr hfd)

@[simp] theorem heldAll_nil : heldAll [] = 0 := rfl

@[simp] theorem heldAll_cons (fd : ℤ) (fds : List ℤ) :
    heldAll (fd :: fds) = held fd + heldAll fds := by
  rw [heldAll, List.map_cons, List.sum_cons]
  rfl

theorem heldAll_append (front back : List ℤ) :
    heldAll (front ++ back) = heldAll front + heldAll back := by
  rw [heldAll, List.map_append, List.sum_append]
  rfl

/-- Assumes: a variable of the list that holds a descriptor. -/
theorem mem_heldAll {fds : List ℤ} {fd : ℤ} (hfd : fd ∈ fds) (hnonneg : 0 ≤ fd) :
    fd.toNat ∈ heldAll fds := by
  induction fds with
  | nil => exact absurd hfd List.not_mem_nil
  | cons first fds ih =>
    rw [heldAll_cons, Multiset.mem_add]
    rcases List.mem_cons.mp hfd with rfl | hlater
    · exact Or.inl (by rw [held, if_pos hnonneg]; exact Multiset.mem_singleton_self _)
    · exact Or.inr (ih hlater)

/-- One variable of a list is changed. Assumes: the variable. -/
theorem heldAll_set {fds : List ℤ} {i : ℕ} {old : ℤ} (hold : fds[i]? = some old) (new : ℤ) :
    heldAll (fds.set i new) + held old = heldAll fds + held new := by
  induction fds generalizing i with
  | nil => exact absurd hold (by simp)
  | cons fd fds ih =>
    cases i with
    | zero =>
      obtain rfl : fd = old := Option.some.inj hold
      rw [List.set_cons_zero, heldAll_cons, heldAll_cons]
      abel
    | succ i =>
      have hrest := ih (i := i) hold
      rw [List.set_cons_succ, heldAll_cons, heldAll_cons, add_assoc, hrest, add_assoc]

/-- The lowest number that is not in use. -/
def lowestFree (opened : List ℕ) : ℕ :=
  ((List.range (opened.length + 1)).find? fun n ↦ n ∉ opened).getD opened.length

theorem lowestFree_notMem (opened : List ℕ) : lowestFree opened ∉ opened := by
  rcases hfind : (List.range (opened.length + 1)).find? fun n ↦ n ∉ opened with _ | n
  · -- More numbers than descriptors cannot all be in use.
    have hsubset : List.range (opened.length + 1) ⊆ opened := by
      intro n hn
      simpa using List.find?_eq_none.mp hfind n hn
    have hle := (List.nodup_range.subperm hsubset).length_le
    rw [List.length_range] at hle
    exact absurd hle (Nat.not_succ_le_self _)
  · rw [lowestFree, hfind]
    simpa using List.find?_some hfind

namespace Table

/-- A call that opens a descriptor, if the system lets it: the descriptor, or `-1`. -/
def openAt (ok : Bool) (table : Table) : ℤ × Table :=
  if ok then
    (lowestFree table.opened, ⟨lowestFree table.opened :: table.opened,
      table.nodup.cons (lowestFree_notMem table.opened)⟩)
  else (-1, table)

/-- `close`, which has no effect on a number that is not open. -/
def closeAt (fd : ℤ) (table : Table) : Table :=
  if 0 ≤ fd then ⟨table.opened.erase fd.toNat, table.nodup.erase _⟩ else table

theorem opened_openAt (ok : Bool) (table : Table) :
    ((table.openAt ok).2.opened : Multiset ℕ) = held (table.openAt ok).1 + table.opened := by
  cases ok with
  | false => exact (zero_add _).symm
  | true =>
    change ((lowestFree table.opened :: table.opened : List ℕ) : Multiset ℕ) =
      held (lowestFree table.opened : ℤ) + table.opened
    rw [held_natCast, Multiset.singleton_add, Multiset.cons_coe]

/-- Assumes: an account with the variable and a rest. -/
theorem opened_closeAt {table : Table} {fd : ℤ} {rest : Multiset ℕ}
    (hopened : (table.opened : Multiset ℕ) = held fd + rest) :
    ((table.closeAt fd).opened : Multiset ℕ) = rest := by
  by_cases hfd : 0 ≤ fd
  · rw [held, if_pos hfd, Multiset.singleton_add] at hopened
    rw [closeAt, if_pos hfd]
    change ((table.opened.erase fd.toNat : List ℕ) : Multiset ℕ) = rest
    rw [← Multiset.coe_erase, hopened, Multiset.erase_cons_head]
  · rw [held, if_neg hfd, zero_add] at hopened
    rw [closeAt, if_neg hfd, hopened]

/-- Assumes: a call that was refused. -/
theorem openAt_of_neg {ok : Bool} {table : Table} (hneg : (table.openAt ok).1 < 0) :
    table.openAt ok = (-1, table) := by
  cases ok with
  | false => rfl
  | true => exact absurd hneg (Int.not_lt.mpr (Int.natCast_nonneg (lowestFree table.opened)))

/-- Opening a descriptor and closing it again. -/
theorem closeAt_openAt (ok : Bool) (table : Table) :
    (table.openAt ok).2.closeAt (table.openAt ok).1 = table := by
  cases ok with
  | false => rfl
  | true =>
    simp [openAt, closeAt]

end Table

end Descriptors
