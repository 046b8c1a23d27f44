import Mathlib.Data.Int.Order.Basic
import Mathlib.Data.List.MinMax
import Mathlib.Data.List.Nodup
import Mathlib.Data.List.Perm.Basic
import Mathlib.Tactic.Common

/-!
# A table with an AUTOINCREMENT key

Rows under integer keys, as SQL has them: `insert` takes a key above every key ever used,
`deleteWhere` is `DELETE .. WHERE`, `updateWhere` is `UPDATE .. SET .. WHERE`, and `selectMin` is
`SELECT .. WHERE .. ORDER BY .. LIMIT 1`, where SQL leaves open which of several smallest rows is
returned. The structure carries that keys are distinct and were handed out.

Deleting moves keys out of the table and loses none (`perm_ids_deleteWhere`, `perm_ids_delete`).
A selection finds a row when there is one (`exists_selectMin`), and no row that meets the condition
comes before it in the order (`order_le_of_selectMin`).
`Gains` compares two states of a table, and `gains_insert_iff` says what an insertion adds.
`Follows` says that no key was handed out twice on the way from one state to another.
-/

set_option autoImplicit false
set_option relaxedAutoImplicit false

namespace RowTable

/-- Rows with their keys, and the largest key ever used. -/
structure Table (ρ : Type*) where
  rows : List (ℕ × ρ)
  seq : ℕ
  bounded : ∀ row ∈ rows, row.1 ≤ seq
  nodup : (rows.map Prod.fst).Nodup

namespace Table

variable {ρ : Type*}

/-- The table without rows, in which no key was used yet. -/
def empty : Table ρ := ⟨[], 0, by simp, by simp⟩

/-- The keys of the rows. -/
def ids (tbl : Table ρ) : List ℕ := tbl.rows.map Prod.fst

theorem le_seq_of_mem_ids {tbl : Table ρ} {id : ℕ} (hid : id ∈ tbl.ids) : id ≤ tbl.seq := by
  obtain ⟨row, hrow, rfl⟩ := List.mem_map.mp hid
  exact tbl.bounded row hrow

/-- `INSERT`: the row under the next key. -/
def insert (tbl : Table ρ) (row : ρ) : Table ρ where
  rows := tbl.rows ++ [(tbl.seq + 1, row)]
  seq := tbl.seq + 1
  bounded := by
    intro other hother
    rw [List.mem_append, List.mem_singleton] at hother
    rcases hother with hother | rfl
    · exact Nat.le_succ_of_le (tbl.bounded other hother)
    · exact Nat.le_refl _
  nodup := by
    rw [List.map_append, List.nodup_append]
    refine ⟨tbl.nodup, by simp, ?_⟩
    intro first hfirst second hsecond
    rw [List.map_singleton, List.mem_singleton] at hsecond
    have hle : first ≤ tbl.seq := le_seq_of_mem_ids hfirst
    omega

@[simp] theorem ids_insert (tbl : Table ρ) (row : ρ) :
    (tbl.insert row).ids = tbl.ids ++ [tbl.seq + 1] := by
  simp [ids, insert]

/-- `DELETE .. WHERE`. -/
def deleteWhere (tbl : Table ρ) (condition : ℕ × ρ → Bool) : Table ρ where
  rows := tbl.rows.filter fun row ↦ !condition row
  seq := tbl.seq
  bounded := fun row hrow ↦ tbl.bounded row (List.mem_of_mem_filter hrow)
  nodup := (List.filter_sublist.map Prod.fst).nodup tbl.nodup

/-- The keys left and the keys deleted are together those from before. -/
theorem perm_ids_deleteWhere (tbl : Table ρ) (condition : ℕ × ρ → Bool) :
    ((tbl.deleteWhere condition).ids ++ (tbl.rows.filter condition).map Prod.fst).Perm tbl.ids := by
  rw [ids, deleteWhere, ← List.map_append]
  refine List.Perm.map Prod.fst ?_
  exact List.perm_append_comm.trans (List.filter_append_perm condition tbl.rows)

/-- Between the two tables a row was added: the second has it under a key that the first does not
have. -/
def Gains (before after : Table ρ) (row : ρ) : Prop :=
  ∃ id, id ∉ before.ids ∧ (id, row) ∈ after.rows

/-- Assumes: every row was there before. -/
theorem not_gains_of_subset {before after : Table ρ} (hrows : after.rows ⊆ before.rows) (row : ρ) :
    ¬ before.Gains after row := by
  rintro ⟨id, hid, hrow⟩
  exact hid (List.mem_map_of_mem (hrows hrow))

/-- Deleting some rows and inserting one adds that row and no other. Assumes: every row in the table
inserted to was there before, and the same keys were handed out. -/
theorem gains_insert_iff {before after : Table ρ} (hrows : after.rows ⊆ before.rows)
    (hseq : after.seq = before.seq) (new row : ρ) :
    before.Gains (after.insert new) row ↔ row = new := by
  constructor
  · rintro ⟨id, hid, hrow⟩
    rcases List.mem_append.mp hrow with hold | hnew
    · exact absurd ⟨id, hid, hold⟩ (not_gains_of_subset hrows row)
    · exact (Prod.mk.inj (List.mem_singleton.mp hnew)).2
  · intro hrow
    refine ⟨after.seq + 1, ?_, ?_⟩
    · intro hid
      have hle : after.seq + 1 ≤ before.seq := le_seq_of_mem_ids hid
      omega
    · rw [hrow]
      exact List.mem_append_right _ (List.mem_singleton_self _)

/-- `DELETE .. WHERE id = ?`. -/
def delete (tbl : Table ρ) (id : ℕ) : Table ρ := tbl.deleteWhere fun row ↦ row.1 == id

theorem ids_delete (tbl : Table ρ) (id : ℕ) : (tbl.delete id).ids = tbl.ids.erase id := by
  have hnodup : tbl.ids.Nodup := tbl.nodup
  rw [hnodup.erase_eq_filter, ids, ids, List.filter_map]
  rfl

theorem mem_delete {tbl : Table ρ} {id : ℕ} {row : ℕ × ρ} :
    row ∈ (tbl.delete id).rows ↔ row ∈ tbl.rows ∧ row.1 ≠ id := by
  simp [delete, deleteWhere]

/-- A key has one row. Assumes: two rows of the table under one key. -/
theorem eq_of_mem_of_id_eq {tbl : Table ρ} {first second : ℕ × ρ} (hfirst : first ∈ tbl.rows)
    (hsecond : second ∈ tbl.rows) (hid : first.1 = second.1) : first = second :=
  List.inj_on_of_nodup_map tbl.nodup hfirst hsecond hid

theorem mem_deleteWhere {tbl : Table ρ} {condition : ℕ × ρ → Bool} {row : ℕ × ρ} :
    row ∈ (tbl.deleteWhere condition).rows ↔ row ∈ tbl.rows ∧ ¬ condition row = true := by
  simp [deleteWhere]

/-- A deletion empties the table exactly when every row meets its condition. -/
theorem deleteWhere_rows_eq_nil_iff {tbl : Table ρ} {condition : ℕ × ρ → Bool} :
    (tbl.deleteWhere condition).rows = [] ↔ ∀ row ∈ tbl.rows, condition row = true := by
  simp [deleteWhere]

/-- A statement that deletes the row of one key meets its condition on that row. Assumes: the key
is in the table. -/
theorem condition_of_deleteWhere_eq_delete {tbl : Table ρ} {condition : ℕ × ρ → Bool} {id : ℕ}
    {row : ρ} (hrow : (id, row) ∈ tbl.rows) (heq : tbl.deleteWhere condition = tbl.delete id) :
    condition (id, row) = true := by
  by_contra hcondition
  have hkept : (id, row) ∈ (tbl.delete id).rows := heq ▸ mem_deleteWhere.mpr ⟨hrow, hcondition⟩
  exact (mem_delete.mp hkept).2 rfl

/-- `UPDATE .. SET .. WHERE`. -/
def updateWhere (tbl : Table ρ) (condition : ℕ × ρ → Bool) (set : ρ → ρ) : Table ρ where
  rows := tbl.rows.map fun row ↦ (row.1, if condition row then set row.2 else row.2)
  seq := tbl.seq
  bounded := by
    intro row hrow
    obtain ⟨old, hold, rfl⟩ := List.mem_map.mp hrow
    exact tbl.bounded old hold
  nodup := by
    rw [List.map_map]
    exact tbl.nodup

/-- Assumes: a row of the table that meets the condition. -/
theorem mem_updateWhere {tbl : Table ρ} {condition : ℕ × ρ → Bool} {id : ℕ} {row : ρ}
    (hrow : (id, row) ∈ tbl.rows) (hcondition : condition (id, row) = true) (set : ρ → ρ) :
    (id, set row) ∈ (tbl.updateWhere condition set).rows := by
  refine List.mem_map.mpr ⟨(id, row), hrow, ?_⟩
  rw [if_pos hcondition]

/-- `SELECT .. WHERE id = ?`. -/
def find (tbl : Table ρ) (id : ℕ) : Option ρ :=
  (tbl.rows.find? fun row ↦ row.1 == id).map Prod.snd

theorem find_eq_some_iff {tbl : Table ρ} {id : ℕ} {row : ρ} :
    tbl.find id = some row ↔ (id, row) ∈ tbl.rows := by
  constructor
  · intro hfind
    obtain ⟨⟨key, found⟩, hfound, rfl⟩ := Option.map_eq_some_iff.mp hfind
    have hkey : (key == id) = true :=
      List.find?_some (p := fun row : ℕ × ρ ↦ row.1 == id) hfound
    rw [← eq_of_beq hkey]
    exact List.mem_of_find?_eq_some hfound
  · intro hrow
    have hsome : (tbl.rows.find? fun row ↦ row.1 == id).isSome :=
      List.find?_isSome.mpr ⟨(id, row), hrow, beq_self_eq_true id⟩
    obtain ⟨found, hfound⟩ := Option.isSome_iff_exists.mp hsome
    have hkey : (found.1 == id) = true :=
      List.find?_some (p := fun row : ℕ × ρ ↦ row.1 == id) hfound
    rw [find, hfound, eq_of_mem_of_id_eq (List.mem_of_find?_eq_some hfound) hrow (eq_of_beq hkey)]
    rfl

/-! ### Looking up after a statement -/

theorem find_insert (tbl : Table ρ) (new : ρ) (id : ℕ) :
    (tbl.insert new).find id = if id = tbl.seq + 1 then some new else tbl.find id := by
  ext row
  rw [find_eq_some_iff, insert, List.mem_append, List.mem_singleton, Prod.mk.injEq]
  split_ifs with hid
  · have hfresh : (id, row) ∉ tbl.rows := by
      intro hrow
      have hle := tbl.bounded (id, row) hrow
      omega
    rw [or_iff_right hfresh, Option.some.injEq, and_iff_right hid]
    exact eq_comm
  · simp only [hid, false_and, or_false, find_eq_some_iff]

theorem find_deleteWhere (tbl : Table ρ) (condition : ℕ × ρ → Bool) (id : ℕ) :
    (tbl.deleteWhere condition).find id =
      (tbl.find id).filter fun row ↦ !condition (id, row) := by
  ext row
  rw [find_eq_some_iff, mem_deleteWhere, Option.filter_eq_some_iff, find_eq_some_iff]
  simp

theorem find_updateWhere (tbl : Table ρ) (condition : ℕ × ρ → Bool) (set : ρ → ρ) (id : ℕ) :
    (tbl.updateWhere condition set).find id =
      (tbl.find id).map fun row ↦ if condition (id, row) then set row else row := by
  ext row
  rw [find_eq_some_iff, updateWhere, List.mem_map, Option.map_eq_some_iff]
  constructor
  · rintro ⟨⟨key, old⟩, hold, heq⟩
    obtain ⟨rfl, rfl⟩ := Prod.mk.inj heq
    exact ⟨old, find_eq_some_iff.mpr hold, rfl⟩
  · rintro ⟨old, hold, rfl⟩
    exact ⟨(id, old), find_eq_some_iff.mp hold, rfl⟩

/-! ### Keys are not reused -/

/-- The second table came about from the first by insertions and deletions: its rows under keys
that were already handed out are rows of the first. -/
def Follows (before after : Table ρ) : Prop :=
  before.seq ≤ after.seq ∧ ∀ row ∈ after.rows, row.1 ≤ before.seq → row ∈ before.rows

theorem Follows.refl (tbl : Table ρ) : tbl.Follows tbl := ⟨Nat.le_refl _, fun _ hrow _ ↦ hrow⟩

theorem Follows.trans {first middle last : Table ρ} (hfirst : first.Follows middle)
    (hlast : middle.Follows last) : first.Follows last := by
  refine ⟨Nat.le_trans hfirst.1 hlast.1, ?_⟩
  intro row hrow hid
  exact hfirst.2 row (hlast.2 row hrow (Nat.le_trans hid hfirst.1)) hid

theorem follows_insert (tbl : Table ρ) (new : ρ) : tbl.Follows (tbl.insert new) := by
  refine ⟨Nat.le_succ _, ?_⟩
  intro row hrow hid
  rcases List.mem_append.mp hrow with hold | hnew
  · exact hold
  · rw [List.mem_singleton.mp hnew] at hid
    exact absurd hid (Nat.not_succ_le_self tbl.seq)

theorem follows_deleteWhere (tbl : Table ρ) (condition : ℕ × ρ → Bool) :
    tbl.Follows (tbl.deleteWhere condition) :=
  ⟨Nat.le_refl _, fun _ hrow _ ↦ (mem_deleteWhere.mp hrow).1⟩

/-- The key of an inserted row keeps its row for as long as it is there. Assumes: a later state of
the table in which the key still is. -/
theorem Follows.mem_of_insert {before later : Table ρ} {new : ρ}
    (hlater : (before.insert new).Follows later) (hid : before.seq + 1 ∈ later.ids) :
    (before.seq + 1, new) ∈ later.rows := by
  obtain ⟨⟨id, row⟩, hrow, rfl⟩ := List.mem_map.mp hid
  have hold : (before.seq + 1, row) ∈ (before.insert new).rows :=
    hlater.2 _ hrow (Nat.le_refl _)
  have hnew : (before.seq + 1, new) ∈ (before.insert new).rows :=
    List.mem_append_right _ (List.mem_singleton_self _)
  rw [← eq_of_mem_of_id_eq hold hnew rfl]
  exact hrow

/-- Deleting a row takes its key and no other. Assumes: a row of the table. -/
theorem perm_ids_delete {tbl : Table ρ} {row : ℕ × ρ} (hrow : row ∈ tbl.rows) :
    (row.1 :: (tbl.delete row.1).ids).Perm tbl.ids := by
  rw [ids_delete]
  exact (List.perm_cons_erase (List.mem_map_of_mem hrow)).symm

/-- `SELECT .. WHERE .. ORDER BY .. ASC LIMIT 1`: one of the rows with the smallest value of `order`
among those that meet the condition; `tie` picks it. -/
def selectMin (tbl : Table ρ) (condition : ρ → Bool) (order : ρ → ℤ) (tie : ℕ) : Option (ℕ × ρ) :=
  let found := tbl.rows.filter fun row ↦ condition row.2
  let smallest := found.filter fun row ↦ found.all fun other ↦ decide (order row.2 ≤ order other.2)
  smallest[tie % smallest.length]?

/-- Assumes: a row was selected. -/
theorem mem_of_selectMin {tbl : Table ρ} {condition : ρ → Bool} {order : ρ → ℤ} {tie : ℕ}
    {row : ℕ × ρ} (hrow : tbl.selectMin condition order tie = some row) :
    row ∈ tbl.rows ∧ condition row.2 = true :=
  List.mem_filter.mp (List.mem_of_mem_filter (List.mem_of_getElem? hrow))

/-- Assumes: a row was selected, and a row of the table that meets the condition. -/
theorem order_le_of_selectMin {tbl : Table ρ} {condition : ρ → Bool} {order : ρ → ℤ} {tie : ℕ}
    {row other : ℕ × ρ} (hrow : tbl.selectMin condition order tie = some row)
    (hother : other ∈ tbl.rows) (hcondition : condition other.2 = true) :
    order row.2 ≤ order other.2 := by
  have hsmallest := (List.mem_filter.mp (List.mem_of_getElem? hrow)).2
  have hle := List.all_eq_true.mp hsmallest other (List.mem_filter.mpr ⟨hother, hcondition⟩)
  exact of_decide_eq_true hle

/-- Assumes: a row of the table that meets the condition. -/
theorem exists_selectMin {tbl : Table ρ} {condition : ρ → Bool} {row : ℕ × ρ}
    (hrow : row ∈ tbl.rows) (hcondition : condition row.2 = true) (order : ρ → ℤ) (tie : ℕ) :
    ∃ found, tbl.selectMin condition order tie = some found := by
  let found := tbl.rows.filter fun row ↦ condition row.2
  let smallest := found.filter fun row ↦ found.all fun other ↦ decide (order row.2 ≤ order other.2)
  have hfound : row ∈ found := List.mem_filter.mpr ⟨hrow, hcondition⟩
  let value : ℕ × ρ → ℤ := fun row ↦ order row.2
  have hnone : found.argmin value ≠ none := by
    rw [ne_eq, List.argmin_eq_none]
    exact List.ne_nil_of_mem hfound
  obtain ⟨least, hleast⟩ := Option.ne_none_iff_exists'.mp hnone
  have hmem : least ∈ smallest := by
    refine List.mem_filter.mpr ⟨List.argmin_mem hleast, List.all_eq_true.mpr ?_⟩
    intro other hother
    have hle : value least ≤ value other := List.le_of_mem_argmin hother hleast
    exact decide_eq_true hle
  have hindex : tie % smallest.length < smallest.length :=
    Nat.mod_lt tie (List.length_pos_of_mem hmem)
  exact ⟨smallest[tie % smallest.length], List.getElem?_eq_getElem hindex⟩

/-- The number of rows that meet a condition, `SELECT COUNT(*) .. WHERE`. -/
def countWhere (tbl : Table ρ) (condition : ρ → Bool) : ℕ :=
  tbl.rows.countP fun row ↦ condition row.2

theorem countWhere_eq_zero {tbl : Table ρ} {condition : ρ → Bool} :
    tbl.countWhere condition = 0 ↔ ∀ row ∈ tbl.rows, ¬ condition row.2 = true :=
  List.countP_eq_zero

/-- Assumes: a row of the table that meets the condition. -/
theorem countWhere_delete_lt {tbl : Table ρ} {condition : ρ → Bool} {row : ℕ × ρ}
    (hrow : row ∈ tbl.rows) (hcondition : condition row.2 = true) :
    (tbl.delete row.1).countWhere condition < tbl.countWhere condition := by
  unfold countWhere delete deleteWhere
  rw [List.countP_eq_length_filter, List.countP_eq_length_filter, List.filter_comm]
  refine List.length_filter_lt_length_iff_exists.mpr ⟨row, ?_, by simp⟩
  exact List.mem_filter.mpr ⟨hrow, hcondition⟩

/-- Deleting a row leaves the rows alone that meet a condition which it does not. Assumes: a row of
the table that does not meet the condition. -/
theorem filter_rows_delete {tbl : Table ρ} {condition : ρ → Bool} {row : ℕ × ρ}
    (hrow : row ∈ tbl.rows) (hcondition : ¬ condition row.2 = true) :
    (tbl.delete row.1).rows.filter (fun row ↦ condition row.2) =
      tbl.rows.filter fun row ↦ condition row.2 := by
  unfold delete deleteWhere
  rw [List.filter_filter]
  refine List.filter_congr fun other hother ↦ ?_
  by_cases hmeets : condition other.2 = true
  · have hid : other.1 ≠ row.1 := by
      intro hid
      rw [eq_of_mem_of_id_eq hother hrow hid] at hmeets
      exact hcondition hmeets
    simp [hmeets, hid]
  · simp [hmeets]

/-- Fewer rows meet a condition after a deletion. -/
theorem countWhere_deleteWhere_le (tbl : Table ρ) (condition : ρ → Bool)
    (deleted : ℕ × ρ → Bool) :
    (tbl.deleteWhere deleted).countWhere condition ≤ tbl.countWhere condition :=
  List.filter_sublist.countP_le

end Table

end RowTable
