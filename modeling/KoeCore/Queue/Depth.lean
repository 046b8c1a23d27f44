import KoeCore.Queue.Accounting

/-!
# The depth of the queue and the peers in it

A push first counts the rows of its peer, pops one when they are at the cap, and then inserts.
`koeQueuePush_evicts` says which row that is and that nothing else leaves the table. Every call
names one peer or, as `koe_queue_expire`, none; the rows of the other peers stay as they are, in the
same order and under the same keys (`rowsOf_step`). With both, no run exceeds the cap of any peer
as long as the statements of its pushes take effect (`depthWithin_step`), and `koeQueue_depth` puts
them together for runs from an empty table. A count that fails is taken for an empty queue, and a
`SELECT` or a `DELETE` that fails goes unnoticed: `koeQueuePush_over_cap` has a run beyond the cap
for each of the three.
-/

set_option autoImplicit false
set_option relaxedAutoImplicit false

namespace KoeCore

open ByteWire RowTable

/-- The rows of a peer with their keys. -/
def rowsOf (db : QueueTable) (toPk : Block 32) : List (ℕ × QueuedRow) :=
  db.rows.filter fun row ↦ row.2.isTo toPk

/-- The peer that a call names. -/
def QueueCall.peer : QueueCall → Option (Block 32)
  | .push _ pkt => some pkt.header.toPk
  | .pop _ toPk _ => some toPk
  | .drain _ toPk => some toPk
  | .expire _ => none

/-- The count, the `SELECT` and the `DELETE` of a push take effect. -/
def QueueCall.Effective : QueueCall → Prop
  | .push env _ => env.sql = .effective
  | .pop .. | .drain .. | .expire _ => True

/-- No peer has more rows than the cap allows. -/
def DepthWithin (maxPerPeer : ℤ) (db : QueueTable) : Prop :=
  ∀ toPk, ((rowsOf db toPk).length : ℤ) ≤ maxPerPeer

theorem countWhere_isTo (db : QueueTable) (toPk : Block 32) :
    db.countWhere (QueuedRow.isTo toPk) = (rowsOf db toPk).length := by
  rw [Table.countWhere, List.countP_eq_length_filter]
  rfl

theorem QueuedRow.isTo_iff {row : QueuedRow} {toPk : Block 32} :
    row.isTo toPk = true ↔ row.toPk = toPk := beq_iff_eq

/-! ### Other peers -/

section Others

variable {toPk other : Block 32}

/-- Assumes: a row of the peer, and another peer. -/
theorem rowsOf_delete {db : QueueTable} {row : ℕ × QueuedRow} (hrow : row ∈ db.rows)
    (hto : row.2.isTo toPk = true) (hother : other ≠ toPk) :
    rowsOf (db.delete row.1) other = rowsOf db other := by
  have hnot : ¬ row.2.isTo other = true := by
    rw [QueuedRow.isTo_iff, QueuedRow.isTo_iff.mp hto]
    exact hother.symm
  exact Table.filter_rows_delete hrow hnot

/-- Deleting the row that a pop selects leaves other peers alone. Assumes: the selected row, and
another peer. -/
theorem rowsOf_delete_selected {env : PopEnv} {db : QueueTable} {id : ℕ} {row : QueuedRow}
    (hselected : selected env db toPk = some (id, row)) (hother : other ≠ toPk) :
    rowsOf (db.delete id) other = rowsOf db other := by
  obtain ⟨hrow, hto⟩ := Table.mem_of_selectMin hselected
  exact rowsOf_delete hrow hto hother

/-- Assumes: another peer. -/
theorem rowsOf_makeRoom (env : PushEnv) (maxPerPeer : ℤ) (db : QueueTable)
    (hother : other ≠ toPk) : rowsOf (makeRoom env maxPerPeer db toPk) other = rowsOf db other := by
  rcases makeRoom_cases env maxPerPeer db toPk with ⟨-, hroom⟩ | ⟨row, hrow, hto, -, hroom⟩
  · rw [hroom]
  · rw [hroom, rowsOf_delete hrow hto hother]

theorem rowsOf_insert (db : QueueTable) (row : QueuedRow) (peer : Block 32) :
    rowsOf (db.insert row) peer =
      rowsOf db peer ++ if row.isTo peer = true then [(db.seq + 1, row)] else [] := by
  simp only [rowsOf, Table.insert, List.filter_append, List.filter_cons, List.filter_nil]

/-- A push to anyone else leaves the rows of a peer alone. Assumes: another peer. -/
theorem rowsOf_push (env : PushEnv) (maxPerPeer : ℤ) (db : QueueTable) {pkt : Packet}
    (hother : other ≠ pkt.header.toPk) :
    rowsOf (koeQueuePush env maxPerPeer db pkt).2 other = rowsOf db other := by
  have hnot : ¬ (queuedRow env.now pkt).isTo other = true := by
    rw [QueuedRow.isTo_iff]
    exact hother.symm
  rcases koeQueuePush_cases env maxPerPeer db pkt with ⟨-, hpush⟩ | ⟨-, hpush⟩
  · rw [hpush, rowsOf_insert, if_neg hnot, List.append_nil, rowsOf_makeRoom _ _ _ hother]
  · rw [hpush, rowsOf_makeRoom _ _ _ hother]

/-- A call leaves the rows of every peer alone that it does not name. Assumes: a call that names a
peer, and another peer. -/
theorem rowsOf_step (run : QueueRun) {call : QueueCall} (hpeer : call.peer = some toPk)
    (hother : other ≠ toPk) : rowsOf (run.step call).db other = rowsOf run.db other := by
  cases call with
  | push env pkt =>
    obtain rfl := Option.some.inj hpeer
    exact rowsOf_push env run.maxPerPeer run.db hother
  | pop env named pktOut =>
    obtain rfl := Option.some.inj hpeer
    change rowsOf (koeQueuePop env run.db named pktOut).2.2 other = rowsOf run.db other
    rcases hselected : selected env run.db named with _ | ⟨id, row⟩
    · rw [koeQueuePop_none hselected]
    · rw [koeQueuePop_deletes hselected, rowsOf_delete_selected hselected hother]
  | drain rounds named =>
    obtain rfl := Option.some.inj hpeer
    have hdelete (env : PopEnv) (db : QueueTable) (id : ℕ) (row : QueuedRow)
        (hsame : rowsOf db other = rowsOf run.db other)
        (hselected : selected env db named = some (id, row)) :
        rowsOf (db.delete id) other = rowsOf run.db other :=
      (rowsOf_delete_selected hselected hother).trans hsame
    exact drainLoop_invariant hdelete _ rounds Packet.zero rfl
  | expire now => exact absurd hpeer.symm (Option.some_ne_none toPk)

end Others

/-! ### The depth -/

section Depth

variable {maxPerPeer : ℤ} {db : QueueTable}

/-- Fewer rows are within the cap. -/
theorem DepthWithin.deleteWhere (hcap : DepthWithin maxPerPeer db)
    (deleted : ℕ × QueuedRow → Bool) : DepthWithin maxPerPeer (db.deleteWhere deleted) := by
  intro toPk
  have hle := Table.countWhere_deleteWhere_le db (QueuedRow.isTo toPk) deleted
  rw [countWhere_isTo, countWhere_isTo] at hle
  exact (Int.ofNat_le.mpr hle).trans (hcap toPk)

/-- At the cap a push finds a row to evict. Assumes: a cap of at least one, and a peer at the
cap. -/
theorem exists_selected (hpos : 1 ≤ maxPerPeer) {toPk : Block 32}
    (hfull : maxPerPeer ≤ ((rowsOf db toPk).length : ℤ)) (env : PopEnv) :
    ∃ id row, selected env db toPk = some (id, row) := by
  have hrows : rowsOf db toPk ≠ [] := by
    intro hnil
    rw [hnil] at hfull
    exact absurd (hpos.trans hfull) (by decide)
  obtain ⟨row, hrow⟩ := List.exists_mem_of_ne_nil _ hrows
  obtain ⟨hmem, hto⟩ := List.mem_filter.mp hrow
  obtain ⟨found, hfound⟩ := Table.exists_selectMin hmem hto QueuedRow.sequence env.tie
  exact ⟨found.1, found.2, hfound⟩

/-- At the cap a push deletes the row that its pop selects. Assumes: statements that take effect, a
peer at the cap, and the selected row. -/
theorem makeRoom_full {env : PushEnv} (hsql : env.sql = .effective) {toPk : Block 32}
    (hfull : maxPerPeer ≤ ((rowsOf db toPk).length : ℤ)) {id : ℕ} {row : QueuedRow}
    (hselected : selected env.evict db toPk = some (id, row)) :
    makeRoom env maxPerPeer db toPk = db.delete id := by
  have hcount : koeDbQueueCount .effective db toPk ≥ maxPerPeer := by
    change maxPerPeer ≤ (db.countWhere (QueuedRow.isTo toPk) : ℤ)
    rw [countWhere_isTo]
    exact hfull
  rw [makeRoom, hsql, if_pos hcount, koeDbQueuePop_some (deletedRow_effective.trans hselected)]

/-- After making room the peer is below the cap. Assumes: a cap of at least one, a table within the
cap, and statements that take effect. -/
theorem makeRoom_below (hpos : 1 ≤ maxPerPeer) (hcap : DepthWithin maxPerPeer db) {env : PushEnv}
    (hsql : env.sql = .effective) (toPk : Block 32) :
    ((rowsOf (makeRoom env maxPerPeer db toPk) toPk).length : ℤ) < maxPerPeer := by
  by_cases hfull : maxPerPeer ≤ ((rowsOf db toPk).length : ℤ)
  · obtain ⟨id, row, hselected⟩ := exists_selected hpos hfull env.evict
    have hless := countWhere_delete_selected hselected
    rw [countWhere_isTo, countWhere_isTo] at hless
    rw [makeRoom_full hsql hfull hselected]
    exact (Int.ofNat_lt.mpr hless).trans_le (hcap toPk)
  · have hfew := Int.not_le.mp hfull
    rw [← countWhere_isTo] at hfew
    rw [makeRoom_below_cap hpos hfew, ← countWhere_isTo]
    exact hfew

theorem DepthWithin.makeRoom (hcap : DepthWithin maxPerPeer db) (env : PushEnv)
    (toPk : Block 32) : DepthWithin maxPerPeer (makeRoom env maxPerPeer db toPk) := by
  rcases makeRoom_cases env maxPerPeer db toPk with ⟨-, hroom⟩ | ⟨row, -, -, -, hroom⟩
  · rw [hroom]
    exact hcap
  · rw [hroom]
    exact hcap.deleteWhere _

/-- A push keeps every peer within the cap. Assumes: a cap of at least one, a table within the cap,
and statements that take effect. -/
theorem DepthWithin.push (hpos : 1 ≤ maxPerPeer) (hcap : DepthWithin maxPerPeer db) {env : PushEnv}
    (hsql : env.sql = .effective) (pkt : Packet) :
    DepthWithin maxPerPeer (koeQueuePush env maxPerPeer db pkt).2 := by
  have hroom := hcap.makeRoom env pkt.header.toPk
  rcases koeQueuePush_cases env maxPerPeer db pkt with ⟨-, hpush⟩ | ⟨-, hpush⟩
  · rw [hpush]
    intro toPk
    rw [rowsOf_insert, List.length_append]
    split_ifs with hto
    · have hbelow := makeRoom_below hpos hcap hsql pkt.header.toPk
      rw [← QueuedRow.isTo_iff.mp hto]
      exact hbelow
    · exact hroom toPk
  · rw [hpush]
    exact hroom

/-- Every call keeps every peer within the cap. Assumes: a cap of at least one, a table within the
cap, and statements that take effect. -/
theorem depthWithin_step {run : QueueRun} (hpos : 1 ≤ run.maxPerPeer)
    (hcap : DepthWithin run.maxPerPeer run.db) {call : QueueCall} (heffective : call.Effective) :
    (run.step call).maxPerPeer = run.maxPerPeer ∧
      DepthWithin run.maxPerPeer (run.step call).db := by
  refine ⟨by cases call <;> rfl, ?_⟩
  cases call with
  | push env pkt => exact hcap.push hpos heffective pkt
  | pop env toPk pktOut =>
    change DepthWithin run.maxPerPeer (koeQueuePop env run.db toPk pktOut).2.2
    rcases hselected : selected env run.db toPk with _ | ⟨id, row⟩
    · rw [koeQueuePop_none hselected]
      exact hcap
    · rw [koeQueuePop_deletes hselected]
      exact hcap.deleteWhere _
  | drain rounds toPk =>
    have hdelete (env : PopEnv) (db : QueueTable) (id : ℕ) (row : QueuedRow)
        (hdb : DepthWithin run.maxPerPeer db) (_ : selected env db toPk = some (id, row)) :
        DepthWithin run.maxPerPeer (db.delete id) :=
      hdb.deleteWhere _
    exact drainLoop_invariant hdelete _ rounds Packet.zero hcap
  | expire now => exact hcap.deleteWhere _

/-- Every run from an empty table stays within the cap. Assumes: a cap of at least one, and
statements that take effect. -/
theorem depthWithin_run (hpos : 1 ≤ maxPerPeer) {calls : List QueueCall}
    (heffective : ∀ call ∈ calls, call.Effective) :
    let run := calls.foldl QueueRun.step (QueueRun.start Table.empty maxPerPeer)
    run.maxPerPeer = maxPerPeer ∧ DepthWithin maxPerPeer run.db := by
  have hempty : DepthWithin maxPerPeer Table.empty :=
    fun _ ↦ (show (0 : ℤ) ≤ 1 by decide).trans hpos
  have hstart : (QueueRun.start Table.empty maxPerPeer).maxPerPeer = maxPerPeer ∧
      DepthWithin maxPerPeer (QueueRun.start Table.empty maxPerPeer).db := ⟨rfl, hempty⟩
  refine List.foldlRecOn
    (motive := fun run ↦ run.maxPerPeer = maxPerPeer ∧ DepthWithin maxPerPeer run.db)
    calls QueueRun.step hstart ?_
  rintro run ⟨rfl, hcap⟩ call hcall
  exact depthWithin_step hpos hcap (heffective call hcall)

end Depth

/-! ### Evictions -/

/-- What a push takes out of the table: nothing below the cap, and at the cap one row of the peer,
than which no row of the peer has a smaller sequence number. Assumes: a cap of at least one, and at
the cap statements that take effect. -/
theorem koeQueuePush_evicts {maxPerPeer : ℤ} (hpos : 1 ≤ maxPerPeer) (db : QueueTable)
    (env : PushEnv) (pkt : Packet) :
    let after := (koeQueuePush env maxPerPeer db pkt).2
    (((rowsOf db pkt.header.toPk).length : ℤ) < maxPerPeer → db.rows ⊆ after.rows) ∧
      (maxPerPeer ≤ ((rowsOf db pkt.header.toPk).length : ℤ) → env.sql = .effective →
        ∃ gone ∈ rowsOf db pkt.header.toPk,
          (∀ row ∈ rowsOf db pkt.header.toPk, gone.2.sequence ≤ row.2.sequence) ∧
          ∀ row ∈ db.rows, row ∈ after.rows ↔ row ≠ gone) := by
  intro after
  let room := makeRoom env maxPerPeer db pkt.header.toPk
  -- A row from before has an old key, so it is not the one that is inserted.
  have hkept (row : ℕ × QueuedRow) (hrow : row ∈ db.rows) : row ∈ after.rows ↔ row ∈ room.rows := by
    have hseq : room.seq = db.seq := (makeRoom_keeps env maxPerPeer db pkt.header.toPk).1
    rcases koeQueuePush_cases env maxPerPeer db pkt with ⟨-, hpush⟩ | ⟨-, hpush⟩
    · have hafter : after.rows = room.rows ++ [(room.seq + 1, queuedRow env.now pkt)] := by
        simp only [after, hpush]
        rfl
      rw [hafter, List.mem_append, List.mem_singleton]
      refine or_iff_left fun hnew ↦ ?_
      have hle : row.1 ≤ db.seq := db.bounded row hrow
      rw [hnew, hseq] at hle
      exact absurd hle (Nat.not_succ_le_self _)
    · simp only [after, hpush]
      rfl
  refine ⟨?_, ?_⟩
  · intro hfew row hrow
    rw [← countWhere_isTo] at hfew
    have hroom : room = db := makeRoom_below_cap hpos hfew env
    rw [hkept row hrow, hroom]
    exact hrow
  · intro hfull hsql
    obtain ⟨id, gone, hselected⟩ := exists_selected hpos hfull env.evict
    obtain ⟨hgone, hto⟩ := Table.mem_of_selectMin hselected
    have hroom : room = db.delete id := makeRoom_full hsql hfull hselected
    refine ⟨(id, gone), List.mem_filter.mpr ⟨hgone, hto⟩, ?_, ?_⟩
    · intro row hrow
      obtain ⟨hmem, hrowTo⟩ := List.mem_filter.mp hrow
      exact Table.order_le_of_selectMin hselected hmem hrowTo
    · intro row hrow
      rw [hkept row hrow, hroom, Table.mem_delete, and_iff_right hrow]
      constructor
      · rintro hid rfl
        exact hid rfl
      · intro hne hid
        exact hne (Table.eq_of_mem_of_id_eq hrow hgone hid)

/-- Depth bound and isolation. Assumes: a cap of at least one, and pushes whose count, `SELECT` and
`DELETE` take effect. In every table that pushes, pops, drains and expirations lead to from an empty
one, no peer has more rows than the cap. A push takes rows out of the table only when its peer is at
the cap, and then exactly one, of minimal sequence number for that peer. A call that names a peer
leaves the rows of every other peer as they are. -/
theorem koeQueue_depth {maxPerPeer : ℤ} (hpos : 1 ≤ maxPerPeer) {calls : List QueueCall}
    (heffective : ∀ call ∈ calls, call.Effective) :
    let run := calls.foldl QueueRun.step (QueueRun.start Table.empty (koeQueueOpen maxPerPeer))
    (∀ toPk, ((rowsOf run.db toPk).length : ℤ) ≤ maxPerPeer) ∧
      (∀ env pkt,
        let after := (run.step (.push env pkt)).db
        (((rowsOf run.db pkt.header.toPk).length : ℤ) < maxPerPeer → run.db.rows ⊆ after.rows) ∧
          (((rowsOf run.db pkt.header.toPk).length : ℤ) = maxPerPeer → env.sql = .effective →
            ∃ gone ∈ rowsOf run.db pkt.header.toPk,
              (∀ row ∈ rowsOf run.db pkt.header.toPk, gone.2.sequence ≤ row.2.sequence) ∧
              ∀ row ∈ run.db.rows, row ∈ after.rows ↔ row ≠ gone)) ∧
      ∀ call toPk other, QueueCall.peer call = some toPk → other ≠ toPk →
        rowsOf (run.step call).db other = rowsOf run.db other := by
  have hopen : koeQueueOpen maxPerPeer = maxPerPeer :=
    if_pos (Int.lt_of_lt_of_le Int.zero_lt_one hpos)
  rw [hopen]
  intro run
  obtain ⟨hmax, hcap⟩ := depthWithin_run hpos heffective
  refine ⟨hcap, ?_, ?_⟩
  · intro env pkt after
    have hafter : after = (koeQueuePush env maxPerPeer run.db pkt).2 := by
      change (koeQueuePush env run.maxPerPeer run.db pkt).2 = _
      rw [hmax]
    obtain ⟨hbelow, hfull⟩ := koeQueuePush_evicts hpos run.db env pkt
    rw [hafter]
    exact ⟨hbelow, fun hcount ↦ hfull (Int.le_of_eq hcount.symm)⟩
  · intro call toPk other hpeer hother
    exact rowsOf_step run hpeer hother

/-- Two packets to one peer, on a queue of depth one. -/
theorem koeQueue_depth_one :
    let push := QueueCall.push ⟨.effective, ⟨true, true, 0⟩, true, 5, true⟩ Packet.zero
    let run := [push, push].foldl QueueRun.step (QueueRun.start Table.empty (koeQueueOpen 1))
    ((rowsOf run.db (Block.zero 32)).length : ℤ) ≤ 1 := by
  intro push run
  have heffective : ∀ call ∈ [push, push], call.Effective := by simp [push, QueueCall.Effective]
  exact (koeQueue_depth (show (1 : ℤ) ≤ 1 by decide) heffective).1 (Block.zero 32)

/-- The same two packets, and the count, the `SELECT` or the `DELETE` of the second push fails: the
queue of depth one holds both. -/
theorem koeQueuePush_over_cap :
    let push (sql : Statements) := QueueCall.push ⟨sql, ⟨true, true, 0⟩, true, 5, true⟩ Packet.zero
    let depth (sql : Statements) :=
      (rowsOf ([push .effective, push sql].foldl QueueRun.step
        (QueueRun.start Table.empty (koeQueueOpen 1))).db (Block.zero 32)).length
    depth ⟨false, true, true⟩ = 2 ∧ depth ⟨true, false, true⟩ = 2 ∧
      depth ⟨true, true, false⟩ = 2 := by
  decide

end KoeCore
