import KoeCore.Queue.Store

/-!
# A push that fails half way

`koe_queue_push` counts the rows of its peer, pops the oldest one when they are at the cap, and then
stores the new packet. Each of the four statements it sends to SQLite can fail on its own, and so
can its two requests for memory; there is no transaction around them.

`koeQueuePush_unchanged_iff` is the account of the failure points: a push that returns -1 leaves the
table alone exactly when it did not come to delete a row before it failed.
-/

set_option autoImplicit false
set_option relaxedAutoImplicit false

namespace KoeCore

open ByteWire RowTable

/-- The push deletes a row to make room. -/
def Evicts (env : PushEnv) (maxPerPeer : ℤ) (db : QueueTable) (pkt : Packet) : Prop :=
  koeDbQueueCount env.sql db pkt.header.toPk ≥ maxPerPeer ∧
    ∃ row, deletedRow env.sql env.evict db pkt.header.toPk = some row

theorem evicts_iff {env : PushEnv} {maxPerPeer : ℤ} {db : QueueTable} {pkt : Packet} :
    Evicts env maxPerPeer db pkt ↔
      ∃ row, evictedRow env maxPerPeer db pkt.header.toPk = some row := by
  unfold Evicts evictedRow
  split_ifs with hfull
  · exact and_iff_right hfull
  · refine iff_of_false (fun hevicts ↦ hfull hevicts.1) ?_
    rintro ⟨row, hrow⟩
    exact hrow

/-- Making room leaves the table alone exactly when no row is deleted. -/
theorem makeRoom_eq_self_iff (env : PushEnv) (maxPerPeer : ℤ) (db : QueueTable) (pkt : Packet) :
    makeRoom env maxPerPeer db pkt.header.toPk = db ↔ ¬ Evicts env maxPerPeer db pkt := by
  rw [evicts_iff]
  rcases makeRoom_cases env maxPerPeer db pkt.header.toPk with
    ⟨hnone, hroom⟩ | ⟨row, hmem, -, hsome, hroom⟩
  · refine iff_of_true hroom ?_
    rintro ⟨row, hrow⟩
    rw [hnone] at hrow
    exact absurd hrow.symm (Option.some_ne_none _)
  · refine iff_of_false ?_ (not_not.mpr ⟨row, hsome⟩)
    intro hsame
    rw [← hsame, hroom] at hmem
    exact (Table.mem_delete.mp hmem).2 rfl

/-- A push that returns -1 leaves the table as it was exactly when it stores its packet or has not
deleted a row. For every table, packet and cap, and all outcomes of its statements and its requests
for memory. -/
theorem koeQueuePush_unchanged_iff (env : PushEnv) (maxPerPeer : ℤ) (db : QueueTable)
    (pkt : Packet) :
    ((koeQueuePush env maxPerPeer db pkt).1 = -1 → (koeQueuePush env maxPerPeer db pkt).2 = db) ↔
      env.Stores ∨ ¬ Evicts env maxPerPeer db pkt := by
  rcases koeQueuePush_cases env maxPerPeer db pkt with ⟨hstores, hpush⟩ | ⟨hstores, hpush⟩
  · refine iff_of_true (fun hfails ↦ ?_) (Or.inl hstores)
    rw [hpush] at hfails
    have hid : ((db.seq + 1 : ℕ) : ℤ) = -1 := hfails
    omega
  · rw [hpush, forall_prop_of_true rfl, makeRoom_eq_self_iff, or_iff_right hstores]

/-- A queue of one packet for the zero key, which is full. -/
def fullQueue : QueueTable := Table.empty.insert (queuedRow 0 Packet.zero)

/-- Without memory for the new packet the push returns -1, and the old one is gone. -/
theorem fullQueue_drops_oldest :
    let pushed := koeQueuePush ⟨.effective, ⟨true, true, 0⟩, false, 1, true⟩ 1 fullQueue
      Packet.zero
    pushed.1 = -1 ∧ fullQueue.rows.length = 1 ∧ pushed.2.rows = [] := by
  decide

end KoeCore
