import KoeCore.Library.Table
import KoeCore.Protocol.Packet

/-!
# The offline queue

`koe_queue.c` over the queue table of `koe_db.c`. A push sends four statements to SQLite, and each
of them can fail on its own (`Statements`, and `PushEnv.inserted` for the `INSERT`); one that fails
has no effect. The statements of `koe_queue_pop`, `koe_queue_drain` and `koe_queue_expire` are taken
to do what SQL says they do. What `malloc`, the clock, the choice between rows of one sequence
number and the callback of a drain answer is a parameter of each call.

A pop deletes the row before anything is known about the packet in it. When `malloc` fails or the
bytes do not decode, `koe_queue_pop` returns -1 and the row is gone, and a drain does the same with
a packet that its callback refuses.

`koeQueuePush_cases` and `koeQueuePush_gains_iff` say what a push adds to the table, and
`koeQueuePop_selected` what a pop returns. `drainLoop` is the loop of `koe_queue_drain` with a bound
on its rounds: `drainLoop_cases` says what one round can do, and `drainLoop_succ` shows that the
bound `koeQueueDrain` gives it is never met.
-/

set_option autoImplicit false
set_option relaxedAutoImplicit false

namespace KoeCore

open ByteWire RowTable

/-- `KOE_QUEUE_MAX_PER_PEER`. -/
def koeQueueMaxPerPeer : ℤ := 512

/-- `KOE_QUEUE_TTL_SECONDS`. -/
def koeQueueTtlSeconds : ℤ := 7 * 24 * 3600

/-- A row of the queue table. -/
structure QueuedRow where
  toPk : Block 32
  packet : List UInt8
  queuedAt : ℤ
  expiresAt : ℤ
  sequence : ℤ
deriving DecidableEq

/-- The queue table. -/
abbrev QueueTable := Table QueuedRow

/-- `max_per_peer` as `koe_queue_open` sets it. -/
def koeQueueOpen (maxPerPeer : ℤ) : ℤ := if 0 < maxPerPeer then maxPerPeer else koeQueueMaxPerPeer

/-- The condition `to_pk=?`. -/
def QueuedRow.isTo (toPk : Block 32) (row : QueuedRow) : Bool := row.toPk == toPk

/-! ### The table operations -/

/-- Which of the statements of a push succeed, the `INSERT` apart: the count, and the `SELECT` and
the `DELETE` of the pop. -/
structure Statements where
  counts : Bool
  selects : Bool
  deletes : Bool

/-- All of them succeed. -/
def Statements.effective : Statements := ⟨true, true, true⟩

/-- What a pop takes from its environment: whether the `malloc` of the row's bytes succeeds, whether
that of the decoded payload does, and which of the oldest rows the `SELECT` returns. -/
structure PopEnv where
  rowAlloc : Bool
  payloadAlloc : Bool
  tie : ℕ

/-- The row that a pop selects. -/
def selected (env : PopEnv) (db : QueueTable) (toPk : Block 32) : Option (ℕ × QueuedRow) :=
  db.selectMin (QueuedRow.isTo toPk) QueuedRow.sequence env.tie

/-- The return code, the row's bytes on success, and the table after the call. Nobody looks at the
outcome of the `DELETE`. -/
def koeDbQueuePop (sql : Statements) (env : PopEnv) (db : QueueTable) (toPk : Block 32) :
    ℤ × List UInt8 × QueueTable :=
  if !sql.selects then (-1, [], db)
  else
    match selected env db toPk with
    | none => (-1, [], db)
    | some (id, row) =>
      let db := if sql.deletes then db.delete id else db
      if env.rowAlloc then (0, row.packet, db) else (-1, [], db)

/-- A count that fails is 0. -/
def koeDbQueueCount (sql : Statements) (db : QueueTable) (toPk : Block 32) : ℤ :=
  if sql.counts then db.countWhere (QueuedRow.isTo toPk) else 0

/-- The number of rows deleted, and the table after the call. -/
def koeDbQueueExpire (db : QueueTable) (now : ℤ) : ℤ × QueueTable :=
  ((db.rows.filter fun row ↦ decide (row.2.expiresAt ≤ now)).length,
    db.deleteWhere fun row ↦ decide (row.2.expiresAt ≤ now))

/-! ### The queue -/

/-- What a push takes from its environment: the outcomes of its statements and the answers to the
pop that may make room, whether the `malloc` of the buffer succeeds, the clock, and whether the
`INSERT` is carried out. -/
structure PushEnv where
  sql : Statements
  evict : PopEnv
  bufAlloc : Bool
  now : ℤ
  inserted : Bool

/-- The push stores its packet: the buffer is allocated and the `INSERT` carried out. -/
def PushEnv.Stores (env : PushEnv) : Prop := env.bufAlloc = true ∧ env.inserted = true

/-- The row that a push inserts. -/
def queuedRow (now : ℤ) (pkt : Packet) : QueuedRow where
  toPk := pkt.header.toPk
  -- A `malloc`ed buffer is taken to be filled with zero bytes.
  packet := (koePacketSerialise pkt (List.replicate pkt.reserved32 0)).2.take pkt.reserved32
  queuedAt := now
  expiresAt := now + koeQueueTtlSeconds
  sequence := now

/-- The table after a push has made room for a packet to the given peer. -/
def makeRoom (env : PushEnv) (maxPerPeer : ℤ) (db : QueueTable) (toPk : Block 32) : QueueTable :=
  if koeDbQueueCount env.sql db toPk ≥ maxPerPeer then
    (koeDbQueuePop env.sql env.evict db toPk).2.2
  else db

/-- The new id or -1, and the table after the call. -/
def koeQueuePush (env : PushEnv) (maxPerPeer : ℤ) (db : QueueTable) (pkt : Packet) :
    ℤ × QueueTable :=
  let db := makeRoom env maxPerPeer db pkt.header.toPk
  if !env.bufAlloc then (-1, db)
  else if env.inserted then ((db.seq + 1 : ℕ), db.insert (queuedRow env.now pkt))
  else (-1, db)

/-- The return code, and the packet and the table after the call. The `SELECT` and the `DELETE` are
taken to succeed. -/
def koeQueuePop (env : PopEnv) (db : QueueTable) (toPk : Block 32) (pktOut : Packet) :
    ℤ × Packet × QueueTable :=
  let popped := koeDbQueuePop .effective env db toPk
  if popped.1 ≠ 0 then (-1, pktOut, popped.2.2)
  else
    let decoded := koePacketDeserialise env.payloadAlloc pktOut popped.2.1
    (decoded.1, decoded.2, popped.2.2)

/-- What one round of a drain takes from its environment: the answers to its pop, and what
`send_fn` returns for the packet. -/
structure DrainRound where
  pop : PopEnv
  sendRc : ℤ

/-- The packets that a drain passed to `send_fn`, with the key of the row each came from and what
`send_fn` returned, and the table after it. -/
structure Drained where
  calls : List (ℕ × Packet × ℤ)
  db : QueueTable

/-- The loop of `koe_queue_drain`, for at most `fuel` rounds. -/
def drainLoop (toPk : Block 32) (rounds : ℕ → DrainRound) :
    ℕ → QueueTable → Packet → Drained
  | 0, db, _ => ⟨[], db⟩
  | fuel + 1, db, pkt =>
    match selected (rounds 0).pop db toPk with
    | none => ⟨[], db⟩
    | some (id, _) =>
      let popped := koeQueuePop (rounds 0).pop db toPk pkt
      if popped.1 ≠ 0 then ⟨[], popped.2.2⟩
      else
        let call := (id, popped.2.1, (rounds 0).sendRc)
        if (rounds 0).sendRc ≠ 0 then ⟨[call], popped.2.2⟩
        else
          let rest := drainLoop toPk (fun i ↦ rounds (i + 1)) fuel popped.2.2
            (koePacketFree popped.2.1)
          ⟨call :: rest.calls, rest.db⟩

/-- The loop, with one round more than the peer has rows. -/
def koeQueueDrain (rounds : ℕ → DrainRound) (db : QueueTable) (toPk : Block 32) : Drained :=
  drainLoop toPk rounds (db.countWhere (QueuedRow.isTo toPk) + 1) db Packet.zero

/-- The number that `koe_queue_drain` returns. -/
def Drained.sent (drained : Drained) : ℤ := (drained.calls.filter fun call ↦ call.2.2 == 0).length

def koeQueueExpire (now : ℤ) (db : QueueTable) : ℤ × QueueTable := koeDbQueueExpire db now

/-- A packet is stored as a whole. Assumes: a payload of the announced length, and a size that fits
the 32-bit word it is computed in. -/
theorem queuedRow_packet {pkt : Packet}
    (hlength : (pkt.payload.getD []).length = pkt.header.length.toNat)
    (hsize : koeHeaderSize + pkt.header.length.toNat < 2 ^ 32) (now : ℤ) :
    (queuedRow now pkt).packet = pkt.header.wire ++ pkt.payload.getD [] := by
  have hbytes : pkt.payloadBytes = pkt.payload.getD [] := by
    rw [Packet.payloadBytes, ← hlength, List.take_length]
  have hreserved : pkt.reserved32 = pkt.wire.length := by
    rw [Packet.reserved32, Nat.mod_eq_of_lt hsize, Packet.wire, List.length_append,
      Header.length_wire, hbytes, hlength]
  have hbuf : pkt.reserved32 ≤ (List.replicate pkt.reserved32 (0 : UInt8)).length := by simp
  change (koePacketSerialise pkt (List.replicate pkt.reserved32 0)).2.take pkt.reserved32 = _
  rw [koePacketSerialise_eq pkt hbuf, hreserved, List.take_left, Packet.wire, hbytes]

/-! ### What a pop does to the table -/

/-- Assumes: the row that a pop selects. -/
theorem countWhere_delete_selected {env : PopEnv} {db : QueueTable} {toPk : Block 32} {id : ℕ}
    {row : QueuedRow} (hselected : selected env db toPk = some (id, row)) :
    (db.delete id).countWhere (QueuedRow.isTo toPk) < db.countWhere (QueuedRow.isTo toPk) := by
  obtain ⟨hrow, hto⟩ := Table.mem_of_selectMin hselected
  exact Table.countWhere_delete_lt hrow hto

/-- The row that a pop deletes. -/
def deletedRow (sql : Statements) (env : PopEnv) (db : QueueTable) (toPk : Block 32) :
    Option (ℕ × QueuedRow) :=
  if sql.selects = true ∧ sql.deletes = true then selected env db toPk else none

section Deleted

variable {sql : Statements} {env : PopEnv} {db : QueueTable} {toPk : Block 32}

theorem deletedRow_effective : deletedRow .effective env db toPk = selected env db toPk := rfl

/-- Assumes: the row that the pop deletes. -/
theorem selected_of_deletedRow {row : ℕ × QueuedRow}
    (hdeleted : deletedRow sql env db toPk = some row) : selected env db toPk = some row := by
  unfold deletedRow at hdeleted
  split_ifs at hdeleted
  exact hdeleted

/-- Assumes: the pop deletes no row. -/
theorem koeDbQueuePop_none (hdeleted : deletedRow sql env db toPk = none) :
    (koeDbQueuePop sql env db toPk).2.2 = db := by
  unfold koeDbQueuePop deletedRow at *
  rcases hselects : sql.selects with _ | _
  · rfl
  rcases hselected : selected env db toPk with _ | ⟨id, row⟩
  · rfl
  rcases hdeletes : sql.deletes with _ | _
  · rcases env.rowAlloc with _ | _ <;> rfl
  · rw [if_pos ⟨hselects, hdeletes⟩, hselected] at hdeleted
    exact absurd hdeleted (Option.some_ne_none _)

/-- A pop that selects a row deletes it, whatever else happens. Assumes: the row that the pop
deletes. -/
theorem koeDbQueuePop_some {row : ℕ × QueuedRow}
    (hdeleted : deletedRow sql env db toPk = some row) :
    (koeDbQueuePop sql env db toPk).2.2 = db.delete row.1 := by
  unfold deletedRow at hdeleted
  split_ifs at hdeleted with hstatements
  obtain ⟨hselects, hdeletes⟩ := hstatements
  simp only [koeDbQueuePop, hselects, hdeletes, hdeleted]
  rcases env.rowAlloc with _ | _ <;> rfl

end Deleted

/-- A pop hands out no key and adds no row. -/
theorem koeDbQueuePop_keeps (sql : Statements) (env : PopEnv) (db : QueueTable) (toPk : Block 32) :
    (koeDbQueuePop sql env db toPk).2.2.seq = db.seq ∧
      (koeDbQueuePop sql env db toPk).2.2.rows ⊆ db.rows := by
  rcases hdeleted : deletedRow sql env db toPk with _ | row
  · rw [koeDbQueuePop_none hdeleted]
    exact ⟨rfl, List.Subset.refl _⟩
  · rw [koeDbQueuePop_some hdeleted]
    exact ⟨rfl, List.filter_subset_self _⟩

/-- `koe_queue_pop` leaves the table as the pop below it does. -/
theorem koeQueuePop_db (env : PopEnv) (db : QueueTable) (toPk : Block 32) (pktOut : Packet) :
    (koeQueuePop env db toPk pktOut).2.2 = (koeDbQueuePop .effective env db toPk).2.2 := by
  simp only [koeQueuePop]
  split_ifs <;> rfl

/-- Assumes: the selected row. -/
theorem koeQueuePop_deletes {env : PopEnv} {db : QueueTable} {toPk : Block 32} {id : ℕ}
    {row : QueuedRow} (hselected : selected env db toPk = some (id, row)) (pktOut : Packet) :
    (koeQueuePop env db toPk pktOut).2.2 = db.delete id :=
  (koeQueuePop_db env db toPk pktOut).trans
    (koeDbQueuePop_some (deletedRow_effective.trans hselected))

/-- The row that a push deletes to make room. -/
def evictedRow (env : PushEnv) (maxPerPeer : ℤ) (db : QueueTable) (toPk : Block 32) :
    Option (ℕ × QueuedRow) :=
  if koeDbQueueCount env.sql db toPk ≥ maxPerPeer then deletedRow env.sql env.evict db toPk
  else none

/-- What making room does: it deletes that row of the peer, or nothing. -/
theorem makeRoom_cases (env : PushEnv) (maxPerPeer : ℤ) (db : QueueTable) (toPk : Block 32) :
    (evictedRow env maxPerPeer db toPk = none ∧ makeRoom env maxPerPeer db toPk = db) ∨
      ∃ row ∈ db.rows, row.2.isTo toPk = true ∧
        evictedRow env maxPerPeer db toPk = some row ∧
        makeRoom env maxPerPeer db toPk = db.delete row.1 := by
  unfold evictedRow makeRoom
  split_ifs with hfull
  · rcases hdeleted : deletedRow env.sql env.evict db toPk with _ | row
    · exact Or.inl ⟨rfl, koeDbQueuePop_none hdeleted⟩
    · obtain ⟨hrow, hto⟩ := Table.mem_of_selectMin (selected_of_deletedRow hdeleted)
      exact Or.inr ⟨row, hrow, hto, rfl, koeDbQueuePop_some hdeleted⟩
  · exact Or.inl ⟨rfl, rfl⟩

/-- Making room hands out no key and adds no row. -/
theorem makeRoom_keeps (env : PushEnv) (maxPerPeer : ℤ) (db : QueueTable) (toPk : Block 32) :
    (makeRoom env maxPerPeer db toPk).seq = db.seq ∧
      (makeRoom env maxPerPeer db toPk).rows ⊆ db.rows := by
  rcases makeRoom_cases env maxPerPeer db toPk with ⟨-, hroom⟩ | ⟨row, -, -, -, hroom⟩
  · rw [hroom]
    exact ⟨rfl, List.Subset.refl _⟩
  · rw [hroom]
    exact ⟨rfl, List.filter_subset_self _⟩

/-- A push below the cap makes no room, whatever becomes of its count. Assumes: a cap of at least
one, and fewer rows of the peer than the cap. -/
theorem makeRoom_below_cap {maxPerPeer : ℤ} (hpos : 1 ≤ maxPerPeer) {db : QueueTable}
    {toPk : Block 32} (hfew : (db.countWhere (QueuedRow.isTo toPk) : ℤ) < maxPerPeer)
    (env : PushEnv) : makeRoom env maxPerPeer db toPk = db := by
  have hcount : ¬ koeDbQueueCount env.sql db toPk ≥ maxPerPeer := by
    unfold koeDbQueueCount
    split_ifs
    · exact Int.not_le.mpr hfew
    · exact Int.not_le.mpr (Int.lt_of_lt_of_le Int.zero_lt_one hpos)
  rw [makeRoom, if_neg hcount]

/-- What a push does to the table: with the buffer and the `INSERT` it returns the next key and adds
the row of its packet, and otherwise it returns -1 and adds nothing. -/
theorem koeQueuePush_cases (env : PushEnv) (maxPerPeer : ℤ) (db : QueueTable) (pkt : Packet) :
    let room := makeRoom env maxPerPeer db pkt.header.toPk
    (env.Stores ∧ koeQueuePush env maxPerPeer db pkt =
        (((db.seq + 1 : ℕ) : ℤ), room.insert (queuedRow env.now pkt))) ∨
      (¬ env.Stores ∧ koeQueuePush env maxPerPeer db pkt = (-1, room)) := by
  intro room
  have hseq : room.seq = db.seq := (makeRoom_keeps env maxPerPeer db pkt.header.toPk).1
  by_cases hstores : env.Stores
  · refine Or.inl ⟨hstores, ?_⟩
    rw [← hseq]
    simp only [koeQueuePush, hstores.1, hstores.2]
    rfl
  · refine Or.inr ⟨hstores, ?_⟩
    unfold koeQueuePush
    rcases halloc : env.bufAlloc with _ | _
    · rfl
    · rcases hinserted : env.inserted with _ | _
      · rfl
      · exact absurd ⟨halloc, hinserted⟩ hstores

/-- A push adds the row of its packet, when the buffer is allocated and the `INSERT` carried out,
and nothing else. -/
theorem koeQueuePush_gains_iff (env : PushEnv) (maxPerPeer : ℤ) (db : QueueTable) (pkt : Packet)
    (row : QueuedRow) :
    db.Gains (koeQueuePush env maxPerPeer db pkt).2 row ↔
      env.Stores ∧ row = queuedRow env.now pkt := by
  obtain ⟨hseq, hrows⟩ := makeRoom_keeps env maxPerPeer db pkt.header.toPk
  rcases koeQueuePush_cases env maxPerPeer db pkt with ⟨hstores, hpush⟩ | ⟨hstores, hpush⟩
  · rw [hpush, Table.gains_insert_iff hrows hseq]
    exact ⟨fun hrow ↦ ⟨hstores, hrow⟩, And.right⟩
  · rw [hpush]
    exact iff_of_false (Table.not_gains_of_subset hrows row) fun hrow ↦ hstores hrow.1

/-! ### What a pop and a drain hand out -/

/-- A pop that selects nothing changes nothing. Assumes: no row is selected. -/
theorem koeQueuePop_none {env : PopEnv} {db : QueueTable} {toPk : Block 32}
    (hselected : selected env db toPk = none) (pktOut : Packet) :
    koeQueuePop env db toPk pktOut = (-1, pktOut, db) := by
  simp [koeQueuePop, koeDbQueuePop, Statements.effective, hselected]

/-- A pop that selects a row deletes it and decodes its bytes, if it can copy them. Assumes: the
selected row. -/
theorem koeQueuePop_selected {env : PopEnv} {db : QueueTable} {toPk : Block 32} {id : ℕ}
    {row : QueuedRow} (hselected : selected env db toPk = some (id, row)) (pktOut : Packet) :
    koeQueuePop env db toPk pktOut =
      if env.rowAlloc then
        ((koePacketDeserialise env.payloadAlloc pktOut row.packet).1,
          (koePacketDeserialise env.payloadAlloc pktOut row.packet).2, db.delete id)
      else (-1, pktOut, db.delete id) := by
  rcases halloc : env.rowAlloc with _ | _
  · simp [koeQueuePop, koeDbQueuePop, Statements.effective, hselected, halloc]
  · simp [koeQueuePop, koeDbQueuePop, Statements.effective, hselected, halloc]

/-- Assumes: a row is selected, its bytes can be copied, and they decode. -/
theorem koeQueuePop_eq_zero {env : PopEnv} {db : QueueTable} {toPk : Block 32} {id : ℕ}
    {row : QueuedRow} (hselected : selected env db toPk = some (id, row))
    (halloc : env.rowAlloc = true) {pktOut : Packet}
    (hdecodes : (koePacketDeserialise env.payloadAlloc pktOut row.packet).1 = 0) :
    (koeQueuePop env db toPk pktOut).1 = 0 := by
  rw [koeQueuePop_selected hselected, if_pos halloc]
  exact hdecodes

/-- What one round of a drain can do: find nothing, delete a row without handing its packet out,
hand it out to a callback that refuses it, or hand it out and go on. -/
theorem drainLoop_cases (toPk : Block 32) (rounds : ℕ → DrainRound) (fuel : ℕ) (db : QueueTable)
    (pkt : Packet) :
    let popped := koeQueuePop (rounds 0).pop db toPk pkt
    let rest (id : ℕ) := drainLoop toPk (fun i ↦ rounds (i + 1)) fuel (db.delete id)
      (koePacketFree popped.2.1)
    (selected (rounds 0).pop db toPk = none ∧
        drainLoop toPk rounds (fuel + 1) db pkt = ⟨[], db⟩) ∨
      ∃ id row, selected (rounds 0).pop db toPk = some (id, row) ∧
        ((popped.1 ≠ 0 ∧ drainLoop toPk rounds (fuel + 1) db pkt = ⟨[], db.delete id⟩) ∨
          (popped.1 = 0 ∧ (rounds 0).sendRc ≠ 0 ∧ drainLoop toPk rounds (fuel + 1) db pkt =
            ⟨[(id, popped.2.1, (rounds 0).sendRc)], db.delete id⟩) ∨
          (popped.1 = 0 ∧ (rounds 0).sendRc = 0 ∧ drainLoop toPk rounds (fuel + 1) db pkt =
            ⟨(id, popped.2.1, 0) :: (rest id).calls, (rest id).db⟩)) := by
  intro popped rest
  rcases hselected : selected (rounds 0).pop db toPk with _ | ⟨id, row⟩
  · exact Or.inl ⟨rfl, by simp only [drainLoop, hselected]⟩
  refine Or.inr ⟨id, row, rfl, ?_⟩
  have hdb : popped.2.2 = db.delete id := koeQueuePop_deletes hselected pkt
  have hloop : drainLoop toPk rounds (fuel + 1) db pkt =
      if popped.1 ≠ 0 then ⟨[], db.delete id⟩
      else if (rounds 0).sendRc ≠ 0 then
        ⟨[(id, popped.2.1, (rounds 0).sendRc)], db.delete id⟩
      else ⟨(id, popped.2.1, (rounds 0).sendRc) :: (rest id).calls, (rest id).db⟩ := by
    simp only [drainLoop, hselected, rest, ← hdb]
    rfl
  rw [hloop]
  by_cases hrc : popped.1 ≠ 0
  · exact Or.inl ⟨hrc, if_pos hrc⟩
  · rw [if_neg hrc]
    by_cases hsend : (rounds 0).sendRc ≠ 0
    · exact Or.inr (Or.inl ⟨not_not.mp hrc, hsend, if_pos hsend⟩)
    · refine Or.inr (Or.inr ⟨not_not.mp hrc, not_not.mp hsend, ?_⟩)
      rw [if_neg hsend, not_not.mp hsend]

/-- The induction over a drain. Assumes: a property of the table that is kept when the row a pop
selects is deleted. -/
theorem drainLoop_invariant {inv : QueueTable → Prop} {toPk : Block 32}
    (hdelete : ∀ (env : PopEnv) (db : QueueTable) (id : ℕ) (row : QueuedRow), inv db →
      selected env db toPk = some (id, row) → inv (db.delete id)) (fuel : ℕ) :
    ∀ (rounds : ℕ → DrainRound) {db : QueueTable} (pkt : Packet), inv db →
      inv (drainLoop toPk rounds fuel db pkt).db := by
  induction fuel with
  | zero =>
    intro rounds db pkt hinv
    exact hinv
  | succ fuel ih =>
    intro rounds db pkt hinv
    rcases drainLoop_cases toPk rounds fuel db pkt with
      ⟨-, hloop⟩ | ⟨id, row, hselected, ⟨-, hloop⟩ | ⟨-, -, hloop⟩ | ⟨-, -, hloop⟩⟩
    · rw [hloop]
      exact hinv
    · rw [hloop]
      exact hdelete _ db id row hinv hselected
    · rw [hloop]
      exact hdelete _ db id row hinv hselected
    · rw [hloop]
      exact ih _ _ (hdelete _ db id row hinv hselected)

/-- A drain hands out no key and adds no row. -/
theorem drainLoop_keeps (toPk : Block 32) (fuel : ℕ) (rounds : ℕ → DrainRound) (db : QueueTable)
    (pkt : Packet) :
    (drainLoop toPk rounds fuel db pkt).db.seq = db.seq ∧
      (drainLoop toPk rounds fuel db pkt).db.rows ⊆ db.rows := by
  have hrefl : db.seq = db.seq ∧ db.rows ⊆ db.rows := ⟨rfl, List.Subset.refl _⟩
  have hdelete (env : PopEnv) (after : QueueTable) (id : ℕ) (row : QueuedRow)
      (hkept : after.seq = db.seq ∧ after.rows ⊆ db.rows)
      (_ : selected env after toPk = some (id, row)) :
      (after.delete id).seq = db.seq ∧ (after.delete id).rows ⊆ db.rows :=
    ⟨hkept.1, List.Subset.trans (List.filter_subset_self _) hkept.2⟩
  exact drainLoop_invariant hdelete fuel rounds pkt hrefl

/-- The rounds of a drain are bounded by the rows of the peer. Assumes: more fuel than rows. -/
theorem drainLoop_succ (toPk : Block 32) (fuel : ℕ) :
    ∀ (rounds : ℕ → DrainRound) (db : QueueTable) (pkt : Packet),
      db.countWhere (QueuedRow.isTo toPk) < fuel →
        drainLoop toPk rounds (fuel + 1) db pkt = drainLoop toPk rounds fuel db pkt := by
  induction fuel with
  | zero =>
    intro rounds db pkt hfuel
    exact absurd hfuel (Nat.not_lt_zero _)
  | succ fuel ih =>
    intro rounds db pkt hfuel
    rw [drainLoop, drainLoop]
    rcases hselected : selected (rounds 0).pop db toPk with _ | ⟨id, row⟩
    · rfl
    · have hfewer : (koeQueuePop (rounds 0).pop db toPk pkt).2.2.countWhere
          (QueuedRow.isTo toPk) < fuel := by
        have hless := countWhere_delete_selected hselected
        rw [koeQueuePop_deletes hselected]
        omega
      simp only [ih _ _ _ hfewer]

end KoeCore
