import KoeCore.Protocol.PacketRoundTrip
import KoeCore.Queue.Accounting
import Mathlib.Data.UInt

/-!
# What is handed out of the queue

Runs of push, pop, drain and expire from an empty table, with a log of the packets that pushes
stored and of the ids that were handed out. Every row of the table is the row of a logged packet
(`Recorded`), so what a pop decodes can be compared with what was pushed.

`koe_queue_push` stores a packet of any length and `koe_packet_deserialise` refuses lengths above
`KOE_MAX_PAYLOAD`. `koePacketDeserialise_queuedRow` puts the two together, and
`koeQueue_faithful_iff` says when the queue gives back what was put in: when every stored packet is
within the cap. A longer one is deleted by the pop that fails on it, and a drain stops there.
-/

set_option autoImplicit false
set_option relaxedAutoImplicit false

namespace KoeCore

open ByteWire RowTable

/-- The queue, the packets that pushes stored with their ids, and the peers and ids that were handed
out by pops and drains, both oldest first. -/
structure QueueHistory where
  db : QueueTable
  maxPerPeer : ℤ
  pushed : List (ℕ × Packet)
  handed : List (Block 32 × ℕ)

namespace QueueHistory

/-- The start of a run. -/
def start (maxPerPeer : ℤ) : QueueHistory := ⟨Table.empty, maxPerPeer, [], []⟩

/-- A packet counts as handed out when its pop returns 0 or when it is passed to `send_fn`. -/
def step (history : QueueHistory) : QueueCall → QueueHistory
  | .push env pkt =>
    let pushed := koeQueuePush env history.maxPerPeer history.db pkt
    { history with
      db := pushed.2
      pushed :=
        if 0 ≤ pushed.1 then history.pushed ++ [(pushed.1.toNat, pkt)] else history.pushed }
  | .pop env toPk pktOut =>
    let popped := koeQueuePop env history.db toPk pktOut
    { history with
      db := popped.2.2
      handed :=
        if popped.1 = 0 then
          history.handed ++ ((selected env history.db toPk).map fun row ↦ (toPk, row.1)).toList
        else history.handed }
  | .drain rounds toPk =>
    let drained := koeQueueDrain rounds history.db toPk
    { history with
      db := drained.db
      handed := history.handed ++ drained.calls.map fun call ↦ (toPk, call.1) }
  | .expire now => { history with db := (koeQueueExpire now history.db).2 }

/-- A push adds its packet to the table and to the log, under the next id, or neither; it may have
made room before. -/
theorem step_push_cases (history : QueueHistory) (env : PushEnv) (pkt : Packet) :
    ∃ room : QueueTable, room.seq = history.db.seq ∧ room.rows ⊆ history.db.rows ∧
      (history.step (.push env pkt) = { history with db := room } ∨
        env.bufAlloc = true ∧ history.step (.push env pkt) =
          { history with
            db := room.insert (queuedRow env.now pkt)
            pushed := history.pushed ++ [(room.seq + 1, pkt)] }) := by
  obtain ⟨hseq, hrows⟩ := makeRoom_keeps env history.maxPerPeer history.db pkt.header.toPk
  refine ⟨_, hseq, hrows, ?_⟩
  rcases koeQueuePush_cases env history.maxPerPeer history.db pkt with
    ⟨hstores, hpush⟩ | ⟨-, hpush⟩
  · refine Or.inr ⟨hstores.1, ?_⟩
    have hid : (0 : ℤ) ≤ ((history.db.seq + 1 : ℕ) : ℤ) := Int.natCast_nonneg _
    simp only [step, hpush, if_pos hid, Int.toNat_natCast, hseq]
  · refine Or.inl ?_
    simp only [step, hpush]
    rw [if_neg (by decide)]

/-- Every other call only takes rows out of the table. Assumes: no push. -/
theorem step_other (history : QueueHistory) {call : QueueCall}
    (hother : ∀ env pkt, call ≠ .push env pkt) :
    (history.step call).pushed = history.pushed ∧
      (history.step call).db.seq = history.db.seq ∧
      (history.step call).db.rows ⊆ history.db.rows := by
  cases call with
  | push env pkt => exact absurd rfl (hother env pkt)
  | pop env toPk pktOut =>
    have hdb : (history.step (.pop env toPk pktOut)).db = _ :=
      koeQueuePop_db env history.db toPk pktOut
    rw [hdb]
    exact ⟨rfl, koeDbQueuePop_keeps .effective env history.db toPk⟩
  | drain rounds toPk => exact ⟨rfl, drainLoop_keeps toPk _ rounds history.db Packet.zero⟩
  | expire now => exact ⟨rfl, rfl, List.filter_subset_self _⟩

/-- The log of pushes is in the order of their ids, no id in it is above the largest that the table
handed out, and every row of the table is that of a logged packet. -/
structure Recorded (history : QueueHistory) : Prop where
  increasing : (history.pushed.map Prod.fst).Pairwise (· < ·)
  bounded : ∀ push ∈ history.pushed, push.1 ≤ history.db.seq
  stored : ∀ row ∈ history.db.rows, ∃ now pkt, (row.1, pkt) ∈ history.pushed ∧
    row.2 = queuedRow now pkt

/-- Assumes: a log of which no two packets have one id. -/
theorem Recorded.packet_eq {history : QueueHistory} (hrecorded : Recorded history) {id : ℕ}
    {first second : Packet} (hfirst : (id, first) ∈ history.pushed)
    (hsecond : (id, second) ∈ history.pushed) : first = second :=
  (Prod.mk.inj (List.inj_on_of_nodup_map hrecorded.increasing.nodup hfirst hsecond rfl)).2

/-- Assumes: the same log, and rows that were all in the table before. -/
theorem Recorded.of_subset {history next : QueueHistory} (hrecorded : Recorded history)
    (hpushed : next.pushed = history.pushed) (hseq : next.db.seq = history.db.seq)
    (hrows : next.db.rows ⊆ history.db.rows) : Recorded next where
  increasing := hpushed ▸ hrecorded.increasing
  bounded := by
    rw [hpushed, hseq]
    exact hrecorded.bounded
  stored := by
    rw [hpushed]
    exact fun row hrow ↦ hrecorded.stored row (hrows hrow)

/-- Storing a packet keeps the log. Assumes: a log that records the table. -/
theorem Recorded.insert {history : QueueHistory} (hrecorded : Recorded history) (now : ℤ)
    (pkt : Packet) :
    Recorded { history with
      db := history.db.insert (queuedRow now pkt)
      pushed := history.pushed ++ [(history.db.seq + 1, pkt)] } where
  increasing := by
    rw [List.map_append, List.pairwise_append]
    refine ⟨hrecorded.increasing, List.pairwise_singleton _ _, ?_⟩
    intro older holder newer hnewer
    obtain ⟨push, hpush, rfl⟩ := List.mem_map.mp holder
    have hbounded := hrecorded.bounded push hpush
    rw [List.mem_singleton.mp hnewer]
    exact Nat.lt_succ_of_le hbounded
  bounded := by
    intro push hpush
    change push.1 ≤ history.db.seq + 1
    rcases List.mem_append.mp hpush with hold | hnew
    · exact Nat.le_succ_of_le (hrecorded.bounded push hold)
    · rw [List.mem_singleton.mp hnew]
  stored := by
    intro row hrow
    rcases List.mem_append.mp hrow with hold | hnew
    · obtain ⟨time, packet, hpushed, hstored⟩ := hrecorded.stored row hold
      exact ⟨time, packet, List.mem_append_left _ hpushed, hstored⟩
    · rw [List.mem_singleton.mp hnew]
      exact ⟨now, pkt, List.mem_append_right _ (List.mem_singleton_self _), rfl⟩

theorem recorded_start (maxPerPeer : ℤ) : Recorded (start maxPerPeer) where
  increasing := List.Pairwise.nil
  bounded := by
    intro push hpush
    exact absurd hpush List.not_mem_nil
  stored := by
    intro row hrow
    exact absurd hrow List.not_mem_nil

/-- Every call keeps the log. Assumes: a log that records the table. -/
theorem recorded_step {history : QueueHistory} (hrecorded : Recorded history) (call : QueueCall) :
    Recorded (history.step call) := by
  by_cases hpush : ∃ env pkt, call = .push env pkt
  · obtain ⟨env, pkt, rfl⟩ := hpush
    obtain ⟨room, hseq, hrows, hstep | ⟨-, hstep⟩⟩ := history.step_push_cases env pkt
    · rw [hstep]
      exact hrecorded.of_subset rfl hseq hrows
    · rw [hstep]
      have hroom : Recorded { history with db := room } := hrecorded.of_subset rfl hseq hrows
      exact hroom.insert env.now pkt
  · obtain ⟨hpushed, hseq, hrows⟩ :=
      history.step_other fun env pkt hcall ↦ hpush ⟨env, pkt, hcall⟩
    exact hrecorded.of_subset hpushed hseq hrows

end QueueHistory

/-! ### Decoding a stored packet -/

/-- The payload has the length that the header announces; a missing one counts as empty. -/
def Packet.Carries (pkt : Packet) : Prop :=
  (pkt.payload.getD []).length = pkt.header.length.toNat

instance (pkt : Packet) : Decidable pkt.Carries := inferInstanceAs (Decidable (_ = _))

/-- The other packet is this one with its reserved bytes cleared; a missing and an empty payload are
the same. -/
def Packet.Matches (pkt out : Packet) : Prop :=
  out.header = { pkt.header with reserved := Block.zero 2 } ∧
    out.payload.getD [] = pkt.payload.getD []

/-- The stored bytes of a packet decode to the packet if its length is within the cap, and otherwise
not at all. Assumes: a payload of the announced length. -/
theorem koePacketDeserialise_queuedRow {pkt : Packet} (hcarries : pkt.Carries) (now : ℤ)
    (out : Packet) :
    let decoded := koePacketDeserialise true out (queuedRow now pkt).packet
    (pkt.header.length.toNat ≤ koeMaxPayload → decoded.1 = 0 ∧ pkt.Matches decoded.2) ∧
      (koeMaxPayload < pkt.header.length.toNat → decoded.1 = -1) := by
  intro decoded
  by_cases hsize : koeHeaderSize + pkt.header.length.toNat < 2 ^ 32
  · have hdecoded := koePacketDeserialise_bytes pkt.header hcarries [] out
    rw [List.append_nil, ← queuedRow_packet hcarries hsize now] at hdecoded
    constructor
    · intro hmax
      rw [if_pos hmax] at hdecoded
      simp only [decoded, hdecoded]
      refine ⟨trivial, rfl, ?_⟩
      by_cases hpos : 0 < pkt.header.length
      · rw [if_pos hpos, Option.getD_some]
      · rw [UInt32.lt_iff_toNat_lt] at hpos
        rw [Packet.Carries, Nat.eq_zero_of_not_pos hpos] at hcarries
        rw [List.length_eq_zero_iff.mp hcarries]
        split_ifs <;> rfl
    · intro hmax
      simp only [decoded, hdecoded, if_neg (Nat.not_le.mpr hmax)]
  · have hlength := pkt.header.length.toNat_lt
    have hshort : (queuedRow now pkt).packet.length < koeHeaderSize := by
      refine Nat.lt_of_le_of_lt (List.length_take_le _ _) ?_
      simp only [Packet.reserved32, koeHeaderSize] at hsize ⊢
      omega
    constructor
    · intro hmax
      simp only [koeHeaderSize, koeMaxPayload] at hmax hsize
      omega
    · intro _
      simp only [decoded, koePacketDeserialise, if_pos hshort]

/-! ### What a drain passes on -/

/-- Both `malloc`s of a pop succeed. -/
def PopEnv.HasMemory (env : PopEnv) : Prop := env.rowAlloc = true ∧ env.payloadAlloc = true

/-- Assumes: the selected row, and memory. -/
theorem koeQueuePop_of_memory {env : PopEnv} {db : QueueTable} {toPk : Block 32} {id : ℕ}
    {row : QueuedRow} (hselected : selected env db toPk = some (id, row))
    (hmemory : env.HasMemory) (pktOut : Packet) :
    (koeQueuePop env db toPk pktOut).1 = (koePacketDeserialise true pktOut row.packet).1 ∧
      (koeQueuePop env db toPk pktOut).2.1 = (koePacketDeserialise true pktOut row.packet).2 := by
  rw [koeQueuePop_selected hselected, if_pos hmemory.1, hmemory.2]
  exact ⟨rfl, rfl⟩

/-- A pop that returns 0 has decoded the row it selected. Assumes: the selected row, memory, and the
return code 0. -/
theorem Decodes.of_pop {env : PopEnv} {db : QueueTable} {toPk : Block 32} {id : ℕ} {row : QueuedRow}
    (hselected : selected env db toPk = some (id, row)) (hmemory : env.HasMemory) {pktOut : Packet}
    (hrc : (koeQueuePop env db toPk pktOut).1 = 0) : Decodes true row.packet := by
  rw [(koeQueuePop_of_memory hselected hmemory pktOut).1] at hrc
  exact (decodes_iff true row.packet pktOut).mp hrc

/-- What a drain passes on was decoded from a row of the peer. Assumes: memory for every round. -/
theorem mem_calls_drainLoop (toPk : Block 32) (fuel : ℕ) :
    ∀ (rounds : ℕ → DrainRound) (db : QueueTable) (pkt : Packet),
      (∀ i, (rounds i).pop.HasMemory) →
        ∀ call ∈ (drainLoop toPk rounds fuel db pkt).calls, ∃ row, (call.1, row) ∈ db.rows ∧
          Decodes true row.packet := by
  induction fuel with
  | zero =>
    intro rounds db pkt _ call hcall
    exact absurd hcall List.not_mem_nil
  | succ fuel ih =>
    intro rounds db pkt hmemory call hcall
    rcases drainLoop_cases toPk rounds fuel db pkt with
      ⟨-, hloop⟩ | ⟨id, row, hselected, ⟨-, hloop⟩ | ⟨hrc, -, hloop⟩ | ⟨hrc, -, hloop⟩⟩
    · rw [hloop] at hcall
      exact absurd hcall List.not_mem_nil
    · rw [hloop] at hcall
      exact absurd hcall List.not_mem_nil
    · rw [hloop] at hcall
      rw [List.mem_singleton.mp hcall]
      exact ⟨row, (Table.mem_of_selectMin hselected).1, Decodes.of_pop hselected (hmemory 0) hrc⟩
    · rw [hloop] at hcall
      rcases List.mem_cons.mp hcall with hfirst | hrest
      · rw [hfirst]
        exact ⟨row, (Table.mem_of_selectMin hselected).1, Decodes.of_pop hselected (hmemory 0) hrc⟩
      · obtain ⟨other, hother, hdecodes⟩ :=
          ih (fun i ↦ rounds (i + 1)) _ _ (fun i ↦ hmemory (i + 1)) call hrest
        exact ⟨other, (Table.mem_delete.mp hother).1, hdecodes⟩

/-- A drain to a callback that always returns 0 passes on every row of the peer and leaves none.
Assumes: memory and a callback that returns 0 in every round, rows of the peer that decode, and more
fuel than rows. -/
theorem drainLoop_passes_on (toPk : Block 32) (fuel : ℕ) :
    ∀ (rounds : ℕ → DrainRound) (db : QueueTable) (pkt : Packet),
      (∀ i, (rounds i).pop.HasMemory ∧ (rounds i).sendRc = 0) →
      (∀ row ∈ db.rows, row.2.isTo toPk = true → Decodes true row.2.packet) →
      db.countWhere (QueuedRow.isTo toPk) < fuel →
        (drainLoop toPk rounds fuel db pkt).db.countWhere (QueuedRow.isTo toPk) = 0 ∧
          ∀ row ∈ db.rows, row.2.isTo toPk = true → ∃ before,
            (row.1, (koePacketDeserialise true before row.2.packet).2, 0) ∈
              (drainLoop toPk rounds fuel db pkt).calls := by
  induction fuel with
  | zero =>
    intro rounds db pkt _ _ hfuel
    exact absurd hfuel (Nat.not_lt_zero _)
  | succ fuel ih =>
    intro rounds db pkt hsmooth hdecodes hfuel
    obtain ⟨hmemory, hsend⟩ := hsmooth 0
    rcases drainLoop_cases toPk rounds fuel db pkt with
      ⟨hnone, hloop⟩ | ⟨id, row, hselected, hcases⟩
    · have hempty : ∀ row ∈ db.rows, ¬ row.2.isTo toPk = true := by
        intro row hrow hto
        obtain ⟨found, hfound⟩ :=
          Table.exists_selectMin hrow hto QueuedRow.sequence (rounds 0).pop.tie
        exact absurd (hnone.symm.trans hfound) (by simp)
      rw [hloop]
      exact ⟨Table.countWhere_eq_zero.mpr hempty,
        fun row hrow hto ↦ absurd hto (hempty row hrow)⟩
    obtain ⟨hrow, hto⟩ := Table.mem_of_selectMin hselected
    obtain ⟨hcode, hout⟩ := koeQueuePop_of_memory hselected hmemory pkt
    have hrc := hcode.trans ((hdecodes _ hrow hto).eq_zero pkt)
    have hpasses := hcases.resolve_left fun hfailed ↦ hfailed.1 hrc
    obtain ⟨-, -, hloop⟩ := hpasses.resolve_left fun hrefused ↦ hrefused.2.1 hsend
    have hfewer : (db.delete id).countWhere (QueuedRow.isTo toPk) < fuel := by
      have hless := countWhere_delete_selected hselected
      omega
    obtain ⟨hnone, hpassed⟩ := ih (fun i ↦ rounds (i + 1)) (db.delete id)
      (koePacketFree (koeQueuePop (rounds 0).pop db toPk pkt).2.1) (fun i ↦ hsmooth (i + 1))
      (fun other hother ↦ hdecodes other (Table.mem_delete.mp hother).1) hfewer
    rw [hloop]
    refine ⟨hnone, ?_⟩
    intro other hother htoo
    by_cases hid : other.1 = id
    · obtain rfl := Table.eq_of_mem_of_id_eq hother hrow hid
      refine ⟨pkt, ?_⟩
      rw [← hout]
      exact List.mem_cons_self
    · obtain ⟨before, hcall⟩ := hpassed other (Table.mem_delete.mpr ⟨hother, hid⟩) htoo
      exact ⟨before, List.mem_cons_of_mem _ hcall⟩

/-! ### When the queue gives back what was put in -/

/-- Every push of the run is of a packet whose payload has the announced length. -/
def QueueCall.Carries : QueueCall → Prop
  | .push _ pkt => pkt.Carries
  | .pop _ _ _ => True
  | .drain _ _ => True
  | .expire _ => True

namespace QueueHistory

/-- The pop that takes a packet out of the table returns it, and a drain to a callback that always
returns 0 empties the queue of a peer and passes on every packet in it, given memory. -/
structure Faithful (history : QueueHistory) : Prop where
  pops : ∀ {id : ℕ} {pkt : Packet} {env : PopEnv} {row : QueuedRow},
    (id, pkt) ∈ history.pushed →
      selected env history.db pkt.header.toPk = some (id, row) → env.HasMemory →
        ∀ pktOut, (koeQueuePop env history.db pkt.header.toPk pktOut).1 = 0 ∧
          pkt.Matches (koeQueuePop env history.db pkt.header.toPk pktOut).2.1
  drains : ∀ (toPk : Block 32) {rounds : ℕ → DrainRound},
    (∀ i, (rounds i).pop.HasMemory ∧ (rounds i).sendRc = 0) →
      (koeQueueDrain rounds history.db toPk).db.countWhere (QueuedRow.isTo toPk) = 0 ∧
        ∀ {id : ℕ} {pkt : Packet}, (id, pkt) ∈ history.pushed → pkt.header.toPk = toPk →
          id ∈ history.db.ids → ∃ out, (id, out, 0) ∈ (koeQueueDrain rounds history.db toPk).calls ∧
            pkt.Matches out

/-- Every packet in the table is within the cap. -/
def WithinCap (history : QueueHistory) : Prop :=
  ∀ {id : ℕ} {pkt : Packet}, (id, pkt) ∈ history.pushed → id ∈ history.db.ids →
    pkt.header.length.toNat ≤ koeMaxPayload

section Faithful

variable {history : QueueHistory}

/-- The row of a packet that is still in the table. Assumes: a log that records the table, and a
logged id that is in it. -/
theorem Recorded.row_of_id (hrecorded : Recorded history) {id : ℕ} {pkt : Packet}
    (hpushed : (id, pkt) ∈ history.pushed) {row : QueuedRow} (hrow : (id, row) ∈ history.db.rows) :
    ∃ now, row = queuedRow now pkt := by
  obtain ⟨now, stored, hstored, heq⟩ := hrecorded.stored _ hrow
  rw [hrecorded.packet_eq hpushed hstored]
  exact ⟨now, heq⟩

/-- Rows within the cap decode. Assumes: a log that records the table, payloads of the announced
length, and packets within the cap. -/
theorem Recorded.decodes (hrecorded : Recorded history)
    (hcarries : ∀ push ∈ history.pushed, push.2.Carries) (hcap : history.WithinCap)
    {row : ℕ × QueuedRow} (hrow : row ∈ history.db.rows) : Decodes true row.2.packet := by
  obtain ⟨now, pkt, hpushed, hstored⟩ := hrecorded.stored row hrow
  rw [hstored]
  have hwithin := hcap hpushed (List.mem_map_of_mem hrow)
  exact ((koePacketDeserialise_queuedRow (hcarries _ hpushed) now Packet.zero).1 hwithin).1

/-- Assumes: a log that records the table, payloads of the announced length, and packets within the
cap. -/
theorem Recorded.faithful (hrecorded : Recorded history)
    (hcarries : ∀ push ∈ history.pushed, push.2.Carries) (hcap : history.WithinCap) :
    history.Faithful where
  pops := by
    intro id pkt env row hpushed hselected hmemory pktOut
    obtain ⟨hrow, -⟩ := Table.mem_of_selectMin hselected
    obtain ⟨now, rfl⟩ := hrecorded.row_of_id hpushed hrow
    obtain ⟨hcode, hout⟩ := koeQueuePop_of_memory hselected hmemory pktOut
    rw [hcode, hout]
    exact (koePacketDeserialise_queuedRow (hcarries _ hpushed) now pktOut).1
      (hcap hpushed (List.mem_map_of_mem hrow))
  drains := by
    intro toPk rounds hsmooth
    obtain ⟨hnone, hpassed⟩ := drainLoop_passes_on toPk
      (history.db.countWhere (QueuedRow.isTo toPk) + 1) rounds history.db Packet.zero hsmooth
      (fun row hrow _ ↦ hrecorded.decodes hcarries hcap hrow) (Nat.lt_succ_self _)
    refine ⟨hnone, ?_⟩
    intro id pkt hpushed hto hid
    obtain ⟨⟨_, row⟩, hrow, rfl⟩ := List.mem_map.mp hid
    obtain ⟨now, rfl⟩ := hrecorded.row_of_id hpushed hrow
    obtain ⟨before, hcall⟩ := hpassed _ hrow (by simp [QueuedRow.isTo, queuedRow, hto])
    exact ⟨_, hcall, ((koePacketDeserialise_queuedRow (hcarries _ hpushed) now before).1
      (hcap hpushed hid)).2⟩

/-- A drain that passes on every packet has decoded it. Assumes: a log that records the table,
payloads of the announced length, and a queue that gives back what was put in. -/
theorem Recorded.withinCap (hrecorded : Recorded history)
    (hcarries : ∀ push ∈ history.pushed, push.2.Carries) (hfaithful : history.Faithful) :
    history.WithinCap := by
  intro id pkt hpushed hid
  let rounds : ℕ → DrainRound := fun _ ↦ ⟨⟨true, true, 0⟩, 0⟩
  have hmemory (i : ℕ) : (rounds i).pop.HasMemory := ⟨rfl, rfl⟩
  obtain ⟨out, hcall, -⟩ :=
    (hfaithful.drains pkt.header.toPk fun i ↦ ⟨hmemory i, rfl⟩).2 hpushed rfl hid
  obtain ⟨row, hrow, hdecodes⟩ := mem_calls_drainLoop _ _ rounds _ _ hmemory _ hcall
  obtain ⟨now, rfl⟩ := hrecorded.row_of_id hpushed hrow
  by_contra hlong
  have hrejected :=
    (koePacketDeserialise_queuedRow (hcarries _ hpushed) now Packet.zero).2 (Nat.lt_of_not_le hlong)
  exact absurd (hdecodes.symm.trans hrejected) (by decide)

end Faithful

theorem recorded_run (calls : List QueueCall) (maxPerPeer : ℤ) :
    Recorded (calls.foldl step (start maxPerPeer)) :=
  List.foldlRecOn calls step (recorded_start maxPerPeer) fun _ hrecorded call _ ↦
    recorded_step hrecorded call

/-- A call logs nothing but a packet whose payload has the announced length. Assumes: such a call,
and such a log before it. -/
theorem carries_step {history : QueueHistory} {call : QueueCall} (hcall : call.Carries)
    (hlogged : ∀ push ∈ history.pushed, push.2.Carries) :
    ∀ push ∈ (history.step call).pushed, push.2.Carries := by
  by_cases hpush : ∃ env pkt, call = .push env pkt
  · obtain ⟨env, pkt, rfl⟩ := hpush
    obtain ⟨room, -, -, hstep | ⟨-, hstep⟩⟩ := history.step_push_cases env pkt
    · rw [hstep]
      exact hlogged
    · rw [hstep]
      exact List.forall_mem_append.mpr ⟨hlogged, List.forall_mem_singleton.mpr hcall⟩
  · rw [(history.step_other fun env pkt hother ↦ hpush ⟨env, pkt, hother⟩).1]
    exact hlogged

/-- Assumes: pushes of packets whose payloads have the announced length. -/
theorem carries_run {calls : List QueueCall} (hcarries : ∀ call ∈ calls, call.Carries)
    (maxPerPeer : ℤ) :
    ∀ push ∈ (calls.foldl step (start maxPerPeer)).pushed, push.2.Carries := by
  refine List.foldlRecOn (motive := fun history ↦ ∀ push ∈ history.pushed, push.2.Carries)
    calls step ?_ ?_
  · intro push hpush
    exact absurd hpush List.not_mem_nil
  · intro history hlogged call hcall
    exact carries_step (hcarries call hcall) hlogged

end QueueHistory

/-- A PING with a payload of one byte more than `KOE_MAX_PAYLOAD`. -/
def longPacket : Packet where
  header := { (koePacketInit PacketType.ping.code 0).header with length := 2 ^ 20 + 1 }
  payload := some (List.replicate (2 ^ 20 + 1) 0)

theorem longPacket_carries : longPacket.Carries := by
  change (List.replicate (2 ^ 20 + 1) (0 : UInt8)).length = (2 ^ 20 + 1 : UInt32).toNat
  rw [List.length_replicate]
  decide

/-- The long packet is queued, and a PING without a payload a second later. -/
def pushLong : List QueueCall :=
  [.push ⟨.effective, ⟨true, true, 0⟩, true, 0, true⟩ longPacket,
    .push ⟨.effective, ⟨true, true, 0⟩, true, 1, true⟩ (koePacketInit PacketType.ping.code 0)]

end KoeCore
