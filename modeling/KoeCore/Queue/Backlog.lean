import KoeCore.Protocol.PacketRoundTrip
import KoeCore.Queue.Depth
import KoeCore.Queue.Order

/-!
# The packets that wait for a peer

`Backlog` says that the rows of one peer hold given packets, in the order of their keys and without
running back in time. A push to the peer appends its packet as long as there is room
(`Backlog.push`).

`Backlog.drainLoop` is what a drain makes of them: it hands out the first packets, and all of them
when its callback accepts every packet it is given. The reserved bytes of a header are not stored,
so a packet comes out as `Packet.received`.
-/

set_option autoImplicit false
set_option relaxedAutoImplicit false

namespace KoeCore

open ByteWire RowTable

/-- The rows of the peer hold the packets, were stored in this order, and no row is older than one
before it. -/
structure Backlog (db : QueueTable) (toPk : Block 32) (pkts : List Packet) : Prop where
  packets : (rowsOf db toPk).map (fun row ↦ row.2.packet) = pkts.map Packet.wire
  ordered : (rowsOf db toPk).Pairwise fun first second ↦
    first.1 < second.1 ∧ first.2.sequence ≤ second.2.sequence

/-- A packet that is stored as a whole and decodes: its payload fits and is within the cap. -/
def Packet.Storable (pkt : Packet) : Prop :=
  pkt.PayloadFits ∧ pkt.header.length.toNat ≤ koeMaxPayload

section Backlog

variable {db : QueueTable} {toPk : Block 32} {pkts : List Packet}

theorem Backlog.length_eq (hbacklog : Backlog db toPk pkts) :
    db.countWhere (QueuedRow.isTo toPk) = pkts.length := by
  have hlength := congrArg List.length hbacklog.packets
  rw [List.length_map, List.length_map] at hlength
  rw [← hlength, countWhere_isTo]

/-- Assumes: no row of the peer. -/
theorem backlog_of_none (hnone : db.countWhere (QueuedRow.isTo toPk) = 0) :
    Backlog db toPk [] := by
  have hempty : rowsOf db toPk = [] := by
    refine List.filter_eq_nil_iff.mpr ?_
    exact Table.countWhere_eq_zero.mp hnone
  constructor
  · rw [hempty]
    rfl
  · rw [hempty]
    exact List.Pairwise.nil

/-- Assumes: a payload that fits and is within the cap. -/
theorem queuedRow_wire {pkt : Packet} (hstorable : pkt.Storable) (now : ℤ) :
    (queuedRow now pkt).packet = pkt.wire := by
  obtain ⟨hfits, hmax⟩ := hstorable
  have hlength : (pkt.payload.getD []).length = pkt.header.length.toNat := by
    rcases hpayload : pkt.payload with _ | bytes
    · rw [hfits.1.mp hpayload]
      rfl
    · exact hfits.2 bytes hpayload
  have hsize : koeHeaderSize + pkt.header.length.toNat < 2 ^ 32 := by
    simp only [koeHeaderSize, koeMaxPayload] at hmax ⊢
    omega
  rw [queuedRow_packet hlength hsize, Packet.wire, Packet.payloadBytes, ← hlength, List.take_length]

/-- Assumes: room for one packet more, a packet to the peer that is stored as a whole, and a clock
that is not behind the rows of the peer. -/
theorem Backlog.push (hbacklog : Backlog db toPk pkts) {maxPerPeer : ℤ}
    (hroom : (pkts.length : ℤ) < maxPerPeer) {env : PushEnv} (hstores : env.Stores) {pkt : Packet}
    (hto : pkt.header.toPk = toPk) (hstorable : pkt.Storable)
    (hclock : ∀ row ∈ rowsOf db toPk, row.2.sequence ≤ env.now) :
    Backlog (koeQueuePush env maxPerPeer db pkt).2 toPk (pkts ++ [pkt]) ∧
      rowsOf (koeQueuePush env maxPerPeer db pkt).2 toPk =
        rowsOf db toPk ++ [(db.seq + 1, queuedRow env.now pkt)] := by
  have hkept : makeRoom env maxPerPeer db pkt.header.toPk = db := by
    have hpos : 1 ≤ maxPerPeer := by omega
    have hfew : (db.countWhere (QueuedRow.isTo pkt.header.toPk) : ℤ) < maxPerPeer := by
      rw [hto, hbacklog.length_eq]
      exact hroom
    exact makeRoom_below_cap hpos hfew env
  have hpush : (koeQueuePush env maxPerPeer db pkt).2 = db.insert (queuedRow env.now pkt) := by
    simp only [koeQueuePush, hkept, hstores.1, hstores.2]
    rfl
  have hnew : (queuedRow env.now pkt).isTo toPk = true := by
    rw [QueuedRow.isTo, ← hto]
    exact beq_self_eq_true _
  have hrows : rowsOf (koeQueuePush env maxPerPeer db pkt).2 toPk =
      rowsOf db toPk ++ [(db.seq + 1, queuedRow env.now pkt)] := by
    rw [hpush, rowsOf_insert, if_pos hnew]
  refine ⟨⟨?_, ?_⟩, hrows⟩
  · rw [hrows, List.map_append, hbacklog.packets, List.map_append, List.map_singleton,
      List.map_singleton, queuedRow_wire hstorable]
  · rw [hrows, List.pairwise_append]
    refine ⟨hbacklog.ordered, List.pairwise_singleton _ _, ?_⟩
    intro row hrow new hnew
    rw [List.mem_singleton.mp hnew]
    have hbounded := db.bounded row (List.mem_of_mem_filter hrow)
    exact ⟨Nat.lt_succ_of_le hbounded, hclock row hrow⟩

/-- Assumes: packets for the peer, and a database that returns the first pushed of the rows with one
sequence number. The pop selects the first packet, and leaves the others. -/
theorem Backlog.selected {pkt : Packet} (hbacklog : Backlog db toPk (pkt :: pkts)) {env : PopEnv}
    (hpicks : env.PicksOldest db toPk) :
    ∃ id row, selected env db toPk = some (id, row) ∧ row.packet = pkt.wire ∧
      Backlog (db.delete id) toPk pkts := by
  obtain ⟨packets, ordered⟩ := hbacklog
  rcases hrows : rowsOf db toPk with _ | ⟨first, rest⟩
  · rw [hrows] at packets
    exact absurd packets (by simp)
  rw [hrows, List.map_cons, List.map_cons, List.cons.injEq] at packets
  rw [hrows, List.pairwise_cons] at ordered
  have hmem : first ∈ rowsOf db toPk := by
    rw [hrows]
    exact List.mem_cons_self
  obtain ⟨hfirst, hfirstTo⟩ := List.mem_filter.mp hmem
  obtain ⟨row, hselected⟩ := Table.exists_selectMin hfirst hfirstTo QueuedRow.sequence env.tie
  obtain ⟨hrow, hrowTo⟩ := Table.mem_of_selectMin hselected
  -- The selected row is not older than the first one, and not after it.
  have hsame : row = first := by
    have hrowMem : row ∈ first :: rest := hrows ▸ List.mem_filter.mpr ⟨hrow, hrowTo⟩
    rcases List.mem_cons.mp hrowMem with hhead | htail
    · exact hhead
    · obtain ⟨hlt, hle⟩ := ordered.1 row htail
      have hge := Table.order_le_of_selectMin hselected hfirst hfirstTo
      have hid := hpicks row hselected first hfirst hfirstTo (le_antisymm hle hge)
      exact absurd hid (Nat.not_le_of_lt hlt)
  subst hsame
  have hrest : rowsOf (db.delete row.1) toPk = rest := by
    have hfilter : rowsOf (db.delete row.1) toPk =
        (rowsOf db toPk).filter fun other ↦ !(other.1 == row.1) := by
      simp only [rowsOf, Table.delete, Table.deleteWhere]
      rw [List.filter_comm]
    rw [hfilter, hrows]
    rw [List.filter_cons_of_neg (by simp)]
    refine List.filter_eq_self.mpr ?_
    intro other hother
    have hne : other.1 ≠ row.1 := (ordered.1 other hother).1.ne'
    simpa using hne
  refine ⟨row.1, row.2, hselected, packets.1, ?_, ?_⟩
  · rw [hrest]
    exact packets.2
  · rw [hrest]
    exact ordered.2

/-- A drain hands out the packets from the first one on, and all of them if its callback accepts
each. Assumes: packets that are stored as a whole, memory, and a database that returns the first
pushed of the rows with one sequence number. -/
theorem Backlog.drainLoop (pkts : List Packet) :
    ∀ {fuel : ℕ} {rounds : ℕ → DrainRound} {db : QueueTable} (pkt : Packet),
      Backlog db toPk pkts → (∀ waiting ∈ pkts, waiting.Storable) →
      (∀ i, (rounds i).pop.rowAlloc = true ∧ (rounds i).pop.payloadAlloc = true) →
      DrainPicksOldest toPk fuel rounds db → pkts.length < fuel →
      let drained := drainLoop toPk rounds fuel db pkt
      drained.calls.map (fun call ↦ call.2.1) <+: pkts.map Packet.received ∧
        ((∀ call ∈ drained.calls, call.2.2 = 0) →
          drained.calls.map (fun call ↦ call.2.1) = pkts.map Packet.received ∧
            Backlog drained.db toPk []) := by
  induction pkts with
  | nil =>
    intro fuel rounds db pkt hbacklog _ _ _ hfuel
    obtain ⟨fuel, rfl⟩ : ∃ before, fuel = before + 1 := ⟨fuel - 1, by omega⟩
    rcases drainLoop_cases toPk rounds fuel db pkt with
      ⟨-, hloop⟩ | ⟨id, row, hselected, -⟩
    · rw [hloop]
      exact ⟨List.prefix_refl _, fun _ ↦ ⟨rfl, hbacklog⟩⟩
    · obtain ⟨hrow, hto⟩ := Table.mem_of_selectMin hselected
      exact absurd hto (Table.countWhere_eq_zero.mp hbacklog.length_eq _ hrow)
  | cons waiting pkts ih =>
    intro fuel rounds db pkt hbacklog hstorable halloc hpicks hfuel
    obtain ⟨fuel, rfl⟩ : ∃ before, fuel = before + 1 := ⟨fuel - 1, by omega⟩
    obtain ⟨id, row, hselected, hwire, hrest⟩ := hbacklog.selected hpicks.1
    obtain ⟨hfits, hmax⟩ := hstorable waiting List.mem_cons_self
    have hdecoded : koePacketDeserialise true pkt row.packet = (0, waiting.received) := by
      have hround := koePacketDeserialise_wire hfits hmax [] pkt
      rwa [List.append_nil, ← hwire] at hround
    have hpopped : koeQueuePop (rounds 0).pop db toPk pkt =
        (0, waiting.received, db.delete id) := by
      rw [koeQueuePop_selected hselected, (halloc 0).1, (halloc 0).2, hdecoded]
      rfl
    rcases drainLoop_cases toPk rounds fuel db pkt with
      ⟨hnone, -⟩ | ⟨found, other, hfound, hcases⟩
    · rw [hselected] at hnone
      exact absurd hnone (by simp)
    obtain ⟨rfl, rfl⟩ : id = found ∧ row = other := by
      rw [hselected, Option.some.injEq, Prod.mk.injEq] at hfound
      exact hfound
    rw [hpopped] at hcases
    rcases hcases with ⟨hrc, -⟩ | ⟨-, hrefused, hloop⟩ | ⟨-, -, hloop⟩
    · exact absurd rfl hrc
    · rw [hloop]
      refine ⟨⟨pkts.map Packet.received, rfl⟩, fun hall ↦ ?_⟩
      exact absurd (hall _ List.mem_cons_self) hrefused
    · obtain ⟨hfront, hall⟩ := ih (koePacketFree waiting.received) hrest
        (fun later hlater ↦ hstorable later (List.mem_cons_of_mem _ hlater))
        (fun i ↦ halloc (i + 1)) (hpicks.2 _ hselected)
        (show pkts.length < fuel by rw [List.length_cons] at hfuel; omega)
      rw [hloop]
      refine ⟨?_, fun hzero ↦ ?_⟩
      · rw [List.map_cons, List.map_cons]
        exact (List.prefix_cons_inj _).mpr hfront
      · obtain ⟨hcalls, hempty⟩ :=
          hall fun call hcall ↦ hzero call (List.mem_cons_of_mem _ hcall)
        rw [List.map_cons, List.map_cons, hcalls]
        exact ⟨rfl, hempty⟩

/-- With distinct sequence numbers the rounds of a drain have nothing to choose. Assumes: rows of
the peer with distinct sequence numbers. -/
theorem drainPicksOldest_of_distinct (fuel : ℕ) :
    ∀ {rounds : ℕ → DrainRound} {db : QueueTable},
      (∀ first ∈ db.rows, ∀ second ∈ db.rows, first.2.isTo toPk = true →
        second.2.isTo toPk = true → first.2.sequence = second.2.sequence → first = second) →
      DrainPicksOldest toPk fuel rounds db := by
  induction fuel with
  | zero =>
    intro rounds db _
    exact trivial
  | succ fuel ih =>
    intro rounds db hdistinct
    refine ⟨PopEnv.picksOldest_of_distinct hdistinct (rounds 0).pop, ?_⟩
    intro row _
    refine ih ?_
    intro first hfirst second hsecond
    exact hdistinct first (Table.mem_delete.mp hfirst).1 second (Table.mem_delete.mp hsecond).1

end Backlog

end KoeCore
