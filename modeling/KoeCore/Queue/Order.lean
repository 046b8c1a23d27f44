import KoeCore.Queue.History
import Mathlib.Data.List.Sort

/-!
# The order in which packets are handed out

The order of a pop is that of the sequence numbers, and a sequence number is the second in which
its packet was pushed. Packets of one second are therefore handed out in whatever order the database
returns them in.

`InOrder` is the invariant of runs in which the database returns, of the rows of one second, the one
that was pushed first (`PicksOldest`): along the ids the sequence numbers do not decrease, and every
id that was handed out to a peer is below those that the peer still has in the table. From it
`koeQueue_fifo` follows. Where no two packets of a peer are of one second the database has no choice
(`PopEnv.picksOldest_of_distinct`).
-/

set_option autoImplicit false
set_option relaxedAutoImplicit false

namespace KoeCore

open ByteWire RowTable

/-! ### What the database may choose -/

/-- The row that a pop selects is the first pushed of those with its sequence number. -/
def PopEnv.PicksOldest (env : PopEnv) (db : QueueTable) (toPk : Block 32) : Prop :=
  ∀ row, selected env db toPk = some row → ∀ other ∈ db.rows, other.2.isTo toPk = true →
    other.2.sequence = row.2.sequence → row.1 ≤ other.1

/-- So are the rows that the rounds of a drain select. -/
def DrainPicksOldest (toPk : Block 32) : ℕ → (ℕ → DrainRound) → QueueTable → Prop
  | 0, _, _ => True
  | fuel + 1, rounds, db => (rounds 0).pop.PicksOldest db toPk ∧
      ∀ row, selected (rounds 0).pop db toPk = some row →
        DrainPicksOldest toPk fuel (fun i ↦ rounds (i + 1)) (db.delete row.1)

/-- The call hands out packets of one second in the order in which they were pushed. -/
def PicksOldest (history : QueueHistory) : QueueCall → Prop
  | .push _ _ => True
  | .pop env toPk _ => env.PicksOldest history.db toPk
  | .drain rounds toPk =>
    DrainPicksOldest toPk (history.db.countWhere (QueuedRow.isTo toPk) + 1) rounds history.db
  | .expire _ => True

/-- The reading of the clock that a push takes. -/
def QueueCall.reading : QueueCall → Option ℤ
  | .push env _ => if env.bufAlloc then some env.now else none
  | .pop _ _ _ => none
  | .drain _ _ => none
  | .expire _ => none

/-- With distinct sequence numbers there is nothing to choose. Assumes: rows of the peer with
distinct sequence numbers. -/
theorem PopEnv.picksOldest_of_distinct {db : QueueTable} {toPk : Block 32}
    (hdistinct : ∀ first ∈ db.rows, ∀ second ∈ db.rows, first.2.isTo toPk = true →
      second.2.isTo toPk = true → first.2.sequence = second.2.sequence → first = second)
    (env : PopEnv) : env.PicksOldest db toPk := by
  intro row hselected other hother hto hsequence
  obtain ⟨hrow, hrowTo⟩ := Table.mem_of_selectMin hselected
  rw [hdistinct other hother row hrow hto hrowTo hsequence]

namespace QueueHistory

/-! ### First in, first out -/

/-- The ids that were handed out to a peer, oldest first. -/
def handedTo (history : QueueHistory) (toPk : Block 32) : List ℕ :=
  (history.handed.filter fun out ↦ out.1 == toPk).map Prod.snd

/-- The ids under which packets to a peer were pushed, oldest first. -/
def pushedTo (history : QueueHistory) (toPk : Block 32) : List ℕ :=
  (history.pushed.filter fun push ↦ push.2.header.toPk == toPk).map Prod.fst

/-- Packets to a peer are handed out in the order in which they were pushed, with none, some or all
of them left out. -/
def Fifo (history : QueueHistory) : Prop :=
  ∀ toPk, (history.handedTo toPk).Sublist (history.pushedTo toPk)

/-- The order along a run: the rows do not get older with increasing ids, what was handed out to a
peer was pushed to it before everything that it still has in the table, and is in the order of its
ids. -/
structure InOrder (history : QueueHistory) : Prop where
  recorded : history.Recorded
  monotone : ∀ first ∈ history.db.rows, ∀ second ∈ history.db.rows, first.1 ≤ second.1 →
    first.2.sequence ≤ second.2.sequence
  ahead : ∀ out ∈ history.handed, ∀ row ∈ history.db.rows, row.2.isTo out.1 = true → out.2 < row.1
  known : ∀ out ∈ history.handed, ∃ pkt, (out.2, pkt) ∈ history.pushed ∧ pkt.header.toPk = out.1
  ordered : history.handed.Pairwise fun first second ↦ first.1 = second.1 → first.2 < second.2

section Order

variable {history : QueueHistory}

/-- Assumes: a history in order. -/
theorem InOrder.fifo (horder : InOrder history) : history.Fifo := by
  intro toPk
  have hpushed : (history.pushedTo toPk).Pairwise (· < ·) :=
    horder.recorded.increasing.sublist (List.filter_sublist.map Prod.fst)
  have hhanded : (history.handedTo toPk).Pairwise (· < ·) := by
    rw [handedTo, List.pairwise_map, List.pairwise_filter]
    refine horder.ordered.imp ?_
    intro first second hlt hfirst hsecond
    exact hlt ((eq_of_beq hfirst).trans (eq_of_beq hsecond).symm)
  have hsubset : history.handedTo toPk ⊆ history.pushedTo toPk := by
    intro id hid
    obtain ⟨out, hout, rfl⟩ := List.mem_map.mp hid
    obtain ⟨hmem, hto⟩ := List.mem_filter.mp hout
    obtain ⟨pkt, hpkt, hpeer⟩ := horder.known out hmem
    have hfilter : (out.2, pkt) ∈ history.pushed.filter fun push ↦ push.2.header.toPk == toPk := by
      refine List.mem_filter.mpr ⟨hpkt, ?_⟩
      rw [hpeer]
      exact hto
    exact List.mem_map_of_mem hfilter
  exact List.sublist_of_subperm_of_pairwise (List.subperm_of_subset hhanded.nodup hsubset) hhanded
    hpushed

theorem inOrder_start (maxPerPeer : ℤ) : InOrder (start maxPerPeer) where
  recorded := recorded_start maxPerPeer
  monotone := fun _ hfirst ↦ absurd hfirst List.not_mem_nil
  ahead := fun _ hout ↦ absurd hout List.not_mem_nil
  known := fun _ hout ↦ absurd hout List.not_mem_nil
  ordered := List.Pairwise.nil

/-- Taking rows out of the table keeps the order. Assumes: a history in order, the same logs, and
rows that were all in the table before. -/
theorem InOrder.of_subset {next : QueueHistory} (horder : InOrder history)
    (hpushed : next.pushed = history.pushed) (hhanded : next.handed = history.handed)
    (hseq : next.db.seq = history.db.seq) (hrows : next.db.rows ⊆ history.db.rows) :
    InOrder next where
  recorded := horder.recorded.of_subset hpushed hseq hrows
  monotone := fun first hfirst second hsecond ↦
    horder.monotone first (hrows hfirst) second (hrows hsecond)
  ahead := by
    rw [hhanded]
    exact fun out hout row hrow ↦ horder.ahead out hout row (hrows hrow)
  known := by
    rw [hpushed, hhanded]
    exact horder.known
  ordered := hhanded ▸ horder.ordered

/-- Storing a packet keeps the order. Assumes: a history in order, and a clock that is not behind
the rows of the table. -/
theorem InOrder.insert (horder : InOrder history) {now : ℤ}
    (hclock : ∀ row ∈ history.db.rows, row.2.sequence ≤ now) (pkt : Packet) :
    InOrder { history with
      db := history.db.insert (queuedRow now pkt)
      pushed := history.pushed ++ [(history.db.seq + 1, pkt)] } where
  recorded := horder.recorded.insert now pkt
  monotone := by
    intro first hfirst second hsecond hle
    rcases List.mem_append.mp hfirst with hfirst | hfirst
    · rcases List.mem_append.mp hsecond with hsecond | hsecond
      · exact horder.monotone first hfirst second hsecond hle
      · rw [List.mem_singleton.mp hsecond]
        exact hclock first hfirst
    · rcases List.mem_append.mp hsecond with hsecond | hsecond
      · -- The new id is above all others.
        rw [List.mem_singleton.mp hfirst] at hle
        have hbounded := history.db.bounded second hsecond
        exact absurd hle (by omega)
      · rw [List.mem_singleton.mp hfirst, List.mem_singleton.mp hsecond]
  ahead := by
    intro out hout row hrow hto
    rcases List.mem_append.mp hrow with hold | hnew
    · exact horder.ahead out hout row hold hto
    · obtain ⟨packet, hpacket, -⟩ := horder.known out hout
      have hbounded := horder.recorded.bounded _ hpacket
      rw [List.mem_singleton.mp hnew]
      exact Nat.lt_succ_of_le hbounded
  known := by
    intro out hout
    obtain ⟨packet, hpacket, hpeer⟩ := horder.known out hout
    exact ⟨packet, List.mem_append_left _ hpacket, hpeer⟩
  ordered := horder.ordered

/-- The selected row was pushed before every other row of the peer. Assumes: a history in order, and
a pop that selects the first pushed of the rows with its sequence number. -/
theorem InOrder.selected_le (horder : InOrder history) {env : PopEnv} {toPk : Block 32}
    (hpicks : env.PicksOldest history.db toPk) {row : ℕ × QueuedRow}
    (hselected : selected env history.db toPk = some row) {other : ℕ × QueuedRow}
    (hother : other ∈ history.db.rows) (hto : other.2.isTo toPk = true) : row.1 ≤ other.1 := by
  have hle := Table.order_le_of_selectMin hselected hother hto
  by_contra hlater
  have hback := horder.monotone other hother row (Table.mem_of_selectMin hselected).1
    (Nat.le_of_not_le hlater)
  exact hlater (hpicks row hselected other hother hto (le_antisymm hback hle))

/-- Handing out a row keeps the order. Assumes: a history in order, and a pop that selects the first
pushed of the rows with its sequence number. -/
theorem InOrder.handOut (horder : InOrder history) {env : PopEnv} {toPk : Block 32}
    (hpicks : env.PicksOldest history.db toPk) {id : ℕ} {row : QueuedRow}
    (hselected : selected env history.db toPk = some (id, row)) :
    InOrder { history with
      db := history.db.delete id
      handed := history.handed ++ [(toPk, id)] } := by
  obtain ⟨hrow, hto⟩ := Table.mem_of_selectMin hselected
  have hrest : InOrder { history with db := history.db.delete id } :=
    horder.of_subset rfl rfl rfl (List.filter_subset_self _)
  obtain ⟨now, pkt, hpushed, hstored⟩ := horder.recorded.stored _ hrow
  have hpeer : pkt.header.toPk = toPk := by
    rw [show row = queuedRow now pkt from hstored] at hto
    exact eq_of_beq hto
  refine ⟨hrest.recorded.of_subset rfl rfl (List.Subset.refl _), hrest.monotone, ?_, ?_, ?_⟩
  · intro out hout other hother hotherTo
    rcases List.mem_append.mp hout with hold | hnew
    · exact hrest.ahead out hold other hother hotherTo
    · obtain ⟨hmem, hne⟩ := Table.mem_delete.mp hother
      rw [List.mem_singleton.mp hnew] at hotherTo ⊢
      exact Nat.lt_of_le_of_ne (horder.selected_le hpicks hselected hmem hotherTo) hne.symm
  · intro out hout
    rcases List.mem_append.mp hout with hold | hnew
    · exact horder.known out hold
    · rw [List.mem_singleton.mp hnew]
      exact ⟨pkt, hpushed, hpeer⟩
  · rw [List.pairwise_append]
    refine ⟨horder.ordered, List.pairwise_singleton _ _, ?_⟩
    intro out hout new hnew hsame
    rw [List.mem_singleton.mp hnew] at hsame ⊢
    exact horder.ahead out hout _ hrow (hsame ▸ hto)

/-- A drain keeps the order. Assumes: rounds that select the first pushed of the rows with one
sequence number, and a history in order. -/
theorem InOrder.drain (toPk : Block 32) (fuel : ℕ) :
    ∀ {rounds : ℕ → DrainRound} {history : QueueHistory} (pkt : Packet),
      DrainPicksOldest toPk fuel rounds history.db → InOrder history →
        InOrder { history with
          db := (drainLoop toPk rounds fuel history.db pkt).db
          handed := history.handed ++
            (drainLoop toPk rounds fuel history.db pkt).calls.map fun call ↦ (toPk, call.1) } := by
  induction fuel with
  | zero =>
    intro rounds history pkt _ horder
    exact horder.of_subset rfl (List.append_nil _) rfl (List.Subset.refl _)
  | succ fuel ih =>
    intro rounds history pkt hpicks horder
    rcases drainLoop_cases toPk rounds fuel history.db pkt with
      ⟨-, hloop⟩ | ⟨id, row, hselected, ⟨-, hloop⟩ | ⟨-, -, hloop⟩ | ⟨-, -, hloop⟩⟩
    · rw [hloop]
      exact horder.of_subset rfl (List.append_nil _) rfl (List.Subset.refl _)
    · rw [hloop]
      exact horder.of_subset rfl (List.append_nil _) rfl (List.filter_subset_self _)
    · rw [hloop]
      exact horder.handOut hpicks.1 hselected
    · rw [hloop]
      have hnext := ih (koePacketFree (koeQueuePop (rounds 0).pop history.db toPk pkt).2.1)
        (hpicks.2 _ hselected) (horder.handOut hpicks.1 hselected)
      refine hnext.of_subset rfl ?_ rfl (List.Subset.refl _)
      simp only [List.map_cons, List.append_assoc, List.cons_append, List.nil_append]

/-! ### Runs -/

/-- A call keeps the order. Assumes: a history in order, a call that hands out packets of one second
in order, and a reading of the clock that is not behind the rows of the table. -/
theorem inOrder_step (horder : InOrder history) {call : QueueCall}
    (hpicks : PicksOldest history call)
    (hclock : ∀ now, call.reading = some now → ∀ row ∈ history.db.rows, row.2.sequence ≤ now) :
    InOrder (history.step call) := by
  cases call with
  | push env pkt =>
    obtain ⟨room, hseq, hrows, hstep | ⟨halloc, hstep⟩⟩ := history.step_push_cases env pkt
    · rw [hstep]
      exact horder.of_subset rfl rfl hseq hrows
    · have hroom : InOrder { history with db := room } := horder.of_subset rfl rfl hseq hrows
      have hnow := hclock env.now (by simp [QueueCall.reading, halloc])
      rw [hstep]
      exact hroom.insert (fun row hrow ↦ hnow row (hrows hrow)) pkt
  | pop env toPk pktOut =>
    rcases hselected : selected env history.db toPk with _ | ⟨id, row⟩
    · have hstep : history.step (.pop env toPk pktOut) = history := by
        simp [step, koeQueuePop_none hselected]
      rw [hstep]
      exact horder
    · have hdb := koeQueuePop_deletes hselected pktOut
      by_cases hrc : (koeQueuePop env history.db toPk pktOut).1 = 0
      · have hstep : history.step (.pop env toPk pktOut) =
            { history with
              db := history.db.delete id
              handed := history.handed ++ [(toPk, id)] } := by
          simp only [step, if_pos hrc, hdb, hselected]
          rfl
        rw [hstep]
        exact horder.handOut hpicks hselected
      · have hstep : history.step (.pop env toPk pktOut) =
            { history with db := history.db.delete id } := by
          simp only [step, if_neg hrc, hdb]
        rw [hstep]
        exact horder.of_subset rfl rfl rfl (List.filter_subset_self _)
  | drain rounds toPk => exact horder.drain toPk _ Packet.zero hpicks
  | expire now => exact horder.of_subset rfl rfl rfl (List.filter_subset_self _)

end Order

/-- A row is in the table from before, or it is that of the push whose reading of the clock it has
for a sequence number. Assumes: a row after the call. -/
theorem mem_rows_step {history : QueueHistory} {call : QueueCall} {row : ℕ × QueuedRow}
    (hrow : row ∈ (history.step call).db.rows) :
    row ∈ history.db.rows ∨ call.reading = some row.2.sequence := by
  by_cases hpush : ∃ env pkt, call = .push env pkt
  · obtain ⟨env, pkt, rfl⟩ := hpush
    obtain ⟨room, -, hrows, hstep | ⟨halloc, hstep⟩⟩ := history.step_push_cases env pkt
    · rw [hstep] at hrow
      exact Or.inl (hrows hrow)
    · rw [hstep] at hrow
      rcases List.mem_append.mp hrow with hold | hnew
      · exact Or.inl (hrows hold)
      · rw [List.mem_singleton.mp hnew, QueueCall.reading, if_pos halloc]
        exact Or.inr rfl
  · exact Or.inl ((history.step_other fun env pkt hother ↦ hpush ⟨env, pkt, hother⟩).2.2 hrow)

/-- A run keeps the order. Assumes: a history in order, calls that hand out packets of one second in
order, and readings of the clock that do not decrease and are not behind the rows of the table. -/
theorem inOrder_run (calls : List QueueCall) :
    ∀ {history : QueueHistory}, InOrder history → Runs.AllSteps step PicksOldest history calls →
      (calls.filterMap QueueCall.reading).Pairwise (· ≤ ·) →
      (∀ row ∈ history.db.rows, ∀ now ∈ calls.filterMap QueueCall.reading,
        row.2.sequence ≤ now) →
        InOrder (calls.foldl step history) := by
  induction calls with
  | nil =>
    intro history horder _ _ _
    exact horder
  | cons call calls ih =>
    intro history horder hpicks hclock hrows
    have hfirst (now : ℤ) (hnow : call.reading = some now) :
        now ∈ (call :: calls).filterMap QueueCall.reading ∧
          ∀ later ∈ calls.filterMap QueueCall.reading, now ≤ later := by
      rw [List.filterMap_cons_some hnow] at hclock ⊢
      exact ⟨List.mem_cons_self, fun _ hlater ↦ List.rel_of_pairwise_cons hclock hlater⟩
    have hlater : (calls.filterMap QueueCall.reading).Sublist
        ((call :: calls).filterMap QueueCall.reading) :=
      (List.sublist_cons_self call calls).filterMap _
    refine ih (inOrder_step horder hpicks.1 ?_) hpicks.2 (hclock.sublist hlater) ?_
    · intro now hnow row hrow
      exact hrows row hrow now (hfirst now hnow).1
    · intro row hrow later hmem
      rcases mem_rows_step hrow with hold | hnew
      · exact hrows row hold later (hlater.subset hmem)
      · exact (hfirst _ hnew).2 later hmem

end QueueHistory

/-- Over every run in which the clock does not run backwards, packets are handed out to each peer in
the order in which they were pushed, as long as the database returns packets of one second in that
order. Assumes: readings of the clock that do not decrease, and calls that hand out packets of one
second in order. -/
theorem koeQueue_fifo {front back : List QueueCall} {maxPerPeer : ℤ}
    (hclock : ((front ++ back).filterMap QueueCall.reading).Pairwise (· ≤ ·))
    (hpicks : Runs.AllSteps QueueHistory.step PicksOldest (QueueHistory.start maxPerPeer)
      (front ++ back)) :
    (front.foldl QueueHistory.step (QueueHistory.start maxPerPeer)).Fifo := by
  have hfront : (front.filterMap QueueCall.reading).Pairwise (· ≤ ·) := by
    rw [List.filterMap_append] at hclock
    exact hclock.sublist (List.sublist_append_left _ _)
  have hempty : ∀ row ∈ (QueueHistory.start maxPerPeer).db.rows,
      ∀ now ∈ front.filterMap QueueCall.reading, row.2.sequence ≤ now :=
    fun _ hrow ↦ absurd hrow List.not_mem_nil
  exact (QueueHistory.inOrder_run front (QueueHistory.inOrder_start maxPerPeer) hpicks.front hfront
    hempty).fifo

/-- A PING is queued at the given second. -/
def pushPingAt (now : ℤ) : QueueCall :=
  .push ⟨.effective, ⟨true, true, 0⟩, true, now, true⟩ (koePacketInit PacketType.ping.code 0)

/-- A packet to the same peer is popped, and the database returns the given one of the oldest. -/
def popPing (tie : ℕ) : QueueCall := .pop ⟨true, true, tie⟩ (Block.zero 32) Packet.zero

/-- Two packets of different seconds come out in order, whatever the database does. -/
theorem koeQueue_fifo_seconds :
    ([pushPingAt 0, pushPingAt 1, popPing 1].foldl QueueHistory.step
      (QueueHistory.start 512)).Fifo := by
  have hdistinct : ∀ first ∈ ([pushPingAt 0, pushPingAt 1].foldl QueueHistory.step
        (QueueHistory.start 512)).db.rows,
      ∀ second ∈ ([pushPingAt 0, pushPingAt 1].foldl QueueHistory.step
        (QueueHistory.start 512)).db.rows,
      first.2.isTo (Block.zero 32) = true → second.2.isTo (Block.zero 32) = true →
        first.2.sequence = second.2.sequence → first = second := by
    decide +kernel
  have hpicks : Runs.AllSteps QueueHistory.step PicksOldest (QueueHistory.start 512)
      ([pushPingAt 0, pushPingAt 1, popPing 1] ++ []) :=
    ⟨trivial, trivial, PopEnv.picksOldest_of_distinct hdistinct ⟨true, true, 1⟩, trivial⟩
  exact koeQueue_fifo (by decide) hpicks

/-- Two packets are queued within one second, and the first pop returns the second of them. -/
theorem koeQueue_reorders_one_second :
    let calls := [pushPingAt 0, pushPingAt 0, popPing 1, popPing 0]
    let history := calls.foldl QueueHistory.step (QueueHistory.start 512)
    (calls.filterMap QueueCall.reading).Pairwise (· ≤ ·) ∧
      history.pushedTo (Block.zero 32) = [1, 2] ∧ history.handedTo (Block.zero 32) = [2, 1] ∧
      ¬ history.Fifo := by
  intro calls history
  have hpushed : history.pushedTo (Block.zero 32) = [1, 2] := by decide +kernel
  have hhanded : history.handedTo (Block.zero 32) = [2, 1] := by decide +kernel
  refine ⟨by decide, hpushed, hhanded, fun hfifo ↦ ?_⟩
  have hsublist := hfifo (Block.zero 32)
  rw [hpushed, hhanded] at hsublist
  exact absurd hsublist (by decide)

end KoeCore
