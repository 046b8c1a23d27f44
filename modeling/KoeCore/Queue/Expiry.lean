import KoeCore.Library.Runs
import KoeCore.Queue.Order

/-!
# Packets past their time

A push gives its row the time `queued_at + KOE_QUEUE_TTL_SECONDS` after which the packet is not to
be delivered. Only `koe_queue_expire` reads it: a pop selects the row with the smallest sequence
number, expired or not, and a drain is a loop of such pops.

Here the calls of a run have the times at which they hand out packets (`TimedCall`), and the log of
pushes has the time of each (`DatedHistory`). A run hands out no expired packet exactly when at each
hand-out nothing of the peer that is still queued has expired (`koeQueue_timely_iff`), since the row
that is handed out is the one that expires first (`OldestFirst.oldest`). Nothing in the queue makes
that so; a caller gets it by calling `koe_queue_expire` in the same second (`fresh_after_expire`).
-/

set_option autoImplicit false
set_option relaxedAutoImplicit false

namespace KoeCore

open ByteWire RowTable

/-! ### The order in which rows are handed out -/

/-- The ids are those of rows of the peer that pops select and delete one after another. -/
inductive OldestFirst (toPk : Block 32) : QueueTable → List ℕ → Prop
  | nil (db : QueueTable) : OldestFirst toPk db []
  | cons {env : PopEnv} {db : QueueTable} {id : ℕ} {row : QueuedRow} {ids : List ℕ} :
    selected env db toPk = some (id, row) → OldestFirst toPk (db.delete id) ids →
      OldestFirst toPk db (id :: ids)

/-- Each id is that of a row with the smallest sequence number among the rows of the peer that are
not handed out before. Assumes: pops that took out these ids in turn. -/
theorem OldestFirst.oldest {toPk : Block 32} {db : QueueTable} {ids : List ℕ}
    (hids : OldestFirst toPk db ids) :
    ∀ {i id : ℕ}, ids[i]? = some id →
      ∃ row, (id, row) ∈ db.rows ∧ row.isTo toPk = true ∧ id ∉ ids.take i ∧
        ∀ other ∈ db.rows, other.2.isTo toPk = true → other.1 ∉ ids.take i →
          row.sequence ≤ other.2.sequence := by
  induction hids with
  | nil db =>
    intro i id hid
    exact absurd hid (by simp)
  | @cons env db first row ids hselected hrest ih =>
    intro i id hid
    rcases i with _ | i
    · obtain rfl : first = id := Option.some.inj hid
      obtain ⟨hmem, hto⟩ := Table.mem_of_selectMin hselected
      refine ⟨row, hmem, hto, List.not_mem_nil, ?_⟩
      intro other hother hotherTo _
      exact Table.order_le_of_selectMin hselected hother hotherTo
    · have hlater : ids[i]? = some id := hid
      obtain ⟨found, hmem, hto, hnew, hleast⟩ := ih hlater
      obtain ⟨hold, hne⟩ := Table.mem_delete.mp hmem
      refine ⟨found, hold, hto, ?_, ?_⟩
      · rw [List.take_succ_cons, List.mem_cons, not_or]
        exact ⟨hne, hnew⟩
      · intro other hother hotherTo hleft
        rw [List.take_succ_cons, List.mem_cons, not_or] at hleft
        exact hleast other (Table.mem_delete.mpr ⟨hother, hleft.1⟩) hotherTo hleft.2

theorem oldestFirst_drainLoop (toPk : Block 32) (fuel : ℕ) :
    ∀ (rounds : ℕ → DrainRound) (db : QueueTable) (pkt : Packet),
      OldestFirst toPk db ((drainLoop toPk rounds fuel db pkt).calls.map Prod.fst) := by
  induction fuel with
  | zero =>
    intro rounds db pkt
    exact OldestFirst.nil db
  | succ fuel ih =>
    intro rounds db pkt
    rcases drainLoop_cases toPk rounds fuel db pkt with
      ⟨-, hloop⟩ | ⟨id, row, hselected, ⟨-, hloop⟩ | ⟨-, -, hloop⟩ | ⟨-, -, hloop⟩⟩
    · rw [hloop]
      exact OldestFirst.nil db
    · rw [hloop]
      exact OldestFirst.nil db
    · rw [hloop]
      exact OldestFirst.cons hselected (OldestFirst.nil _)
    · rw [hloop]
      exact OldestFirst.cons hselected (ih _ _ _)

/-! ### Runs with a clock -/

/-- A call, and the time at which it hands out its packets: `clock i` is that of the packet with
index `i`. A push and an expire have their time in the call. -/
structure TimedCall where
  call : QueueCall
  clock : ℕ → ℤ

namespace QueueHistory

/-- The ids that a call hands out. -/
def handedBy (history : QueueHistory) : QueueCall → List ℕ
  | .pop env toPk pktOut =>
    if (koeQueuePop env history.db toPk pktOut).1 = 0 then
      ((selected env history.db toPk).map Prod.fst).toList
    else []
  | .drain rounds toPk => (koeQueueDrain rounds history.db toPk).calls.map Prod.fst
  | .push _ _ => []
  | .expire _ => []

/-- The rows of the peer that a call hands out packets to. -/
def peerRows (history : QueueHistory) : QueueCall → List (ℕ × QueuedRow)
  | .pop _ toPk _ => history.db.rows.filter fun row ↦ row.2.isTo toPk
  | .drain _ toPk => history.db.rows.filter fun row ↦ row.2.isTo toPk
  | .push _ _ => []
  | .expire _ => []

/-- What a call hands out is the oldest of what the peer has left. Assumes: the id at this position
of the hand-outs. -/
theorem handedBy_oldest (history : QueueHistory) {call : QueueCall} {i id : ℕ}
    (hid : (history.handedBy call)[i]? = some id) :
    ∃ row, (id, row) ∈ history.peerRows call ∧ id ∉ (history.handedBy call).take i ∧
      ∀ other ∈ history.peerRows call, other.1 ∉ (history.handedBy call).take i →
        row.sequence ≤ other.2.sequence := by
  -- Both kinds of call read the rows of one peer, and take them out in turn.
  obtain ⟨toPk, hturn, hpeer⟩ : ∃ toPk, OldestFirst toPk history.db (history.handedBy call) ∧
      history.peerRows call = history.db.rows.filter fun row ↦ row.2.isTo toPk := by
    cases call with
    | push env pkt => exact absurd hid (by simp [handedBy])
    | pop env toPk pktOut =>
      refine ⟨toPk, ?_, rfl⟩
      rw [handedBy]
      split_ifs with hrc
      · rcases hselected : selected env history.db toPk with _ | ⟨first, row⟩
        · exact OldestFirst.nil _
        · exact OldestFirst.cons hselected (OldestFirst.nil _)
      · exact OldestFirst.nil _
    | drain rounds toPk =>
      exact ⟨toPk, oldestFirst_drainLoop toPk _ rounds history.db Packet.zero, rfl⟩
    | expire now => exact absurd hid (by simp [handedBy])
  obtain ⟨row, hmem, hto, hnew, hleast⟩ := hturn.oldest hid
  rw [hpeer]
  refine ⟨row, List.mem_filter.mpr ⟨hmem, hto⟩, hnew, ?_⟩
  intro other hother
  obtain ⟨hother, hotherTo⟩ := List.mem_filter.mp hother
  exact hleast other hother hotherTo

end QueueHistory

/-- A history, with the ids that pushes returned and the time of each. -/
structure DatedHistory where
  history : QueueHistory
  pushedAt : List (ℕ × ℤ)

namespace DatedHistory

/-- The start of a run. -/
def start (maxPerPeer : ℤ) : DatedHistory := ⟨QueueHistory.start maxPerPeer, []⟩

/-- A push is logged with the clock that it reads. -/
def step (dated : DatedHistory) (timed : TimedCall) : DatedHistory where
  history := dated.history.step timed.call
  pushedAt :=
    match timed.call with
    | .push env pkt =>
      let pushed := koeQueuePush env dated.history.maxPerPeer dated.history.db pkt
      if 0 ≤ pushed.1 then dated.pushedAt ++ [(pushed.1.toNat, env.now)] else dated.pushedAt
    | _ => dated.pushedAt

/-- Every packet that the call hands out is handed out before its time is up. -/
def Timely (dated : DatedHistory) (timed : TimedCall) : Prop :=
  ∀ i id pushTime, (dated.history.handedBy timed.call)[i]? = some id →
    (id, pushTime) ∈ dated.pushedAt → timed.clock i < pushTime + koeQueueTtlSeconds

/-- Whenever the call hands out a packet, none of the rows that the peer has left is expired. -/
def Fresh (dated : DatedHistory) (timed : TimedCall) : Prop :=
  ∀ i < (dated.history.handedBy timed.call).length, ∀ row ∈ dated.history.peerRows timed.call,
    row.1 ∉ (dated.history.handedBy timed.call).take i → timed.clock i < row.2.expiresAt

/-! ### The log -/

/-- The log has the ids of the pushes, and every row of the table has the time of its push. -/
structure Dated (dated : DatedHistory) : Prop where
  recorded : dated.history.Recorded
  ids : dated.pushedAt.map Prod.fst = dated.history.pushed.map Prod.fst
  logged : ∀ row ∈ dated.history.db.rows, (row.1, row.2.sequence) ∈ dated.pushedAt

theorem dated_start (maxPerPeer : ℤ) : Dated (start maxPerPeer) where
  recorded := QueueHistory.recorded_start maxPerPeer
  ids := rfl
  logged := fun _ hrow ↦ absurd hrow List.not_mem_nil

/-- Assumes: a log of which no two pushes have one id. -/
theorem Dated.time_eq {dated : DatedHistory} (hdated : Dated dated) {id : ℕ} {first second : ℤ}
    (hfirst : (id, first) ∈ dated.pushedAt) (hsecond : (id, second) ∈ dated.pushedAt) :
    first = second := by
  have hnodup : (dated.pushedAt.map Prod.fst).Nodup := by
    rw [hdated.ids]
    exact hdated.recorded.increasing.nodup
  exact (Prod.mk.inj (List.inj_on_of_nodup_map hnodup hfirst hsecond rfl)).2

/-- Assumes: a row of the table. -/
theorem Dated.expiresAt_eq {dated : DatedHistory} (hdated : Dated dated) {row : ℕ × QueuedRow}
    (hrow : row ∈ dated.history.db.rows) :
    row.2.expiresAt = row.2.sequence + koeQueueTtlSeconds := by
  obtain ⟨now, pkt, -, hstored⟩ := hdated.recorded.stored row hrow
  rw [hstored]
  rfl

/-- Assumes: a dated log. -/
theorem dated_step {dated : DatedHistory} (hdated : Dated dated) (timed : TimedCall) :
    Dated (dated.step timed) := by
  have hrecorded := QueueHistory.recorded_step hdated.recorded timed.call
  obtain ⟨call, clock⟩ := timed
  by_cases hpush : ∃ env pkt, call = .push env pkt
  · obtain ⟨env, pkt, rfl⟩ := hpush
    obtain ⟨hseq, hrows⟩ := makeRoom_keeps env dated.history.maxPerPeer dated.history.db
      pkt.header.toPk
    rcases koeQueuePush_cases env dated.history.maxPerPeer dated.history.db pkt with
      ⟨-, hpush⟩ | ⟨-, hpush⟩
    · have hid : (0 : ℤ) ≤ ((dated.history.db.seq + 1 : ℕ) : ℤ) := Int.natCast_nonneg _
      have hlog : (dated.step ⟨.push env pkt, clock⟩).pushedAt =
          dated.pushedAt ++ [(dated.history.db.seq + 1, env.now)] := by
        simp only [step, hpush, if_pos hid, Int.toNat_natCast]
      refine ⟨hrecorded, ?_, ?_⟩
      · rw [hlog]
        simp only [step, QueueHistory.step, hpush, if_pos hid, Int.toNat_natCast, List.map_append,
          hdated.ids, List.map_cons, List.map_nil]
      · intro row hrow
        rw [hlog]
        simp only [step, QueueHistory.step, hpush] at hrow
        rcases List.mem_append.mp hrow with hold | hnew
        · exact List.mem_append_left _ (hdated.logged row (hrows hold))
        · rw [List.mem_singleton.mp hnew, hseq]
          exact List.mem_append_right _ (List.mem_singleton.mpr rfl)
    · have hnone : ¬ (0 : ℤ) ≤ -1 := by decide
      refine ⟨hrecorded, ?_, ?_⟩
      · simp only [step, QueueHistory.step, hpush, if_neg hnone]
        exact hdated.ids
      · intro row hrow
        simp only [step, QueueHistory.step, hpush, if_neg hnone] at hrow ⊢
        exact hdated.logged row (hrows hrow)
  · have hother (env : PushEnv) (pkt : Packet) : call ≠ .push env pkt :=
      fun hcall ↦ hpush ⟨env, pkt, hcall⟩
    obtain ⟨hpushed, -, hrows⟩ := dated.history.step_other hother
    have hlog : (dated.step ⟨call, clock⟩).pushedAt = dated.pushedAt := by
      cases call with
      | push env pkt => exact absurd rfl (hother env pkt)
      | pop env toPk pktOut => rfl
      | drain rounds toPk => rfl
      | expire now => rfl
    refine ⟨hrecorded, ?_, ?_⟩
    · rw [hlog, hdated.ids]
      exact congrArg _ hpushed.symm
    · rw [hlog]
      exact fun row hrow ↦ hdated.logged row (hrows hrow)

/-! ### When hand-outs are in time -/

theorem mem_rows_of_mem_peerRows {history : QueueHistory} {call : QueueCall} {row : ℕ × QueuedRow}
    (hrow : row ∈ history.peerRows call) : row ∈ history.db.rows := by
  cases call with
  | push env pkt => exact absurd hrow List.not_mem_nil
  | pop env toPk pktOut => exact (List.mem_filter.mp hrow).1
  | drain rounds toPk => exact (List.mem_filter.mp hrow).1
  | expire now => exact absurd hrow List.not_mem_nil

/-- A call is in time exactly when nothing that the peer has left is expired at its hand-outs, since
the row that is handed out expires first. Assumes: a dated log. -/
theorem Dated.timely_iff_fresh {dated : DatedHistory} (hdated : Dated dated) (timed : TimedCall) :
    Timely dated timed ↔ Fresh dated timed := by
  constructor
  · intro htimely i hi other hother hleft
    obtain ⟨row, hmem, -, hleast⟩ :=
      dated.history.handedBy_oldest (List.getElem?_eq_getElem hi)
    have hlogged := hdated.logged _ (mem_rows_of_mem_peerRows hmem)
    have htime := htimely i _ _ (List.getElem?_eq_getElem hi) hlogged
    have hle := hleast other hother hleft
    rw [hdated.expiresAt_eq (mem_rows_of_mem_peerRows hother)]
    exact lt_of_lt_of_le htime (Int.add_le_add_right hle _)
  · intro hfresh i id pushTime hid hpush
    obtain ⟨row, hmem, hnew, -⟩ := dated.history.handedBy_oldest hid
    have hrow := mem_rows_of_mem_peerRows hmem
    have htime := hfresh i (List.getElem?_eq_some_iff.mp hid).1 _ hmem hnew
    rw [hdated.time_eq hpush (hdated.logged _ hrow)]
    rw [hdated.expiresAt_eq hrow] at htime
    exact htime

/-- What is handed out in the second of an expire that came just before is in time. Assumes: the
call hands out its packets in that second. -/
theorem fresh_after_expire (dated : DatedHistory) {now : ℤ} {timed : TimedCall}
    (hnow : ∀ i, timed.clock i = now) (clock : ℕ → ℤ) :
    Fresh (dated.step ⟨.expire now, clock⟩) timed := by
  intro i _ row hrow _
  obtain ⟨-, hkept⟩ := Table.mem_deleteWhere.mp (mem_rows_of_mem_peerRows hrow)
  rw [hnow i]
  exact lt_of_not_ge fun hexpired ↦ hkept (decide_eq_true hexpired)

end DatedHistory

/-- Over every run, whatever the clock does, no packet is handed out after its time exactly when at
no hand-out of the run an expired packet of the peer is still queued. -/
theorem koeQueue_timely_iff (maxPerPeer : ℤ) (calls : List TimedCall) :
    Runs.AllSteps DatedHistory.step DatedHistory.Timely (DatedHistory.start maxPerPeer) calls ↔
      Runs.AllSteps DatedHistory.step DatedHistory.Fresh (DatedHistory.start maxPerPeer) calls := by
  have hiff (dated : DatedHistory) (timed : TimedCall) (hdated : dated.Dated) :
      dated.Timely timed ↔ dated.Fresh timed := hdated.timely_iff_fresh timed
  have hkeeps (dated : DatedHistory) (timed : TimedCall) (hdated : dated.Dated)
      (_ : dated.Timely timed) : (dated.step timed).Dated := DatedHistory.dated_step hdated timed
  exact Runs.allSteps_iff_of_invariant hiff hkeeps (DatedHistory.dated_start maxPerPeer) calls

/-- A PING is queued at second 0 and popped a week later. -/
theorem koeQueue_pops_expired :
    let dated := DatedHistory.step (DatedHistory.start 512) ⟨pushPingAt 0, fun _ ↦ 0⟩
    let popped := koeQueuePop ⟨true, true, 0⟩ dated.history.db (Block.zero 32) Packet.zero
    dated.pushedAt = [(1, 0)] ∧ popped.1 = 0 ∧ dated.history.handedBy (popPing 0) = [1] ∧
      ¬ DatedHistory.Timely dated ⟨popPing 0, fun _ ↦ koeQueueTtlSeconds⟩ := by
  intro dated popped
  have hpushed : dated.pushedAt = [(1, 0)] := by decide +kernel
  have hhanded : dated.history.handedBy (popPing 0) = [1] := by decide +kernel
  refine ⟨hpushed, by decide +kernel, hhanded, ?_⟩
  intro htimely
  have htime := htimely 0 1 0 (by rw [hhanded]; rfl) (by rw [hpushed]; exact List.mem_cons_self)
  exact absurd htime (by decide)

end KoeCore
