import KoeCore.Library.Runs
import KoeCore.Queue.Store

/-!
# Where queued packets end up

Runs of push, pop, drain and expire over any peers. Next to the table, the state of a run records
the ids that pushes returned and, for every row that left the table in one of the ways a packet may
leave it, how it left: handed out by a pop that returned 0, passed to a `send_fn` call that returned
0, evicted to make room, or expired.

Every id is at exactly one place as long as each step is `Lossless` (`koeQueue_accounted`). Push and
expire always are. A pop or a drain is not when `malloc` fails, when the bytes of the row do not
decode, or when `send_fn` fails: the row is deleted first, and nothing puts it back.

The ids of all places together are conserved by a step, up to a new id (`places_push`,
`places_pop`, `places_drain`, `places_expire`).
-/

set_option autoImplicit false
set_option relaxedAutoImplicit false

namespace KoeCore

open ByteWire RowTable

/-- Where a packet can be: in the table, or gone in one of four ways. -/
inductive Place
  | stored | popped | sent | evicted | expired
deriving DecidableEq

/-- One call of a run. -/
inductive QueueCall
  | push (env : PushEnv) (pkt : Packet)
  | pop (env : PopEnv) (toPk : Block 32) (pktOut : Packet)
  | drain (rounds : ℕ → DrainRound) (toPk : Block 32)
  | expire (now : ℤ)

/-- The queue, the ids that pushes have returned, and the ways that rows have left the table. -/
structure QueueRun where
  db : QueueTable
  maxPerPeer : ℤ
  issued : List ℕ
  left : List (ℕ × Place)

namespace QueueRun

/-- The start of a run on a table that may hold rows already. -/
def start (db : QueueTable) (maxPerPeer : ℤ) : QueueRun := ⟨db, maxPerPeer, [], []⟩

/-- The row that a push evicts. -/
def evicts (run : QueueRun) (env : PushEnv) (pkt : Packet) : Option (ℕ × QueuedRow) :=
  evictedRow env run.maxPerPeer run.db pkt.header.toPk

def step (run : QueueRun) : QueueCall → QueueRun
  | .push env pkt =>
    let pushed := koeQueuePush env run.maxPerPeer run.db pkt
    { run with
      db := pushed.2
      issued := if 0 ≤ pushed.1 then pushed.1.toNat :: run.issued else run.issued
      left := ((run.evicts env pkt).map fun row ↦ (row.1, Place.evicted)).toList ++ run.left }
  | .pop env toPk pktOut =>
    let popped := koeQueuePop env run.db toPk pktOut
    { run with
      db := popped.2.2
      left :=
        if popped.1 = 0 then
          ((selected env run.db toPk).map fun row ↦ (row.1, Place.popped)).toList ++ run.left
        else run.left }
  | .drain rounds toPk =>
    let drained := koeQueueDrain rounds run.db toPk
    { run with
      db := drained.db
      left := ((drained.calls.filter fun call ↦ call.2.2 == 0).map fun call ↦
        (call.1, Place.sent)) ++ run.left }
  | .expire now =>
    { run with
      db := (koeQueueExpire now run.db).2
      left := ((run.db.rows.filter fun row ↦ decide (row.2.expiresAt ≤ now)).map fun row ↦
        (row.1, Place.expired)) ++ run.left }

/-- Every id with each place it is at. -/
def placements (run : QueueRun) : List (ℕ × Place) :=
  (run.db.ids.map fun id ↦ (id, Place.stored)) ++ run.left

/-- The ids of all places. -/
def places (run : QueueRun) : List ℕ := run.db.ids ++ run.left.map Prod.fst

theorem map_fst_placements (run : QueueRun) : run.placements.map Prod.fst = run.places := by
  simp [placements, places, Function.comp_def]

end QueueRun

/-- The bytes of a row decode. -/
def Decodes (alloc : Bool) (bytes : List UInt8) : Prop :=
  (koePacketDeserialise alloc Packet.zero bytes).1 = 0

instance (alloc : Bool) (bytes : List UInt8) : Decidable (Decodes alloc bytes) :=
  inferInstanceAs (Decidable (_ = _))

/-- The return code of the decoder does not depend on what the output packet held. -/
theorem decodes_iff (alloc : Bool) (bytes : List UInt8) (pkt : Packet) :
    (koePacketDeserialise alloc pkt bytes).1 = 0 ↔ Decodes alloc bytes := by
  unfold Decodes
  simp only [koePacketDeserialise]
  split_ifs <;> exact Iff.rfl

/-- Assumes: bytes that decode. -/
theorem Decodes.eq_zero {alloc : Bool} {bytes : List UInt8} (hdecodes : Decodes alloc bytes)
    (pkt : Packet) : (koePacketDeserialise alloc pkt bytes).1 = 0 :=
  (decodes_iff alloc bytes pkt).mpr hdecodes

/-- The rounds of a drain that the rows of the peer call for all go well: the row's bytes are copied
and decode, and `send_fn` returns 0. -/
def RoundsGoWell (rounds : ℕ → DrainRound) (db : QueueTable) (toPk : Block 32) : Prop :=
  ∀ i < db.countWhere (QueuedRow.isTo toPk), (rounds i).pop.rowAlloc = true ∧
    (rounds i).sendRc = 0 ∧ ∀ row ∈ db.rows, row.2.isTo toPk = true →
      Decodes (rounds i).pop.payloadAlloc row.2.packet

/-- The step loses no packet. -/
def Lossless (run : QueueRun) : QueueCall → Prop
  | .push _ _ => True
  | .pop env toPk _ => ∀ row, selected env run.db toPk = some row →
      env.rowAlloc = true ∧ Decodes env.payloadAlloc row.2.packet
  | .drain rounds toPk => RoundsGoWell rounds run.db toPk
  | .expire _ => True

/-! ### What each call does to the places -/

/-- A pop takes the id of the selected row out of the table, and no other. -/
theorem perm_ids_koeQueuePop (env : PopEnv) (db : QueueTable) (toPk : Block 32) (pktOut : Packet) :
    (((selected env db toPk).map Prod.fst).toList ++ (koeQueuePop env db toPk pktOut).2.2.ids).Perm
      db.ids := by
  rcases hselected : selected env db toPk with _ | ⟨id, row⟩
  · rw [koeQueuePop_none hselected]
    exact List.Perm.refl _
  · rw [koeQueuePop_deletes hselected]
    exact Table.perm_ids_delete (Table.mem_of_selectMin hselected).1

/-- Ids that leave the table and are recorded are conserved. Assumes: the ids that left and those
still in the table are together those from before. -/
theorem perm_of_recorded {gone after before : List ℕ} (hperm : (gone ++ after).Perm before)
    (left : List ℕ) : (after ++ (gone ++ left)).Perm (before ++ left) := by
  rw [← List.append_assoc]
  exact (List.perm_append_comm.trans hperm).append_right left

section Places

variable (run : QueueRun)

/-- A pop moves an id. Assumes: the pop loses nothing. -/
theorem places_pop {env : PopEnv} {toPk : Block 32} {pktOut : Packet}
    (hlossless : Lossless run (.pop env toPk pktOut)) :
    (run.step (.pop env toPk pktOut)).places.Perm run.places := by
  have hperm := perm_ids_koeQueuePop env run.db toPk pktOut
  have hrecorded := perm_of_recorded hperm (run.left.map Prod.fst)
  rcases hselected : selected env run.db toPk with _ | row
  · rw [hselected] at hrecorded
    have hplaces : (run.step (.pop env toPk pktOut)).places =
        (koeQueuePop env run.db toPk pktOut).2.2.ids ++ run.left.map Prod.fst := by
      simp [QueueRun.step, QueueRun.places, hselected]
    rw [hplaces]
    exact hrecorded
  · obtain ⟨halloc, hdecodes⟩ := hlossless row hselected
    have hrc : (koeQueuePop env run.db toPk pktOut).1 = 0 :=
      koeQueuePop_eq_zero hselected halloc (hdecodes.eq_zero pktOut)
    rw [hselected] at hrecorded
    have hplaces : (run.step (.pop env toPk pktOut)).places =
        (koeQueuePop env run.db toPk pktOut).2.2.ids ++ ([row.1] ++ run.left.map Prod.fst) := by
      simp [QueueRun.step, QueueRun.places, hselected, hrc]
    rw [hplaces]
    exact hrecorded

/-- Expiry moves ids. -/
theorem places_expire (now : ℤ) : (run.step (.expire now)).places.Perm run.places := by
  have hperm := run.db.perm_ids_deleteWhere fun row ↦ decide (row.2.expiresAt ≤ now)
  have hrecorded := perm_of_recorded (List.perm_append_comm.trans hperm) (run.left.map Prod.fst)
  have hplaces : (run.step (.expire now)).places =
      (run.db.deleteWhere fun row ↦ decide (row.2.expiresAt ≤ now)).ids ++
        ((run.db.rows.filter fun row ↦ decide (row.2.expiresAt ≤ now)).map Prod.fst ++
          run.left.map Prod.fst) := by
    simp [QueueRun.step, QueueRun.places, koeQueueExpire, koeDbQueueExpire, Function.comp_def]
  rw [hplaces]
  exact hrecorded

/-- Making room moves the id that is evicted. -/
theorem perm_ids_makeRoom (env : PushEnv) (pkt : Packet) :
    (((run.evicts env pkt).map Prod.fst).toList ++
      (makeRoom env run.maxPerPeer run.db pkt.header.toPk).ids).Perm run.db.ids := by
  unfold QueueRun.evicts
  rcases makeRoom_cases env run.maxPerPeer run.db pkt.header.toPk with
    ⟨hnone, hroom⟩ | ⟨row, hrow, -, hsome, hroom⟩
  · rw [hnone, hroom]
    exact List.Perm.refl _
  · rw [hsome, hroom]
    exact Table.perm_ids_delete hrow

/-- A push that returns an id adds it, and one that fails adds nothing; in both cases an id may be
moved to make room. -/
theorem places_push (env : PushEnv) (pkt : Packet) :
    ((run.step (.push env pkt)).places.Perm run.places ∧
        (run.step (.push env pkt)).issued = run.issued ∧
        (run.step (.push env pkt)).db.seq = run.db.seq) ∨
      ((run.step (.push env pkt)).places.Perm ((run.db.seq + 1) :: run.places) ∧
        (run.step (.push env pkt)).issued = (run.db.seq + 1) :: run.issued ∧
        (run.step (.push env pkt)).db.seq = run.db.seq + 1) := by
  have hrecorded := perm_of_recorded (perm_ids_makeRoom run env pkt) (run.left.map Prod.fst)
  have hseq := (makeRoom_keeps env run.maxPerPeer run.db pkt.header.toPk).1
  have hleft : (run.step (.push env pkt)).left.map Prod.fst =
      ((run.evicts env pkt).map Prod.fst).toList ++ run.left.map Prod.fst := by
    rcases hevicts : run.evicts env pkt with _ | row <;> simp [QueueRun.step, hevicts]
  rcases koeQueuePush_cases env run.maxPerPeer run.db pkt with ⟨-, hpush⟩ | ⟨-, hpush⟩
  · right
    refine ⟨?_, ?_, ?_⟩
    · rw [QueueRun.places, hleft]
      simp only [QueueRun.step, hpush, Table.ids_insert, hseq]
      rw [List.append_assoc]
      exact List.perm_middle.trans (hrecorded.cons _)
    · simp only [QueueRun.step, hpush]
      rw [if_pos (Int.natCast_nonneg _), Int.toNat_natCast]
    · simp only [QueueRun.step, hpush]
      exact congrArg (· + 1) hseq
  · left
    refine ⟨?_, ?_, ?_⟩
    · rw [QueueRun.places, hleft]
      simp only [QueueRun.step, hpush]
      exact hrecorded
    · simp only [QueueRun.step, hpush]
      exact if_neg (by decide)
    · simp only [QueueRun.step, hpush]
      exact hseq

end Places

/-! ### A drain -/

/-- What is left of the rounds after the first still goes well. Assumes: the rounds go well, and the
row selected in the first. -/
theorem RoundsGoWell.tail {rounds : ℕ → DrainRound} {db : QueueTable} {toPk : Block 32} {id : ℕ}
    {row : QueuedRow} (hwell : RoundsGoWell rounds db toPk)
    (hselected : selected (rounds 0).pop db toPk = some (id, row)) :
    RoundsGoWell (fun i ↦ rounds (i + 1)) (db.delete id) toPk := by
  have hless := countWhere_delete_selected hselected
  intro i hi
  obtain ⟨halloc, hsend, hdecodes⟩ := hwell (i + 1) (by omega)
  exact ⟨halloc, hsend, fun other hother ↦ hdecodes other (List.mem_of_mem_filter hother)⟩

/-- A drain whose rounds go well sends every id that it takes out of the table. -/
theorem drainLoop_perm (toPk : Block 32) (fuel : ℕ) :
    ∀ (rounds : ℕ → DrainRound) (db : QueueTable) (pkt : Packet), RoundsGoWell rounds db toPk →
      (((drainLoop toPk rounds fuel db pkt).calls.filter fun call ↦ call.2.2 == 0).map Prod.fst ++
        (drainLoop toPk rounds fuel db pkt).db.ids).Perm db.ids := by
  induction fuel with
  | zero => exact fun rounds db pkt _ ↦ List.Perm.refl _
  | succ fuel ih =>
    intro rounds db pkt hwell
    rcases drainLoop_cases toPk rounds fuel db pkt with ⟨-, hloop⟩ | ⟨id, row, hselected, hround⟩
    · rw [hloop]
      exact List.Perm.refl _
    · obtain ⟨hrow, hto⟩ := Table.mem_of_selectMin hselected
      have hpositive : 0 < db.countWhere (QueuedRow.isTo toPk) :=
        Nat.zero_lt_of_lt (countWhere_delete_selected hselected)
      obtain ⟨halloc, hsend, hdecodes⟩ := hwell 0 hpositive
      rcases hround with ⟨hfails, -⟩ | ⟨-, hrefused, -⟩ | ⟨-, -, hloop⟩
      · exact absurd (koeQueuePop_eq_zero hselected halloc ((hdecodes _ hrow hto).eq_zero pkt))
          hfails
      · exact absurd hsend hrefused
      · have hperm := ih (fun i ↦ rounds (i + 1)) (db.delete id)
          (koePacketFree (koeQueuePop (rounds 0).pop db toPk pkt).2.1) (hwell.tail hselected)
        rw [hloop]
        exact (hperm.cons id).trans (Table.perm_ids_delete hrow)

/-- A drain moves ids. Assumes: the drain loses nothing. -/
theorem places_drain (run : QueueRun) {rounds : ℕ → DrainRound} {toPk : Block 32}
    (hlossless : Lossless run (.drain rounds toPk)) :
    (run.step (.drain rounds toPk)).places.Perm run.places := by
  have hperm := drainLoop_perm toPk (run.db.countWhere (QueuedRow.isTo toPk) + 1) rounds run.db
    Packet.zero hlossless
  have hrecorded := perm_of_recorded hperm (run.left.map Prod.fst)
  have hplaces : (run.step (.drain rounds toPk)).places =
      (koeQueueDrain rounds run.db toPk).db.ids ++
        (((koeQueueDrain rounds run.db toPk).calls.filter fun call ↦ call.2.2 == 0).map Prod.fst ++
          run.left.map Prod.fst) := by
    simp [QueueRun.step, QueueRun.places, Function.comp_def]
  rw [hplaces]
  exact hrecorded

/-! ### Runs -/

/-- The accounting invariant: every id at some place was handed out by the table, and every id that
a push returned is at one place, once. -/
structure Accounts (run : QueueRun) : Prop where
  bounded : ∀ id ∈ run.places, id ≤ run.db.seq
  once : ∀ id ∈ run.issued, run.places.count id = 1

/-- Assumes: a step that only moves ids. -/
theorem Accounts.of_perm {run next : QueueRun} (haccounts : Accounts run)
    (hperm : next.places.Perm run.places) (hissued : next.issued = run.issued)
    (hseq : next.db.seq = run.db.seq) : Accounts next where
  bounded := by
    intro id hid
    rw [hseq]
    exact haccounts.bounded id (hperm.mem_iff.mp hid)
  once := by
    intro id hid
    rw [hperm.count_eq]
    exact haccounts.once id (hissued ▸ hid)

/-- Assumes: a step that adds the next id. -/
theorem Accounts.of_perm_cons {run next : QueueRun} (haccounts : Accounts run)
    (hperm : next.places.Perm ((run.db.seq + 1) :: run.places))
    (hissued : next.issued = (run.db.seq + 1) :: run.issued)
    (hseq : next.db.seq = run.db.seq + 1) : Accounts next where
  bounded := by
    intro id hid
    rw [hseq]
    rcases List.mem_cons.mp (hperm.mem_iff.mp hid) with rfl | hid
    · exact Nat.le_refl _
    · exact Nat.le_succ_of_le (haccounts.bounded id hid)
  once := by
    intro id hid
    have hfresh : run.db.seq + 1 ∉ run.places := by
      intro hmem
      have hle := haccounts.bounded _ hmem
      omega
    rw [hperm.count_eq]
    rw [hissued] at hid
    rcases List.mem_cons.mp hid with rfl | hid
    · rw [List.count_cons_self, List.count_eq_zero_of_not_mem hfresh]
    · have hone := haccounts.once id hid
      have hmem : id ∈ run.places := List.count_pos_iff.mp (by omega)
      have hne : run.db.seq + 1 ≠ id := fun heq ↦ hfresh (heq ▸ hmem)
      rw [List.count_cons_of_ne hne]
      exact hone

/-- A step that loses nothing keeps the accounting. -/
theorem accounts_step (run : QueueRun) (call : QueueCall) (haccounts : Accounts run)
    (hlossless : Lossless run call) : Accounts (run.step call) := by
  cases call with
  | push env pkt =>
    rcases places_push run env pkt with ⟨hperm, hissued, hseq⟩ | ⟨hperm, hissued, hseq⟩
    · exact haccounts.of_perm hperm hissued hseq
    · exact haccounts.of_perm_cons hperm hissued hseq
  | pop env toPk pktOut =>
    refine haccounts.of_perm (places_pop run hlossless) rfl ?_
    change (koeQueuePop env run.db toPk pktOut).2.2.seq = run.db.seq
    rw [koeQueuePop_db, (koeDbQueuePop_keeps .effective env run.db toPk).1]
  | drain rounds toPk =>
    exact haccounts.of_perm (places_drain run hlossless) rfl
      (drainLoop_keeps toPk _ rounds run.db Packet.zero).1
  | expire now => exact haccounts.of_perm (places_expire run now) rfl rfl

theorem accounts_start (db : QueueTable) (maxPerPeer : ℤ) :
    Accounts (QueueRun.start db maxPerPeer) where
  bounded := by
    intro id hid
    rw [QueueRun.start, QueueRun.places, List.map_nil, List.append_nil] at hid
    exact Table.le_seq_of_mem_ids hid
  once := by
    intro id hid
    exact absurd hid List.not_mem_nil

/-- An id that occurs once is at one place. -/
theorem Accounts.existsUnique_place {run : QueueRun} (haccounts : Accounts run) {id : ℕ}
    (hid : id ∈ run.issued) : ∃! place, (id, place) ∈ run.placements := by
  have hone := haccounts.once id hid
  rw [← run.map_fst_placements, List.count, List.countP_map, List.countP_eq_length_filter,
    List.length_eq_one_iff] at hone
  obtain ⟨⟨other, place⟩, hfilter⟩ := hone
  have hplace (candidate : Place) : (id, candidate) ∈ run.placements ↔
      (id, candidate) = (other, place) := by
    rw [← List.mem_singleton, ← hfilter, List.mem_filter]
    simp
  have hother : other = id := by
    have hmem : (other, place) ∈ run.placements.filter ((fun found ↦ found == id) ∘ Prod.fst) := by
      rw [hfilter]
      exact List.mem_singleton_self _
    simpa using (List.mem_filter.mp hmem).2
  refine ⟨place, (hplace place).mpr (by rw [hother]), ?_⟩
  intro candidate hcandidate
  exact (Prod.mk.inj ((hplace candidate).mp hcandidate)).2

/-- Over a run whose steps lose nothing, every packet whose push returned an id is at every moment
at exactly one place: in the table, popped, sent, evicted or expired. Assumes: every step of the run
loses nothing. -/
theorem koeQueue_accounted {db : QueueTable} {maxPerPeer : ℤ} {front back : List QueueCall}
    (hlossless : Runs.AllSteps QueueRun.step Lossless (QueueRun.start db maxPerPeer)
      (front ++ back)) {id : ℕ}
    (hid : id ∈ (front.foldl QueueRun.step (QueueRun.start db maxPerPeer)).issued) :
    ∃! place, (id, place) ∈ (front.foldl QueueRun.step (QueueRun.start db maxPerPeer)).placements :=
  (Runs.AllSteps.invariant accounts_step front hlossless
    (accounts_start db maxPerPeer)).existsUnique_place hid

/-- A PING without a payload is queued. -/
def pushPing : QueueCall :=
  .push ⟨.effective, ⟨true, true, 0⟩, true, 0, true⟩ (koePacketInit PacketType.ping.code 0)

/-- The queue is drained to a callback that always returns the same value. -/
def drainPing (sendRc : ℤ) : QueueCall :=
  .drain (fun _ ↦ ⟨⟨true, true, 0⟩, sendRc⟩) (Block.zero 32)

/-- A packet that is queued and sent is at one place. -/
theorem koeQueue_accounted_sent :
    1 ∈ ([pushPing, drainPing 0].foldl QueueRun.step (QueueRun.start Table.empty 512)).issued ∧
      ∃! place, (1, place) ∈
        ([pushPing, drainPing 0].foldl QueueRun.step
          (QueueRun.start Table.empty 512)).placements := by
  have hissued : 1 ∈
      ([pushPing, drainPing 0].foldl QueueRun.step (QueueRun.start Table.empty 512)).issued := by
    decide +kernel
  have hdecodes : ∀ row ∈ ((QueueRun.start Table.empty 512).step pushPing).db.rows,
      Decodes true row.2.packet := by
    decide +kernel
  have hwell : RoundsGoWell (fun _ ↦ ⟨⟨true, true, 0⟩, 0⟩)
      ((QueueRun.start Table.empty 512).step pushPing).db (Block.zero 32) :=
    fun _ _ ↦ ⟨rfl, rfl, fun row hrow _ ↦ hdecodes row hrow⟩
  have hlossless : Runs.AllSteps QueueRun.step Lossless (QueueRun.start Table.empty 512)
      ([pushPing, drainPing 0] ++ []) := ⟨trivial, hwell, trivial⟩
  exact ⟨hissued, koeQueue_accounted hlossless hissued⟩

/-- A packet is queued, and drained to a callback that fails: its push returned 1, and afterwards it
is at no place at all. -/
theorem koeQueue_lost_on_failed_send :
    1 ∈ ([pushPing, drainPing (-1)].foldl QueueRun.step (QueueRun.start Table.empty 512)).issued ∧
      ¬ ∃ place, (1, place) ∈
        ([pushPing, drainPing (-1)].foldl QueueRun.step
          (QueueRun.start Table.empty 512)).placements := by
  have hnone : ([pushPing, drainPing (-1)].foldl QueueRun.step
      (QueueRun.start Table.empty 512)).placements = [] := by
    decide +kernel
  refine ⟨by decide +kernel, ?_⟩
  rintro ⟨place, hplace⟩
  rw [hnone] at hplace
  exact absurd hplace List.not_mem_nil

end KoeCore
