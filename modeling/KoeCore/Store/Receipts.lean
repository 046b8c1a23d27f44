import KoeCore.Library.Runs
import KoeCore.Store.Messages
import Mathlib.Data.List.Induction

/-!
# Receipts

`koe_db_message_mark_delivered` and `koe_db_message_mark_read` set the status of a message row when
a receipt comes in. Receipts travel on their own, so they come in any order and more than once. Both
functions write the status without looking at the one that is there.

The status of a row is therefore that of the last receipt (`statusAt_receiptStep`). As long as no
delivery receipt comes in for a row that is marked as read, this is the status of the strongest
receipt (`statusAt_run`), and `receipts_orderIndependent_iff` says that there is no other case in
which the order does not matter.
-/

set_option autoImplicit false
set_option relaxedAutoImplicit false

namespace KoeCore

open ByteWire RowTable Runs

/-- `UPDATE messages SET .. WHERE id=?`. -/
def updateMessage (db : MessageTable) (id : ℤ) (set : MessageRow → MessageRow) :
    ℤ × MessageTable :=
  (0, db.updateWhere (fun row ↦ (row.1 : ℤ) == id) set)

/-- The return code, and the table after the call. -/
def koeDbMessageMarkDelivered (db : MessageTable) (id ts : ℤ) : ℤ × MessageTable :=
  updateMessage db id fun row ↦ { row with deliveredAt := ts, status := .delivered }

/-- The return code, and the table after the call. -/
def koeDbMessageMarkRead (db : MessageTable) (id ts : ℤ) : ℤ × MessageTable :=
  updateMessage db id fun row ↦ { row with readAt := ts, status := .read }

/-! ### Runs of receipts -/

/-- A receipt, with the time it carries. -/
inductive Receipt
  | delivered (ts : ℤ)
  | read (ts : ℤ)
deriving DecidableEq

/-- The status that a receipt stands for. -/
def Receipt.status : Receipt → MsgStatus
  | .delivered _ => .delivered
  | .read _ => .read

/-- The table after a receipt for the row of the given key. -/
def receiptStep (key : ℕ) (db : MessageTable) : Receipt → MessageTable
  | .delivered ts => (koeDbMessageMarkDelivered db key ts).2
  | .read ts => (koeDbMessageMarkRead db key ts).2

/-- The status of the row of a key. -/
def statusAt (db : MessageTable) (key : ℕ) : Option MsgStatus :=
  (db.find key).map MessageRow.status

/-- The status that the receipts call for: read if one of them is a read receipt. -/
def strongest (receipts : List Receipt) : MsgStatus :=
  if receipts.any fun receipt ↦ receipt.status == .read then .read else .delivered

/-- The receipt takes the row from read back to delivered. -/
def GoesBack (key : ℕ) (db : MessageTable) (receipt : Receipt) : Prop :=
  statusAt db key = some .read ∧ statusAt (receiptStep key db receipt) key = some .delivered

/-- The order of the receipts does not matter: after any number of them the status is the strongest
one, and no receipt takes the row from read back to delivered. -/
def OrderIndependent (key : ℕ) (db : MessageTable) (receipts : List Receipt) : Prop :=
  (receipts ≠ [] →
      statusAt (receipts.foldl (receiptStep key) db) key = some (strongest receipts)) ∧
    AllSteps (receiptStep key) (fun before receipt ↦ ¬ GoesBack key before receipt) db receipts

/-- A delivery receipt comes in for a row that is not marked as read. -/
def InTime (key : ℕ) (db : MessageTable) (receipt : Receipt) : Prop :=
  receipt.status = .delivered → statusAt db key ≠ some .read

/-- Assumes: a row of the table. -/
theorem statusAt_of_mem {key : ℕ} {db : MessageTable} {row : MessageRow}
    (hrow : (key, row) ∈ db.rows) : statusAt db key = some row.status := by
  rw [statusAt, Table.find_eq_some_iff.mpr hrow]
  rfl

/-- A receipt sets the status. Assumes: the key of a row, which has some status before. -/
theorem statusAt_receiptStep {key : ℕ} {db : MessageTable} {status : MsgStatus}
    (hstatus : statusAt db key = some status) (receipt : Receipt) :
    statusAt (receiptStep key db receipt) key = some receipt.status := by
  obtain ⟨row, hfound, -⟩ := Option.map_eq_some_iff.mp hstatus
  have hrow : (key, row) ∈ db.rows := Table.find_eq_some_iff.mp hfound
  have hkey : ((key : ℤ) == (key : ℤ)) = true := beq_self_eq_true _
  cases receipt with
  | delivered ts => exact statusAt_of_mem (Table.mem_updateWhere hrow hkey _)
  | read ts => exact statusAt_of_mem (Table.mem_updateWhere hrow hkey _)

/-- Assumes: the key of a row. It stays the key of one. -/
theorem exists_statusAt_run {key : ℕ} {db : MessageTable} {status : MsgStatus}
    (hstatus : statusAt db key = some status) (receipts : List Receipt) :
    ∃ last, statusAt (receipts.foldl (receiptStep key) db) key = some last := by
  induction receipts generalizing db status with
  | nil => exact ⟨status, hstatus⟩
  | cons receipt receipts ih => exact ih (statusAt_receiptStep hstatus receipt)

theorem strongest_append_read (receipts : List Receipt) (ts : ℤ) :
    strongest (receipts ++ [.read ts]) = .read := by
  simp [strongest, Receipt.status]

theorem strongest_append_delivered (receipts : List Receipt) (ts : ℤ) :
    strongest (receipts ++ [.delivered ts]) = strongest receipts := by
  simp [strongest, Receipt.status]

/-- Receipts that are in time leave the strongest status. Assumes: the key of a row, at least one
receipt, and no delivery receipt while the row is marked as read. -/
theorem statusAt_run {key : ℕ} {db : MessageTable} {status : MsgStatus}
    (hstatus : statusAt db key = some status) (receipts : List Receipt) (hne : receipts ≠ [])
    (hinTime : AllSteps (receiptStep key) (InTime key) db receipts) :
    statusAt (receipts.foldl (receiptStep key) db) key = some (strongest receipts) := by
  induction receipts using List.reverseRecOn with
  | nil => exact absurd rfl hne
  | append_singleton receipts receipt ih =>
    obtain ⟨last, hlast⟩ := exists_statusAt_run hstatus receipts
    have hnow : InTime key (receipts.foldl (receiptStep key) db) receipt :=
      (allSteps_iff db (receipts ++ [receipt])).mp hinTime receipts receipt [] rfl
    rw [List.foldl_append, List.foldl_cons, List.foldl_nil, statusAt_receiptStep hlast]
    cases receipt with
    | read ts => rw [strongest_append_read, Receipt.status]
    | delivered ts =>
      rw [strongest_append_delivered, Receipt.status]
      -- A read receipt before this one would have left the row marked as read.
      by_cases hempty : receipts = []
      · rw [hempty]
        rfl
      · have hstrongest := ih hempty hinTime.front
        have hunread : strongest receipts ≠ .read := by
          intro hread
          exact hnow rfl (hread ▸ hstrongest)
        rw [strongest] at hunread ⊢
        split_ifs at hunread ⊢
        · exact absurd rfl hunread
        · rfl

/-- Assumes: the key of a row. -/
theorem not_goesBack_iff {key : ℕ} {db : MessageTable}
    (hpresent : ∃ status, statusAt db key = some status) (receipt : Receipt) :
    ¬ GoesBack key db receipt ↔ InTime key db receipt := by
  obtain ⟨status, hstatus⟩ := hpresent
  rw [GoesBack, statusAt_receiptStep hstatus, Option.some.injEq, InTime, not_and']

/-- The order of receipts does not matter exactly when no delivery receipt comes in while the row is
marked as read. Assumes: the row of a key. -/
theorem receipts_orderIndependent_iff {key : ℕ} {db : MessageTable} {row : MessageRow}
    (hrow : (key, row) ∈ db.rows) (receipts : List Receipt) :
    OrderIndependent key db receipts ↔ AllSteps (receiptStep key) (InTime key) db receipts := by
  have hstatus := statusAt_of_mem hrow
  have hkeeps (before : MessageTable) (receipt : Receipt)
      (hpresent : ∃ status, statusAt before key = some status) (_ : ¬ GoesBack key before receipt) :
      ∃ status, statusAt (receiptStep key before receipt) key = some status := by
    obtain ⟨status, hbefore⟩ := hpresent
    exact ⟨receipt.status, statusAt_receiptStep hbefore receipt⟩
  have hsteps : AllSteps (receiptStep key) (fun before receipt ↦ ¬ GoesBack key before receipt) db
      receipts ↔ AllSteps (receiptStep key) (InTime key) db receipts :=
    allSteps_iff_of_invariant (fun before receipt hpresent ↦ not_goesBack_iff hpresent receipt)
      hkeeps ⟨row.status, hstatus⟩ receipts
  rw [OrderIndependent, hsteps]
  constructor
  · exact And.right
  · intro hinTime
    exact ⟨fun hne ↦ statusAt_run hstatus receipts hne hinTime, hinTime⟩

/-- A table with one message that was sent. -/
def oneSent : MessageTable :=
  Table.empty.insert
    { fromPk := Block.zero 32
      toPk := Block.zero 32
      body := []
      sentAt := 0
      deliveredAt := 0
      readAt := 0
      destructAt := 0
      status := .sent
      isSecret := 0 }

/-- Two delivery receipts and then a read receipt. -/
theorem oneSent_orderIndependent :
    OrderIndependent 1 oneSent [.delivered 1, .delivered 1, .read 2] := by
  refine (receipts_orderIndependent_iff (List.mem_singleton_self _) _).mpr ⟨?_, ?_, ?_, trivial⟩
  · exact fun _ hread ↦ absurd hread (by decide)
  · exact fun _ hread ↦ absurd hread (by decide)
  · exact fun hdelivered ↦ absurd hdelivered (by decide)

/-- The delivery receipt comes last, and the message that was read is marked as delivered again. -/
theorem oneSent_goesBack :
    statusAt ([Receipt.read 1].foldl (receiptStep 1) oneSent) 1 = some .read ∧
      statusAt ([Receipt.read 1, .delivered 2].foldl (receiptStep 1) oneSent) 1 =
        some .delivered := by
  decide

end KoeCore
