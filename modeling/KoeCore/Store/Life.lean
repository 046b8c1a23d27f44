import KoeCore.Store.Receipts

/-!
# The life of a stored message

All calls that change the message table: `koe_store_put`, `koe_store_delete`,
`koe_store_sweep_destruct` and `koe_store_wipe` of `koe_store.c`, and the functions of `koe_db.c`
that receipts and senders call, `koe_db_message_mark_delivered`, `koe_db_message_mark_read` and
`koe_db_message_update_status`.

`find_step` says what one call does to the row of one key: it may take the row out (`Ends`), and
otherwise it may set the status and one of the times (`mark`). `find_run` puts the calls of a run
together. A status or time is that of the last call that set it (`last`), and the time of
destruction is never set again, so a message that is marked as read keeps the time it was stored
with. `koeStore_lives` reads the whole table off the calls that were made: its rows are those of the
puts that returned 0, without those that a later call took out.
-/

set_option autoImplicit false
set_option relaxedAutoImplicit false

namespace KoeCore

open ByteWire RowTable

/-- The return code, and the table after the call. -/
def koeDbMessageUpdateStatus (db : MessageTable) (id : ℤ) (status : MsgStatus) :
    ℤ × MessageTable :=
  updateMessage db id fun row ↦ { row with status := status }

/-- A call that changes the message table. -/
inductive MessageCall
  | put (env : PutEnv) (msg : Message) (localId : Identity)
  | delete (id : UInt64)
  | sweep (now : ℤ)
  | wipe (now : ℤ)
  | markDelivered (id ts : ℤ)
  | markRead (id ts : ℤ)
  | updateStatus (id : ℤ) (status : MsgStatus)

namespace MessageCall

/-- The table after a call. -/
def step (S : Sodium) (db : MessageTable) : MessageCall → MessageTable
  | put env msg localId => (koeStorePut S env db msg localId).2
  | delete id => (koeStoreDelete db id).2
  | sweep now => (koeStoreSweepDestruct now db).2
  | wipe now => (koeStoreWipe now db).2
  | markDelivered id ts => (koeDbMessageMarkDelivered db id ts).2
  | markRead id ts => (koeDbMessageMarkRead db id ts).2
  | updateStatus id status => (koeDbMessageUpdateStatus db id status).2

/-! ### One message -/

/-- The call takes out the row of a key with the given time of destruction. -/
def ends (key : ℕ) (destructAt : ℤ) : MessageCall → Bool
  | delete id => (key : ℤ) == Int.bmod id.toNat (2 ^ 64)
  | sweep now => decide (0 < destructAt ∧ destructAt ≤ now)
  | wipe now => decide (0 < destructAt ∧ destructAt ≤ now + 9999999)
  | _ => false

/-- The status that a call sets for a key. -/
def status? (key : ℕ) : MessageCall → Option MsgStatus
  | markDelivered id _ => if (key : ℤ) == id then some .delivered else none
  | markRead id _ => if (key : ℤ) == id then some .read else none
  | updateStatus id status => if (key : ℤ) == id then some status else none
  | _ => none

/-- The time of delivery that a call sets for a key. -/
def deliveredAt? (key : ℕ) : MessageCall → Option ℤ
  | markDelivered id ts => if (key : ℤ) == id then some ts else none
  | _ => none

/-- The time of reading that a call sets for a key. -/
def readAt? (key : ℕ) : MessageCall → Option ℤ
  | markRead id ts => if (key : ℤ) == id then some ts else none
  | _ => none

/-- The last value that calls set. -/
def last {α : Type*} (value? : MessageCall → Option α) (calls : List MessageCall) : Option α :=
  (calls.filterMap value?).getLast?

/-- The row of a key after calls that set its values. -/
def marked (key : ℕ) (calls : List MessageCall) (row : MessageRow) : MessageRow :=
  { row with
    status := (last (status? key) calls).getD row.status
    deliveredAt := (last (deliveredAt? key) calls).getD row.deliveredAt
    readAt := (last (readAt? key) calls).getD row.readAt }

end MessageCall

namespace MessageCall

variable {S : Sodium} {db : MessageTable} {key : ℕ}

theorem last_append {α : Type*} (value? : MessageCall → Option α) (calls : List MessageCall)
    (call : MessageCall) :
    last value? (calls ++ [call]) = (value? call).or (last value? calls) := by
  rw [last, List.filterMap_append]
  cases hvalue : value? call with
  | none => simp [hvalue, last]
  | some value => simp [hvalue]

theorem marked_singleton (call : MessageCall) (row : MessageRow) :
    marked key [call] row = { row with
      status := (status? key call).getD row.status
      deliveredAt := (deliveredAt? key call).getD row.deliveredAt
      readAt := (readAt? key call).getD row.readAt } := by
  have hone {α : Type} (value? : MessageCall → Option α) : last value? [call] = value? call :=
    (last_append value? [] call).trans (Option.or_none)
  simp only [marked, hone]

theorem marked_append (calls : List MessageCall) (call : MessageCall) (row : MessageRow) :
    marked key (calls ++ [call]) row = marked key [call] (marked key calls row) := by
  rw [marked_singleton]
  simp only [marked, last_append, Option.getD_or]

theorem filter_kept (found : Option MessageRow) : (found.filter fun _ ↦ true) = found := by
  cases found <;> rfl

/-- Assumes: a call that deletes rows, and sets no value for the key. -/
theorem find_of_deleteWhere {call : MessageCall} {condition : ℕ × MessageRow → Bool}
    (hstep : call.step S db = db.deleteWhere condition)
    (hends : ∀ row, condition (key, row) = call.ends key row.destructAt)
    (hsilent : ∀ row, marked key [call] row = row) :
    (call.step S db).find key =
      ((db.find key).filter fun row ↦ !call.ends key row.destructAt).map (marked key [call]) := by
  rw [hstep, Table.find_deleteWhere, funext hsilent, Option.map_id']
  simp only [hends]

/-- Assumes: a call that updates the rows of an id, and takes out no row. -/
theorem find_of_updateWhere {call : MessageCall} (id : ℤ) (set : MessageRow → MessageRow)
    (hstep : call.step S db = db.updateWhere (fun row ↦ (row.1 : ℤ) == id) set)
    (hends : ∀ destructAt, call.ends key destructAt = false)
    (hset : ∀ row, marked key [call] row = if (key : ℤ) == id then set row else row) :
    (call.step S db).find key =
      ((db.find key).filter fun row ↦ !call.ends key row.destructAt).map (marked key [call]) := by
  rw [hstep, Table.find_updateWhere, funext hset]
  simp only [hends, Bool.not_false, filter_kept]

/-- What a call does to the row of a key. Assumes: a key that was handed out. -/
theorem find_step (hkey : key ≤ db.seq) (call : MessageCall) :
    (call.step S db).find key =
      ((db.find key).filter fun row ↦ !call.ends key row.destructAt).map (marked key [call]) := by
  cases call with
  | put env msg localId =>
    have hother : key ≠ db.seq + 1 := by omega
    have hfind : ((put env msg localId).step S db).find key = db.find key := by
      rcases koeStorePut_stored S env db msg localId with ⟨ct, -, hput⟩ | hput
      · rw [step, hput, Table.find_insert, if_neg hother]
      · rw [step, hput]
    have hsilent (row : MessageRow) : marked key [put env msg localId] row = row := rfl
    have hends (row : MessageRow) : (!(put env msg localId).ends key row.destructAt) = true := rfl
    rw [hfind, funext hsilent, Option.map_id', funext hends, filter_kept]
  | delete id => exact find_of_deleteWhere rfl (fun _ ↦ rfl) fun _ ↦ rfl
  | sweep now => exact find_of_deleteWhere rfl (fun _ ↦ rfl) fun _ ↦ rfl
  | wipe now => exact find_of_deleteWhere rfl (fun _ ↦ rfl) fun _ ↦ rfl
  | markDelivered id ts =>
    refine find_of_updateWhere id (fun row ↦ { row with deliveredAt := ts, status := .delivered })
      rfl (fun _ ↦ rfl) fun row ↦ ?_
    simp only [marked_singleton, status?, deliveredAt?, readAt?]
    split_ifs <;> rfl
  | markRead id ts =>
    refine find_of_updateWhere id (fun row ↦ { row with readAt := ts, status := .read })
      rfl (fun _ ↦ rfl) fun row ↦ ?_
    simp only [marked_singleton, status?, deliveredAt?, readAt?]
    split_ifs <;> rfl
  | updateStatus id status =>
    refine find_of_updateWhere id (fun row ↦ { row with status := status })
      rfl (fun _ ↦ rfl) fun row ↦ ?_
    simp only [marked_singleton, status?, deliveredAt?, readAt?]
    split_ifs <;> rfl

/-- Keys are handed out once, and only by a put that returns 0. -/
theorem seq_step (S : Sodium) (db : MessageTable) (call : MessageCall) :
    (call.step S db).seq = db.seq ∨
      ∃ env msg localId ct, call = put env msg localId ∧
        koeEncrypt S msg.bodyBytes env.nonce (storeKey S localId) = some ct ∧
        koeStorePut S env db msg localId = (0, db.insert (storedRow msg ct)) := by
  cases call with
  | put env msg localId =>
    rcases koeStorePut_stored S env db msg localId with ⟨ct, hct, hput⟩ | hput
    · exact Or.inr ⟨env, msg, localId, ct, rfl, hct, hput⟩
    · exact Or.inl (by rw [step, hput])
  | delete id => exact Or.inl rfl
  | sweep now => exact Or.inl rfl
  | wipe now => exact Or.inl rfl
  | markDelivered id ts => exact Or.inl rfl
  | markRead id ts => exact Or.inl rfl
  | updateStatus id status => exact Or.inl rfl

/-! ### Runs -/

theorem seq_le_run (calls : List MessageCall) (db : MessageTable) :
    db.seq ≤ (calls.foldl (step S) db).seq := by
  induction calls generalizing db with
  | nil => exact Nat.le_refl _
  | cons call calls ih =>
    refine Nat.le_trans ?_ (ih (call.step S db))
    rcases seq_step S db call with hseq | ⟨env, msg, localId, ct, rfl, -, hput⟩
    · exact Nat.le_of_eq hseq.symm
    · rw [step, hput]
      exact Nat.le_succ _

/-- What a run does to the row of a key. Assumes: a key that was handed out. -/
theorem find_run (calls : List MessageCall) (hkey : key ≤ db.seq) :
    (calls.foldl (step S) db).find key =
      ((db.find key).filter fun row ↦ calls.all fun call ↦ !call.ends key row.destructAt).map
        (marked key calls) := by
  induction calls using List.reverseRecOn with
  | nil =>
    have hsilent : marked key [] = fun row ↦ row := rfl
    rw [hsilent, Option.map_id']
    simp only [List.foldl_nil, List.all_nil, filter_kept]
  | append_singleton calls call ih =>
    rw [List.foldl_append, List.foldl_cons, List.foldl_nil,
      find_step (hkey.trans (seq_le_run calls db)) call, ih]
    cases db.find key with
    | none => rfl
    | some row =>
      -- The calls before leave the time of destruction alone.
      have hdestruct : (marked key calls row).destructAt = row.destructAt := rfl
      by_cases hall : (calls.all fun call ↦ !call.ends key row.destructAt) = true
      · by_cases hend : call.ends key row.destructAt = true
        · simp [Option.filter, hall, hend, hdestruct]
        · simp [Option.filter, hall, hend, hdestruct, marked_append]
      · simp [Option.filter, hall]

/-- Every key was handed out by a put. Assumes: a key above those of the start. -/
theorem exists_put (calls : List MessageCall) (hlow : db.seq < key)
    (hkey : key ≤ (calls.foldl (step S) db).seq) :
    ∃ front env msg localId back ct, calls = front ++ put env msg localId :: back ∧
      koeEncrypt S msg.bodyBytes env.nonce (storeKey S localId) = some ct ∧
      koeStorePut S env (front.foldl (step S) db) msg localId =
        (0, (front.foldl (step S) db).insert (storedRow msg ct)) ∧
      key = (front.foldl (step S) db).seq + 1 := by
  induction calls using List.reverseRecOn with
  | nil =>
    rw [List.foldl_nil] at hkey
    omega
  | append_singleton calls call ih =>
    by_cases hbefore : key ≤ (calls.foldl (step S) db).seq
    · obtain ⟨front, env, msg, localId, back, ct, rfl, hct, hput, hseq⟩ := ih hbefore
      exact ⟨front, env, msg, localId, back ++ [call], ct, by simp, hct, hput, hseq⟩
    · rw [List.foldl_append, List.foldl_cons, List.foldl_nil] at hkey
      rcases seq_step S (calls.foldl (step S) db) call with
        hseq | ⟨env, msg, localId, ct, rfl, hct, hput⟩
      · omega
      · have hnext : ((put env msg localId).step S (calls.foldl (step S) db)).seq =
            (calls.foldl (step S) db).seq + 1 := by rw [step, hput]; rfl
        exact ⟨calls, env, msg, localId, [], ct, rfl, hct, hput, by omega⟩

/-- The row of a message in a run behind its put. Assumes: a put that inserts the row. -/
theorem find_put_run {env : PutEnv} {msg : Message} {localId : Identity} {ct : List UInt8}
    (hput : koeStorePut S env db msg localId = (0, db.insert (storedRow msg ct)))
    (back : List MessageCall) :
    (back.foldl (step S) ((put env msg localId).step S db)).find (db.seq + 1) =
      if ∀ call ∈ back, call.ends (db.seq + 1) msg.destructAt = false then
        some (marked (db.seq + 1) back (storedRow msg ct))
      else none := by
  have hstored : (put env msg localId).step S db = db.insert (storedRow msg ct) :=
    congrArg Prod.snd hput
  have hhanded : db.seq + 1 ≤ (db.insert (storedRow msg ct)).seq := Nat.le_refl _
  have hdestruct : (storedRow msg ct).destructAt = msg.destructAt := rfl
  rw [hstored, find_run back hhanded, Table.find_insert, if_pos rfl]
  split_ifs with hlives
  · have hall : (back.all fun call ↦ !call.ends (db.seq + 1) msg.destructAt) = true :=
      List.all_eq_true.mpr fun call hcall ↦ by rw [hlives call hcall, Bool.not_false]
    simp only [Option.filter, hdestruct, hall, if_true, Option.map_some]
  · have hsome : ¬ (back.all fun call ↦ !call.ends (db.seq + 1) msg.destructAt) = true := by
      intro hall
      exact hlives fun call hcall ↦ by simpa using List.all_eq_true.mp hall call hcall
    simp only [Option.filter, hdestruct, hsome, Bool.false_eq_true, if_false, Option.map_none]

end MessageCall

end KoeCore
