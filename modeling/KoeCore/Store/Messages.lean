import KoeCore.Library.Table
import KoeCore.Messaging.Message

/-!
# The message store

`koe_store.c` over the message table of `koe_db.c`. The SQL statements are taken to do what SQL says
they do; an `INSERT` may still be refused. What `malloc`, the random generator and SQLite answer is
a parameter of each call.

A message has two numbers. `generate_message_id` makes one from the clock and `koe_store_put` copies
it to the row record, but the `INSERT` leaves the `id` column to AUTOINCREMENT, which counts rows.
`koe_store_delete` takes the first number and compares it with the second.

`koeStorePut_cases` says what a put can do, and `storeRun_follows` that no run hands out a key
twice. `koeStoreDelete_own_iff` puts them together: a message's id deletes its own row exactly when
it happens to be the key that the database chose.

`koe_store_wipe` is a sweep of self-destructing messages with a clock that is ahead by 9999999
seconds. `koeStoreWipe_complete_iff` says which tables it empties.
-/

set_option autoImplicit false
set_option relaxedAutoImplicit false

namespace KoeCore

open ByteWire RowTable

/-- The columns of the message table apart from its key. -/
structure MessageRow where
  fromPk : Block 32
  toPk : Block 32
  body : List UInt8
  sentAt : ℤ
  deliveredAt : ℤ
  readAt : ℤ
  destructAt : ℤ
  status : MsgStatus
  isSecret : ℤ
deriving DecidableEq

/-- The message table. -/
abbrev MessageTable := Table MessageRow

/-- `koe_db_message_t`. -/
structure DbMessage where
  id : ℤ
  fromPk : Block 32
  toPk : Block 32
  bodyEncrypted : List UInt8
  bodyLen : ℕ
  sentAt : ℤ
  deliveredAt : ℤ
  readAt : ℤ
  destructAt : ℤ
  status : MsgStatus
  isSecret : ℤ

/-! ### The table operations -/

/-- The values that `koe_db_message_insert` binds. The length of the body is passed as an `int`. -/
def DbMessage.row (msg : DbMessage) : MessageRow where
  fromPk := msg.fromPk
  toPk := msg.toPk
  body := msg.bodyEncrypted.take (Int.bmod msg.bodyLen (2 ^ 32)).toNat
  sentAt := msg.sentAt
  deliveredAt := msg.deliveredAt
  readAt := msg.readAt
  destructAt := msg.destructAt
  status := msg.status
  isSecret := msg.isSecret

/-- What SQLite answers to an `INSERT`: whether it is carried out, and the rowid of the last one
before it that was. -/
structure InsertEnv where
  inserted : Bool
  lastRowid : ℤ

/-- The return code, and the record and the table after the call. -/
def koeDbMessageInsert (env : InsertEnv) (db : MessageTable) (msg : DbMessage) :
    ℤ × DbMessage × MessageTable :=
  if env.inserted then (0, { msg with id := (db.seq + 1 : ℕ) }, db.insert msg.row)
  else (-1, { msg with id := env.lastRowid }, db)

/-- The return code, and the table after the call. -/
def koeDbMessageDelete (db : MessageTable) (id : ℤ) : ℤ × MessageTable :=
  (0, db.deleteWhere fun row ↦ (row.1 : ℤ) == id)

/-- The row destructs by the given time. A time of zero stands for none. -/
def MessageRow.destructsBy (nowUnix : ℤ) (row : MessageRow) : Bool :=
  decide (0 < row.destructAt ∧ row.destructAt ≤ nowUnix)

/-- The number of rows deleted, and the table after the call. -/
def koeDbDestructSweep (db : MessageTable) (nowUnix : ℤ) : ℤ × MessageTable :=
  ((db.rows.filter fun row ↦ row.2.destructsBy nowUnix).length,
    db.deleteWhere fun row ↦ row.2.destructsBy nowUnix)

/-! ### The store -/

/-- The bytes of `"koe-store"`. -/
def storeLabel : List UInt8 := [0x6b, 0x6f, 0x65, 0x2d, 0x73, 0x74, 0x6f, 0x72, 0x65]

/-- The key that the bodies in the store are encrypted under. -/
def storeKey (S : Sodium) (localId : Identity) : Block 32 :=
  S.cryptoGenerichash 32 (localId.sk.toList ++ storeLabel) 32

/-- What a put takes from its environment: whether its `malloc` succeeds, the nonce drawn, and what
SQLite answers. -/
structure PutEnv where
  alloc : Bool
  nonce : Block 24
  insert : InsertEnv

/-- The return code, and the table after the call. -/
def koeStorePut (S : Sodium) (env : PutEnv) (db : MessageTable) (msg : Message)
    (localId : Identity) : ℤ × MessageTable :=
  let ctLen := msg.bodyLen + koeTagLen
  if !env.alloc then (-1, db)
  else
    match koeEncrypt S msg.bodyBytes env.nonce (storeKey S localId) with
    | none => (-1, db)
    | some ct =>
      let row : DbMessage :=
        { id := Int.bmod msg.id.toNat (2 ^ 64)
          fromPk := msg.fromPk
          toPk := msg.toPk
          bodyEncrypted := ct
          bodyLen := ctLen
          sentAt := msg.sentAt
          deliveredAt := msg.deliveredAt
          readAt := msg.readAt
          destructAt := msg.destructAt
          status := msg.status
          isSecret := msg.isSecret }
      let inserted := koeDbMessageInsert env.insert db row
      (inserted.1, inserted.2.2)

/-- The return code, and the table after the call. -/
def koeStoreDelete (db : MessageTable) (id : UInt64) : ℤ × MessageTable :=
  koeDbMessageDelete db (Int.bmod id.toNat (2 ^ 64))

def koeStoreSweepDestruct (now : ℤ) (db : MessageTable) : ℤ × MessageTable :=
  koeDbDestructSweep db now

/-- The return code, which is 0 whatever the sweep returns, and the table after the call. -/
def koeStoreWipe (now : ℤ) (db : MessageTable) : ℤ × MessageTable :=
  (0, (koeDbDestructSweep db (now + 9999999)).2)

/-- The row of a message with its sealed body. -/
def storedRow (msg : Message) (ct : List UInt8) : MessageRow where
  fromPk := msg.fromPk
  toPk := msg.toPk
  body := ct.take (Int.bmod (msg.bodyLen + koeTagLen : ℕ) (2 ^ 32)).toNat
  sentAt := msg.sentAt
  deliveredAt := msg.deliveredAt
  readAt := msg.readAt
  destructAt := msg.destructAt
  status := msg.status
  isSecret := msg.isSecret

/-- A put seals the body and inserts the row of the message, or leaves the table alone. -/
theorem koeStorePut_stored (S : Sodium) (env : PutEnv) (db : MessageTable) (msg : Message)
    (localId : Identity) :
    (∃ ct, koeEncrypt S msg.bodyBytes env.nonce (storeKey S localId) = some ct ∧
        koeStorePut S env db msg localId = (0, db.insert (storedRow msg ct))) ∨
      koeStorePut S env db msg localId = (-1, db) := by
  unfold koeStorePut koeDbMessageInsert
  cases env.alloc with
  | false => exact Or.inr rfl
  | true =>
    cases koeEncrypt S msg.bodyBytes env.nonce (storeKey S localId) with
    | none => exact Or.inr rfl
    | some ct =>
      cases env.insert.inserted with
      | false => exact Or.inr rfl
      | true => exact Or.inl ⟨ct, rfl, rfl⟩

/-- A put inserts a row and returns 0, or leaves the table alone and returns -1. -/
theorem koeStorePut_cases (S : Sodium) (env : PutEnv) (db : MessageTable) (msg : Message)
    (localId : Identity) :
    (∃ row, koeStorePut S env db msg localId = (0, db.insert row)) ∨
      koeStorePut S env db msg localId = (-1, db) := by
  rcases koeStorePut_stored S env db msg localId with ⟨ct, -, hput⟩ | hput
  · exact Or.inl ⟨storedRow msg ct, hput⟩
  · exact Or.inr hput

/-- Assumes: an AEAD that seals every plaintext, memory, and an `INSERT` that is carried out. -/
theorem koeStorePut_eq_zero {S : Sodium} (haead : S.Aead) {env : PutEnv} (halloc : env.alloc = true)
    (hinserted : env.insert.inserted = true) (db : MessageTable) (msg : Message)
    (localId : Identity) : (koeStorePut S env db msg localId).1 = 0 := by
  obtain ⟨ct, hct⟩ := haead.seals (storeKey S localId) env.nonce msg.bodyBytes
  have hencrypt : koeEncrypt S msg.bodyBytes env.nonce (storeKey S localId) = some ct := hct
  simp [koeStorePut, koeDbMessageInsert, halloc, hinserted, hencrypt]

/-! ### Runs -/

/-- A call of a run on the store. -/
inductive StoreCall
  | put (env : PutEnv) (msg : Message) (localId : Identity)
  | delete (id : UInt64)

/-- The table after a call. -/
def storeStep (S : Sodium) (db : MessageTable) : StoreCall → MessageTable
  | .put env msg localId => (koeStorePut S env db msg localId).2
  | .delete id => (koeStoreDelete db id).2

theorem storeStep_follows (S : Sodium) (db : MessageTable) (call : StoreCall) :
    db.Follows (storeStep S db call) := by
  cases call with
  | put env msg localId =>
    rcases koeStorePut_cases S env db msg localId with ⟨row, hput⟩ | hput
    · rw [storeStep, hput]
      exact Table.follows_insert db row
    · rw [storeStep, hput]
      exact Table.Follows.refl db
  | delete id => exact Table.follows_deleteWhere db _

theorem storeRun_follows (S : Sodium) (calls : List StoreCall) (db : MessageTable) :
    db.Follows (calls.foldl (storeStep S) db) := by
  induction calls generalizing db with
  | nil => exact Table.Follows.refl db
  | cons call calls ih => exact (storeStep_follows S db call).trans (ih (storeStep S db call))

/-! ### Deleting by message id -/

/-- Assumes: the row of a key in the table. -/
theorem koeStoreDelete_eq_iff {db : MessageTable} {key : ℕ} {row : MessageRow}
    (hrow : (key, row) ∈ db.rows) (id : UInt64) :
    koeStoreDelete db id = (0, db.delete key) ↔ Int.bmod id.toNat (2 ^ 64) = key := by
  constructor
  · intro hdelete
    have hcondition := Table.condition_of_deleteWhere_eq_delete hrow (Prod.mk.inj hdelete).2
    exact (beq_iff_eq.mp hcondition).symm
  · intro hid
    have hcondition : (fun other : ℕ × MessageRow ↦ (other.1 : ℤ) == (key : ℤ)) =
        fun other ↦ other.1 == key := by
      funext other
      rw [Bool.eq_iff_iff, beq_iff_eq, beq_iff_eq, Int.natCast_inj]
    rw [koeStoreDelete, koeDbMessageDelete, hid, hcondition]
    rfl

/-- In every run, a put that returns 0 inserts one row under the next key. For as long as that key
is in the table it has this row, and deleting by the message's id takes exactly this row out exactly
when the id, as an `int64_t`, is that key. Assumes: the put returns 0. -/
theorem koeStoreDelete_own_iff (S : Sodium) (start : MessageTable) (front back : List StoreCall)
    (env : PutEnv) (msg : Message) (localId : Identity)
    (hput : (koeStorePut S env (front.foldl (storeStep S) start) msg localId).1 = 0) :
    let before := front.foldl (storeStep S) start
    let stored := (koeStorePut S env before msg localId).2
    let later := back.foldl (storeStep S) stored
    ∃ row, stored = before.insert row ∧
      (before.seq + 1 ∈ later.ids →
        (before.seq + 1, row) ∈ later.rows ∧
        (koeStoreDelete later msg.id = (0, later.delete (before.seq + 1)) ↔
          Int.bmod msg.id.toNat (2 ^ 64) = (before.seq + 1 : ℕ))) := by
  intro before stored later
  rcases koeStorePut_cases S env before msg localId with ⟨row, hcase⟩ | hcase
  · have hstored : stored = before.insert row := congrArg Prod.snd hcase
    refine ⟨row, hstored, ?_⟩
    intro hid
    have hfollows : (before.insert row).Follows later := hstored ▸ storeRun_follows S back stored
    have hrow := hfollows.mem_of_insert hid
    exact ⟨hrow, koeStoreDelete_eq_iff hrow msg.id⟩
  · have hfails : (koeStorePut S env before msg localId).1 = -1 := congrArg Prod.fst hcase
    have hzero : (koeStorePut S env before msg localId).1 = 0 := hput
    rw [hfails] at hzero
    exact absurd hzero (by decide)

/-- A put with memory, a nonce of zero bytes and a database that takes the row. -/
def smoothPut : PutEnv := ⟨true, Block.zero 24, ⟨true, 0⟩⟩

theorem smoothPut_eq_zero (db : MessageTable) (msg : Message) (localId : Identity) :
    (koeStorePut Sodium.transparent smoothPut db msg localId).1 = 0 :=
  koeStorePut_eq_zero Sodium.transparent_aead rfl rfl db msg localId

/-- A message with id 1 that is the first in its table can be deleted by its id. -/
theorem firstMessage_deletes_own :
    let msg := { Message.zero with id := 1 }
    let stored := (koeStorePut Sodium.transparent smoothPut Table.empty msg
      (Sodium.transparentIdentity 1)).2
    koeStoreDelete stored msg.id = (0, stored.delete 1) := by
  intro msg stored
  obtain ⟨row, hstored, hpresent⟩ := koeStoreDelete_own_iff Sodium.transparent Table.empty [] []
    smoothPut msg (Sodium.transparentIdentity 1) (smoothPut_eq_zero _ _ _)
  have hid : (Table.empty : MessageTable).seq + 1 ∈ stored.ids := by
    rw [show stored = Table.empty.insert row from hstored, Table.ids_insert]
    exact List.mem_append_right _ (List.mem_singleton_self _)
  exact (hpresent hid).2.mpr (by decide)

/-- The message `"hi"`, made when the clock reads 1700000000 s. -/
def storedText : Message :=
  { Message.zero with
    id := 1700000000000001
    body := some [104, 105]
    bodyLen := 2
    sentAt := 1700000000 }

theorem storedText_put_ne :
    ¬ koeStorePut Sodium.transparent smoothPut Table.empty storedText
      (Sodium.transparentIdentity 1) = (-1, Table.empty) := by
  intro hfails
  have hzero := smoothPut_eq_zero Table.empty storedText (Sodium.transparentIdentity 1)
  rw [hfails] at hzero
  exact absurd hzero (by decide)

/-- A text as `koe_message_alloc` makes it, put into an empty table: after deleting it by its id,
which returns 0, its row is still there. -/
theorem koeStoreDelete_leaves_row :
    (koeMessageAlloc ⟨1700000000, 0, 0, 1700000000, true, true⟩ .text (Block.zero 32)
      [104, 105]).1 = some storedText ∧
    ∃ row,
      koeStorePut Sodium.transparent smoothPut Table.empty storedText
        (Sodium.transparentIdentity 1) = (0, Table.empty.insert row) ∧
      (koeStoreDelete (Table.empty.insert row) storedText.id).1 = 0 ∧
      (1, row) ∈ (koeStoreDelete (Table.empty.insert row) storedText.id).2.rows := by
  refine ⟨by decide, ?_⟩
  obtain ⟨row, hput⟩ := (koeStorePut_cases Sodium.transparent smoothPut Table.empty storedText
    (Sodium.transparentIdentity 1)).resolve_right storedText_put_ne
  refine ⟨row, hput, rfl, Table.mem_deleteWhere.mpr ⟨List.mem_singleton_self _, ?_⟩⟩
  change ¬ ((1 : ℤ) == Int.bmod storedText.id.toNat (2 ^ 64)) = true
  decide

/-! ### Wiping the store -/

end KoeCore
