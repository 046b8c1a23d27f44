import KoeCore.Account.Registry
import KoeCore.Context.Send
import KoeCore.Identity.Contacts
import KoeCore.Session.Map

/-!
# The life of a context

`koe_init`, `koe_shutdown`, `koe_switch_account`, `koe_add_contact` and the calls that a program
makes in between. A context holds a copy of the database handle in its queue, and the functions here
open, replace and close the handle by hand.

A handle stands for one connection: a handle that was closed does not become the handle of a
connection that is opened later, as a pointer to freed memory does not point to an object allocated
later. `Connections` keeps every connection that was opened, whether it was closed, and a list of
the handles that were used after `koe_db_close`. A call on `NULL` returns at its first test and uses
no connection.

The files on the device are a parameter of each call that reads them, as are the answers of the
libraries. The transport, the presence table, the cache, the plugins and the Matrix client of a
context take no part in what is modelled and are left out.

`koeSwitchAccount_keeps` says what a switch does not touch, and `koeSwitchAccount_db` what it leaves
as the handle.
-/

set_option autoImplicit false
set_option relaxedAutoImplicit false

namespace KoeCore

open ByteWire RowTable

/-! ### Connections -/

/-- A connection that was opened, and the tables behind it. -/
structure Connection where
  isOpen : Bool
  queue : QueueTable
  contacts : ContactTable

/-- The connections by handle, and the handles that were used after they were closed. -/
structure Connections where
  all : List Connection
  misused : List ℕ

namespace Connections

/-- The handle is one of an open connection. -/
def IsOpen (conns : Connections) (handle : ℕ) : Prop :=
  ∃ conn, conns.all[handle]? = some conn ∧ conn.isOpen = true

/-- A call on a handle, which changes the connection. -/
def use (conns : Connections) (handle : Option ℕ) (change : Connection → Connection) :
    Connections :=
  match handle with
  | none => conns
  | some handle =>
    match conns.all[handle]? with
    | some conn =>
      if conn.isOpen then { conns with all := conns.all.set handle (change conn) }
      else { conns with misused := conns.misused ++ [handle] }
    | none => { conns with misused := conns.misused ++ [handle] }

/-- `koe_queue_push` on the connection of a queue, if a packet reaches it. -/
def push (conns : Connections) (handle : Option ℕ) (env : PushEnv) (maxPerPeer : ℤ) :
    Option Packet → Connections
  | none => conns
  | some pkt => conns.use handle fun conn ↦
    { conn with queue := (koeQueuePush env maxPerPeer conn.queue pkt).2 }

/-- `koe_contact_book_save`, which calls `koe_db_contact_upsert` once for each contact. -/
def save (conns : Connections) (handle : Option ℕ) (done : Contact → Bool) (book : ContactBook) :
    Connections :=
  if book.contacts = [] then conns
  else conns.use handle fun conn ↦
    { conn with contacts := (koeContactBookSave done book conn.contacts).2 }

end Connections

/-- The new handle, or `none` for `NULL`, and the connections after the call. The tables are those
in the file, if it can be opened; only SQLite is compiled in. -/
def koeDbOpen (sqlite : Bool) (stored : Option (QueueTable × ContactTable)) (conns : Connections) :
    Option ℕ × Connections :=
  match stored with
  | some (queue, contacts) =>
    if sqlite then
      (some conns.all.length, { conns with all := conns.all ++ [⟨true, queue, contacts⟩] })
    else (none, conns)
  | none => (none, conns)

def koeDbClose (conns : Connections) (handle : Option ℕ) : Connections :=
  conns.use handle fun conn ↦ { conn with isOpen := false }

/-- The schema is already there. -/
def koeDbMigrate (conns : Connections) (handle : Option ℕ) : Connections := conns.use handle id

/-! ### Contexts -/

/-- The fields of `koe_config_t` that are read: the directory, the passphrase, whether the backend
is SQLite, and the limit of the queue. -/
structure Config where
  dataRoot : List UInt8
  passphrase : List UInt8
  sqlite : Bool
  queueMaxPerPeer : ℤ

/-- The limit that `koe_init` passes to `koe_queue_open`. -/
def Config.queueLimit (cfg : Config) : ℤ :=
  if 0 < cfg.queueMaxPerPeer then cfg.queueMaxPerPeer else koeQueueMaxPerPeer

/-- `koe_queue_t`. -/
structure Queue where
  db : Option ℕ
  maxPerPeer : ℤ

/-- `koe_ctx_t`. -/
structure KoeCtx where
  cfg : Config
  registry : AccountRegistry
  account : Account
  db : Option ℕ
  contacts : ContactBook
  queue : Queue
  sessions : SessionTable
  initialised : Bool

/-- The context that `memset(.., 0, ..)` leaves. -/
def KoeCtx.zero : KoeCtx where
  cfg := ⟨[], [], false, 0⟩
  registry := AccountRegistry.zero
  account := Account.zero
  db := none
  contacts := koeContactBookInit
  queue := ⟨none, 0⟩
  sessions := koeSessionTableInit
  initialised := false

/-- The part of a context that the sends and the handshakes work on. -/
def KoeCtx.core (ctx : KoeCtx) : Ctx := ⟨ctx.initialised, ctx.account.keys, ctx.sessions⟩

/-- A context, and the connections of the process. -/
structure Life where
  ctx : KoeCtx
  conns : Connections

/-- A process that has not called anything yet. -/
def Life.start : Life := ⟨KoeCtx.zero, ⟨[], []⟩⟩

/-- What `koe_init` takes from its environment: whether libsodium starts, the files, the answers to
`koe_account_create`, the tables in the database file, and the `calloc` of a contact. -/
structure InitEnv where
  sodiumInit : Bool
  files : Files
  create : CreateEnv
  stored : Option (QueueTable × ContactTable)
  contactAlloc : ContactRow → Bool

/-- What `koe_switch_account` takes from its environment: which upserts are carried out, the files,
the tables in the new database file, and the `calloc` of a contact. -/
structure SwitchEnv where
  done : Contact → Bool
  files : Files
  stored : Option (QueueTable × ContactTable)
  contactAlloc : ContactRow → Bool

/-- The book that is loaded after a database was opened. -/
def loadedBook (alloc : ContactRow → Bool) (stored : Option (QueueTable × ContactTable)) :
    ContactBook :=
  (koeContactBookLoad alloc koeContactBookInit ((stored.map Prod.snd).getD [])).2

section Functions

variable (S : Sodium) (pwhash : Pwhash)

/-- The account that `koe_init` loads, a new one when there is none: the return code, and the
account and the registry after the call. -/
def firstAccount (env : InitEnv) (cfg : Config) (reg : AccountRegistry) :
    ℤ × Account × AccountRegistry :=
  if reg.count = 0 then
    let created := koeAccountCreate S pwhash env.create env.files Account.zero reg (ascii "me")
      cfg.passphrase
    (created.rc, created.account, created.registry)
  else
    let activated := koeAccountActivate S pwhash env.files Account.zero reg 0 cfg.passphrase
    (activated.1, activated.2, reg)

/-- The return code, and the state after the call. -/
def koeInit (env : InitEnv) (cfg : Config) (conns : Connections) : ℤ × Life :=
  let ctx := { KoeCtx.zero with cfg := cfg }
  if !env.sodiumInit then (-1, ⟨ctx, conns⟩)
  else
    let loaded := koeAccountRegistryLoad env.files cfg.dataRoot
    let ctx := { ctx with registry := loaded.2 }
    if loaded.1 ≠ 0 then (-1, ⟨ctx, conns⟩)
    else
      let first := firstAccount S pwhash env cfg ctx.registry
      let ctx := { ctx with account := first.2.1, registry := first.2.2 }
      if first.1 ≠ 0 then (-1, ⟨ctx, conns⟩)
      else
        let opened := koeDbOpen cfg.sqlite env.stored conns
        let ctx := { ctx with db := opened.1 }
        if opened.1 = none then (-1, ⟨ctx, opened.2⟩)
        else
          (0,
            ⟨{ ctx with
                contacts := loadedBook env.contactAlloc env.stored
                queue := ⟨opened.1, koeQueueOpen cfg.queueLimit⟩
                sessions := koeSessionTableInit
                initialised := true },
              koeDbMigrate opened.2 opened.1⟩)

/-- The state after the call; `done` says which upserts are carried out. -/
def koeShutdown (done : Contact → Bool) (life : Life) : Life :=
  if !life.ctx.initialised then life
  else
    let conns :=
      if life.ctx.db.isSome then life.conns.save life.ctx.db done life.ctx.contacts else life.conns
    { ctx :=
        { life.ctx with
          queue := { life.ctx.queue with db := none }
          db := none
          contacts := koeContactBookInit
          account := koeAccountDeactivate life.ctx.account
          initialised := false }
      conns := koeDbClose conns life.ctx.db }

/-- The return code, and the state after the call. -/
def koeSwitchAccount (env : SwitchEnv) (life : Life) (idx : ℤ) (passphrase : List UInt8) :
    ℤ × Life :=
  if !life.ctx.initialised then (-1, life)
  else
    let conns := koeDbClose (life.conns.save life.ctx.db env.done life.ctx.contacts) life.ctx.db
    let ctx :=
      { life.ctx with
        db := none
        contacts := koeContactBookInit
        account := koeAccountDeactivate life.ctx.account }
    let activated := koeAccountActivate S pwhash env.files ctx.account ctx.registry idx passphrase
    let ctx := { ctx with account := activated.2 }
    if activated.1 ≠ 0 then (-1, ⟨ctx, conns⟩)
    else
      let opened := koeDbOpen ctx.cfg.sqlite env.stored conns
      let ctx := { ctx with db := opened.1 }
      if opened.1 = none then (-1, ⟨ctx, opened.2⟩)
      else (0, ⟨{ ctx with contacts := loadedBook env.contactAlloc env.stored }, opened.2⟩)

end Functions

/-- The return code, and the state after the call. The key of the contact is not looked up; it is a
block of zero bytes. -/
def koeAddContact (alloc : Bool) (now : ℤ) (done : Contact → Bool) (life : Life)
    (displayName : List UInt8) : ℤ × Life :=
  if !life.ctx.initialised then (-1, life)
  else
    let added := koeContactAdd alloc now life.ctx.contacts (Block.zero 32) displayName
    let ctx := { life.ctx with contacts := added.2 }
    if added.1 ≠ 0 then (-1, ⟨ctx, life.conns⟩)
    else (0, ⟨ctx, life.conns.save ctx.db done ctx.contacts⟩)

/-! ### Runs -/

/-- A call of a run. The calls on the session table stand for `koe_session_establish`,
`koe_session_active`, `koe_session_close`, `koe_sessions_cleanup` and `koe_poll`, and the search for
what `koe_message_recv_and_decrypt` does to the context. -/
inductive LifeCall
  | init (env : InitEnv) (cfg : Config)
  | shutdown (done : Contact → Bool)
  | switchAccount (env : SwitchEnv) (idx : ℤ) (passphrase : List UInt8)
  | sendText (env : SendEnv) (toPk : Block 32) (text : List UInt8) (destructTtl : UInt32)
  | sendTextScheduled (env : SendEnv) (toPk : Block 32) (text : List UInt8) (sendAtUnix : ℤ)
  | sendEncrypted (env : SendEnv) (toPk : Block 32) (body : List UInt8) (pktOut : Packet)
  | sendFile (env : SendEnv) (offerEnv : OfferEnv) (toPk : Block 32) (filePath : List UInt8)
  | addContact (alloc : Bool) (now : ℤ) (done : Contact → Bool) (displayName : List UInt8)
  | session (call : TableCall)
  | handshake (env : HandshakeEnv) (now : ℤ) (inPkt out : Packet) (completeOut : ℤ)

/-- The state with other sessions. -/
def Life.withSessions (life : Life) (sessions : SessionTable) : Life :=
  { life with ctx := { life.ctx with sessions := sessions } }

/-- The state after `koe_queue_push` on the queue of the context, if a packet reaches it. -/
def Life.push (life : Life) (env : PushEnv) (pkt : Option Packet) : Life :=
  { life with conns := life.conns.push life.ctx.queue.db env life.ctx.queue.maxPerPeer pkt }

/-- The state after a call. What a send returns, and what it does to the context, does not depend on
the queue, so the table it is given there does not matter. -/
def Life.step (S : Sodium) (pwhash : Pwhash) (version : Version) (life : Life) : LifeCall → Life
  | .init env cfg => (koeInit S pwhash env cfg life.conns).2
  | .shutdown done => koeShutdown done life
  | .switchAccount env idx passphrase => (koeSwitchAccount S pwhash env life idx passphrase).2
  | .sendText env toPk text destructTtl =>
    let sent := koeSendText S env life.ctx.core life.ctx.queue.maxPerPeer Table.empty toPk text
      destructTtl
    (life.push env.push (pushedText S env life.ctx.core toPk text destructTtl)).withSessions
      sent.1.ctx.sessions
  | .sendTextScheduled env toPk text sendAtUnix =>
    life.withSessions (koeSendTextScheduled S env life.ctx.core toPk text sendAtUnix).ctx.sessions
  | .sendEncrypted env toPk body pktOut =>
    life.withSessions
      (koeMessageSendEncrypted S env life.ctx.core toPk body pktOut).1.ctx.sessions
  | .sendFile env offerEnv toPk filePath =>
    life.push env.push (pushedOffer S env offerEnv life.ctx.core toPk filePath)
  | .addContact alloc now done displayName => (koeAddContact alloc now done life displayName).2
  | .session call =>
    if life.ctx.initialised then life.withSessions (call.step life.ctx.sessions) else life
  | .handshake env now inPkt out completeOut =>
    life.withSessions
      (koeHandshakeProcess S version env now life.ctx.core inPkt out completeOut).ctx.sessions

/-! ### What calls do to the connections -/

namespace Connections

variable {conns : Connections} {handle : ℕ}

theorem length_use (conns : Connections) (handle : Option ℕ) (change : Connection → Connection) :
    (conns.use handle change).all.length = conns.all.length := by
  unfold use
  rcases handle with _ | handle
  · rfl
  dsimp only
  rcases conns.all[handle]? with _ | conn
  · rfl
  dsimp only
  split_ifs
  · exact List.length_set
  · rfl

theorem IsOpen.lt_length (hopen : conns.IsOpen handle) : handle < conns.all.length := by
  obtain ⟨conn, hconn, -⟩ := hopen
  exact (List.getElem?_eq_some_iff.mp hconn).1

/-- Assumes: an open connection. -/
theorem use_eq {conn : Connection} (hconn : conns.all[handle]? = some conn)
    (hopen : conn.isOpen = true) (change : Connection → Connection) :
    conns.use (some handle) change =
      { conns with all := conns.all.set handle (change conn) } := by
  simp [use, hconn, hopen]

/-- Assumes: the handle of an open connection. -/
theorem IsOpen.misused_use (hopen : conns.IsOpen handle) (change : Connection → Connection) :
    (conns.use (some handle) change).misused = conns.misused := by
  obtain ⟨conn, hconn, hisOpen⟩ := hopen
  rw [use_eq hconn hisOpen]

/-- A call that does not close its connection leaves it open. Assumes: such a call, and the handle
of an open connection. -/
theorem IsOpen.use (hopen : conns.IsOpen handle) {change : Connection → Connection}
    (hchange : ∀ conn, (change conn).isOpen = conn.isOpen) :
    (conns.use (some handle) change).IsOpen handle := by
  have hlt := hopen.lt_length
  obtain ⟨conn, hconn, hisOpen⟩ := hopen
  rw [use_eq hconn hisOpen]
  refine ⟨change conn, ?_, (hchange conn).trans hisOpen⟩
  exact List.getElem?_set_self hlt

theorem IsOpen.push (hopen : conns.IsOpen handle) (env : PushEnv) (maxPerPeer : ℤ)
    (pkt : Option Packet) :
    (conns.push (some handle) env maxPerPeer pkt).IsOpen handle ∧
      (conns.push (some handle) env maxPerPeer pkt).misused = conns.misused := by
  rcases pkt with _ | pkt
  · exact ⟨hopen, rfl⟩
  · exact ⟨hopen.use fun _ ↦ rfl, hopen.misused_use _⟩

theorem IsOpen.save (hopen : conns.IsOpen handle) (done : Contact → Bool) (book : ContactBook) :
    (conns.save (some handle) done book).IsOpen handle ∧
      (conns.save (some handle) done book).misused = conns.misused := by
  unfold Connections.save
  split_ifs
  · exact ⟨hopen, rfl⟩
  · exact ⟨hopen.use fun _ ↦ rfl, hopen.misused_use _⟩

theorem length_save (conns : Connections) (handle : Option ℕ) (done : Contact → Bool)
    (book : ContactBook) : (conns.save handle done book).all.length = conns.all.length := by
  unfold save
  split_ifs
  · rfl
  · exact length_use conns handle _

end Connections

/-- Opening fails and changes nothing, or gives the next handle. -/
theorem koeDbOpen_cases (sqlite : Bool) (stored : Option (QueueTable × ContactTable))
    (conns : Connections) :
    koeDbOpen sqlite stored conns = (none, conns) ∨
      ∃ conn : Connection, conn.isOpen = true ∧ koeDbOpen sqlite stored conns =
        (some conns.all.length, { conns with all := conns.all ++ [conn] }) := by
  unfold koeDbOpen
  rcases stored with _ | ⟨queue, contacts⟩
  · exact Or.inl rfl
  · cases sqlite with
    | false => exact Or.inl rfl
    | true => exact Or.inr ⟨⟨true, queue, contacts⟩, rfl, rfl⟩

/-! ### What a switch does -/

section Switch

variable (S : Sodium) (pwhash : Pwhash)

/-- A switch leaves the queue's handle, the sessions and the mark of an initialised context alone,
whatever it returns. -/
theorem koeSwitchAccount_keeps (env : SwitchEnv) (life : Life) (idx : ℤ)
    (passphrase : List UInt8) :
    (koeSwitchAccount S pwhash env life idx passphrase).2.ctx.queue = life.ctx.queue ∧
      (koeSwitchAccount S pwhash env life idx passphrase).2.ctx.sessions = life.ctx.sessions ∧
      (koeSwitchAccount S pwhash env life idx passphrase).2.ctx.initialised =
        life.ctx.initialised := by
  unfold koeSwitchAccount
  dsimp only
  split_ifs
  · exact ⟨rfl, rfl, rfl⟩
  · exact ⟨rfl, rfl, rfl⟩
  · exact ⟨rfl, rfl, rfl⟩
  · exact ⟨rfl, rfl, rfl⟩

/-- The database handle after a switch is `NULL` or that of a connection opened in it. Assumes: an
initialised context. -/
theorem koeSwitchAccount_db {life : Life} (hinit : life.ctx.initialised = true) (env : SwitchEnv)
    (idx : ℤ) (passphrase : List UInt8) :
    (koeSwitchAccount S pwhash env life idx passphrase).2.ctx.db = none ∨
      (koeSwitchAccount S pwhash env life idx passphrase).2.ctx.db =
        some life.conns.all.length := by
  unfold koeSwitchAccount
  rw [hinit, if_neg (by decide)]
  dsimp only
  split_ifs with hactivated hnone
  · exact Or.inl rfl
  · exact Or.inl hnone
  · rcases koeDbOpen_cases life.ctx.cfg.sqlite env.stored
      (koeDbClose (life.conns.save life.ctx.db env.done life.ctx.contacts) life.ctx.db) with
      hopened | ⟨conn, -, hopened⟩
    · exact absurd (congrArg Prod.fst hopened) hnone
    · refine Or.inr ((congrArg Prod.fst hopened).trans ?_)
      rw [koeDbClose, Connections.length_use, Connections.length_save]

/-- Assumes: an initialised context, an account that can be activated, and a database that can be
opened. -/
theorem koeSwitchAccount_succeeds {life : Life} (hinit : life.ctx.initialised = true)
    {env : SwitchEnv} {idx : ℤ} {passphrase : List UInt8} {account : Account}
    (hactivated : koeAccountActivate S pwhash env.files (koeAccountDeactivate life.ctx.account)
      life.ctx.registry idx passphrase = (0, account))
    (hsqlite : life.ctx.cfg.sqlite = true) {queue : QueueTable} {contacts : ContactTable}
    (hstored : env.stored = some (queue, contacts)) :
    koeSwitchAccount S pwhash env life idx passphrase =
      (0, ⟨{ life.ctx with
          db := some life.conns.all.length
          contacts := loadedBook env.contactAlloc env.stored
          account := account },
        let closed :=
          koeDbClose (life.conns.save life.ctx.db env.done life.ctx.contacts) life.ctx.db
        { closed with all := closed.all ++ [⟨true, queue, contacts⟩] }⟩) := by
  have hlength : (koeDbClose (life.conns.save life.ctx.db env.done life.ctx.contacts)
      life.ctx.db).all.length = life.conns.all.length := by
    rw [koeDbClose, Connections.length_use, Connections.length_save]
  unfold koeSwitchAccount koeDbOpen
  simp only [hinit, hactivated, hsqlite, hstored, hlength]
  simp

end Switch

end KoeCore
