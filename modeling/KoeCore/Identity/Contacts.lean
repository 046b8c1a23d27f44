import KoeCore.Identity.File
import KoeCore.Library.Slots

/-!
# The contact book

The contact book of `koe_identity.c`, a linked list with a counter, and the contacts table of
`koe_db.c` that it is saved to. A save upserts every contact and deletes nothing, so the row of a
contact that was removed from the book stays in the table.

A load asks `koe_db_contact_list` for the rows. The only definition of that function is the one in
`koe_identity.c`, which reports no rows whatever the table holds, so a load leaves a book as it is
(`koeContactBookLoad_eq`). A run of edits and saves therefore comes back from the database exactly
when the book is empty when it is saved (`koeContactBook_reloads_iff`).
-/

set_option autoImplicit false
set_option relaxedAutoImplicit false

namespace KoeCore

open ByteWire

/-- `koe_contact_t`, without its link. -/
structure Contact where
  pk : Block 32
  displayName : List UInt8
  shortId : List UInt8
  addedAt : ℤ
  lastSeen : ℤ
  verified : ℤ
  blocked : ℤ
deriving DecidableEq

/-- `koe_contact_book_t`: the contacts from the head of the list on, and the counter. -/
structure ContactBook where
  contacts : List Contact
  count : ℤ
deriving DecidableEq

/-- `koe_db_contact_t`, a row of the contacts table. -/
structure ContactRow where
  pk : Block 32
  displayName : List UInt8
  shortId : List UInt8
  addedAt : ℤ
  lastSeen : ℤ
  blocked : ℤ
  verified : ℤ
deriving DecidableEq

/-- The contacts table. Its primary key is `pk`. -/
abbrev ContactTable := List ContactRow

/-! ### The table operations -/

/-- `INSERT OR REPLACE`: the return code, and the table after the call. SQLite may refuse. -/
def koeDbContactUpsert (done : Bool) (db : ContactTable) (row : ContactRow) : ℤ × ContactTable :=
  if done then (0, db.filter (fun other ↦ other.pk != row.pk) ++ [row]) else (-1, db)

/-- The return code, and the rows written to `out`. No row of the table is looked at. -/
def koeDbContactList (_db : ContactTable) (_max : ℕ) : ℤ × List ContactRow := (0, [])

/-! ### The book -/

def koeContactBookInit : ContactBook := ⟨[], 0⟩

/-- `KOE_DISPLAY_NAME_MAX`. -/
def koeDisplayNameMax : ℕ := 64

/-- The contact that a load makes of a row. -/
def ContactRow.contact (row : ContactRow) : Contact where
  pk := row.pk
  displayName := strncpy (koeDisplayNameMax - 1) row.displayName
  shortId := strncpy (koeShortIdLen - 1) row.shortId
  addedAt := row.addedAt
  lastSeen := row.lastSeen
  verified := row.verified
  blocked := row.blocked

/-- The loop of `koe_contact_book_load`; `alloc` says whether the `calloc` for a row succeeds. -/
def loadLoop (alloc : ContactRow → Bool) : List ContactRow → ContactBook → ℤ × ContactBook
  | [], book => (0, book)
  | row :: rows, book =>
    if !alloc row then (-1, book)
    else loadLoop alloc rows ⟨row.contact :: book.contacts, book.count + 1⟩

/-- The return code, and the book after the call. -/
def koeContactBookLoad (alloc : ContactRow → Bool) (book : ContactBook) (db : ContactTable) :
    ℤ × ContactBook :=
  let listed := koeDbContactList db 512
  if listed.1 ≠ 0 then (-1, book) else loadLoop alloc listed.2 book

/-- The row that a save makes of a contact. -/
def Contact.row (contact : Contact) : ContactRow where
  pk := contact.pk
  displayName := strncpy 63 contact.displayName
  shortId := strncpy 15 contact.shortId
  addedAt := contact.addedAt
  lastSeen := contact.lastSeen
  blocked := contact.blocked
  verified := contact.verified

/-- The return code, and the table after the call; `done` says which upserts SQLite carries out.
Their return codes are dropped. -/
def koeContactBookSave (done : Contact → Bool) (book : ContactBook) (db : ContactTable) :
    ℤ × ContactTable :=
  (0, book.contacts.foldl
    (fun db contact ↦ (koeDbContactUpsert (done contact) db contact.row).2) db)

/-- The test of the searching loops. -/
def Contact.isFor (pk : Block 32) (contact : Contact) : Bool := contact.pk == pk

def koeContactFind (book : ContactBook) (pk : Block 32) : Option Contact :=
  book.contacts.find? (Contact.isFor pk)

/-- The contact that an addition makes. -/
def Contact.added (now : ℤ) (pk : Block 32) (displayName : List UInt8) : Contact where
  pk := pk
  displayName := strncpy (koeDisplayNameMax - 1) displayName
  shortId := koeIdentityShortId pk
  addedAt := now
  lastSeen := 0
  verified := 0
  blocked := 0

/-- The return code, and the book after the call, given whether `calloc` succeeds and the clock. -/
def koeContactAdd (alloc : Bool) (now : ℤ) (book : ContactBook) (pk : Block 32)
    (displayName : List UInt8) : ℤ × ContactBook :=
  if (koeContactFind book pk).isSome then (-1, book)
  else if !alloc then (-1, book)
  else (0, ⟨.added now pk displayName :: book.contacts, book.count + 1⟩)

/-- The return code, and the book after the call. -/
def koeContactRemove (book : ContactBook) (pk : Block 32) : ℤ × ContactBook :=
  if book.contacts.any (Contact.isFor pk) then
    (0, ⟨book.contacts.eraseP (Contact.isFor pk), book.count - 1⟩)
  else (-1, book)

/-- The shared body of the two setters: the first contact with the key is changed. -/
def setContact (change : Contact → Contact) (book : ContactBook) (pk : Block 32) :
    ℤ × ContactBook :=
  if (koeContactFind book pk).isSome then
    (0, { book with contacts := Slots.updateFirst (Contact.isFor pk) change book.contacts })
  else (-1, book)

def koeContactSetVerified (book : ContactBook) (pk : Block 32) (v : ℤ) : ℤ × ContactBook :=
  setContact (fun contact ↦ { contact with verified := v }) book pk

def koeContactSetBlocked (book : ContactBook) (pk : Block 32) (b : ℤ) : ℤ × ContactBook :=
  setContact (fun contact ↦ { contact with blocked := b }) book pk

/-! ### Runs -/

/-- A call of a run on a book and its database. -/
inductive ContactCall
  | add (alloc : Bool) (now : ℤ) (pk : Block 32) (displayName : List UInt8)
  | remove (pk : Block 32)
  | setVerified (pk : Block 32) (v : ℤ)
  | setBlocked (pk : Block 32) (b : ℤ)
  | save (done : Contact → Bool)

/-- A book and the table it is saved to. -/
structure ContactState where
  book : ContactBook
  db : ContactTable

namespace ContactState

def step (state : ContactState) : ContactCall → ContactState
  | .add alloc now pk displayName =>
    { state with book := (koeContactAdd alloc now state.book pk displayName).2 }
  | .remove pk => { state with book := (koeContactRemove state.book pk).2 }
  | .setVerified pk v => { state with book := (koeContactSetVerified state.book pk v).2 }
  | .setBlocked pk b => { state with book := (koeContactSetBlocked state.book pk b).2 }
  | .save done => { state with db := (koeContactBookSave done state.book state.db).2 }

/-- A book that is loaded from a database. -/
def loaded (alloc : ContactRow → Bool) (db : ContactTable) : ContactState :=
  ⟨(koeContactBookLoad alloc koeContactBookInit db).2, db⟩

end ContactState

/-! ### No key twice -/

/-- No key is in the book twice. -/
def ContactBook.Distinct (book : ContactBook) : Prop := (book.contacts.map Contact.pk).Nodup

section Book

variable {book : ContactBook}

theorem distinct_koeContactAdd (hdistinct : book.Distinct) (alloc : Bool) (now : ℤ) (pk : Block 32)
    (displayName : List UInt8) : (koeContactAdd alloc now book pk displayName).2.Distinct := by
  unfold koeContactAdd
  split_ifs with hfound halloc
  · exact hdistinct
  · exact hdistinct
  · refine List.nodup_cons.mpr ⟨?_, hdistinct⟩
    intro hpk
    obtain ⟨contact, hcontact, heq⟩ := List.mem_map.mp hpk
    apply hfound
    rw [koeContactFind, List.find?_isSome]
    exact ⟨contact, hcontact, beq_iff_eq.mpr heq⟩

theorem distinct_koeContactRemove (hdistinct : book.Distinct) (pk : Block 32) :
    (koeContactRemove book pk).2.Distinct := by
  unfold koeContactRemove
  split_ifs with hany
  · exact (List.eraseP_sublist.map Contact.pk).nodup hdistinct
  · exact hdistinct

/-- Assumes: a change that keeps the key. -/
theorem distinct_setContact (hdistinct : book.Distinct) (change : Contact → Contact)
    (hchange : ∀ contact, (change contact).pk = contact.pk) (pk : Block 32) :
    (setContact change book pk).2.Distinct := by
  unfold setContact
  split_ifs with hfound
  · change ((Slots.updateFirst (Contact.isFor pk) change book.contacts).map Contact.pk).Nodup
    rw [Slots.map_updateFirst hchange]
    exact hdistinct
  · exact hdistinct

end Book

/-! ### Coming back from the database -/

/-- A load adds no contact. -/
theorem koeContactBookLoad_eq (alloc : ContactRow → Bool) (book : ContactBook)
    (db : ContactTable) : koeContactBookLoad alloc book db = (0, book) := rfl

/-- After every run on a loaded book that ends with a save, loading the database into a fresh book
returns 0, and the loaded contacts are those of the saved book exactly when the saved book is
empty. -/
theorem koeContactBook_reloads_iff (alloc reloadAlloc : ContactRow → Bool) (db : ContactTable)
    (calls : List ContactCall) (done : Contact → Bool) :
    let edited := calls.foldl ContactState.step (ContactState.loaded alloc db)
    let saved := edited.step (.save done)
    let reloaded := koeContactBookLoad reloadAlloc koeContactBookInit saved.db
    reloaded.1 = 0 ∧
      (reloaded.2.contacts.Perm saved.book.contacts ↔ saved.book.contacts = []) := by
  intro edited saved reloaded
  have hreloaded : reloaded = (0, koeContactBookInit) :=
    koeContactBookLoad_eq reloadAlloc koeContactBookInit saved.db
  rw [hreloaded]
  exact ⟨rfl, List.nil_perm⟩

/-- A contact is added, saved and gone after the reload, and a contact that was saved and then
removed still has its row. -/
theorem koeContactBook_loses_contact :
    let pk := List.Vector.replicate 32 (1 : UInt8)
    let added := ContactCall.add true 0 pk [98, 111, 98]
    let saved := [added, .save fun _ ↦ true].foldl ContactState.step
      (ContactState.loaded (fun _ ↦ true) [])
    let reloaded := koeContactBookLoad (fun _ ↦ true) koeContactBookInit saved.db
    let removed := [added, .save fun _ ↦ true, .remove pk, .save fun _ ↦ true].foldl
      ContactState.step (ContactState.loaded (fun _ ↦ true) [])
    saved.book.contacts.length = 1 ∧ saved.db.length = 1 ∧ reloaded = (0, koeContactBookInit) ∧
      removed.book.contacts = [] ∧ removed.db.map ContactRow.pk = [pk] := by
  intro pk added saved reloaded removed
  refine ⟨rfl, rfl, rfl, rfl, rfl⟩

end KoeCore
