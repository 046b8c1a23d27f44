import KoeCore.Identity.Contacts
import KoeCore.Identity.ShortId
import KoeCore.Library.Keyed

/-!
# Contacts as finite maps

The contact book and the contacts table over whole runs, with the functions of `koe_db.c` on single
rows and with restarts. Both are meant to be finite maps from keys to contacts. `ContactMaps` is
that meaning: two partial maps, and for every call what it does to them and returns.

`koeContacts_refine_maps` says that the linked list and the table are these maps after every run, so
that searches find what the maps have and the next call returns what it returns for them, and that
the counter counts. It also says what a search by short id finds, which is not a map: some contact
of the book whose key begins with the same eight bytes, so not always the one that is meant.
-/

set_option autoImplicit false
set_option relaxedAutoImplicit false

namespace KoeCore

open ByteWire

/-! ### Single rows -/

/-- The return code, and the table after the call; `done` says whether SQLite carries the statement
out. -/
def koeDbContactDelete (done : Bool) (db : ContactTable) (pk : Block 32) : ℤ × ContactTable :=
  if done then (0, db.filter fun row ↦ row.pk != pk) else (-1, db)

/-- `UPDATE contacts SET .. WHERE pk=?`. It is no failure when there is no such row. -/
def updateContact (change : ContactRow → ContactRow) (done : Bool) (db : ContactTable)
    (pk : Block 32) : ℤ × ContactTable :=
  if done then (0, db.map fun row ↦ if row.pk = pk then change row else row) else (-1, db)

def koeDbContactSetBlocked (done : Bool) (db : ContactTable) (pk : Block 32) (blocked : ℤ) :
    ℤ × ContactTable :=
  updateContact (fun row ↦ { row with blocked := blocked }) done db pk

def koeDbContactSetVerified (done : Bool) (db : ContactTable) (pk : Block 32) (verified : ℤ) :
    ℤ × ContactTable :=
  updateContact (fun row ↦ { row with verified := verified }) done db pk

/-- What is copied out of a row, into a zeroed record. -/
def ContactRow.copied (row : ContactRow) : ContactRow :=
  { row with displayName := strncpy 63 row.displayName, shortId := strncpy 15 row.shortId }

/-- The row in `out`, or `none` for the return code `-1`. -/
def koeDbContactFind (db : ContactTable) (pk : Block 32) : Option ContactRow :=
  (db.find? fun row ↦ row.pk == pk).map ContactRow.copied

def koeContactFindByShortId (book : ContactBook) (shortId : List UInt8) : Option Contact :=
  book.contacts.find? fun contact ↦ contact.shortId == shortId

/-! ### Calls -/

/-- A call on the book, the table or both. `load` loads the table into the book as it is, and
`reload` into a new book, as after a restart. -/
inductive DirectoryCall
  | book (call : ContactCall)
  | load (alloc : ContactRow → Bool)
  | reload (alloc : ContactRow → Bool)
  | upsert (done : Bool) (row : ContactRow)
  | delete (done : Bool) (pk : Block 32)
  | setBlocked (done : Bool) (pk : Block 32) (blocked : ℤ)
  | setVerified (done : Bool) (pk : Block 32) (verified : ℤ)

/-- The return code of a call on the book. -/
def ContactCall.code (state : ContactState) : ContactCall → ℤ
  | .add alloc now pk displayName => (koeContactAdd alloc now state.book pk displayName).1
  | .remove pk => (koeContactRemove state.book pk).1
  | .setVerified pk v => (koeContactSetVerified state.book pk v).1
  | .setBlocked pk b => (koeContactSetBlocked state.book pk b).1
  | .save done => (koeContactBookSave done state.book state.db).1

/-- The return code, and the book and the table after a call. -/
def DirectoryCall.run (state : ContactState) : DirectoryCall → ℤ × ContactState
  | book call => (call.code state, state.step call)
  | load alloc =>
    let loaded := koeContactBookLoad alloc state.book state.db
    (loaded.1, { state with book := loaded.2 })
  | reload alloc =>
    let loaded := koeContactBookLoad alloc koeContactBookInit state.db
    (loaded.1, { state with book := loaded.2 })
  | upsert done row =>
    let stored := koeDbContactUpsert done state.db row
    (stored.1, { state with db := stored.2 })
  | delete done pk =>
    let stored := koeDbContactDelete done state.db pk
    (stored.1, { state with db := stored.2 })
  | setBlocked done pk blocked =>
    let stored := koeDbContactSetBlocked done state.db pk blocked
    (stored.1, { state with db := stored.2 })
  | setVerified done pk verified =>
    let stored := koeDbContactSetVerified done state.db pk verified
    (stored.1, { state with db := stored.2 })

def DirectoryCall.step (state : ContactState) (call : DirectoryCall) : ContactState :=
  (call.run state).2

/-! ### The maps -/

/-- The contacts of the book and of the table. -/
structure ContactMaps where
  book : Block 32 → Option Contact
  table : Block 32 → Option ContactRow

namespace ContactMaps

def empty : ContactMaps := ⟨fun _ ↦ none, fun _ ↦ none⟩

/-- The contact of a key, if there is one, is exchanged. -/
def setBook (maps : ContactMaps) (pk : Block 32) (contact : Option Contact) : ℤ × ContactMaps :=
  if (maps.book pk).isSome then (0, { maps with book := Function.update maps.book pk contact })
  else (-1, maps)

/-- The row of a key is exchanged, if the statement is carried out. -/
def setTable (maps : ContactMaps) (done : Bool) (pk : Block 32) (row : Option ContactRow) :
    ℤ × ContactMaps :=
  if done then (0, { maps with table := Function.update maps.table pk row }) else (-1, maps)

/-- The rows of the contacts of the book whose upserts are carried out, and the rows from before of
all other keys. -/
def saved (maps : ContactMaps) (done : Contact → Bool) (pk : Block 32) : Option ContactRow :=
  match maps.book pk with
  | some contact => if done contact then some contact.row else maps.table pk
  | none => maps.table pk

/-- What a call returns and does. -/
def run (maps : ContactMaps) : DirectoryCall → ℤ × ContactMaps
  | .book (.add alloc now pk displayName) =>
    if (maps.book pk).isSome ∨ alloc = false then (-1, maps)
    else
      (0, { maps with book := Function.update maps.book pk (some (.added now pk displayName)) })
  | .book (.remove pk) => maps.setBook pk none
  | .book (.setVerified pk v) =>
    maps.setBook pk ((maps.book pk).map fun contact ↦ { contact with verified := v })
  | .book (.setBlocked pk b) =>
    maps.setBook pk ((maps.book pk).map fun contact ↦ { contact with blocked := b })
  | .book (.save done) => (0, { maps with table := maps.saved done })
  | .load _ => (0, maps)
  | .reload _ => (0, { maps with book := fun _ ↦ none })
  | .upsert done row => maps.setTable done row.pk (some row)
  | .delete done pk => maps.setTable done pk none
  | .setBlocked done pk blocked =>
    maps.setTable done pk ((maps.table pk).map fun row ↦ { row with blocked := blocked })
  | .setVerified done pk verified =>
    maps.setTable done pk ((maps.table pk).map fun row ↦ { row with verified := verified })

def step (maps : ContactMaps) (call : DirectoryCall) : ContactMaps := (maps.run call).2

end ContactMaps

/-! ### One call -/

/-- The book and the table stand for the maps. -/
structure ContactState.Refines (state : ContactState) (maps : ContactMaps) : Prop where
  book : Keyed.lookup Contact.pk state.book.contacts = maps.book
  table : Keyed.lookup ContactRow.pk state.db = maps.table
  distinct : state.book.Distinct
  count : state.book.count = state.book.contacts.length
  shortIds : ∀ contact ∈ state.book.contacts, contact.shortId = koeIdentityShortId contact.pk

section Steps

variable {state : ContactState} {maps : ContactMaps}

/-- Assumes: a book that stands for a map. -/
theorem ContactState.Refines.find (hrefines : state.Refines maps) (pk : Block 32) :
    koeContactFind state.book pk = maps.book pk := congrFun hrefines.book pk

/-- Assumes: a book that stands for a map. -/
theorem ContactState.Refines.any (hrefines : state.Refines maps) (pk : Block 32) :
    state.book.contacts.any (Contact.isFor pk) = (maps.book pk).isSome := by
  rw [← hrefines.find, koeContactFind, Bool.eq_iff_iff, List.find?_isSome, List.any_eq_true]

/-- Assumes: maps for the book and the table. -/
theorem ContactState.Refines.add (hrefines : state.Refines maps) (alloc : Bool) (now : ℤ)
    (pk : Block 32) (displayName : List UInt8) :
    let call := DirectoryCall.book (.add alloc now pk displayName)
    (call.run state).1 = (maps.run call).1 ∧ (call.run state).2.Refines (maps.run call).2 := by
  intro call
  have hadd : koeContactAdd alloc now state.book pk displayName =
      if (maps.book pk).isSome ∨ alloc = false then (-1, state.book)
      else (0, ⟨.added now pk displayName :: state.book.contacts, state.book.count + 1⟩) := by
    rw [koeContactAdd, hrefines.find]
    cases alloc with
    | false => simp
    | true => simp
  have hrun : call.run state = ((koeContactAdd alloc now state.book pk displayName).1,
      { state with book := (koeContactAdd alloc now state.book pk displayName).2 }) := rfl
  have hdistinct := distinct_koeContactAdd hrefines.distinct alloc now pk displayName
  rw [hadd] at hdistinct
  rw [hrun, hadd, ContactMaps.run]
  split_ifs with hrefused
  · exact ⟨rfl, hrefines⟩
  · rw [if_neg hrefused] at hdistinct
    refine ⟨rfl, ?_, hrefines.table, hdistinct, ?_, ?_⟩
    · rw [← hrefines.book]
      exact Keyed.lookup_cons _ _
    · exact congrArg (· + 1) hrefines.count
    · exact List.forall_mem_cons.mpr ⟨rfl, hrefines.shortIds⟩

/-- Assumes: maps for the book and the table. -/
theorem ContactState.Refines.remove (hrefines : state.Refines maps) (pk : Block 32) :
    let call := DirectoryCall.book (.remove pk)
    (call.run state).1 = (maps.run call).1 ∧ (call.run state).2.Refines (maps.run call).2 := by
  intro call
  have hrun : call.run state = ((koeContactRemove state.book pk).1,
      { state with book := (koeContactRemove state.book pk).2 }) := rfl
  have hdistinct := distinct_koeContactRemove hrefines.distinct pk
  rw [koeContactRemove, hrefines.any] at hdistinct
  rw [hrun, koeContactRemove, hrefines.any, ContactMaps.run, ContactMaps.setBook]
  split_ifs with hfound
  · rw [if_pos hfound] at hdistinct
    refine ⟨rfl, ?_, hrefines.table, hdistinct, ?_, ?_⟩
    · rw [← hrefines.book]
      exact Keyed.lookup_eraseP hrefines.distinct pk
    · have hlength := List.length_eraseP (p := Contact.isFor pk) (l := state.book.contacts)
      rw [hrefines.any, if_pos hfound] at hlength
      have hcount := hrefines.count
      have hpos : 0 < state.book.contacts.length := by
        rw [← hrefines.any, List.any_eq_true] at hfound
        obtain ⟨contact, hcontact, -⟩ := hfound
        exact List.length_pos_of_mem hcontact
      dsimp only
      rw [hlength]
      omega
    · exact fun contact hcontact ↦ hrefines.shortIds contact (List.mem_of_mem_eraseP hcontact)
  · exact ⟨rfl, hrefines⟩

/-- The two setters. Assumes: maps for the book and the table, and a change that keeps the key and
the short id. -/
theorem ContactState.Refines.setContact (hrefines : state.Refines maps)
    (change : Contact → Contact) (hpk : ∀ contact, (change contact).pk = contact.pk)
    (hshortId : ∀ contact, (change contact).shortId = contact.shortId) (pk : Block 32) :
    let changed := KoeCore.setContact change state.book pk
    let exchanged := maps.setBook pk ((maps.book pk).map change)
    changed.1 = exchanged.1 ∧
      ({ state with book := changed.2 } : ContactState).Refines exchanged.2 := by
  have hdistinct := distinct_setContact hrefines.distinct change hpk pk
  rw [KoeCore.setContact, hrefines.find] at hdistinct
  simp only [KoeCore.setContact, ContactMaps.setBook, hrefines.find]
  split_ifs with hfound
  · rw [if_pos hfound] at hdistinct
    refine ⟨rfl, ?_, hrefines.table, hdistinct, ?_, ?_⟩
    · rw [← hrefines.book]
      exact Keyed.lookup_updateFirst change hpk _ pk
    · dsimp only
      rw [Slots.length_updateFirst]
      exact hrefines.count
    · intro contact hcontact
      rcases Slots.mem_updateFirst hcontact with hbefore | ⟨before, hbefore, -, rfl⟩
      · exact hrefines.shortIds contact hbefore
      · rw [hshortId, hpk]
        exact hrefines.shortIds before hbefore
  · exact ⟨rfl, hrefines⟩

/-- The upserts of a save, one after the other. Assumes: no key twice. -/
theorem lookup_save (done : Contact → Bool) (contacts : List Contact)
    (hdistinct : (contacts.map Contact.pk).Nodup) (db : ContactTable) (pk : Block 32) :
    Keyed.lookup ContactRow.pk (contacts.foldl
        (fun db contact ↦ (koeDbContactUpsert (done contact) db contact.row).2) db) pk =
      match Keyed.lookup Contact.pk contacts pk with
      | some contact =>
        if done contact then some contact.row else Keyed.lookup ContactRow.pk db pk
      | none => Keyed.lookup ContactRow.pk db pk := by
  induction contacts generalizing db with
  | nil => rfl
  | cons contact contacts ih =>
    obtain ⟨hnew, hrest⟩ := List.nodup_cons.mp hdistinct
    have hupsert : Keyed.lookup ContactRow.pk (koeDbContactUpsert (done contact) db contact.row).2 =
        if done contact then Function.update (Keyed.lookup ContactRow.pk db) contact.pk
          (some contact.row) else Keyed.lookup ContactRow.pk db := by
      rw [koeDbContactUpsert]
      split_ifs
      · exact Keyed.lookup_replace db contact.row
      · rfl
    rw [List.foldl_cons, ih hrest, hupsert, Keyed.lookup_cons]
    by_cases hpk : pk = contact.pk
    · -- No later upsert is for this key.
      have hlater : Keyed.lookup Contact.pk contacts pk = none := by
        refine List.find?_eq_none.mpr fun other hother heq ↦ hnew ?_
        exact List.mem_map.mpr ⟨other, hother, (beq_iff_eq.mp heq).trans hpk⟩
      rw [hlater, hpk, Function.update_self]
      dsimp only
      split_ifs
      · exact Function.update_self _ _ _
      · rfl
    · have hsame : (if done contact then Function.update (Keyed.lookup ContactRow.pk db) contact.pk
          (some contact.row) else Keyed.lookup ContactRow.pk db) pk =
            Keyed.lookup ContactRow.pk db pk := by
        split_ifs
        · exact Function.update_of_ne hpk _ _
        · rfl
      rw [Function.update_of_ne hpk, hsame]

/-- The statements on one row. Assumes: maps for the book and the table. -/
theorem ContactState.Refines.setTable (hrefines : state.Refines maps) {db : ContactTable}
    {pk : Block 32} {row : Option ContactRow} (hdb : Keyed.lookup ContactRow.pk db =
      Function.update (Keyed.lookup ContactRow.pk state.db) pk row) (done : Bool) :
    let stored : ℤ × ContactTable := if done then (0, db) else (-1, state.db)
    let exchanged := maps.setTable done pk row
    stored.1 = exchanged.1 ∧
      ({ state with db := stored.2 } : ContactState).Refines exchanged.2 := by
  simp only [ContactMaps.setTable]
  split_ifs
  · refine ⟨rfl, hrefines.book, ?_, hrefines.distinct, hrefines.count, hrefines.shortIds⟩
    rw [← hrefines.table]
    exact hdb
  · exact ⟨rfl, hrefines⟩

/-- Every call returns what it returns for the maps, and does to the book and the table what it does
to them. Assumes: maps for the book and the table. -/
theorem ContactState.Refines.run (hrefines : state.Refines maps) (call : DirectoryCall) :
    (call.run state).1 = (maps.run call).1 ∧ (call.run state).2.Refines (maps.run call).2 := by
  cases call with
  | book call =>
    cases call with
    | add alloc now pk displayName => exact hrefines.add alloc now pk displayName
    | remove pk => exact hrefines.remove pk
    | setVerified pk v =>
      exact hrefines.setContact (fun contact ↦ { contact with verified := v }) (fun _ ↦ rfl)
        (fun _ ↦ rfl) pk
    | setBlocked pk b =>
      exact hrefines.setContact (fun contact ↦ { contact with blocked := b }) (fun _ ↦ rfl)
        (fun _ ↦ rfl) pk
    | save done =>
      refine ⟨rfl, hrefines.book, ?_, hrefines.distinct, hrefines.count, hrefines.shortIds⟩
      funext pk
      have hsave := lookup_save done state.book.contacts hrefines.distinct state.db pk
      rw [hrefines.book, hrefines.table] at hsave
      exact hsave
  | load alloc => exact ⟨rfl, hrefines⟩
  | reload alloc =>
    exact ⟨rfl, rfl, hrefines.table, List.nodup_nil, rfl,
      fun _ hmem ↦ absurd hmem List.not_mem_nil⟩
  | upsert done row => exact hrefines.setTable (Keyed.lookup_replace state.db row) done
  | delete done pk => exact hrefines.setTable (Keyed.lookup_filter_ne state.db pk) done
  | setBlocked done pk blocked =>
    rw [ContactMaps.run, ← hrefines.table]
    exact hrefines.setTable (Keyed.lookup_map (fun row ↦ { row with blocked := blocked })
      (fun _ ↦ rfl) state.db pk) done
  | setVerified done pk verified =>
    rw [ContactMaps.run, ← hrefines.table]
    exact hrefines.setTable (Keyed.lookup_map (fun row ↦ { row with verified := verified })
      (fun _ ↦ rfl) state.db pk) done

end Steps

/-- Two keys have the same short id exactly when their first eight bytes are the same. -/
theorem koeIdentityShortId_eq_iff (pk other : Block 32) :
    koeIdentityShortId pk = koeIdentityShortId other ↔
      pk.toList.take 8 = other.toList.take 8 := by
  constructor
  · intro hids
    refine bigEndian_injective (by simp) ?_
    rw [← base58Value_koeIdentityShortId, hids, base58Value_koeIdentityShortId]
  · intro hbytes
    rw [koeIdentityShortId, hbytes]
    rfl

/-- The contact book and the contacts table are finite maps, after every run from an empty book and
an empty table. Searches by key find what the maps have, the next call returns what it returns for
the maps, and the counter is the number of keys in the book. A search by short id finds a contact of
the book whose key begins with the same eight bytes, and nothing only if there is none. -/
theorem koeContacts_refine_maps (calls : List DirectoryCall) :
    let state := calls.foldl DirectoryCall.step ⟨koeContactBookInit, []⟩
    let maps := calls.foldl ContactMaps.step ContactMaps.empty
    (∀ pk, koeContactFind state.book pk = maps.book pk ∧
        koeDbContactFind state.db pk = (maps.table pk).map ContactRow.copied) ∧
      (∀ call : DirectoryCall, (call.run state).1 = (maps.run call).1) ∧
      (∃ keys : List (Block 32), keys.Nodup ∧ state.book.count = keys.length ∧
        ∀ pk, pk ∈ keys ↔ (maps.book pk).isSome = true) ∧
      ∀ pk, match koeContactFindByShortId state.book (koeIdentityShortId pk) with
        | some contact =>
          maps.book contact.pk = some contact ∧ contact.pk.toList.take 8 = pk.toList.take 8
        | none => ∀ other : Block 32, other.toList.take 8 = pk.toList.take 8 →
          maps.book other = none := by
  intro state maps
  have hrefines : state.Refines maps := by
    have hstart : (⟨koeContactBookInit, []⟩ : ContactState).Refines ContactMaps.empty :=
      ⟨rfl, rfl, List.nodup_nil, rfl, fun _ hmem ↦ absurd hmem List.not_mem_nil⟩
    exact List.foldl_rel hstart fun call _ state maps hbefore ↦ (hbefore.run call).2
  refine ⟨fun pk ↦ ⟨hrefines.find pk, ?_⟩, fun call ↦ (hrefines.run call).1, ?_, fun pk ↦ ?_⟩
  · rw [koeDbContactFind, ← hrefines.table]
    rfl
  · refine ⟨state.book.contacts.map Contact.pk, hrefines.distinct, ?_, fun pk ↦ ?_⟩
    · rw [List.length_map]
      exact hrefines.count
    · rw [← hrefines.book, Keyed.isSome_lookup]
  · rw [koeContactFindByShortId]
    split
    · next contact hfound =>
      have hcontact := List.mem_of_find?_eq_some hfound
      have hid : contact.shortId = koeIdentityShortId pk := by simpa using List.find?_some hfound
      rw [hrefines.shortIds contact hcontact] at hid
      rw [← hrefines.book]
      exact ⟨Keyed.lookup_of_mem hrefines.distinct hcontact,
        (koeIdentityShortId_eq_iff contact.pk pk).mp hid⟩
    · next hmissing =>
      intro other hother
      rw [← hrefines.book]
      refine List.find?_eq_none.mpr fun contact hcontact hpk ↦ ?_
      refine List.find?_eq_none.mp hmissing contact hcontact (beq_iff_eq.mpr ?_)
      rw [hrefines.shortIds contact hcontact, beq_iff_eq.mp hpk]
      exact (koeIdentityShortId_eq_iff other pk).mpr hother

end KoeCore
