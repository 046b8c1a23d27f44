import KoeCore.Library.Slots
import KoeCore.Protocol.Crypto

/-!
# The session table

`koe_session.c`: 256 slots, filled first-fit by `koeSessionTableAdd` and searched first-match by
`koeSessionTableFind`. Adding a session never looks for an older one of the same peer. An older
session in front of the first free slot is therefore still the one that a search returns
(`koeSessionTableAdd_lookup`), and the new one only comes to light when the older one is removed.

Calls on one peer leave the session of every other peer alone. A search after a removal comes to the
peer's next entry, so it finds nothing exactly when there was one (`koeSessionTableRemove_lookup`),
and a search after a cleanup comes to the first entry that was not stale
(`koeSessionTableCleanup_lookup`).

`SessionTable.Gains` compares the table before and after a call: a slot that was free holds the
given entry. `koeSessionTableAdd_gains_iff` says what a call can add.
-/

set_option autoImplicit false
set_option relaxedAutoImplicit false

namespace KoeCore

open ByteWire

/-- `KOE_MAX_SESSIONS`. -/
def koeMaxSessions : ℕ := 256

/-- `koe_session_entry_t`. -/
structure SessionEntry where
  peerPk : Block 32
  sess : Session
  createdAt : ℤ
  lastUsed : ℤ
  active : Bool
deriving DecidableEq

/-- The entry that `memset(.., 0, ..)` leaves. -/
def SessionEntry.zero : SessionEntry := ⟨Block.zero 32, Session.zero, 0, 0, false⟩

/-- `koe_session_table_t`. -/
structure SessionTable where
  entries : List SessionEntry
  count : ℤ
  entries_length : entries.length = koeMaxSessions
deriving DecidableEq

/-- `koe_session_table_init`. -/
def koeSessionTableInit : SessionTable where
  entries := List.replicate koeMaxSessions SessionEntry.zero
  count := 0
  entries_length := List.length_replicate

/-- The test of the searching loops: `entries[i].active` and equal keys. -/
def SessionEntry.isFor (peerPk : Block 32) (entry : SessionEntry) : Bool :=
  entry.active && entry.peerPk == peerPk

/-- The entry that a call of `koe_session_table_add` writes. Both readings of the clock in it are
taken to be one. -/
def SessionEntry.fresh (now : ℤ) (peerPk : Block 32) (sess : Session) : SessionEntry :=
  ⟨peerPk, sess, now, now, true⟩

/-- The counter is below the limit and some slot is free. -/
def SessionTable.HasRoom (tbl : SessionTable) : Prop :=
  tbl.count < koeMaxSessions ∧ (tbl.entries.any fun entry ↦ !entry.active) = true

instance (tbl : SessionTable) : Decidable tbl.HasRoom := inferInstanceAs (Decidable (_ ∧ _))

/-- The return code, and the table after the call. -/
def koeSessionTableAdd (now : ℤ) (tbl : SessionTable) (peerPk : Block 32) (sess : Session) :
    ℤ × SessionTable :=
  if tbl.count ≥ koeMaxSessions then (-1, tbl)
  else if tbl.entries.any fun entry ↦ !entry.active then
    (0,
      { entries := Slots.updateFirst (fun entry ↦ !entry.active)
          (fun _ ↦ SessionEntry.fresh now peerPk sess) tbl.entries
        count := tbl.count + 1
        entries_length := by rw [Slots.length_updateFirst, tbl.entries_length] })
  else (-1, tbl)

/-- The session that a search of the table comes to first. -/
def SessionTable.lookup (tbl : SessionTable) (peerPk : Block 32) : Option Session :=
  (tbl.entries.find? (SessionEntry.isFor peerPk)).map SessionEntry.sess

/-- The session found, and the table after the call, in which the entry is marked as used. -/
def koeSessionTableFind (now : ℤ) (tbl : SessionTable) (peerPk : Block 32) :
    Option Session × SessionTable :=
  (tbl.lookup peerPk,
    { tbl with
      entries := Slots.updateFirst (SessionEntry.isFor peerPk)
        (fun entry ↦ { entry with lastUsed := now }) tbl.entries
      entries_length := by rw [Slots.length_updateFirst, tbl.entries_length] })

/-- The return code, and the table after the call, in which the first entry of the peer is all
zero. -/
def koeSessionTableRemove (tbl : SessionTable) (peerPk : Block 32) : ℤ × SessionTable :=
  if tbl.entries.any (SessionEntry.isFor peerPk) then
    (0,
      { entries := Slots.updateFirst (SessionEntry.isFor peerPk) (fun _ ↦ SessionEntry.zero)
          tbl.entries
        count := tbl.count - 1
        entries_length := by rw [Slots.length_updateFirst, tbl.entries_length] })
  else (-1, tbl)

/-- An active entry that was last used more than `maxAge` seconds ago. -/
def SessionEntry.stale (now maxAge : ℤ) (entry : SessionEntry) : Bool :=
  entry.active && decide (now - entry.lastUsed > maxAge)

/-- The table after the call, in which every stale entry is all zero. The clock is read once. -/
def koeSessionTableCleanup (now : ℤ) (tbl : SessionTable) (maxAgeSeconds : ℤ) : SessionTable :=
  if maxAgeSeconds ≤ 0 then tbl
  else
    { entries := tbl.entries.map fun entry ↦
        if entry.stale now maxAgeSeconds then SessionEntry.zero else entry
      count := tbl.count - tbl.entries.countP (SessionEntry.stale now maxAgeSeconds)
      entries_length := by rw [List.length_map, tbl.entries_length] }

/-- A fresh table has no sessions. -/
theorem koeSessionTableInit_lookup (peerPk : Block 32) :
    koeSessionTableInit.lookup peerPk = none := by
  have hzero : SessionEntry.isFor peerPk SessionEntry.zero = false := rfl
  simp [SessionTable.lookup, koeSessionTableInit, hzero]

/-! ### What adding a session does -/

/-- Between the two tables a free slot was filled with the entry. -/
def SessionTable.Gains (before after : SessionTable) (entry : SessionEntry) : Prop :=
  ∃ slot, slot.active = false ∧ entry.active = true ∧
    (slot, entry) ∈ before.entries.zip after.entries

section Add

variable {tbl : SessionTable}

/-- Assumes: a free slot and a counter below the limit. -/
theorem koeSessionTableAdd_eq (hroom : tbl.HasRoom) (now : ℤ) (peerPk : Block 32)
    (sess : Session) :
    (koeSessionTableAdd now tbl peerPk sess).1 = 0 ∧
      (koeSessionTableAdd now tbl peerPk sess).2.entries =
        Slots.updateFirst (fun entry ↦ !entry.active)
          (fun _ ↦ SessionEntry.fresh now peerPk sess) tbl.entries := by
  have hcount : ¬ tbl.count ≥ koeMaxSessions := Int.not_le.mpr hroom.1
  rw [koeSessionTableAdd, if_neg hcount, if_pos hroom.2]
  exact ⟨rfl, rfl⟩

/-- Assumes: no free slot, or a counter at the limit. -/
theorem koeSessionTableAdd_full (hroom : ¬ tbl.HasRoom) (now : ℤ) (peerPk : Block 32)
    (sess : Session) : koeSessionTableAdd now tbl peerPk sess = (-1, tbl) := by
  unfold koeSessionTableAdd
  split_ifs with hcount hfree
  · rfl
  · exact absurd ⟨Int.not_le.mp hcount, hfree⟩ hroom
  · rfl

theorem not_gains_self (entry : SessionEntry) : ¬ tbl.Gains tbl entry := by
  rintro ⟨slot, hslot, hentry, hmem⟩
  have hactive : slot.active = entry.active :=
    congrArg SessionEntry.active (Slots.eq_of_mem_zip_self hmem)
  exact absurd (hslot.symm.trans (hactive.trans hentry)) (by decide)

/-- A call adds the entry it was asked to, when there is room, and nothing else. -/
theorem koeSessionTableAdd_gains_iff (now : ℤ) (peerPk : Block 32) (sess : Session)
    (entry : SessionEntry) :
    tbl.Gains (koeSessionTableAdd now tbl peerPk sess).2 entry ↔
      tbl.HasRoom ∧ entry = SessionEntry.fresh now peerPk sess := by
  by_cases hroom : tbl.HasRoom
  · obtain ⟨free, hfree, hmem, hothers⟩ := Slots.mem_zip_updateFirst hroom.2
      (fun _ ↦ SessionEntry.fresh now peerPk sess)
    unfold SessionTable.Gains
    rw [(koeSessionTableAdd_eq hroom now peerPk sess).2]
    constructor
    · rintro ⟨slot, hslot, hentry, hpair⟩
      rcases hothers _ hpair with hchanged | hsame
      · exact ⟨hroom, (Prod.mk.inj hchanged).2⟩
      · have hactive : slot.active = entry.active := congrArg SessionEntry.active hsame
        exact absurd (hslot.symm.trans (hactive.trans hentry)) (by decide)
    · rintro ⟨-, rfl⟩
      exact ⟨free, by simpa using hfree, rfl, hmem⟩
  · rw [koeSessionTableAdd_full hroom]
    constructor
    · intro hgains
      exact absurd hgains (not_gains_self entry)
    · rintro ⟨h, -⟩
      exact absurd h hroom

/-- The older session of a peer that a search still comes to first after a new one is added: one in
front of the first free slot, or any when there is no room. -/
def SessionTable.retained (tbl : SessionTable) (peerPk : Block 32) : Option Session :=
  if tbl.HasRoom then
    ((tbl.entries.takeWhile SessionEntry.active).find? (SessionEntry.isFor peerPk)).map
      SessionEntry.sess
  else tbl.lookup peerPk

/-- A search after adding a session returns an older session that it retains, or else the new one
when there was room for it. -/
theorem koeSessionTableAdd_lookup (now : ℤ) (peerPk : Block 32) (sess : Session) :
    (koeSessionTableAdd now tbl peerPk sess).2.lookup peerPk =
      (tbl.retained peerPk).or (if tbl.HasRoom then some sess else none) := by
  by_cases hroom : tbl.HasRoom
  · have hfresh : SessionEntry.isFor peerPk (SessionEntry.fresh now peerPk sess) = true := by
      simp [SessionEntry.isFor, SessionEntry.fresh]
    rw [SessionTable.lookup, (koeSessionTableAdd_eq hroom now peerPk sess).2,
      Slots.find?_updateFirst hroom.2 (fun _ ↦ hfresh) (fun _ ↦ rfl), SessionTable.retained,
      if_pos hroom, if_pos hroom]
    simp only [Bool.not_not]
    rfl
  · rw [koeSessionTableAdd_full hroom, SessionTable.retained, if_neg hroom, if_neg hroom,
      Option.or_none]

end Add

/-! ### What a search finds after a call -/

section Lookup

variable {tbl : SessionTable}

theorem SessionTable.lookup_eq_none_iff (peerPk : Block 32) :
    tbl.lookup peerPk = none ↔ tbl.entries.countP (SessionEntry.isFor peerPk) = 0 := by
  rw [SessionTable.lookup, Option.map_eq_none_iff, List.find?_eq_none, List.countP_eq_zero]

theorem SessionEntry.peerPk_of_isFor {entry : SessionEntry} {peerPk : Block 32}
    (hfor : entry.isFor peerPk = true) : entry.peerPk = peerPk := by
  rw [SessionEntry.isFor, Bool.and_eq_true] at hfor
  exact eq_of_beq hfor.2

/-- An entry of one peer is not found by a search for another. -/
theorem SessionEntry.isFor_of_ne {entry : SessionEntry} {peerPk other : Block 32}
    (hfor : entry.isFor peerPk = true) (hne : other ≠ peerPk) : entry.isFor other = false := by
  by_contra hother
  rw [Bool.not_eq_false] at hother
  exact hne ((SessionEntry.peerPk_of_isFor hother).symm.trans
    (SessionEntry.peerPk_of_isFor hfor))

/-- A session added for one peer leaves the search for another as it was. -/
theorem koeSessionTableAdd_lookup_of_ne (now : ℤ) {peerPk other : Block 32} (hne : other ≠ peerPk)
    (sess : Session) :
    (koeSessionTableAdd now tbl peerPk sess).2.lookup other = tbl.lookup other := by
  by_cases hroom : tbl.HasRoom
  · have hfresh : (SessionEntry.fresh now peerPk sess).isFor peerPk = true := by
      simp [SessionEntry.isFor, SessionEntry.fresh]
    have hinactive (slot : SessionEntry) (hfree : (!slot.active) = true) :
        slot.isFor other = false := by
      simp only [SessionEntry.isFor, Bool.not_eq_true'] at hfree ⊢
      rw [hfree, Bool.false_and]
    rw [SessionTable.lookup, (koeSessionTableAdd_eq hroom now peerPk sess).2]
    apply Slots.map_find?_updateFirst
    · intro slot hfree
      rw [hinactive slot hfree, SessionEntry.isFor_of_ne hfresh hne]
    · intro slot hfree hfound
      exact absurd hfound (by rw [hinactive slot hfree]; decide)
  · rw [koeSessionTableAdd_full hroom]

/-- A search changes no other search. -/
theorem koeSessionTableFind_lookup (now : ℤ) (peerPk : Block 32) :
    (koeSessionTableFind now tbl peerPk).2.lookup = tbl.lookup := by
  ext1 other
  apply Slots.map_find?_updateFirst
  · intro slot _
    rfl
  · intro slot _ _
    rfl

/-- Assumes: an entry of the peer. -/
theorem koeSessionTableRemove_eq {peerPk : Block 32}
    (hsome : tbl.entries.any (SessionEntry.isFor peerPk) = true) :
    (koeSessionTableRemove tbl peerPk).1 = 0 ∧
      (koeSessionTableRemove tbl peerPk).2.entries =
        Slots.updateFirst (SessionEntry.isFor peerPk) (fun _ ↦ SessionEntry.zero) tbl.entries := by
  rw [koeSessionTableRemove, if_pos hsome]
  exact ⟨rfl, rfl⟩

/-- A removal of one peer leaves the search for another as it was. -/
theorem koeSessionTableRemove_lookup_of_ne {peerPk other : Block 32} (hne : other ≠ peerPk) :
    (koeSessionTableRemove tbl peerPk).2.lookup other = tbl.lookup other := by
  by_cases hsome : tbl.entries.any (SessionEntry.isFor peerPk) = true
  · rw [SessionTable.lookup, (koeSessionTableRemove_eq hsome).2]
    apply Slots.map_find?_updateFirst
    · intro slot hfor
      rw [SessionEntry.isFor_of_ne hfor hne]
      rfl
    · intro slot hfor hother
      exact absurd hother (by rw [SessionEntry.isFor_of_ne hfor hne]; decide)
  · rw [koeSessionTableRemove, if_neg hsome]

/-- A search after a removal finds nothing exactly when the peer had no second entry. -/
theorem koeSessionTableRemove_lookup (peerPk : Block 32) :
    (koeSessionTableRemove tbl peerPk).2.lookup peerPk = none ↔
      tbl.entries.countP (SessionEntry.isFor peerPk) ≤ 1 := by
  rw [SessionTable.lookup_eq_none_iff]
  by_cases hsome : tbl.entries.any (SessionEntry.isFor peerPk) = true
  · rw [(koeSessionTableRemove_eq hsome).2, Slots.countP_updateFirst fun _ ↦ rfl]
    omega
  · have hzero : tbl.entries.countP (SessionEntry.isFor peerPk) = 0 := by
      rw [List.countP_eq_zero]
      intro entry hentry hfor
      exact hsome (List.any_eq_true.mpr ⟨entry, hentry, hfor⟩)
    simp only [koeSessionTableRemove, if_neg hsome, hzero, Nat.zero_le]

/-- A search after a cleanup comes to the first entry of the peer that is not stale. Assumes: a
positive age. -/
theorem koeSessionTableCleanup_lookup {maxAge : ℤ} (hage : 0 < maxAge) (now : ℤ)
    (peerPk : Block 32) :
    (koeSessionTableCleanup now tbl maxAge).lookup peerPk =
      (tbl.entries.find? fun entry ↦ entry.isFor peerPk && !entry.stale now maxAge).map
        SessionEntry.sess := by
  have hclean : (koeSessionTableCleanup now tbl maxAge).entries = tbl.entries.map fun entry ↦
      if entry.stale now maxAge then SessionEntry.zero else entry := by
    rw [koeSessionTableCleanup, if_neg (Int.not_le.mpr hage)]
  rw [SessionTable.lookup, hclean]
  induction tbl.entries with
  | nil => rfl
  | cons entry entries ih =>
    by_cases hstale : entry.stale now maxAge = true
    · have hzero : ¬ SessionEntry.zero.isFor peerPk = true := by
        change ¬ (false && _) = true
        rw [Bool.false_and]
        exact Bool.false_ne_true
      rw [List.map_cons, if_pos hstale, List.find?_cons_of_neg hzero, ih,
        List.find?_cons_of_neg (by simp [hstale])]
    · by_cases hfor : entry.isFor peerPk = true
      · rw [List.map_cons, if_neg hstale, List.find?_cons_of_pos hfor,
          List.find?_cons_of_pos (by simp [hstale, hfor])]
      · rw [List.map_cons, if_neg hstale, List.find?_cons_of_neg hfor, ih,
          List.find?_cons_of_neg (by simp [hfor])]

end Lookup

end KoeCore
