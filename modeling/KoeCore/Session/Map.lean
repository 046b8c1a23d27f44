import KoeCore.Library.Runs
import KoeCore.Session.Table

/-!
# The session table against a finite map

The table is meant to be a finite map from peers to sessions. `SessionTable.lookup`, the first
component of `koe_session_table_find`, is the map that a table stands for, and
`TableCall.ActsAsMap` says that one call changes it as it should: an addition that returns `0` sets
the peer's session, a removal that returns `0` clears it, a cleanup drops sessions and exchanges
none, a search changes nothing, and no call touches another peer.

The table keeps every session it was ever given, and a search sees one of them. Whether a call acts
as on a map therefore depends on what the other slots hold, and `TableCall.KeepsMap` is the exact
condition (`actsAsMap_iff`). Over whole runs it is `koeSessionTable_actsAsMap_iff`: a new key for a
peer with an older one in front of the first free slot stays hidden, and a removal uncovers it.
-/

set_option autoImplicit false
set_option relaxedAutoImplicit false

namespace KoeCore

open ByteWire

/-- A call on the session table, with the clock reading it makes. -/
inductive TableCall
  | add (now : ℤ) (peerPk : Block 32) (sess : Session)
  | find (now : ℤ) (peerPk : Block 32)
  | remove (peerPk : Block 32)
  | cleanup (now maxAgeSeconds : ℤ)

namespace TableCall

/-- The table after the call. -/
def step (tbl : SessionTable) : TableCall → SessionTable
  | add now peerPk sess => (koeSessionTableAdd now tbl peerPk sess).2
  | find now peerPk => (koeSessionTableFind now tbl peerPk).2
  | remove peerPk => (koeSessionTableRemove tbl peerPk).2
  | cleanup now maxAgeSeconds => koeSessionTableCleanup now tbl maxAgeSeconds

/-- The call changes what searches find as it would change a finite map. -/
def ActsAsMap (tbl : SessionTable) : TableCall → Prop
  | add now peerPk sess =>
    (koeSessionTableAdd now tbl peerPk sess).2.lookup =
      if (koeSessionTableAdd now tbl peerPk sess).1 = 0 then
        Function.update tbl.lookup peerPk (some sess)
      else tbl.lookup
  | find now peerPk =>
    (koeSessionTableFind now tbl peerPk).1 = tbl.lookup peerPk ∧
      (koeSessionTableFind now tbl peerPk).2.lookup = tbl.lookup
  | remove peerPk =>
    (koeSessionTableRemove tbl peerPk).2.lookup =
      if (koeSessionTableRemove tbl peerPk).1 = 0 then Function.update tbl.lookup peerPk none
      else tbl.lookup
  | cleanup now maxAgeSeconds =>
    ∀ peerPk, (koeSessionTableCleanup now tbl maxAgeSeconds).lookup peerPk = none ∨
      (koeSessionTableCleanup now tbl maxAgeSeconds).lookup peerPk = tbl.lookup peerPk

/-- What the table must hold before the call. An addition that has room meets no other session of
the peer in front of the first free slot, a removal meets at most one entry of the peer, and a
cleanup meets, as the first entry of a peer that is not stale, the session that a search finds. -/
def KeepsMap (tbl : SessionTable) : TableCall → Prop
  | add _ peerPk sess =>
    tbl.HasRoom → ∀ older, tbl.retained peerPk = some older → older = sess
  | find _ _ => True
  | remove peerPk => tbl.entries.countP (SessionEntry.isFor peerPk) ≤ 1
  | cleanup now maxAgeSeconds =>
    0 < maxAgeSeconds → ∀ peerPk entry,
      (tbl.entries.find? fun entry ↦ entry.isFor peerPk && !entry.stale now maxAgeSeconds) =
        some entry → tbl.lookup peerPk = some entry.sess

end TableCall

section Calls

variable (tbl : SessionTable)

theorem actsAsMap_add_iff (now : ℤ) (peerPk : Block 32) (sess : Session) :
    (TableCall.add now peerPk sess).ActsAsMap tbl ↔
      (TableCall.add now peerPk sess).KeepsMap tbl := by
  by_cases hroom : tbl.HasRoom
  · have hlookup : (koeSessionTableAdd now tbl peerPk sess).2.lookup peerPk =
        (tbl.retained peerPk).or (some sess) := by
      rw [koeSessionTableAdd_lookup, if_pos hroom]
    have hothers (other : Block 32) (hne : other ≠ peerPk) :
        (koeSessionTableAdd now tbl peerPk sess).2.lookup other = tbl.lookup other :=
      koeSessionTableAdd_lookup_of_ne now hne sess
    rw [TableCall.ActsAsMap, if_pos (koeSessionTableAdd_eq hroom now peerPk sess).1,
      Function.eq_update_iff, and_iff_left hothers, hlookup]
    constructor
    · intro hsome _ older holder
      rw [holder, Option.some_or] at hsome
      exact Option.some.inj hsome
    · intro hkeeps
      cases hretained : tbl.retained peerPk with
      | none => rw [Option.none_or]
      | some older => rw [Option.some_or, hkeeps hroom older hretained]
  · have hfailed := koeSessionTableAdd_full hroom now peerPk sess
    constructor
    · intro _ h
      exact absurd h hroom
    · intro _
      simp [TableCall.ActsAsMap, hfailed]

theorem actsAsMap_remove_iff (peerPk : Block 32) :
    (TableCall.remove peerPk).ActsAsMap tbl ↔ (TableCall.remove peerPk).KeepsMap tbl := by
  by_cases hsome : tbl.entries.any (SessionEntry.isFor peerPk) = true
  · have hothers (other : Block 32) (hne : other ≠ peerPk) :
        (koeSessionTableRemove tbl peerPk).2.lookup other = tbl.lookup other :=
      koeSessionTableRemove_lookup_of_ne hne
    rw [TableCall.ActsAsMap, if_pos (koeSessionTableRemove_eq hsome).1, Function.eq_update_iff,
      and_iff_left hothers]
    exact koeSessionTableRemove_lookup peerPk
  · have hfailed : koeSessionTableRemove tbl peerPk = (-1, tbl) := by
      rw [koeSessionTableRemove, if_neg hsome]
    have hnone : tbl.entries.countP (SessionEntry.isFor peerPk) = 0 := by
      rw [List.countP_eq_zero]
      intro entry hentry hfor
      exact hsome (List.any_eq_true.mpr ⟨entry, hentry, hfor⟩)
    constructor
    · intro _
      rw [TableCall.KeepsMap, hnone]
      exact Nat.zero_le 1
    · intro _
      simp [TableCall.ActsAsMap, hfailed]

theorem actsAsMap_cleanup_iff (now maxAge : ℤ) :
    (TableCall.cleanup now maxAge).ActsAsMap tbl ↔
      (TableCall.cleanup now maxAge).KeepsMap tbl := by
  by_cases hage : 0 < maxAge
  · simp only [TableCall.ActsAsMap, TableCall.KeepsMap, koeSessionTableCleanup_lookup hage]
    constructor
    · intro hacts _ peerPk entry hentry
      have hpeer := hacts peerPk
      rw [hentry, Option.map_some] at hpeer
      rcases hpeer with hnone | hsame
      · exact absurd hnone (by simp)
      · exact hsame.symm
    · intro hkeeps peerPk
      cases hentry : tbl.entries.find? fun entry ↦
          entry.isFor peerPk && !entry.stale now maxAge with
      | none => exact Or.inl rfl
      | some entry => exact Or.inr (hkeeps hage peerPk entry hentry).symm
  · have hsame : koeSessionTableCleanup now tbl maxAge = tbl := by
      rw [koeSessionTableCleanup, if_pos (Int.not_lt.mp hage)]
    constructor
    · intro _ h
      exact absurd h hage
    · intro _ peerPk
      exact Or.inr (by rw [hsame])

/-- A call acts as on a finite map exactly when the table meets its condition. -/
theorem actsAsMap_iff (call : TableCall) : call.ActsAsMap tbl ↔ call.KeepsMap tbl := by
  cases call with
  | add now peerPk sess => exact actsAsMap_add_iff tbl now peerPk sess
  | find now peerPk => exact iff_of_true ⟨rfl, koeSessionTableFind_lookup now peerPk⟩ trivial
  | remove peerPk => exact actsAsMap_remove_iff tbl peerPk
  | cleanup now maxAge => exact actsAsMap_cleanup_iff tbl now maxAge

end Calls

/-- In a run from the empty table, every call acts as on a finite map exactly when every call meets
its condition on the table it finds. -/
theorem koeSessionTable_actsAsMap_iff (calls : List TableCall) :
    (∀ front call back, calls = front ++ call :: back →
        call.ActsAsMap (front.foldl TableCall.step koeSessionTableInit)) ↔
      Runs.AllSteps TableCall.step (fun tbl call ↦ call.KeepsMap tbl) koeSessionTableInit
        calls := by
  rw [← Runs.allSteps_iff]
  exact Runs.allSteps_congr actsAsMap_iff koeSessionTableInit calls

/-- A second key for a peer is accepted and stays hidden behind the first, and a successful removal
of the peer uncovers it. -/
theorem koeSessionTable_hides_new_key :
    let peerPk : Block 32 := List.Vector.replicate 32 7
    let older : Session := ⟨List.Vector.replicate 32 1, List.Vector.replicate 32 1⟩
    let newer : Session := ⟨List.Vector.replicate 32 2, List.Vector.replicate 32 2⟩
    let first := koeSessionTableAdd 0 koeSessionTableInit peerPk older
    let second := koeSessionTableAdd 1 first.2 peerPk newer
    let removed := koeSessionTableRemove second.2 peerPk
    first.1 = 0 ∧ second.1 = 0 ∧ (koeSessionTableFind 2 second.2 peerPk).1 = some older ∧
      removed.1 = 0 ∧ (koeSessionTableFind 3 removed.2 peerPk).1 = some newer ∧ older ≠ newer := by
  decide +kernel

/-! ### Free entries -/

/-- Every entry that is not in use is all zero. -/
def SessionTable.Scrubbed (tbl : SessionTable) : Prop :=
  ∀ entry ∈ tbl.entries, entry.active = false → entry = SessionEntry.zero

theorem scrubbed_init : koeSessionTableInit.Scrubbed := by
  intro entry hentry _
  exact List.eq_of_mem_replicate hentry

/-- Assumes: a change that leaves an entry in use, or all zero. -/
theorem SessionTable.Scrubbed.updateFirst {tbl next : SessionTable} (hscrubbed : tbl.Scrubbed)
    {test : SessionEntry → Bool} {change : SessionEntry → SessionEntry}
    (hnext : next.entries = Slots.updateFirst test change tbl.entries)
    (hchange : ∀ entry, test entry = true →
      (change entry).active = true ∨ change entry = SessionEntry.zero) : next.Scrubbed := by
  intro entry hentry hactive
  rw [hnext] at hentry
  rcases Slots.mem_updateFirst hentry with hold | ⟨slot, -, htest, rfl⟩
  · exact hscrubbed entry hold hactive
  · rcases hchange slot htest with hused | hzero
    · exact absurd (hused.symm.trans hactive) (by decide)
    · exact hzero

/-- No call leaves anything behind in an entry that it frees. -/
theorem scrubbed_step {tbl : SessionTable} (hscrubbed : tbl.Scrubbed) (call : TableCall) :
    (call.step tbl).Scrubbed := by
  cases call with
  | add now peerPk sess =>
    change (koeSessionTableAdd now tbl peerPk sess).2.Scrubbed
    by_cases hroom : tbl.HasRoom
    · refine hscrubbed.updateFirst (koeSessionTableAdd_eq hroom now peerPk sess).2 ?_
      exact fun entry _ ↦ Or.inl rfl
    · rw [koeSessionTableAdd_full hroom]
      exact hscrubbed
  | find now peerPk =>
    refine hscrubbed.updateFirst rfl ?_
    exact fun entry hfor ↦ Or.inl (Bool.and_eq_true_iff.mp hfor).1
  | remove peerPk =>
    change (koeSessionTableRemove tbl peerPk).2.Scrubbed
    by_cases hsome : tbl.entries.any (SessionEntry.isFor peerPk) = true
    · refine hscrubbed.updateFirst (koeSessionTableRemove_eq hsome).2 ?_
      exact fun entry _ ↦ Or.inr rfl
    · rw [koeSessionTableRemove, if_neg hsome]
      exact hscrubbed
  | cleanup now maxAge =>
    change (koeSessionTableCleanup now tbl maxAge).Scrubbed
    rw [koeSessionTableCleanup]
    split_ifs with hage
    · exact hscrubbed
    · intro entry hentry hactive
      obtain ⟨old, hold, rfl⟩ := List.mem_map.mp hentry
      split_ifs at hactive ⊢ with hstale
      · rfl
      · exact hscrubbed old hold hactive

end KoeCore
