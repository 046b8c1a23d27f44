import KoeCore.Session.Map

/-!
# The representation of the session table

The table keeps the number of its sessions by hand: an addition counts up, a removal down, and a
cleanup down once for every entry that it frees. `SessionTable.Sound` is what the four functions
rely on, that the counter is the number of entries in use and that every other entry is all zero.
Every call keeps it (`sound_step`), so it holds in every table that a run of calls leads to from an
initialised one (`koeSessionTable_sound`).

`koe_session_table_add` refuses a session in two places, at the counter in front of its loop and
behind the loop when no entry was free. In a sound table the two agree, and it refuses exactly when
all entries are in use (`SessionTable.Sound.hasRoom_iff`).
-/

set_option autoImplicit false
set_option relaxedAutoImplicit false

namespace KoeCore

open ByteWire

/-- The counter is the number of entries in use, and the other entries are all zero. -/
structure SessionTable.Sound (tbl : SessionTable) : Prop where
  counted : tbl.count = tbl.entries.countP SessionEntry.active
  scrubbed : tbl.Scrubbed

section Sound

variable {tbl : SessionTable}

theorem sound_init : koeSessionTableInit.Sound where
  counted := by
    have hfree : (List.replicate koeMaxSessions SessionEntry.zero).countP SessionEntry.active = 0 :=
      List.countP_eq_zero.mpr fun entry hentry ↦ by
        rw [List.eq_of_mem_replicate hentry]
        exact Bool.false_ne_true
    change (0 : ℤ) = ((List.replicate koeMaxSessions SessionEntry.zero).countP _ : ℕ)
    rw [hfree]
    rfl
  scrubbed := scrubbed_init

theorem SessionTable.Sound.count_nonneg (hsound : tbl.Sound) : 0 ≤ tbl.count := by
  rw [hsound.counted]
  exact Int.natCast_nonneg _

theorem SessionTable.Sound.count_le (hsound : tbl.Sound) : tbl.count ≤ koeMaxSessions := by
  rw [hsound.counted, ← tbl.entries_length]
  exact Int.ofNat_le.mpr List.countP_le_length

/-- The two tests of an addition agree. Assumes: a sound table. -/
theorem SessionTable.Sound.hasRoom_iff (hsound : tbl.Sound) :
    tbl.HasRoom ↔ ∃ entry ∈ tbl.entries, entry.active = false := by
  have hfree : (tbl.entries.any fun entry ↦ !entry.active) = true ↔
      ∃ entry ∈ tbl.entries, entry.active = false := by
    simp
  rw [SessionTable.HasRoom, hfree, and_iff_right_iff_imp]
  rintro ⟨entry, hentry, hinactive⟩
  have hlt : tbl.entries.countP SessionEntry.active < tbl.entries.length := by
    refine Nat.lt_of_le_of_ne List.countP_le_length fun hall ↦ ?_
    have hactive := List.countP_eq_length.mp hall entry hentry
    exact absurd (hinactive.symm.trans hactive) (by decide)
  rw [hsound.counted, ← tbl.entries_length]
  exact Int.ofNat_lt.mpr hlt

/-- What is in use after a cleanup and what it freed is what was in use before. -/
theorem countP_active_cleanup (now maxAge : ℤ) (entries : List SessionEntry) :
    (entries.map fun entry ↦ if entry.stale now maxAge then SessionEntry.zero else entry).countP
        SessionEntry.active + entries.countP (SessionEntry.stale now maxAge) =
      entries.countP SessionEntry.active := by
  induction entries with
  | nil => rfl
  | cons entry entries ih =>
    rw [List.map_cons, List.countP_cons, List.countP_cons, List.countP_cons]
    by_cases hstale : entry.stale now maxAge = true
    · have hactive : entry.active = true := (Bool.and_eq_true_iff.mp hstale).1
      have hzero : SessionEntry.zero.active = false := rfl
      simp only [if_pos hstale, hactive, hzero, Bool.false_eq_true, if_false, if_true]
      omega
    · simp only [if_neg hstale]
      omega

/-- Assumes: some entry passes the test, and those that do are alike in use or free. -/
theorem countP_active_updateFirst {test : SessionEntry → Bool} {inUse : Bool}
    (hsome : tbl.entries.any test = true)
    (htest : ∀ entry, test entry = true → entry.active = inUse) (new : SessionEntry) :
    (Slots.updateFirst test (fun _ ↦ new) tbl.entries).countP SessionEntry.active + inUse.toNat =
      tbl.entries.countP SessionEntry.active + new.active.toNat := by
  obtain ⟨entry, hentry, hexchange⟩ := Slots.countP_updateFirst_exchange hsome
    (fun _ ↦ new) SessionEntry.active
  rwa [htest entry hentry] at hexchange

/-- A search marks an entry and changes none in use into a free one. -/
theorem countP_active_find (now : ℤ) (tbl : SessionTable) (peerPk : Block 32) :
    (koeSessionTableFind now tbl peerPk).2.entries.countP SessionEntry.active =
      tbl.entries.countP SessionEntry.active := by
  let mark (entry : SessionEntry) : SessionEntry := { entry with lastUsed := now }
  have hmark (entry : SessionEntry) : (mark entry).active = entry.active := rfl
  have hsame : ((koeSessionTableFind now tbl peerPk).2.entries.map SessionEntry.active) =
      tbl.entries.map SessionEntry.active :=
    Slots.map_updateFirst hmark (SessionEntry.isFor peerPk) tbl.entries
  have hcount := congrArg (List.countP id) hsame
  rwa [List.countP_map, List.countP_map] at hcount

theorem sound_step (hsound : tbl.Sound) (call : TableCall) : (call.step tbl).Sound := by
  refine ⟨?_, scrubbed_step hsound.scrubbed call⟩
  have hcounted := hsound.counted
  cases call with
  | add now peerPk sess =>
    rw [TableCall.step, koeSessionTableAdd]
    split_ifs with hlimit hfree
    · exact hcounted
    · have hexchange := countP_active_updateFirst hfree
        (fun _ hentry ↦ Bool.not_eq_true' _ ▸ hentry) (SessionEntry.fresh now peerPk sess)
      have hnew : (SessionEntry.fresh now peerPk sess).active.toNat = 1 := rfl
      rw [hnew, Bool.toNat_false] at hexchange
      dsimp only
      omega
    · exact hcounted
  | find now peerPk => exact hcounted.trans (congrArg _ (countP_active_find now tbl peerPk).symm)
  | remove peerPk =>
    rw [TableCall.step, koeSessionTableRemove]
    split_ifs with hsome
    · have hexchange := countP_active_updateFirst hsome
        (fun _ hentry ↦ (Bool.and_eq_true_iff.mp hentry).1) SessionEntry.zero
      have hnew : SessionEntry.zero.active.toNat = 0 := rfl
      rw [hnew, Bool.toNat_true] at hexchange
      dsimp only
      omega
    · exact hcounted
  | cleanup now maxAge =>
    rw [TableCall.step, koeSessionTableCleanup]
    split_ifs with hage
    · exact hcounted
    · have hfreed := countP_active_cleanup now maxAge tbl.entries
      dsimp only
      omega

/-- Every table that calls lead to from an initialised one is sound. -/
theorem sound_run (calls : List TableCall) :
    (calls.foldl TableCall.step koeSessionTableInit).Sound := by
  refine List.foldlRecOn (motive := SessionTable.Sound) calls TableCall.step sound_init ?_
  intro tbl hsound call _
  exact sound_step hsound call

end Sound

/-- The representation invariant. In every table that additions, searches, removals and cleanups
lead to from an initialised one, the counter is the number of entries in use and lies between 0 and
256, and every other entry is all zero. An addition returns -1 exactly when all 256 entries are in
use, and then leaves the table as it is. -/
theorem koeSessionTable_sound (calls : List TableCall) :
    let tbl := calls.foldl TableCall.step koeSessionTableInit
    tbl.count = tbl.entries.countP SessionEntry.active ∧ 0 ≤ tbl.count ∧ tbl.count ≤ 256 ∧
      (∀ entry ∈ tbl.entries, entry.active = false → entry = SessionEntry.zero) ∧
      ∀ now peerPk sess,
        ((koeSessionTableAdd now tbl peerPk sess).1 = -1 ↔
          ∀ entry ∈ tbl.entries, entry.active = true) ∧
        ((koeSessionTableAdd now tbl peerPk sess).1 = -1 →
          (koeSessionTableAdd now tbl peerPk sess).2 = tbl) := by
  intro tbl
  have hsound : tbl.Sound := sound_run calls
  refine ⟨hsound.counted, hsound.count_nonneg, hsound.count_le, hsound.scrubbed, ?_⟩
  intro now peerPk sess
  by_cases hroom : tbl.HasRoom
  · have hrc := (koeSessionTableAdd_eq hroom now peerPk sess).1
    obtain ⟨entry, hentry, hinactive⟩ := hsound.hasRoom_iff.mp hroom
    rw [hrc]
    refine ⟨iff_of_false (by decide) fun hall ↦ ?_, fun hfailed ↦ absurd hfailed (by decide)⟩
    exact absurd (hinactive.symm.trans (hall entry hentry)) (by decide)
  · have hall : ∀ entry ∈ tbl.entries, entry.active = true := by
      intro entry hentry
      by_contra hinactive
      exact hroom (hsound.hasRoom_iff.mpr ⟨entry, hentry, Bool.not_eq_true _ ▸ hinactive⟩)
    rw [koeSessionTableAdd_full hroom]
    exact ⟨iff_of_true rfl hall, fun _ ↦ rfl⟩

end KoeCore
