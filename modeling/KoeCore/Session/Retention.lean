import KoeCore.Context.Handshake
import KoeCore.Session.Map
import Mathlib.Data.List.Induction

/-!
# How long sessions are kept

A session is used when it is added and whenever a search finds it, and a cleanup frees the entries
that were not used for `max_age` seconds. A peer may have several entries, of which a search marks
the first, and freed entries are filled again. Two invariants speak about the peer all the same.

Every entry in use carries the time of a use of its peer (`stamped_run`). And after a use at a time,
the peer has an entry that was used no earlier (`Held`), which every later call keeps unless it
removes the peer or comes too late (`Held.step`). With the clock never going back,
`koeSessionTable_retention` is what a search finds right after a cleanup.

`koe_poll` is such a cleanup with a `max_age` of 300 seconds.
-/

set_option autoImplicit false
set_option relaxedAutoImplicit false

namespace KoeCore

open ByteWire

/-! ### The callers of the cleanup -/

/-- `koe_sessions_cleanup`. -/
def koeSessionsCleanup (now : ℤ) (ctx : Ctx) (maxAgeSeconds : ℤ) : Ctx :=
  if !ctx.initialised then ctx
  else { ctx with sessions := koeSessionTableCleanup now ctx.sessions maxAgeSeconds }

/-- `koe_poll`: the return code, and the context after the call. -/
def koePoll (now : ℤ) (ctx : Ctx) : ℤ × Ctx :=
  if !ctx.initialised then (-1, ctx) else (0, koeSessionsCleanup now ctx 300)

/-- Assumes: an initialised context. -/
theorem koePoll_eq {ctx : Ctx} (hinit : ctx.initialised = true) (now : ℤ) :
    koePoll now ctx =
      (0, { ctx with sessions := koeSessionTableCleanup now ctx.sessions 300 }) := by
  simp [koePoll, koeSessionsCleanup, hinit]

/-! ### Times and uses -/

namespace TableCall

/-- The clock reading of a call. -/
def reading : TableCall → Option ℤ
  | add now _ _ => some now
  | find now _ => some now
  | remove _ => none
  | cleanup now _ => some now

/-- The call is no cleanup with another age. -/
def AgesBy (maxAge : ℤ) : TableCall → Prop
  | cleanup _ maxAgeSeconds => maxAgeSeconds = maxAge
  | _ => True

/-- The call adds a session of the peer or finds one, at the given time. -/
def Uses (peerPk : Block 32) (time : ℤ) (tbl : SessionTable) : TableCall → Prop
  | add now addedPk sess =>
    addedPk = peerPk ∧ now = time ∧ (koeSessionTableAdd now tbl addedPk sess).1 = 0
  | find now foundPk =>
    foundPk = peerPk ∧ now = time ∧ (koeSessionTableFind now tbl foundPk).1.isSome = true
  | _ => False

end TableCall

/-- The clock never goes back. -/
def ClockAscends (calls : List TableCall) : Prop :=
  (calls.filterMap TableCall.reading).Pairwise (· ≤ ·)

/-- Some call of the run uses the peer at the given time. -/
def UsedAt (peerPk : Block 32) (time : ℤ) (calls : List TableCall) : Prop :=
  ∃ front call back, calls = front ++ call :: back ∧
    call.Uses peerPk time (front.foldl TableCall.step koeSessionTableInit)

/-- Some call of the run uses the peer at the given time, and no later one removes it. -/
def UsedAndKept (peerPk : Block 32) (time : ℤ) (calls : List TableCall) : Prop :=
  ∃ front call back, calls = front ++ call :: back ∧
    call.Uses peerPk time (front.foldl TableCall.step koeSessionTableInit) ∧
    ∀ later ∈ back, later ≠ .remove peerPk

/-! ### Entries carry the times of uses -/

/-- Every entry in use carries the time of a use of its peer in the run. -/
def SessionTable.Stamped (tbl : SessionTable) (calls : List TableCall) : Prop :=
  ∀ entry ∈ tbl.entries, entry.active = true → UsedAt entry.peerPk entry.lastUsed calls

theorem UsedAt.append {peerPk : Block 32} {time : ℤ} {calls : List TableCall}
    (hused : UsedAt peerPk time calls) (later : List TableCall) :
    UsedAt peerPk time (calls ++ later) := by
  obtain ⟨front, call, back, rfl, huses⟩ := hused
  exact ⟨front, call, back ++ later, by simp, huses⟩

section Lookup

variable {tbl : SessionTable} {peerPk : Block 32}

theorem SessionEntry.isFor_iff {entry : SessionEntry} :
    entry.isFor peerPk = true ↔ entry.active = true ∧ entry.peerPk = peerPk := by
  rw [SessionEntry.isFor, Bool.and_eq_true, beq_iff_eq]

/-- A search succeeds exactly when the peer has an entry. -/
theorem SessionTable.isSome_lookup_iff :
    (tbl.lookup peerPk).isSome = true ↔ ∃ entry ∈ tbl.entries, entry.isFor peerPk = true := by
  rw [SessionTable.lookup, Option.isSome_map, List.find?_isSome]

end Lookup

/-- A call keeps what the entries carry. Assumes: what they carry before the call. -/
theorem stamped_step {front : List TableCall}
    (hstamped : (front.foldl TableCall.step koeSessionTableInit).Stamped front)
    (call : TableCall) :
    ((front ++ [call]).foldl TableCall.step koeSessionTableInit).Stamped (front ++ [call]) := by
  rw [List.foldl_append, List.foldl_cons, List.foldl_nil]
  generalize htbl : front.foldl TableCall.step koeSessionTableInit = tbl at hstamped ⊢
  have hold (entry : SessionEntry) (hentry : entry ∈ tbl.entries) (hactive : entry.active = true) :
      UsedAt entry.peerPk entry.lastUsed (front ++ [call]) :=
    (hstamped entry hentry hactive).append [call]
  intro entry hentry hactive
  cases call with
  | add now peerPk sess =>
    change entry ∈ (koeSessionTableAdd now tbl peerPk sess).2.entries at hentry
    by_cases hroom : tbl.HasRoom
    · obtain ⟨hrc, hentries⟩ := koeSessionTableAdd_eq hroom now peerPk sess
      rw [hentries] at hentry
      rcases Slots.mem_updateFirst hentry with hbefore | ⟨_, -, -, rfl⟩
      · exact hold entry hbefore hactive
      · exact ⟨front, _, [], rfl, rfl, rfl, by rw [htbl, hrc]⟩
    · rw [koeSessionTableAdd_full hroom] at hentry
      exact hold entry hentry hactive
  | find now peerPk =>
    rcases Slots.mem_updateFirst hentry with hbefore | ⟨slot, hslot, hfor, rfl⟩
    · exact hold entry hbefore hactive
    · have hfound : (tbl.lookup peerPk).isSome = true :=
        SessionTable.isSome_lookup_iff.mpr ⟨slot, hslot, hfor⟩
      have hpk : peerPk = slot.peerPk := (SessionEntry.isFor_iff.mp hfor).2.symm
      exact ⟨front, _, [], rfl, hpk, rfl, by rw [htbl]; exact hfound⟩
  | remove peerPk =>
    change entry ∈ (koeSessionTableRemove tbl peerPk).2.entries at hentry
    by_cases hsome : tbl.entries.any (SessionEntry.isFor peerPk) = true
    · rw [(koeSessionTableRemove_eq hsome).2] at hentry
      rcases Slots.mem_updateFirst hentry with hbefore | ⟨_, -, -, rfl⟩
      · exact hold entry hbefore hactive
      · exact absurd hactive Bool.false_ne_true
    · rw [koeSessionTableRemove, if_neg hsome] at hentry
      exact hold entry hentry hactive
  | cleanup now maxAge =>
    change entry ∈ (koeSessionTableCleanup now tbl maxAge).entries at hentry
    rw [koeSessionTableCleanup] at hentry
    split_ifs at hentry with hage
    · exact hold entry hentry hactive
    · obtain ⟨slot, hslot, rfl⟩ := List.mem_map.mp hentry
      split_ifs at hactive ⊢ with hstale
      · exact absurd hactive Bool.false_ne_true
      · exact hold slot hslot hactive

theorem stamped_run (calls : List TableCall) :
    (calls.foldl TableCall.step koeSessionTableInit).Stamped calls := by
  induction calls using List.reverseRecOn with
  | nil =>
    intro entry hentry hactive
    rw [List.eq_of_mem_replicate hentry] at hactive
    exact absurd hactive Bool.false_ne_true
  | append_singleton front call ih => exact stamped_step ih call

/-! ### A used peer keeps an entry -/

/-- The peer has an entry that was used no earlier than the given time. -/
def SessionTable.Held (tbl : SessionTable) (peerPk : Block 32) (time : ℤ) : Prop :=
  ∃ entry ∈ tbl.entries, entry.isFor peerPk = true ∧ time ≤ entry.lastUsed

section Held

variable {tbl : SessionTable} {peerPk : Block 32} {time : ℤ}

/-- Assumes: a call that uses the peer. -/
theorem held_of_uses {call : TableCall} (huses : call.Uses peerPk time tbl) :
    (call.step tbl).Held peerPk time := by
  cases call with
  | add now addedPk sess =>
    obtain ⟨rfl, rfl, hrc⟩ := huses
    have hroom : tbl.HasRoom := by
      by_contra hfull
      have hfails : (-1 : ℤ) = 0 := by rwa [koeSessionTableAdd_full hfull] at hrc
      exact absurd hfails (by decide)
    obtain ⟨slot, -, hmem, -⟩ := Slots.mem_zip_updateFirst hroom.2
      fun _ ↦ SessionEntry.fresh now addedPk sess
    rw [← (koeSessionTableAdd_eq hroom now addedPk sess).2] at hmem
    exact ⟨_, (List.of_mem_zip hmem).2, SessionEntry.isFor_iff.mpr ⟨rfl, rfl⟩, Int.le_refl now⟩
  | find now foundPk =>
    obtain ⟨rfl, rfl, hfound⟩ := huses
    have hsome : tbl.entries.any (SessionEntry.isFor foundPk) = true :=
      List.any_eq_true.mpr (SessionTable.isSome_lookup_iff.mp hfound)
    obtain ⟨slot, hfor, hmem, -⟩ := Slots.mem_zip_updateFirst hsome
      fun entry ↦ { entry with lastUsed := now }
    exact ⟨_, (List.of_mem_zip hmem).2, hfor, Int.le_refl now⟩
  | remove removedPk => exact absurd huses id
  | cleanup now maxAge => exact absurd huses id

/-- Assumes: a call that does not remove the peer, with a clock reading not before the given time
and not later than `maxAge` after it. -/
theorem SessionTable.Held.step (hheld : tbl.Held peerPk time) {call : TableCall} {maxAge : ℤ}
    (hkept : call ≠ .remove peerPk) (hage : call.AgesBy maxAge)
    (htime : ∀ now ∈ call.reading, time ≤ now ∧ now - time ≤ maxAge) :
    (call.step tbl).Held peerPk time := by
  obtain ⟨entry, hentry, hfor, hused⟩ := hheld
  cases call with
  | add now addedPk sess =>
    by_cases hroom : tbl.HasRoom
    · -- The entry is in use, so it is not the one that is filled.
      have hbusy : ¬ (!entry.active) = true := by
        rw [(SessionEntry.isFor_iff.mp hfor).1]
        exact Bool.false_ne_true
      have hstays := (Slots.mem_updateFirst_of_mem hentry (fun entry ↦ !entry.active)
        fun _ ↦ SessionEntry.fresh now addedPk sess).resolve_right fun hfilled ↦ hbusy hfilled.1
      rw [← (koeSessionTableAdd_eq hroom now addedPk sess).2] at hstays
      exact ⟨entry, hstays, hfor, hused⟩
    · change (koeSessionTableAdd now tbl addedPk sess).2.Held peerPk time
      rw [koeSessionTableAdd_full hroom]
      exact ⟨entry, hentry, hfor, hused⟩
  | find now foundPk =>
    rcases Slots.mem_updateFirst_of_mem hentry (SessionEntry.isFor foundPk)
      (fun entry ↦ { entry with lastUsed := now }) with hstays | ⟨-, hmarked⟩
    · exact ⟨entry, hstays, hfor, hused⟩
    · exact ⟨_, hmarked, hfor, (htime now rfl).1⟩
  | remove removedPk =>
    change (koeSessionTableRemove tbl removedPk).2.Held peerPk time
    by_cases hsome : tbl.entries.any (SessionEntry.isFor removedPk) = true
    · have hother : ¬ entry.isFor removedPk = true := by
        intro hremoved
        have hpk := (SessionEntry.isFor_iff.mp hremoved).2.symm.trans
          (SessionEntry.isFor_iff.mp hfor).2
        exact hkept (congrArg TableCall.remove hpk)
      have hstays := (Slots.mem_updateFirst_of_mem hentry (SessionEntry.isFor removedPk)
        fun _ ↦ SessionEntry.zero).resolve_right fun hcleared ↦ hother hcleared.1
      rw [← (koeSessionTableRemove_eq hsome).2] at hstays
      exact ⟨entry, hstays, hfor, hused⟩
    · rw [koeSessionTableRemove, if_neg hsome]
      exact ⟨entry, hentry, hfor, hused⟩
  | cleanup now maxAgeSeconds =>
    change (koeSessionTableCleanup now tbl maxAgeSeconds).Held peerPk time
    obtain rfl : maxAgeSeconds = maxAge := hage
    have hfresh : ¬ entry.stale now maxAgeSeconds = true := by
      have hlate := (htime now rfl).2
      rw [SessionEntry.stale, Bool.and_eq_true, decide_eq_true_eq]
      omega
    rw [koeSessionTableCleanup]
    split_ifs with hoff
    · exact ⟨entry, hentry, hfor, hused⟩
    · exact ⟨entry, List.mem_map.mpr ⟨entry, hentry, if_neg hfresh⟩, hfor, hused⟩

/-- Assumes: calls of which none removes the peer, with clock readings not before the given time and
not later than `maxAge` after it. -/
theorem SessionTable.Held.run {maxAge : ℤ} (calls : List TableCall) :
    ∀ {tbl : SessionTable}, tbl.Held peerPk time → (∀ call ∈ calls, call ≠ .remove peerPk) →
      (∀ call ∈ calls, call.AgesBy maxAge) →
      (∀ now ∈ calls.filterMap TableCall.reading, time ≤ now ∧ now - time ≤ maxAge) →
      (calls.foldl TableCall.step tbl).Held peerPk time := by
  induction calls with
  | nil =>
    intro tbl hheld _ _ _
    exact hheld
  | cons call calls ih =>
    intro tbl hheld hkept hage htime
    have hcall : ∀ now ∈ call.reading, time ≤ now ∧ now - time ≤ maxAge := by
      intro now hnow
      exact htime now (List.mem_filterMap.mpr ⟨call, List.mem_cons_self, hnow⟩)
    refine ih (hheld.step (hkept call List.mem_cons_self) (hage call List.mem_cons_self) hcall)
      (fun later hlater ↦ hkept later (List.mem_cons_of_mem _ hlater))
      (fun later hlater ↦ hage later (List.mem_cons_of_mem _ hlater)) ?_
    intro now hnow
    obtain ⟨later, hlater, hreading⟩ := List.mem_filterMap.mp hnow
    exact htime now (List.mem_filterMap.mpr ⟨later, List.mem_cons_of_mem _ hlater, hreading⟩)

end Held

/-! ### Retention -/

section Retention

variable {calls : List TableCall} {maxAge now : ℤ} {peerPk : Block 32}

/-- The reading of a call that uses a peer. -/
theorem TableCall.Uses.reading_eq {time : ℤ} {tbl : SessionTable} {call : TableCall}
    (huses : call.Uses peerPk time tbl) : call.reading = some time := by
  cases call with
  | add now addedPk sess => exact congrArg some huses.2.1
  | find now foundPk => exact congrArg some huses.2.1
  | remove removedPk => exact absurd huses id
  | cleanup now maxAge => exact absurd huses id

/-- A peer used lately has an entry. Assumes: a clock that never goes back and is at `now` at the
end, cleanups of one age, and a use of the peer no longer ago, with no removal since. -/
theorem held_of_usedAndKept (hclock : ClockAscends (calls ++ [.cleanup now maxAge]))
    (hfixed : ∀ call ∈ calls, call.AgesBy maxAge) {time : ℤ} (hlate : now - time ≤ maxAge)
    (hused : UsedAndKept peerPk time calls) :
    (calls.foldl TableCall.step koeSessionTableInit).Held peerPk time := by
  obtain ⟨front, call, back, rfl, huses, hkept⟩ := hused
  rw [List.foldl_append, List.foldl_cons]
  have hreadings : (front ++ call :: back ++ [TableCall.cleanup now maxAge]).filterMap
      TableCall.reading = front.filterMap TableCall.reading ++
        time :: (back.filterMap TableCall.reading ++ [now]) := by
    rw [List.append_assoc, List.filterMap_append, List.cons_append,
      List.filterMap_cons_some huses.reading_eq, List.filterMap_append]
    rfl
  rw [ClockAscends, hreadings, List.pairwise_append, List.pairwise_cons, List.pairwise_append]
    at hclock
  obtain ⟨-, ⟨hafter, -, -, hbefore⟩, -⟩ := hclock
  have hages : ∀ later ∈ back, later.AgesBy maxAge := by
    intro later hlater
    exact hfixed later (List.mem_append_right _ (List.mem_cons_of_mem _ hlater))
  have htimes : ∀ reading ∈ back.filterMap TableCall.reading,
      time ≤ reading ∧ reading - time ≤ maxAge := by
    intro reading hreading
    have hfrom := hafter reading (List.mem_append_left _ hreading)
    have hto := hbefore reading hreading now (List.mem_singleton_self now)
    exact ⟨hfrom, by omega⟩
  exact (held_of_uses huses).run back hkept hages htimes

/-- How long sessions are kept. Assumes: a positive age, the same for every cleanup of the run, and
a clock that never goes back. After a cleanup, a search finds a session of every peer that was used
within the age and not removed since, and none of a peer that was not used within the age. With an
age of 300 seconds the cleanup is a `koe_poll`. -/
theorem koeSessionTable_retention (hage : 0 < maxAge)
    (hclock : ClockAscends (calls ++ [.cleanup now maxAge]))
    (hfixed : ∀ call ∈ calls, call.AgesBy maxAge) (peerPk : Block 32) (later : ℤ) :
    let before := calls.foldl TableCall.step koeSessionTableInit
    let after := koeSessionTableCleanup now before maxAge
    ((∃ time, now - time ≤ maxAge ∧ UsedAndKept peerPk time calls) →
        (koeSessionTableFind later after peerPk).1.isSome = true) ∧
      ((∀ time, UsedAt peerPk time calls → ¬ now - time ≤ maxAge) →
        (koeSessionTableFind later after peerPk).1 = none) ∧
      (maxAge = 300 → ∀ ctx : Ctx, ctx.initialised = true → ctx.sessions = before →
        (koePoll now ctx).1 = 0 ∧ (koePoll now ctx).2.sessions = after) := by
  intro before after
  have hfind : (koeSessionTableFind later after peerPk).1 =
      (before.entries.find? fun entry ↦ entry.isFor peerPk && !entry.stale now maxAge).map
        SessionEntry.sess := koeSessionTableCleanup_lookup hage now peerPk
  refine ⟨?_, ?_, ?_⟩
  · rintro ⟨time, hlate, hused⟩
    obtain ⟨entry, hentry, hfor, hsince⟩ := held_of_usedAndKept hclock hfixed hlate hused
    have hfresh : entry.stale now maxAge = false := by
      rw [SessionEntry.stale, Bool.and_eq_false_iff, decide_eq_false_iff_not]
      exact Or.inr (by omega)
    rw [hfind, Option.isSome_map, List.find?_isSome]
    exact ⟨entry, hentry, by rw [hfor, hfresh]; rfl⟩
  · intro hidle
    rw [hfind, Option.map_eq_none_iff, List.find?_eq_none]
    intro entry hentry hfound
    rw [Bool.and_eq_true, Bool.not_eq_true', SessionEntry.isFor_iff] at hfound
    obtain ⟨⟨hactive, rfl⟩, hfresh⟩ := hfound
    refine hidle entry.lastUsed (stamped_run calls entry hentry hactive) ?_
    rw [SessionEntry.stale, hactive, Bool.true_and, decide_eq_false_iff_not] at hfresh
    omega
  · rintro rfl ctx hinit hsessions
    rw [koePoll_eq hinit, hsessions]
    exact ⟨rfl, rfl⟩

end Retention

/-- A session added at time 0 and searched for at time 200 is still there after a `koe_poll` at time
400. -/
theorem koeSessionTable_keeps_used :
    let peerPk : Block 32 := List.Vector.replicate 32 7
    let calls : List TableCall := [.add 0 peerPk Session.zero, .find 200 peerPk]
    let before := calls.foldl TableCall.step koeSessionTableInit
    let polled := koePoll 400 ⟨true, Sodium.transparentIdentity 1, before⟩
    (koeSessionTableFind 400 polled.2.sessions peerPk).1.isSome = true := by
  intro peerPk calls before polled
  have hclock : ClockAscends (calls ++ [.cleanup 400 300]) := by
    unfold ClockAscends
    decide
  have hfixed : ∀ call ∈ calls, call.AgesBy 300 := by
    intro call hcall
    rcases List.mem_pair.mp hcall with rfl | rfl
    · exact trivial
    · exact trivial
  have hused : UsedAndKept peerPk 200 calls :=
    ⟨[.add 0 peerPk Session.zero], .find 200 peerPk, [], rfl, ⟨rfl, rfl, by decide +kernel⟩,
      fun _ hlater ↦ absurd hlater List.not_mem_nil⟩
  obtain ⟨hkeeps, -, hpoll⟩ :=
    koeSessionTable_retention (by decide : (0 : ℤ) < 300) hclock hfixed peerPk 400
  rw [(hpoll rfl ⟨true, Sodium.transparentIdentity 1, before⟩ rfl rfl).2]
  exact hkeeps ⟨200, by decide, hused⟩

end KoeCore
