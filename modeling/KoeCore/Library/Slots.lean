import Mathlib.Data.List.TakeWhile
import Mathlib.Tactic.Common

/-!
# Updating the first matching slot

A fixed array of slots in C is filled by a loop that stops at the first slot that passes a test,
changes it and returns. `updateFirst` is this loop, and `updateFirst_eq` says what it does: the
slots in front of the changed one fail the test and stay, as do those behind it. From it follow
what a search finds afterwards (`find?_updateFirst`) and which slots differ from before
(`mem_zip_updateFirst`). A search that cannot tell a changed slot from the old one finds what it
found before (`map_find?_updateFirst`), and a loop that clears the first match of a search leaves
the other matches (`countP_updateFirst`).
`mem_updateFirst` and `map_updateFirst` are for properties of all slots.
-/

set_option autoImplicit false
set_option relaxedAutoImplicit false

namespace Slots

variable {α : Type*}

/-- The list with its first element that passes `test` changed by `change`. -/
def updateFirst (test : α → Bool) (change : α → α) : List α → List α
  | [] => []
  | slot :: slots => if test slot then change slot :: slots
    else slot :: updateFirst test change slots

@[simp] theorem length_updateFirst (test : α → Bool) (change : α → α) (slots : List α) :
    (updateFirst test change slots).length = slots.length := by
  induction slots with
  | nil => rfl
  | cons slot slots ih =>
    by_cases htest : test slot = true
    · simp only [updateFirst, if_pos htest, List.length_cons]
    · simp only [updateFirst, if_neg htest, List.length_cons, ih]

/-- Assumes: no slot passes the test. -/
theorem updateFirst_of_forall {test : α → Bool} {slots : List α}
    (hnone : ∀ slot ∈ slots, test slot = false) (change : α → α) :
    updateFirst test change slots = slots := by
  induction slots with
  | nil => rfl
  | cons slot slots ih =>
    have hslot : ¬ test slot = true := by
      rw [hnone slot List.mem_cons_self]
      exact Bool.false_ne_true
    have hrest : ∀ later ∈ slots, test later = false := fun later hlater ↦
      hnone later (List.mem_cons_of_mem slot hlater)
    rw [updateFirst, if_neg hslot, ih hrest]

/-- A change that keeps what is read of a slot keeps what is read of all of them. Assumes: the
change keeps what is read. -/
theorem map_updateFirst {β : Type*} {change : α → α} {read : α → β}
    (hread : ∀ slot, read (change slot) = read slot) (test : α → Bool) (slots : List α) :
    (updateFirst test change slots).map read = slots.map read := by
  induction slots with
  | nil => rfl
  | cons slot slots ih =>
    rw [updateFirst]
    split_ifs
    · rw [List.map_cons, List.map_cons, hread]
    · rw [List.map_cons, List.map_cons, ih]

/-- Every slot afterwards is one from before, or a changed one that passed the test. -/
theorem mem_updateFirst {test : α → Bool} {change : α → α} {slots : List α} {found : α}
    (hfound : found ∈ updateFirst test change slots) :
    found ∈ slots ∨ ∃ slot ∈ slots, test slot = true ∧ found = change slot := by
  induction slots with
  | nil => exact Or.inl hfound
  | cons slot slots ih =>
    by_cases htest : test slot = true
    · rw [updateFirst, if_pos htest] at hfound
      rcases List.mem_cons.mp hfound with hchanged | hlater
      · exact Or.inr ⟨slot, List.mem_cons_self, htest, hchanged⟩
      · exact Or.inl (List.mem_cons_of_mem slot hlater)
    · rw [updateFirst, if_neg htest] at hfound
      rcases List.mem_cons.mp hfound with hsame | hlater
      · exact Or.inl (hsame ▸ List.mem_cons_self)
      · rcases ih hlater with hold | ⟨changed, hchanged, heq⟩
        · exact Or.inl (List.mem_cons_of_mem slot hold)
        · exact Or.inr ⟨changed, List.mem_cons_of_mem slot hchanged, heq⟩

/-- A slot is still there afterwards, or it passed the test and is there changed. -/
theorem mem_updateFirst_of_mem {slots : List α} {slot : α} (hslot : slot ∈ slots)
    (test : α → Bool) (change : α → α) :
    slot ∈ updateFirst test change slots ∨
      test slot = true ∧ change slot ∈ updateFirst test change slots := by
  induction slots with
  | nil => exact absurd hslot List.not_mem_nil
  | cons first slots ih =>
    by_cases htest : test first = true
    · rw [updateFirst, if_pos htest]
      rcases List.mem_cons.mp hslot with rfl | hlater
      · exact Or.inr ⟨htest, List.mem_cons_self⟩
      · exact Or.inl (List.mem_cons_of_mem _ hlater)
    · rw [updateFirst, if_neg htest]
      rcases List.mem_cons.mp hslot with rfl | hlater
      · exact Or.inl List.mem_cons_self
      · refine (ih hlater).imp (List.mem_cons_of_mem _) fun hchanged ↦ ?_
        exact ⟨hchanged.1, List.mem_cons_of_mem _ hchanged.2⟩

/-- The loop changes one slot, the first that passes the test. Assumes: some slot passes it. -/
theorem updateFirst_eq {test : α → Bool} {slots : List α} (hsome : slots.any test = true)
    (change : α → α) :
    ∃ slot back, test slot = true ∧
      slots = (slots.takeWhile fun slot ↦ !test slot) ++ slot :: back ∧
      updateFirst test change slots =
        (slots.takeWhile fun slot ↦ !test slot) ++ change slot :: back := by
  induction slots with
  | nil => exact absurd hsome (by simp)
  | cons slot slots ih =>
    by_cases htest : test slot = true
    · exact ⟨slot, slots, htest, by simp [htest], by simp [updateFirst, htest]⟩
    · have hslots : slots.any test = true := by
        rw [List.any_cons] at hsome
        simpa [htest] using hsome
      obtain ⟨found, back, hfound, hsplit, hupdate⟩ := ih hslots
      refine ⟨found, back, hfound, ?_, ?_⟩
      · simpa [htest] using hsplit
      · simpa [updateFirst, htest] using hupdate

/-- A search finds a slot in front of the changed one, or else the changed one. Assumes: some slot
passes the test, and every changed slot is accepted by the search and read alike. -/
theorem find?_updateFirst {β : Type*} {test search : α → Bool} {change : α → α} {read : α → β}
    {value : β} {slots : List α} (hsome : slots.any test = true)
    (hchange : ∀ slot, search (change slot) = true) (hread : ∀ slot, read (change slot) = value) :
    ((updateFirst test change slots).find? search).map read =
      (((slots.takeWhile fun slot ↦ !test slot).find? search).map read).or (some value) := by
  obtain ⟨slot, back, -, -, hupdate⟩ := updateFirst_eq hsome change
  rw [hupdate, List.find?_append, List.find?_cons_of_pos (hchange slot), Option.map_or,
    Option.map_some, hread]

/-- Assumes: the search accepts a changed slot exactly when it accepted the old one, and then reads
the same from it. The search reads what it read before. -/
theorem map_find?_updateFirst {β : Type*} {test search : α → Bool} {change : α → α} {read : α → β}
    (hsearch : ∀ slot, test slot = true → search (change slot) = search slot)
    (hread : ∀ slot, test slot = true → search slot = true → read (change slot) = read slot)
    (slots : List α) :
    ((updateFirst test change slots).find? search).map read = (slots.find? search).map read := by
  induction slots with
  | nil => rfl
  | cons slot slots ih =>
    by_cases htest : test slot = true
    · by_cases hfound : search slot = true
      · have hchanged : search (change slot) = true := (hsearch slot htest).trans hfound
        simp only [updateFirst, if_pos htest, List.find?_cons_of_pos hchanged,
          List.find?_cons_of_pos hfound, Option.map_some, hread slot htest hfound]
      · have hchanged : ¬ search (change slot) = true := (hsearch slot htest).symm ▸ hfound
        simp only [updateFirst, if_pos htest, List.find?_cons_of_neg hchanged,
          List.find?_cons_of_neg hfound]
    · by_cases hfound : search slot = true
      · simp only [updateFirst, if_neg htest, List.find?_cons_of_pos hfound]
      · simp only [updateFirst, if_neg htest, List.find?_cons_of_neg hfound, ih]

/-- Assumes: the search rejects a changed slot. The loop takes the first match away. -/
theorem countP_updateFirst {search : α → Bool} {change : α → α}
    (hgone : ∀ slot, search (change slot) = false) (slots : List α) :
    (updateFirst search change slots).countP search = slots.countP search - 1 := by
  induction slots with
  | nil => rfl
  | cons slot slots ih =>
    by_cases hfound : search slot = true
    · simp [updateFirst, hfound, hgone slot]
    · simp [updateFirst, hfound, ih]

/-- The loop exchanges one slot, and with it what that slot counts for. Assumes: some slot passes
the test. -/
theorem countP_updateFirst_exchange {test : α → Bool} {slots : List α}
    (hsome : slots.any test = true) (change : α → α) (search : α → Bool) :
    ∃ slot, test slot = true ∧
      (updateFirst test change slots).countP search + (search slot).toNat =
        slots.countP search + (search (change slot)).toNat := by
  obtain ⟨slot, back, htest, hsplit, hupdate⟩ := updateFirst_eq hsome change
  refine ⟨slot, htest, ?_⟩
  generalize slots.takeWhile (fun slot ↦ !test slot) = front at hsplit hupdate
  rw [hupdate, hsplit, List.countP_append, List.countP_append, List.countP_cons, List.countP_cons]
  cases search slot <;> cases search (change slot) <;> simp <;> omega

theorem eq_of_mem_zip_self {slots : List α} {pair : α × α} (hpair : pair ∈ slots.zip slots) :
    pair.1 = pair.2 := by
  induction slots with
  | nil => exact absurd hpair List.not_mem_nil
  | cons slot slots ih =>
    rw [List.zip_cons_cons, List.mem_cons] at hpair
    rcases hpair with rfl | hpair
    · rfl
    · exact ih hpair

/-- A slot before and after the loop: it is the changed one, or it is as before. Assumes: some slot
passes the test. -/
theorem mem_zip_updateFirst {test : α → Bool} {slots : List α} (hsome : slots.any test = true)
    (change : α → α) :
    ∃ slot, test slot = true ∧ (slot, change slot) ∈ slots.zip (updateFirst test change slots) ∧
      ∀ pair ∈ slots.zip (updateFirst test change slots),
        pair = (slot, change slot) ∨ pair.1 = pair.2 := by
  obtain ⟨slot, back, htest, hsplit, hupdate⟩ := updateFirst_eq hsome change
  have hzip : slots.zip (updateFirst test change slots) =
      (slots.takeWhile fun slot ↦ !test slot).zip (slots.takeWhile fun slot ↦ !test slot) ++
        (slot, change slot) :: back.zip back := by
    rw [hupdate]
    nth_rewrite 1 [hsplit]
    rw [List.zip_append rfl, List.zip_cons_cons]
  refine ⟨slot, htest, by simp [hzip], ?_⟩
  intro pair hpair
  rw [hzip, List.mem_append, List.mem_cons] at hpair
  rcases hpair with hfront | rfl | hback
  · exact Or.inr (eq_of_mem_zip_self hfront)
  · exact Or.inl rfl
  · exact Or.inr (eq_of_mem_zip_self hback)

end Slots
