import KoeCore.Library.Slots
import Mathlib.Data.List.Nodup
import Mathlib.Logic.Function.Basic

/-!
# Lists as finite maps

A list whose elements have keys stands for a partial map, `lookup`, which finds the first element
with a key. Here is what the usual operations on such a list are on that map: an element in front,
an element behind the others without its key, the removal of a key, the removal of the first element
with a key, and a change of the elements with a key. The removal of the first element is that of the
key only if no key is there twice.
-/

set_option autoImplicit false
set_option relaxedAutoImplicit false

namespace Keyed

variable {α κ : Type*} [DecidableEq κ] (key : α → κ)

/-- The first element with a key. -/
def lookup (items : List α) (k : κ) : Option α := items.find? fun item ↦ key item == k

section Operations

variable {key} {items : List α}

theorem lookup_cons (item : α) (items : List α) :
    lookup key (item :: items) = Function.update (lookup key items) (key item) (some item) := by
  refine Function.eq_update_iff.mpr ⟨?_, fun k hne ↦ ?_⟩
  · exact List.find?_cons_of_pos (beq_self_eq_true _)
  · exact List.find?_cons_of_neg fun hkey ↦ hne (beq_iff_eq.mp hkey).symm

/-- Assumes: no key is there twice. -/
theorem lookup_of_mem (hdistinct : (items.map key).Nodup) {item : α} (hitem : item ∈ items) :
    lookup key items (key item) = some item := by
  induction items with
  | nil => exact absurd hitem List.not_mem_nil
  | cons first items ih =>
    obtain ⟨hnew, hrest⟩ := List.nodup_cons.mp hdistinct
    rw [lookup_cons]
    rcases List.mem_cons.mp hitem with rfl | hlater
    · exact Function.update_self _ _ _
    · have hne : key item ≠ key first := fun heq ↦ hnew (heq ▸ List.mem_map_of_mem hlater)
      rw [Function.update_of_ne hne]
      exact ih hrest hlater

theorem isSome_lookup (items : List α) (k : κ) :
    (lookup key items k).isSome = true ↔ k ∈ items.map key := by
  rw [lookup, List.find?_isSome, List.mem_map]
  exact exists_congr fun item ↦ and_congr_right fun _ ↦ beq_iff_eq

theorem lookup_filter_ne (items : List α) (k : κ) :
    lookup key (items.filter fun item ↦ key item != k) =
      Function.update (lookup key items) k none := by
  induction items with
  | nil => exact (Function.update_eq_self k (fun _ ↦ none)).symm
  | cons item items ih =>
    rw [lookup_cons]
    by_cases hkey : key item = k
    · rw [List.filter_cons_of_neg (by simp [hkey]), ih, hkey, Function.update_idem]
    · rw [List.filter_cons_of_pos (by simp [hkey]), lookup_cons, ih, Function.update_comm hkey]

theorem lookup_append_singleton (items : List α) (item : α) :
    lookup key (items ++ [item]) =
      fun k ↦ (lookup key items k).or (if key item = k then some item else none) := by
  funext k
  rw [lookup, List.find?_append]
  refine congrArg _ ?_
  split_ifs with hkey
  · exact List.find?_cons_of_pos (beq_iff_eq.mpr hkey)
  · exact List.find?_cons_of_neg fun heq ↦ hkey (beq_iff_eq.mp heq)

/-- The element takes the place of those with its key. -/
theorem lookup_replace (items : List α) (item : α) :
    lookup key (items.filter (fun other ↦ key other != key item) ++ [item]) =
      Function.update (lookup key items) (key item) (some item) := by
  rw [lookup_append_singleton, lookup_filter_ne]
  refine Function.eq_update_iff.mpr ⟨?_, fun k hne ↦ ?_⟩
  · rw [Function.update_self, if_pos rfl, Option.none_or]
  · rw [Function.update_of_ne hne, if_neg hne.symm, Option.or_none]

/-- Assumes: no key is there twice. -/
theorem lookup_eraseP (hdistinct : (items.map key).Nodup) (k : κ) :
    lookup key (items.eraseP fun item ↦ key item == k) =
      Function.update (lookup key items) k none := by
  rw [← lookup_filter_ne]
  refine congrArg (lookup key) ?_
  induction items with
  | nil => rfl
  | cons item items ih =>
    obtain ⟨hnew, hrest⟩ := List.nodup_cons.mp hdistinct
    by_cases hkey : key item = k
    · rw [List.eraseP_cons_of_pos (by simp [hkey]), List.filter_cons_of_neg (by simp [hkey])]
      refine (List.filter_eq_self.mpr fun other hother ↦ bne_iff_ne.mpr fun heq ↦ hnew ?_).symm
      exact List.mem_map.mpr ⟨other, hother, heq.trans hkey.symm⟩
    · rw [List.eraseP_cons_of_neg (by simp [hkey]), List.filter_cons_of_pos (by simp [hkey]),
        ih hrest]

/-- Assumes: a change that keeps the key. -/
theorem lookup_updateFirst (change : α → α) (hchange : ∀ item, key (change item) = key item)
    (items : List α) (k : κ) :
    lookup key (Slots.updateFirst (fun item ↦ key item == k) change items) =
      Function.update (lookup key items) k ((lookup key items k).map change) := by
  induction items with
  | nil => exact (Function.update_eq_self k (fun _ ↦ none)).symm
  | cons item items ih =>
    by_cases hkey : key item = k
    · rw [Slots.updateFirst, if_pos (by simp [hkey]), lookup_cons, lookup_cons, hchange, hkey,
        Function.update_self, Function.update_idem, Option.map_some]
    · rw [Slots.updateFirst, if_neg (by simp [hkey]), lookup_cons, lookup_cons, ih,
        Function.update_of_ne (Ne.symm hkey), Function.update_comm hkey]

/-- Assumes: a change that keeps the key. -/
theorem lookup_map (change : α → α) (hchange : ∀ item, key (change item) = key item)
    (items : List α) (k : κ) :
    lookup key (items.map fun item ↦ if key item = k then change item else item) =
      Function.update (lookup key items) k ((lookup key items k).map change) := by
  induction items with
  | nil => exact (Function.update_eq_self k (fun _ ↦ none)).symm
  | cons item items ih =>
    rw [List.map_cons, lookup_cons, lookup_cons, ih]
    by_cases hkey : key item = k
    · rw [if_pos hkey, hchange, hkey, Function.update_self, Function.update_idem,
        Function.update_idem, Option.map_some]
    · rw [if_neg hkey, Function.update_of_ne (Ne.symm hkey), Function.update_comm hkey]

end Operations

end Keyed
