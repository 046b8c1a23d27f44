import Mathlib.Data.List.Basic

/-!
# Transducers

A transducer reads inputs one after the other, and for each goes into a next state and emits an
output or nothing. `after` is the state that inputs lead to, and `output` all that is emitted.
`Repeats` says that observers see an output, each element any number of times, also never, and the
elements in order. An observer that is shown what a transducer emits, as often as it likes, extends
what was seen by `Repeats.snoc`.
-/

set_option autoImplicit false
set_option relaxedAutoImplicit false

namespace Transducer

variable {σ α β : Type*} (step : σ → α → σ × Option β)

/-- The state that the inputs lead to. -/
def after (state : σ) (inputs : List α) : σ := inputs.foldl (fun state input ↦ (step state input).1)
  state

/-- What is emitted for the inputs. -/
def output : σ → List α → List β
  | _, [] => []
  | state, input :: inputs => (step state input).2.toList ++ output (step state input).1 inputs

theorem after_concat (state : σ) (inputs : List α) (input : α) :
    after step state (inputs ++ [input]) = (step (after step state inputs) input).1 := by
  rw [after, List.foldl_append]
  rfl

theorem output_concat (state : σ) (inputs : List α) (input : α) :
    output step state (inputs ++ [input]) =
      output step state inputs ++ (step (after step state inputs) input).2.toList := by
  induction inputs generalizing state with
  | nil => exact List.append_nil _
  | cons first inputs ih =>
    rw [List.cons_append, output, output, ih, List.append_assoc]
    rfl

/-- Assumes: something that is emitted. -/
theorem exists_of_mem_output {state : σ} {inputs : List α} {item : β}
    (hmem : item ∈ output step state inputs) :
    ∃ front input back, inputs = front ++ input :: back ∧
      (step (after step state front) input).2 = some item := by
  induction inputs generalizing state with
  | nil => exact absurd hmem List.not_mem_nil
  | cons first inputs ih =>
    rcases List.mem_append.mp hmem with hfirst | hlater
    · exact ⟨[], first, inputs, rfl, Option.mem_toList.mp hfirst⟩
    · obtain ⟨front, input, back, rfl, hitem⟩ := ih hlater
      exact ⟨first :: front, input, back, rfl, hitem⟩

/-! ### Observers -/

/-- What is seen is the output, with each element repeated some number of times. -/
def Repeats (seen emitted : List β) : Prop :=
  ∃ counts : List ℕ, counts.length = emitted.length ∧
    seen = (List.zipWith List.replicate counts emitted).flatten

theorem repeats_nil : Repeats ([] : List β) [] := ⟨[], rfl, rfl⟩

variable {seen emitted : List β}

/-- Assumes: what is seen is the output so far. -/
theorem Repeats.snoc (hrepeats : Repeats seen emitted) (count : ℕ) (item : β) :
    Repeats (seen ++ List.replicate count item) (emitted ++ [item]) := by
  obtain ⟨counts, hlength, rfl⟩ := hrepeats
  refine ⟨counts ++ [count], ?_, ?_⟩
  · rw [List.length_append, List.length_append, hlength]
    rfl
  · rw [List.zipWith_append hlength, List.flatten_append]
    simp

/-- Assumes: what is seen is the output. -/
theorem Repeats.mem (hrepeats : Repeats seen emitted) {item : β} (hitem : item ∈ seen) :
    item ∈ emitted := by
  obtain ⟨counts, -, rfl⟩ := hrepeats
  obtain ⟨block, hblock, hmem⟩ := List.mem_flatten.mp hitem
  obtain ⟨k, hk, rfl⟩ := List.mem_iff_getElem.mp hblock
  rw [List.getElem_zipWith] at hmem
  rw [List.eq_of_mem_replicate hmem]
  exact List.getElem_mem _

end Transducer
