import Mathlib.Tactic.Common

/-!
# Runs of a state machine

A machine is a function `step` from a state and a call to the next state, and a run is a list of
calls. `AllSteps` says that a relation between the state before a step and its call holds at every
step of a run. It can be read at each position of the run (`allSteps_iff`) and exchanged for an
equivalent relation (`allSteps_congr`). `AllSteps.invariant` is the induction over a run: what every
step with the relation keeps holds in every state the run passes through.
`allSteps_iff_of_simulates` compares two machines on the same calls, as long as the relation of the
first holds. `allSteps_iff_of_invariant` and `AllSteps.imp_of_invariant` compare two relations on
the states of one invariant.
-/

set_option autoImplicit false
set_option relaxedAutoImplicit false

namespace Runs

variable {σ κ : Type*} {step : σ → κ → σ}

/-- The relation holds at every step of the run from `state`. -/
def AllSteps (step : σ → κ → σ) (holds : σ → κ → Prop) : σ → List κ → Prop
  | _, [] => True
  | state, call :: calls => holds state call ∧ AllSteps step holds (step state call) calls

instance decidableAllSteps (holds : σ → κ → Prop) [∀ state call, Decidable (holds state call)] :
    ∀ (state : σ) (calls : List κ), Decidable (AllSteps step holds state calls)
  | _, [] => isTrue trivial
  | state, call :: calls =>
    haveI := decidableAllSteps holds (step state call) calls
    inferInstanceAs (Decidable (holds state call ∧ AllSteps step holds (step state call) calls))

/-- The relation holds at every step exactly when it holds at every position of the run, in the
state that the calls before it lead to. -/
theorem allSteps_iff {holds : σ → κ → Prop} (state : σ) (calls : List κ) :
    AllSteps step holds state calls ↔
      ∀ front call back, calls = front ++ call :: back → holds (front.foldl step state) call := by
  induction calls generalizing state with
  | nil =>
    constructor
    · intro _ front call back hsplit
      exact absurd hsplit.symm (by simp)
    · intro _
      exact trivial
  | cons first rest ih =>
    constructor
    · rintro ⟨hfirst, hrest⟩ front call back hsplit
      rcases front with _ | ⟨head, tail⟩
      · obtain ⟨rfl, -⟩ := List.cons.inj hsplit
        exact hfirst
      · obtain ⟨rfl, htail⟩ := List.cons.inj hsplit
        exact (ih (step state first)).mp hrest tail call back htail
    · intro hall
      refine ⟨hall [] first rest rfl, (ih (step state first)).mpr ?_⟩
      intro front call back hsplit
      exact hall (first :: front) call back (by rw [hsplit, List.cons_append])

/-- Assumes: the two relations agree on every state and call. -/
theorem allSteps_congr {first second : σ → κ → Prop}
    (hiff : ∀ state call, first state call ↔ second state call) (state : σ) (calls : List κ) :
    AllSteps step first state calls ↔ AllSteps step second state calls := by
  induction calls generalizing state with
  | nil => exact Iff.rfl
  | cons call calls ih => exact and_congr (hiff state call) (ih (step state call))

/-- A prefix of a run is a run. Assumes: the relation holds at every step of the longer one. -/
theorem AllSteps.front {holds : σ → κ → Prop} {state : σ} {front back : List κ}
    (hall : AllSteps step holds state (front ++ back)) : AllSteps step holds state front := by
  rw [allSteps_iff] at hall ⊢
  intro before call after hsplit
  exact hall before call (after ++ back) (by rw [hsplit, List.append_assoc, List.cons_append])

/-- Assumes: the relation holds at every step of a run, and every step at which it holds keeps the
invariant. The invariant holds after each prefix of the run. -/
theorem AllSteps.invariant {holds : σ → κ → Prop} {inv : σ → Prop}
    (hkeeps : ∀ state call, inv state → holds state call → inv (step state call)) (front : List κ) :
    ∀ {state : σ} {back : List κ}, AllSteps step holds state (front ++ back) → inv state →
      inv (front.foldl step state) := by
  induction front with
  | nil =>
    intro state back _ hinv
    exact hinv
  | cons call front ih =>
    intro state back hall hinv
    exact ih hall.2 (hkeeps state call hinv hall.1)

/-- Assumes: from related states a call meets the one relation exactly when it meets the other, and
if so leads to related states again. From related states, every step of the run meets the one
relation exactly when every step meets the other. -/
theorem allSteps_iff_of_simulates {τ : Type*} {other : τ → κ → τ} {first : σ → κ → Prop}
    {second : τ → κ → Prop} {related : σ → τ → Prop} {valid : κ → Prop}
    (hiff : ∀ s t call, related s t → valid call → (first s call ↔ second t call))
    (hnext : ∀ s t call, related s t → valid call → first s call →
      related (step s call) (other t call)) (calls : List κ) :
    ∀ {s : σ} {t : τ}, related s t → (∀ call ∈ calls, valid call) →
      (AllSteps step first s calls ↔ AllSteps other second t calls) := by
  induction calls with
  | nil =>
    intro s t _ _
    exact Iff.rfl
  | cons call calls ih =>
    intro s t hrelated hvalid
    have hcall : valid call := hvalid call List.mem_cons_self
    have hrest : ∀ later ∈ calls, valid later := fun later hlater ↦
      hvalid later (List.mem_cons_of_mem call hlater)
    constructor
    · intro hall
      exact ⟨(hiff s t call hrelated hcall).mp hall.1,
        (ih (hnext s t call hrelated hcall hall.1) hrest).mp hall.2⟩
    · intro hall
      have hfirst := (hiff s t call hrelated hcall).mpr hall.1
      exact ⟨hfirst, (ih (hnext s t call hrelated hcall hfirst) hrest).mpr hall.2⟩

/-- Assumes: in states with the invariant a call meets the one relation exactly when it meets the
other, and if so keeps the invariant. Every step of a run from such a state meets the one relation
exactly when every step meets the other. -/
theorem allSteps_iff_of_invariant {first second : σ → κ → Prop} {inv : σ → Prop}
    (hiff : ∀ state call, inv state → (first state call ↔ second state call))
    (hkeeps : ∀ state call, inv state → first state call → inv (step state call)) {state : σ}
    (hinv : inv state) (calls : List κ) :
    AllSteps step first state calls ↔ AllSteps step second state calls := by
  induction calls generalizing state with
  | nil => exact Iff.rfl
  | cons call calls ih =>
    rw [AllSteps, AllSteps, ← hiff state call hinv]
    exact and_congr_right fun hfirst ↦ ih (hkeeps state call hinv hfirst)

/-- Assumes: in states with the invariant a call that meets the first relation meets the second and
keeps the invariant. -/
theorem AllSteps.imp_of_invariant {first second : σ → κ → Prop} {inv : σ → Prop}
    (hstep : ∀ state call, inv state → first state call →
      second state call ∧ inv (step state call)) (calls : List κ) :
    ∀ {state : σ}, inv state → AllSteps step first state calls →
      AllSteps step second state calls := by
  induction calls with
  | nil =>
    intro state _ _
    exact trivial
  | cons call calls ih =>
    intro state hinv hall
    obtain ⟨hcall, hnext⟩ := hstep state call hinv hall.1
    exact ⟨hcall, ih hnext hall.2⟩

end Runs
