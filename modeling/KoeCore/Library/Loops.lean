import Mathlib.Tactic.Common

/-!
# Loops with a test

`while (test) body` on a state, followed for at most a given number of rounds. Nothing says that a
loop ends; it has ended when its test fails, and from then on more rounds change nothing
(`rounds_of_ended`). A measure that falls in every round bounds the number of rounds
(`rounds_ended`), and what every round keeps holds afterwards (`rounds_invariant`).
-/

set_option autoImplicit false
set_option relaxedAutoImplicit false

namespace Loops

variable {σ : Type*} {test : σ → Bool} {body : σ → σ}

/-- The state after at most so many rounds. -/
def rounds (test : σ → Bool) (body : σ → σ) : ℕ → σ → σ
  | 0, state => state
  | n + 1, state => if test state then rounds test body n (body state) else state

/-- Assumes: what every round keeps. -/
theorem rounds_invariant {inv : σ → Prop}
    (hkeeps : ∀ state, inv state → test state = true → inv (body state)) (n : ℕ) :
    ∀ {state : σ}, inv state → inv (rounds test body n state) := by
  induction n with
  | zero =>
    intro state hinv
    exact hinv
  | succ n ih =>
    intro state hinv
    by_cases htest : test state = true
    · rw [rounds, if_pos htest]
      exact ih (hkeeps state hinv htest)
    · rw [rounds, if_neg htest]
      exact hinv

/-- Assumes: a measure that falls in every round, and at least as many rounds as it allows. The loop
has ended. -/
theorem rounds_ended (measure : σ → ℕ)
    (hfalls : ∀ state, test state = true → measure (body state) < measure state) (n : ℕ) :
    ∀ {state : σ}, measure state ≤ n → test (rounds test body n state) = false := by
  induction n with
  | zero =>
    intro state hmeasure
    rw [rounds]
    by_contra htest
    rw [Bool.not_eq_false] at htest
    exact absurd (hfalls state htest) (by omega)
  | succ n ih =>
    intro state hmeasure
    by_cases htest : test state = true
    · rw [rounds, if_pos htest]
      have hless := hfalls state htest
      exact ih (by omega)
    · rw [rounds, if_neg htest]
      exact Bool.not_eq_true _ ▸ htest

/-- Assumes: a loop that has ended. More rounds change nothing. -/
theorem rounds_of_ended {n : ℕ} :
    ∀ {state : σ}, test (rounds test body n state) = false → ∀ m, n ≤ m →
      rounds test body m state = rounds test body n state := by
  induction n with
  | zero =>
    intro state hended m _
    rw [rounds] at hended ⊢
    cases m with
    | zero => rfl
    | succ m =>
      have hstops : ¬ test state = true := Bool.not_eq_true _ ▸ hended
      rw [rounds, if_neg hstops]
  | succ n ih =>
    intro state hended m hm
    obtain ⟨k, rfl⟩ : ∃ k, m = k + 1 := ⟨m - 1, by omega⟩
    by_cases htest : test state = true
    · rw [rounds, if_pos htest] at hended
      rw [rounds, rounds, if_pos htest, if_pos htest]
      exact ih hended k (by omega)
    · rw [rounds, rounds, if_neg htest, if_neg htest]

end Loops
