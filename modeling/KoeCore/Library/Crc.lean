import Mathlib.Algebra.Ring.Nat
import Mathlib.Data.List.GetD
import Mathlib.Logic.Function.Iterate
import Mathlib.Tactic.Common

/-!
# Cyclic redundancy checks, least significant bit first

A register of `w` bits takes the bits of a message one at a time: the bit is added to the lowest
place, the register moves down one place, and the polynomial is added when a one falls out
(`feed`, `feedAll`). The polynomial is written in reverse and without its leading term, as
programs do.

One move of the register is linear (`shift_xor`), and it is injective when the polynomial has its
highest bit (`shift_injective`). Up to `w` bits can be added at once in front of the moves
(`feedAll_eq_iterate`). Two results follow. The moves of a register can be looked up for its low
places and are a plain shift for the others (`iterate_shift_eq_low_xor`), which is what a table is
for. And two messages that differ, but only within `w` consecutive bits, leave different registers
(`feedAll_burst_injective`).
-/

set_option autoImplicit false
set_option relaxedAutoImplicit false

namespace ReflectedCrc

variable {w : ℕ}

/-- One move of the register. -/
def shift (poly register : BitVec w) : BitVec w :=
  if register.getLsbD 0 then poly ^^^ (register >>> 1) else register >>> 1

/-- The register that has one bit in its lowest place. -/
def lowest (w : ℕ) (bit : Bool) : BitVec w := (BitVec.ofBool bit).setWidth w

/-- The register after one more bit of the message. -/
def feed (poly register : BitVec w) (bit : Bool) : BitVec w :=
  shift poly (register ^^^ lowest w bit)

/-- The register after the bits of a message. -/
def feedAll (poly register : BitVec w) (bits : List Bool) : BitVec w :=
  bits.foldl (feed poly) register

/-! ### One move -/

/-- A move is linear. -/
theorem shift_xor (poly first second : BitVec w) :
    shift poly (first ^^^ second) = shift poly first ^^^ shift poly second := by
  have hcancel (a b : BitVec w) : a ^^^ b = poly ^^^ a ^^^ (poly ^^^ b) := by
    rw [BitVec.xor_assoc, BitVec.xor_comm poly (a ^^^ (poly ^^^ b)), BitVec.xor_assoc,
      BitVec.xor_comm poly b, BitVec.xor_assoc, BitVec.xor_self, BitVec.xor_zero]
  simp only [shift, BitVec.getLsbD_xor, BitVec.ushiftRight_xor_distrib]
  cases first.getLsbD 0 <;> cases second.getLsbD 0
  · rfl
  · simp only [Bool.false_xor, if_true, Bool.false_eq_true, if_false]
    ac_rfl
  · simp only [Bool.xor_false, if_true, Bool.false_eq_true, if_false, BitVec.xor_assoc]
  · simp only [Bool.xor_self, if_true, Bool.false_eq_true, if_false]
    exact hcancel _ _

theorem iterate_shift_xor (poly first second : BitVec w) (n : ℕ) :
    (shift poly)^[n] (first ^^^ second) = (shift poly)^[n] first ^^^ (shift poly)^[n] second := by
  induction n generalizing first second with
  | zero => rfl
  | succ n ih => rw [Function.iterate_succ_apply, shift_xor, ih]; rfl

/-- Only the zero register moves to zero. Assumes: a polynomial with its highest bit. -/
theorem eq_zero_of_shift_eq_zero {poly register : BitVec w} (hpoly : poly.msb = true)
    (hzero : shift poly register = 0) : register = 0 := by
  change shift poly register = 0#w at hzero
  change register = 0#w
  unfold shift at hzero
  split at hzero
  · -- What falls out adds the highest bit of the polynomial, and the shift leaves that place empty.
    have hmsb := congrArg BitVec.msb hzero
    rw [BitVec.msb_xor, hpoly, BitVec.msb_ushiftRight] at hmsb
    simp at hmsb
  · rename_i hlow
    apply BitVec.eq_of_getLsbD_eq
    intro i hi
    rw [BitVec.getLsbD_zero]
    cases i with
    | zero => exact Bool.eq_false_iff.mpr hlow
    | succ i =>
      have hbit := congrArg (fun bits ↦ bits.getLsbD i) hzero
      simpa only [BitVec.getLsbD_ushiftRight, BitVec.getLsbD_zero, Nat.add_comm 1 i] using hbit

/-- Assumes: a polynomial with its highest bit. -/
theorem shift_injective {poly : BitVec w} (hpoly : poly.msb = true) :
    Function.Injective (shift poly) := by
  intro first second heq
  have hzero : shift poly (first ^^^ second) = 0 := by
    rw [shift_xor, heq, BitVec.xor_self]
    rfl
  exact BitVec.xor_eq_zero_iff.mp (eq_zero_of_shift_eq_zero hpoly hzero)

/-- A register with an empty highest place, moved up and then down, is what it was. Assumes: an
empty highest place. -/
theorem shift_shiftLeft (poly : BitVec w) {register : BitVec w} (hmsb : register.msb = false) :
    shift poly (register <<< 1) = register := by
  have hlow : (register <<< 1).getLsbD 0 = false := by simp
  rw [shift, hlow, if_neg Bool.false_ne_true]
  apply BitVec.eq_of_getLsbD_eq
  intro i hi
  rw [BitVec.getLsbD_ushiftRight, BitVec.getLsbD_shiftLeft]
  by_cases hlast : 1 + i < w
  · simp [hlast]
  · have hi' : i = w - 1 := by omega
    have hempty : register.getLsbD i = false := by
      rw [hi', ← BitVec.msb_eq_getLsbD_last, hmsb]
    simp [hlast, hempty]

/-! ### Many moves -/

/-- Moving down the places above the lowest `n` only shifts them. Assumes: at most as many moves as
the register has places. -/
theorem iterate_shift_shiftLeft (poly register : BitVec w) {n : ℕ} (hn : n ≤ w)
    (hempty : ∀ i, w - n ≤ i → register.getLsbD i = false) :
    (shift poly)^[n] (register <<< n) = register := by
  induction n with
  | zero => simp
  | succ n ih =>
    have hmsb : (register <<< n).msb = false := by
      rw [BitVec.msb_eq_getLsbD_last, BitVec.getLsbD_shiftLeft, hempty (w - 1 - n) (by omega),
        Bool.and_false]
    have hstep : shift poly (register <<< (n + 1)) = register <<< n := by
      rw [BitVec.shiftLeft_add, shift_shiftLeft poly hmsb]
    rw [Function.iterate_succ_apply, hstep]
    exact ih (by omega) fun i hi ↦ hempty i (by omega)

/-- The places of a register below the lowest `n` and the others. -/
theorem low_xor_high (register : BitVec w) (n : ℕ) :
    register = (register &&& BitVec.ofNat w (2 ^ n - 1)) ^^^ (register >>> n <<< n) := by
  apply BitVec.eq_of_getLsbD_eq
  intro i hi
  rw [BitVec.getLsbD_xor, BitVec.getLsbD_and, BitVec.getLsbD_ofNat, BitVec.getLsbD_shiftLeft,
    BitVec.getLsbD_ushiftRight, Nat.testBit_two_pow_sub_one]
  by_cases hlow : i < n
  · simp [hi, hlow]
  · simp [hi, hlow, show n + (i - n) = i by omega]

/-- The table method: `n` moves are those of the lowest `n` places, and a shift of the others.
Assumes: at most as many moves as the register has places. -/
theorem iterate_shift_eq_low_xor (poly register : BitVec w) {n : ℕ} (hn : n ≤ w) :
    (shift poly)^[n] register =
      (shift poly)^[n] (register &&& BitVec.ofNat w (2 ^ n - 1)) ^^^ (register >>> n) := by
  have hhigh : (shift poly)^[n] (register >>> n <<< n) = register >>> n := by
    refine iterate_shift_shiftLeft poly _ hn ?_
    intro i hi
    rw [BitVec.getLsbD_ushiftRight]
    exact BitVec.getLsbD_of_ge register (n + i) (by omega)
  calc (shift poly)^[n] register
      = (shift poly)^[n] ((register &&& BitVec.ofNat w (2 ^ n - 1)) ^^^ (register >>> n <<< n)) :=
        congrArg _ (low_xor_high register n)
    _ = (shift poly)^[n] (register &&& BitVec.ofNat w (2 ^ n - 1)) ^^^ (register >>> n) := by
        rw [iterate_shift_xor, hhigh]

/-! ### Bits of a message -/

/-- The register with the given bits, the first in the lowest place. -/
def word (w : ℕ) : List Bool → BitVec w
  | [] => 0
  | bit :: rest => lowest w bit ^^^ (word w rest <<< 1)

theorem getLsbD_lowest (bit : Bool) (i : ℕ) :
    (lowest w bit).getLsbD i = (decide (i < w) && decide (i = 0) && bit) := by
  cases i with
  | zero => simp [lowest]
  | succ i => simp [lowest]

theorem getLsbD_word (bits : List Bool) (i : ℕ) :
    (word w bits).getLsbD i = (decide (i < w) && bits.getD i false) := by
  induction bits generalizing i with
  | nil => simp [word]
  | cons bit rest ih =>
    rw [word, BitVec.getLsbD_xor, BitVec.getLsbD_shiftLeft, ih, getLsbD_lowest]
    cases i with
    | zero => simp
    | succ i =>
      by_cases hi : i + 1 < w
      · simp [hi, Nat.lt_of_succ_lt hi]
      · simp [hi]

/-- Assumes: two messages of one length, of at most as many bits as the register has places. -/
theorem word_injective {first second : List Bool} (hlength : first.length = second.length)
    (hw : first.length ≤ w) (heq : word w first = word w second) : first = second := by
  refine List.ext_getElem hlength ?_
  intro i hfirst hsecond
  have hbit := congrArg (fun bits ↦ bits.getLsbD i) heq
  simp only [getLsbD_word, decide_eq_true (Nat.lt_of_lt_of_le hfirst hw), Bool.true_and] at hbit
  rwa [List.getD_eq_getElem _ _ hfirst, List.getD_eq_getElem _ _ hsecond] at hbit

/-- The bits of a message can be added at once in front of the moves. Assumes: at most as many bits
as the register has places. -/
theorem feedAll_eq_iterate (poly register : BitVec w) {bits : List Bool} (hw : bits.length ≤ w) :
    feedAll poly register bits = (shift poly)^[bits.length] (register ^^^ word w bits) := by
  induction bits generalizing register with
  | nil =>
    change register = register ^^^ 0#w
    rw [BitVec.xor_zero]
  | cons bit rest ih =>
    rw [List.length_cons] at hw
    have hmsb : (word w rest).msb = false := by
      rw [BitVec.msb_eq_getLsbD_last, getLsbD_word, List.getD_eq_default _ _ (by omega),
        Bool.and_false]
    calc feedAll poly register (bit :: rest)
        = feedAll poly (shift poly (register ^^^ lowest w bit)) rest := rfl
      _ = (shift poly)^[rest.length] (shift poly (register ^^^ lowest w bit) ^^^ word w rest) :=
          ih _ (by omega)
      _ = (shift poly)^[rest.length]
            (shift poly (register ^^^ lowest w bit ^^^ (word w rest <<< 1))) := by
          rw [shift_xor poly (register ^^^ lowest w bit), shift_shiftLeft poly hmsb]
      _ = (shift poly)^[(bit :: rest).length] (register ^^^ word w (bit :: rest)) := by
          rw [word, ← BitVec.xor_assoc]
          rfl

theorem feedAll_append (poly register : BitVec w) (first second : List Bool) :
    feedAll poly register (first ++ second) = feedAll poly (feedAll poly register first) second :=
  List.foldl_append

/-- Equal bits keep different registers apart. Assumes: a polynomial with its highest bit. -/
theorem feedAll_injective {poly : BitVec w} (hpoly : poly.msb = true) (bits : List Bool) :
    Function.Injective fun register ↦ feedAll poly register bits := by
  induction bits with
  | nil => exact fun _ _ heq ↦ heq
  | cons bit rest ih =>
    intro first second heq
    have hfed : feed poly first bit = feed poly second bit := ih heq
    exact (BitVec.xor_left_inj _).mp (shift_injective hpoly hfed)

/-- A burst that is no longer than the register is seen. Assumes: a polynomial with its highest bit,
and two bursts of one length that fit into the register. -/
theorem feedAll_burst_injective {poly : BitVec w} (hpoly : poly.msb = true) (register : BitVec w)
    (front back : List Bool) {first second : List Bool} (hlength : first.length = second.length)
    (hw : first.length ≤ w)
    (heq : feedAll poly register (front ++ first ++ back) =
      feedAll poly register (front ++ second ++ back)) : first = second := by
  simp only [feedAll_append] at heq
  have hburst := feedAll_injective hpoly back heq
  generalize feedAll poly register front = reached at hburst
  rw [feedAll_eq_iterate poly reached hw, feedAll_eq_iterate poly reached (hlength ▸ hw),
    hlength] at hburst
  have hword := (shift_injective hpoly).iterate _ hburst
  exact word_injective hlength hw ((BitVec.xor_right_inj _).mp hword)

end ReflectedCrc
