import Mathlib.Data.Int.Notation
import Mathlib.Tactic.Common

/-!
# Protocol versions

`koe_version.c`. A version is a pair of bytes carried in the packet header and in the first two
bytes of a HELLO payload. Two versions are compatible when their majors agree, or differ by one and
the higher one is the first of its series (`koeVersionCompatible`); negotiation picks the lower of
two compatible versions (`koeVersionNegotiate`).

A handshake negotiates twice, once at the responder against the HELLO and once at the initiator
against the version the responder has already picked. The two results agree because the lower of
two versions is compatible with both and is the lower of itself and either of them
(`koeVersionNegotiate_negotiate`).
-/

set_option autoImplicit false
set_option relaxedAutoImplicit false

namespace KoeCore

/-- `koe_version_t`. -/
structure Version where
  major : UInt8
  minor : UInt8
deriving DecidableEq, Repr

/-- `KOE_PROTO_MAJOR`. -/
def koeProtoMajor : UInt8 := 0

/-- `KOE_PROTO_MINOR`. -/
def koeProtoMinor : UInt8 := 1

def koeVersionLocal : Version := ⟨koeProtoMajor, koeProtoMinor⟩

def koeVersionCompatible (a b : Version) : Bool :=
  if a.major = b.major then true
  else
    let diff : ℤ := a.major.toNat - b.major.toNat
    let diff := if diff < 0 then -diff else diff
    if diff ≠ 1 then false
    -- Adjacent majors: only the first release of the higher series is accepted.
    else if b.major < a.major then a.minor == 0
    else b.minor == 0

/-- The lexicographic order on versions, the test of `koe_version_negotiate`. -/
def Version.atMost (a b : Version) : Bool :=
  a.major < b.major || (a.major == b.major && a.minor ≤ b.minor)

/-- The return code, and the value of `*out` after the call. -/
def koeVersionNegotiate (localVersion remote out : Version) : ℤ × Version :=
  if !koeVersionCompatible localVersion remote then (-1, out)
  else if localVersion.atMost remote then (0, localVersion)
  else (0, remote)

theorem koeVersionCompatible_self (a : Version) : koeVersionCompatible a a = true := by
  simp [koeVersionCompatible]

theorem koeVersionCompatible_comm (a b : Version) :
    koeVersionCompatible a b = koeVersionCompatible b a := by
  by_cases hmajor : a.major = b.major
  · simp [koeVersionCompatible, hmajor]
  · have hne : a.major.toNat ≠ b.major.toNat := fun h ↦ hmajor (UInt8.toNat_inj.mp h)
    simp only [koeVersionCompatible, if_neg hmajor, if_neg (Ne.symm hmajor),
      UInt8.lt_iff_toNat_lt]
    grind

theorem Version.atMost_antisymm {a b : Version} (hab : a.atMost b = true)
    (hba : b.atMost a = true) : a = b := by
  obtain ⟨aMajor, aMinor⟩ := a
  obtain ⟨bMajor, bMinor⟩ := b
  simp only [Version.atMost, Bool.or_eq_true, Bool.and_eq_true, decide_eq_true_eq, beq_iff_eq,
    UInt8.lt_iff_toNat_lt, UInt8.le_iff_toNat_le, ← UInt8.toNat_inj] at hab hba
  simp only [Version.mk.injEq, ← UInt8.toNat_inj]
  omega

theorem Version.atMost_total (a b : Version) : a.atMost b = true ∨ b.atMost a = true := by
  simp only [Version.atMost, Bool.or_eq_true, Bool.and_eq_true, decide_eq_true_eq, beq_iff_eq,
    UInt8.lt_iff_toNat_lt, UInt8.le_iff_toNat_le, ← UInt8.toNat_inj]
  omega

/-- Negotiation succeeds exactly on compatible versions. -/
theorem koeVersionNegotiate_eq_zero_iff (localVersion remote out : Version) :
    (koeVersionNegotiate localVersion remote out).1 = 0 ↔
      koeVersionCompatible localVersion remote = true := by
  unfold koeVersionNegotiate
  cases koeVersionCompatible localVersion remote
  · simp
  · cases localVersion.atMost remote <;> simp

/-- The result of negotiating compatible versions does not depend on which side negotiates, nor on
what the output variable held. Assumes: compatible versions. -/
theorem koeVersionNegotiate_comm {a b : Version} (hcompatible : koeVersionCompatible a b = true)
    (out out' : Version) : koeVersionNegotiate a b out = koeVersionNegotiate b a out' := by
  have hswap : koeVersionCompatible b a = true := by rwa [koeVersionCompatible_comm]
  simp only [koeVersionNegotiate, hcompatible, hswap, Bool.not_true, Bool.false_eq_true, if_false]
  cases hab : a.atMost b <;> cases hba : b.atMost a
  · rcases Version.atMost_total a b with h | h
    · simp [hab] at h
    · simp [hba] at h
  · simp
  · simp
  · rw [Version.atMost_antisymm hab hba]

/-- The version picked is one that both sides speak. Assumes: compatible versions. -/
theorem koeVersionCompatible_negotiate {a b : Version}
    (hcompatible : koeVersionCompatible a b = true) (out : Version) :
    koeVersionCompatible a (koeVersionNegotiate a b out).2 = true := by
  by_cases hab : a.atMost b = true
  · simp [koeVersionNegotiate, hcompatible, hab, koeVersionCompatible_self]
  · simp [koeVersionNegotiate, hcompatible, hab]

/-- Negotiating once more against the version already picked succeeds and picks it again. Assumes:
compatible versions. -/
theorem koeVersionNegotiate_negotiate {a b : Version}
    (hcompatible : koeVersionCompatible a b = true) (out out' : Version) :
    koeVersionNegotiate a (koeVersionNegotiate b a out).2 out' = koeVersionNegotiate b a out := by
  rw [← koeVersionNegotiate_comm hcompatible out out]
  simp only [koeVersionNegotiate, hcompatible, Bool.not_true, Bool.false_eq_true, if_false]
  cases hab : a.atMost b with
  | true => simp [koeVersionCompatible_self]
  | false => simp [hcompatible, hab]

end KoeCore
