import KoeCore.Handshake.Agreement
import KoeCore.Library.Runs

/-!
# Packets after the handshake is complete

One record of `koe_handshake_init` and a sequence of packets given to `koe_handshake_finalise`. The
function never reads the state of the record. A packet that passes the checks is therefore accepted
again after the handshake is complete, now with the erased ephemeral secret, and a packet that fails
them late may still leave its version in the record (`koeHandshakeFinalise_rejected`).

`koeHandshakeFinalise_final_iff` is the exact condition under which a completed handshake is final,
over whole sequences: no packet that arrives at a complete record passes the checks, and none
changes the version. `retransmittedAck_replaces_keys` is the same HELLO_ACK delivered twice.

Before the handshake is complete, the version that a rejected packet leaves behind does no harm:
the packet that completes the handshake overwrites it (`koeHandshakeFinalise_forgets_version`), and
nothing else of the record has changed (`koeHandshakeFinalise_after_rejected`).
-/

set_option autoImplicit false
set_option relaxedAutoImplicit false

namespace KoeCore

open ByteWire

section Finality

variable (S : Sodium) (version : Version) (localId : Identity)

/-- The record after a packet. -/
def finaliseStep (hs : Handshake) (ack : Packet) : Handshake :=
  (koeHandshakeFinalise S version hs ack localId).2

/-- The number of calls that return 0. -/
def successes : Handshake → List Packet → ℕ
  | _, [] => 0
  | hs, ack :: acks =>
    (if (koeHandshakeFinalise S version hs ack localId).1 = 0 then 1 else 0) +
      successes (finaliseStep S version localId hs ack) acks

/-- A call on a complete record changes neither the session nor the version nor the state. -/
def KeepsComplete (hs : Handshake) (ack : Packet) : Prop :=
  hs.state = .complete →
    (finaliseStep S version localId hs ack).session = hs.session ∧
      (finaliseStep S version localId hs ack).negotiatedVersion = hs.negotiatedVersion ∧
      (finaliseStep S version localId hs ack).state = hs.state

/-- A packet for a complete record fails a check, and its version is the one already stored or is
not read. -/
def LeavesComplete (hs : Handshake) (ack : Packet) : Prop :=
  hs.state = .complete →
    ¬ ack.AckPasses S version hs.localEph.sk ∧
      ack.negotiated version hs.negotiatedVersion = hs.negotiatedVersion

/-- The successes that the state of a record stands for. -/
def Handshake.completions (hs : Handshake) : ℕ := if hs.state = .complete then 1 else 0

variable {S version localId} {hs : Handshake} {ack : Packet}

/-- Assumes: a packet that fails a check. -/
theorem finaliseStep_rejected (hack : ¬ ack.AckPasses S version hs.localEph.sk) :
    finaliseStep S version localId hs ack =
      { hs with negotiatedVersion := ack.negotiated version hs.negotiatedVersion } := by
  rw [finaliseStep, koeHandshakeFinalise_rejected hack]

/-- Assumes: a packet that passes the checks. -/
theorem finaliseStep_accepted (hack : ack.AckPasses S version hs.localEph.sk) :
    (finaliseStep S version localId hs ack).state = .complete := by
  obtain ⟨payload, dh, heq⟩ := koeHandshakeFinalise_accepted hack localId
  rw [finaliseStep, heq]
  rfl

/-- On packets that fail a check, the call keeps a complete record exactly when the version stays.
Assumes: a packet that fails a check. -/
theorem keepsComplete_iff (hack : ¬ ack.AckPasses S version hs.localEph.sk) :
    KeepsComplete S version localId hs ack ↔ LeavesComplete S version hs ack := by
  unfold KeepsComplete LeavesComplete
  rw [finaliseStep_rejected hack]
  refine imp_congr_right fun _ ↦ ?_
  constructor
  · rintro ⟨-, hversion, -⟩
    exact ⟨hack, hversion⟩
  · rintro ⟨-, hversion⟩
    exact ⟨rfl, hversion, rfl⟩

variable (S version localId) in
/-- The induction over the packets carries the success that completed the record. -/
theorem final_iff_of_completions (acks : List Packet) :
    ∀ hs : Handshake,
      (successes S version localId hs acks + hs.completions ≤ 1 ∧
          Runs.AllSteps (finaliseStep S version localId) (KeepsComplete S version localId) hs
            acks) ↔
        Runs.AllSteps (finaliseStep S version localId) (LeavesComplete S version) hs acks := by
  induction acks with
  | nil =>
    intro hs
    have hle : hs.completions ≤ 1 := by
      unfold Handshake.completions
      split <;> omega
    simp [successes, Runs.AllSteps, hle]
  | cons ack acks ih =>
    intro hs
    have hrest := ih (finaliseStep S version localId hs ack)
    have hcode : (koeHandshakeFinalise S version hs ack localId).1 = 0 ↔
        ack.AckPasses S version hs.localEph.sk := koeHandshakeFinalise_eq_zero_iff hs ack localId
    by_cases hack : ack.AckPasses S version hs.localEph.sk
    · have hnext : (finaliseStep S version localId hs ack).completions = 1 :=
        if_pos (finaliseStep_accepted hack)
      rw [hnext] at hrest
      by_cases hcomplete : hs.state = .complete
      · -- A second success, which both sides exclude.
        have hone : hs.completions = 1 := if_pos hcomplete
        refine iff_of_false ?_ ?_
        · rintro ⟨hcount, -⟩
          rw [successes, if_pos (hcode.mpr hack), hone] at hcount
          omega
        · rintro ⟨hleaves, -⟩
          exact (hleaves hcomplete).1 hack
      · have hzero : hs.completions = 0 := if_neg hcomplete
        have hkeeps : KeepsComplete S version localId hs ack := fun h ↦ absurd h hcomplete
        have hleaves : LeavesComplete S version hs ack := fun h ↦ absurd h hcomplete
        rw [successes, if_pos (hcode.mpr hack), hzero, Runs.AllSteps, Runs.AllSteps, ← hrest,
          and_iff_right hkeeps, and_iff_right hleaves]
        refine and_congr_left fun _ ↦ ?_
        omega
    · have hsame : (finaliseStep S version localId hs ack).completions = hs.completions := by
        rw [finaliseStep_rejected hack]
        rfl
      rw [hsame] at hrest
      rw [successes, if_neg (mt hcode.mp hack), Nat.zero_add, Runs.AllSteps, Runs.AllSteps, ← hrest,
        ← keepsComplete_iff hack]
      exact and_left_comm

end Finality

/-- The record of `koe_handshake_init` is not complete. -/
theorem koeHandshakeInit_state (S : Sodium) (version : Version) (env : HandshakeEnv)
    (helloOut : Packet) (localId : Identity) (remotePk : Block 32) :
    (koeHandshakeInit S version env helloOut localId remotePk).2.1.state ≠ .complete := by
  rcases hdrawn : env.drawn with _ | sk
  · simp [koeHandshakeInit, koeEphemeralGenerate, hdrawn, Handshake.zero]
  rcases halloc : env.alloc with _ | _
  · simp [koeHandshakeInit, koeEphemeralGenerate, hdrawn, halloc, Handshake.zero]
  rcases hsig : koeSign S (signedPart version (S.cryptoBoxPublic sk) localId.pk) localId
    with _ | sig
  · simp [koeHandshakeInit, koeEphemeralGenerate, hdrawn, halloc, hsig, Handshake.zero]
  · rw [koeHandshakeInit_eq hdrawn halloc hsig]
    simp [Handshake.started]

/-- When a completed handshake is final: at most one call returns 0 and no call on the complete
record changes it, exactly when every packet that arrives at the complete record fails a check and
leaves the version. -/
theorem koeHandshakeFinalise_final_iff (S : Sodium) (version : Version) (env : HandshakeEnv)
    (helloOut : Packet) (localId : Identity) (remotePk : Block 32) (acks : List Packet) :
    let hs := (koeHandshakeInit S version env helloOut localId remotePk).2.1
    (successes S version localId hs acks ≤ 1 ∧
        ∀ front ack back, acks = front ++ ack :: back →
          KeepsComplete S version localId (front.foldl (finaliseStep S version localId) hs) ack) ↔
      ∀ front ack back, acks = front ++ ack :: back →
        LeavesComplete S version (front.foldl (finaliseStep S version localId) hs) ack := by
  intro hs
  have hzero : hs.completions = 0 :=
    if_neg (koeHandshakeInit_state S version env helloOut localId remotePk)
  have hfinal := final_iff_of_completions S version localId acks hs
  rw [hzero, Nat.add_zero, Runs.allSteps_iff, Runs.allSteps_iff] at hfinal
  exact hfinal

/-- The HELLO_ACK of an honest run, delivered twice: both calls return 0, and the second one
replaces the keys. -/
theorem retransmittedAck_replaces_keys :
    let alice := Sodium.transparentIdentity 1
    let bob := Sodium.transparentIdentity 2
    let started := koeHandshakeInit Sodium.transparent koeVersionLocal
      ⟨some (List.Vector.replicate 32 3), true⟩ Packet.zero alice bob.pk
    let responded := koeHandshakeRespond Sodium.transparent koeVersionLocal
      ⟨some (List.Vector.replicate 32 4), true⟩ Packet.zero started.2.2 bob
    let first := koeHandshakeFinalise Sodium.transparent koeVersionLocal started.2.1 responded.2.2
      alice
    let second := koeHandshakeFinalise Sodium.transparent koeVersionLocal first.2 responded.2.2
      alice
    first.1 = 0 ∧ first.2.state = .complete ∧ first.2.session.Mirrored responded.2.1.session ∧
      second.1 = 0 ∧ second.2.session ≠ first.2.session := by
  decide +kernel

/-! ### Packets before the handshake is complete -/

section Pending

variable {S : Sodium} {version : Version} {hs : Handshake}

/-- The outcome of a call that returns 0 does not depend on the version in the record. Assumes: a
packet that passes the checks. -/
theorem koeHandshakeFinalise_forgets_version {ack : Packet}
    (hack : ack.AckPasses S version hs.localEph.sk) (localId : Identity) (stored : Version) :
    koeHandshakeFinalise S version { hs with negotiatedVersion := stored } ack localId =
      koeHandshakeFinalise S version hs ack localId := by
  obtain ⟨payload, hpresents, hsome⟩ := hack
  obtain ⟨dh, hdh⟩ := Option.isSome_iff_exists.mp hsome
  have hnegotiated : koeVersionNegotiate version (payloadVersion payload) stored =
      koeVersionNegotiate version (payloadVersion payload) hs.negotiatedVersion :=
    (koeVersionNegotiate_comm hpresents.compatible stored stored).trans
      (koeVersionNegotiate_comm hpresents.compatible hs.negotiatedVersion stored).symm
  have hstored : S.cryptoScalarmult
      { hs with negotiatedVersion := stored }.localEph.sk (payloadEph payload) = some dh := hdh
  rw [koeHandshakeFinalise_eq hpresents hdh, koeHandshakeFinalise_eq hpresents hstored]
  simp only [Handshake.finalised, hnegotiated]

/-- Assumes: packets that are all rejected. They leave the record as it was, apart from the
version. -/
theorem finaliseStep_run_rejected {localId : Identity} {rejected : List Packet}
    (hrejected : Runs.AllSteps (finaliseStep S version localId)
      (fun hs pkt ↦ (koeHandshakeFinalise S version hs pkt localId).1 = -1) hs rejected) :
    ∃ stored, rejected.foldl (finaliseStep S version localId) hs =
      { hs with negotiatedVersion := stored } := by
  have hkeeps (after : Handshake) (pkt : Packet)
      (hsame : ∃ stored, after = { hs with negotiatedVersion := stored })
      (hrc : (koeHandshakeFinalise S version after pkt localId).1 = -1) :
      ∃ stored, finaliseStep S version localId after pkt =
        { hs with negotiatedVersion := stored } := by
    obtain ⟨stored, rfl⟩ := hsame
    have hfails : ¬ pkt.AckPasses S version hs.localEph.sk := by
      intro hack
      have hzero := (koeHandshakeFinalise_eq_zero_iff { hs with negotiatedVersion := stored } pkt
        localId).mpr hack
      exact absurd (hzero.symm.trans hrc) (by decide)
    exact ⟨_, finaliseStep_rejected hfails⟩
  rw [← List.append_nil rejected] at hrejected
  exact Runs.AllSteps.invariant hkeeps rejected hrejected ⟨hs.negotiatedVersion, rfl⟩

end Pending

/-- Rejected packets do not disturb a pending handshake. Assumes: packets that are all rejected on a
record of `koe_handshake_init`, and a packet that would have been accepted in their place. It is
still accepted after them, and leaves the same record. -/
theorem koeHandshakeFinalise_after_rejected (S : Sodium) (version : Version) (env : HandshakeEnv)
    (helloOut : Packet) (localId : Identity) (remotePk : Block 32) {rejected : List Packet}
    (hrejected : Runs.AllSteps (finaliseStep S version localId)
      (fun hs pkt ↦ (koeHandshakeFinalise S version hs pkt localId).1 = -1)
      (koeHandshakeInit S version env helloOut localId remotePk).2.1 rejected) {ack : Packet}
    (hack : (koeHandshakeFinalise S version
      (koeHandshakeInit S version env helloOut localId remotePk).2.1 ack localId).1 = 0) :
    let hs := (koeHandshakeInit S version env helloOut localId remotePk).2.1
    let after := rejected.foldl (finaliseStep S version localId) hs
    (koeHandshakeFinalise S version after ack localId).1 = 0 ∧
      koeHandshakeFinalise S version after ack localId =
        koeHandshakeFinalise S version hs ack localId := by
  intro hs after
  have hpasses : ack.AckPasses S version hs.localEph.sk :=
    (koeHandshakeFinalise_eq_zero_iff hs ack localId).mp hack
  obtain ⟨stored, hafter⟩ := finaliseStep_run_rejected hrejected
  have hsame : koeHandshakeFinalise S version after ack localId =
      koeHandshakeFinalise S version hs ack localId := by
    change koeHandshakeFinalise S version (rejected.foldl _ _) ack localId = _
    rw [hafter]
    exact koeHandshakeFinalise_forgets_version hpasses localId stored
  exact ⟨hsame ▸ hack, hsame⟩

/-- A HELLO_ACK of version 0.9 without a signature. -/
def unsignedAck : Packet :=
  handshakePacket .helloAck (Block.zero 32) (Block.zero 32) ([0, 9] ++ List.replicate 128 0)

/-- An empty packet and an unsigned HELLO_ACK are rejected, and the second one leaves a version in
the record. The HELLO_ACK of a responder of version 0.0 then completes the handshake, as it would
have at once. -/
theorem unsignedAck_does_no_harm :
    let alice := Sodium.transparentIdentity 1
    let bob := Sodium.transparentIdentity 2
    let started := koeHandshakeInit Sodium.transparent koeVersionLocal
      ⟨some (List.Vector.replicate 32 3), true⟩ Packet.zero alice bob.pk
    let responded := koeHandshakeRespond Sodium.transparent ⟨0, 0⟩
      ⟨some (List.Vector.replicate 32 4), true⟩ Packet.zero started.2.2 bob
    let after := [Packet.zero, unsignedAck].foldl
      (finaliseStep Sodium.transparent koeVersionLocal alice) started.2.1
    after.negotiatedVersion = ⟨0, 1⟩ ∧
      (koeHandshakeFinalise Sodium.transparent koeVersionLocal after responded.2.2 alice).1 = 0 ∧
      koeHandshakeFinalise Sodium.transparent koeVersionLocal after responded.2.2 alice =
        koeHandshakeFinalise Sodium.transparent koeVersionLocal started.2.1 responded.2.2
          alice := by
  intro alice bob started responded after
  have hrejected : Runs.AllSteps (finaliseStep Sodium.transparent koeVersionLocal alice)
      (fun hs pkt ↦ (koeHandshakeFinalise Sodium.transparent koeVersionLocal hs pkt alice).1 = -1)
      started.2.1 [Packet.zero, unsignedAck] :=
    ⟨by decide +kernel, by decide +kernel, trivial⟩
  have haccepted : (koeHandshakeFinalise Sodium.transparent koeVersionLocal started.2.1
      responded.2.2 alice).1 = 0 := by
    decide +kernel
  exact ⟨by decide +kernel, koeHandshakeFinalise_after_rejected Sodium.transparent koeVersionLocal
    _ _ _ _ hrejected haccepted⟩

end KoeCore
