import KoeCore.Account.Mirror
import KoeCore.Messaging.Revocation

/-!
# Which revocations are authentic

The receiving side of `koe_revoke.c`. A revocation that was sent arrives with all its fields and is
checked (`koeRevokeParsePacket_sent`).

In the other direction the signature pins the 72 bytes of `revokeMessage`: with an ideal Ed25519 the
owner of the old key has signed them. The reason is not among these bytes. Whoever has seen one such
signature can send it with any reason, for instance with 128 bytes without a terminator, which
`koe_revoke_build` never writes. So the revocations that are accepted are authentic in every field
exactly as long as nobody has signed 72 bytes that can be read as a revocation of their own key
(`koeRevoke_authentic_iff`).
-/

set_option autoImplicit false
set_option relaxedAutoImplicit false

namespace KoeCore

open ByteWire

/-! ### Receiving a revocation -/

/-- The record that lies in memory as these bytes. -/
def Revocation.ofBytes (bytes : List UInt8) : Revocation where
  oldPk := readAt 32 0 bytes
  newPk := readAt 32 32 bytes
  revokedAt := readInt 8 64 bytes
  reason := readAt 128 72 bytes
  sig := readAt 64 200 bytes

/-- The return code, and the revocation after the call. -/
def koeRevokeParsePacket (S : Sodium) (rev : Revocation) (pkt : Packet) : ℤ × Revocation :=
  if pkt.payload.isNone ∨ pkt.header.length.toNat < 264 then (-1, rev)
  else
    let rev := Revocation.ofBytes pkt.payloadBytes
    (koeRevokeVerify S rev, rev)

/-- Assumes: a time of 64 bits. -/
theorem Revocation.ofBytes_bytes {rev : Revocation} (htime : FitsTime rev.revokedAt) :
    Revocation.ofBytes rev.bytes = rev := by
  have hold : readAt 32 0 rev.bytes = rev.oldPk :=
    readAt_of_eq [] _ (by simp only [Revocation.bytes, List.append_assoc]; rfl) rfl
  have hnew : readAt 32 32 rev.bytes = rev.newPk :=
    readAt_of_eq rev.oldPk.toList _ (by simp only [Revocation.bytes, List.append_assoc]; rfl)
      (by simp)
  have hat : readInt 8 64 rev.bytes = rev.revokedAt :=
    readInt_of_eq htime.1 htime.2 <|
      readAt_of_eq (rev.oldPk.toList ++ rev.newPk.toList) _
        (by simp only [Revocation.bytes, List.append_assoc]; rfl) (by simp)
  have hreason : readAt 128 72 rev.bytes = rev.reason :=
    readAt_of_eq (revokeMessage rev) _
      (by simp only [revokeMessage, Revocation.bytes, List.append_assoc]; rfl)
      (by simp [revokeMessage])
  have hsig : readAt 64 200 rev.bytes = rev.sig :=
    readAt_of_eq (revokeMessage rev ++ rev.reason.toList) _
      (by rw [List.append_nil]; rfl) (by simp [revokeMessage])
  rw [Revocation.ofBytes, hold, hnew, hat, hreason, hsig]

/-- A revocation that was sent arrives, and is checked. Assumes: a time of 64 bits. -/
theorem koeRevokeParsePacket_sent (S : Sodium) {rev : Revocation} (htime : FitsTime rev.revokedAt)
    (toPk : Block 32) (pktOut : Packet) (revOut : Revocation) :
    koeRevokeParsePacket S revOut (koeRevokeBuildPacket true pktOut rev toPk).2 =
      (koeRevokeVerify S rev, rev) := by
  let pkt : Packet := ⟨revocationHeader rev toPk, some rev.bytes⟩
  have hlength : pkt.header.length.toNat = 264 := by
    change (UInt32.ofNat rev.bytes.length).toNat = 264
    rw [rev.length_bytes]
    rfl
  have hpayload : pkt.payloadBytes = rev.bytes :=
    Packet.payloadBytes_eq rfl (hlength.trans rev.length_bytes.symm)
  have hpresent : ¬ (pkt.payload.isNone ∨ pkt.header.length.toNat < 264) :=
    not_or.mpr ⟨Bool.false_ne_true, by omega⟩
  change koeRevokeParsePacket S revOut pkt = _
  rw [koeRevokeParsePacket, if_neg hpresent, hpayload, Revocation.ofBytes_bytes htime]

/-! ### Signatures -/

/-- What the owners of keys have done: the messages that the owner of a key has signed, with
whatever function, and the revocations that were built. -/
structure SigningHistory where
  signed : Block 32 → List UInt8 → Prop
  built : Revocation → Prop

/-- An ideal Ed25519 after a history: what was signed has a signature that verifies, and what has
one was signed. The revocations of the history came out of `koe_revoke_build`, with readings of the
clock of 64 bits, and the signatures in them verify. -/
structure Sodium.IdealSignatures (S : Sodium) (history : SigningHistory) : Prop where
  verifies : ∀ pk msg, history.signed pk msg →
    ∃ sig, S.cryptoSignVerifyDetached sig msg pk = true
  unforgeable : ∀ sig msg pk, S.cryptoSignVerifyDetached sig msg pk = true →
    history.signed pk msg
  built : ∀ rev, history.built rev → ∃ oldId newId reason now, FitsTime now ∧
    koeRevokeBuild S oldId newId reason now = (0, rev)
  correct : ∀ rev, history.built rev →
    S.cryptoSignVerifyDetached rev.sig (revokeMessage rev) rev.oldPk = true

/-- The two revocations agree in every field other than the signature. -/
structure Revocation.SameFields (rev other : Revocation) : Prop where
  oldPk : rev.oldPk = other.oldPk
  newPk : rev.newPk = other.newPk
  revokedAt : rev.revokedAt = other.revokedAt
  reason : rev.reason = other.reason

/-- What is asked of revocations: those that are accepted were built by the owner of the old key,
and those that were built and sent are accepted. -/
structure RevocationsAuthentic (S : Sodium) (history : SigningHistory) : Prop where
  accepted : ∀ revOut pkt, (koeRevokeParsePacket S revOut pkt).1 = 0 →
    ∃ rev, history.built rev ∧ rev.SameFields (koeRevokeParsePacket S revOut pkt).2
  arrives : ∀ rev toPk pktOut revOut, history.built rev →
    let sent := koeRevokeBuildPacket true pktOut rev toPk
    sent.1 = 0 ∧ (koeRevokeParsePacket S revOut sent.2).1 = 0 ∧
      rev.SameFields (koeRevokeParsePacket S revOut sent.2).2

/-- The message can be read as a revocation of the key. -/
def RevokesKey (pk : Block 32) (msg : List UInt8) : Prop :=
  msg.length = 72 ∧ msg.take 32 = pk.toList

theorem revokesKey_revokeMessage (rev : Revocation) : RevokesKey rev.oldPk (revokeMessage rev) := by
  refine ⟨by simp [revokeMessage], ?_⟩
  rw [revokeMessage, List.append_assoc, List.take_left' (List.Vector.toList_length _)]

/-- The revocation that a signed message can be sent as, with a reason that has no terminator. -/
def forgedRevocation (pk : Block 32) (msg : List UInt8) (sig : Block 64) : Revocation where
  oldPk := pk
  newPk := readAt 32 32 msg
  revokedAt := readInt 8 64 msg
  reason := List.Vector.replicate 128 0xff
  sig := sig

theorem fitsTime_readInt (off : ℕ) (buf : List UInt8) : FitsTime (readInt 8 off buf) := by
  have hlow := @Int.le_bmod (ofLeBytes (readAt 8 off buf).toList) (256 ^ 8) (by decide)
  have hhigh := @Int.bmod_lt (ofLeBytes (readAt 8 off buf).toList) (256 ^ 8) (by decide)
  exact ⟨hlow, hhigh⟩

/-- The bytes of a number that was read are the bytes it was read from. -/
theorem leBytes_readInt (off : ℕ) (buf : List UInt8) :
    leBytes 8 (readInt 8 off buf % 2 ^ 64).toNat = readAt 8 off buf := by
  have hlt := ofLeBytes_lt (readAt 8 off buf)
  have hmod : readInt 8 off buf % 2 ^ 64 = ofLeBytes (readAt 8 off buf).toList := by
    rw [readInt]
    exact (Int.bmod_emod ..).trans (Int.emod_eq_of_lt (by omega) (by omega))
  rw [hmod, Int.toNat_natCast, leBytes_ofLeBytes]

/-- Assumes: a message that can be read as a revocation of the key. -/
theorem revokeMessage_forgedRevocation {pk : Block 32} {msg : List UInt8}
    (hrevokes : RevokesKey pk msg) (sig : Block 64) :
    revokeMessage (forgedRevocation pk msg sig) = msg := by
  obtain ⟨hlength, hkey⟩ := hrevokes
  have hparts : msg = msg.take 32 ++ (msg.drop 32).take 32 ++ (msg.drop 64).take 8 := by
    have hend : (msg.drop 64).take 8 = msg.drop 64 :=
      List.take_of_length_le (by rw [List.length_drop]; omega)
    rw [hend, ← List.take_add, List.take_append_drop]
  simp only [revokeMessage, forgedRevocation]
  rw [leBytes_readInt, toList_readAt (by omega), toList_readAt (by omega), ← hkey]
  exact hparts.symm

/-- A reason that was built ends with a terminator. Assumes: a revocation that was built. -/
theorem koeRevokeBuild_reason_ne {S : Sodium} {oldId newId : Identity} {reason : List UInt8}
    {now : ℤ} {rev : Revocation} (hbuilt : koeRevokeBuild S oldId newId reason now = (0, rev)) :
    rev.reason ≠ List.Vector.replicate 128 0xff := by
  obtain ⟨-, hreason⟩ := koeRevokeBuild_inv hbuilt
  have hzero : (0 : UInt8) ∈ rev.reason.toList := by
    rw [hreason, clip, List.Vector.toList_mk, List.mem_append]
    refine Or.inr (List.mem_replicate.mpr ⟨?_, rfl⟩)
    rw [List.length_take]
    omega
  intro hfull
  rw [hfull] at hzero
  exact absurd (List.eq_of_mem_replicate hzero) (by decide)

/-- What was built verifies. Assumes: keys that belong together, and a revocation that was built. -/
theorem koeRevokeBuild_verified {S : Sodium} {oldId newId : Identity} {reason : List UInt8}
    {now : ℤ} {rev : Revocation} (hsigns : S.SignsFor oldId)
    (hbuilt : koeRevokeBuild S oldId newId reason now = (0, rev)) :
    S.cryptoSignVerifyDetached rev.sig (revokeMessage rev) rev.oldPk = true := by
  obtain ⟨sig, hsig, hverified⟩ := hsigns (revokeMessage
    ⟨oldId.pk, newId.pk, now, clip 128 (reason.take 127), Block.zero 64⟩)
  simp only [koeRevokeBuild, koeSign] at hbuilt
  rw [hsig] at hbuilt
  obtain rfl := congrArg Prod.snd hbuilt
  exact hverified

/-- Revocations are authentic in every field exactly as long as nobody has signed a message that can
be read as a revocation of their own key. Assumes: an ideal Ed25519. -/
theorem koeRevoke_authentic_iff {S : Sodium} {history : SigningHistory}
    (hideal : S.IdealSignatures history) :
    RevocationsAuthentic S history ↔
      ∀ pk msg, history.signed pk msg → ¬ RevokesKey pk msg := by
  constructor
  · intro hauthentic pk msg hsigned hrevokes
    obtain ⟨sig, hverified⟩ := hideal.verifies pk msg hsigned
    have htime : FitsTime (forgedRevocation pk msg sig).revokedAt := by
      dsimp only [forgedRevocation]
      exact fitsTime_readInt 64 msg
    have haccepted : koeRevokeVerify S (forgedRevocation pk msg sig) = 0 := by
      rw [koeRevokeVerify, revokeMessage_forgedRevocation hrevokes, koeVerify_eq_zero_iff]
      exact hverified
    have hparsed := koeRevokeParsePacket_sent S htime pk Packet.zero (forgedRevocation pk msg sig)
    obtain ⟨rev, hbuilt, hsame⟩ := hauthentic.accepted (forgedRevocation pk msg sig) _
      ((congrArg Prod.fst hparsed).trans haccepted)
    rw [hparsed] at hsame
    obtain ⟨oldId, newId, reason, now, -, hrev⟩ := hideal.built rev hbuilt
    exact koeRevokeBuild_reason_ne hrev hsame.reason
  · intro hnone
    refine ⟨?_, ?_⟩
    · intro revOut pkt hrc
      have hfails : ¬ (-1 : ℤ) = 0 := by decide
      rw [koeRevokeParsePacket] at hrc
      split_ifs at hrc with hmissing
      · exact absurd hrc hfails
      · have hverified := (koeVerify_eq_zero_iff S _ _ _).mp hrc
        exact absurd (revokesKey_revokeMessage _) (hnone _ _ (hideal.unforgeable _ _ _ hverified))
    · intro rev toPk pktOut revOut hbuilt sent
      obtain ⟨oldId, newId, reason, now, htime, hrev⟩ := hideal.built rev hbuilt
      rw [← (koeRevokeBuild_inv hrev).1] at htime
      rw [koeRevokeParsePacket_sent S htime]
      refine ⟨rfl, ?_, rfl, rfl, rfl, rfl⟩
      exact (koeVerify_eq_zero_iff S _ _ _).mpr (hideal.correct rev hbuilt)

/-! ### Two histories -/

/-- The stand-in for libsodium after the messages in `signs` were signed and no others. -/
def Sodium.transparentAfter (signs : Block 32 → List UInt8 → Bool) : Sodium :=
  { Sodium.transparent with
    cryptoSignVerifyDetached := fun sig msg pk ↦
      signs pk msg && Sodium.transparent.cryptoSignVerifyDetached sig msg pk }

/-- Assumes: revocations that were built, and whose messages were signed. -/
theorem Sodium.transparentAfter_ideal (signs : Block 32 → List UInt8 → Bool)
    (built : Revocation → Prop)
    (hbuilt : ∀ rev, built rev → ∃ oldId newId reason now, FitsTime now ∧
      koeRevokeBuild (Sodium.transparentAfter signs) oldId newId reason now = (0, rev))
    (hsigned : ∀ rev, built rev → signs rev.oldPk (revokeMessage rev) = true ∧
      Sodium.transparent.cryptoSignVerifyDetached rev.sig (revokeMessage rev) rev.oldPk = true) :
    (Sodium.transparentAfter signs).IdealSignatures ⟨fun pk msg ↦ signs pk msg = true, built⟩ where
  verifies := by
    intro pk msg hsigns
    refine ⟨Sodium.mix 64 (pk.toList ++ msg), Bool.and_eq_true_iff.mpr ⟨hsigns, ?_⟩⟩
    exact decide_eq_true rfl
  unforgeable := fun _ _ _ hverified ↦ (Bool.and_eq_true_iff.mp hverified).1
  built := hbuilt
  correct := fun rev hrev ↦ Bool.and_eq_true_iff.mpr (hsigned rev hrev)

/-- As long as only handshakes were signed, all 66 bytes of them, revocations are authentic. -/
theorem handshakes_authentic :
    RevocationsAuthentic (Sodium.transparentAfter fun _ msg ↦ msg.length = 66)
      ⟨fun _ msg ↦ decide (msg.length = 66) = true, fun _ ↦ False⟩ := by
  have hideal := Sodium.transparentAfter_ideal (fun _ msg ↦ msg.length = 66) (fun _ ↦ False)
    (fun _ hnone ↦ hnone.elim) (fun _ hnone ↦ hnone.elim)
  refine (koeRevoke_authentic_iff hideal).mpr ?_
  intro pk msg hsigned hrevokes
  have hlength : msg.length = 66 := of_decide_eq_true hsigned
  exact absurd (hlength.symm.trans hrevokes.1) (by decide)

/-- The identity 1 hands over to the identity 2, with the reason `lost`. -/
def handover : Revocation :=
  (koeRevokeBuild Sodium.transparent (Sodium.transparentIdentity 1) (Sodium.transparentIdentity 2)
    [0x6c, 0x6f, 0x73, 0x74] 0).2

theorem handover_built :
    koeRevokeBuild Sodium.transparent (Sodium.transparentIdentity 1)
      (Sodium.transparentIdentity 2) [0x6c, 0x6f, 0x73, 0x74] 0 = (0, handover) :=
  rfl

/-- The stand-in for libsodium after this one message was signed. -/
def handoverOnly : Sodium :=
  Sodium.transparentAfter fun pk msg ↦
    decide (pk = handover.oldPk) && decide (msg = revokeMessage handover)

/-- The history in which this one revocation was built. -/
def handoverHistory : SigningHistory where
  signed pk msg := (decide (pk = handover.oldPk) && decide (msg = revokeMessage handover)) = true
  built rev := rev = handover

theorem handoverOnly_ideal : handoverOnly.IdealSignatures handoverHistory := by
  refine Sodium.transparentAfter_ideal _ _ ?_ ?_
  · rintro rev rfl
    exact ⟨Sodium.transparentIdentity 1, Sodium.transparentIdentity 2, [0x6c, 0x6f, 0x73, 0x74], 0,
      ⟨by decide, by decide⟩, handover_built⟩
  · rintro rev rfl
    refine ⟨?_, ?_⟩
    · exact Bool.and_eq_true_iff.mpr ⟨decide_eq_true rfl, decide_eq_true rfl⟩
    · exact koeRevokeBuild_verified (Sodium.transparentIdentity_signsFor 1) handover_built

/-- The revocation is accepted with another reason than the one that was built. -/
theorem handover_reason_replaced :
    let altered : Revocation := { handover with reason := clip 128 [0x6f, 0x6b] }
    let pkt := (koeRevokeBuildPacket true Packet.zero altered (Block.zero 32)).2
    handoverOnly.IdealSignatures handoverHistory ∧
      koeRevokeParsePacket handoverOnly handover pkt = (0, altered) ∧
      ∀ rev, handoverHistory.built rev → ¬ rev.SameFields altered := by
  intro altered pkt
  have htime : FitsTime altered.revokedAt := ⟨by decide, by decide⟩
  have hverify : koeRevokeVerify handoverOnly altered = 0 :=
    (koeVerify_eq_zero_iff _ _ _ _).mpr (handoverOnly_ideal.correct handover rfl)
  refine ⟨handoverOnly_ideal, ?_, ?_⟩
  · rw [koeRevokeParsePacket_sent handoverOnly htime, hverify]
  · rintro rev rfl hsame
    exact absurd hsame.reason (by decide)

end KoeCore
