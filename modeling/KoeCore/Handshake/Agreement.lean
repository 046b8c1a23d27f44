import KoeCore.Handshake.Record

/-!
# Agreement and authentication of the three-step handshake

The handshake functions of `koe_handshake.c`, chained as their tests chain them: HELLO from
`koeHandshakeInit`, HELLO_ACK from `koeHandshakeRespond`, and `koeHandshakeFinalise` on the record
that sent the HELLO.

`koeHandshake_agreement`: an honest run succeeds at every step and both sides end complete, with
mirrored keys, erased ephemeral secrets, each other's identity and one version. The version is
negotiated twice, at the responder against the HELLO and at the initiator against the result, and
both give the lower of the two versions (`koeVersionNegotiate_negotiate`).

`koeHandshakeFinalise_authenticates_iff`: the initiator accepts a HELLO_ACK of any identity that
signs for itself. The record keeps the intended peer in `remote_pk`, and `koe_handshake_finalise`
never reads it.
-/

set_option autoImplicit false
set_option relaxedAutoImplicit false

namespace KoeCore

open ByteWire

/-- An honest handshake between two builds. Assumes: X25519 agreement, working signing keys on both
sides, and compatible versions. -/
theorem koeHandshake_agreement {S : Sodium} (hagree : S.KeyAgreement) {a b : Identity}
    (ha : S.SignsFor a) (hb : S.SignsFor b) {va vb : Version}
    (hcompatible : koeVersionCompatible va vb = true) (skA skB : Block 32)
    (helloOut ackOut : Packet) :
    let started := koeHandshakeInit S va ⟨some skA, true⟩ helloOut a b.pk
    let responded := koeHandshakeRespond S vb ⟨some skB, true⟩ ackOut started.2.2 b
    let finalised := koeHandshakeFinalise S va started.2.1 responded.2.2 a
    started.1 = 0 ∧ responded.1 = 0 ∧ finalised.1 = 0 ∧
      finalised.2.state = .complete ∧ responded.2.1.state = .complete ∧
      finalised.2.session.Mirrored responded.2.1.session ∧
      finalised.2.localEph.sk = Block.zero 32 ∧ responded.2.1.localEph.sk = Block.zero 32 ∧
      finalised.2.remotePk = b.pk ∧ responded.2.1.remotePk = a.pk ∧
      finalised.2.negotiatedVersion = responded.2.1.negotiatedVersion := by
  intro started responded finalised
  obtain ⟨dh, hdhA, hdhB⟩ := hagree skA skB
  obtain ⟨sigA, hsigA, hverifyA⟩ := ha (signedPart va (S.cryptoBoxPublic skA) a.pk)
  let hello := signedPart va (S.cryptoBoxPublic skA) a.pk ++ sigA.toList
  have hstarted : started =
      (0, Handshake.started S b.pk skA, handshakePacket .hello a.pk b.pk hello) :=
    koeHandshakeInit_eq rfl rfl hsigA helloOut b.pk
  have hcompatible' : koeVersionCompatible vb va = true :=
    (koeVersionCompatible_comm vb va).trans hcompatible
  have hpresentsHello : (handshakePacket .hello a.pk b.pk hello).Presents S vb hello :=
    handshakePacket_presents hcompatible' hverifyA .hello a.pk b.pk
  have hidentity : payloadIdentity hello = a.pk := payloadIdentity_built _ _ _ _
  obtain ⟨sigB, hsigB, hverifyB⟩ := hb (ackSigned S vb hello b skB)
  let ack := ackSigned S vb hello b skB ++ sigB.toList
  have hresponded : responded =
      (0, Handshake.responded S vb hello b skB dh, handshakePacket .helloAck b.pk a.pk ack) := by
    have hresponds : Responds S vb ⟨some skB, true⟩ (handshakePacket .hello a.pk b.pk hello) b
        hello skB dh sigB := by
      refine ⟨hpresentsHello, rfl, ?_, rfl, hsigB⟩
      rw [payloadEph_built]
      exact hdhB
    change koeHandshakeRespond S vb ⟨some skB, true⟩ ackOut started.2.2 b = _
    rw [hstarted, koeHandshakeRespond_eq hresponds, hidentity]
  -- The responder answers with the lower version, which the initiator then meets again.
  have hversion (out : Version) : koeVersionNegotiate va (respondVersion vb hello) out =
      koeVersionNegotiate vb va ⟨0, 0⟩ :=
    koeVersionNegotiate_negotiate hcompatible ⟨0, 0⟩ out
  have hcompatibleAck : koeVersionCompatible va (respondVersion vb hello) = true := by
    rw [← koeVersionNegotiate_eq_zero_iff va (respondVersion vb hello) ⟨0, 0⟩, hversion,
      koeVersionNegotiate_eq_zero_iff]
    exact hcompatible'
  have hfinalised : finalised =
      (0, (Handshake.started S b.pk skA).finalised S va ack a dh) := by
    have hpresentsAck : (handshakePacket .helloAck b.pk a.pk ack).Presents S va ack :=
      handshakePacket_presents hcompatibleAck hverifyB .helloAck b.pk a.pk
    have hsecret : S.cryptoScalarmult (Handshake.started S b.pk skA).localEph.sk
        (payloadEph ack) = some dh := by
      change S.cryptoScalarmult skA (payloadEph ack) = some dh
      rw [show payloadEph ack = S.cryptoBoxPublic skB from payloadEph_built _ _ _ _]
      exact hdhA
    change koeHandshakeFinalise S va started.2.1 responded.2.2 a = _
    rw [hstarted, hresponded]
    exact koeHandshakeFinalise_eq hpresentsAck hsecret a
  have hmirrored : ((Handshake.started S b.pk skA).finalised S va ack a dh).session.Mirrored
      (Handshake.responded S vb hello b skB dh).session := by
    have hpeer : payloadIdentity ack = b.pk := payloadIdentity_built _ _ _ _
    simp only [Handshake.finalised, Handshake.responded, hpeer, hidentity]
    exact mirrored_sessionOf _
  rw [hstarted, hresponded, hfinalised]
  exact ⟨rfl, rfl, rfl, rfl, rfl, hmirrored, rfl, rfl, rfl, hidentity, congrArg Prod.snd
    (hversion ⟨0, 0⟩)⟩

/-- Two builds of adjacent minor versions agree on the lower one, over mirrored keys. -/
theorem koeHandshake_agreement_minors :
    let started := koeHandshakeInit Sodium.transparent ⟨0, 2⟩ ⟨some (Block.zero 32), true⟩
      Packet.zero (Sodium.transparentIdentity 1) (Sodium.transparentIdentity 2).pk
    let responded := koeHandshakeRespond Sodium.transparent ⟨0, 1⟩ ⟨some (Block.zero 32), true⟩
      Packet.zero started.2.2 (Sodium.transparentIdentity 2)
    let finalised := koeHandshakeFinalise Sodium.transparent ⟨0, 2⟩ started.2.1 responded.2.2
      (Sodium.transparentIdentity 1)
    finalised.1 = 0 ∧ finalised.2.session.Mirrored responded.2.1.session := by
  have hcompatible : koeVersionCompatible ⟨0, 2⟩ ⟨0, 1⟩ = true := rfl
  have hrun := koeHandshake_agreement Sodium.transparent_keyAgreement
    (Sodium.transparentIdentity_signsFor 1) (Sodium.transparentIdentity_signsFor 2) hcompatible
    (Block.zero 32) (Block.zero 32) Packet.zero Packet.zero
  dsimp only at hrun ⊢
  exact ⟨hrun.2.2.1, hrun.2.2.2.2.2.1⟩

/-! ### The identity that the initiator accepts -/

/-- The identity key that the payload of a packet names. -/
def Packet.namedIdentity (pkt : Packet) : Block 32 := payloadIdentity (pkt.payload.getD [])

/-- The record of `koe_handshake_init` holds the drawn secret, on the error branches as well. -/
theorem koeHandshakeInit_secret (S : Sodium) (version : Version) (env : HandshakeEnv)
    (helloOut : Packet) (localId : Identity) (remotePk : Block 32) :
    (koeHandshakeInit S version env helloOut localId remotePk).2.1.localEph.sk =
      env.drawn.getD (Block.zero 32) := by
  rcases hdrawn : env.drawn with _ | sk
  · simp [koeHandshakeInit, koeEphemeralGenerate, hdrawn, Handshake.zero, Ephemeral.zero]
  · simp only [koeHandshakeInit, koeEphemeralGenerate, hdrawn]
    split_ifs
    · rfl
    · rfl
    · split <;> rfl

/-- The initiator authenticates the peer it called exactly on the packets that name this peer and
on those that it rejects for another reason. -/
theorem koeHandshakeFinalise_authenticates_iff (S : Sodium) (version : Version)
    (env : HandshakeEnv) (helloOut : Packet) (localId : Identity) (peer : Block 32)
    (ack : Packet) :
    let hs := (koeHandshakeInit S version env helloOut localId peer).2.1
    ((koeHandshakeFinalise S version hs ack localId).1 = 0 → ack.namedIdentity = peer) ↔
      (ack.namedIdentity = peer ∨
        ¬ ack.AckPasses S version (env.drawn.getD (Block.zero 32))) := by
  intro hs
  have haccepts : (koeHandshakeFinalise S version hs ack localId).1 = 0 ↔
      ack.AckPasses S version (env.drawn.getD (Block.zero 32)) := by
    rw [koeHandshakeFinalise_eq_zero_iff,
      koeHandshakeInit_secret S version env helloOut localId peer]
  rw [haccepts]
  constructor
  · intro hnames
    by_cases hpasses : ack.AckPasses S version (env.drawn.getD (Block.zero 32))
    · exact Or.inl (hnames hpasses)
    · exact Or.inr hpasses
  · rintro (hnames | hrejected) hpasses
    · exact hnames
    · exact absurd hpasses hrejected

/-- Party 1 calls party 2; party 3 answers the HELLO, under its own name, and is accepted. -/
theorem koeHandshakeFinalise_accepts_stranger :
    let S := Sodium.transparent
    let started := koeHandshakeInit S koeVersionLocal ⟨some (Block.zero 32), true⟩ Packet.zero
      (Sodium.transparentIdentity 1) (Sodium.transparentIdentity 2).pk
    let answered := koeHandshakeRespond S koeVersionLocal ⟨some (Block.zero 32), true⟩ Packet.zero
      started.2.2 (Sodium.transparentIdentity 3)
    started.1 = 0 ∧
      (koeHandshakeFinalise S koeVersionLocal started.2.1 answered.2.2
        (Sodium.transparentIdentity 1)).1 = 0 ∧
      answered.2.2.namedIdentity = (Sodium.transparentIdentity 3).pk ∧
      answered.2.2.namedIdentity ≠ (Sodium.transparentIdentity 2).pk := by
  decide +kernel

end KoeCore
