import KoeCore.Messaging.Builders

/-!
# Reading channel posts

`koe_channel_receive_post` of `koe_channel.c`, which decrypts a post with the session of the owner.
`koe_channel_post` does not seal it under that session: it hashes the secret key of the owner and
the public key of the subscriber, and this key is not one that the subscriber has. A post is
therefore readable only where the two keys happen to seal the body alike
(`koeChannelPost_readable_iff`), which for a body of at least 32 bytes means that they are equal.
-/

set_option autoImplicit false
set_option relaxedAutoImplicit false

namespace KoeCore

open ByteWire

/-- The return code, and the message after the call. The owner's key is not used. -/
def koeChannelReceivePost (S : Sodium) (alloc : Bool) (now : ℤ) (msg : Message) (pkt : Packet)
    (_ownerPk : Block 32) (sess : Session) : ℤ × Message :=
  koeMessageDecrypt S alloc now msg pkt sess

/-- A subscriber with the session reads the body from the packet, given memory for it. -/
def ReadsPost (S : Sodium) (sess : Session) (ownerPk : Block 32) (body : List UInt8)
    (pkt : Packet) : Prop :=
  ∀ (now : ℤ) (msg : Message),
    (koeChannelReceivePost S true now msg pkt ownerPk sess).1 = 0 ∧
      (koeChannelReceivePost S true now msg pkt ownerPk sess).2.body = some body ∧
      (koeChannelReceivePost S true now msg pkt ownerPk sess).2.bodyLen = body.length

/-- The two keys turn the plaintext into the same bytes. -/
def SealsAlike (S : Sodium) (plain : List UInt8) (nonce : Block 24) (key other : Block 32) : Prop :=
  koeEncrypt S plain nonce key = koeEncrypt S plain nonce other

/-- Assumes: a correct AEAD whose ciphertexts tell keys apart, and a plaintext at least as long as a
key. -/
theorem sealsAlike_iff {S : Sodium} (haead : S.Aead) (hseparates : S.SeparatesKeys)
    {plain : List UInt8} (hlong : 32 ≤ plain.length) (nonce : Block 24) (key other : Block 32) :
    SealsAlike S plain nonce key other ↔ key = other := by
  constructor
  · intro halike
    obtain ⟨ct, hct⟩ := haead.seals key nonce plain
    exact hseparates hlong hct (halike.symm.trans hct)
  · rintro rfl
    rfl

/-- The packet of a post: the ciphertext under the channel key, behind a header that announces it
modulo `2 ^ 32`. Assumes: a packet for the subscriber. -/
theorem channelPacket_sealed {S : Sodium} {env : BuildEnv} {ownerId : Identity} {subPk : Block 32}
    {body : List UInt8} {pkt : Packet} (hpkt : channelPacket S env ownerId subPk body = some pkt) :
    ∃ ct, koeEncrypt S body pkt.header.nonce (channelKey S ownerId subPk) = some ct ∧
      pkt.payload = some ct ∧ pkt.header.length.toNat = (body.length + 16) % 2 ^ 32 ∧
      pkt.header.flags &&& PacketFlag.encrypted.mask ≠ 0 := by
  have hheader := channelPacket_header hpkt
  unfold channelPacket at hpkt
  split at hpkt
  · exact absurd hpkt (Option.some_ne_none pkt).symm
  rcases hct : koeEncrypt S body env.nonce (channelKey S ownerId subPk) with _ | ct
  · rw [hct] at hpkt
    exact absurd hpkt (Option.some_ne_none pkt).symm
  rw [hct] at hpkt
  refine ⟨ct, ?_, ?_, ?_, ?_⟩
  · rw [hheader]
    exact hct
  · rw [← Option.some.inj hpkt]
  · rw [hheader]
    exact UInt32.toNat_ofNat'
  · rw [hheader]
    change (PacketFlag.encrypted.mask ||| PacketFlag.signed.mask) &&& PacketFlag.encrypted.mask ≠ 0
    decide

/-- When a subscriber can read a post. The channel key and the session of the subscriber have to
seal the body alike, and the length has to fit its 32-bit word; with an AEAD that tells keys apart,
and a body at least as long as a key, the session key has to be the channel key. Assumes: a correct
AEAD, a call of `send_fn`, and the session of the owner, mirrored at the subscriber. -/
theorem koeChannelPost_readable_iff {S : Sodium} (haead : S.Aead) {ch : KoeChannel}
    {ownerId : Identity} {subs : List (Block 32 × BuildEnv)} {body : List UInt8}
    {sent : Block 32 × Packet} (hsent : sent ∈ (koeChannelPost S ch ownerId subs body).2.2)
    {mine theirs : Session} (hmirrored : mine.Mirrored theirs) :
    (ReadsPost S theirs ownerId.pk body sent.2 ↔
        SealsAlike S body sent.2.header.nonce mine.txKey (channelKey S ownerId sent.1) ∧
          body.length + 16 < 2 ^ 32) ∧
      (S.SeparatesKeys → 32 ≤ body.length →
        (ReadsPost S theirs ownerId.pk body sent.2 ↔
          mine.txKey = channelKey S ownerId sent.1 ∧ body.length + 16 < 2 ^ 32)) := by
  obtain ⟨env, -, hpkt⟩ := koeChannelPost_sent hsent
  obtain ⟨ct, hct, hpayload, hlength, hflag⟩ := channelPacket_sealed hpkt
  have hctLen : ct.length = body.length + 16 := haead.length_sealed hct
  have hreadable : ReadsPost S theirs ownerId.pk body sent.2 ↔
      SealsAlike S body sent.2.header.nonce mine.txKey (channelKey S ownerId sent.1) ∧
        body.length + 16 < 2 ^ 32 := by
    change sent.2.Yields S theirs body ↔ _
    rw [Packet.yields_iff haead, hlength, cryptoSecretboxMacbytes, ← hmirrored.1]
    constructor
    · rintro ⟨-, hsealed, hfits⟩
      have hsize : body.length + 16 < 2 ^ 32 := by omega
      rw [Packet.payloadBytes_eq hpayload (by omega)] at hsealed
      exact ⟨hsealed.trans hct.symm, hsize⟩
    · rintro ⟨halike, hsize⟩
      rw [Packet.payloadBytes_eq hpayload (by omega)]
      exact ⟨hflag, halike.trans hct, by omega⟩
  refine ⟨hreadable, fun hseparates hlong ↦ ?_⟩
  rw [hreadable, sealsAlike_iff haead hseparates hlong]

/-- Party 1 posts one byte on its channel, to one subscriber. -/
def transparentPost (subPk : Block 32) : ℤ × KoeChannel × List (Block 32 × Packet) :=
  koeChannelPost Sodium.transparent ⟨1, 0⟩ (Sodium.transparentIdentity 1)
    [(subPk, ⟨Block.zero 24, true⟩)] [0x61]

/-- A subscriber whose session happens to consist of the channel key reads the post. -/
theorem transparentPost_readable :
    let key := channelKey Sodium.transparent (Sodium.transparentIdentity 1) (Block.zero 32)
    ∀ sent ∈ (transparentPost (Block.zero 32)).2.2, sent.1 = Block.zero 32 →
      ReadsPost Sodium.transparent ⟨key, key⟩ (Sodium.transparentIdentity 1).pk [0x61] sent.2 := by
  intro key sent hsent hto
  have hmirrored : Session.Mirrored ⟨key, key⟩ ⟨key, key⟩ := ⟨rfl, rfl⟩
  refine (koeChannelPost_readable_iff Sodium.transparent_aead hsent hmirrored).1.mpr ⟨?_, by decide⟩
  rw [hto]
  rfl

/-- Party 2 subscribes and holds a session mirrored with that of party 1; the post goes out, and
party 2 rejects it. -/
theorem koeChannelPost_unreadable :
    let mine : Session := ⟨List.Vector.replicate 32 3, List.Vector.replicate 32 4⟩
    let theirs : Session := ⟨List.Vector.replicate 32 4, List.Vector.replicate 32 3⟩
    mine.Mirrored theirs ∧ (transparentPost (Sodium.transparentIdentity 2).pk).1 = 0 ∧
      ∃ sent ∈ (transparentPost (Sodium.transparentIdentity 2).pk).2.2,
        sent.1 = (Sodium.transparentIdentity 2).pk ∧
        (koeChannelReceivePost Sodium.transparent true 7 Message.zero sent.2
          (Sodium.transparentIdentity 1).pk theirs).1 = -1 := by
  intro mine theirs
  refine ⟨⟨rfl, rfl⟩, rfl, _, List.mem_singleton_self _, rfl, ?_⟩
  decide +kernel

end KoeCore
