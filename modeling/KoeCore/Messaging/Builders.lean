import KoeCore.Messaging.Message

/-!
# Sealed packets: calls, presence and channels

The builders of `koe_audio.c`, `koe_presence.c` and `koe_channel.c` that take a session. They are
copies of one another: the plaintext is encrypted under the sending key and a fresh nonce, and a
header with the type, the two keys, the nonce, the length and the checksum is put in front.
`buildSealed` is this common part and each builder an application of it to its own values. Some of
the copies allocate before they encrypt and some after; either failure returns -1 and leaves the
output packet alone.

`koeAudioEncodeFrame` differs from the others in one value: where they pass the public key of the
sender it passes the sending key of the session.
-/

set_option autoImplicit false
set_option relaxedAutoImplicit false

namespace KoeCore

open ByteWire

/-! ### The common part -/

/-- The header in front of a sealed plaintext of the given length. -/
def sealedHeader (type : PacketType) (flags : UInt8) (fromPk toPk : Block 32) (nonce : Block 24)
    (plainLen : ℕ) : Header :=
  let header :=
    { (koePacketInit type.code flags).header with
      length := UInt32.ofNat (plainLen + koeTagLen)
      fromPk := fromPk
      toPk := toPk
      nonce := nonce }
  { header with checksum := koePacketChecksum header }

/-- The return code, and the output packet after the call. -/
def buildSealed (S : Sodium) (env : BuildEnv) (type : PacketType) (flags : UInt8)
    (fromPk toPk : Block 32) (plain : List UInt8) (sess : Session) (pktOut : Packet) :
    ℤ × Packet :=
  if !env.alloc then (-1, pktOut)
  else
    match koeEncrypt S plain env.nonce sess.txKey with
    | none => (-1, pktOut)
    | some ct => (0, ⟨sealedHeader type flags fromPk toPk env.nonce plain.length, some ct⟩)

section Sealed

variable (S : Sodium) (env : BuildEnv) (type : PacketType) (flags : UInt8) (fromPk toPk : Block 32)
  (plain : List UInt8) (sess : Session) (pktOut : Packet)

/-- What a call can do: it fails and leaves the packet alone, or it returns 0 with the ciphertext of
the plaintext under the sending key behind the header. -/
theorem buildSealed_cases :
    buildSealed S env type flags fromPk toPk plain sess pktOut = (-1, pktOut) ∨
      ∃ ct, koeEncrypt S plain env.nonce sess.txKey = some ct ∧
        buildSealed S env type flags fromPk toPk plain sess pktOut =
          (0, ⟨sealedHeader type flags fromPk toPk env.nonce plain.length, some ct⟩) := by
  unfold buildSealed
  by_cases halloc : env.alloc = true
  · rcases hct : koeEncrypt S plain env.nonce sess.txKey with _ | ct
    · exact Or.inl (by simp [halloc])
    · exact Or.inr ⟨ct, rfl, by simp [halloc]⟩
  · exact Or.inl (by simp [halloc])

/-- A call with memory succeeds. Assumes: a correct AEAD, and memory. -/
theorem buildSealed_eq (haead : S.Aead) (halloc : env.alloc = true) :
    ∃ ct, koeEncrypt S plain env.nonce sess.txKey = some ct ∧
      buildSealed S env type flags fromPk toPk plain sess pktOut =
        (0, ⟨sealedHeader type flags fromPk toPk env.nonce plain.length, some ct⟩) := by
  obtain ⟨ct, hct⟩ := haead.seals sess.txKey env.nonce plain
  have hsealed : koeEncrypt S plain env.nonce sess.txKey = some ct := hct
  refine ⟨ct, hsealed, ?_⟩
  rw [buildSealed, halloc, hsealed]
  rfl

variable {S env type flags fromPk toPk plain sess pktOut}

/-- The header of a built packet, in which the session does not occur. Assumes: a return code other
than -1. -/
theorem buildSealed_header
    (hrc : 0 ≤ (buildSealed S env type flags fromPk toPk plain sess pktOut).1) :
    (buildSealed S env type flags fromPk toPk plain sess pktOut).2.header =
      sealedHeader type flags fromPk toPk env.nonce plain.length := by
  rcases buildSealed_cases S env type flags fromPk toPk plain sess pktOut with
    hfailed | ⟨ct, -, hbuilt⟩
  · simp [hfailed] at hrc
  · rw [hbuilt]

end Sealed

/-! ### Calls -/

/-- The fields of `koe_audio_ctx_t` that the sending side reads and writes. -/
structure AudioCtx where
  remotePk : Block 32
  muted : ℤ
  framesSent : UInt64

section Functions

variable (S : Sodium) (env : BuildEnv)

/-- The return code, and the call and the output packet after it. `opus` is the frame that
`opus_encode` returns, or `none` for a negative result. A muted call returns 0 and builds nothing.
-/
def koeAudioEncodeFrame (ctx : AudioCtx) (opus : Option (List UInt8)) (sess : Session)
    (pktOut : Packet) : ℤ × AudioCtx × Packet :=
  if ctx.muted ≠ 0 then (0, ctx, pktOut)
  else
    match opus with
    | none => (-1, ctx, pktOut)
    | some frame =>
      -- `memcpy(pkt_out->header.from, sess->tx_key, KOE_ID_LEN); /* placeholder */`
      let built := buildSealed S env .audio PacketFlag.encrypted.mask sess.txKey ctx.remotePk frame
        sess pktOut
      if built.1 ≠ 0 then (-1, ctx, built.2)
      else (0, { ctx with framesSent := ctx.framesSent + 1 }, built.2)

def buildCallSignal (signalType : UInt8) (localId : Identity) (remotePk : Block 32)
    (sess : Session) (pkt : Packet) : ℤ × Packet :=
  buildSealed S env (if signalType = 1 then .hello else .ack) PacketFlag.encrypted.mask localId.pk
    remotePk [signalType] sess pkt

def koeAudioBuildCallStart (localId : Identity) (remotePk : Block 32) (sess : Session)
    (pkt : Packet) : ℤ × Packet :=
  buildCallSignal S env 1 localId remotePk sess pkt

def koeAudioBuildCallEnd (localId : Identity) (remotePk : Block 32) (sess : Session)
    (pkt : Packet) : ℤ × Packet :=
  buildCallSignal S env 0 localId remotePk sess pkt

end Functions

/-! ### Presence and channels -/

/-- `koe_presence_state_t`. -/
inductive PresenceState
  | offline | online | away | busy | ghost
deriving DecidableEq, Repr

/-- `(uint8_t)state`. -/
def PresenceState.code : PresenceState → UInt8
  | .offline => 0
  | .online => 1
  | .away => 2
  | .busy => 3
  | .ghost => 4

section Functions

variable (S : Sodium) (env : BuildEnv)

def koePresenceSetTyping (localId : Identity) (toPk : Block 32) (sess : Session) (isTyping : ℤ)
    (pkt : Packet) : ℤ × Packet :=
  buildSealed S env .typing PacketFlag.encrypted.mask localId.pk toPk
    [UInt8.ofNat (isTyping % 256).toNat] sess pkt

def koePresenceBuildPacket (localId : Identity) (toPk : Block 32) (state : PresenceState)
    (sess : Session) (pkt : Packet) : ℤ × Packet :=
  buildSealed S env .presence PacketFlag.encrypted.mask localId.pk toPk [state.code] sess pkt

def koeChannelSubscribe (localId : Identity) (ownerPk : Block 32) (sess : Session)
    (pkt : Packet) : ℤ × Packet :=
  buildSealed S env .msg PacketFlag.encrypted.mask localId.pk ownerPk localId.pk.toList sess pkt

end Functions

/-- The fields of `koe_channel_t` that posting reads and writes. -/
structure KoeChannel where
  owner : ℤ
  postCount : UInt64

section Functions

variable (S : Sodium)

/-- The key that a post is sealed under for one subscriber. -/
def channelKey (ownerId : Identity) (subPk : Block 32) : Block 32 :=
  S.cryptoGenerichash 32 (ownerId.sk.toList ++ subPk.toList) 32

/-- The packet of a post for one subscriber, or `none` when the loop goes on to the next one. The
signature that is computed here stays in a local variable and is not sent. -/
def channelPacket (env : BuildEnv) (ownerId : Identity) (subPk : Block 32) (body : List UInt8) :
    Option Packet :=
  if !env.alloc then none
  else
    match koeEncrypt S body env.nonce (channelKey S ownerId subPk) with
    | none => none
    | some ct =>
      some ⟨sealedHeader .channel (PacketFlag.encrypted.mask ||| PacketFlag.signed.mask) ownerId.pk
        subPk env.nonce body.length, some ct⟩

/-- The return code, the channel after the call, and the calls of `send_fn` in order. The list of
subscribers comes with what the environment answers at the turn of each. -/
def koeChannelPost (ch : KoeChannel) (ownerId : Identity) (subs : List (Block 32 × BuildEnv))
    (body : List UInt8) : ℤ × KoeChannel × List (Block 32 × Packet) :=
  if ch.owner = 0 then (-1, ch, [])
  else
    (0, { ch with postCount := ch.postCount + 1 },
      subs.filterMap fun sub ↦
        (channelPacket S sub.2 ownerId sub.1 body).map fun pkt ↦ (sub.1, pkt))

end Functions

/-- The header of a post. Assumes: a packet for the subscriber. -/
theorem channelPacket_header {S : Sodium} {env : BuildEnv} {ownerId : Identity} {subPk : Block 32}
    {body : List UInt8} {pkt : Packet} (hpkt : channelPacket S env ownerId subPk body = some pkt) :
    pkt.header = sealedHeader .channel (PacketFlag.encrypted.mask ||| PacketFlag.signed.mask)
      ownerId.pk subPk env.nonce body.length := by
  unfold channelPacket at hpkt
  split at hpkt
  · exact absurd hpkt (Option.some_ne_none pkt).symm
  · split at hpkt
    · exact absurd hpkt (Option.some_ne_none pkt).symm
    · obtain rfl := Option.some.inj hpkt
      rfl

/-- Every packet that is sent is the post for one subscriber. Assumes: a call of `send_fn`. -/
theorem koeChannelPost_sent {S : Sodium} {ch : KoeChannel} {ownerId : Identity}
    {subs : List (Block 32 × BuildEnv)} {body : List UInt8} {sent : Block 32 × Packet}
    (hsent : sent ∈ (koeChannelPost S ch ownerId subs body).2.2) :
    ∃ env, (sent.1, env) ∈ subs ∧ channelPacket S env ownerId sent.1 body = some sent.2 := by
  unfold koeChannelPost at hsent
  split at hsent
  · exact absurd hsent List.not_mem_nil
  · obtain ⟨⟨subPk, env⟩, hsub, hmap⟩ := List.mem_filterMap.mp hsent
    obtain ⟨pkt, hbuilt, rfl⟩ := Option.map_eq_some_iff.mp hmap
    exact ⟨env, hsub, hbuilt⟩

end KoeCore
