import KoeCore.Messaging.Media

/-!
# Headers and session keys

A packet header travels in the clear. `BuilderCall` lists the calls that build a packet from a
session, with all their inputs except the session, and two runs of one call on two sessions are
compared.

`koeBuilders_header_eq_iff` is the comparison. The headers agree, checksum included, for every
builder but one: an audio frame of a call that is not muted names the sending key of the session as
its sender, so its header tells two sending keys apart (`openMicrophone_shows_key`).
-/

set_option autoImplicit false
set_option relaxedAutoImplicit false

namespace KoeCore

open ByteWire

/-- The calls that build a packet from a session, with their inputs apart from the session. -/
inductive BuilderCall
  | messageEncrypt (msg : Message)
  | audioEncodeFrame (ctx : AudioCtx) (opus : Option (List UInt8))
  | audioBuildCallStart (localId : Identity) (remotePk : Block 32)
  | audioBuildCallEnd (localId : Identity) (remotePk : Block 32)
  | presenceSetTyping (localId : Identity) (toPk : Block 32) (isTyping : ℤ)
  | presenceBuildPacket (localId : Identity) (toPk : Block 32) (state : PresenceState)
  | channelSubscribe (localId : Identity) (ownerPk : Block 32)
  | mediaOfferBuild (offerEnv : OfferEnv) (filePath : List UInt8) (recipientPk : Block 32)
      (offerOut : MediaOffer)
  | mediaChunkBuild (file : OpenFile) (plainAlloc : Bool) (chunkIndex : UInt32)
      (offer : MediaOffer)
  | mediaDoneBuild (offer : MediaOffer)
  | mediaAcceptBuild (offer : MediaOffer)
  | mediaRejectBuild (offer : MediaOffer)

/-- The return code, and the output packet after the call. -/
def BuilderCall.run (S : Sodium) (env : BuildEnv) (pktOut : Packet) (sess : Session) :
    BuilderCall → ℤ × Packet
  | .messageEncrypt msg => koeMessageEncrypt S env msg sess
  | .audioEncodeFrame ctx opus =>
    let encoded := koeAudioEncodeFrame S env ctx opus sess pktOut
    (encoded.1, encoded.2.2)
  | .audioBuildCallStart localId remotePk =>
    koeAudioBuildCallStart S env localId remotePk sess pktOut
  | .audioBuildCallEnd localId remotePk => koeAudioBuildCallEnd S env localId remotePk sess pktOut
  | .presenceSetTyping localId toPk isTyping =>
    koePresenceSetTyping S env localId toPk sess isTyping pktOut
  | .presenceBuildPacket localId toPk state =>
    koePresenceBuildPacket S env localId toPk state sess pktOut
  | .channelSubscribe localId ownerPk => koeChannelSubscribe S env localId ownerPk sess pktOut
  | .mediaOfferBuild offerEnv filePath recipientPk offerOut =>
    let built := koeMediaOfferBuild S env offerEnv filePath recipientPk sess offerOut pktOut
    (built.1, built.2.2)
  | .mediaChunkBuild file plainAlloc chunkIndex offer =>
    koeMediaChunkBuild S env file plainAlloc chunkIndex offer sess pktOut
  | .mediaDoneBuild offer => koeMediaDoneBuild S env offer sess pktOut
  | .mediaAcceptBuild offer => koeMediaAcceptBuild S env offer sess pktOut
  | .mediaRejectBuild offer => koeMediaRejectBuild S env offer sess pktOut

/-- The call encodes an audio frame and is not muted. -/
def BuilderCall.SendsFrame : BuilderCall → Prop
  | .audioEncodeFrame ctx _ => ctx.muted = 0
  | _ => False

section Headers

variable {S : Sodium} {env : BuildEnv} {pktOut : Packet} {first second : Session}

/-- Two packets sealed under different sessions have one header. Assumes: both are built. -/
theorem buildSealed_header_eq {type : PacketType} {flags : UInt8} {fromPk toPk : Block 32}
    {plain : List UInt8}
    (hfirst : 0 ≤ (buildSealed S env type flags fromPk toPk plain first pktOut).1)
    (hsecond : 0 ≤ (buildSealed S env type flags fromPk toPk plain second pktOut).1) :
    (buildSealed S env type flags fromPk toPk plain first pktOut).2.header =
      (buildSealed S env type flags fromPk toPk plain second pktOut).2.header := by
  rw [buildSealed_header hfirst, buildSealed_header hsecond]

/-- A message packet has the header of its message, in which the session does not occur. Assumes: a
return code other than -1. -/
theorem koeMessageEncrypt_header {msg : Message} {sess : Session}
    (hrc : 0 ≤ (koeMessageEncrypt S env msg sess).1) :
    (koeMessageEncrypt S env msg sess).2.header = (messagePacket msg env.nonce []).header := by
  by_cases halloc : env.alloc = true
  · rcases hct : koeEncrypt S msg.bodyBytes env.nonce sess.txKey with _ | ct
    · simp [koeMessageEncrypt, halloc, hct] at hrc
    · rw [koeMessageEncrypt_eq halloc hct]
      rfl
  · simp [koeMessageEncrypt, halloc] at hrc

/-- An audio frame of a call that is not muted carries the sending key as its sender. Assumes: the
call is not muted, and a return code other than -1. -/
theorem koeAudioEncodeFrame_header {ctx : AudioCtx} (hmuted : ctx.muted = 0)
    {opus : Option (List UInt8)} {sess : Session}
    (hrc : 0 ≤ (koeAudioEncodeFrame S env ctx opus sess pktOut).1) :
    ∃ frame, opus = some frame ∧
      (koeAudioEncodeFrame S env ctx opus sess pktOut).2.2.header =
        sealedHeader .audio PacketFlag.encrypted.mask sess.txKey ctx.remotePk env.nonce
          frame.length := by
  rcases opus with _ | frame
  · simp [koeAudioEncodeFrame, hmuted] at hrc
  · refine ⟨frame, rfl, ?_⟩
    rcases buildSealed_cases S env .audio PacketFlag.encrypted.mask sess.txKey ctx.remotePk frame
        sess pktOut with hfailed | ⟨ct, -, hbuilt⟩
    · simp [koeAudioEncodeFrame, hmuted, hfailed] at hrc
    · simp [koeAudioEncodeFrame, hmuted, hbuilt]

/-- Assumes: both calls build a packet. -/
theorem koeAudioEncodeFrame_header_eq_iff {ctx : AudioCtx} {opus : Option (List UInt8)}
    (hfirst : 0 ≤ (koeAudioEncodeFrame S env ctx opus first pktOut).1)
    (hsecond : 0 ≤ (koeAudioEncodeFrame S env ctx opus second pktOut).1) :
    (koeAudioEncodeFrame S env ctx opus first pktOut).2.2.header =
        (koeAudioEncodeFrame S env ctx opus second pktOut).2.2.header ↔
      (ctx.muted = 0 → first.txKey = second.txKey) := by
  by_cases hmuted : ctx.muted = 0
  · obtain ⟨frame, hframe, hheader⟩ := koeAudioEncodeFrame_header hmuted hfirst
    obtain ⟨frame', hframe', hheader'⟩ := koeAudioEncodeFrame_header hmuted hsecond
    obtain rfl : frame = frame' := Option.some.inj (hframe.symm.trans hframe')
    rw [hheader, hheader']
    constructor
    · intro hequal _
      exact congrArg Header.fromPk hequal
    · intro hkeys
      rw [hkeys hmuted]
  · simp [koeAudioEncodeFrame, hmuted]

/-- Assumes: both calls build a packet. -/
theorem koeMediaOfferBuild_header_eq {offerEnv : OfferEnv} {filePath : List UInt8}
    {recipientPk : Block 32} {offerOut : MediaOffer}
    (hfirst : 0 ≤ (koeMediaOfferBuild S env offerEnv filePath recipientPk first offerOut pktOut).1)
    (hsecond :
      0 ≤ (koeMediaOfferBuild S env offerEnv filePath recipientPk second offerOut pktOut).1) :
    (koeMediaOfferBuild S env offerEnv filePath recipientPk first offerOut pktOut).2.2.header =
      (koeMediaOfferBuild S env offerEnv filePath recipientPk second offerOut
        pktOut).2.2.header := by
  obtain ⟨stSize, contents, hfile⟩ := koeMediaOfferBuild_inv hfirst
  rw [koeMediaOfferBuild_eq hfile] at hfirst hsecond ⊢
  rw [koeMediaOfferBuild_eq hfile]
  exact buildSealed_header_eq hfirst hsecond

/-- Assumes: both calls build a packet. -/
theorem koeMediaChunkBuild_header_eq {file : OpenFile} {plainAlloc : Bool} {chunkIndex : UInt32}
    {offer : MediaOffer}
    (hfirst : 0 ≤ (koeMediaChunkBuild S env file plainAlloc chunkIndex offer first pktOut).1)
    (hsecond : 0 ≤ (koeMediaChunkBuild S env file plainAlloc chunkIndex offer second pktOut).1) :
    (koeMediaChunkBuild S env file plainAlloc chunkIndex offer first pktOut).2.header =
      (koeMediaChunkBuild S env file plainAlloc chunkIndex offer second pktOut).2.header := by
  obtain ⟨data, hread, -, hrc, hbuilt⟩ := koeMediaChunkBuild_inv hfirst
  obtain ⟨data', hread', -, hrc', hbuilt'⟩ := koeMediaChunkBuild_inv hsecond
  obtain rfl : data = data' := Option.some.inj (hread.symm.trans hread')
  rw [hbuilt, hbuilt']
  exact buildSealed_header_eq hrc.ge hrc'.ge

end Headers

/-- Two runs of one call on two sessions. Assumes: both build a packet, or leave the output alone
and report success. The headers agree in every field exactly when the call is not one that sends an
audio frame, or the sessions have one sending key. -/
theorem koeBuilders_header_eq_iff {S : Sodium} {env : BuildEnv} {pktOut : Packet}
    {first second : Session} {call : BuilderCall}
    (hfirst : 0 ≤ (call.run S env pktOut first).1)
    (hsecond : 0 ≤ (call.run S env pktOut second).1) :
    (call.run S env pktOut first).2.header = (call.run S env pktOut second).2.header ↔
      (call.SendsFrame → first.txKey = second.txKey) := by
  -- All builders but the audio frame: the headers agree, and the condition is void.
  have hvoid {before after : Header} (hequal : before = after) :
      before = after ↔ (False → first.txKey = second.txKey) :=
    iff_of_true hequal False.elim
  cases call with
  | messageEncrypt msg =>
    exact hvoid ((koeMessageEncrypt_header hfirst).trans (koeMessageEncrypt_header hsecond).symm)
  | audioEncodeFrame ctx opus => exact koeAudioEncodeFrame_header_eq_iff hfirst hsecond
  | audioBuildCallStart localId remotePk => exact hvoid (buildSealed_header_eq hfirst hsecond)
  | audioBuildCallEnd localId remotePk => exact hvoid (buildSealed_header_eq hfirst hsecond)
  | presenceSetTyping localId toPk isTyping => exact hvoid (buildSealed_header_eq hfirst hsecond)
  | presenceBuildPacket localId toPk state => exact hvoid (buildSealed_header_eq hfirst hsecond)
  | channelSubscribe localId ownerPk => exact hvoid (buildSealed_header_eq hfirst hsecond)
  | mediaOfferBuild offerEnv filePath recipientPk offerOut =>
    exact hvoid (koeMediaOfferBuild_header_eq hfirst hsecond)
  | mediaChunkBuild file plainAlloc chunkIndex offer =>
    exact hvoid (koeMediaChunkBuild_header_eq hfirst hsecond)
  | mediaDoneBuild offer => exact hvoid (buildSealed_header_eq hfirst hsecond)
  | mediaAcceptBuild offer => exact hvoid (buildSealed_header_eq hfirst hsecond)
  | mediaRejectBuild offer => exact hvoid (buildSealed_header_eq hfirst hsecond)

/-- A session with one byte throughout, for each byte. -/
def uniformSession (byte : UInt8) : Session :=
  ⟨List.Vector.replicate 32 byte, List.Vector.replicate 32 byte⟩

/-- A frame of one byte, of a call that is not muted. -/
def openMicrophone : BuilderCall := .audioEncodeFrame ⟨Block.zero 32, 0, 0⟩ (some [0x4F])

/-- The same frame under two sending keys: both packets are built, the first one carries its key in
the clear, and their headers differ. -/
theorem openMicrophone_shows_key :
    let run sess := openMicrophone.run Sodium.transparent ⟨Block.zero 24, true⟩ Packet.zero sess
    (run (uniformSession 1)).1 = 0 ∧ (run (uniformSession 2)).1 = 0 ∧
      (run (uniformSession 1)).2.header.fromPk = (uniformSession 1).txKey ∧
      (run (uniformSession 1)).2.header ≠ (run (uniformSession 2)).2.header := by
  refine ⟨rfl, rfl, rfl, ?_⟩
  intro hequal
  have hkeys : (uniformSession 1).txKey = (uniformSession 2).txKey :=
    congrArg Header.fromPk hequal
  exact absurd hkeys (by decide)

/-- The comparison on a typing notice under two sending keys, whose headers agree. -/
theorem typingNotice_header_eq :
    let run := BuilderCall.run Sodium.transparent ⟨Block.zero 24, true⟩ Packet.zero
    let notice := BuilderCall.presenceSetTyping (Sodium.transparentIdentity 3) (Block.zero 32) 1
    (run (uniformSession 1) notice).2.header = (run (uniformSession 2) notice).2.header := by
  intro run notice
  have hfirst : 0 ≤ (run (uniformSession 1) notice).1 := Int.le_refl 0
  have hsecond : 0 ≤ (run (uniformSession 2) notice).1 := Int.le_refl 0
  exact (koeBuilders_header_eq_iff hfirst hsecond).mpr False.elim

end KoeCore
