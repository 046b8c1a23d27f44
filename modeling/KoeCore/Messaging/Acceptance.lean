import KoeCore.Handshake.Record
import KoeCore.Messaging.Delivery
import KoeCore.Messaging.HeaderIndependence
import KoeCore.Messaging.Revocation

/-!
# Packets that peers accept

A peer accepts a packet when `koe_packet_validate` returns 0 on it, where it was built and after it
went through the packet codec (`Packet.AcceptedByPeers`). This depends on the header alone: the
checks of validation, and a length within the cap of the decoder (`acceptedByPeers_iff`).

`PacketCall` lists the calls that build packets, and `koeBuilders_accepted_iff` says which packets
of a call that reports success are accepted. All but three builders never fail here. A message
carries no checksum, so it passes only when its header happens to have the checksum zero. A muted
call returns 0 and leaves whatever the output packet held. A message or a channel post may be
longer than the decoder takes.
-/

set_option autoImplicit false
set_option relaxedAutoImplicit false

namespace KoeCore

open ByteWire

/-- Validation passes, and passes again on what is decoded from the serialised packet, for every
buffer with room and every previous content of the decoded packet. -/
def Packet.AcceptedByPeers (pkt : Packet) : Prop :=
  koePacketValidate pkt = 0 ∧
    ∀ buf out, koeHeaderSize + pkt.header.length.toNat ≤ buf.length →
      let decoded := koePacketDeserialise true out
        ((koePacketSerialise pkt buf).2.take (koeHeaderSize + pkt.header.length.toNat))
      decoded.1 = 0 ∧ koePacketValidate decoded.2 = 0

theorem acceptedByPeers_iff (pkt : Packet) :
    pkt.AcceptedByPeers ↔
      koePacketValidate pkt = 0 ∧ pkt.header.length.toNat ≤ koeMaxPayload := by
  constructor
  · rintro ⟨hvalid, hdecoded⟩
    refine ⟨hvalid, ?_⟩
    have hbuf : koeHeaderSize + pkt.header.length.toNat ≤
        (List.replicate (koeHeaderSize + pkt.header.length.toNat) (0 : UInt8)).length := by
      rw [List.length_replicate]
    obtain ⟨payload, hdeserialise⟩ := koePacketDeserialise_serialised pkt hbuf Packet.zero
    have hrc := (hdecoded _ Packet.zero hbuf).1
    rw [hdeserialise] at hrc
    by_contra hmax
    simp only [if_neg hmax] at hrc
    omega
  · rintro ⟨hvalid, hmax⟩
    refine ⟨hvalid, ?_⟩
    intro buf out hbuf
    obtain ⟨payload, hdeserialise⟩ := koePacketDeserialise_serialised pkt hbuf out
    simp only [hdeserialise, if_pos hmax]
    exact ⟨trivial, hvalid⟩

/-- A header filled in after `koe_packet_init`, with its checksum computed last, passes validation.
Assumes: the magic bytes, the local version, and the checksum of the header. -/
theorem acceptedByPeers_of_checksum {pkt : Packet} (hmagic : pkt.header.magic = koeMagic)
    (hmajor : pkt.header.protoMajor = koeProtoMajor)
    (hminor : pkt.header.protoMinor = koeProtoMinor)
    (hchecksum : koePacketChecksum pkt.header = pkt.header.checksum) :
    pkt.AcceptedByPeers ↔ pkt.header.length.toNat ≤ koeMaxPayload := by
  rw [acceptedByPeers_iff, koePacketValidate_eq_zero_iff, hmajor, hminor]
  exact and_iff_right ⟨hmagic, koeVersionCompatible_self koeVersionLocal, hchecksum⟩

/-! ### The builders -/

/-- `KOE_AUDIO_MAX_FRAME_BYTES`. -/
def koeAudioMaxFrameBytes : ℕ := 256

/-- The calls that build packets, with all their inputs. -/
inductive PacketCall
  | session (env : BuildEnv) (sess : Session) (pktOut : Packet) (call : BuilderCall)
  | handshakeInit (env : HandshakeEnv) (helloOut : Packet) (localId : Identity)
      (remotePk : Block 32)
  | handshakeRespond (env : HandshakeEnv) (ackOut hello : Packet) (localId : Identity)
  | channelPost (ch : KoeChannel) (ownerId : Identity) (subs : List (Block 32 × BuildEnv))
      (body : List UInt8)
  | revokeBuildPacket (alloc : Bool) (pkt : Packet) (rev : Revocation) (toPk : Block 32)

namespace PacketCall

/-- The return code, and the packets that the call leaves in its output or passes to `send_fn`. -/
def run (S : Sodium) : PacketCall → ℤ × List Packet
  | session env sess pktOut call =>
    ((call.run S env pktOut sess).1, [(call.run S env pktOut sess).2])
  | handshakeInit env helloOut localId remotePk =>
    let started := koeHandshakeInit S koeVersionLocal env helloOut localId remotePk
    (started.1, [started.2.2])
  | handshakeRespond env ackOut hello localId =>
    let responded := koeHandshakeRespond S koeVersionLocal env ackOut hello localId
    (responded.1, [responded.2.2])
  | channelPost ch ownerId subs body =>
    let posted := koeChannelPost S ch ownerId subs body
    (posted.1, posted.2.2.map Prod.snd)
  | revokeBuildPacket alloc pkt rev toPk =>
    ((koeRevokeBuildPacket alloc pkt rev toPk).1, [(koeRevokeBuildPacket alloc pkt rev toPk).2])

/-- `opus_encode` stays within the buffer that it is given. -/
def OpusWithinBuffer : PacketCall → Prop
  | session _ _ _ (.audioEncodeFrame _ opus) =>
    ∀ frame, opus = some frame → frame.length ≤ koeAudioMaxFrameBytes
  | _ => True

/-- The ciphertext of a plaintext of this length is within the cap, as a 32-bit length. -/
def SealedWithinCap (plainLen : ℕ) : Prop := (plainLen + koeTagLen) % 2 ^ 32 ≤ koeMaxPayload

/-- When the packets of a call are accepted. -/
def BuildsAcceptable : PacketCall → Prop
  | session env _ _ (.messageEncrypt msg) =>
    koePacketChecksum (messagePacket msg env.nonce []).header = 0 ∧ SealedWithinCap msg.bodyLen
  | session _ _ pktOut (.audioEncodeFrame ctx _) => ctx.muted ≠ 0 → pktOut.AcceptedByPeers
  | channelPost _ _ _ body => SealedWithinCap body.length
  | _ => True

/-- Assumes: a plaintext of at most 2^20 - 16 bytes. -/
theorem sealedWithinCap_of_le {plainLen : ℕ} (hle : plainLen + koeTagLen ≤ koeMaxPayload) :
    SealedWithinCap plainLen := (Nat.mod_le _ _).trans hle

end PacketCall

section Accepted

variable {S : Sodium} {env : BuildEnv} {sess : Session} {pktOut pkt : Packet}

/-- Assumes: a packet with a sealed header. -/
theorem acceptedByPeers_sealed {type : PacketType} {flags : UInt8} {fromPk toPk : Block 32}
    {nonce : Block 24} {plainLen : ℕ}
    (hheader : pkt.header = sealedHeader type flags fromPk toPk nonce plainLen) :
    pkt.AcceptedByPeers ↔ PacketCall.SealedWithinCap plainLen := by
  have hchecksum : koePacketChecksum pkt.header = pkt.header.checksum := by
    rw [hheader, sealedHeader, koePacketChecksum_checksum]
  have hlength : pkt.header.length.toNat = (plainLen + koeTagLen) % 2 ^ 32 := by
    rw [hheader, ← UInt32.toNat_ofNat']
    rfl
  rw [acceptedByPeers_of_checksum (by rw [hheader]; rfl) (by rw [hheader]; rfl)
    (by rw [hheader]; rfl) hchecksum, hlength]
  rfl

/-- Assumes: a short plaintext, and a return code other than -1. -/
theorem buildSealed_accepted {type : PacketType} {flags : UInt8} {fromPk toPk : Block 32}
    {plain : List UInt8} (hshort : plain.length + koeTagLen ≤ koeMaxPayload)
    (hrc : 0 ≤ (buildSealed S env type flags fromPk toPk plain sess pktOut).1) :
    (buildSealed S env type flags fromPk toPk plain sess pktOut).2.AcceptedByPeers :=
  (acceptedByPeers_sealed (buildSealed_header hrc)).mpr (PacketCall.sealedWithinCap_of_le hshort)

/-- The header of a message has the checksum field zero. Assumes: a return code other than -1. -/
theorem koeMessageEncrypt_accepted_iff {msg : Message}
    (hrc : 0 ≤ (koeMessageEncrypt S env msg sess).1) :
    (koeMessageEncrypt S env msg sess).2.AcceptedByPeers ↔
      koePacketChecksum (messagePacket msg env.nonce []).header = 0 ∧
        PacketCall.SealedWithinCap msg.bodyLen := by
  have hlength : (messagePacket msg env.nonce []).header.length.toNat =
      (msg.bodyLen + koeTagLen) % 2 ^ 32 := UInt32.toNat_ofNat'
  rw [acceptedByPeers_iff, koePacketValidate_eq_zero_iff, koeMessageEncrypt_header hrc, hlength]
  constructor
  · rintro ⟨⟨-, -, hchecksum⟩, hmax⟩
    exact ⟨hchecksum, hmax⟩
  · rintro ⟨hchecksum, hmax⟩
    exact ⟨⟨rfl, koeVersionCompatible_self koeVersionLocal, hchecksum⟩, hmax⟩

/-- Assumes: a frame that fits its buffer, and a return code other than -1. -/
theorem koeAudioEncodeFrame_accepted_iff {ctx : AudioCtx} {opus : Option (List UInt8)}
    (hopus : ∀ frame, opus = some frame → frame.length ≤ koeAudioMaxFrameBytes)
    (hrc : 0 ≤ (koeAudioEncodeFrame S env ctx opus sess pktOut).1) :
    (koeAudioEncodeFrame S env ctx opus sess pktOut).2.2.AcceptedByPeers ↔
      (ctx.muted ≠ 0 → pktOut.AcceptedByPeers) := by
  by_cases hmuted : ctx.muted = 0
  · obtain ⟨frame, hframe, hheader⟩ := koeAudioEncodeFrame_header hmuted hrc
    have hshort : frame.length + koeTagLen ≤ koeMaxPayload := by
      have hle := hopus frame hframe
      simp only [koeAudioMaxFrameBytes, koeTagLen, koeMaxPayload] at hle ⊢
      omega
    exact iff_of_true
      ((acceptedByPeers_sealed hheader).mpr (PacketCall.sealedWithinCap_of_le hshort))
      fun hne ↦ absurd hmuted hne
  · have houtput : koeAudioEncodeFrame S env ctx opus sess pktOut = (0, ctx, pktOut) := by
      unfold koeAudioEncodeFrame
      rw [if_pos hmuted]
    rw [houtput]
    exact (imp_iff_right hmuted).symm

/-- Assumes: a return code other than -1. -/
theorem koeMediaOfferBuild_accepted {offerEnv : OfferEnv} {filePath : List UInt8}
    {recipientPk : Block 32} {offerOut : MediaOffer}
    (hrc : 0 ≤ (koeMediaOfferBuild S env offerEnv filePath recipientPk sess offerOut pktOut).1) :
    (koeMediaOfferBuild S env offerEnv filePath recipientPk sess offerOut
      pktOut).2.2.AcceptedByPeers := by
  obtain ⟨stSize, contents, hfile⟩ := koeMediaOfferBuild_inv hrc
  rw [koeMediaOfferBuild_eq hfile] at hrc ⊢
  refine buildSealed_accepted ?_ hrc
  rw [MediaOffer.length_bytes]
  decide

/-- Assumes: a return code other than -1. -/
theorem koeMediaChunkBuild_accepted {file : OpenFile} {plainAlloc : Bool} {chunkIndex : UInt32}
    {offer : MediaOffer}
    (hrc : 0 ≤ (koeMediaChunkBuild S env file plainAlloc chunkIndex offer sess pktOut).1) :
    (koeMediaChunkBuild S env file plainAlloc chunkIndex offer sess pktOut).2.AcceptedByPeers := by
  obtain ⟨data, hread, hlength, hbuilt, heq⟩ := koeMediaChunkBuild_inv hrc
  rw [heq]
  refine buildSealed_accepted ?_ hbuilt.ge
  have hle := chunkBytes_le offer (chunkIndex.toNat * koeMediaChunkSize)
  simp only [List.length_append, List.Vector.toList_length, hlength, koeTagLen, koeMaxPayload,
    koeMediaChunkSize] at hle ⊢
  omega

theorem handshakePacket_accepted (type : PacketType) (fromPk toPk : Block 32)
    (payload : List UInt8) : (handshakePacket type fromPk toPk payload).AcceptedByPeers := by
  have hlength : (UInt32.ofNat helloPayload).toNat ≤ koeMaxPayload := by decide
  exact (acceptedByPeers_of_checksum rfl rfl rfl (koePacketChecksum_checksum _ _)).mpr hlength

/-- Assumes: a return code other than -1. -/
theorem koeHandshakeInit_accepted {version : Version} {henv : HandshakeEnv} {helloOut : Packet}
    {localId : Identity} {remotePk : Block 32}
    (hrc : 0 ≤ (koeHandshakeInit S version henv helloOut localId remotePk).1) :
    (koeHandshakeInit S version henv helloOut localId remotePk).2.2.AcceptedByPeers := by
  obtain ⟨sk, sig, hdrawn, halloc, hsig⟩ := koeHandshakeInit_inv hrc
  rw [koeHandshakeInit_eq hdrawn halloc hsig]
  exact handshakePacket_accepted _ _ _ _

/-- Assumes: a return code other than -1. -/
theorem koeHandshakeRespond_accepted {version : Version} {henv : HandshakeEnv}
    {ackOut hello : Packet} {localId : Identity}
    (hrc : 0 ≤ (koeHandshakeRespond S version henv ackOut hello localId).1) :
    (koeHandshakeRespond S version henv ackOut hello localId).2.2.AcceptedByPeers := by
  rcases koeHandshakeRespond_cases henv ackOut hello localId with
    ⟨payload, sk, dh, sig, hresponds⟩ | ⟨hfailed, -⟩
  · rw [koeHandshakeRespond_eq hresponds]
    exact handshakePacket_accepted _ _ _ _
  · rw [hfailed] at hrc
    exact absurd hrc (by decide)

/-- Assumes: a return code other than -1. -/
theorem koeRevokeBuildPacket_accepted {alloc : Bool} {rev : Revocation} {toPk : Block 32}
    (hrc : 0 ≤ (koeRevokeBuildPacket alloc pktOut rev toPk).1) :
    (koeRevokeBuildPacket alloc pktOut rev toPk).2.AcceptedByPeers := by
  have hheader := koeRevokeBuildPacket_header hrc
  have hchecksum : koePacketChecksum (revocationHeader rev toPk) =
      (revocationHeader rev toPk).checksum := koePacketChecksum_checksum _ _
  have hlength : (revocationHeader rev toPk).length.toNat ≤ koeMaxPayload := by
    change (UInt32.ofNat rev.bytes.length).toNat ≤ koeMaxPayload
    rw [Revocation.length_bytes]
    decide
  rw [acceptedByPeers_of_checksum (by rw [hheader]; rfl) (by rw [hheader]; rfl)
    (by rw [hheader]; rfl) (by rw [hheader]; exact hchecksum), hheader]
  exact hlength

/-- The builders that take a session. Assumes: a frame that fits its buffer, and a return code other
than -1. -/
theorem BuilderCall.accepted_iff {call : BuilderCall}
    (hopus : (PacketCall.session env sess pktOut call).OpusWithinBuffer)
    (hrc : 0 ≤ (call.run S env pktOut sess).1) :
    (call.run S env pktOut sess).2.AcceptedByPeers ↔
      (PacketCall.session env sess pktOut call).BuildsAcceptable := by
  have hshort {n : ℕ} (hn : n ≤ 600) : n + koeTagLen ≤ koeMaxPayload := by
    simp only [koeTagLen, koeMaxPayload]
    omega
  cases call with
  | messageEncrypt msg => exact koeMessageEncrypt_accepted_iff hrc
  | audioEncodeFrame ctx opus => exact koeAudioEncodeFrame_accepted_iff hopus hrc
  | audioBuildCallStart localId remotePk =>
    exact iff_of_true (buildSealed_accepted (hshort (by decide)) hrc) trivial
  | audioBuildCallEnd localId remotePk =>
    exact iff_of_true (buildSealed_accepted (hshort (by decide)) hrc) trivial
  | presenceSetTyping localId toPk isTyping =>
    exact iff_of_true (buildSealed_accepted (hshort (by simp)) hrc) trivial
  | presenceBuildPacket localId toPk state =>
    exact iff_of_true (buildSealed_accepted (hshort (by simp)) hrc) trivial
  | channelSubscribe localId ownerPk =>
    exact iff_of_true (buildSealed_accepted (hshort (by simp)) hrc) trivial
  | mediaOfferBuild offerEnv filePath recipientPk offerOut =>
    exact iff_of_true (koeMediaOfferBuild_accepted hrc) trivial
  | mediaChunkBuild file plainAlloc chunkIndex offer =>
    exact iff_of_true (koeMediaChunkBuild_accepted hrc) trivial
  | mediaDoneBuild offer =>
    exact iff_of_true (buildSealed_accepted (hshort (by simp)) hrc) trivial
  | mediaAcceptBuild offer =>
    exact iff_of_true (buildSealed_accepted (hshort (by simp)) hrc) trivial
  | mediaRejectBuild offer =>
    exact iff_of_true (buildSealed_accepted (hshort (by simp)) hrc) trivial

end Accepted

/-- Which packets of a builder are accepted. Assumes: `opus_encode` stays within its buffer, the
call reports success, and a packet that it leaves in its output or passes to `send_fn`. -/
theorem koeBuilders_accepted_iff {S : Sodium} {call : PacketCall} (hopus : call.OpusWithinBuffer)
    (hrc : 0 ≤ (call.run S).1) {pkt : Packet} (hpkt : pkt ∈ (call.run S).2) :
    pkt.AcceptedByPeers ↔ call.BuildsAcceptable := by
  cases call with
  | session env sess pktOut call =>
    obtain rfl := List.mem_singleton.mp hpkt
    exact BuilderCall.accepted_iff hopus hrc
  | handshakeInit env helloOut localId remotePk =>
    obtain rfl := List.mem_singleton.mp hpkt
    exact iff_of_true (koeHandshakeInit_accepted hrc) trivial
  | handshakeRespond env ackOut hello localId =>
    obtain rfl := List.mem_singleton.mp hpkt
    exact iff_of_true (koeHandshakeRespond_accepted hrc) trivial
  | channelPost ch ownerId subs body =>
    obtain ⟨sent, hsent, rfl⟩ := List.mem_map.mp hpkt
    obtain ⟨env, -, hbuilt⟩ := koeChannelPost_sent hsent
    exact acceptedByPeers_sealed (channelPacket_header hbuilt)
  | revokeBuildPacket alloc pkt rev toPk =>
    obtain rfl := List.mem_singleton.mp hpkt
    exact iff_of_true (koeRevokeBuildPacket_accepted hrc) trivial

/-- A typing notice is accepted. -/
theorem typingNotice_accepted :
    let notice := PacketCall.session ⟨Block.zero 24, true⟩ Session.zero Packet.zero
      (.presenceSetTyping (Sodium.transparentIdentity 3) (Block.zero 32) 1)
    ∃ pkt, (notice.run Sodium.transparent).2 = [pkt] ∧ pkt.AcceptedByPeers := by
  intro notice
  have hopus : notice.OpusWithinBuffer := trivial
  have hrc : 0 ≤ (notice.run Sodium.transparent).1 := Int.le_refl 0
  refine ⟨_, rfl, ?_⟩
  exact (koeBuilders_accepted_iff hopus hrc (List.mem_singleton.mpr rfl)).mpr trivial

/-! ### Packets that are refused -/

/-- The header of the message `"hi"` under the zero nonce does not have the checksum zero. -/
theorem hiMessage_checksum_ne_zero :
    koePacketChecksum (messagePacket hiMessage (Block.zero 24) []).header ≠ 0 := by
  let register (c : UInt32) (buf : List UInt8) : UInt32 :=
    buf.foldl (fun c byte ↦ crc32Table ((c ^^^ byte.toUInt32) &&& 0xFF) ^^^ (c >>> 8)) c
  let zeros : List UInt8 := List.replicate 22 0
  -- Twelve bytes and the two zero keys with the zero nonce, in pieces that are quick to evaluate.
  have hcovered : (messagePacket hiMessage (Block.zero 24) []).header.covered =
      [0x4B, 0x4F, 0x45, 1, 0, 1, 4, 3, 0, 0, 0, 18] ++ (zeros ++ (zeros ++ (zeros ++ zeros))) := by
    decide +kernel
  have hfront : register 0xFFFFFFFF [0x4B, 0x4F, 0x45, 1, 0, 1, 4, 3, 0, 0, 0, 18] =
      1719426522 := by
    decide +kernel
  have hfirst : register 1719426522 zeros = 1178067323 := by decide +kernel
  have hsecond : register 1178067323 zeros = 1861729431 := by decide +kernel
  have hthird : register 1861729431 zeros = 3771835321 := by decide +kernel
  have hlast : register 3771835321 zeros = 884921120 := by decide +kernel
  have hregister : register 0xFFFFFFFF
      (messagePacket hiMessage (Block.zero 24) []).header.covered = 884921120 := by
    simp only [register] at hfront hfirst hsecond hthird hlast ⊢
    rw [hcovered, List.foldl_append, hfront, List.foldl_append, hfirst, List.foldl_append, hsecond,
      List.foldl_append, hthird, hlast]
  intro hzero
  have hchecksum : (884921120 : UInt32) ^^^ 0xFFFFFFFF = 0 := hregister ▸ hzero
  exact absurd hchecksum (by decide)

/-- The message `"hi"` is encrypted and refused, and so is the packet that a muted call leaves in
the output as it was. -/
theorem hiMessage_refused :
    let encrypted := koeMessageEncrypt Sodium.transparent ⟨Block.zero 24, true⟩ hiMessage
      Session.zero
    let frame := koeAudioEncodeFrame Sodium.transparent ⟨Block.zero 24, true⟩ ⟨Block.zero 32, 1, 0⟩
      none Session.zero Packet.zero
    encrypted.1 = 0 ∧ ¬ encrypted.2.AcceptedByPeers ∧ frame.1 = 0 ∧
      ¬ frame.2.2.AcceptedByPeers := by
  intro encrypted frame
  have hrc : 0 ≤ encrypted.1 := Int.le_refl 0
  refine ⟨rfl, ?_, rfl, ?_⟩
  · intro haccepted
    exact hiMessage_checksum_ne_zero ((koeMessageEncrypt_accepted_iff hrc).mp haccepted).1
  · intro haccepted
    exact absurd haccepted.1 (by decide)

end KoeCore
