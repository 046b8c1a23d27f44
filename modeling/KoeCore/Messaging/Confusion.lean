import KoeCore.Call.Audio
import KoeCore.Messaging.HeaderIndependence
import KoeCore.Messaging.Replies

/-!
# Packets that reach another handler

Twelve functions seal something under a session (`BuilderCall`), and four open what they are handed
under a session: `koe_message_decrypt`, `koe_media_offer_parse`, `koe_media_chunk_receive` and
`koe_audio_decode_frame`. None of the four looks at the type of a packet, and the header is not
part of what is sealed. A network that wants to can hand a packet of any builder, under a header of
its own with the same nonce and length, to any of them (`Rerouted`).

`Rerouted.take` is what then happens, told without keys and ciphertexts: every handler takes the
plaintext for its own, whatever it was sealed as, if it is long enough. `koeHandlers_confuse` says
so for every run of such packets, in any order and with repetitions. In particular the file of a
transfer consists of all that was handed to it, each without its first four bytes, and it is
accepted exactly if that has the hash of the offer.
-/

set_option autoImplicit false
set_option relaxedAutoImplicit false

namespace KoeCore

open ByteWire

/-! ### What is sealed -/

/-- The plaintext that a call seals. -/
def BuilderCall.plain (S : Sodium) : BuilderCall → List UInt8
  | .messageEncrypt msg => msg.bodyBytes
  | .audioEncodeFrame _ opus => opus.getD []
  | .audioBuildCallStart _ _ => [1]
  | .audioBuildCallEnd _ _ => [0]
  | .presenceSetTyping _ _ isTyping => [UInt8.ofNat (isTyping % 256).toNat]
  | .presenceBuildPacket _ _ state => [state.code]
  | .channelSubscribe localId _ => localId.pk.toList
  | .mediaOfferBuild offerEnv filePath recipientPk _ =>
    (hashedOffer S offerEnv (offerEnv.stat.getD 0) (offerEnv.contents.getD []) filePath
      recipientPk).bytes
  | .mediaChunkBuild file _ chunkIndex offer =>
    let offset := chunkIndex.toNat * koeMediaChunkSize
    (be32 chunkIndex).toList ++ (file.read offset (chunkBytes offer offset)).getD []
  | .mediaDoneBuild offer => offer.sha256.toList
  | .mediaAcceptBuild offer => offer.transferId.toList ++ [1]
  | .mediaRejectBuild offer => offer.transferId.toList ++ [0]

/-- A message has the body it announces, within 32 bits with its tag, and a frame is one that Opus
makes, in a call that is not muted. -/
def BuilderCall.Sealable : BuilderCall → Prop
  | .messageEncrypt msg =>
    msg.bodyBytes.length = msg.bodyLen ∧ msg.bodyLen + koeTagLen < 2 ^ 32
  | .audioEncodeFrame ctx opus => ctx.muted = 0 ∧ (opus.getD []).length ≤ 256
  | _ => True

/-- The packet opens under a session to the plaintext, whose length it announces. -/
structure Packet.OpensTo (S : Sodium) (sess : Session) (pkt : Packet) (plain : List UInt8) :
    Prop where
  payload : pkt.payload.isSome = true
  length : pkt.header.length.toNat = plain.length + koeTagLen
  opens : koeDecrypt S pkt.payloadBytes pkt.header.nonce sess.rxKey = some plain

/-! ### The handlers -/

/-- The functions that open a packet under a session. -/
inductive Handler
  | message | offer | chunk | frame
deriving DecidableEq

/-- The records that the handlers write to, and what they have returned. -/
structure Inbox (E D : Type*) where
  msg : Message
  offer : MediaOffer
  transfer : MediaTransfer
  call : CallCtx E D
  pcm : Pcm
  codes : List ℤ

section Handlers

variable {E D : Type*} (S : Sodium) (opus : Opus E D)

/-- The inbox after a packet was handed to a handler, with memory for it and a file that can be
written, or `none` when the handler follows a `NULL` decoder. -/
def Handler.receive (now : ℤ) (sess : Session) (pkt : Packet) (inbox : Inbox E D) :
    Handler → Option (Inbox E D)
  | message =>
    let result := koeMessageDecrypt S true now inbox.msg pkt sess
    some { inbox with msg := result.2, codes := inbox.codes ++ [result.1] }
  | offer =>
    let result := koeMediaOfferParse S true pkt sess inbox.offer
    some { inbox with offer := result.2, codes := inbox.codes ++ [result.1] }
  | chunk =>
    let result := koeMediaChunkReceive S ⟨true, some⟩ inbox.transfer pkt sess
    some { inbox with transfer := result.2, codes := inbox.codes ++ [result.1] }
  | frame =>
    (koeAudioDecodeFrame S opus true inbox.call pkt sess inbox.pcm).map fun result ↦
      { inbox with call := result.2.1, pcm := result.2.2, codes := inbox.codes ++ [result.1] }

/-- A frame reaches the decoder of a call: the return code, the call and the output buffer. An empty
one is concealed. -/
def CallCtx.take (call : CallCtx E D) (plain : List UInt8) (pcm : Pcm) (decoder : D) :
    ℤ × CallCtx E D × Pcm :=
  if plain = [] then call.conceal opus pcm decoder else call.play opus plain pcm decoder

/-- The inbox after a handler took a plaintext that came under a header. Of the header, only the
mark for encryption and the two keys are read, and only by the handler of messages. -/
def Handler.take (now : ℤ) (header : Header) (plain : List UInt8) (inbox : Inbox E D) :
    Handler → Option (Inbox E D)
  | message =>
    if header.flags &&& PacketFlag.encrypted.mask = 0 then
      some { inbox with codes := inbox.codes ++ [-1] }
    else
      let msg := { inbox.msg with
        body := some plain
        bodyLen := plain.length
        fromPk := header.fromPk
        toPk := header.toPk
        status := .delivered
        deliveredAt := now }
      some { inbox with msg := msg, codes := inbox.codes ++ [0] }
  | offer =>
    if plain.length < 520 then some { inbox with codes := inbox.codes ++ [-1] }
    else some { inbox with offer := MediaOffer.ofBytes plain, codes := inbox.codes ++ [0] }
  | chunk =>
    if plain.length < 4 then some { inbox with codes := inbox.codes ++ [-1] }
    else
      some { inbox with
        transfer := inbox.transfer.extend (plain.drop 4)
        codes := inbox.codes ++ [0] }
  | frame =>
    (inbox.call.decoder.map (inbox.call.take opus plain inbox.pcm)).map fun result ↦
      { inbox with call := result.2.1, pcm := result.2.2, codes := inbox.codes ++ [result.1] }

end Handlers

/-! ### Opening -/

section Opening

variable {S : Sodium} {sess : Session} {pkt : Packet} {plain : List UInt8}

/-- Assumes: a packet that opens. -/
theorem Packet.OpensTo.present (hopens : pkt.OpensTo S sess plain) :
    ¬ pkt.payload.isNone = true := by
  rw [Option.isNone_iff_eq_none, ← ne_eq, ← Option.isSome_iff_ne_none]
  exact hopens.payload

/-- Assumes: a packet that opens. -/
theorem koeMessageDecrypt_of_opensTo (hopens : pkt.OpensTo S sess plain) (now : ℤ)
    (msg : Message) :
    koeMessageDecrypt S true now msg pkt sess =
      if pkt.header.flags &&& PacketFlag.encrypted.mask = 0 then (-1, msg)
      else
        (0, { msg with
          body := some plain
          bodyLen := plain.length
          fromPk := pkt.header.fromPk
          toPk := pkt.header.toPk
          status := .delivered
          deliveredAt := now }) := by
  have htag : koeTagLen = cryptoSecretboxMacbytes := rfl
  have hlength := hopens.length
  have hbodyLen : pkt.header.length.toNat - cryptoSecretboxMacbytes = plain.length := by omega
  rw [koeMessageDecrypt]
  by_cases hflag : pkt.header.flags &&& PacketFlag.encrypted.mask = 0
  · rw [if_pos hflag, if_pos hflag]
  · rw [if_neg hflag, if_neg hflag, if_neg (by omega), if_neg (by decide), hopens.opens]
    simp only [Message.filled, hbodyLen]

/-- Assumes: a packet that opens. -/
theorem koeMediaOfferParse_of_opensTo (hopens : pkt.OpensTo S sess plain) (offer : MediaOffer) :
    koeMediaOfferParse S true pkt sess offer =
      if plain.length < 520 then (-1, offer) else (0, MediaOffer.ofBytes plain) := by
  have hlength := hopens.length
  have hplainLen : pkt.header.length.toNat - koeTagLen = plain.length := by omega
  rw [koeMediaOfferParse]
  by_cases hempty : pkt.header.length.toNat ≤ koeTagLen
  · rw [if_pos (Or.inr hempty), if_pos (by omega)]
  · rw [if_neg (not_or.mpr ⟨hopens.present, hempty⟩)]
    simp only [hplainLen, hopens.opens]
    rfl

/-- Assumes: a packet that opens. -/
theorem koeMediaChunkReceive_of_opensTo (hopens : pkt.OpensTo S sess plain)
    (transfer : MediaTransfer) :
    koeMediaChunkReceive S ⟨true, some⟩ transfer pkt sess =
      if plain.length < 4 then (-1, transfer) else (0, transfer.extend (plain.drop 4)) := by
  have hlength := hopens.length
  have hplainLen : pkt.header.length.toNat - koeTagLen = plain.length := by omega
  rw [koeMediaChunkReceive]
  by_cases hempty : pkt.header.length.toNat ≤ koeTagLen
  · rw [if_pos (Or.inr hempty), if_pos (by omega)]
  · rw [if_neg (not_or.mpr ⟨hopens.present, hempty⟩)]
    simp only [hplainLen, hopens.opens, List.take_length]
    rw [if_neg (by decide), if_neg (not_not.mpr rfl)]
    rfl

/-- Assumes: a packet that opens. -/
theorem koeAudioDecodeFrame_of_opensTo {E D : Type*} (opus : Opus E D)
    (hopens : pkt.OpensTo S sess plain) (call : CallCtx E D) (pcm : Pcm) :
    koeAudioDecodeFrame S opus true call pkt sess pcm =
      call.decoder.map (call.take opus plain pcm) := by
  have hlength := hopens.length
  rw [koeAudioDecodeFrame]
  by_cases hempty : plain = []
  · have hshort : pkt.header.length.toNat ≤ koeTagLen := by simp [hlength, hempty]
    rw [if_pos (Or.inr hshort)]
    refine Option.map_congr fun decoder _ ↦ ?_
    rw [CallCtx.take, if_pos hempty]
  · have hlong : ¬ pkt.header.length.toNat ≤ koeTagLen := by
      have hpositive := List.length_pos_of_ne_nil hempty
      omega
    rw [if_neg (not_or.mpr ⟨hopens.present, hlong⟩), if_neg (by decide), hopens.opens]
    refine Option.map_congr fun decoder _ ↦ ?_
    rw [CallCtx.take, if_neg hempty]

/-- Assumes: a packet that opens. -/
theorem Handler.receive_eq_take {E D : Type*} (opus : Opus E D) (hopens : pkt.OpensTo S sess plain)
    (now : ℤ) (inbox : Inbox E D) (handler : Handler) :
    handler.receive S opus now sess pkt inbox = handler.take opus now pkt.header plain inbox := by
  cases handler with
  | message =>
    simp only [Handler.receive, Handler.take, koeMessageDecrypt_of_opensTo hopens]
    split_ifs
    · rfl
    · rfl
  | offer =>
    simp only [Handler.receive, Handler.take, koeMediaOfferParse_of_opensTo hopens]
    split_ifs
    · rfl
    · rfl
  | chunk =>
    simp only [Handler.receive, Handler.take, koeMediaChunkReceive_of_opensTo hopens]
    split_ifs
    · rfl
    · rfl
  | frame => rw [Handler.receive, Handler.take, koeAudioDecodeFrame_of_opensTo opus hopens]

end Opening

/-! ### Sealing -/

section Sealing

variable {S : Sodium} {env : BuildEnv} {pktOut : Packet} {sender receiver : Session}

/-- The packet opens under the mirrored session, whatever the rest of its header. -/
def Packet.SealedFor (S : Sodium) (receiver : Session) (built : Packet) (plain : List UInt8) :
    Prop :=
  ∀ pkt : Packet, pkt.payload = built.payload → pkt.header.nonce = built.header.nonce →
    pkt.header.length = built.header.length → pkt.OpensTo S receiver plain

/-- Assumes: a correct AEAD, mirrored sessions, and the ciphertext of a plaintext behind a header
that announces it. -/
theorem sealedFor_of_koeEncrypt (haead : S.Aead) (hmirrored : sender.Mirrored receiver)
    {built : Packet} {plain ct : List UInt8}
    (hct : koeEncrypt S plain built.header.nonce sender.txKey = some ct)
    (hpayload : built.payload = some ct)
    (hlength : built.header.length.toNat = plain.length + koeTagLen) :
    built.SealedFor S receiver plain := by
  intro pkt hsame hnonce hlen
  have hannounced : pkt.header.length.toNat = plain.length + koeTagLen := by rw [hlen, hlength]
  have hbytes : pkt.payloadBytes = ct :=
    Packet.payloadBytes_eq (hsame.trans hpayload)
      (hannounced.trans (haead.length_sealed hct).symm)
  refine ⟨?_, hannounced, ?_⟩
  · rw [hsame, hpayload]
    rfl
  · rw [hbytes, hnonce, ← hmirrored.1]
    exact koeDecrypt_koeEncrypt haead hct

/-- Assumes: a correct AEAD, mirrored sessions, a return code other than -1, and a length within 32
bits. -/
theorem buildSealed_sealedFor (haead : S.Aead) (hmirrored : sender.Mirrored receiver)
    {type : PacketType} {flags : UInt8} {fromPk toPk : Block 32} {plain : List UInt8}
    (hrc : 0 ≤ (buildSealed S env type flags fromPk toPk plain sender pktOut).1)
    (hfits : plain.length + koeTagLen < 2 ^ 32) :
    (buildSealed S env type flags fromPk toPk plain sender pktOut).2.SealedFor S receiver
      plain := by
  rcases buildSealed_cases S env type flags fromPk toPk plain sender pktOut with
    hfailed | ⟨ct, hct, hbuilt⟩
  · rw [hfailed] at hrc
    have hfails : (0 : ℤ) ≤ -1 := hrc
    exact absurd hfails (by decide)
  · rw [hbuilt]
    refine sealedFor_of_koeEncrypt haead hmirrored hct rfl ?_
    exact (sealedPacket_opens haead hmirrored type flags fromPk toPk hct hfits).1

/-- Assumes: a correct AEAD, mirrored sessions, a return code other than -1, and a message with the
body it announces, within 32 bits with its tag. -/
theorem koeMessageEncrypt_sealedFor (haead : S.Aead) (hmirrored : sender.Mirrored receiver)
    {msg : Message} (hrc : 0 ≤ (koeMessageEncrypt S env msg sender).1)
    (hbody : msg.bodyBytes.length = msg.bodyLen) (hfits : msg.bodyLen + koeTagLen < 2 ^ 32) :
    (koeMessageEncrypt S env msg sender).2.SealedFor S receiver msg.bodyBytes := by
  by_cases halloc : env.alloc = true
  · rcases hct : koeEncrypt S msg.bodyBytes env.nonce sender.txKey with _ | ct
    · simp [koeMessageEncrypt, halloc, hct] at hrc
    · rw [koeMessageEncrypt_eq halloc hct]
      refine sealedFor_of_koeEncrypt haead hmirrored hct rfl ?_
      change (UInt32.ofNat (msg.bodyLen + koeTagLen)).toNat = _
      rw [UInt32.toNat_ofNat', Nat.mod_eq_of_lt hfits, hbody]
  · simp [koeMessageEncrypt, halloc] at hrc

/-- Assumes: a correct AEAD, mirrored sessions, a return code other than -1, and a frame that Opus
makes, in a call that is not muted. -/
theorem koeAudioEncodeFrame_sealedFor (haead : S.Aead) (hmirrored : sender.Mirrored receiver)
    {ctx : AudioCtx} {opus : Option (List UInt8)}
    (hrc : 0 ≤ (koeAudioEncodeFrame S env ctx opus sender pktOut).1) (hmuted : ctx.muted = 0)
    (hlength : (opus.getD []).length ≤ 256) :
    (koeAudioEncodeFrame S env ctx opus sender pktOut).2.2.SealedFor S receiver
      (opus.getD []) := by
  have htag : koeTagLen = 16 := rfl
  rcases opus with _ | frame
  · simp [koeAudioEncodeFrame, hmuted] at hrc
  · rcases buildSealed_cases S env .audio PacketFlag.encrypted.mask sender.txKey ctx.remotePk frame
        sender pktOut with hfailed | ⟨ct, hct, hbuilt⟩
    · simp [koeAudioEncodeFrame, hmuted, hfailed] at hrc
    · have hpacket : (koeAudioEncodeFrame S env ctx (some frame) sender pktOut).2.2 =
          (buildSealed S env .audio PacketFlag.encrypted.mask sender.txKey ctx.remotePk frame
            sender pktOut).2 := by
        simp [koeAudioEncodeFrame, hmuted, hbuilt]
      rw [hpacket]
      refine buildSealed_sealedFor haead hmirrored ?_ ?_
      · rw [hbuilt]
      · rw [Option.getD_some] at hlength
        omega

/-- What every builder seals. Assumes: a correct AEAD, mirrored sessions, and a sealable call that
builds a packet. -/
theorem BuilderCall.run_sealedFor (haead : S.Aead) (hmirrored : sender.Mirrored receiver)
    {call : BuilderCall} (hsealable : call.Sealable)
    (hrc : 0 ≤ (call.run S env pktOut sender).1) :
    (call.run S env pktOut sender).2.SealedFor S receiver (call.plain S) := by
  have htag : koeTagLen = 16 := rfl
  have hone (byte : UInt8) : [byte].length + koeTagLen < 2 ^ 32 := by
    rw [List.length_singleton, htag]
    decide
  cases call with
  | messageEncrypt msg =>
    exact koeMessageEncrypt_sealedFor haead hmirrored hrc hsealable.1 hsealable.2
  | audioEncodeFrame ctx opus =>
    exact koeAudioEncodeFrame_sealedFor haead hmirrored hrc hsealable.1 hsealable.2
  | audioBuildCallStart localId remotePk =>
    exact buildSealed_sealedFor haead hmirrored hrc (hone _)
  | audioBuildCallEnd localId remotePk =>
    exact buildSealed_sealedFor haead hmirrored hrc (hone _)
  | presenceSetTyping localId toPk isTyping =>
    exact buildSealed_sealedFor haead hmirrored hrc (hone _)
  | presenceBuildPacket localId toPk state =>
    exact buildSealed_sealedFor haead hmirrored hrc (hone _)
  | channelSubscribe localId ownerPk =>
    refine buildSealed_sealedFor haead hmirrored hrc ?_
    rw [List.Vector.toList_length, htag]
    decide
  | mediaOfferBuild offerEnv filePath recipientPk offerOut =>
    obtain ⟨stSize, contents, hfile⟩ := koeMediaOfferBuild_inv hrc
    have hplain : (mediaOfferBuild offerEnv filePath recipientPk offerOut).plain S =
        (hashedOffer S offerEnv stSize contents filePath recipientPk).bytes := by
      rw [plain, hfile.1, hfile.2.2]
      rfl
    rw [run, koeMediaOfferBuild_eq hfile] at hrc ⊢
    rw [hplain]
    refine buildSealed_sealedFor haead hmirrored hrc ?_
    rw [MediaOffer.length_bytes, htag]
    decide
  | mediaChunkBuild file plainAlloc chunkIndex offer =>
    obtain ⟨data, hread, hlength, hsealed, hbuilt⟩ := koeMediaChunkBuild_inv hrc
    have hplain : (mediaChunkBuild file plainAlloc chunkIndex offer).plain S =
        (be32 chunkIndex).toList ++ data := by
      rw [plain, hread]
      rfl
    rw [run, hbuilt, hplain]
    refine buildSealed_sealedFor haead hmirrored hsealed.ge ?_
    have hshort := chunkBytes_le offer (chunkIndex.toNat * koeMediaChunkSize)
    have hsize : koeMediaChunkSize = 65536 := rfl
    rw [List.length_append, List.Vector.toList_length]
    omega
  | mediaDoneBuild offer =>
    refine buildSealed_sealedFor haead hmirrored hrc ?_
    rw [List.Vector.toList_length, htag]
    decide
  | mediaAcceptBuild offer =>
    refine buildSealed_sealedFor haead hmirrored hrc ?_
    rw [List.length_append, List.Vector.toList_length, List.length_singleton, htag]
    decide
  | mediaRejectBuild offer =>
    refine buildSealed_sealedFor haead hmirrored hrc ?_
    rw [List.length_append, List.Vector.toList_length, List.length_singleton, htag]
    decide

end Sealing

/-! ### Rerouting -/

/-- A packet that one end built, under a header of the network's choice, with the handler that gets
it and the time. -/
structure Rerouted where
  call : BuilderCall
  env : BuildEnv
  out : Packet
  header : Header
  handler : Handler
  now : ℤ

/-- A sealable call built the packet, and the header has its nonce and its length. -/
structure Rerouted.Genuine (S : Sodium) (sender : Session) (rerouted : Rerouted) : Prop where
  sealable : rerouted.call.Sealable
  built : 0 ≤ (rerouted.call.run S rerouted.env rerouted.out sender).1
  nonce : rerouted.header.nonce =
    (rerouted.call.run S rerouted.env rerouted.out sender).2.header.nonce
  length : rerouted.header.length =
    (rerouted.call.run S rerouted.env rerouted.out sender).2.header.length

/-- What is written to the file of a transfer. -/
def Rerouted.written (S : Sodium) (rerouted : Rerouted) : List UInt8 :=
  if rerouted.handler = .chunk then (rerouted.call.plain S).drop 4 else []

section Runs

variable {E D : Type*} (S : Sodium) (opus : Opus E D)

/-- The inbox after the packet was handed to its handler. -/
def Rerouted.receive (sender receiver : Session) (inbox : Inbox E D) (rerouted : Rerouted) :
    Option (Inbox E D) :=
  rerouted.handler.receive S opus rerouted.now receiver
    ⟨rerouted.header, (rerouted.call.run S rerouted.env rerouted.out sender).2.payload⟩ inbox

/-- The inbox after the handler took what the call sealed. -/
def Rerouted.take (inbox : Inbox E D) (rerouted : Rerouted) : Option (Inbox E D) :=
  rerouted.handler.take opus rerouted.now rerouted.header (rerouted.call.plain S) inbox

variable {S} {sender receiver : Session}

/-- Assumes: a correct AEAD, mirrored sessions, and a genuine packet. -/
theorem Rerouted.receive_eq_take (haead : S.Aead) (hmirrored : sender.Mirrored receiver)
    {rerouted : Rerouted} (hgenuine : rerouted.Genuine S sender) (inbox : Inbox E D) :
    rerouted.receive S opus sender receiver inbox = rerouted.take S opus inbox :=
  Handler.receive_eq_take opus
    (BuilderCall.run_sealedFor haead hmirrored hgenuine.sealable hgenuine.built
      ⟨rerouted.header, _⟩ rfl hgenuine.nonce hgenuine.length)
    rerouted.now inbox rerouted.handler

variable {opus}

/-- Assumes: a plaintext that the handler took. -/
theorem Handler.take_transfer {now : ℤ} {header : Header} {plain : List UInt8}
    {inbox after : Inbox E D} {handler : Handler}
    (htake : handler.take opus now header plain inbox = some after) :
    after.transfer =
      if handler = .chunk ∧ 4 ≤ plain.length then inbox.transfer.extend (plain.drop 4)
      else inbox.transfer := by
  cases handler with
  | message =>
    rw [if_neg fun hchunk ↦ absurd hchunk.1 (by decide)]
    rw [Handler.take] at htake
    split_ifs at htake
    · rw [← Option.some.inj htake]
    · rw [← Option.some.inj htake]
  | offer =>
    rw [if_neg fun hchunk ↦ absurd hchunk.1 (by decide)]
    rw [Handler.take] at htake
    split_ifs at htake
    · rw [← Option.some.inj htake]
    · rw [← Option.some.inj htake]
  | chunk =>
    rw [Handler.take] at htake
    by_cases hshort : plain.length < 4
    · rw [if_pos hshort] at htake
      rw [if_neg fun hchunk ↦ absurd hshort (Nat.not_lt.mpr hchunk.2), ← Option.some.inj htake]
    · rw [if_neg hshort] at htake
      rw [if_pos ⟨rfl, Nat.not_lt.mp hshort⟩, ← Option.some.inj htake]
  | frame =>
    rw [if_neg fun hchunk ↦ absurd hchunk.1 (by decide)]
    obtain ⟨result, -, hafter⟩ := Option.map_eq_some_iff.mp htake
    rw [← hafter]

/-- The descriptor is at the end of the file, which has the given bytes, and the offer is this
one. -/
def MediaTransfer.Holds (transfer : MediaTransfer) (offer : MediaOffer) (contents : List UInt8) :
    Prop :=
  transfer.saved = ⟨contents, contents.length⟩ ∧ transfer.offer = offer

/-- Assumes: a packet that was taken, and the file before. -/
theorem Rerouted.take_holds {inbox after : Inbox E D} {rerouted : Rerouted} {offer : MediaOffer}
    {contents : List UInt8} (htake : rerouted.take S opus inbox = some after)
    (hholds : inbox.transfer.Holds offer contents) :
    after.transfer.Holds offer (contents ++ rerouted.written S) := by
  rw [Handler.take_transfer htake, Rerouted.written]
  by_cases hchunk : rerouted.handler = .chunk
  · rw [if_pos hchunk]
    split_ifs with hlong
    · refine ⟨?_, hholds.2⟩
      have hend : inbox.transfer.saved.pos = inbox.transfer.saved.contents.length := by
        rw [hholds.1]
      have hwritten := SaveFile.write_end hend ((rerouted.call.plain S).drop 4)
      rw [hholds.1] at hwritten
      rw [MediaTransfer.extend, hholds.1]
      exact hwritten
    · have hshort : (rerouted.call.plain S).length ≤ 4 := by
        by_contra hlonger
        exact hlong ⟨hchunk, by omega⟩
      rw [List.drop_of_length_le hshort, List.append_nil]
      exact hholds
  · rw [if_neg hchunk, if_neg fun both ↦ hchunk both.1, List.append_nil]
    exact hholds

/-- Assumes: packets that were taken, and the file before. -/
theorem takes_holds {offer : MediaOffer} (reroutings : List Rerouted) :
    ∀ {inbox last : Inbox E D} {contents : List UInt8},
      reroutings.foldlM (Rerouted.take S opus) inbox = some last →
      inbox.transfer.Holds offer contents →
        last.transfer.Holds offer (contents ++ reroutings.flatMap (Rerouted.written S)) := by
  induction reroutings with
  | nil =>
    intro inbox last contents hrun hholds
    obtain rfl : inbox = last := Option.some.inj hrun
    rw [List.flatMap_nil, List.append_nil]
    exact hholds
  | cons rerouted reroutings ih =>
    intro inbox last contents hrun hholds
    rw [List.foldlM_cons] at hrun
    obtain ⟨after, htake, hrest⟩ := Option.bind_eq_some_iff.mp hrun
    rw [List.flatMap_cons, ← List.append_assoc]
    exact ih hrest (Rerouted.take_holds htake hholds)

/-- Assumes: a correct AEAD, mirrored sessions, and genuine packets. -/
theorem receives_eq_takes (opus : Opus E D) (haead : S.Aead) (hmirrored : sender.Mirrored receiver)
    (reroutings : List Rerouted) (inbox : Inbox E D)
    (hgenuine : ∀ rerouted ∈ reroutings, rerouted.Genuine S sender) :
    reroutings.foldlM (Rerouted.receive S opus sender receiver) inbox =
      reroutings.foldlM (Rerouted.take S opus) inbox := by
  induction reroutings generalizing inbox with
  | nil => rfl
  | cons rerouted reroutings ih =>
    obtain ⟨hfirst, hrest⟩ := List.forall_mem_cons.mp hgenuine
    rw [List.foldlM_cons, List.foldlM_cons,
      Rerouted.receive_eq_take opus haead hmirrored hfirst]
    exact congrArg (Option.bind _) (funext fun after ↦ ih after hrest)

/-- Packets of one end reach the handlers of the other under headers of the network's choice, in any
order and repeated. Every handler takes what was sealed for its own, whichever builder sealed it.
The file of a transfer consists of what was handed to it, without the first four bytes of each, and
it is accepted exactly if this has the hash of the offer. Assumes: a correct AEAD, mirrored
sessions, and packets that sealable calls built, under headers with their nonces and lengths. -/
theorem koeHandlers_confuse (opus : Opus E D) (haead : S.Aead)
    (hmirrored : sender.Mirrored receiver) (reroutings : List Rerouted)
    (hgenuine : ∀ rerouted ∈ reroutings, rerouted.Genuine S sender) (start : Inbox E D) :
    reroutings.foldlM (Rerouted.receive S opus sender receiver) start =
        reroutings.foldlM (Rerouted.take S opus) start ∧
      ∀ last, reroutings.foldlM (Rerouted.receive S opus sender receiver) start = some last →
        ∀ offer fd, start.transfer = MediaTransfer.start offer fd →
          let written := reroutings.flatMap (Rerouted.written S)
          last.transfer.saved.contents = written ∧
            ((koeMediaFinalise S true last.transfer).1 = 0 ↔
              S.cryptoHashSha256 written = offer.sha256) := by
  have hruns := receives_eq_takes opus haead hmirrored reroutings start hgenuine
  refine ⟨hruns, fun last hlast offer fd hstart ↦ ?_⟩
  intro written
  rw [hruns] at hlast
  have hholds : last.transfer.Holds offer ([] ++ written) :=
    takes_holds reroutings hlast (by rw [hstart]; exact ⟨rfl, rfl⟩)
  rw [List.nil_append] at hholds
  have hcontents : last.transfer.saved.contents = written := by rw [hholds.1]
  refine ⟨hcontents, ?_⟩
  have haccepts : (koeMediaFinalise S true last.transfer).1 =
      if S.cryptoHashSha256 last.transfer.saved.contents = last.transfer.offer.sha256 then 0
      else -1 := rfl
  rw [haccepts, hcontents, hholds.2]
  split_ifs with hhash
  · exact iff_of_true rfl hhash
  · exact iff_of_false (by decide) hhash

end Runs

/-- A text of eight bytes that comes as a chunk. -/
def smuggledText : Rerouted where
  call := .messageEncrypt { Message.zero with body := some (literal "koe-file"), bodyLen := 8 }
  env := plainBuildEnv
  out := Packet.zero
  header := { Packet.zero.header with type := PacketType.mediaChunk.code, length := 24 }
  handler := .chunk
  now := 0

/-- The last four bytes of the text are a file that is accepted. -/
theorem smuggledText_accepted :
    let offer := { MediaOffer.zero with
      sha256 := Sodium.transparent.cryptoHashSha256 (literal "file") }
    let start : Inbox ℕ ℕ := ⟨Message.zero, MediaOffer.zero, MediaTransfer.start offer 3,
      CallCtx.zero (Block.zero 32), List.Vector.replicate koeAudioFrameSamples 0, []⟩
    ∃ last, [smuggledText].foldlM
        (Rerouted.receive Sodium.transparent toyOpus transferSession transferMirror) start =
          some last ∧
      last.codes = [0] ∧ last.transfer.saved.contents = literal "file" ∧
      (koeMediaFinalise Sodium.transparent true last.transfer).1 = 0 := by
  intro offer start
  have hgenuine : ∀ rerouted ∈ [smuggledText],
      rerouted.Genuine Sodium.transparent transferSession := by
    intro rerouted hmem
    obtain rfl := List.mem_singleton.mp hmem
    exact ⟨⟨rfl, by decide⟩, Int.le_refl 0, rfl, rfl⟩
  obtain ⟨hruns, hfile⟩ := koeHandlers_confuse toyOpus Sodium.transparent_aead
    transferSession_mirrored [smuggledText] hgenuine start
  have hwritten : [smuggledText].flatMap (Rerouted.written Sodium.transparent) =
      literal "file" := by decide
  obtain ⟨hcontents, haccepted⟩ := hfile _ hruns offer 3 rfl
  rw [hwritten] at hcontents haccepted
  exact ⟨_, hruns, rfl, hcontents, haccepted.mpr rfl⟩

end KoeCore
