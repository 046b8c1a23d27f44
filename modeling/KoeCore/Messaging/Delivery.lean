import KoeCore.Messaging.Message
import KoeCore.Protocol.PacketRoundTrip

/-!
# End-to-end delivery of a message

A message is encrypted under the sender's session, written to the wire, read back and decrypted
under the receiver's session. The packet that `koe_message_encrypt` builds has a fitting payload
within the cap (`messagePacket_payloadFits`, `messagePacket_length`), so it survives the packet
codec, and the ciphertext opens under the mirrored key (`koeMessage_delivered`).

The signature does not make the journey. `koe_message_encrypt` seals the body alone and still sets
`KOE_FLAG_SIGNED`, and `koe_message_decrypt` never writes `sig`, so the received record holds the
64 zero bytes it was created with and fails `koe_message_verify` (`koeMessageVerify_received`).

Nor does the self-destruct timer. It is in the sender's record only, the packet has no field for it,
and `koe_message_decrypt` leaves the timer of the receiver's record alone
(`koeMessageDecrypt_carriesTimer_iff`).
-/

set_option autoImplicit false
set_option relaxedAutoImplicit false

namespace KoeCore

open ByteWire

/-- The packet of a message announces the whole ciphertext and fits the cap. Assumes: a correct
AEAD, a message whose body length is that of its body, a body within the cap, and its
ciphertext. -/
theorem messagePacket_length {S : Sodium} (haead : S.Aead) {msg : Message} {body ct : List UInt8}
    (hlen : msg.bodyLen = body.length) (hmax : body.length ≤ koeMaxPayload - 16)
    {nonce : Block 24} {key : Block 32} (hct : koeEncrypt S body nonce key = some ct) :
    (messagePacket msg nonce ct).header.length.toNat = ct.length ∧ ct.length ≤ koeMaxPayload ∧
      ct.length = body.length + 16 := by
  have hlength : ct.length = body.length + 16 := haead.length_sealed hct
  simp only [koeMaxPayload] at hmax ⊢
  exact ⟨messagePacket_announces haead hlen hct (by omega), by omega, hlength⟩

/-- A message packet that announces its whole ciphertext has a fitting payload. Assumes: a
non-empty ciphertext of the announced length. -/
theorem messagePacket_payloadFits {msg : Message} {nonce : Block 24} {ct : List UInt8}
    (hannounced : (messagePacket msg nonce ct).header.length.toNat = ct.length)
    (hpos : 0 < ct.length) : (messagePacket msg nonce ct).PayloadFits := by
  constructor
  · constructor
    · intro hnull
      exact absurd hnull (by simp [messagePacket])
    · intro hzero
      rw [hzero] at hannounced
      exact absurd hannounced.symm hpos.ne'
  · intro bytes hbytes
    rw [hannounced, ← Option.some.inj hbytes]

/-- Decryption of a message packet that arrived over the wire. Assumes: a correct AEAD, and the
ciphertext, of the announced length, of the body under the receiving key. -/
theorem koeMessageDecrypt_received {S : Sodium} (haead : S.Aead) {msg : Message}
    {body ct : List UInt8} {nonce : Block 24} {sess : Session}
    (hct : koeEncrypt S body nonce sess.rxKey = some ct)
    (hannounced : (messagePacket msg nonce ct).header.length.toNat = ct.length) (now : ℤ)
    (record : Message) :
    koeMessageDecrypt S true now record (messagePacket msg nonce ct).received sess =
      (0, { record with
          body := some body
          bodyLen := body.length
          fromPk := msg.fromPk
          toPk := msg.toPk
          status := .delivered
          deliveredAt := now }) := by
  have hlength : ct.length = body.length + 16 := haead.length_sealed hct
  have hreceived : (messagePacket msg nonce ct).received.header.length.toNat = ct.length :=
    hannounced
  have hbytes : (messagePacket msg nonce ct).received.payloadBytes = ct :=
    Packet.payloadBytes_eq rfl hreceived
  have hflag : ¬ (messagePacket msg nonce ct).received.header.flags &&&
      PacketFlag.encrypted.mask = 0 := by
    change ¬ (PacketFlag.encrypted.mask ||| PacketFlag.signed.mask) &&&
      PacketFlag.encrypted.mask = 0
    decide
  have hshort : ¬ ct.length < cryptoSecretboxMacbytes := by
    rw [hlength, cryptoSecretboxMacbytes]
    omega
  have hopened : koeDecrypt S ct (messagePacket msg nonce ct).received.header.nonce sess.rxKey =
      some body := koeDecrypt_koeEncrypt haead hct
  unfold koeMessageDecrypt
  rw [if_neg hflag, hreceived, if_neg hshort, hbytes, hopened]
  change (0, record.filled now (messagePacket msg nonce ct).received body) = _
  rw [Message.filled, hreceived, hlength, cryptoSecretboxMacbytes]
  rfl

/-- End-to-end delivery. Assumes: a correct AEAD, a message with a body within the cap, and a
receiving key equal to the sending key. Encryption at the sender, serialisation into a buffer that
has room, deserialisation and decryption at the receiver all succeed, and the receiver's record has
the sender's body, body length, sender and recipient; and every packet that decryption rejects
leaves the receiver's record as it was. -/
theorem koeMessage_delivered {S : Sodium} (haead : S.Aead) {msg : Message} {body : List UInt8}
    (hbody : msg.body = some body) (hlen : msg.bodyLen = body.length)
    (hmax : body.length ≤ koeMaxPayload - 16) {sender receiver : Session}
    (hmirror : sender.txKey = receiver.rxKey) (nonce : Block 24) {buf : List UInt8}
    (hbuf : koeHeaderSize + (body.length + 16) ≤ buf.length) (out : Packet) (now : ℤ)
    (record : Message) :
    let encrypted := koeMessageEncrypt S ⟨nonce, true⟩ msg sender
    let serialised := koePacketSerialise encrypted.2 buf
    let arrived := koePacketDeserialise true out (serialised.2.take serialised.1.toNat)
    let decrypted := koeMessageDecrypt S true now record arrived.2 receiver
    encrypted.1 = 0 ∧ serialised.1 = koeHeaderSize + (body.length + 16) ∧ arrived.1 = 0 ∧
      decrypted.1 = 0 ∧ decrypted.2.body = some body ∧ decrypted.2.bodyLen = body.length ∧
      decrypted.2.fromPk = msg.fromPk ∧ decrypted.2.toPk = msg.toPk ∧
      ∀ (alloc : Bool) (time : ℤ) (pkt : Packet) (sess : Session),
        (koeMessageDecrypt S alloc time record pkt sess).1 = -1 →
          (koeMessageDecrypt S alloc time record pkt sess).2 = record := by
  intro encrypted serialised arrived decrypted
  obtain ⟨ct, hct⟩ := haead.seals sender.txKey nonce body
  have hbytes : msg.bodyBytes = body := by
    rw [Message.bodyBytes, hbody, hlen, Option.getD_some, List.take_length]
  obtain ⟨hannounced, hcap, hctLen⟩ := messagePacket_length haead hlen hmax hct
  have hfits := messagePacket_payloadFits hannounced (by omega)
  have hencrypted : encrypted = (0, messagePacket msg nonce ct) :=
    koeMessageEncrypt_eq rfl (hbytes.symm ▸ hct)
  have hmessage : (messagePacket msg nonce ct).header.length.toNat = body.length + 16 :=
    hannounced.trans hctLen
  have hserialised : serialised =
      ((koeHeaderSize : ℤ) + (messagePacket msg nonce ct).header.length.toNat,
        (messagePacket msg nonce ct).wire ++
          buf.drop (messagePacket msg nonce ct).wire.length) := by
    change koePacketSerialise encrypted.2 buf = _
    rw [hencrypted]
    exact koePacketSerialise_of_fits (hannounced ▸ hcap) (hmessage ▸ hbuf)
  have hsize : serialised.1 = koeHeaderSize + (body.length + 16) := by
    rw [hserialised, hmessage]
    push_cast
    rfl
  have harrived : arrived = (0, (messagePacket msg nonce ct).received) := by
    have htaken : serialised.2.take serialised.1.toNat = (messagePacket msg nonce ct).wire := by
      rw [hserialised]
      change List.take (koeHeaderSize + (messagePacket msg nonce ct).header.length.toNat) _ = _
      rw [← Packet.length_wire hfits, List.take_left]
    have hdecoded := koePacketDeserialise_wire hfits (hannounced ▸ hcap) [] out
    rw [List.append_nil, ← htaken] at hdecoded
    exact hdecoded
  have hdecrypted := koeMessageDecrypt_received haead (hmirror ▸ hct) hannounced now record
  rw [show (messagePacket msg nonce ct).received = arrived.2 by rw [harrived]] at hdecrypted
  have hfields : decrypted = _ := hdecrypted
  refine ⟨by rw [hencrypted], hsize, by rw [harrived], by rw [hfields], by rw [hfields],
    by rw [hfields], by rw [hfields], by rw [hfields], ?_⟩
  intro alloc time pkt sess hrc
  exact koeMessageDecrypt_eq_of_neg hrc

/-- A text message with the body `"hi"`. -/
def hiMessage : Message := { Message.zero with body := some [0x68, 0x69], bodyLen := 2 }

/-- The two bytes arrive, through a buffer of exactly the size of their packet. -/
theorem hiMessage_delivered :
    let encrypted := koeMessageEncrypt Sodium.transparent ⟨Block.zero 24, true⟩ hiMessage
      Session.zero
    let serialised := koePacketSerialise encrypted.2 (List.replicate 124 0)
    let arrived := koePacketDeserialise true Packet.zero (serialised.2.take serialised.1.toNat)
    (koeMessageDecrypt Sodium.transparent true 7 Message.zero arrived.2 Session.zero).2.body =
      some [0x68, 0x69] := by
  have hbody : hiMessage.body = some [0x68, 0x69] := rfl
  have hmax : ([0x68, 0x69] : List UInt8).length ≤ koeMaxPayload - 16 := by decide
  have hmirror : Session.zero.txKey = Session.zero.rxKey := rfl
  have hbuf : koeHeaderSize + (([0x68, 0x69] : List UInt8).length + 16) ≤
      (List.replicate 124 (0 : UInt8)).length := by
    rw [List.length_replicate]
    decide
  have hdelivered := koeMessage_delivered Sodium.transparent_aead hbody rfl hmax hmirror
    (Block.zero 24) hbuf Packet.zero 7 Message.zero
  exact hdelivered.2.2.2.2.1

/-! ### The signature -/

/-- A packet of `koe_message_encrypt` is marked as signed. Assumes: the return code `0`. -/
theorem koeMessageEncrypt_signed {S : Sodium} {env : BuildEnv} {msg : Message} {sess : Session}
    (hrc : (koeMessageEncrypt S env msg sess).1 = 0) :
    (koeMessageEncrypt S env msg sess).2.header.flags &&& PacketFlag.signed.mask ≠ 0 := by
  unfold koeMessageEncrypt at hrc ⊢
  by_cases halloc : env.alloc = true
  · cases hct : koeEncrypt S msg.bodyBytes env.nonce sess.txKey with
    | none => simp [halloc, hct] at hrc
    | some ct =>
      simp only [halloc, Bool.not_true]
      change (PacketFlag.encrypted.mask ||| PacketFlag.signed.mask) &&&
        PacketFlag.signed.mask ≠ 0
      decide
  · simp [halloc] at hrc

/-- A message whose signature is all zero does not verify. Assumes: Ed25519 rejects the all-zero
signature. -/
theorem koeMessageVerify_of_zero {S : Sodium} (hreject : S.RejectsZeroSig) {msg : Message}
    (hsig : msg.sig = Block.zero 64) : koeMessageVerify S msg = -1 := by
  unfold koeMessageVerify
  cases msg.body with
  | none => rfl
  | some body =>
    change koeVerify S msg.sig msg.bodyBytes msg.fromPk = -1
    rw [koeVerify, hsig, hreject]
    rfl

/-- No signature reaches the receiver. Assumes: Ed25519 rejects the all-zero signature. Whatever
message is signed, by whichever identity, and sent between whichever sessions, the record that
decryption fills in from a zeroed one holds 64 zero bytes for a signature and does not verify. The
packet is marked as signed, and it is the same packet for every signature on the message. -/
theorem koeMessageVerify_received {S : Sodium} (hreject : S.RejectsZeroSig) (msg : Message)
    (id : Identity) (env : BuildEnv) (sender receiver : Session) (alloc : Bool) (now : ℤ) :
    let signed := koeMessageSign S msg id
    let encrypted := koeMessageEncrypt S env signed.2 sender
    let decrypted := koeMessageDecrypt S alloc now Message.zero encrypted.2 receiver
    koeMessageVerify S decrypted.2 = -1 ∧ decrypted.2.sig = Block.zero 64 ∧
      (encrypted.1 = 0 → encrypted.2.header.flags &&& PacketFlag.signed.mask ≠ 0) ∧
      ∀ sig, koeMessageEncrypt S env { signed.2 with sig := sig } sender = encrypted := by
  intro signed encrypted decrypted
  have hsig : decrypted.2.sig = Block.zero 64 :=
    (koeMessageDecrypt_frame S alloc now Message.zero encrypted.2 receiver).1
  refine ⟨koeMessageVerify_of_zero hreject hsig, hsig, koeMessageEncrypt_signed, ?_⟩
  intro sig
  rfl

theorem koeMessageVerify_received_transparent :
    Sodium.transparent.RejectsZeroSig ∧
      koeMessageVerify Sodium.transparent
        (koeMessageDecrypt Sodium.transparent true 7 Message.zero
          (koeMessageEncrypt Sodium.transparent ⟨Block.zero 24, true⟩
            (koeMessageSign Sodium.transparent hiMessage (Sodium.transparentIdentity 5)).2
            Session.zero).2 Session.zero).2 = -1 :=
  ⟨Sodium.transparent_rejectsZeroSig,
    (koeMessageVerify_received Sodium.transparent_rejectsZeroSig hiMessage
      (Sodium.transparentIdentity 5) ⟨Block.zero 24, true⟩ Session.zero Session.zero true 7).1⟩

/-- The signed message verifies at the sender, encryption and decryption succeed, the two bytes and
the sender arrive, and the received message does not verify. -/
theorem hiMessage_signature_lost :
    let id := Sodium.transparentIdentity 5
    let signed := koeMessageSign Sodium.transparent hiMessage id
    let encrypted := koeMessageEncrypt Sodium.transparent ⟨Block.zero 24, true⟩ signed.2
      Session.zero
    let decrypted := koeMessageDecrypt Sodium.transparent true 7 Message.zero encrypted.2
      Session.zero
    signed.1 = 0 ∧ koeMessageVerify Sodium.transparent signed.2 = 0 ∧ encrypted.1 = 0 ∧
      decrypted.1 = 0 ∧ decrypted.2.body = some [0x68, 0x69] ∧ decrypted.2.fromPk = id.pk ∧
      koeMessageVerify Sodium.transparent decrypted.2 = -1 := by
  decide +kernel

/-! ### The self-destruct timer -/

/-- The record of a message that was delivered at the given time carries its time to live, and is
due for destruction from the end of that time on. -/
def CarriesTimer (ttl : UInt32) (delivered : ℤ) (record : Message) : Prop :=
  record.destructAfterSeconds = ttl ∧ record.destructAt = delivered + ttl.toNat ∧
    ∀ time, koeMessageShouldDestruct time record = if delivered + ttl.toNat ≤ time then 1 else 0

/-- Assumes: a positive time to live. -/
theorem carriesTimer_iff {ttl : UInt32} (httl : ttl ≠ 0) (delivered : ℤ) (record : Message) :
    CarriesTimer ttl delivered record ↔
      record.destructAfterSeconds = ttl ∧ record.destructAt = delivered + ttl.toNat := by
  constructor
  · rintro ⟨hafter, hat, -⟩
    exact ⟨hafter, hat⟩
  · rintro ⟨hafter, hat⟩
    refine ⟨hafter, hat, ?_⟩
    intro time
    rw [koeMessageShouldDestruct, hafter, if_neg httl, hat]

/-- The record that decryption fills in carries the timer of the message exactly when it had the
same timer before. Assumes: a positive time to live, and an encryption and a decryption that return
0, between whichever sessions. -/
theorem koeMessageDecrypt_carriesTimer_iff {S : Sodium} {ttl : UInt32} (httl : ttl ≠ 0)
    (setAt : ℤ) (msg : Message) (env : BuildEnv) {sender receiver : Session} {alloc : Bool}
    {now : ℤ} {record : Message} :
    let encrypted := koeMessageEncrypt S env (koeMessageSetDestruct setAt msg ttl) sender
    let decrypted := koeMessageDecrypt S alloc now record encrypted.2 receiver
    encrypted.1 = 0 → decrypted.1 = 0 →
      (CarriesTimer ttl decrypted.2.deliveredAt decrypted.2 ↔
        record.destructAfterSeconds = ttl ∧ record.destructAt = now + ttl.toNat) := by
  intro encrypted decrypted _ hrc
  obtain ⟨-, hafter, hat⟩ := koeMessageDecrypt_frame S alloc now record encrypted.2 receiver
  have hdelivered : decrypted.2.deliveredAt = now :=
    koeMessageDecrypt_deliveredAt S alloc now record encrypted.2 receiver hrc
  rw [carriesTimer_iff httl, hdelivered, hafter, hat]

/-- A zeroed record has no timer after decryption, and is never due. Assumes: the return code 0. -/
theorem koeMessageDecrypt_zero_timer {S : Sodium} {alloc : Bool} {now : ℤ} {pkt : Packet}
    {sess : Session} (hrc : (koeMessageDecrypt S alloc now Message.zero pkt sess).1 = 0) :
    let decrypted := koeMessageDecrypt S alloc now Message.zero pkt sess
    decrypted.2.deliveredAt = now ∧ decrypted.2.destructAfterSeconds = 0 ∧
      decrypted.2.destructAt = 0 ∧ ∀ time, koeMessageShouldDestruct time decrypted.2 = 0 := by
  intro decrypted
  obtain ⟨-, hafter, hat⟩ := koeMessageDecrypt_frame S alloc now Message.zero pkt sess
  have hnone : decrypted.2.destructAfterSeconds = 0 := hafter
  refine ⟨koeMessageDecrypt_deliveredAt S alloc now Message.zero pkt sess hrc, hnone, hat, ?_⟩
  intro time
  rw [koeMessageShouldDestruct, if_pos hnone]

/-- The packet of the two bytes with a time to live of a minute, set when the clock reads 0. -/
def timedPacket : Packet :=
  (koeMessageEncrypt Sodium.transparent ⟨Block.zero 24, true⟩
    (koeMessageSetDestruct 0 hiMessage 60) Session.zero).2

theorem timedPacket_decrypts (record : Message) :
    (koeMessageDecrypt Sodium.transparent true 7 record timedPacket Session.zero).1 = 0 := by
  have hyields : timedPacket.Yields Sodium.transparent Session.zero [0x68, 0x69] := by
    refine (Packet.yields_iff Sodium.transparent_aead timedPacket Session.zero _).mpr ⟨?_, ?_, ?_⟩
    · decide
    · rfl
    · rfl
  exact (hyields 7 record).1

/-- A record that happens to have this timer when the packet is decrypted still has it then. -/
theorem timedPacket_carriesTimer :
    let encrypted := koeMessageEncrypt Sodium.transparent ⟨Block.zero 24, true⟩
      (koeMessageSetDestruct 0 hiMessage 60) Session.zero
    let decrypted := koeMessageDecrypt Sodium.transparent true 7
      { Message.zero with destructAfterSeconds := 60, destructAt := 67 } encrypted.2 Session.zero
    CarriesTimer 60 decrypted.2.deliveredAt decrypted.2 :=
  (koeMessageDecrypt_carriesTimer_iff (by decide) 0 hiMessage ⟨Block.zero 24, true⟩ rfl
    (timedPacket_decrypts _)).mpr ⟨rfl, rfl⟩

/-- The two bytes arrive without their timer, and are not due when the minute is over. -/
theorem timedPacket_timer_lost :
    let decrypted := koeMessageDecrypt Sodium.transparent true 7 Message.zero timedPacket
      Session.zero
    decrypted.1 = 0 ∧ decrypted.2.deliveredAt = 7 ∧ decrypted.2.destructAfterSeconds = 0 ∧
      decrypted.2.destructAt = 0 ∧ koeMessageShouldDestruct (7 + 60) decrypted.2 = 0 := by
  have hrc := timedPacket_decrypts Message.zero
  -- The packet is not evaluated any further.
  generalize timedPacket = pkt at hrc ⊢
  obtain ⟨hdelivered, hafter, hat, hdue⟩ := koeMessageDecrypt_zero_timer hrc
  exact ⟨hrc, hdelivered, hafter, hat, hdue (7 + 60)⟩

end KoeCore
