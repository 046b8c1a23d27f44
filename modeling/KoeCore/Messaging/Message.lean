import KoeCore.Protocol.Crypto
import KoeCore.Protocol.Packet

/-!
# Application messages

`koe_message.c`: the message record, its allocation and signature, and the two functions that turn
a message into a packet and back.

The environment of a call is explicit: the nonce that `koe_nonce_generate` draws and the outcome of
`malloc` (`BuildEnv`), the clock, and the counter that `generate_message_id` keeps in a global.
A body is a heap buffer with a separate length, and a call reads `bodyLen` bytes of it
(`Message.bodyBytes`).

The failure branches of `koeMessageDecrypt` all lie before its first write, so a rejected packet
leaves the record alone (`koeMessageDecrypt_eq_of_neg`). `Packet.yields_iff` says what a packet has
to carry for its body to come out.
-/

set_option autoImplicit false
set_option relaxedAutoImplicit false

namespace KoeCore

open ByteWire

/-- `koe_msg_type_t`. -/
inductive MsgType
  | text | audio | media | group
deriving DecidableEq, Repr

/-- `koe_msg_status_t`. -/
inductive MsgStatus
  | pending | sent | delivered | read | failed
deriving DecidableEq, Repr

/-- `koe_message_t`. -/
structure Message where
  id : UInt64
  type : MsgType
  status : MsgStatus
  fromPk : Block 32
  toPk : Block 32
  body : Option (List UInt8)
  bodyLen : ℕ
  sig : Block 64
  sentAt : ℤ
  deliveredAt : ℤ
  readAt : ℤ
  destructAfterSeconds : UInt32
  destructAt : ℤ
  scheduledAt : ℤ
  isSecret : ℤ
deriving DecidableEq

/-- The record `koe_message_t msg = {0}`. -/
def Message.zero : Message where
  id := 0
  type := .text
  status := .pending
  fromPk := Block.zero 32
  toPk := Block.zero 32
  body := none
  bodyLen := 0
  sig := Block.zero 64
  sentAt := 0
  deliveredAt := 0
  readAt := 0
  destructAfterSeconds := 0
  destructAt := 0
  scheduledAt := 0
  isSecret := 0

/-- The body bytes that a call reads. -/
def Message.bodyBytes (msg : Message) : List UInt8 := (msg.body.getD []).take msg.bodyLen

/-- What a packet builder takes from its environment: the nonce drawn, and whether its `malloc`
succeeds. -/
structure BuildEnv where
  nonce : Block 24
  alloc : Bool

/-- The id and the counter after the call, given a reading of the real-time clock. -/
def generateMessageId (sec nsec counter : UInt64) : UInt64 × UInt64 :=
  let counter := counter + 1
  (sec * 1000000 + nsec / 1000 + counter, counter)

/-- What `koe_message_alloc` takes from its environment: the two clocks, the counter of message
ids, and the outcomes of `calloc` for the record and `malloc` for the body. -/
structure AllocEnv where
  sec : UInt64
  nsec : UInt64
  counter : UInt64
  now : ℤ
  recordAlloc : Bool
  bodyAlloc : Bool

/-- The message, or `none` for `NULL`, and the counter of message ids after the call. -/
def koeMessageAlloc (env : AllocEnv) (type : MsgType) (toPk : Block 32) (body : List UInt8) :
    Option Message × UInt64 :=
  if body.length = 0 then (none, env.counter)
  else if !env.recordAlloc then (none, env.counter)
  else
    let (id, counter) := generateMessageId env.sec env.nsec env.counter
    if !env.bodyAlloc then (none, counter)
    else
      (some { Message.zero with
          id := id
          type := type
          status := .pending
          toPk := toPk
          body := some body
          bodyLen := body.length
          sentAt := env.now }, counter)

/-- The return code, and the message after the call. -/
def koeMessageSign (S : Sodium) (msg : Message) (id : Identity) : ℤ × Message :=
  match koeSign S msg.bodyBytes id with
  | none => (-1, msg)
  | some sig => (0, { msg with sig := sig, fromPk := id.pk })

/-- `0` exactly when the stored signature is the sender's over the body. -/
def koeMessageVerify (S : Sodium) (msg : Message) : ℤ :=
  match msg.body with
  | none => -1
  | some _ => koeVerify S msg.sig msg.bodyBytes msg.fromPk

def koeMessageSetDestruct (now : ℤ) (msg : Message) (ttlSeconds : UInt32) : Message :=
  if ttlSeconds = 0 then msg
  else { msg with destructAfterSeconds := ttlSeconds, destructAt := now + ttlSeconds.toNat }

/-- `1` from the destruct time on, for a message that has a time to live. -/
def koeMessageShouldDestruct (now : ℤ) (msg : Message) : ℤ :=
  if msg.destructAfterSeconds = 0 then 0 else if msg.destructAt ≤ now then 1 else 0

def koeMessageSchedule (msg : Message) (sendAtUnix : ℤ) : Message :=
  { msg with scheduledAt := sendAtUnix }

/-- `crypto_secretbox_MACBYTES`. -/
def cryptoSecretboxMacbytes : ℕ := 16

/-- The return code, and the output packet after the call. -/
def koeMessageEncrypt (S : Sodium) (env : BuildEnv) (msg : Message) (sess : Session) :
    ℤ × Packet :=
  let pkt := koePacketInit PacketType.msg.code PacketFlag.encrypted.mask
  let header :=
    { pkt.header with fromPk := msg.fromPk, toPk := msg.toPk, nonce := env.nonce }
  let ctLen := msg.bodyLen + cryptoSecretboxMacbytes
  if !env.alloc then (-1, ⟨header, none⟩)
  else
    match koeEncrypt S msg.bodyBytes env.nonce sess.txKey with
    | none => (-1, ⟨header, none⟩)
    | some ct =>
      (0,
        ⟨{ header with
            length := UInt32.ofNat ctLen
            flags := header.flags ||| PacketFlag.signed.mask }, some ct⟩)

/-- The record after a packet was decrypted into it. -/
def Message.filled (msg : Message) (now : ℤ) (pkt : Packet) (plain : List UInt8) : Message :=
  { msg with
    body := some plain
    bodyLen := pkt.header.length.toNat - cryptoSecretboxMacbytes
    fromPk := pkt.header.fromPk
    toPk := pkt.header.toPk
    status := .delivered
    deliveredAt := now }

/-- The return code, and the message after the call. A `NULL` payload with a positive length, which
the C code would dereference, counts as a rejected ciphertext. -/
def koeMessageDecrypt (S : Sodium) (alloc : Bool) (now : ℤ) (msg : Message) (pkt : Packet)
    (sess : Session) : ℤ × Message :=
  if pkt.header.flags &&& PacketFlag.encrypted.mask = 0 then (-1, msg)
  else if pkt.header.length.toNat < cryptoSecretboxMacbytes then (-1, msg)
  else if !alloc then (-1, msg)
  else
    match koeDecrypt S pkt.payloadBytes pkt.header.nonce sess.rxKey with
    | none => (-1, msg)
    | some plain => (0, msg.filled now pkt plain)

section Decrypt

variable {S : Sodium} {alloc : Bool} {now : ℤ} {msg : Message} {pkt : Packet} {sess : Session}

variable (S alloc now msg pkt sess) in
/-- What a decryption can do: leave the record alone, or fill it with the plaintext. -/
theorem koeMessageDecrypt_cases :
    koeMessageDecrypt S alloc now msg pkt sess = (-1, msg) ∨
      ∃ plain, koeDecrypt S pkt.payloadBytes pkt.header.nonce sess.rxKey = some plain ∧
        koeMessageDecrypt S alloc now msg pkt sess = (0, msg.filled now pkt plain) := by
  unfold koeMessageDecrypt
  split_ifs with hflag hlength halloc
  · exact Or.inl rfl
  · exact Or.inl rfl
  · exact Or.inl rfl
  · cases koeDecrypt S pkt.payloadBytes pkt.header.nonce sess.rxKey with
    | none => exact Or.inl rfl
    | some plain => exact Or.inr ⟨plain, rfl, rfl⟩

/-- A rejected packet leaves the record exactly as it was. Assumes: the return code `-1`. -/
theorem koeMessageDecrypt_eq_of_neg
    (hrc : (koeMessageDecrypt S alloc now msg pkt sess).1 = -1) :
    (koeMessageDecrypt S alloc now msg pkt sess).2 = msg := by
  rcases koeMessageDecrypt_cases S alloc now msg pkt sess with hcall | ⟨plain, -, hcall⟩
  · rw [hcall]
  · exact absurd ((congrArg Prod.fst hcall).symm.trans hrc) (show (0 : ℤ) ≠ -1 by decide)

variable (S alloc now msg pkt sess) in
/-- Decryption writes the body, the two keys, the status and the time of delivery, never the
signature or the self-destruct timer. -/
theorem koeMessageDecrypt_frame :
    (koeMessageDecrypt S alloc now msg pkt sess).2.sig = msg.sig ∧
      (koeMessageDecrypt S alloc now msg pkt sess).2.destructAfterSeconds =
        msg.destructAfterSeconds ∧
      (koeMessageDecrypt S alloc now msg pkt sess).2.destructAt = msg.destructAt := by
  rcases koeMessageDecrypt_cases S alloc now msg pkt sess with hcall | ⟨plain, -, hcall⟩
  · rw [hcall]
    exact ⟨rfl, rfl, rfl⟩
  · rw [hcall]
    exact ⟨rfl, rfl, rfl⟩

/-- Assumes: the return code `0`. -/
theorem koeMessageDecrypt_filled (hrc : (koeMessageDecrypt S alloc now msg pkt sess).1 = 0) :
    ∃ plain, koeDecrypt S pkt.payloadBytes pkt.header.nonce sess.rxKey = some plain ∧
      (koeMessageDecrypt S alloc now msg pkt sess).2 = msg.filled now pkt plain := by
  rcases koeMessageDecrypt_cases S alloc now msg pkt sess with hcall | ⟨plain, hplain, hcall⟩
  · exact absurd ((congrArg Prod.fst hcall).symm.trans hrc) (show (-1 : ℤ) ≠ 0 by decide)
  · exact ⟨plain, hplain, congrArg Prod.snd hcall⟩

variable (S alloc now msg pkt sess) in
/-- Assumes: the return code `0`. -/
theorem koeMessageDecrypt_deliveredAt
    (hrc : (koeMessageDecrypt S alloc now msg pkt sess).1 = 0) :
    (koeMessageDecrypt S alloc now msg pkt sess).2.deliveredAt = now := by
  obtain ⟨plain, -, hfilled⟩ := koeMessageDecrypt_filled hrc
  rw [hfilled, Message.filled]

end Decrypt

/-- The packet decrypts under the session to the body, given memory for it. -/
def Packet.Yields (S : Sodium) (sess : Session) (body : List UInt8) (pkt : Packet) : Prop :=
  ∀ (now : ℤ) (msg : Message), (koeMessageDecrypt S true now msg pkt sess).1 = 0 ∧
    (koeMessageDecrypt S true now msg pkt sess).2.body = some body ∧
    (koeMessageDecrypt S true now msg pkt sess).2.bodyLen = body.length

/-- The packets that decrypt to a body: they are marked as encrypted, carry its ciphertext under the
receiving key and announce its length. Assumes: a correct AEAD. -/
theorem Packet.yields_iff {S : Sodium} (haead : S.Aead) (pkt : Packet) (sess : Session)
    (body : List UInt8) :
    pkt.Yields S sess body ↔
      pkt.header.flags &&& PacketFlag.encrypted.mask ≠ 0 ∧
        koeEncrypt S body pkt.header.nonce sess.rxKey = some pkt.payloadBytes ∧
        pkt.header.length.toNat = body.length + cryptoSecretboxMacbytes := by
  constructor
  · intro hyields
    obtain ⟨hrc, hbody, hlen⟩ := hyields 0 Message.zero
    unfold koeMessageDecrypt at hrc hbody hlen
    by_cases hflag : pkt.header.flags &&& PacketFlag.encrypted.mask = 0
    · rw [if_pos hflag] at hrc
      exact absurd hrc (by simp)
    rw [if_neg hflag] at hrc hbody hlen
    by_cases hshort : pkt.header.length.toNat < cryptoSecretboxMacbytes
    · rw [if_pos hshort] at hrc
      exact absurd hrc (by simp)
    rw [if_neg hshort] at hbody hlen
    rcases hplain : koeDecrypt S pkt.payloadBytes pkt.header.nonce sess.rxKey with _ | plain
    · rw [hplain] at hbody
      exact absurd hbody (by simp [Message.zero])
    · rw [hplain] at hbody hlen
      obtain rfl : plain = body := Option.some.inj hbody
      have hbodyLen : pkt.header.length.toNat - cryptoSecretboxMacbytes = plain.length := hlen
      exact ⟨hflag, (koeDecrypt_eq_some_iff haead _ _ _ _).mp hplain, by omega⟩
  · rintro ⟨hflag, hsealed, hlength⟩ now msg
    have hshort : ¬ pkt.header.length.toNat < cryptoSecretboxMacbytes := by omega
    have hplain : koeDecrypt S pkt.payloadBytes pkt.header.nonce sess.rxKey = some body :=
      koeDecrypt_koeEncrypt haead hsealed
    have hlen : pkt.header.length.toNat - cryptoSecretboxMacbytes = body.length := by omega
    unfold koeMessageDecrypt
    rw [if_neg hflag, if_neg hshort, hplain]
    exact ⟨rfl, rfl, hlen⟩

/-- The packet of a message: its header carries the sender, the recipient, the nonce and the length
of the ciphertext, and no checksum. -/
def messagePacket (msg : Message) (nonce : Block 24) (ct : List UInt8) : Packet where
  header :=
    { (koePacketInit PacketType.msg.code
        (PacketFlag.encrypted.mask ||| PacketFlag.signed.mask)).header with
      fromPk := msg.fromPk
      toPk := msg.toPk
      nonce := nonce
      length := UInt32.ofNat (msg.bodyLen + cryptoSecretboxMacbytes) }
  payload := some ct

/-- The packet of a message announces its whole ciphertext. Assumes: a correct AEAD, a message whose
body length is that of its body, its ciphertext, and a length that fits 32 bits. -/
theorem messagePacket_announces {S : Sodium} (haead : S.Aead) {msg : Message}
    {body ct : List UInt8} (hlen : msg.bodyLen = body.length) {nonce : Block 24} {key : Block 32}
    (hct : koeEncrypt S body nonce key = some ct) (hsize : body.length + 16 < 2 ^ 32) :
    (messagePacket msg nonce ct).header.length.toNat = ct.length := by
  change (UInt32.ofNat (msg.bodyLen + cryptoSecretboxMacbytes)).toNat = ct.length
  rw [UInt32.toNat_ofNat', hlen, cryptoSecretboxMacbytes, Nat.mod_eq_of_lt hsize]
  exact (haead.length_sealed hct).symm

/-- What `koe_message_encrypt` returns when it succeeds. Assumes: the ciphertext of the body under
the sending key. -/
theorem koeMessageEncrypt_eq {S : Sodium} {env : BuildEnv} {msg : Message} {sess : Session}
    {ct : List UInt8} (halloc : env.alloc = true)
    (hct : koeEncrypt S msg.bodyBytes env.nonce sess.txKey = some ct) :
    koeMessageEncrypt S env msg sess = (0, messagePacket msg env.nonce ct) := by
  simp only [koeMessageEncrypt, halloc, hct]
  rfl

end KoeCore
