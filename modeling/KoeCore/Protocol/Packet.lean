import KoeCore.Library.Wire
import KoeCore.Protocol.Version
import Mathlib.Logic.Function.Iterate

/-!
# Wire packets

The packet format of `koe_packet.h` and the functions of `koe_packet.c` up to fragmentation. A
packet is a header of 106 bytes on the wire and a payload of `header.length` bytes.

The payload of a packet in memory is a pointer: `none` is `NULL`, and `some bytes` a heap buffer
with these bytes. Nothing ties the size of the buffer to `header.length`; a packet for which they
agree has a fitting payload (`Packet.PayloadFits`). `Packet.wire` is the byte string the format
assigns to a packet, and `koePacketSerialise` writes it (`koePacketSerialise_eq`).

The C expression `KOE_HEADER_SIZE + pkt->header.length` is computed in 32 bits, so the size that
`koe_packet_serialise` and its callers reserve wraps for lengths near `2 ^ 32`
(`Packet.reserved32`); the walk then leaves the buffer, and the buffer here grows.
-/

set_option autoImplicit false
set_option relaxedAutoImplicit false

namespace KoeCore

open ByteWire

/-! ### The format -/

/-- `koe_packet_type_t`. -/
inductive PacketType
  | hello | helloAck | ack | msg | audio | ping | pong | queue | destruct | channel | migrate
  | backupAck | verify | revoke | mediaOffer | mediaAck | mediaChunk | mediaDone | groupMeta
  | presence | typing | read
deriving DecidableEq, Repr

/-- The value of a packet type in the header. -/
def PacketType.code : PacketType → UInt8
  | .hello => 0x01
  | .helloAck => 0x02
  | .ack => 0x03
  | .msg => 0x04
  | .audio => 0x05
  | .ping => 0x06
  | .pong => 0x07
  | .queue => 0x08
  | .destruct => 0x09
  | .channel => 0x0A
  | .migrate => 0x0B
  | .backupAck => 0x0C
  | .verify => 0x0D
  | .revoke => 0x0E
  | .mediaOffer => 0x0F
  | .mediaAck => 0x10
  | .mediaChunk => 0x11
  | .mediaDone => 0x12
  | .groupMeta => 0x13
  | .presence => 0x14
  | .typing => 0x15
  | .read => 0x16

/-- `koe_packet_flags_t`. -/
inductive PacketFlag
  | encrypted | signed | fragmented | lastFrag | compressed | ephemeral | scheduled | relay
deriving DecidableEq, Repr

/-- The bit of a flag in the header. -/
def PacketFlag.mask : PacketFlag → UInt8
  | .encrypted => 0x01
  | .signed => 0x02
  | .fragmented => 0x04
  | .lastFrag => 0x08
  | .compressed => 0x10
  | .ephemeral => 0x20
  | .scheduled => 0x40
  | .relay => 0x80

/-- `KOE_MAGIC`. -/
def koeMagic : Block 4 := ⟨[0x4B, 0x4F, 0x45, 0x01], rfl⟩

/-- `KOE_HEADER_SIZE`. -/
def koeHeaderSize : ℕ := 106

/-- `KOE_MAX_PAYLOAD`. -/
def koeMaxPayload : ℕ := 1024 * 1024

/-- `koe_header_t`. -/
structure Header where
  magic : Block 4
  protoMajor : UInt8
  protoMinor : UInt8
  type : UInt8
  flags : UInt8
  length : UInt32
  fromPk : Block 32
  toPk : Block 32
  nonce : Block 24
  checksum : UInt32
  reserved : Block 2
deriving DecidableEq

/-- `koe_packet_t`. -/
structure Packet where
  header : Header
  payload : Option (List UInt8)
deriving DecidableEq

/-- The packet that `memset(.., 0, ..)` leaves. -/
def Packet.zero : Packet where
  header :=
    { magic := Block.zero 4, protoMajor := 0, protoMinor := 0, type := 0, flags := 0, length := 0,
      fromPk := Block.zero 32, toPk := Block.zero 32, nonce := Block.zero 24, checksum := 0,
      reserved := Block.zero 2 }
  payload := none

/-- The payload is `NULL` exactly when the header announces no bytes, and has the announced number
of bytes otherwise. -/
def Packet.PayloadFits (pkt : Packet) : Prop :=
  (pkt.payload = none ↔ pkt.header.length = 0) ∧
    ∀ bytes, pkt.payload = some bytes → bytes.length = pkt.header.length.toNat

instance (pkt : Packet) : Decidable pkt.PayloadFits :=
  match hpayload : pkt.payload with
  | none => decidable_of_iff (pkt.header.length = 0) (by simp [Packet.PayloadFits, hpayload])
  | some bytes =>
    decidable_of_iff (pkt.header.length ≠ 0 ∧ bytes.length = pkt.header.length.toNat)
      (by simp [Packet.PayloadFits, hpayload])

def koePacketInit (type flags : UInt8) : Packet where
  header :=
    { Packet.zero.header with
      magic := koeMagic
      protoMajor := koeProtoMajor
      protoMinor := koeProtoMinor
      type := type
      flags := flags }
  payload := none

def koePacketFree (pkt : Packet) : Packet where
  header := { pkt.header with length := 0 }
  payload := none

/-! ### The checksum -/

/-- One bit of `crc32_init`. -/
def crc32Bit (c : UInt32) : UInt32 :=
  if c &&& 1 ≠ 0 then (0xEDB88320 : UInt32) ^^^ (c >>> 1) else c >>> 1

/-- `crc32_table[i]`, which `crc32_init` fills before the first lookup. -/
def crc32Table (i : UInt32) : UInt32 := crc32Bit^[8] i

def crc32 (buf : List UInt8) : UInt32 :=
  (buf.foldl (fun c byte ↦ crc32Table ((c ^^^ byte.toUInt32) &&& 0xFF) ^^^ (c >>> 8)) 0xFFFFFFFF)
    ^^^ 0xFFFFFFFF

/-- The first 100 bytes of a header on the wire, those before the checksum. -/
def Header.covered (hdr : Header) : List UInt8 :=
  hdr.magic.toList ++ [hdr.protoMajor] ++ [hdr.protoMinor] ++ [hdr.type] ++ [hdr.flags] ++
    (be32 hdr.length).toList ++ hdr.fromPk.toList ++ hdr.toPk.toList ++ hdr.nonce.toList

def koePacketChecksum (hdr : Header) : UInt32 := crc32 hdr.covered

/-- The checksum does not cover itself. -/
theorem koePacketChecksum_checksum (hdr : Header) (checksum : UInt32) :
    koePacketChecksum { hdr with checksum := checksum } = koePacketChecksum hdr := rfl

def koePacketValidate (pkt : Packet) : ℤ :=
  if pkt.header.magic ≠ koeMagic then -1
  else if !koeVersionCompatible koeVersionLocal ⟨pkt.header.protoMajor, pkt.header.protoMinor⟩ then
    -1
  else if koePacketChecksum pkt.header ≠ pkt.header.checksum then -1
  else 0

/-- What validation checks. -/
theorem koePacketValidate_eq_zero_iff (pkt : Packet) :
    koePacketValidate pkt = 0 ↔
      pkt.header.magic = koeMagic ∧
        koeVersionCompatible koeVersionLocal ⟨pkt.header.protoMajor, pkt.header.protoMinor⟩ = true ∧
        koePacketChecksum pkt.header = pkt.header.checksum := by
  unfold koePacketValidate
  split_ifs with hmagic hversion hchecksum
  · simp [hmagic]
  · simp_all
  · simp [hchecksum]
  · simp_all

/-! ### Serialisation -/

/-- The size `KOE_HEADER_SIZE + pkt->header.length`, an `unsigned int`. -/
def Packet.reserved32 (pkt : Packet) : ℕ := (koeHeaderSize + pkt.header.length.toNat) % 2 ^ 32

/-- The payload bytes that the header announces. -/
def Packet.payloadBytes (pkt : Packet) : List UInt8 :=
  (pkt.payload.getD []).take pkt.header.length.toNat

/-- The return code, and the buffer after the call. The length of the list is `buf_len`. -/
def koePacketSerialise (pkt : Packet) (buf : List UInt8) : ℤ × List UInt8 :=
  let total := pkt.reserved32
  if buf.length < total then (-1, buf)
  else
    let cursor := Cursor.mk buf 0
    let cursor := cursor.put pkt.header.magic.toList
    let cursor := cursor.put [pkt.header.protoMajor]
    let cursor := cursor.put [pkt.header.protoMinor]
    let cursor := cursor.put [pkt.header.type]
    let cursor := cursor.put [pkt.header.flags]
    let cursor := cursor.put (be32 pkt.header.length).toList
    let cursor := cursor.put pkt.header.fromPk.toList
    let cursor := cursor.put pkt.header.toPk.toList
    let cursor := cursor.put pkt.header.nonce.toList
    let cursor := cursor.put (be32 pkt.header.checksum).toList
    let cursor := cursor.put [0]
    let cursor := cursor.put [0]
    let cursor :=
      if 0 < pkt.header.length ∧ pkt.payload.isSome then cursor.put pkt.payloadBytes else cursor
    -- `(int)total`, which is negative from `2 ^ 31` on.
    (Int.bmod total (2 ^ 32), cursor.buf)

/-- The header that the first 106 bytes of a buffer describe. -/
def Header.ofWire (buf : List UInt8) : Header where
  magic := readAt 4 0 buf
  protoMajor := byteAt 4 buf
  protoMinor := byteAt 5 buf
  type := byteAt 6 buf
  flags := byteAt 7 buf
  length := ofBe32 (readAt 4 8 buf)
  fromPk := readAt 32 12 buf
  toPk := readAt 32 44 buf
  nonce := readAt 24 76 buf
  checksum := ofBe32 (readAt 4 100 buf)
  reserved := Block.zero 2

/-- The return code, and the packet after the call. `alloc` is whether `malloc` succeeds. -/
def koePacketDeserialise (alloc : Bool) (pkt : Packet) (buf : List UInt8) : ℤ × Packet :=
  if buf.length < koeHeaderSize then (-1, pkt)
  else
    let header := Header.ofWire buf
    if 0 < header.length then
      if buf.length < koeHeaderSize + header.length.toNat then (-1, ⟨header, none⟩)
      else if koeMaxPayload < header.length.toNat then (-1, ⟨header, none⟩)
      else if !alloc then (-1, ⟨header, none⟩)
      else (0, ⟨header, some ((buf.drop koeHeaderSize).take header.length.toNat)⟩)
    else (0, ⟨header, none⟩)

/-! ### What serialisation writes -/

/-- A header on the wire. -/
def Header.wire (hdr : Header) : List UInt8 :=
  hdr.covered ++ (be32 hdr.checksum).toList ++ [0] ++ [0]

/-- A packet on the wire. -/
def Packet.wire (pkt : Packet) : List UInt8 := pkt.header.wire ++ pkt.payloadBytes

@[simp] theorem Header.length_covered (hdr : Header) : hdr.covered.length = 100 := by
  simp [Header.covered]

@[simp] theorem Header.length_wire (hdr : Header) : hdr.wire.length = koeHeaderSize := by
  simp [Header.wire, koeHeaderSize]

/-- Assumes: a payload of the announced length. -/
theorem Packet.payloadBytes_eq {pkt : Packet} {bytes : List UInt8}
    (hpayload : pkt.payload = some bytes) (hlength : pkt.header.length.toNat = bytes.length) :
    pkt.payloadBytes = bytes := by
  rw [Packet.payloadBytes, hpayload, Option.getD_some, hlength, List.take_length]

/-- A missing or empty payload is not copied, and contributes no bytes. -/
theorem Packet.payloadBytes_eq_nil {pkt : Packet}
    (hpayload : ¬ (0 < pkt.header.length ∧ pkt.payload.isSome)) : pkt.payloadBytes = [] := by
  unfold Packet.payloadBytes
  cases hnull : pkt.payload with
  | none => simp
  | some bytes =>
    have hzero : pkt.header.length.toNat = 0 := by
      by_contra hpos
      refine hpayload ⟨?_, by simp [hnull]⟩
      rw [UInt32.lt_iff_toNat_lt]
      exact Nat.pos_of_ne_zero hpos
    simp [hzero]

/-- Serialisation overwrites a prefix of the buffer with the packet's wire bytes. Assumes: a buffer
of at least the reserved size. -/
theorem koePacketSerialise_eq (pkt : Packet) {buf : List UInt8}
    (hbuf : pkt.reserved32 ≤ buf.length) :
    koePacketSerialise pkt buf =
      (Int.bmod pkt.reserved32 (2 ^ 32), pkt.wire ++ buf.drop pkt.wire.length) := by
  have hstart : (Cursor.mk buf 0).off ≤ (Cursor.mk buf 0).buf.length := Nat.zero_le _
  unfold koePacketSerialise
  rw [if_neg (Nat.not_lt.mpr hbuf)]
  simp only [Cursor.put_put hstart, Prod.mk.injEq, true_and]
  split_ifs with hpayload
  · rw [Cursor.put_start]
    rfl
  · rw [Cursor.put_start, Packet.wire, Packet.payloadBytes_eq_nil hpayload, List.append_nil]
    rfl

end KoeCore
