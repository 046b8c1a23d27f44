import KoeCore.Protocol.Packet

/-!
# The packet codec round trip

`koe_packet_serialise` and `koe_packet_deserialise` are two offset walks over the same fields. The
bytes the first one writes are `Packet.wire`; reading a header off these bytes returns its fields
(`Header.ofWire_wire`), with the two reserved bytes as zero. `koePacketDeserialise_bytes` says what
the decoder makes of a header and its payload, and it accepts the bytes of a packet with any bytes
behind them (`koePacketDeserialise_wire`). Together they give the round trip for packets
whose payload fits and is within the cap (`koePacketDeserialise_koePacketSerialise`).

Validation does not read the reserved bytes (`koePacketValidate_received`), so it gives the same
verdict on both sides of the trip.
-/

set_option autoImplicit false
set_option relaxedAutoImplicit false

namespace KoeCore

open ByteWire

/-- The packet with its reserved bytes cleared, what arrives at the other end of the wire. -/
def Packet.received (pkt : Packet) : Packet where
  header := { pkt.header with reserved := Block.zero 2 }
  payload := pkt.payload

/-- Reading a header off its wire bytes returns the header with the reserved bytes cleared. -/
theorem Header.ofWire_wire (hdr : Header) (rest : List UInt8) :
    Header.ofWire (hdr.wire ++ rest) = { hdr with reserved := Block.zero 2 } := by
  have hmagic : readAt 4 0 (hdr.wire ++ rest) = hdr.magic :=
    readAt_of_eq [] _ (by simp only [Header.wire, Header.covered, List.append_assoc]; rfl) rfl
  have hmajor : byteAt 4 (hdr.wire ++ rest) = hdr.protoMajor :=
    byteAt_of_eq hdr.magic.toList _
      (by simp only [Header.wire, Header.covered, List.append_assoc]; rfl) (by simp)
  have hminor : byteAt 5 (hdr.wire ++ rest) = hdr.protoMinor :=
    byteAt_of_eq (hdr.magic.toList ++ [hdr.protoMajor]) _
      (by simp only [Header.wire, Header.covered, List.append_assoc]; rfl) (by simp)
  have htype : byteAt 6 (hdr.wire ++ rest) = hdr.type :=
    byteAt_of_eq (hdr.magic.toList ++ [hdr.protoMajor] ++ [hdr.protoMinor]) _
      (by simp only [Header.wire, Header.covered, List.append_assoc]; rfl) (by simp)
  have hflags : byteAt 7 (hdr.wire ++ rest) = hdr.flags :=
    byteAt_of_eq (hdr.magic.toList ++ [hdr.protoMajor] ++ [hdr.protoMinor] ++ [hdr.type]) _
      (by simp only [Header.wire, Header.covered, List.append_assoc]; rfl) (by simp)
  -- From here on the fields lie behind the eight bytes of `front`.
  let front := hdr.magic.toList ++ [hdr.protoMajor] ++ [hdr.protoMinor] ++ [hdr.type] ++ [hdr.flags]
  have hlength : readAt 4 8 (hdr.wire ++ rest) = be32 hdr.length :=
    readAt_of_eq front _
      (by simp only [front, Header.wire, Header.covered, List.append_assoc]; rfl)
      (by simp [front])
  have hfrom : readAt 32 12 (hdr.wire ++ rest) = hdr.fromPk :=
    readAt_of_eq (front ++ (be32 hdr.length).toList) _
      (by simp only [front, Header.wire, Header.covered, List.append_assoc]; rfl)
      (by simp [front])
  have hto : readAt 32 44 (hdr.wire ++ rest) = hdr.toPk :=
    readAt_of_eq (front ++ (be32 hdr.length).toList ++ hdr.fromPk.toList) _
      (by simp only [front, Header.wire, Header.covered, List.append_assoc]; rfl)
      (by simp [front])
  have hnonce : readAt 24 76 (hdr.wire ++ rest) = hdr.nonce :=
    readAt_of_eq (front ++ (be32 hdr.length).toList ++ hdr.fromPk.toList ++ hdr.toPk.toList) _
      (by simp only [front, Header.wire, Header.covered, List.append_assoc]; rfl)
      (by simp [front])
  have hchecksum : readAt 4 100 (hdr.wire ++ rest) = be32 hdr.checksum :=
    readAt_of_eq hdr.covered _ (by simp only [Header.wire, List.append_assoc]; rfl) (by simp)
  simp only [Header.ofWire, hmagic, hmajor, hminor, htype, hflags, hlength, hfrom, hto, hnonce,
    hchecksum, ofBe32_be32]

/-- The covered bytes of a header that was read off a buffer are the first 100 of the buffer.
Assumes: a buffer of at least 100 bytes. -/
theorem Header.covered_ofWire {buf : List UInt8} (hlength : 100 ≤ buf.length) :
    (Header.ofWire buf).covered = buf.take 100 := by
  have hfield (n off : ℕ) (hfits : off + n ≤ 100) :
      (readAt n off buf).toList = (buf.drop off).take n :=
    toList_readAt (hfits.trans hlength)
  have hbyte (off : ℕ) (hfits : off < 100) : [byteAt off buf] = (buf.drop off).take 1 :=
    singleton_byteAt (Nat.lt_of_lt_of_le hfits hlength)
  have hstart : (buf.drop 0).take 4 = buf.take 4 := rfl
  simp only [Header.covered, Header.ofWire, be32_ofBe32]
  rw [hfield 4 0 (by decide), hbyte 4 (by decide), hbyte 5 (by decide), hbyte 6 (by decide),
    hbyte 7 (by decide), hfield 4 8 (by decide), hfield 32 12 (by decide),
    hfield 32 44 (by decide), hfield 24 76 (by decide), hstart]
  simp only [← List.take_add]

/-- What the decoder makes of a header and the bytes that it announces, whatever follows them: it
accepts lengths within the cap, and an empty payload is decoded as a missing one. Assumes: as many
bytes as the header announces. -/
theorem koePacketDeserialise_bytes (hdr : Header) {bytes : List UInt8}
    (hlength : bytes.length = hdr.length.toNat) (trailing : List UInt8) (out : Packet) :
    koePacketDeserialise true out (hdr.wire ++ (bytes ++ trailing)) =
      if hdr.length.toNat ≤ koeMaxPayload then
        (0, ⟨{ hdr with reserved := Block.zero 2 }, if 0 < hdr.length then some bytes else none⟩)
      else (-1, ⟨{ hdr with reserved := Block.zero 2 }, none⟩) := by
  have hsize : (hdr.wire ++ (bytes ++ trailing)).length =
      koeHeaderSize + hdr.length.toNat + trailing.length := by
    rw [List.length_append, List.length_append, Header.length_wire, hlength, Nat.add_assoc]
  have hshort : ¬ (hdr.wire ++ (bytes ++ trailing)).length < koeHeaderSize := by omega
  have hroom : ¬ (hdr.wire ++ (bytes ++ trailing)).length < koeHeaderSize + hdr.length.toNat := by
    omega
  have htail : ((hdr.wire ++ (bytes ++ trailing)).drop koeHeaderSize).take hdr.length.toNat =
      bytes := by
    rw [← Header.length_wire hdr, List.drop_left, ← hlength, List.take_left]
  simp only [koePacketDeserialise, if_neg hshort, Header.ofWire_wire, if_neg hroom, htail]
  by_cases hpos : 0 < hdr.length
  · by_cases hmax : hdr.length.toNat ≤ koeMaxPayload
    · simp [hpos, hmax]
    · simp [hpos, hmax, Nat.lt_of_not_le hmax]
  · have hzero : hdr.length = 0 := by
      rw [UInt32.lt_iff_toNat_lt] at hpos
      exact UInt32.toNat_inj.mp (Nat.eq_zero_of_not_pos hpos)
    simp [hzero]

/-- The decoder accepts the wire bytes of a packet, whatever follows them. Assumes: a payload that
fits and is within the cap. -/
theorem koePacketDeserialise_wire {pkt : Packet} (hfits : pkt.PayloadFits)
    (hmax : pkt.header.length.toNat ≤ koeMaxPayload) (trailing : List UInt8) (out : Packet) :
    koePacketDeserialise true out (pkt.wire ++ trailing) = (0, pkt.received) := by
  rw [Packet.wire, List.append_assoc]
  cases hpayload : pkt.payload with
  | none =>
    have hzero : pkt.header.length = 0 := hfits.1.mp hpayload
    have hbytes : pkt.payloadBytes = [] := by simp [Packet.payloadBytes, hpayload]
    rw [hbytes, koePacketDeserialise_bytes pkt.header (by simp [hzero]), if_pos hmax]
    simp [hzero, Packet.received, hpayload]
  | some bytes =>
    have hlength : bytes.length = pkt.header.length.toNat := hfits.2 bytes hpayload
    have hpos : 0 < pkt.header.length := by
      rw [UInt32.lt_iff_toNat_lt]
      refine Nat.pos_of_ne_zero fun hzero ↦ ?_
      have hnull := hfits.1.mpr (UInt32.toNat_inj.mp hzero)
      rw [hpayload] at hnull
      exact absurd hnull (by simp)
    rw [Packet.payloadBytes_eq hpayload hlength.symm, koePacketDeserialise_bytes _ hlength,
      if_pos hmax, if_pos hpos, Packet.received, hpayload]

/-- Validation does not read the reserved bytes. -/
theorem koePacketValidate_received (pkt : Packet) :
    koePacketValidate pkt.received = koePacketValidate pkt := rfl

/-- A fitting payload is on the wire as a whole. Assumes: a payload that fits. -/
theorem Packet.length_wire {pkt : Packet} (hfits : pkt.PayloadFits) :
    pkt.wire.length = koeHeaderSize + pkt.header.length.toNat := by
  rw [Packet.wire, List.length_append, Header.length_wire, Packet.payloadBytes, List.length_take]
  cases hpayload : pkt.payload with
  | none => simp [hfits.1.mp hpayload]
  | some bytes => simp [hfits.2 bytes hpayload]

/-- Within the cap the reserved size does not wrap. Assumes: a payload within the cap. -/
theorem Packet.reserved32_eq {pkt : Packet} (hmax : pkt.header.length.toNat ≤ koeMaxPayload) :
    pkt.reserved32 = koeHeaderSize + pkt.header.length.toNat := by
  unfold Packet.reserved32
  refine Nat.mod_eq_of_lt ?_
  simp only [koeHeaderSize, koeMaxPayload] at hmax ⊢
  omega

/-- Serialisation of a packet within the cap returns its size and writes its wire bytes. Assumes: a
payload within the cap, and a buffer that has room. -/
theorem koePacketSerialise_of_fits {pkt : Packet} (hmax : pkt.header.length.toNat ≤ koeMaxPayload)
    {buf : List UInt8} (hbuf : koeHeaderSize + pkt.header.length.toNat ≤ buf.length) :
    koePacketSerialise pkt buf =
      ((koeHeaderSize : ℤ) + pkt.header.length.toNat, pkt.wire ++ buf.drop pkt.wire.length) := by
  have hreserved := Packet.reserved32_eq hmax
  have hreturn : Int.bmod pkt.reserved32 (2 ^ 32) = koeHeaderSize + pkt.header.length.toNat := by
    rw [hreserved]
    simp only [koeHeaderSize, koeMaxPayload] at hmax ⊢
    rw [Int.bmod_eq_of_le] <;> omega
  rw [koePacketSerialise_eq pkt (hreserved ▸ hbuf), hreturn]

/-- Into a buffer of its size, a packet is written as its wire bytes and nothing else. Assumes: a
payload that fits and is within the cap. -/
theorem koePacketSerialise_exact {pkt : Packet} (hfits : pkt.PayloadFits)
    (hmax : pkt.header.length.toNat ≤ koeMaxPayload) {buf : List UInt8}
    (hbuf : buf.length = koeHeaderSize + pkt.header.length.toNat) :
    koePacketSerialise pkt buf = ((koeHeaderSize : ℤ) + pkt.header.length.toNat, pkt.wire) := by
  have hnothing : buf.drop pkt.wire.length = [] := by
    rw [List.drop_eq_nil_iff, Packet.length_wire hfits, hbuf]
  rw [koePacketSerialise_of_fits hmax (Nat.le_of_eq hbuf.symm), hnothing, List.append_nil]

/-- What is decoded from a serialised packet, whatever its payload: the header with the reserved
bytes cleared, and a return code that tells lengths within the cap from others. Assumes: a buffer
that has room. -/
theorem koePacketDeserialise_serialised (pkt : Packet) {buf : List UInt8}
    (hbuf : koeHeaderSize + pkt.header.length.toNat ≤ buf.length) (out : Packet) :
    ∃ payload, koePacketDeserialise true out
        ((koePacketSerialise pkt buf).2.take (koeHeaderSize + pkt.header.length.toNat)) =
      (if pkt.header.length.toNat ≤ koeMaxPayload then 0 else -1,
        ⟨{ pkt.header with reserved := Block.zero 2 }, payload⟩) := by
  have hreserved : pkt.reserved32 ≤ buf.length := (Nat.mod_le _ _).trans hbuf
  rw [koePacketSerialise_eq pkt hreserved]
  let rest := pkt.payloadBytes ++ buf.drop pkt.wire.length
  have hbytes : (pkt.wire ++ buf.drop pkt.wire.length).take
      (koeHeaderSize + pkt.header.length.toNat) =
        pkt.header.wire ++ (rest.take pkt.header.length.toNat ++ []) := by
    rw [Packet.wire, List.append_assoc, ← Header.length_wire pkt.header,
      List.take_length_add_append, List.append_nil]
    rfl
  have hrest : (rest.take pkt.header.length.toNat).length = pkt.header.length.toNat := by
    have hwire : pkt.wire.length = koeHeaderSize + pkt.payloadBytes.length := by
      rw [Packet.wire, List.length_append, Header.length_wire]
    simp only [rest, List.length_append, List.length_take, List.length_drop, hwire]
    omega
  simp only [hbytes, koePacketDeserialise_bytes pkt.header hrest]
  by_cases hmax : pkt.header.length.toNat ≤ koeMaxPayload
  · rw [if_pos hmax, if_pos hmax]
    exact ⟨_, rfl⟩
  · rw [if_neg hmax, if_neg hmax]
    exact ⟨_, rfl⟩

/-- The wire codec round trip. Assumes: a payload that fits and is within the cap, and a buffer of
at least 106 bytes more than the payload. Serialisation returns the size of the packet; its bytes,
with anything behind them, are decoded to the same packet with the reserved bytes cleared, and
validation gives the same verdict on both. -/
theorem koePacketDeserialise_koePacketSerialise {pkt : Packet} (hfits : pkt.PayloadFits)
    (hmax : pkt.header.length.toNat ≤ koeMaxPayload) {buf : List UInt8}
    (hbuf : koeHeaderSize + pkt.header.length.toNat ≤ buf.length) (trailing : List UInt8)
    (out : Packet) :
    (koePacketSerialise pkt buf).1 = koeHeaderSize + pkt.header.length.toNat ∧
      koePacketDeserialise true out
          ((koePacketSerialise pkt buf).2.take (koeHeaderSize + pkt.header.length.toNat) ++
            trailing) =
        (0, ⟨{ pkt.header with reserved := Block.zero 2 }, pkt.payload⟩) ∧
      koePacketValidate ⟨{ pkt.header with reserved := Block.zero 2 }, pkt.payload⟩ =
        koePacketValidate pkt := by
  have hserialise := koePacketSerialise_of_fits hmax hbuf
  refine ⟨?_, ?_, koePacketValidate_received pkt⟩
  · rw [hserialise]
  · rw [hserialise, ← Packet.length_wire hfits, List.take_left]
    exact koePacketDeserialise_wire hfits hmax trailing out

/-- A PING packet with the body `"ping body"`, NUL included. -/
def pingPacket : Packet where
  header :=
    let header := { (koePacketInit PacketType.ping.code 0).header with length := 10 }
    { header with checksum := koePacketChecksum header }
  payload := some [0x70, 0x69, 0x6E, 0x67, 0x20, 0x62, 0x6F, 0x64, 0x79, 0]

/-- The PING packet survives the trip through a buffer of exactly its size, with one byte of the
next packet behind it. -/
theorem pingPacket_roundTrip :
    koePacketDeserialise true Packet.zero
        ((koePacketSerialise pingPacket (List.replicate 116 0)).2.take 116 ++ [0x4B]) =
      (0, pingPacket) := by
  have hfits : pingPacket.PayloadFits := by decide
  have hbuf : koeHeaderSize + pingPacket.header.length.toNat ≤
      (List.replicate 116 (0 : UInt8)).length := by
    decide
  exact (koePacketDeserialise_koePacketSerialise hfits (by decide) hbuf [0x4B] Packet.zero).2.1

end KoeCore
