import KoeCore.Protocol.PacketRoundTrip

/-!
# The decoder on arbitrary bytes

`koe_packet_deserialise` is given whatever arrives. `koePacketDeserialiseWalk` is its offset walk
with every read of the buffer checked, and it comes to an answer on every buffer
(`koePacketDeserialiseWalk_eq`): no read leaves the buffer, although the length of the last one is
taken from the buffer.

`koePacketDeserialise_eq_zero_iff` is the set of accepted buffers. On these the decoder is canonical
(`wire_decodedPacket`): the wire bytes of the decoded packet are those that were read, with
the two reserved bytes cleared.
-/

set_option autoImplicit false
set_option relaxedAutoImplicit false

namespace KoeCore

open ByteWire

/-! ### Reads -/

/-- The walk over the header fields, with the offset behind them. -/
def fetchHeader (buf : List UInt8) : Option (Header × ℕ) := do
  let off := 0
  let magic ← fetch 4 off buf
  let off := off + 4
  let protoMajor ← fetchByte off buf
  let off := off + 1
  let protoMinor ← fetchByte off buf
  let off := off + 1
  let type ← fetchByte off buf
  let off := off + 1
  let flags ← fetchByte off buf
  let off := off + 1
  let lenBe ← fetch 4 off buf
  let off := off + 4
  let fromPk ← fetch 32 off buf
  let off := off + 32
  let toPk ← fetch 32 off buf
  let off := off + 32
  let nonce ← fetch 24 off buf
  let off := off + 24
  let ckBe ← fetch 4 off buf
  let off := off + 4
  -- The reserved bytes are skipped.
  let off := off + 2
  some (⟨magic, protoMajor, protoMinor, type, flags, ofBe32 lenBe, fromPk, toPk, nonce,
    ofBe32 ckBe, Block.zero 2⟩, off)

/-- `koe_packet_deserialise` with its offset, where `none` is a read outside the buffer. -/
def koePacketDeserialiseWalk (alloc : Bool) (pkt : Packet) (buf : List UInt8) :
    Option (ℤ × Packet) :=
  if buf.length < koeHeaderSize then some (-1, pkt)
  else do
    let (header, off) ← fetchHeader buf
    if 0 < header.length then
      if buf.length < off + header.length.toNat then some (-1, ⟨header, none⟩)
      else if koeMaxPayload < header.length.toNat then some (-1, ⟨header, none⟩)
      else if !alloc then some (-1, ⟨header, none⟩)
      else do
        let payload ← fetch header.length.toNat off buf
        some (0, ⟨header, some payload.toList⟩)
    else some (0, ⟨header, none⟩)

/-- Assumes: a buffer of at least 106 bytes. -/
theorem fetchHeader_eq {buf : List UInt8} (hlength : koeHeaderSize ≤ buf.length) :
    fetchHeader buf = some (Header.ofWire buf, koeHeaderSize) := by
  have hheader : 106 ≤ buf.length := hlength
  unfold fetchHeader
  simp (disch := omega) only [fetch_eq, fetchByte_eq, Option.bind_eq_bind, Option.bind_some]
  rfl

/-- Every read of the decoder lies inside the buffer. -/
theorem koePacketDeserialiseWalk_eq (alloc : Bool) (pkt : Packet) (buf : List UInt8) :
    koePacketDeserialiseWalk alloc pkt buf = some (koePacketDeserialise alloc pkt buf) := by
  unfold koePacketDeserialiseWalk koePacketDeserialise
  by_cases hshort : buf.length < koeHeaderSize
  · rw [if_pos hshort, if_pos hshort]
  · rw [if_neg hshort, if_neg hshort, fetchHeader_eq (Nat.not_lt.mp hshort)]
    simp only [Option.bind_eq_bind, Option.bind_some]
    split_ifs with hpos hroom hmax halloc
    · rfl
    · rfl
    · rfl
    · -- The length was compared with the size of the buffer before the copy.
      have hpayload := Nat.not_lt.mp hroom
      rw [fetch_eq hpayload, Option.bind_some, toList_readAt hpayload]
    · rfl

/-! ### What is accepted -/

/-- `header.length` as the bytes 8 to 11 of a buffer give it. -/
def wireLength (buf : List UInt8) : ℕ := (ofBe32 (readAt 4 8 buf)).toNat

/-- The bytes of a packet in the format: a header, and as many bytes behind it as it announces, at
most `KOE_MAX_PAYLOAD`. Anything may follow. -/
def StartsWithPacket (buf : List UInt8) : Prop :=
  koeHeaderSize ≤ buf.length ∧
    (wireLength buf = 0 ∨
      wireLength buf ≤ koeMaxPayload ∧ koeHeaderSize + wireLength buf ≤ buf.length)

theorem StartsWithPacket.wireLength_le {buf : List UInt8} (hstarts : StartsWithPacket buf) :
    wireLength buf ≤ koeMaxPayload := by
  rcases hstarts.2 with hzero | ⟨hmax, -⟩
  · rw [hzero]
    exact Nat.zero_le _
  · exact hmax

theorem StartsWithPacket.length_le {buf : List UInt8} (hstarts : StartsWithPacket buf) :
    koeHeaderSize + wireLength buf ≤ buf.length := by
  rcases hstarts.2 with hzero | ⟨-, hroom⟩
  · rw [hzero]
    exact hstarts.1
  · exact hroom

/-- The packet that the decoder makes of accepted bytes. -/
def decodedPacket (buf : List UInt8) : Packet where
  header := Header.ofWire buf
  payload :=
    if 0 < (Header.ofWire buf).length then some ((buf.drop koeHeaderSize).take (wireLength buf))
    else none

/-- Assumes: bytes that start with a packet. -/
theorem koePacketDeserialise_accepts {buf : List UInt8} (hstarts : StartsWithPacket buf)
    (pkt : Packet) : koePacketDeserialise true pkt buf = (0, decodedPacket buf) := by
  have hshort : ¬ buf.length < koeHeaderSize := Nat.not_lt.mpr hstarts.1
  have hroom : ¬ buf.length < koeHeaderSize + (Header.ofWire buf).length.toNat :=
    Nat.not_lt.mpr hstarts.length_le
  have hmax : ¬ koeMaxPayload < (Header.ofWire buf).length.toNat :=
    Nat.not_lt.mpr hstarts.wireLength_le
  simp only [koePacketDeserialise, decodedPacket, if_neg hshort, if_neg hroom, if_neg hmax,
    Bool.not_true, Bool.false_eq_true, if_false]
  split_ifs with hpos
  · rfl
  · rfl

/-- What the decoder accepts. -/
theorem koePacketDeserialise_eq_zero_iff (pkt : Packet) (buf : List UInt8) :
    (koePacketDeserialise true pkt buf).1 = 0 ↔ StartsWithPacket buf := by
  constructor
  · intro hrc
    have hfails : ¬ (-1 : ℤ) = 0 := by decide
    simp only [koePacketDeserialise] at hrc
    split_ifs at hrc with hshort hpos hroom hmax halloc
    · exact absurd hrc hfails
    · exact absurd hrc hfails
    · exact absurd hrc hfails
    · exact absurd halloc (by simp)
    · exact ⟨Nat.not_lt.mp hshort, Or.inr ⟨Nat.not_lt.mp hmax, Nat.not_lt.mp hroom⟩⟩
    · rw [UInt32.lt_iff_toNat_lt, Nat.not_lt] at hpos
      exact ⟨Nat.not_lt.mp hshort, Or.inl (Nat.le_zero.mp hpos)⟩
  · intro hstarts
    rw [koePacketDeserialise_accepts hstarts]

/-! ### Canonicity -/

/-- The bytes that a packet is decoded from, with the reserved bytes cleared. -/
def canonicalBytes (buf : List UInt8) : List UInt8 :=
  buf.take 104 ++ [0, 0] ++ (buf.drop koeHeaderSize).take (wireLength buf)

/-- Assumes: bytes that start with a packet. -/
theorem length_canonicalBytes {buf : List UInt8} (hstarts : StartsWithPacket buf) :
    (canonicalBytes buf).length = koeHeaderSize + wireLength buf := by
  have hlength := hstarts.length_le
  simp only [canonicalBytes, List.length_append, List.length_take, List.length_drop,
    List.length_cons, List.length_nil, koeHeaderSize] at hlength ⊢
  omega

/-- Assumes: a buffer of at least 106 bytes. -/
theorem Header.wire_ofWire {buf : List UInt8} (hlength : koeHeaderSize ≤ buf.length) :
    (Header.ofWire buf).wire = buf.take 104 ++ [0, 0] := by
  have hheader : 106 ≤ buf.length := hlength
  have hchecksum : (be32 (Header.ofWire buf).checksum).toList = (buf.drop 100).take 4 := by
    change (be32 (ofBe32 (readAt 4 100 buf))).toList = _
    rw [be32_ofBe32, toList_readAt (by omega)]
  rw [Header.wire, Header.covered_ofWire (by omega), hchecksum, ← List.take_add,
    List.append_assoc]
  rfl

/-- The payload of the decoded packet is what follows the header. -/
theorem payloadBytes_decodedPacket (buf : List UInt8) :
    (decodedPacket buf).payloadBytes = (buf.drop koeHeaderSize).take (wireLength buf) := by
  change (Option.getD (if 0 < (Header.ofWire buf).length then _ else none) []).take
    (wireLength buf) = _
  split_ifs with hpos
  · rw [Option.getD_some, List.take_take, Nat.min_self]
  · have hzero : wireLength buf = 0 := by
      rw [UInt32.lt_iff_toNat_lt, Nat.not_lt] at hpos
      exact Nat.le_zero.mp hpos
    rw [hzero, List.take_zero, List.take_zero]

/-- Assumes: bytes that start with a packet. -/
theorem wire_decodedPacket {buf : List UInt8} (hstarts : StartsWithPacket buf) :
    (decodedPacket buf).wire = canonicalBytes buf := by
  rw [Packet.wire, payloadBytes_decodedPacket]
  change (Header.ofWire buf).wire ++ _ = _
  rw [Header.wire_ofWire hstarts.1]
  rfl

/-- The decoder accepts exactly the format and is canonical. On every buffer no read leaves the
buffer, and the decoder returns `0` exactly when the buffer starts with a packet. Serialisation of
the decoded packet then writes the bytes that it was decoded from, with the reserved bytes
cleared, and returns their number. -/
theorem koePacketDeserialise_canonical (pkt : Packet) (buf : List UInt8) :
    (∀ alloc, koePacketDeserialiseWalk alloc pkt buf = some (koePacketDeserialise alloc pkt buf)) ∧
      ((koePacketDeserialise true pkt buf).1 = 0 ↔
        106 ≤ buf.length ∧
          (wireLength buf = 0 ∨
            wireLength buf ≤ koeMaxPayload ∧ 106 + wireLength buf ≤ buf.length)) ∧
      ((koePacketDeserialise true pkt buf).1 = 0 →
        (canonicalBytes buf).length = 106 + wireLength buf ∧
          ∀ out : List UInt8, 106 + wireLength buf ≤ out.length →
            koePacketSerialise (koePacketDeserialise true pkt buf).2 out =
              ((106 : ℤ) + wireLength buf,
                canonicalBytes buf ++ out.drop (106 + wireLength buf))) := by
  refine ⟨fun alloc ↦ koePacketDeserialiseWalk_eq alloc pkt buf,
    koePacketDeserialise_eq_zero_iff pkt buf, ?_⟩
  intro hrc
  have hstarts := (koePacketDeserialise_eq_zero_iff pkt buf).mp hrc
  have hlength := length_canonicalBytes hstarts
  refine ⟨hlength, ?_⟩
  intro out hout
  have hmax : (decodedPacket buf).header.length.toNat ≤ koeMaxPayload := hstarts.wireLength_le
  rw [koePacketDeserialise_accepts hstarts, koePacketSerialise_of_fits hmax hout,
    wire_decodedPacket hstarts, hlength]
  rfl

end KoeCore
