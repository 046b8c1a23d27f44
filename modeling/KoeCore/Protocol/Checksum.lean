import KoeCore.Library.Crc
import KoeCore.Protocol.Packet

/-!
# The header checksum

`crc32` of `koe_packet.c` takes a byte at a time from a table of 256 words. `crc32Bitwise` is the
CRC-32 it stands for, which takes the message bit by bit with the reflected polynomial
`0xEDB88320`, and `crc32_eq_bitwise` shows that they agree on every byte string.

`koe_packet_checksum` lays out the header a second time, in a buffer of its own (`checksumWalk`).
Its walk and that of `koe_packet_serialise` write the same 100 bytes, so the checksum is the CRC-32
of what goes over the wire (`koePacketChecksum_eq_bitwise_serialised`). As the polynomial has its
highest bit, a header that was changed within four consecutive bytes has another checksum
(`koePacketChecksum_burst`).
-/

set_option autoImplicit false
set_option relaxedAutoImplicit false

namespace KoeCore

open ByteWire ReflectedCrc

/-! ### CRC-32, bit by bit -/

/-- The polynomial of CRC-32, reflected. -/
def crc32Poly : BitVec 32 := 0xEDB88320#32

/-- The bits of a byte, least significant first. -/
def byteBits (byte : UInt8) : List Bool := (List.range 8).map byte.toBitVec.getLsbD

/-- The bits of a message in the order in which CRC-32 takes them. -/
def messageBits (bytes : List UInt8) : List Bool := bytes.flatMap byteBits

/-- CRC-32, bit by bit: the register starts and ends with an exclusive or with all ones. -/
def crc32Bitwise (bytes : List UInt8) : UInt32 :=
  UInt32.ofBitVec (feedAll crc32Poly 0xFFFFFFFF#32 (messageBits bytes) ^^^ 0xFFFFFFFF#32)

@[simp] theorem length_byteBits (byte : UInt8) : (byteBits byte).length = 8 := by
  simp [byteBits]

theorem word_byteBits (byte : UInt8) : word 32 (byteBits byte) = byte.toUInt32.toBitVec := by
  apply BitVec.eq_of_getLsbD_eq
  intro i hi
  rw [getLsbD_word, UInt8.toBitVec_toUInt32, BitVec.getLsbD_setWidth]
  by_cases hbyte : i < 8
  · rw [List.getD_eq_getElem _ _ (by simpa using hbyte)]
    simp [byteBits]
  · rw [List.getD_eq_default _ _ (by simpa using hbyte), BitVec.getLsbD_of_ge _ i (by omega)]

theorem byteBits_injective : Function.Injective byteBits := by
  intro first second heq
  have hword : first.toUInt32.toBitVec = second.toUInt32.toBitVec := by
    rw [← word_byteBits, ← word_byteBits, heq]
  have hvalue := congrArg BitVec.toNat hword
  simpa [UInt8.toNat_inj] using hvalue

theorem messageBits_append (first second : List UInt8) :
    messageBits (first ++ second) = messageBits first ++ messageBits second :=
  List.flatMap_append

theorem length_messageBits (bytes : List UInt8) :
    (messageBits bytes).length = 8 * bytes.length := by
  induction bytes with
  | nil => rfl
  | cons byte rest ih =>
    rw [messageBits, List.flatMap_cons, List.length_append, length_byteBits, List.length_cons]
    rw [messageBits] at ih
    omega

theorem messageBits_injective : Function.Injective messageBits := by
  intro first
  induction first with
  | nil =>
    intro second heq
    have hlength := congrArg List.length heq
    rw [length_messageBits, length_messageBits, List.length_nil] at hlength
    exact (List.eq_nil_of_length_eq_zero (by omega)).symm
  | cons byte rest ih =>
    intro second heq
    cases second with
    | nil =>
      have hlength := congrArg List.length heq
      rw [length_messageBits, length_messageBits, List.length_cons, List.length_nil] at hlength
      omega
    | cons other others =>
      have hparts : byteBits byte ++ messageBits rest = byteBits other ++ messageBits others := heq
      obtain ⟨hbyte, hrest⟩ := List.append_inj hparts (by simp)
      rw [byteBits_injective hbyte, ih hrest]

/-! ### The table -/

theorem toBitVec_crc32Bit (c : UInt32) : (crc32Bit c).toBitVec = shift crc32Poly c.toBitVec := by
  have hlow : (c &&& 1 ≠ 0) ↔ c.toBitVec.getLsbD 0 = true := by
    rw [ne_eq, ← UInt32.toBitVec_inj, UInt32.toBitVec_and]
    change ¬ (c.toBitVec &&& 1#32 = 0#32) ↔ _
    rw [BitVec.and_one_eq_setWidth_ofBool_getLsbD]
    cases c.toBitVec.getLsbD 0 <;> simp
  unfold crc32Bit shift
  by_cases hbit : c.toBitVec.getLsbD 0 = true
  · rw [if_pos (hlow.mpr hbit), if_pos hbit, UInt32.toBitVec_xor, UInt32.toBitVec_shiftRight]
    rfl
  · rw [if_neg (mt hlow.mp hbit), if_neg hbit, UInt32.toBitVec_shiftRight]
    rfl

theorem toBitVec_crc32Table (i : UInt32) :
    (crc32Table i).toBitVec = (shift crc32Poly)^[8] i.toBitVec :=
  Function.Semiconj.iterate_right (f := UInt32.toBitVec) toBitVec_crc32Bit 8 i

/-- One step of `crc32` takes the eight bits of a byte. -/
theorem toBitVec_crc32_step (c : UInt32) (byte : UInt8) :
    (crc32Table ((c ^^^ byte.toUInt32) &&& 0xFF) ^^^ (c >>> 8)).toBitVec =
      feedAll crc32Poly c.toBitVec (byteBits byte) := by
  have hbyte : byte.toUInt32.toBitVec >>> 8 = 0#32 := by
    apply BitVec.eq_of_toNat_eq
    have hlt := byte.toNat_lt
    simp only [UInt8.toBitVec_toUInt32, BitVec.toNat_ushiftRight, BitVec.toNat_setWidth,
      UInt8.toNat_toBitVec, Nat.shiftRight_eq_div_pow]
    simp
    omega
  have hfed : feedAll crc32Poly c.toBitVec (byteBits byte) =
      (shift crc32Poly)^[8] (c.toBitVec ^^^ byte.toUInt32.toBitVec) := by
    rw [feedAll_eq_iterate _ _ (by simp), length_byteBits, word_byteBits]
  rw [hfed, iterate_shift_eq_low_xor _ _ (show 8 ≤ 32 by decide), BitVec.ushiftRight_xor_distrib,
    hbyte, BitVec.xor_zero, UInt32.toBitVec_xor, toBitVec_crc32Table, UInt32.toBitVec_and,
    UInt32.toBitVec_xor, UInt32.toBitVec_shiftRight]
  rfl

/-- The register after the loop of `crc32`. -/
theorem toBitVec_crc32_loop (c : UInt32) (buf : List UInt8) :
    (buf.foldl (fun c byte ↦ crc32Table ((c ^^^ byte.toUInt32) &&& 0xFF) ^^^ (c >>> 8))
        c).toBitVec =
      feedAll crc32Poly c.toBitVec (messageBits buf) := by
  induction buf generalizing c with
  | nil => rfl
  | cons byte rest ih =>
    rw [List.foldl_cons, ih, toBitVec_crc32_step, ← feedAll_append]
    rfl

/-- The table method computes CRC-32. -/
theorem crc32_eq_bitwise (buf : List UInt8) : crc32 buf = crc32Bitwise buf := by
  apply UInt32.toBitVec_inj.mp
  rw [crc32, UInt32.toBitVec_xor, toBitVec_crc32_loop]
  rfl

/-! ### The bytes that are covered -/

/-- The walk of `koe_packet_checksum` over its buffer. -/
def checksumWalk (hdr : Header) (buf : List UInt8) : Cursor :=
  let cursor := Cursor.mk buf 0
  let cursor := cursor.put hdr.magic.toList
  let cursor := cursor.put [hdr.protoMajor]
  let cursor := cursor.put [hdr.protoMinor]
  let cursor := cursor.put [hdr.type]
  let cursor := cursor.put [hdr.flags]
  let cursor := cursor.put (be32 hdr.length).toList
  let cursor := cursor.put hdr.fromPk.toList
  let cursor := cursor.put hdr.toPk.toList
  cursor.put hdr.nonce.toList

/-- The walk leaves the covered bytes in a buffer of 100 bytes, whatever was in it. Assumes: a
buffer of 100 bytes. -/
theorem checksumWalk_eq (hdr : Header) {buf : List UInt8} (hbuf : buf.length = 100) :
    checksumWalk hdr buf = ⟨hdr.covered, 100⟩ := by
  have hstart : (Cursor.mk buf 0).off ≤ (Cursor.mk buf 0).buf.length := Nat.zero_le _
  have hput : checksumWalk hdr buf = (Cursor.mk buf 0).put hdr.covered := by
    simp only [checksumWalk, Cursor.put_put hstart]
    rfl
  rw [hput, Cursor.mk.injEq, Cursor.put_start]
  refine ⟨?_, ?_⟩
  · rw [Header.length_covered, List.drop_of_length_le (Nat.le_of_eq hbuf), List.append_nil]
  · simp [Cursor.put]

/-- The first 100 bytes that serialisation writes. Assumes: a buffer of at least the reserved
size. -/
theorem take_koePacketSerialise (pkt : Packet) {buf : List UInt8}
    (hbuf : pkt.reserved32 ≤ buf.length) :
    (koePacketSerialise pkt buf).2.take 100 = pkt.header.covered := by
  rw [koePacketSerialise_eq pkt hbuf, Packet.wire, Header.wire]
  simp only [List.append_assoc]
  rw [← Header.length_covered pkt.header, List.take_left]

/-- The checksum is the CRC-32 of the bytes on the wire. Assumes: a buffer that has room for the
packet, and the 100 bytes of the buffer on the stack. The checksum of a header, which is `crc32` of
what its walk leaves on the stack, is the bit-by-bit CRC-32 of the first 100 bytes that
serialisation writes, and `crc32` is the bit-by-bit CRC-32 of every byte string. -/
theorem koePacketChecksum_eq_bitwise_serialised (pkt : Packet) {buf stack : List UInt8}
    (hbuf : pkt.reserved32 ≤ buf.length) (hstack : stack.length = 100) :
    koePacketChecksum pkt.header =
        crc32 ((checksumWalk pkt.header stack).buf.take (checksumWalk pkt.header stack).off) ∧
      koePacketChecksum pkt.header = crc32Bitwise ((koePacketSerialise pkt buf).2.take 100) ∧
      ∀ bytes, crc32 bytes = crc32Bitwise bytes := by
  refine ⟨?_, ?_, crc32_eq_bitwise⟩
  · rw [checksumWalk_eq _ hstack, koePacketChecksum, ← Header.length_covered pkt.header,
      List.take_length]
  · rw [take_koePacketSerialise pkt hbuf, koePacketChecksum, crc32_eq_bitwise]

/-- The checksum of a PING packet that is written to a buffer of exactly its size. -/
theorem ping_checksum_eq_bitwise :
    let ping := koePacketInit PacketType.ping.code 0
    koePacketChecksum ping.header =
      crc32Bitwise ((koePacketSerialise ping (List.replicate 106 0)).2.take 100) := by
  intro ping
  have hbuf : ping.reserved32 ≤ (List.replicate 106 (0 : UInt8)).length := by decide
  have hstack : (List.replicate 100 (0 : UInt8)).length = 100 := List.length_replicate
  exact (koePacketChecksum_eq_bitwise_serialised ping hbuf hstack).2.1

/-! ### Bursts -/

/-- Two byte strings of one length agree outside the `size` bytes from `start` on. -/
def AgreeOutside (start size : ℕ) (first second : List UInt8) : Prop :=
  first.length = second.length ∧
    ∀ i, i < start ∨ start + size ≤ i → first[i]? = second[i]?

/-- Assumes: two windows of one length that is at most `size`. -/
theorem agreeOutside_append {size : ℕ} (front back : List UInt8) {first second : List UInt8}
    (hlength : first.length = second.length) (hsize : first.length ≤ size) :
    AgreeOutside front.length size (front ++ first ++ back) (front ++ second ++ back) := by
  refine ⟨by simp [hlength], ?_⟩
  rintro i (hfront | hback)
  · rw [List.append_assoc, List.append_assoc, List.getElem?_append_left hfront,
      List.getElem?_append_left hfront]
  · have hfirst : (front ++ first).length ≤ i := by
      rw [List.length_append]
      omega
    have hsecond : (front ++ second).length = (front ++ first).length := by
      rw [List.length_append, List.length_append, hlength]
    rw [List.getElem?_append_right hfirst, List.getElem?_append_right (hsecond ▸ hfirst), hsecond]

/-- The bytes in front of a window, in it and behind it. -/
theorem take_append_window (start size : ℕ) (bytes : List UInt8) :
    bytes.take start ++ (bytes.drop start).take size ++ bytes.drop (start + size) = bytes := by
  rw [List.append_assoc, ← List.drop_drop, List.take_append_drop, List.take_append_drop]

/-- A burst of at most four bytes changes the CRC-32. Assumes: two different byte strings that agree
outside four consecutive bytes. -/
theorem crc32_ne_of_burst {start : ℕ} {first second : List UInt8} (hdiffer : first ≠ second)
    (hagree : AgreeOutside start 4 first second) : crc32 first ≠ crc32 second := by
  obtain ⟨hlength, hagree⟩ := hagree
  have hfront : first.take start = second.take start := by
    apply List.ext_getElem?
    intro i
    rw [List.getElem?_take, List.getElem?_take]
    split_ifs with hi
    · exact hagree i (.inl hi)
    · rfl
  have hback : first.drop (start + 4) = second.drop (start + 4) := by
    apply List.ext_getElem?
    intro i
    rw [List.getElem?_drop, List.getElem?_drop]
    exact hagree _ (.inr (Nat.le_add_right _ _))
  intro heq
  rw [crc32_eq_bitwise, crc32_eq_bitwise, crc32Bitwise, crc32Bitwise] at heq
  have hregister := (BitVec.xor_left_inj _).mp (congrArg UInt32.toBitVec heq)
  rw [← take_append_window start 4 first, ← take_append_window start 4 second, hfront, hback]
    at hregister
  simp only [messageBits_append] at hregister
  have hpoly : crc32Poly.msb = true := by decide
  have hwindow : messageBits ((first.drop start).take 4) =
      messageBits ((second.drop start).take 4) := by
    refine feedAll_burst_injective hpoly _ _ _ ?_ ?_ hregister
    · simp only [length_messageBits, List.length_take, List.length_drop, hlength]
    · simp only [length_messageBits, List.length_take]
      omega
  apply hdiffer
  rw [← take_append_window start 4 first, ← take_append_window start 4 second, hfront, hback,
    messageBits_injective hwindow]

/-- A header that was changed in a burst is refused. Assumes: two headers whose covered bytes
differ, but agree outside four consecutive bytes. Their checksums differ, and when a packet with the
first passes validation, no packet with the second and the same checksum field does. -/
theorem koePacketChecksum_burst {hdr other : Header} {start : ℕ}
    (hdiffer : hdr.covered ≠ other.covered)
    (hagree : AgreeOutside start 4 hdr.covered other.covered) :
    koePacketChecksum hdr ≠ koePacketChecksum other ∧
      ∀ payload otherPayload, koePacketValidate ⟨hdr, payload⟩ = 0 →
        other.checksum = hdr.checksum → koePacketValidate ⟨other, otherPayload⟩ = -1 := by
  have hchecksum : koePacketChecksum hdr ≠ koePacketChecksum other :=
    crc32_ne_of_burst hdiffer hagree
  refine ⟨hchecksum, ?_⟩
  intro payload otherPayload hvalid hsame
  have hmatch : koePacketChecksum hdr = hdr.checksum :=
    ((koePacketValidate_eq_zero_iff _).mp hvalid).2.2
  have hwrong : koePacketChecksum other ≠ other.checksum := by
    rw [hsame, ← hmatch]
    exact hchecksum.symm
  unfold koePacketValidate
  rw [if_pos hwrong]
  simp

/-- A message header whose type was changed to that of an audio packet, as in the test of the
source. -/
theorem message_burst :
    let msg := (koePacketInit PacketType.msg.code PacketFlag.encrypted.mask).header
    let hdr := { msg with checksum := koePacketChecksum msg }
    let other := { hdr with type := PacketType.audio.code }
    koePacketValidate ⟨hdr, none⟩ = 0 ∧ koePacketValidate ⟨other, none⟩ = -1 := by
  intro msg hdr other
  let front := msg.covered.take 6
  let back := msg.covered.drop 7
  have hhdr : hdr.covered = front ++ [0x04] ++ back := by decide
  have hother : other.covered = front ++ [0x05] ++ back := by decide
  have hagree : AgreeOutside 6 4 hdr.covered other.covered := by
    rw [hhdr, hother]
    exact agreeOutside_append front back (List.length_cons.trans List.length_cons.symm) (by decide)
  have hdiffer : hdr.covered ≠ other.covered := by
    rw [hhdr, hother]
    decide
  have hvalid : koePacketValidate ⟨hdr, none⟩ = 0 :=
    (koePacketValidate_eq_zero_iff _).mpr ⟨rfl, by decide, koePacketChecksum_checksum msg _⟩
  exact ⟨hvalid, (koePacketChecksum_burst hdiffer hagree).2 none none hvalid rfl⟩

end KoeCore
