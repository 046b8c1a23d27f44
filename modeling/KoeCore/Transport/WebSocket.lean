import KoeCore.Transport.Tcp

/-!
# WebSocket framing

`koe_transport_ws_send` writes a packet as one binary frame. The size of its wire bytes stands in
the second byte up to 125, in two more bytes up to 65535, and in eight more bytes above
(`wsFrameHdr`). `koe_transport_ws_recv` reads the size in the same three forms, and, when the frame
comes from a client that masks, four bytes of a mask that it takes off the payload again.

The sender ignores what `write_exact` and `koe_packet_serialise` return, and the receiver has no
lower bound on the size: it leaves short frames to the decoder.

`Packet.wsFrame` is what a packet is on the stream, as it is sent or masked on the way. Every such
frame at the front of the stream is received and taken off (`koeTransportWsRecv_frame`), so packets
arrive one by one, however the stream is cut (`koeTransportWs_delivers`).
-/

set_option autoImplicit false
set_option relaxedAutoImplicit false

namespace KoeCore

open ByteWire Segments

/-! ### The two functions -/

/-- The bytes of `frame_hdr`. -/
def wsFrameHdr (payloadLen : ℕ) : List UInt8 :=
  -- FIN and the binary opcode.
  if payloadLen ≤ 125 then [0x82, UInt8.ofNat payloadLen]
  else if payloadLen ≤ 65535 then
    [0x82, 126, UInt8.ofNat (payloadLen >>> 8), UInt8.ofNat (payloadLen &&& 0xFF)]
  else 0x82 :: 127 :: (List.range 8).map fun i ↦ UInt8.ofNat (payloadLen >>> (56 - 8 * i))

/-- The return code, and the channel after the call. -/
def koeTransportWsSend (answer : ℕ → ℤ) (env : TransportSendEnv) (pkt : Packet)
    (chan : Channel UInt8) : ℤ × Channel UInt8 :=
  let payloadLen := pkt.reserved32
  if !env.alloc then (-1, chan)
  else
    let payload := (koePacketSerialise pkt ((List.range payloadLen).map env.heap)).2
    let announced := writeExact answer chan (wsFrameHdr payloadLen)
    let written := writeExact answer announced.2 (payload.take payloadLen)
    (0, written.2)

/-- `(payload_len << 8) | byte`. -/
def shiftIn (len : UInt64) (byte : UInt8) : UInt64 := len <<< 8 ||| byte.toUInt64

/-- The size that the second byte of a frame stands for, with the bytes behind it: the return code,
the size, and the channel after them. -/
def wsReadLen (answer : ℕ → ℤ) (lenByte : UInt8) (chan : Channel UInt8) :
    ℤ × UInt64 × Channel UInt8 :=
  let payloadLen := (lenByte &&& 0x7F).toUInt64
  if payloadLen = 126 then
    let ext := readExact answer chan 2
    if ext.1 ≠ 0 then (-1, payloadLen, ext.2.2)
    else (0, shiftIn (byteAt 0 ext.2.1).toUInt64 (byteAt 1 ext.2.1), ext.2.2)
  else if payloadLen = 127 then
    let ext := readExact answer chan 8
    if ext.1 ≠ 0 then (-1, payloadLen, ext.2.2)
    else (0, ext.2.1.foldl shiftIn 0, ext.2.2)
  else (0, payloadLen, chan)

/-- The mask of a frame: the return code, the mask, and the channel after it. -/
def wsReadMask (answer : ℕ → ℤ) (masked : Bool) (chan : Channel UInt8) :
    ℤ × List UInt8 × Channel UInt8 :=
  if masked then
    let mask := readExact answer chan 4
    if mask.1 ≠ 0 then (-1, mask.2.1, mask.2.2) else (0, mask.2.1, mask.2.2)
  else (0, List.replicate 4 0, chan)

/-- `buf[i] ^= mask[i % 4]`, for every index. -/
def wsMask (mask buf : List UInt8) : List UInt8 :=
  buf.mapIdx fun i byte ↦ byte ^^^ byteAt (i % 4) mask

/-- The return code, the packet and the channel after the call. -/
def koeTransportWsRecv (answer : ℕ → ℤ) (env : TransportRecvEnv) (pkt : Packet)
    (chan : Channel UInt8) : ℤ × Packet × Channel UInt8 :=
  let hdr := readExact answer chan 2
  if hdr.1 ≠ 0 then (-1, pkt, hdr.2.2)
  else
    let lenByte := byteAt 1 hdr.2.1
    let masked := decide (lenByte &&& 0x80 ≠ 0)
    let len := wsReadLen answer lenByte hdr.2.2
    if len.1 ≠ 0 then (-1, pkt, len.2.2)
    else
      let payloadLen := len.2.1.toNat
      let mask := wsReadMask answer masked len.2.2
      if mask.1 ≠ 0 then (-1, pkt, mask.2.2)
      else if koeHeaderSize + koeMaxPayload < payloadLen then (-1, pkt, mask.2.2)
      else if !env.frameAlloc then (-1, pkt, mask.2.2)
      else
        let body := readExact answer mask.2.2 payloadLen
        if body.1 ≠ 0 then (-1, pkt, body.2.2)
        else
          let buf := if masked then wsMask mask.2.1 body.2.1 else body.2.1
          let decoded := koePacketDeserialise env.payloadAlloc pkt buf
          (decoded.1, decoded.2, body.2.2)

/-! ### The size of a frame -/

/-- The second byte of a frame. -/
def wsLenByte (payloadLen : ℕ) : UInt8 :=
  if payloadLen ≤ 125 then UInt8.ofNat payloadLen else if payloadLen ≤ 65535 then 126 else 127

/-- The bytes of the size behind the second byte. -/
def wsExt (payloadLen : ℕ) : List UInt8 :=
  if payloadLen ≤ 125 then []
  else if payloadLen ≤ 65535 then
    [UInt8.ofNat (payloadLen >>> 8), UInt8.ofNat (payloadLen &&& 0xFF)]
  else (List.range 8).map fun i ↦ UInt8.ofNat (payloadLen >>> (56 - 8 * i))

theorem wsFrameHdr_eq (payloadLen : ℕ) :
    wsFrameHdr payloadLen = [0x82, wsLenByte payloadLen] ++ wsExt payloadLen := by
  unfold wsFrameHdr wsLenByte wsExt
  split_ifs <;> rfl

theorem wsLenByte_lt (payloadLen : ℕ) : (wsLenByte payloadLen).toNat < 128 := by
  unfold wsLenByte
  split_ifs with hshort hmiddle
  · rw [UInt8.toNat_ofNat']
    omega
  · decide
  · decide

/-- One more byte of a size. Assumes: a size that has room for it. -/
theorem toNat_shiftIn {len : UInt64} (hlen : len.toNat < 2 ^ 56) (byte : UInt8) :
    (shiftIn len byte).toNat = len.toNat * 256 + byte.toNat := by
  have hbyte : byte.toNat < 2 ^ 8 := byte.toNat_lt
  have hshift : (len <<< 8).toNat = len.toNat <<< 8 := by
    rw [UInt64.toNat_shiftLeft]
    change len.toNat <<< 8 % 2 ^ 64 = len.toNat <<< 8
    rw [Nat.shiftLeft_eq]
    omega
  rw [shiftIn, UInt64.toNat_or, hshift, UInt8.toNat_toUInt64, ← Nat.shiftLeft_add_eq_or_of_lt hbyte,
    Nat.shiftLeft_eq]

/-- The first bytes of a size in eight bytes are its highest. Assumes: a size of 64 bits. -/
theorem toNat_shiftIn_range {payloadLen : ℕ} (hlen : payloadLen < 2 ^ 64) (n : ℕ) (hn : n ≤ 8) :
    (((List.range n).map fun i ↦ UInt8.ofNat (payloadLen >>> (56 - 8 * i))).foldl shiftIn 0).toNat =
      payloadLen >>> (64 - 8 * n) := by
  induction n with
  | zero =>
    rw [Nat.shiftRight_eq_div_pow, Nat.div_eq_of_lt hlen]
    rfl
  | succ n ih =>
    have hprev := ih (Nat.le_of_succ_le hn)
    have hnext : payloadLen >>> (64 - 8 * n) = payloadLen >>> (64 - 8 * (n + 1)) / 256 := by
      have hsum : 64 - 8 * n = 64 - 8 * (n + 1) + 8 := by omega
      rw [hsum, Nat.shiftRight_add, Nat.shiftRight_eq_div_pow _ 8]
    have hroom : payloadLen >>> (64 - 8 * n) < 2 ^ 56 := by
      rw [Nat.shiftRight_eq_div_pow, Nat.div_lt_iff_lt_mul (Nat.two_pow_pos _), ← Nat.pow_add]
      exact hlen.trans_le (Nat.pow_le_pow_right (by decide) (by omega))
    have hexp : 56 - 8 * n = 64 - 8 * (n + 1) := by omega
    rw [List.range_succ, List.map_append, List.foldl_append, List.map_singleton, List.foldl_cons,
      List.foldl_nil, toNat_shiftIn (hprev ▸ hroom), hprev, hnext, hexp, UInt8.toNat_ofNat']
    omega

/-- The size in front of a frame is read back. -/
def ReadsLen (answer : ℕ → ℤ) (lenByte : UInt8) (payloadLen : ℕ) : Prop :=
  ∀ rest calls, ∃ size after, size.toNat = payloadLen ∧
    wsReadLen answer lenByte ⟨wsExt payloadLen ++ rest, calls⟩ = (0, size, ⟨rest, after⟩)

section ReadLen

variable {answer : ℕ → ℤ} {payloadLen : ℕ} {lenByte : UInt8}
  (hbyte : lenByte &&& 0x7F = wsLenByte payloadLen)

include hbyte

/-- A size of at most 125 is in the second byte. -/
theorem wsReadLen_short (hshort : payloadLen ≤ 125) : ReadsLen answer lenByte payloadLen := by
  intro rest calls
  have hext : wsExt payloadLen = [] := if_pos hshort
  have hsmall : wsLenByte payloadLen = UInt8.ofNat payloadLen := if_pos hshort
  have hvalue : (wsLenByte payloadLen).toUInt64.toNat = payloadLen := by
    rw [hsmall, UInt8.toNat_toUInt64, UInt8.toNat_ofNat']
    omega
  have h126 : ¬ (wsLenByte payloadLen).toUInt64 = 126 := by
    rw [← UInt64.toNat_inj, hvalue]
    exact fun h ↦ absurd (h ▸ hshort) (by decide)
  have h127 : ¬ (wsLenByte payloadLen).toUInt64 = 127 := by
    rw [← UInt64.toNat_inj, hvalue]
    exact fun h ↦ absurd (h ▸ hshort) (by decide)
  refine ⟨_, calls, hvalue, ?_⟩
  simp only [wsReadLen, hbyte, if_neg h126, if_neg h127, hext, List.nil_append]

variable (hworks : ∀ call, 0 < answer call) (hlong : ¬ payloadLen ≤ 125)

include hworks hlong

/-- A size of two bytes. Assumes: a working connection. -/
theorem wsReadLen_middle (hmiddle : payloadLen ≤ 65535) : ReadsLen answer lenByte payloadLen := by
  intro rest calls
  have hext : wsExt payloadLen =
      [UInt8.ofNat (payloadLen >>> 8), UInt8.ofNat (payloadLen &&& 0xFF)] := by
    rw [wsExt, if_neg hlong, if_pos hmiddle]
  have h126 : (wsLenByte payloadLen).toUInt64 = 126 := by
    rw [wsLenByte, if_neg hlong, if_pos hmiddle]
    rfl
  have hhigh : (UInt8.ofNat (payloadLen >>> 8)).toUInt64.toNat = payloadLen / 256 := by
    rw [UInt8.toNat_toUInt64, UInt8.toNat_ofNat', Nat.shiftRight_eq_div_pow]
    omega
  have hlow : (UInt8.ofNat (payloadLen &&& 0xFF)).toNat = payloadLen % 256 := by
    rw [UInt8.toNat_ofNat', show (0xFF : ℕ) = 2 ^ 8 - 1 from rfl, Nat.and_two_pow_sub_one_eq_mod]
    omega
  obtain ⟨after, hread⟩ := readExact_append hworks (wsExt payloadLen) rest calls
  rw [hext] at hread ⊢
  refine ⟨shiftIn (UInt8.ofNat (payloadLen >>> 8)).toUInt64
    (UInt8.ofNat (payloadLen &&& 0xFF)), after, ?_, ?_⟩
  · rw [toNat_shiftIn (by rw [hhigh]; omega), hhigh, hlow]
    omega
  · simp only [wsReadLen, hbyte, if_pos h126]
    rw [show (2 : ℕ) = [UInt8.ofNat (payloadLen >>> 8),
      UInt8.ofNat (payloadLen &&& 0xFF)].length from rfl, hread]
    rfl

/-- A size of eight bytes. Assumes: a working connection, and a size of 64 bits. -/
theorem wsReadLen_long (hmiddle : ¬ payloadLen ≤ 65535) (hlen : payloadLen < 2 ^ 64) :
    ReadsLen answer lenByte payloadLen := by
  intro rest calls
  have hext : wsExt payloadLen =
      (List.range 8).map fun i ↦ UInt8.ofNat (payloadLen >>> (56 - 8 * i)) := by
    rw [wsExt, if_neg hlong, if_neg hmiddle]
  have h127 : (wsLenByte payloadLen).toUInt64 = 127 := by
    rw [wsLenByte, if_neg hlong, if_neg hmiddle]
    rfl
  have hlength : (wsExt payloadLen).length = 8 := by simp [hext]
  obtain ⟨after, hread⟩ := readExact_append hworks (wsExt payloadLen) rest calls
  rw [hlength] at hread
  refine ⟨(wsExt payloadLen).foldl shiftIn 0, after, ?_, ?_⟩
  · rw [hext, toNat_shiftIn_range hlen 8 (Nat.le_refl 8)]
    rfl
  · simp only [wsReadLen, hbyte, h127, hread]
    rfl

omit hlong in
/-- Assumes: a working connection, a size of 64 bits, and the second byte of the frame, with or
without its highest bit. -/
theorem wsReadLen_eq (hlen : payloadLen < 2 ^ 64) : ReadsLen answer lenByte payloadLen := by
  by_cases hshort : payloadLen ≤ 125
  · exact wsReadLen_short hbyte hshort
  · by_cases hmiddle : payloadLen ≤ 65535
    · exact wsReadLen_middle hbyte hworks hshort hmiddle
    · exact wsReadLen_long hbyte hworks hshort hmiddle hlen

end ReadLen

/-! ### Masks -/

section Bits

variable {byte : UInt8} (hbyte : byte.toNat < 128)

include hbyte

theorem and_7F_of_lt : byte &&& 0x7F = byte := by
  apply UInt8.toNat_inj.mp
  rw [UInt8.toNat_and]
  change byte.toNat &&& (2 ^ 7 - 1) = byte.toNat
  rw [Nat.and_two_pow_sub_one_eq_mod, Nat.mod_eq_of_lt hbyte]

theorem toNat_and_80 : byte.toNat &&& 2 ^ 7 = 0 := by
  apply Nat.eq_of_testBit_eq
  intro i
  rw [Nat.testBit_and, Nat.testBit_two_pow, Nat.zero_testBit]
  by_cases hi : 7 = i
  · rw [← hi, Nat.testBit_lt_two_pow hbyte, Bool.false_and]
  · rw [decide_eq_false hi, Bool.and_false]

theorem and_80_of_lt : byte &&& 0x80 = 0 :=
  UInt8.toNat_inj.mp ((UInt8.toNat_and byte 0x80).trans (toNat_and_80 hbyte))

theorem or_80_and_7F : (byte ||| 0x80) &&& 0x7F = byte := by
  apply UInt8.toNat_inj.mp
  rw [UInt8.toNat_and, UInt8.toNat_or, Nat.and_or_distrib_right, ← UInt8.toNat_and,
    and_7F_of_lt hbyte]
  exact Nat.or_zero _

theorem or_80_and_80 : (byte ||| 0x80) &&& 0x80 = 0x80 := by
  apply UInt8.toNat_inj.mp
  rw [UInt8.toNat_and, UInt8.toNat_or, Nat.and_or_distrib_right, ← UInt8.toNat_and,
    and_80_of_lt hbyte]
  rfl

end Bits

/-- Masking twice takes the mask off. -/
theorem wsMask_wsMask (mask buf : List UInt8) : wsMask mask (wsMask mask buf) = buf := by
  unfold wsMask
  rw [List.mapIdx_mapIdx]
  refine List.ext_getElem (by simp) fun i _ hi ↦ ?_
  rw [List.getElem_mapIdx, Function.comp_apply, UInt8.xor_assoc, UInt8.xor_self, UInt8.xor_zero]

@[simp] theorem length_wsMask (mask buf : List UInt8) :
    (wsMask mask buf).length = buf.length := by
  simp [wsMask]

/-! ### One packet -/

/-- A frame as a client masks it: the highest bit of its second byte is set, the mask is put behind
the size, and the payload is masked. -/
def wsMaskFrame (mask : Block 4) (hdr payload : List UInt8) : List UInt8 :=
  hdr.modify 1 (fun lenByte ↦ lenByte ||| 0x80) ++ mask.toList ++ wsMask mask.toList payload

/-- A packet on the stream, as it is sent or masked with the given mask. -/
def Packet.wsFrame (pkt : Packet) : Option (Block 4) → List UInt8
  | none => wsFrameHdr (koeHeaderSize + pkt.header.length.toNat) ++ pkt.wire
  | some mask => wsMaskFrame mask (wsFrameHdr (koeHeaderSize + pkt.header.length.toNat)) pkt.wire

section Frame

variable {answer : ℕ → ℤ} (hworks : ∀ call, 0 < answer call) {pkt : Packet}
  (hfits : pkt.PayloadFits) (hmax : pkt.header.length.toNat ≤ koeMaxPayload)

include hworks hfits hmax

/-- Assumes: a working connection, memory, and a payload that fits and is within the cap. -/
theorem koeTransportWsSend_eq {env : TransportSendEnv} (halloc : env.alloc = true)
    (chan : Channel UInt8) :
    ∃ calls, koeTransportWsSend answer env pkt chan =
      (0, ⟨chan.pending ++ pkt.wsFrame none, calls⟩) := by
  have hreserved : pkt.reserved32 = koeHeaderSize + pkt.header.length.toNat :=
    Packet.reserved32_eq hmax
  obtain ⟨hserialised, hwire⟩ := koePacketSerialise_heap hfits hmax env.heap
  let hdr := wsFrameHdr (koeHeaderSize + pkt.header.length.toNat)
  obtain ⟨between, hannounced⟩ := writeExact_eq hworks chan hdr
  obtain ⟨calls, hwritten⟩ := writeExact_eq hworks ⟨chan.pending ++ hdr, between⟩ pkt.wire
  refine ⟨calls, ?_⟩
  simp only [hdr] at hannounced hwritten
  simp only [koeTransportWsSend, halloc, hreserved, hserialised, hwire, hannounced, hwritten,
    Bool.not_true, Bool.false_eq_true, if_false, Packet.wsFrame, List.append_assoc]

/-- What the receiver makes of a frame, part by part. Assumes: a working connection, memory, a
payload that fits and is within the cap, and the parts of a frame: the second byte with the size in
its lower bits, the bytes `sentMask` that are read as the mask, and a body that is the wire bytes of
the packet under this mask. -/
theorem koeTransportWsRecv_parts {lenByte : UInt8} {sentMask mask body : List UInt8}
    (hbyte : lenByte &&& 0x7F = wsLenByte (koeHeaderSize + pkt.header.length.toNat))
    (hmask : ∀ rest calls, ∃ after, wsReadMask answer (decide (lenByte &&& 0x80 ≠ 0))
      ⟨sentMask ++ rest, calls⟩ = (0, mask, ⟨rest, after⟩))
    (hbody : (if decide (lenByte &&& 0x80 ≠ 0) = true then wsMask mask body else body) = pkt.wire)
    (hlength : body.length = pkt.wire.length) (rest : List UInt8) (calls : ℕ) (out : Packet) :
    ∃ after, koeTransportWsRecv answer ⟨true, true⟩ out
        ⟨[0x82, lenByte] ++ (wsExt (koeHeaderSize + pkt.header.length.toNat) ++
          (sentMask ++ (body ++ rest))), calls⟩ = (0, pkt.received, ⟨rest, after⟩) := by
  have hsize : koeHeaderSize + pkt.header.length.toNat < 2 ^ 64 := by
    simp only [koeHeaderSize, koeMaxPayload] at hmax ⊢
    omega
  have hrange : ¬ koeHeaderSize + koeMaxPayload < koeHeaderSize + pkt.header.length.toNat := by
    omega
  obtain ⟨afterHdr, hhdr⟩ := readExact_append hworks [0x82, lenByte]
    (wsExt (koeHeaderSize + pkt.header.length.toNat) ++ (sentMask ++ (body ++ rest))) calls
  obtain ⟨size, afterLen, hvalue, hlen⟩ := wsReadLen_eq hbyte hworks hsize
    (sentMask ++ (body ++ rest)) afterHdr
  obtain ⟨afterMask, hread⟩ := hmask (body ++ rest) afterLen
  obtain ⟨after, hrest⟩ := readExact_append hworks body rest afterMask
  rw [hlength, Packet.length_wire hfits] at hrest
  have hdecoded := koePacketDeserialise_wire hfits hmax [] out
  rw [List.append_nil] at hdecoded
  refine ⟨after, ?_⟩
  have htwo : ([0x82, lenByte] : List UInt8).length = 2 := rfl
  have hsecond : byteAt 1 [0x82, lenByte] = lenByte := rfl
  rw [htwo] at hhdr
  simp only [koeTransportWsRecv, hhdr, hsecond, hlen, hvalue, hread, if_neg hrange, hrest, hbody,
    hdecoded, Bool.not_true, Bool.false_eq_true, if_false, ne_eq, not_true_eq_false]

/-- Assumes: a working connection, memory, and a stream that starts with the frame of a packet, as
it was sent or masked, whose payload fits and is within the cap. -/
theorem koeTransportWsRecv_frame (mask : Option (Block 4)) (rest : List UInt8) (calls : ℕ)
    (out : Packet) :
    ∃ after, koeTransportWsRecv answer ⟨true, true⟩ out ⟨pkt.wsFrame mask ++ rest, calls⟩ =
      (0, pkt.received, ⟨rest, after⟩) := by
  let size := koeHeaderSize + pkt.header.length.toNat
  have hlt := wsLenByte_lt size
  cases mask with
  | none =>
    have hbit : decide (wsLenByte size &&& 0x80 ≠ 0) = false := by
      rw [and_80_of_lt hlt]
      rfl
    have hstream : pkt.wsFrame none ++ rest =
        [0x82, wsLenByte size] ++ (wsExt size ++ ([] ++ (pkt.wire ++ rest))) := by
      simp only [Packet.wsFrame, wsFrameHdr_eq, size, List.append_assoc, List.nil_append]
    have hmask (rest : List UInt8) (calls : ℕ) : ∃ after,
        wsReadMask answer (decide (wsLenByte size &&& 0x80 ≠ 0)) ⟨[] ++ rest, calls⟩ =
          (0, List.replicate 4 0, ⟨rest, after⟩) := by
      refine ⟨calls, ?_⟩
      rw [hbit]
      rfl
    rw [hstream]
    refine koeTransportWsRecv_parts hworks hfits hmax (and_7F_of_lt hlt) hmask ?_ rfl rest calls out
    rw [hbit]
    rfl
  | some mask =>
    have hbit : decide ((wsLenByte size ||| 0x80) &&& 0x80 ≠ 0) = true := by
      rw [or_80_and_80 hlt]
      rfl
    have hstream : pkt.wsFrame (some mask) ++ rest = [0x82, wsLenByte size ||| 0x80] ++
        (wsExt size ++ (mask.toList ++ (wsMask mask.toList pkt.wire ++ rest))) := by
      simp only [Packet.wsFrame, wsMaskFrame, wsFrameHdr_eq, size, List.append_assoc]
      rfl
    have hmask (rest : List UInt8) (calls : ℕ) : ∃ after,
        wsReadMask answer (decide ((wsLenByte size ||| 0x80) &&& 0x80 ≠ 0))
          ⟨mask.toList ++ rest, calls⟩ = (0, mask.toList, ⟨rest, after⟩) := by
      obtain ⟨after, hread⟩ := readExact_append hworks mask.toList rest calls
      rw [mask.toList_length] at hread
      refine ⟨after, ?_⟩
      rw [hbit]
      simp only [wsReadMask, if_true, hread, ne_eq, not_true_eq_false, if_false]
    rw [hstream]
    refine koeTransportWsRecv_parts hworks hfits hmax (or_80_and_7F hlt) hmask ?_
      (length_wsMask _ _) rest calls out
    rw [hbit, if_pos rfl, wsMask_wsMask]

end Frame

/-! ### A sequence of packets -/

/-- A packet on its way: what the sender's environment answers, the packet, the mask that its frame
is given on the way, if any, and what the packet it is received into held. -/
structure WsTransit where
  env : TransportSendEnv
  pkt : Packet
  mask : Option (Block 4)
  out : Packet

/-- The packets sent one after the other. -/
def wsSendAll (answer : ℕ → ℤ) : List WsTransit → Channel UInt8 → List ℤ × Channel UInt8 :=
  each fun transit chan ↦ koeTransportWsSend answer transit.env transit.pkt chan

/-- The packets received one after the other, with memory. -/
def wsRecvAll (answer : ℕ → ℤ) :
    List WsTransit → Channel UInt8 → List (ℤ × Packet) × Channel UInt8 :=
  each fun transit chan ↦
    let received := koeTransportWsRecv answer ⟨true, true⟩ transit.out chan
    ((received.1, received.2.1), received.2.2)

/-- WebSocket framing delivers the packets. Assumes: both ends of the connection work, and packets
that can be sent. All calls of the sender return `0` and leave the frames of the packets on the
stream. From the stream with any of these frames masked by any mask, the calls of the receiver
return `0` with the packets in order, their reserved bytes cleared, and use the stream up. -/
theorem koeTransportWs_delivers {writer reader : ℕ → ℤ} (hwriter : ∀ call, 0 < writer call)
    (hreader : ∀ call, 0 < reader call) {transits : List WsTransit}
    (hsends : ∀ transit ∈ transits, Sendable (transit.env, transit.pkt))
    (writerCalls readerCalls : ℕ) :
    let sent := wsSendAll writer transits ⟨[], writerCalls⟩
    let received := wsRecvAll reader transits
      ⟨transits.flatMap fun transit ↦ transit.pkt.wsFrame transit.mask, readerCalls⟩
    sent.1 = (transits.map fun _ ↦ 0) ∧
      sent.2.pending = (transits.flatMap fun transit ↦ transit.pkt.wsFrame none) ∧
      received.1 = (transits.map fun transit ↦ (0, transit.pkt.received)) ∧
      received.2.pending = [] := by
  intro sent received
  have hwrites : ∀ transit ∈ transits, ∀ chan : Channel UInt8, ∃ calls,
      koeTransportWsSend writer transit.env transit.pkt chan =
        (0, ⟨chan.pending ++ transit.pkt.wsFrame none, calls⟩) := by
    intro transit htransit chan
    obtain ⟨halloc, hfits, hmax⟩ := hsends transit htransit
    exact koeTransportWsSend_eq hwriter hfits hmax halloc chan
  let receive (transit : WsTransit) (chan : Channel UInt8) : (ℤ × Packet) × Channel UInt8 :=
    let received := koeTransportWsRecv reader ⟨true, true⟩ transit.out chan
    ((received.1, received.2.1), received.2.2)
  have hreads : ∀ transit ∈ transits, ∀ (rest : List UInt8) (calls : ℕ), ∃ after,
      receive transit ⟨transit.pkt.wsFrame transit.mask ++ rest, calls⟩ =
        ((0, transit.pkt.received), ⟨rest, after⟩) := by
    intro transit htransit rest calls
    obtain ⟨-, hfits, hmax⟩ := hsends transit htransit
    obtain ⟨after, hreceived⟩ := koeTransportWsRecv_frame hreader hfits hmax transit.mask rest
      calls transit.out
    refine ⟨after, ?_⟩
    simp only [receive, hreceived]
  obtain ⟨writerAfter, hsent⟩ := each_writes hwrites ⟨[], writerCalls⟩
  obtain ⟨readerAfter, hreceived⟩ := each_reads hreads [] readerCalls
  rw [List.append_nil] at hreceived
  have hsentAll : sent = _ := hsent
  have hreceivedAll : received = _ := hreceived
  rw [hsentAll, hreceivedAll]
  exact ⟨rfl, List.nil_append _, rfl, rfl⟩

/-- An empty packet as it is sent and a PING packet that is masked on the way, read five bytes at a
time. -/
theorem wsPackets_delivered :
    let env : TransportSendEnv := ⟨true, fun _ ↦ 0⟩
    let mask : Block 4 := ⟨[0x37, 0xFA, 0x21, 0x3D], rfl⟩
    let transits : List WsTransit :=
      [⟨env, Packet.zero, none, Packet.zero⟩, ⟨env, pingPacket, some mask, Packet.zero⟩]
    (wsRecvAll (fun _ ↦ 5) transits
        ⟨Packet.zero.wsFrame none ++ pingPacket.wsFrame (some mask), 0⟩).1 =
      [(0, Packet.zero), (0, pingPacket)] := by
  intro env mask transits
  have hzero : Sendable (env, Packet.zero) := ⟨rfl, by decide, Nat.zero_le _⟩
  have hping : Sendable (env, pingPacket) := ⟨rfl, by decide, by decide⟩
  have hsends : ∀ transit ∈ transits, Sendable (transit.env, transit.pkt) := by
    intro transit htransit
    rcases List.mem_cons.mp htransit with rfl | hlast
    · exact hzero
    · rw [List.mem_singleton.mp hlast]
      exact hping
  have hdelivers := koeTransportWs_delivers (fun _ ↦ (by omega : (0 : ℤ) < 3))
    (fun _ ↦ (by omega : (0 : ℤ) < 5)) hsends 0 0
  have hstream : (transits.flatMap fun transit ↦ transit.pkt.wsFrame transit.mask) =
      Packet.zero.wsFrame none ++ pingPacket.wsFrame (some mask) := by
    rw [List.flatMap_cons, List.flatMap_singleton]
  rw [← hstream]
  exact hdelivers.2.2.1

end KoeCore
