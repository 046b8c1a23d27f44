import KoeCore.Transport.WebSocket

/-!
# Received packets and validation

`koe_packet_validate` checks the magic bytes, the version and the checksum of a header. Neither
`koe_transport_recv` nor `koe_transport_ws_recv` calls it, and the decoder that they call reads the
header fields without looking at them. What a receiving call hands to its caller is therefore as
valid as the bytes of the frame: `HeaderValid` is the check on these bytes, and a packet that was
received passes validation exactly when they pass it (`koeTransport_validates_iff`).

`tcpBody` and `wsBody` are the bytes that the two functions take for a packet, read off the stream.
-/

set_option autoImplicit false
set_option relaxedAutoImplicit false

namespace KoeCore

open ByteWire Segments

/-! ### The decoder -/

/-- The bytes start with a header that passes validation: the magic bytes, a compatible version, and
the checksum of the first 100 bytes behind them. -/
def HeaderValid (bytes : List UInt8) : Prop :=
  readAt 4 0 bytes = koeMagic ∧
    koeVersionCompatible koeVersionLocal ⟨byteAt 4 bytes, byteAt 5 bytes⟩ = true ∧
    crc32 (bytes.take 100) = ofBe32 (readAt 4 100 bytes)

instance (bytes : List UInt8) : Decidable (HeaderValid bytes) :=
  inferInstanceAs (Decidable (_ ∧ _ ∧ _))

/-- A decoded packet has the header that its bytes describe. Assumes: a decoder that returned
`0`. -/
theorem koePacketDeserialise_inv {alloc : Bool} {pkt : Packet} {buf : List UInt8}
    (hrc : (koePacketDeserialise alloc pkt buf).1 = 0) :
    koeHeaderSize ≤ buf.length ∧
      (koePacketDeserialise alloc pkt buf).2.header = Header.ofWire buf := by
  have hfails : ¬ (-1 : ℤ) = 0 := by decide
  simp only [koePacketDeserialise] at hrc ⊢
  split_ifs at hrc ⊢ with hshort hpos hroom hmax halloc
  · exact absurd hrc hfails
  · exact absurd hrc hfails
  · exact absurd hrc hfails
  · exact absurd hrc hfails
  · exact ⟨Nat.not_lt.mp hshort, rfl⟩
  · exact ⟨Nat.not_lt.mp hshort, rfl⟩

/-- The decoder adds no check of its own. Assumes: a decoder that returned `0`. -/
theorem koePacketDeserialise_validates_iff {alloc : Bool} {pkt : Packet} {buf : List UInt8}
    (hrc : (koePacketDeserialise alloc pkt buf).1 = 0) :
    koePacketValidate (koePacketDeserialise alloc pkt buf).2 = 0 ↔ HeaderValid buf := by
  obtain ⟨hlength, hheader⟩ := koePacketDeserialise_inv hrc
  have hcovered : (Header.ofWire buf).covered = buf.take 100 :=
    Header.covered_ofWire (Nat.le_trans (by decide) hlength)
  rw [koePacketValidate_eq_zero_iff, hheader, koePacketChecksum, hcovered]
  rfl

/-! ### TCP -/

/-- The bytes that `koe_transport_recv` takes for a packet. -/
def tcpBody (stream : List UInt8) : List UInt8 :=
  (stream.drop 4).take (ofBe32 (readAt 4 0 (stream.take 4))).toNat

/-- Assumes: a call that returned `0`. -/
theorem koeTransportRecv_inv {answer : ℕ → ℤ} {env : TransportRecvEnv} {fd : ℤ} {pkt : Packet}
    {chan : Channel UInt8} (hrc : (koeTransportRecv answer env fd pkt chan).1 = 0) :
    (koePacketDeserialise env.payloadAlloc pkt (tcpBody chan.pending)).1 = 0 ∧
      (koeTransportRecv answer env fd pkt chan).2.1 =
        (koePacketDeserialise env.payloadAlloc pkt (tcpBody chan.pending)).2 := by
  have hfails : ¬ (-1 : ℤ) = 0 := by decide
  simp only [koeTransportRecv] at hrc ⊢
  split_ifs at hrc ⊢ with hfd hsize hrange halloc hbody
  · exact absurd hrc hfails
  · exact absurd hrc hfails
  · exact absurd hrc hfails
  · exact absurd hrc hfails
  · exact absurd hrc hfails
  · obtain ⟨-, hread, hrest⟩ := readExact_inv (not_not.mp hsize)
    obtain ⟨-, hbytes, -⟩ := readExact_inv (not_not.mp hbody)
    rw [hread, hrest] at hbytes
    rw [hread, hbytes] at hrc ⊢
    exact ⟨hrc, rfl⟩

/-! ### WebSocket -/

/-- The number of bytes of the size behind the second byte of a frame. -/
def wsExtSize (lenByte : UInt8) : ℕ :=
  if (lenByte &&& 0x7F).toUInt64 = 126 then 2
  else if (lenByte &&& 0x7F).toUInt64 = 127 then 8
  else 0

/-- The size that the second byte and the bytes behind it stand for. -/
def wsLenOf (lenByte : UInt8) (ext : List UInt8) : UInt64 :=
  if (lenByte &&& 0x7F).toUInt64 = 126 then shiftIn (byteAt 0 ext).toUInt64 (byteAt 1 ext)
  else if (lenByte &&& 0x7F).toUInt64 = 127 then ext.foldl shiftIn 0
  else (lenByte &&& 0x7F).toUInt64

/-- The bytes that `koe_transport_ws_recv` takes for a packet. -/
def wsBody (stream : List UInt8) : List UInt8 :=
  let lenByte := byteAt 1 (stream.take 2)
  let rest := stream.drop 2
  let size := (wsLenOf lenByte (rest.take (wsExtSize lenByte))).toNat
  let rest := rest.drop (wsExtSize lenByte)
  if lenByte &&& 0x80 ≠ 0 then wsMask (rest.take 4) ((rest.drop 4).take size) else rest.take size

/-- Assumes: a size that was read. -/
theorem wsReadLen_inv {answer : ℕ → ℤ} {lenByte : UInt8} {chan : Channel UInt8}
    (hrc : (wsReadLen answer lenByte chan).1 = 0) :
    (wsReadLen answer lenByte chan).2.1 =
        wsLenOf lenByte (chan.pending.take (wsExtSize lenByte)) ∧
      (wsReadLen answer lenByte chan).2.2.pending = chan.pending.drop (wsExtSize lenByte) := by
  have hfails : ¬ (-1 : ℤ) = 0 := by decide
  simp only [wsReadLen, wsLenOf, wsExtSize] at hrc ⊢
  split_ifs at hrc ⊢ with h126 hext h127 hext
  · exact absurd hrc hfails
  · obtain ⟨-, hread, hrest⟩ := readExact_inv (not_not.mp hext)
    rw [hread]
    exact ⟨rfl, hrest⟩
  · exact absurd hrc hfails
  · obtain ⟨-, hread, hrest⟩ := readExact_inv (not_not.mp hext)
    rw [hread]
    exact ⟨rfl, hrest⟩
  · exact ⟨rfl, rfl⟩

/-- Assumes: a mask that was read. -/
theorem wsReadMask_inv {answer : ℕ → ℤ} {masked : Bool} {chan : Channel UInt8}
    (hrc : (wsReadMask answer masked chan).1 = 0) :
    if masked then (wsReadMask answer masked chan).2.1 = chan.pending.take 4 ∧
      (wsReadMask answer masked chan).2.2.pending = chan.pending.drop 4
    else (wsReadMask answer masked chan).2.2 = chan := by
  cases masked with
  | false => rfl
  | true =>
    have hread : (readExact answer chan 4).1 = 0 := by
      by_contra hfailed
      simp only [wsReadMask, if_true, if_pos hfailed] at hrc
      exact absurd hrc (by decide)
    obtain ⟨-, hmask, hrest⟩ := readExact_inv hread
    simp only [wsReadMask, if_true, hread, ne_eq, not_true_eq_false, if_false]
    exact ⟨hmask, hrest⟩

/-- Assumes: a call that returned `0`. -/
theorem koeTransportWsRecv_inv {answer : ℕ → ℤ} {env : TransportRecvEnv} {pkt : Packet}
    {chan : Channel UInt8} (hrc : (koeTransportWsRecv answer env pkt chan).1 = 0) :
    (koePacketDeserialise env.payloadAlloc pkt (wsBody chan.pending)).1 = 0 ∧
      (koeTransportWsRecv answer env pkt chan).2.1 =
        (koePacketDeserialise env.payloadAlloc pkt (wsBody chan.pending)).2 := by
  have hfails : ¬ (-1 : ℤ) = 0 := by decide
  simp only [koeTransportWsRecv] at hrc ⊢
  by_cases hhdr : (readExact answer chan 2).1 ≠ 0
  · rw [if_pos hhdr] at hrc
    exact absurd hrc hfails
  rw [if_neg hhdr] at hrc ⊢
  obtain ⟨-, hbytes, hafter⟩ := readExact_inv (not_not.mp hhdr)
  rw [hbytes] at hrc ⊢
  generalize readExact answer chan 2 = hdr at hafter hrc ⊢
  generalize hlenByte : byteAt 1 (chan.pending.take 2) = lenByte at hrc ⊢
  by_cases hlen : (wsReadLen answer lenByte hdr.2.2).1 ≠ 0
  · rw [if_pos hlen] at hrc
    exact absurd hrc hfails
  rw [if_neg hlen] at hrc ⊢
  obtain ⟨hsize, hafterLen⟩ := wsReadLen_inv (not_not.mp hlen)
  rw [hafter] at hsize hafterLen
  have hwsBody : wsBody chan.pending =
      let size := (wsLenOf lenByte ((chan.pending.drop 2).take (wsExtSize lenByte))).toNat
      let rest := (chan.pending.drop 2).drop (wsExtSize lenByte)
      if lenByte &&& 0x80 ≠ 0 then wsMask (rest.take 4) ((rest.drop 4).take size)
      else rest.take size := by
    simp only [wsBody, hlenByte]
  rw [hsize] at hrc ⊢
  generalize (chan.pending.drop 2).drop (wsExtSize lenByte) = rest at hafterLen hwsBody
  generalize (wsLenOf lenByte ((chan.pending.drop 2).take (wsExtSize lenByte))).toNat = size
    at hwsBody hrc ⊢
  generalize wsReadLen answer lenByte hdr.2.2 = len at hafterLen hrc ⊢
  by_cases hmask : (wsReadMask answer (decide (lenByte &&& 0x80 ≠ 0)) len.2.2).1 ≠ 0
  · rw [if_pos hmask] at hrc
    exact absurd hrc hfails
  rw [if_neg hmask] at hrc ⊢
  have hmaskRead := wsReadMask_inv (not_not.mp hmask)
  generalize wsReadMask answer (decide (lenByte &&& 0x80 ≠ 0)) len.2.2 = mask at hmaskRead hrc ⊢
  split_ifs at hrc ⊢ with hrange halloc hbody hmasked
  · exact absurd hrc hfails
  · exact absurd hrc hfails
  · exact absurd hrc hfails
  · obtain ⟨-, hread, -⟩ := readExact_inv (not_not.mp hbody)
    rw [if_pos hmasked, hafterLen] at hmaskRead
    rw [hmaskRead.2] at hread
    rw [hread, hmaskRead.1] at hrc ⊢
    rw [hwsBody, if_pos (of_decide_eq_true hmasked)]
    exact ⟨hrc, rfl⟩
  · obtain ⟨-, hread, -⟩ := readExact_inv (not_not.mp hbody)
    rw [if_neg hmasked] at hmaskRead
    rw [hmaskRead] at hread hrc ⊢
    rw [hafterLen] at hread
    rw [hread] at hrc ⊢
    rw [hwsBody, if_neg fun hbit ↦ hmasked (decide_eq_true hbit)]
    exact ⟨hrc, rfl⟩

/-! ### Both receivers -/

/-- What is received is as valid as what was sent. For every stream, and however the connection and
the memory answer: a packet that one of the two receivers delivers with the return code `0` passes
validation exactly when the bytes of its frame start with a valid header. -/
theorem koeTransport_validates_iff (answer : ℕ → ℤ) (env : TransportRecvEnv) (fd : ℤ) (pkt : Packet)
    (chan : Channel UInt8) :
    ((koeTransportRecv answer env fd pkt chan).1 = 0 →
        (koePacketValidate (koeTransportRecv answer env fd pkt chan).2.1 = 0 ↔
          HeaderValid (tcpBody chan.pending))) ∧
      ((koeTransportWsRecv answer env pkt chan).1 = 0 →
        (koePacketValidate (koeTransportWsRecv answer env pkt chan).2.1 = 0 ↔
          HeaderValid (wsBody chan.pending))) := by
  refine ⟨?_, ?_⟩
  · intro hrc
    obtain ⟨hdecoded, hpkt⟩ := koeTransportRecv_inv hrc
    rw [hpkt]
    exact koePacketDeserialise_validates_iff hdecoded
  · intro hrc
    obtain ⟨hdecoded, hpkt⟩ := koeTransportWsRecv_inv hrc
    rw [hpkt]
    exact koePacketDeserialise_validates_iff hdecoded

/-- The frame of the PING packet is received, and its bytes start with a valid header. -/
theorem pingPacket_validates :
    let chan : Channel UInt8 := ⟨pingPacket.frame, 0⟩
    let received := koeTransportRecv (fun _ ↦ 1) ⟨true, true⟩ 3 Packet.zero chan
    (received.1 = 0 ∧ koePacketValidate received.2.1 = 0) ∧ HeaderValid (tcpBody chan.pending) := by
  intro chan received
  have hworks : ∀ call : ℕ, (0 : ℤ) < (fun _ ↦ 1) call := fun _ ↦ Int.zero_lt_one
  obtain ⟨after, hframe⟩ := koeTransportRecv_frame hworks (show (0 : ℤ) ≤ 3 by decide)
    (show pingPacket.PayloadFits by decide) (by decide) [] 0 Packet.zero
  rw [List.append_nil] at hframe
  have hvalid : koePacketValidate pingPacket.received = 0 := by
    rw [koePacketValidate_received, koePacketValidate_eq_zero_iff]
    let header := { (koePacketInit PacketType.ping.code 0).header with length := 10 }
    exact ⟨rfl, by decide, koePacketChecksum_checksum header (koePacketChecksum header)⟩
  have hiff := (koeTransport_validates_iff (fun _ ↦ 1) ⟨true, true⟩ 3 Packet.zero chan).1
  simp only [received, chan, hframe] at hiff ⊢
  exact ⟨⟨trivial, hvalid⟩, (hiff trivial).mp hvalid⟩

/-- A frame of 106 zero bytes is received by both functions, and its packet does not pass
validation. -/
theorem koeTransport_delivers_invalid :
    let tcp := koeTransportRecv (fun _ ↦ 1) ⟨true, true⟩ 3 Packet.zero ⟨Packet.zero.frame, 0⟩
    let ws := koeTransportWsRecv (fun _ ↦ 1) ⟨true, true⟩ Packet.zero
      ⟨Packet.zero.wsFrame none, 0⟩
    (tcp.1 = 0 ∧ koePacketValidate tcp.2.1 = -1) ∧ ws.1 = 0 ∧ koePacketValidate ws.2.1 = -1 := by
  intro tcp ws
  have hworks : ∀ call : ℕ, (0 : ℤ) < (fun _ ↦ 1) call := fun _ ↦ Int.zero_lt_one
  have hfits : Packet.zero.PayloadFits := by decide
  have hmax : Packet.zero.header.length.toNat ≤ koeMaxPayload := Nat.zero_le _
  have hinvalid : koePacketValidate Packet.zero.received = -1 := by decide
  obtain ⟨afterTcp, htcp⟩ := koeTransportRecv_frame hworks (show (0 : ℤ) ≤ 3 by decide) hfits hmax
    [] 0 Packet.zero
  obtain ⟨afterWs, hws⟩ := koeTransportWsRecv_frame hworks hfits hmax none [] 0 Packet.zero
  rw [List.append_nil] at htcp hws
  have htcpAll : tcp = (0, Packet.zero.received, ⟨[], afterTcp⟩) := htcp
  have hwsAll : ws = (0, Packet.zero.received, ⟨[], afterWs⟩) := hws
  rw [htcpAll, hwsAll]
  exact ⟨⟨rfl, hinvalid⟩, rfl, hinvalid⟩

end KoeCore
