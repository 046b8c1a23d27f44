import KoeCore.Library.Segments
import KoeCore.Protocol.PacketRoundTrip

/-!
# TCP framing

`koe_transport_send` writes a packet as its size in four bytes, most significant first, and its wire
bytes. `koe_transport_recv` reads the size, refuses one that no packet can have before it reads any
further, and decodes as many bytes as announced.

The sockets are the two ends of a channel of bytes (`Segments.Channel`). `recv` and `send` answer
each call with a number of bytes of their own choice, and `read_exact` and `write_exact` are the
loops `Segments.readExact` and `Segments.writeExact` around them.

`Packet.frame` is what a packet is on the stream. A packet is sent as its frame
(`koeTransportSend_eq`), and a frame at the front of the stream is received and taken off
(`koeTransportRecv_frame`), so packets arrive one by one, however the stream is cut
(`koeTransport_delivers`).
-/

set_option autoImplicit false
set_option relaxedAutoImplicit false

namespace KoeCore

open ByteWire Segments

/-- What `koe_transport_send` takes from its environment: whether `malloc` succeeds, and what the
memory it returns holds. -/
structure TransportSendEnv where
  alloc : Bool
  heap : ℕ → UInt8

/-- The return code, and the channel after the call. -/
def koeTransportSend (answer : ℕ → ℤ) (env : TransportSendEnv) (fd : ℤ) (pkt : Packet)
    (chan : Channel UInt8) : ℤ × Channel UInt8 :=
  if fd < 0 then (-1, chan)
  else
    let total := pkt.reserved32
    if !env.alloc then (-1, chan)
    else
      let serialised := koePacketSerialise pkt ((List.range total).map env.heap)
      if serialised.1 < 0 then (-1, chan)
      else
        let announced := writeExact answer chan (be32 (UInt32.ofNat total)).toList
        if announced.1 ≠ 0 then (-1, announced.2)
        else
          let written := writeExact answer announced.2 (serialised.2.take total)
          if written.1 ≠ 0 then (-1, written.2) else (0, written.2)

/-- Whether the calls of `malloc` succeed, for the frame and for the payload. -/
structure TransportRecvEnv where
  frameAlloc : Bool
  payloadAlloc : Bool

/-- The return code, the packet and the channel after the call. -/
def koeTransportRecv (answer : ℕ → ℤ) (env : TransportRecvEnv) (fd : ℤ) (pkt : Packet)
    (chan : Channel UInt8) : ℤ × Packet × Channel UInt8 :=
  if fd < 0 then (-1, pkt, chan)
  else
    let announced := readExact answer chan 4
    if announced.1 ≠ 0 then (-1, pkt, announced.2.2)
    else
      let total := (ofBe32 (readAt 4 0 announced.2.1)).toNat
      if total < koeHeaderSize ∨ koeHeaderSize + koeMaxPayload < total then
        (-1, pkt, announced.2.2)
      else if !env.frameAlloc then (-1, pkt, announced.2.2)
      else
        let body := readExact answer announced.2.2 total
        if body.1 ≠ 0 then (-1, pkt, body.2.2)
        else
          let decoded := koePacketDeserialise env.payloadAlloc pkt body.2.1
          (decoded.1, decoded.2, body.2.2)

/-! ### One packet -/

/-- A packet on the stream. -/
def Packet.frame (pkt : Packet) : List UInt8 :=
  (be32 (UInt32.ofNat (koeHeaderSize + pkt.header.length.toNat))).toList ++ pkt.wire

theorem readAt_size (size : Block 4) : readAt 4 0 size.toList = size :=
  readAt_of_eq [] size (List.append_nil _).symm rfl

/-- The buffer of a send holds the wire bytes of the packet and nothing else, whatever was in it
before. Assumes: a payload that fits and is within the cap. -/
theorem koePacketSerialise_heap {pkt : Packet} (hfits : pkt.PayloadFits)
    (hmax : pkt.header.length.toNat ≤ koeMaxPayload) (heap : ℕ → UInt8) :
    koePacketSerialise pkt ((List.range (koeHeaderSize + pkt.header.length.toNat)).map heap) =
        ((koeHeaderSize : ℤ) + pkt.header.length.toNat, pkt.wire) ∧
      pkt.wire.take (koeHeaderSize + pkt.header.length.toNat) = pkt.wire := by
  have hbuf : ((List.range (koeHeaderSize + pkt.header.length.toNat)).map heap).length =
      koeHeaderSize + pkt.header.length.toNat := by
    rw [List.length_map, List.length_range]
  refine ⟨koePacketSerialise_exact hfits hmax hbuf, ?_⟩
  rw [← Packet.length_wire hfits, List.take_length]

section Frame

variable {answer : ℕ → ℤ} (hworks : ∀ call, 0 < answer call) {fd : ℤ} (hfd : 0 ≤ fd)

include hworks hfd

/-- Assumes: a working connection, an open socket, memory, and a payload that fits and is within the
cap. -/
theorem koeTransportSend_eq {env : TransportSendEnv} (halloc : env.alloc = true) {pkt : Packet}
    (hfits : pkt.PayloadFits) (hmax : pkt.header.length.toNat ≤ koeMaxPayload)
    (chan : Channel UInt8) :
    ∃ calls, koeTransportSend answer env fd pkt chan =
      (0, ⟨chan.pending ++ pkt.frame, calls⟩) := by
  have hreserved := Packet.reserved32_eq hmax
  obtain ⟨hserialised, hwire⟩ := koePacketSerialise_heap hfits hmax env.heap
  obtain ⟨between, hannounced⟩ := writeExact_eq hworks chan
    (be32 (UInt32.ofNat (koeHeaderSize + pkt.header.length.toNat))).toList
  obtain ⟨calls, hwritten⟩ := writeExact_eq hworks ⟨chan.pending ++
    (be32 (UInt32.ofNat (koeHeaderSize + pkt.header.length.toNat))).toList, between⟩ pkt.wire
  have hrc : ¬ (koeHeaderSize : ℤ) + pkt.header.length.toNat < 0 := by
    rw [koeHeaderSize]
    omega
  refine ⟨calls, ?_⟩
  rw [koeTransportSend, if_neg (Int.not_lt.mpr hfd)]
  simp only [halloc, hreserved, hserialised, hannounced, hwire, hwritten, Bool.not_true,
    Bool.false_eq_true, if_false, if_neg hrc, ne_eq, not_true_eq_false, Packet.frame,
    List.append_assoc]

omit hfd in
/-- The four bytes in front of a frame are read and taken off. -/
theorem readExact_size (size : Block 4) (rest : List UInt8) (calls : ℕ) :
    ∃ after, readExact answer ⟨size.toList ++ rest, calls⟩ 4 =
      (0, size.toList, ⟨rest, after⟩) := by
  have hread := readExact_append hworks size.toList rest calls
  rw [size.toList_length] at hread
  exact hread

/-- Assumes: a working connection, an open socket, memory, and a stream that starts with the frame
of a packet whose payload fits and is within the cap. -/
theorem koeTransportRecv_frame {pkt : Packet} (hfits : pkt.PayloadFits)
    (hmax : pkt.header.length.toNat ≤ koeMaxPayload) (rest : List UInt8) (calls : ℕ)
    (out : Packet) :
    ∃ after, koeTransportRecv answer ⟨true, true⟩ fd out ⟨pkt.frame ++ rest, calls⟩ =
      (0, pkt.received, ⟨rest, after⟩) := by
  have hwire : pkt.wire.length = koeHeaderSize + pkt.header.length.toNat := Packet.length_wire hfits
  have htotal : (UInt32.ofNat (koeHeaderSize + pkt.header.length.toNat)).toNat =
      pkt.wire.length := by
    rw [UInt32.toNat_ofNat', hwire]
    simp only [koeHeaderSize, koeMaxPayload] at hmax ⊢
    omega
  have hrange : ¬ (pkt.wire.length < koeHeaderSize ∨
      koeHeaderSize + koeMaxPayload < pkt.wire.length) := by omega
  obtain ⟨between, hsize⟩ := readExact_size hworks
    (be32 (UInt32.ofNat (koeHeaderSize + pkt.header.length.toNat))) (pkt.wire ++ rest) calls
  obtain ⟨after, hbody⟩ := readExact_append hworks pkt.wire rest between
  have hdecoded := koePacketDeserialise_wire hfits hmax [] out
  rw [List.append_nil] at hdecoded
  refine ⟨after, ?_⟩
  rw [koeTransportRecv, if_neg (Int.not_lt.mpr hfd), Packet.frame, List.append_assoc]
  simp only [hsize, readAt_size, ofBe32_be32, htotal, if_neg hrange, hbody, hdecoded,
    Bool.not_true, Bool.false_eq_true, if_false, ne_eq, not_true_eq_false]

/-- Assumes: a working connection, an open socket, and a stream that starts with a size that no
packet can have. The call fails and has read the four bytes of the size. -/
theorem koeTransportRecv_refuses {size : Block 4}
    (hsize : (ofBe32 size).toNat < koeHeaderSize ∨
      koeHeaderSize + koeMaxPayload < (ofBe32 size).toNat) (env : TransportRecvEnv)
    (rest : List UInt8) (calls : ℕ) (out : Packet) :
    ∃ after, koeTransportRecv answer env fd out ⟨size.toList ++ rest, calls⟩ =
      (-1, out, ⟨rest, after⟩) := by
  obtain ⟨after, hread⟩ := readExact_size hworks size rest calls
  refine ⟨after, ?_⟩
  rw [koeTransportRecv, if_neg (Int.not_lt.mpr hfd)]
  simp only [hread, readAt_size, if_pos hsize, ne_eq, not_true_eq_false, if_false]

end Frame

/-! ### A sequence of packets -/

/-- Packets sent one after the other: the return codes, and the channel after the calls. -/
def sendAll (answer : ℕ → ℤ) (fd : ℤ) :
    List (TransportSendEnv × Packet) → Channel UInt8 → List ℤ × Channel UInt8 :=
  each fun send chan ↦ koeTransportSend answer send.1 fd send.2 chan

/-- Packets received one after the other, into packets with the given contents: the return codes
with the packets, and the channel after the calls. -/
def recvAll (answer : ℕ → ℤ) (env : TransportRecvEnv) (fd : ℤ) :
    List Packet → Channel UInt8 → List (ℤ × Packet) × Channel UInt8 :=
  each fun out chan ↦
    let received := koeTransportRecv answer env fd out chan
    ((received.1, received.2.1), received.2.2)

/-- A packet that can be sent: there is memory for its frame, and its payload fits and is within the
cap. -/
def Sendable (send : TransportSendEnv × Packet) : Prop :=
  send.1.alloc = true ∧ send.2.PayloadFits ∧ send.2.header.length.toNat ≤ koeMaxPayload

section Sequence

variable {answer : ℕ → ℤ} (hworks : ∀ call, 0 < answer call) {fd : ℤ} (hfd : 0 ≤ fd)

include hworks hfd

/-- Assumes: a working connection, an open socket, and packets that can be sent. Their frames are
written one after the other. -/
theorem sendAll_eq {sends : List (TransportSendEnv × Packet)}
    (hsends : ∀ send ∈ sends, Sendable send) (chan : Channel UInt8) :
    ∃ calls, sendAll answer fd sends chan =
      (sends.map fun _ ↦ 0, ⟨chan.pending ++ sends.flatMap fun send ↦ send.2.frame, calls⟩) := by
  refine each_writes (fun send hsend chan ↦ ?_) chan
  obtain ⟨halloc, hfits, hmax⟩ := hsends send hsend
  exact koeTransportSend_eq hworks hfd halloc hfits hmax chan

/-- Assumes: a working connection, an open socket, memory, and a stream that starts with the frames
of packets that can be sent. As many calls receive these packets and take their frames off. -/
theorem recvAll_frames {sends : List (TransportSendEnv × Packet)}
    (hsends : ∀ send ∈ sends, Sendable send) {outs : List Packet}
    (houts : outs.length = sends.length) (rest : List UInt8) (calls : ℕ) :
    ∃ after, recvAll answer ⟨true, true⟩ fd outs
        ⟨(sends.flatMap fun send ↦ send.2.frame) ++ rest, calls⟩ =
      (sends.map fun send ↦ (0, send.2.received), ⟨rest, after⟩) := by
  -- Each call is paired with the packet that it receives.
  have hfst : (outs.zip sends).map Prod.fst = outs := List.map_fst_zip houts.le
  have hsnd : (outs.zip sends).map Prod.snd = sends := List.map_snd_zip houts.ge
  let receive (pair : Packet × TransportSendEnv × Packet) (chan : Channel UInt8) :
      (ℤ × Packet) × Channel UInt8 :=
    let received := koeTransportRecv answer ⟨true, true⟩ fd pair.1 chan
    ((received.1, received.2.1), received.2.2)
  have hreads : ∀ pair ∈ outs.zip sends, ∀ (rest : List UInt8) (calls : ℕ), ∃ after,
      receive pair ⟨pair.2.2.frame ++ rest, calls⟩ = ((0, pair.2.2.received), ⟨rest, after⟩) := by
    intro pair hpair rest calls
    obtain ⟨-, hfits, hmax⟩ := hsends pair.2 (List.of_mem_zip hpair).2
    obtain ⟨after, hreceived⟩ := koeTransportRecv_frame hworks hfd hfits hmax rest calls pair.1
    refine ⟨after, ?_⟩
    simp only [receive, hreceived]
  obtain ⟨after, hall⟩ := each_reads hreads rest calls
  have hcalls (chan : Channel UInt8) :
      recvAll answer ⟨true, true⟩ fd outs chan = each receive (outs.zip sends) chan := by
    conv_lhs => rw [← hfst]
    exact each_map Prod.fst (outs.zip sends) chan
  have hstream : (sends.flatMap fun send ↦ send.2.frame) =
      (outs.zip sends).flatMap fun pair ↦ pair.2.2.frame := by
    conv_lhs => rw [← hsnd, List.flatMap_map]
  have hpackets : (sends.map fun send ↦ ((0 : ℤ), send.2.received)) =
      (outs.zip sends).map fun pair ↦ (0, pair.2.2.received) := by
    conv_lhs => rw [← hsnd, List.map_map]
    rfl
  refine ⟨after, ?_⟩
  rw [hcalls, hstream, hpackets]
  exact hall

end Sequence

/-- Framing delivers the packets. Assumes: both ends of the connection work and their sockets are
open, packets that can be sent, and as many receiving calls, with memory. All calls on both ends
return `0`, the packets arrive in order with their reserved bytes cleared, and the stream is used
up. On a stream that starts with a size that no packet can have, the receiver fails after the four
bytes of the size. -/
theorem koeTransport_delivers {writer reader : ℕ → ℤ} (hwriter : ∀ call, 0 < writer call)
    (hreader : ∀ call, 0 < reader call) {fd peerFd : ℤ} (hfd : 0 ≤ fd) (hpeerFd : 0 ≤ peerFd)
    {sends : List (TransportSendEnv × Packet)} (hsends : ∀ send ∈ sends, Sendable send)
    {outs : List Packet} (houts : outs.length = sends.length) (writerCalls readerCalls : ℕ) :
    let sent := sendAll writer fd sends ⟨[], writerCalls⟩
    let received := recvAll reader ⟨true, true⟩ peerFd outs ⟨sent.2.pending, readerCalls⟩
    sent.1 = (sends.map fun _ ↦ 0) ∧
      received.1 = (sends.map fun send ↦ (0, send.2.received)) ∧ received.2.pending = [] ∧
      ∀ (size : Block 4) (rest : List UInt8), (ofBe32 size).toNat < koeHeaderSize ∨
        koeHeaderSize + koeMaxPayload < (ofBe32 size).toNat → ∀ env out calls, ∃ after,
          koeTransportRecv reader env peerFd out ⟨size.toList ++ rest, calls⟩ =
            (-1, out, ⟨rest, after⟩) := by
  intro sent received
  obtain ⟨writerAfter, hsent⟩ := sendAll_eq hwriter hfd hsends ⟨[], writerCalls⟩
  obtain ⟨readerAfter, hreceived⟩ :=
    recvAll_frames hreader hpeerFd hsends houts [] readerCalls
  have hstream : sent.2.pending = (sends.flatMap fun send ↦ send.2.frame) ++ [] := by
    change (sendAll writer fd sends ⟨[], writerCalls⟩).2.pending = _
    rw [hsent, List.append_nil]
    rfl
  have hall : received = (sends.map fun send ↦ (0, send.2.received), ⟨[], readerAfter⟩) := by
    change recvAll reader ⟨true, true⟩ peerFd outs ⟨sent.2.pending, readerCalls⟩ = _
    rw [hstream, hreceived]
  refine ⟨congrArg Prod.fst hsent, congrArg Prod.fst hall, by rw [hall], ?_⟩
  intro size rest hsize env out calls
  exact koeTransportRecv_refuses hreader hpeerFd hsize env rest calls out

/-- Two copies of an empty packet, written three bytes at a time and read five at a time. -/
theorem zeroPackets_delivered :
    let send : TransportSendEnv × Packet := (⟨true, fun _ ↦ 0⟩, Packet.zero)
    (recvAll (fun _ ↦ 5) ⟨true, true⟩ 4 [Packet.zero, Packet.zero]
        ⟨(sendAll (fun _ ↦ 3) 3 [send, send] ⟨[], 0⟩).2.pending, 0⟩).1 =
      [(0, Packet.zero), (0, Packet.zero)] := by
  intro send
  have hsends : ∀ other ∈ [send, send], Sendable other := by
    intro other hother
    have hsame : other = send := by simpa using hother
    rw [hsame]
    exact ⟨rfl, by decide, Nat.zero_le _⟩
  have hdelivers := koeTransport_delivers (fun _ ↦ (by omega : (0 : ℤ) < 3))
    (fun _ ↦ (by omega : (0 : ℤ) < 5)) (by omega : (0 : ℤ) ≤ 3) (by omega : (0 : ℤ) ≤ 4) hsends
    (show [Packet.zero, Packet.zero].length = [send, send].length from rfl) 0 0
  exact hdelivers.2.1

end KoeCore
