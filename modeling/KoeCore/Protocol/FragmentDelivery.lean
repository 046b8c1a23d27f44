import KoeCore.Protocol.Reassembly
import Mathlib.Data.List.Induction
import Mathlib.Data.UInt

/-!
# Delivery of fragments

The fragments of one message arrive at one reassembly context, in some order, some of them perhaps
more than once. `Receiver` follows the context together with what was delivered to it and how often
a call has returned `1`.

In any order, each fragment once, the last delivery completes the message
(`koePacketReassemble_any_order`). Completion is decided by counting the stored fragments modulo
256, though, and the context is not reset by it. `Tally` is that count. A sequence of deliveries
does no harm exactly when each delivery at which the count is reached is the first such and finds
all pieces stored (`koePacketReassemble_tolerates_iff`).
-/

set_option autoImplicit false
set_option relaxedAutoImplicit false

namespace KoeCore

open ByteWire

/-- One fragment arrives: its index, and the memory that the call finds. -/
structure Delivery where
  index : ℕ
  env : ReassembleEnv

/-- A context, or `none` after a read from `NULL`, with the indices delivered to it and the number
of calls that returned `1`. -/
structure Receiver where
  ctx : Option Reassembly
  delivered : List ℕ
  completed : ℕ

namespace Receiver

/-- A receiver with a zero-initialised context. -/
def start : Receiver := ⟨some Reassembly.zero, [], 0⟩

/-- The call that a delivery makes. -/
def call (frags : List Packet) (receiver : Receiver) (delivery : Delivery) (outPkt : Packet) :
    Option (ℤ × Reassembly × Packet) :=
  receiver.ctx.bind fun ctx ↦
    koePacketReassemble delivery.env ctx (frags.getD delivery.index Packet.zero) outPkt

/-- The receiver after a delivery. -/
def step (frags : List Packet) (receiver : Receiver) (delivery : Delivery) : Receiver :=
  let result := receiver.call frags delivery Packet.zero
  { ctx := result.map fun result ↦ result.2.1
    delivered := receiver.delivered ++ [delivery.index]
    completed := if (result.map fun result ↦ result.1) = some 1 then receiver.completed + 1
      else receiver.completed }

/-- The call reads nothing from `NULL`, and if it returns `1`, every fragment has been delivered, no
call has returned `1` before, and the output packet has the payload of the message. -/
def Tolerates (frags : List Packet) (pkt : Packet) (receiver : Receiver) (delivery : Delivery) :
    Prop :=
  ∀ outPkt, ∃ rc ctx out, receiver.call frags delivery outPkt = some (rc, ctx, out) ∧
    (rc = 1 → (∀ i < frags.length, i ∈ receiver.delivered ++ [delivery.index]) ∧
      receiver.completed = 0 ∧ out.payload = pkt.payload ∧
      out.header.length = pkt.header.length)

end Receiver

/-- The call stores the fragment: there is memory for its data, and its length fits its header. -/
def Delivery.Stores (pkt : Packet) (size : ℕ) (delivery : Delivery) : Prop :=
  delivery.env.dataAlloc = true ∧
    18 + (Pieces.piece size pkt.payloadBytes delivery.index).length < 2 ^ 32

instance (pkt : Packet) (size : ℕ) (delivery : Delivery) : Decidable (delivery.Stores pkt size) :=
  inferInstanceAs (Decidable (_ ∧ _))

/-- The indices that were stored, in the order of the calls, and whether the message has been
completed. -/
structure Tally where
  stored : List ℕ
  complete : Bool

namespace Tally

def start : Tally := ⟨[], false⟩

/-- With this delivery the number of stored fragments, as a byte, reaches the number of fragments of
the message, and there is memory for the output. -/
def Completes (pkt : Packet) (size n : ℕ) (tally : Tally) (delivery : Delivery) : Prop :=
  delivery.Stores pkt size ∧ n ≤ (tally.stored.length + 1) % 256 ∧ delivery.env.outAlloc = true

instance (pkt : Packet) (size n : ℕ) (tally : Tally) (delivery : Delivery) :
    Decidable (tally.Completes pkt size n delivery) :=
  inferInstanceAs (Decidable (_ ∧ _ ∧ _))

def step (pkt : Packet) (size n : ℕ) (tally : Tally) (delivery : Delivery) : Tally where
  stored := if delivery.Stores pkt size then tally.stored ++ [delivery.index] else tally.stored
  complete := tally.complete || decide (tally.Completes pkt size n delivery)

/-- If the delivery reaches the number of fragments, it is the first to do so, and with it all
fragments are stored. -/
def Ready (pkt : Packet) (size n : ℕ) (tally : Tally) (delivery : Delivery) : Prop :=
  tally.Completes pkt size n delivery →
    tally.complete = false ∧ ∀ i < n, i ∈ tally.stored ++ [delivery.index]

end Tally

section Deliveries

variable {pkt : Packet} {msgId : Block 16} {size n : ℕ}

/-- The receiver and the tally agree on a message. -/
def Tracks (pkt : Packet) (msgId : Block 16) (size n : ℕ) (receiver : Receiver) (tally : Tally) :
    Prop :=
  ∃ ctx, receiver.ctx = some ctx ∧ ctx.Counts msgId n tally.stored.length ∧
    (tally.complete = false → ctx.Holds pkt size n tally.stored) ∧
    (∀ i ∈ tally.stored, i ∈ receiver.delivered) ∧
    (receiver.completed = 0 ↔ tally.complete = false)

theorem tracks_start : Tracks pkt msgId size n Receiver.start Tally.start :=
  ⟨Reassembly.zero, rfl, counts_zero, fun _ ↦ holds_zero, fun _ hmem ↦ absurd hmem List.not_mem_nil,
    iff_of_true rfl rfl⟩

/-- The fragments of the message, in order. -/
def Packet.fragments (pkt : Packet) (msgId : Block 16) (size n : ℕ) : List Packet :=
  (List.range n).map (pkt.fragment msgId size n)

theorem getD_fragments {i : ℕ} (hi : i < n) :
    (pkt.fragments msgId size n).getD i Packet.zero = pkt.fragment msgId size n i := by
  simp [Packet.fragments, List.getD_eq_getElem?_getD, hi]

@[simp] theorem length_fragments : (pkt.fragments msgId size n).length = n := by
  simp [Packet.fragments]

variable {receiver : Receiver} {tally : Tally} {ctx : Reassembly} {delivery : Delivery}

/-- A delivery that is stored and does not reach the number of fragments returns `0`. Assumes: fewer
than 256 fragments, and a context in step with the tally. -/
theorem call_of_waits (hn : n < 256) (hctx : receiver.ctx = some ctx)
    (hcounts : ctx.Counts msgId n tally.stored.length) (hi : delivery.index < n)
    (hstores : delivery.Stores pkt size) (hwaits : (tally.stored.length + 1) % 256 < n)
    (outPkt : Packet) :
    receiver.call (pkt.fragments msgId size n) delivery outPkt =
      some (0, ctx.holding pkt msgId size n delivery.index, outPkt) := by
  have hbelow : ctx.received + 1 < UInt8.ofNat n := (hcounts.waits_iff hn).mpr hwaits
  rw [Receiver.call, hctx, Option.bind_some, getD_fragments hi,
    koePacketReassemble_fragment hcounts.belongs hstores.2]
  simp only [hstores.1, Bool.not_true, Bool.false_eq_true, if_false, if_pos hbelow]

/-- A delivery that does not reach the number of fragments returns `0` or `-1` and keeps the context
in step with the tally. Assumes: a loaded packet of fewer than 256 fragments, and a context in step
with the tally. -/
theorem call_of_not_completes (hloaded : pkt.Loaded) (hn : n < 256)
    (hctx : receiver.ctx = some ctx) (hcounts : ctx.Counts msgId n tally.stored.length)
    (hholds : tally.complete = false → ctx.Holds pkt size n tally.stored)
    (hi : delivery.index < n) (hwaits : ¬ tally.Completes pkt size n delivery) (outPkt : Packet) :
    ∃ rc next out, receiver.call (pkt.fragments msgId size n) delivery outPkt =
        some (rc, next, out) ∧ rc ≠ 1 ∧
      next.Counts msgId n (tally.step pkt size n delivery).stored.length ∧
      (tally.complete = false →
        next.Holds pkt size n (tally.step pkt size n delivery).stored) := by
  by_cases hstores : delivery.Stores pkt size
  · have hnext : (ctx.holding pkt msgId size n delivery.index).Counts msgId n
        (tally.stored.length + 1) := hcounts.holding delivery.index
    simp only [Tally.step, if_pos hstores, List.length_append, List.length_singleton]
    by_cases hwaiting : (tally.stored.length + 1) % 256 < n
    · exact ⟨0, _, _, call_of_waits hn hctx hcounts hi hstores hwaiting outPkt, by omega, hnext,
        fun hopen ↦ (hholds hopen).holding hn hi hstores.2⟩
    · have hbelow : ¬ ctx.received + 1 < UInt8.ofNat n := by
        rw [hcounts.waits_iff hn]
        exact hwaiting
      have hfull : delivery.env.outAlloc = false := by
        rw [← Bool.not_eq_true]
        intro hout
        exact hwaits ⟨hstores, Nat.not_lt.mp hwaiting, hout⟩
      rw [Receiver.call, hctx, Option.bind_some, getD_fragments hi,
        koePacketReassemble_fragment hcounts.belongs hstores.2]
      simp only [hstores.1, hfull, Bool.not_true, Bool.false_eq_true, if_false, if_neg hbelow,
        Bool.not_false, if_true]
      exact ⟨-1, _, _, rfl, by omega, hnext, fun hopen ↦ (hholds hopen).holding hn hi hstores.2⟩
  · simp only [Tally.step, if_neg hstores]
    rw [Receiver.call, hctx, Option.bind_some, getD_fragments hi]
    by_cases hsize : 18 + (Pieces.piece size pkt.payloadBytes delivery.index).length < 2 ^ 32
    · have halloc : delivery.env.dataAlloc = false := by
        rw [← Bool.not_eq_true]
        intro halloc
        exact hstores ⟨halloc, hsize⟩
      rw [koePacketReassemble_fragment hcounts.belongs hsize]
      simp only [halloc, Bool.not_false, if_true]
      exact ⟨-1, _, _, rfl, by omega, hcounts.named, fun hopen ↦ (hholds hopen).named⟩
    · rw [koePacketReassemble_oversized hloaded hsize]
      exact ⟨-1, ctx, outPkt, rfl, by omega, hcounts, hholds⟩

/-- A delivery that reaches the number of fragments copies the slots. Assumes: fewer than 256
fragments, and a context in step with the tally. -/
theorem call_of_completes (hn : n < 256) (hctx : receiver.ctx = some ctx)
    (hcounts : ctx.Counts msgId n tally.stored.length) (hi : delivery.index < n)
    (hcompletes : tally.Completes pkt size n delivery) (outPkt : Packet) :
    receiver.call (pkt.fragments msgId size n) delivery outPkt =
      ((ctx.holding pkt msgId size n delivery.index).copied n).map fun payload ↦
        (1, (ctx.holding pkt msgId size n delivery.index).released,
          reassembledPacket pkt.header
            ((ctx.holding pkt msgId size n delivery.index).totalLen n) payload) := by
  obtain ⟨⟨halloc, hsize⟩, hreached, hout⟩ := hcompletes
  have hwaits : ¬ ctx.received + 1 < UInt8.ofNat n := by
    rw [hcounts.waits_iff hn]
    exact Nat.not_lt.mpr hreached
  have htotal : (UInt8.ofNat n).toNat = n := by
    rw [UInt8.toNat_ofNat', Nat.mod_eq_of_lt hn]
  rw [Receiver.call, hctx, Option.bind_some, getD_fragments hi,
    koePacketReassemble_fragment hcounts.belongs hsize]
  simp only [halloc, hout, Bool.not_true, Bool.false_eq_true, if_false, if_neg hwaits, htotal]

/-- All pieces of a message are its payload. Assumes: a loaded packet and a positive size. -/
theorem flatMap_piece_payloadBytes (hloaded : pkt.Loaded) (hsize : 0 < size)
    (hcount : n = Pieces.count size pkt.header.length.toNat) :
    (List.range n).flatMap (Pieces.piece size pkt.payloadBytes) = pkt.payloadBytes := by
  rw [hcount, ← hloaded.length_payloadBytes]
  exact Pieces.flatMap_piece_count hsize pkt.payloadBytes

/-- Assumes: all pieces of the message, each stored. The copied bytes are the payload, and their
announced length is its length. -/
theorem copied_of_all {stored : List ℕ} (hloaded : pkt.Loaded) (hsize : 0 < size)
    (hcount : n = Pieces.count size pkt.header.length.toNat)
    (hholds : ctx.Holds pkt size n stored) (hall : ∀ i < n, i ∈ stored) :
    ctx.copied n = some pkt.payloadBytes ∧ ctx.totalLen n = pkt.header.length.toNat := by
  have hpieces := flatMap_piece_payloadBytes hloaded hsize hcount
  constructor
  · have hkept : ((List.range n).flatMap fun i ↦
        if i ∈ stored then Pieces.piece size pkt.payloadBytes i else []) =
          (List.range n).flatMap (Pieces.piece size pkt.payloadBytes) := by
      apply List.flatMap_congr
      intro i hi
      rw [if_pos (hall i (List.mem_range.mp hi))]
    rw [hholds.copied_eq (Nat.le_refl n), hkept, hpieces]
  · rw [hholds.totalLen_eq hall, hpieces, hloaded.length_payloadBytes]

/-- Assumes: all pieces of the message, and copied bytes that are its payload. Every piece is
stored. -/
theorem all_of_copied {stored : List ℕ} (hloaded : pkt.Loaded) (hsize : 0 < size)
    (hcount : n = Pieces.count size pkt.header.length.toNat)
    (hholds : ctx.Holds pkt size n stored) (hcopied : ctx.copied n = some pkt.payloadBytes) :
    ∀ i < n, i ∈ stored := by
  have hpieces := flatMap_piece_payloadBytes hloaded hsize hcount
  rw [hholds.copied_eq (Nat.le_refl n), Option.some_inj] at hcopied
  intro i hi
  by_contra hout
  have hnil := Pieces.piece_eq_nil_of_flatMap (hcopied.trans hpieces.symm) i hi hout
  have hlength := Pieces.length_piece size pkt.payloadBytes i
  rw [hnil, List.length_nil, hloaded.length_payloadBytes] at hlength
  rw [hcount, Pieces.lt_count_iff hsize] at hi
  omega

/-- A delivery does no harm exactly when it is ready. Assumes: a loaded packet, cut into all its
pieces and fewer than 256, a receiver in step with the tally, and the index of a fragment. -/
theorem tolerates_iff_ready (hloaded : pkt.Loaded) (hsize : 0 < size)
    (hcount : n = Pieces.count size pkt.header.length.toNat) (hn : n < 256)
    (htracks : Tracks pkt msgId size n receiver tally) (hi : delivery.index < n) :
    receiver.Tolerates (pkt.fragments msgId size n) pkt delivery ↔
      tally.Ready pkt size n delivery := by
  obtain ⟨ctx, hctx, hcounts, hholds, hdelivered, hcompleted⟩ := htracks
  by_cases hcompletes : tally.Completes pkt size n delivery
  · have hcall := call_of_completes hn hctx hcounts hi hcompletes
    have hstored (hopen : tally.complete = false) :
        (ctx.holding pkt msgId size n delivery.index).Holds pkt size n
          (tally.stored ++ [delivery.index]) :=
      (hholds hopen).holding hn hi hcompletes.1.2
    constructor
    · intro htolerates _
      obtain ⟨rc, next, out, hresult, hone⟩ := htolerates Packet.zero
      rw [hcall, Option.map_eq_some_iff] at hresult
      obtain ⟨payload, hcopied, hout⟩ := hresult
      simp only [Prod.mk.injEq] at hout
      obtain ⟨rfl, -, rfl⟩ := hout
      obtain ⟨-, hfirst, hpayload, -⟩ := hone rfl
      have hopen := hcompleted.mp hfirst
      change some payload = pkt.payload at hpayload
      rw [hpayload, hloaded.payload_eq] at hcopied
      exact ⟨hopen, all_of_copied hloaded hsize hcount (hstored hopen) hcopied⟩
    · intro hready outPkt
      obtain ⟨hopen, hall⟩ := hready hcompletes
      obtain ⟨hcopied, htotal⟩ := copied_of_all hloaded hsize hcount (hstored hopen) hall
      rw [hcall, hcopied, htotal, Option.map_some]
      refine ⟨1, _, _, rfl, fun _ ↦ ⟨?_, hcompleted.mpr hopen, hloaded.payload_eq.symm, ?_⟩⟩
      · intro i hlt
        rw [length_fragments] at hlt
        rw [List.mem_append]
        exact (List.mem_append.mp (hall i hlt)).imp_left (hdelivered i)
      · exact UInt32.ofNat_toNat
  · constructor
    · intro _ h
      exact absurd h hcompletes
    · intro _ outPkt
      obtain ⟨rc, next, out, hcall, hne, -, -⟩ :=
        call_of_not_completes hloaded hn hctx hcounts hholds hi hcompletes outPkt
      exact ⟨rc, next, out, hcall, fun hone ↦ absurd hone hne⟩

/-- A delivery that does no harm keeps the receiver in step with the tally. Assumes: as above. -/
theorem tracks_step (hloaded : pkt.Loaded) (hn : n < 256)
    (htracks : Tracks pkt msgId size n receiver tally) (hi : delivery.index < n)
    (htolerates : receiver.Tolerates (pkt.fragments msgId size n) pkt delivery) :
    Tracks pkt msgId size n (receiver.step (pkt.fragments msgId size n) delivery)
      (tally.step pkt size n delivery) := by
  obtain ⟨ctx, hctx, hcounts, hholds, hdelivered, hcompleted⟩ := htracks
  have hmem : ∀ i ∈ (tally.step pkt size n delivery).stored,
      i ∈ receiver.delivered ++ [delivery.index] := by
    intro i hi
    rw [List.mem_append]
    by_cases hstores : delivery.Stores pkt size
    · rw [Tally.step, if_pos hstores] at hi
      exact (List.mem_append.mp hi).imp_left (hdelivered i)
    · rw [Tally.step, if_neg hstores] at hi
      exact Or.inl (hdelivered i hi)
  by_cases hcompletes : tally.Completes pkt size n delivery
  · obtain ⟨rc, next, out, hresult, -⟩ := htolerates Packet.zero
    have hcall := call_of_completes hn hctx hcounts hi hcompletes Packet.zero
    rw [hresult, eq_comm, Option.map_eq_some_iff] at hcall
    obtain ⟨payload, -, hout⟩ := hcall
    simp only [Prod.mk.injEq] at hout
    obtain ⟨rfl, rfl, -⟩ := hout
    have hcomplete : (tally.step pkt size n delivery).complete = true := by
      simp [Tally.step, hcompletes]
    refine ⟨_, by rw [Receiver.step, hresult]; rfl, ?_, ?_, hmem, ?_⟩
    · have hlength : (tally.step pkt size n delivery).stored.length =
          tally.stored.length + 1 := by
        rw [Tally.step, if_pos hcompletes.1, List.length_append, List.length_singleton]
      rw [hlength]
      exact (hcounts.holding delivery.index).released
    · intro hopen
      exact absurd (hopen.symm.trans hcomplete) Bool.false_ne_true
    · rw [hcomplete, Receiver.step, hresult]
      simp
  · obtain ⟨rc, next, out, hcall, hne, hnext, hstored⟩ :=
      call_of_not_completes hloaded hn hctx hcounts hholds hi hcompletes Packet.zero
    have hcomplete : (tally.step pkt size n delivery).complete = tally.complete := by
      simp [Tally.step, hcompletes]
    refine ⟨next, by rw [Receiver.step, hcall]; rfl, hnext, ?_, hmem, ?_⟩
    · rw [hcomplete]
      exact hstored
    · rw [hcomplete, Receiver.step, hcall]
      simpa [hne] using hcompleted

end Deliveries

/-! ### The fragments that `koe_packet_fragment` produces -/

section Split

variable {pkt : Packet} (hloaded : pkt.Loaded) {mtu : UInt64} (hmtu : 0 < mtu.toNat)
  {fragEnv : FragmentEnv} {maxFrags : ℤ}

include hloaded hmtu

/-- Assumes: a loaded packet of at most 255 pieces, and a call that succeeds. It produces all
fragments of the packet. -/
theorem koePacketFragment_split
    (hpieces : Pieces.count mtu.toNat pkt.header.length.toNat ≤ 255)
    (hsplit : 0 < (koePacketFragment fragEnv pkt maxFrags mtu).1) :
    (koePacketFragment fragEnv pkt maxFrags mtu).2 =
      pkt.fragments fragEnv.msgId mtu.toNat
        (Pieces.count mtu.toNat pkt.header.length.toNat) := by
  have haccepted : ¬ FragmentRefused fragEnv pkt maxFrags mtu := by
    intro hfails
    rw [koePacketFragment_fails hfails] at hsplit
    omega
  obtain ⟨hpos, -, hresult⟩ := koePacketFragment_of_not_refused hloaded hmtu haccepted
  have hcount : (fragmentCount pkt mtu).toNat =
      Pieces.count mtu.toNat pkt.header.length.toNat := by
    rw [fragmentCount_toNat hloaded hmtu] at hpos ⊢
    split_ifs at hpos ⊢
    · exact Nat.mod_eq_of_lt (by omega)
    · omega
  rw [hresult, hcount]
  rfl

/-- Deliveries of the fragments of a message, in any order and number, do no harm exactly when each
is ready. Assumes: a payload of the announced positive length, cut into at most 255 fragments. -/
theorem koePacketReassemble_tolerates_iff
    (hpieces : Pieces.count mtu.toNat pkt.header.length.toNat ≤ 255)
    (hsplit : 0 < (koePacketFragment fragEnv pkt maxFrags mtu).1) (deliveries : List Delivery)
    (hvalid : ∀ delivery ∈ deliveries,
      delivery.index < (koePacketFragment fragEnv pkt maxFrags mtu).2.length) :
    let frags := (koePacketFragment fragEnv pkt maxFrags mtu).2
    (∀ front delivery back, deliveries = front ++ delivery :: back →
        (front.foldl (Receiver.step frags) Receiver.start).Tolerates frags pkt delivery) ↔
      Runs.AllSteps (Tally.step pkt mtu.toNat frags.length)
        (Tally.Ready pkt mtu.toNat frags.length) Tally.start deliveries := by
  intro frags
  have hfrags : frags = pkt.fragments fragEnv.msgId mtu.toNat
      (Pieces.count mtu.toNat pkt.header.length.toNat) :=
    koePacketFragment_split hloaded hmtu hpieces hsplit
  change ∀ delivery ∈ deliveries, delivery.index < frags.length at hvalid
  rw [hfrags, length_fragments] at hvalid ⊢
  rw [← Runs.allSteps_iff]
  have hstart : Tracks pkt fragEnv.msgId mtu.toNat
      (Pieces.count mtu.toNat pkt.header.length.toNat) Receiver.start Tally.start := tracks_start
  refine Runs.allSteps_iff_of_simulates ?_ ?_ deliveries hstart hvalid
  · intro receiver tally delivery htracks hi
    exact tolerates_iff_ready hloaded hmtu rfl (by omega) htracks hi
  · intro receiver tally delivery htracks hi htolerates
    exact tracks_step hloaded (by omega) htracks hi htolerates

end Split

/-- A delivery with memory for everything. -/
def Delivery.fed (i : ℕ) : Delivery := ⟨i, ⟨true, true⟩⟩

/-- Two deliveries of the middle one of three fragments do no harm. -/
theorem zerosPacket_tolerates :
    let pkt := zerosPacket 5
    let frags := (koePacketFragment FragmentEnv.zero pkt 3 2).2
    ∀ front delivery back, [Delivery.fed 1, Delivery.fed 1] = front ++ delivery :: back →
      (front.foldl (Receiver.step frags) Receiver.start).Tolerates frags pkt delivery := by
  intro pkt frags
  have hloaded : (zerosPacket 5).Loaded := ⟨by decide, _, rfl, by decide⟩
  have hsplit : (koePacketFragment FragmentEnv.zero (zerosPacket 5) 3 2).1 = 3 := by decide +kernel
  have hlength : (koePacketFragment FragmentEnv.zero (zerosPacket 5) 3 2).2.length = 3 := by
    decide +kernel
  refine (koePacketReassemble_tolerates_iff hloaded (by decide) (by decide) (by rw [hsplit]; omega)
    _ ?_).mpr ?_
  · intro delivery hdelivery
    have hfed : delivery = Delivery.fed 1 := by simpa using hdelivery
    rw [hfed, hlength]
    change 1 < 3
    omega
  · rw [hlength]
    refine ⟨?_, ?_, trivial⟩
    · intro hcompletes
      exact absurd hcompletes.2.1 (by decide)
    · intro hcompletes
      exact absurd hcompletes.2.1 (by decide)

/-- Of the two fragments of two bytes the first arrives twice. The second delivery returns `1` and
one byte, and the other fragment was never delivered. -/
theorem koePacketReassemble_counts_duplicate :
    let pkt := zerosPacket 2
    let result := koePacketFragment FragmentEnv.zero pkt 2 1
    let receiver := Receiver.start.step result.2 (Delivery.fed 0)
    result.1 = 2 ∧ pkt.payload = some [0, 0] ∧
      (receiver.call result.2 (Delivery.fed 0) Packet.zero).map
          (fun result ↦ (result.1, result.2.2.payload)) = some (1, some [0]) := by
  decide +kernel



/-! ### Each fragment once -/

/-- The packet with the marks of a fragment cleared and its checksum recomputed. -/
def Packet.unfragmented (pkt : Packet) : Packet where
  header :=
    let header :=
      { pkt.header with
        flags := pkt.header.flags &&&
          ~~~(PacketFlag.fragmented.mask ||| PacketFlag.lastFrag.mask) }
    { header with checksum := koePacketChecksum header }
  payload := pkt.payload

/-- Assumes: neither mark of a fragment, and a correct checksum. -/
theorem Packet.unfragmented_eq {pkt : Packet}
    (hflags : pkt.header.flags &&& (PacketFlag.fragmented.mask ||| PacketFlag.lastFrag.mask) = 0)
    (hchecksum : pkt.header.checksum = koePacketChecksum pkt.header) : pkt.unfragmented = pkt := by
  have hcleared : pkt.header.flags &&&
      ~~~(PacketFlag.fragmented.mask ||| PacketFlag.lastFrag.mask) = pkt.header.flags := by
    generalize PacketFlag.fragmented.mask ||| PacketFlag.lastFrag.mask = mask at hflags ⊢
    rw [← UInt8.toBitVec_inj] at hflags ⊢
    ext i hi
    have hbit := congrArg (fun bits : BitVec 8 ↦ bits[i]) hflags
    simp at hbit ⊢
    grind
  rw [Packet.unfragmented, hcleared]
  change Packet.mk { pkt.header with checksum := koePacketChecksum pkt.header } pkt.payload = pkt
  rw [← hchecksum]

theorem reassembledPacket_eq_unfragmented {pkt : Packet} (hloaded : pkt.Loaded) :
    reassembledPacket pkt.header pkt.header.length.toNat pkt.payloadBytes = pkt.unfragmented := by
  rw [reassembledPacket, UInt32.ofNat_toNat, ← hloaded.payload_eq]
  rfl

section Once

variable {pkt : Packet} {msgId : Block 16} {size n : ℕ} (hloaded : pkt.Loaded) (hsize : 0 < size)
  (hcount : n = Pieces.count size pkt.header.length.toNat) (hn : n < 256)
  (hsized : ∀ i, 18 + (Pieces.piece size pkt.payloadBytes i).length < 2 ^ 32)

include hloaded hsize hcount hn hsized

/-- While fragments are missing, the receiver has stored exactly the fragments delivered. Assumes: a
message of fewer than 256 fragments, none too large for its length field, and fewer deliveries than
fragments. -/
theorem tracks_front (front : List ℕ) :
    (∀ i ∈ front, i < n) → front.length < n →
      Tracks pkt msgId size n
        ((front.map Delivery.fed).foldl (Receiver.step (pkt.fragments msgId size n))
          Receiver.start) ⟨front, false⟩ := by
  induction front using List.reverseRecOn with
  | nil =>
    intro _ _
    exact tracks_start
  | append_singleton front i ih =>
    intro hvalid hlength
    rw [List.length_append, List.length_singleton] at hlength
    have hi : i < n := hvalid i (by simp)
    have htracks := ih (fun j hj ↦ hvalid j (List.mem_append_left _ hj)) (by omega)
    have hwaits : ¬ Tally.Completes pkt size n ⟨front, false⟩ (Delivery.fed i) := by
      intro hcompletes
      have hreached : n ≤ (front.length + 1) % 256 := hcompletes.2.1
      omega
    have hready : Tally.Ready pkt size n ⟨front, false⟩ (Delivery.fed i) := by
      intro hcompletes
      exact absurd hcompletes hwaits
    have htolerates := (tolerates_iff_ready hloaded hsize hcount hn htracks hi).mpr hready
    have hstores : (Delivery.fed i).Stores pkt size := ⟨rfl, hsized i⟩
    have hstep : Tally.step pkt size n ⟨front, false⟩ (Delivery.fed i) = ⟨front ++ [i], false⟩ := by
      simp only [Tally.step, if_pos hstores, decide_eq_false hwaits, Bool.or_false]
      rfl
    have hnext := tracks_step hloaded hn htracks hi htolerates
    rw [hstep] at hnext
    rw [List.map_append, List.foldl_append]
    exact hnext

/-- What a delivery returns when each fragment arrives once. Assumes: as above. -/
theorem call_any_order {order front back : List ℕ} {i : ℕ} (hperm : order.Perm (List.range n))
    (hsplit : order = front ++ i :: back) (outPkt : Packet) :
    ∃ ctx, ((front.map Delivery.fed).foldl (Receiver.step (pkt.fragments msgId size n))
        Receiver.start).call (pkt.fragments msgId size n) (Delivery.fed i) outPkt =
      some (if back = [] then (1, ctx, pkt.unfragmented) else (0, ctx, outPkt)) := by
  have hlength : front.length + (back.length + 1) = n := by
    have hall := hperm.length_eq
    rwa [hsplit, List.length_append, List.length_cons, List.length_range] at hall
  have hmem (j : ℕ) : j ∈ order ↔ j < n := hperm.mem_iff.trans List.mem_range
  have hfront : ∀ j ∈ front, j < n := by
    intro j hj
    rw [← hmem, hsplit]
    exact List.mem_append_left _ hj
  have hi : i < n := by
    rw [← hmem, hsplit]
    exact List.mem_append_right _ List.mem_cons_self
  have hstores : (Delivery.fed i).Stores pkt size := ⟨rfl, hsized i⟩
  have htracks : Tracks pkt msgId size n _ ⟨front, false⟩ :=
    tracks_front hloaded hsize hcount hn hsized front hfront (by omega)
  obtain ⟨ctx, hctx, hcounts, hholds, -, -⟩ := htracks
  by_cases hlast : back = []
  · have hend : front.length + 1 = n := by
      rw [hlast, List.length_nil] at hlength
      exact hlength
    have hcompletes : Tally.Completes pkt size n ⟨front, false⟩ (Delivery.fed i) := by
      refine ⟨hstores, ?_, rfl⟩
      change n ≤ (front.length + 1) % 256
      omega
    have hall : ∀ j < n, j ∈ front ++ [i] := by
      intro j hj
      rw [← hmem, hsplit, hlast] at hj
      exact hj
    have hstored : (ctx.holding pkt msgId size n (Delivery.fed i).index).Holds pkt size n
        (front ++ [i]) := (hholds rfl).holding hn hi (hsized i)
    obtain ⟨hcopied, htotal⟩ := copied_of_all hloaded hsize hcount hstored hall
    refine ⟨(ctx.holding pkt msgId size n (Delivery.fed i).index).released, ?_⟩
    rw [call_of_completes hn hctx hcounts hi hcompletes outPkt, if_pos hlast, hcopied, htotal,
      Option.map_some, reassembledPacket_eq_unfragmented hloaded]
  · have hwaits : (front.length + 1) % 256 < n := by
      have hpos : 0 < back.length := List.length_pos_iff.mpr hlast
      omega
    refine ⟨ctx.holding pkt msgId size n (Delivery.fed i).index, ?_⟩
    rw [call_of_waits hn hctx hcounts hi hstores hwaits outPkt, if_neg hlast]

end Once

/-- The fragments of a message, each delivered once and in any order, are put together again.
Assumes: a payload of the announced positive length, an mtu with which the sum stays in 64 bits, at
most 255 fragments and at most `max_frags`, pieces that fit 32 bits together with the 18 bytes in
front of them, and memory. Every call returns `0` but the last, which returns `1` and the packet
with the marks of a fragment cleared and its checksum recomputed. This is the packet itself if it
had neither mark and a correct checksum. -/
theorem koePacketReassemble_any_order {pkt : Packet} (hloaded : pkt.Loaded) {mtu : UInt64}
    (hmtu : 0 < mtu.toNat) (hwidth : pkt.header.length.toNat + mtu.toNat < 2 ^ 64)
    (hbyte : Pieces.count mtu.toNat pkt.header.length.toNat ≤ 255) {maxFrags : ℤ}
    (hmax : (Pieces.count mtu.toNat pkt.header.length.toNat : ℤ) ≤ maxFrags)
    (hfits : 18 + min pkt.header.length.toNat mtu.toNat < 2 ^ 32) {fragEnv : FragmentEnv}
    (halloc : ∀ i < Pieces.count mtu.toNat pkt.header.length.toNat, fragEnv.alloc i = true)
    {order : List ℕ}
    (hperm : order.Perm (List.range (Pieces.count mtu.toNat pkt.header.length.toNat))) :
    let result := koePacketFragment fragEnv pkt maxFrags mtu
    result.1 = Pieces.count mtu.toNat pkt.header.length.toNat ∧
      (∀ front i back, order = front ++ i :: back → ∀ outPkt, ∃ ctx,
        ((front.map Delivery.fed).foldl (Receiver.step result.2) Receiver.start).call result.2
            (Delivery.fed i) outPkt =
          some (if back = [] then (1, ctx, pkt.unfragmented) else (0, ctx, outPkt))) ∧
      (pkt.header.flags &&& (PacketFlag.fragmented.mask ||| PacketFlag.lastFrag.mask) = 0 →
        pkt.header.checksum = koePacketChecksum pkt.header → pkt.unfragmented = pkt) := by
  intro result
  have hcount : (fragmentCount pkt mtu).toNat =
      Pieces.count mtu.toNat pkt.header.length.toNat := by
    rw [fragmentCount_toNat hloaded hmtu, if_pos (by omega), Nat.mod_eq_of_lt (by omega)]
  have hpos : 0 < Pieces.count mtu.toNat pkt.header.length.toNat := by
    rw [Pieces.lt_count_iff hmtu, Nat.zero_mul]
    exact hloaded.length_pos
  have hresult : result = ((Pieces.count mtu.toNat pkt.header.length.toNat : ℤ),
      pkt.fragments fragEnv.msgId mtu.toNat
        (Pieces.count mtu.toNat pkt.header.length.toNat)) := by
    change koePacketFragment fragEnv pkt maxFrags mtu = _
    rw [koePacketFragment_eq hloaded hmtu (hcount ▸ hpos) (hcount ▸ hmax) (hcount ▸ halloc), hcount]
    rfl
  have hsized (i : ℕ) : 18 + (Pieces.piece mtu.toNat pkt.payloadBytes i).length < 2 ^ 32 := by
    rw [Pieces.length_piece, hloaded.length_payloadBytes]
    omega
  rw [hresult]
  refine ⟨rfl, ?_, Packet.unfragmented_eq⟩
  intro front i back hsplit outPkt
  exact call_any_order hloaded hmtu rfl (by omega) hsized hperm hsplit outPkt

/-- Five bytes in three fragments, delivered from the last to the first. -/
theorem zerosPacket_any_order :
    let pkt := zerosPacket 5
    let result := koePacketFragment FragmentEnv.zero pkt 3 2
    result.1 = 3 ∧ ∃ ctx,
      (([2, 1].map Delivery.fed).foldl (Receiver.step result.2) Receiver.start).call result.2
          (Delivery.fed 0) Packet.zero = some (1, ctx, pkt) := by
  intro pkt result
  have hloaded : (zerosPacket 5).Loaded := ⟨by decide, _, rfl, by decide⟩
  have hcount : Pieces.count (2 : UInt64).toNat (zerosPacket 5).header.length.toNat = 3 := by decide
  have hperm : [2, 1, 0].Perm (List.range
      (Pieces.count (2 : UInt64).toNat (zerosPacket 5).header.length.toNat)) := by
    rw [hcount]
    decide
  have hmax : (Pieces.count (2 : UInt64).toNat (zerosPacket 5).header.length.toNat : ℤ) ≤ 3 := by
    rw [hcount]
    exact Int.le_refl 3
  have halloc : ∀ i < Pieces.count (2 : UInt64).toNat (zerosPacket 5).header.length.toNat,
      FragmentEnv.zero.alloc i = true := fun _ _ ↦ rfl
  obtain ⟨hrc, hcalls, hsame⟩ := koePacketReassemble_any_order hloaded (by decide) (by decide)
    (by decide) hmax (by decide) halloc hperm
  obtain ⟨ctx, hlast⟩ := hcalls [2, 1] 0 [] rfl Packet.zero
  rw [if_pos rfl, hsame (by decide) (zerosPacket_checksum 5)] at hlast
  exact ⟨hrc, ctx, hlast⟩

/-- A payload of `2 ^ 32 - 1` bytes in a single fragment, which leaves no room in the length field
for the 18 bytes in front of it. Its only delivery is refused. -/
theorem koePacketReassemble_refuses_oversized :
    let pkt := zerosPacket (2 ^ 32 - 1)
    let mtu : UInt64 := 2 ^ 33
    let result := koePacketFragment FragmentEnv.zero pkt 255 mtu
    pkt.Loaded ∧ pkt.header.length.toNat + mtu.toNat < 2 ^ 64 ∧
      Pieces.count mtu.toNat pkt.header.length.toNat = 1 ∧ result.1 = 1 ∧
      Receiver.start.call result.2 (Delivery.fed 0) Packet.zero =
        some (-1, Reassembly.zero, Packet.zero) := by
  intro pkt mtu result
  have hlength : pkt.header.length.toNat = 2 ^ 32 - 1 := by decide +kernel
  have hmtu : mtu.toNat = 2 ^ 33 := by decide +kernel
  have hcount : (fragmentCount pkt mtu).toNat = 1 := by decide +kernel
  have hloaded : pkt.Loaded := by
    refine ⟨by decide +kernel, _, rfl, ?_⟩
    rw [hlength, List.length_replicate]
  have hresult : result = ((1 : ℤ), pkt.fragments (Block.zero 16) mtu.toNat 1) := by
    have hmemory : ∀ i < (fragmentCount pkt mtu).toNat, FragmentEnv.zero.alloc i = true :=
      fun _ _ ↦ rfl
    have hmax : ((fragmentCount pkt mtu).toNat : ℤ) ≤ 255 := by
      rw [hcount]
      omega
    have heq := koePacketFragment_eq hloaded (by rw [hmtu]; omega) (hcount ▸ Nat.one_pos) hmax
      hmemory
    rw [hcount] at heq
    exact heq
  have hsize : ¬ 18 + (Pieces.piece mtu.toNat pkt.payloadBytes 0).length < 2 ^ 32 := by
    rw [Pieces.length_piece, hloaded.length_payloadBytes, hlength, hmtu]
    omega
  refine ⟨hloaded, by omega, by rw [hlength, hmtu]; decide, by rw [hresult], ?_⟩
  rw [hresult, Receiver.call, Receiver.start, Option.bind_some]
  change koePacketReassemble _ _ ((pkt.fragments _ _ 1).getD 0 Packet.zero) _ = _
  rw [getD_fragments Nat.one_pos]
  exact koePacketReassemble_oversized hloaded hsize _ _ _

end KoeCore
