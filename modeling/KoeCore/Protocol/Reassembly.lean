import KoeCore.Library.Runs
import KoeCore.Protocol.Fragment
import Mathlib.Algebra.Ring.Nat

/-!
# Reassembly

`koe_packet_reassemble` stores the data of each fragment in the slot of its index and counts the
calls. Once as many fragments are stored as the message has, it copies the slots, one after the
other, into the output packet.
-/

set_option autoImplicit false
set_option relaxedAutoImplicit false

namespace KoeCore

open ByteWire

/-- `koe_reassembly_t`. An array of 256 places is a function on bytes, and `none` is `NULL`. -/
structure Reassembly where
  msgId : Block 16
  totalFragments : UInt8
  received : UInt8
  fragments : UInt8 → Option (List UInt8)
  fragLengths : UInt8 → UInt32

/-- A zero-initialised context. -/
def Reassembly.zero : Reassembly := ⟨Block.zero 16, 0, 0, fun _ ↦ none, fun _ ↦ 0⟩

/-- Whether the two calls of `malloc` succeed, for the data of a fragment and for the output. -/
structure ReassembleEnv where
  dataAlloc : Bool
  outAlloc : Bool

/-- The context after the first fragment of a message, or the context as it is. -/
def Reassembly.opened (ctx : Reassembly) (msgId : Block 16) (total : UInt8) : Reassembly :=
  if ctx.received = 0 then { ctx with msgId := msgId, totalFragments := total } else ctx

/-- The context with the data of a fragment in its slot. -/
def Reassembly.stored (ctx : Reassembly) (fragIndex : UInt8) (data : List UInt8)
    (dataLen : UInt32) : Reassembly :=
  { ctx with
    fragments := Function.update ctx.fragments fragIndex (some data)
    fragLengths := Function.update ctx.fragLengths fragIndex dataLen
    received := ctx.received + 1 }

/-- The context after the copying loop, which frees the slots and leaves their lengths. -/
def Reassembly.released (ctx : Reassembly) : Reassembly :=
  { ctx with fragments := fun i ↦ if i < ctx.totalFragments then none else ctx.fragments i }

/-- What the copying loop copies from a slot. A slot without data has no bytes to copy, and `none`
is a copy of a positive number of bytes from `NULL`. -/
def Reassembly.slot (ctx : Reassembly) (i : ℕ) : Option (List UInt8) :=
  match ctx.fragments (UInt8.ofNat i) with
  | some data => some (data.take (ctx.fragLengths (UInt8.ofNat i)).toNat)
  | none => if ctx.fragLengths (UInt8.ofNat i) = 0 then some [] else none

/-- What the copying loop copies from the first slots. -/
def Reassembly.copied (ctx : Reassembly) : ℕ → Option (List UInt8)
  | 0 => some []
  | n + 1 => (ctx.copied n).bind fun front ↦ (ctx.slot n).map fun data ↦ front ++ data

/-- `total_len`, the sum of the first recorded lengths. -/
def Reassembly.totalLen (ctx : Reassembly) (n : ℕ) : ℕ :=
  ((List.range n).map fun i ↦ (ctx.fragLengths (UInt8.ofNat i)).toNat).sum

/-- The output packet, from the header of the fragment that arrived last. -/
def reassembledPacket (hdr : Header) (totalLen : ℕ) (payload : List UInt8) : Packet :=
  let header :=
    { hdr with
      length := UInt32.ofNat totalLen
      flags := hdr.flags &&& ~~~(PacketFlag.fragmented.mask ||| PacketFlag.lastFrag.mask) }
  { header := { header with checksum := koePacketChecksum header }, payload := some payload }

/-- The return code, the context and the output packet after the call, or `none` when the copying
loop reads from `NULL`. -/
def koePacketReassemble (env : ReassembleEnv) (ctx : Reassembly) (frag outPkt : Packet) :
    Option (ℤ × Reassembly × Packet) :=
  if frag.payload.isNone ∨ frag.header.length < 18 then some (-1, ctx, outPkt)
  else
    let msgId := readAt 16 0 frag.payloadBytes
    let fragIndex := byteAt 16 frag.payloadBytes
    let total := byteAt 17 frag.payloadBytes
    if ctx.received ≠ 0 ∧ ctx.msgId ≠ msgId then some (-1, ctx, outPkt)
    else
      let ctx := ctx.opened msgId total
      if !env.dataAlloc then some (-1, ctx, outPkt)
      else
        let ctx := ctx.stored fragIndex (frag.payloadBytes.drop 18) (frag.header.length - 18)
        if ctx.received < ctx.totalFragments then some (0, ctx, outPkt)
        else if !env.outAlloc then some (-1, ctx, ⟨frag.header, none⟩)
        else
          (ctx.copied ctx.totalFragments.toNat).map fun payload ↦
            (1, ctx.released,
              reassembledPacket frag.header (ctx.totalLen ctx.totalFragments.toNat) payload)

/-! ### A call with a fragment of a message -/

section Fragment

variable {pkt : Packet} {msgId : Block 16} {size n : ℕ}

/-- The flags that mark fragments are cleared again. -/
theorem clear_fragment_flags (flags : UInt8) (last : Prop) [Decidable last] :
    (if last then flags ||| PacketFlag.fragmented.mask ||| PacketFlag.lastFrag.mask
        else flags ||| PacketFlag.fragmented.mask) &&&
        ~~~(PacketFlag.fragmented.mask ||| PacketFlag.lastFrag.mask) =
      flags &&& ~~~(PacketFlag.fragmented.mask ||| PacketFlag.lastFrag.mask) := by
  generalize PacketFlag.fragmented.mask = first
  generalize PacketFlag.lastFrag.mask = second
  apply UInt8.toBitVec_inj.mp
  split_ifs
  · ext i hi
    simp
    grind
  · ext i hi
    simp
    grind

/-- Every fragment gives the output packet the same header. -/
theorem reassembledPacket_fragment (i totalLen : ℕ) (payload : List UInt8) :
    reassembledPacket (pkt.fragment msgId size n i).header totalLen payload =
      reassembledPacket pkt.header totalLen payload := by
  have hflags := clear_fragment_flags pkt.header.flags (i + 1 = n)
  -- The checksum of the fragment is not among the bytes that the new one covers.
  simp only [reassembledPacket, Packet.fragment, hflags]
  rfl

/-- A fragment that is too large for its own length field is refused. Assumes: a piece that leaves
32 bits together with the 18 bytes in front of it. -/
theorem koePacketReassemble_oversized (hloaded : pkt.Loaded) {i : ℕ}
    (hsize : ¬ 18 + (Pieces.piece size pkt.payloadBytes i).length < 2 ^ 32) (env : ReassembleEnv)
    (ctx : Reassembly) (outPkt : Packet) :
    koePacketReassemble env ctx (pkt.fragment msgId size n i) outPkt = some (-1, ctx, outPkt) := by
  have hpiece := Pieces.length_piece size pkt.payloadBytes i
  rw [hloaded.length_payloadBytes] at hpiece
  have hlength : pkt.header.length.toNat < 2 ^ 32 := pkt.header.length.toNat_lt
  have hshort : (pkt.fragment msgId size n i).header.length < 18 := by
    change UInt32.ofNat (18 + (Pieces.piece size pkt.payloadBytes i).length) < 18
    rw [UInt32.lt_iff_toNat_lt, UInt32.toNat_ofNat']
    change _ < 18
    omega
  rw [koePacketReassemble, if_pos (Or.inr hshort)]

/-- The context belongs to the message, or has not received anything. -/
def Reassembly.Belongs (ctx : Reassembly) (msgId : Block 16) (n : ℕ) : Prop :=
  ctx.received ≠ 0 → ctx.msgId = msgId ∧ ctx.totalFragments = UInt8.ofNat n

/-- The context with the message id and the number of fragments set. -/
def Reassembly.named (ctx : Reassembly) (msgId : Block 16) (n : ℕ) : Reassembly :=
  { ctx with msgId := msgId, totalFragments := UInt8.ofNat n }

/-- The context with the piece of a given index stored. -/
def Reassembly.holding (ctx : Reassembly) (pkt : Packet) (msgId : Block 16) (size n i : ℕ) :
    Reassembly :=
  (ctx.named msgId n).stored (UInt8.ofNat i) (Pieces.piece size pkt.payloadBytes i)
    (UInt32.ofNat (Pieces.piece size pkt.payloadBytes i).length)

/-- What a call does with a fragment of a message. Assumes: a context of that message, and a piece
that fits 32 bits together with the 18 bytes in front of it. -/
theorem koePacketReassemble_fragment {ctx : Reassembly} (hbelongs : ctx.Belongs msgId n) {i : ℕ}
    (hsize : 18 + (Pieces.piece size pkt.payloadBytes i).length < 2 ^ 32) (env : ReassembleEnv)
    (outPkt : Packet) :
    koePacketReassemble env ctx (pkt.fragment msgId size n i) outPkt =
      if !env.dataAlloc then some (-1, ctx.named msgId n, outPkt)
      else if ctx.received + 1 < UInt8.ofNat n then
        some (0, ctx.holding pkt msgId size n i, outPkt)
      else if !env.outAlloc then
        some (-1, ctx.holding pkt msgId size n i, ⟨(pkt.fragment msgId size n i).header, none⟩)
      else
        ((ctx.holding pkt msgId size n i).copied (UInt8.ofNat n).toNat).map fun payload ↦
          (1, (ctx.holding pkt msgId size n i).released,
            reassembledPacket pkt.header
              ((ctx.holding pkt msgId size n i).totalLen (UInt8.ofNat n).toNat) payload) := by
  have hlength : (pkt.fragment msgId size n i).header.length.toNat =
      18 + (Pieces.piece size pkt.payloadBytes i).length := Packet.fragment_length hsize
  have hpresent : ¬ ((pkt.fragment msgId size n i).payload.isNone ∨
      (pkt.fragment msgId size n i).header.length < 18) := by
    rw [not_or, UInt32.lt_iff_toNat_lt, hlength]
    refine ⟨Bool.false_ne_true, ?_⟩
    change ¬ 18 + _ < 18
    omega
  have hsame : ¬ (ctx.received ≠ 0 ∧ ctx.msgId ≠ msgId) := by
    intro hother
    exact hother.2 (hbelongs hother.1).1
  have hopened : ctx.opened msgId (UInt8.ofNat n) = ctx.named msgId n := by
    unfold Reassembly.opened Reassembly.named
    split_ifs with hfirst
    · rfl
    · rw [← (hbelongs hfirst).1, ← (hbelongs hfirst).2]
  have hdataLen : (pkt.fragment msgId size n i).header.length - 18 =
      UInt32.ofNat (Pieces.piece size pkt.payloadBytes i).length := by
    have hle : (18 : UInt32) ≤ (pkt.fragment msgId size n i).header.length := by
      rw [UInt32.le_iff_toNat_le, hlength]
      exact Nat.le_add_right 18 _
    rw [← UInt32.toNat_inj, UInt32.toNat_sub_of_le _ _ hle, hlength, UInt32.toNat_ofNat']
    change 18 + _ - 18 = _
    omega
  rw [koePacketReassemble, if_neg hpresent]
  simp only [Packet.fragment_msgId hsize, Packet.fragment_index hsize,
    Packet.fragment_total hsize, Packet.fragment_data hsize, if_neg hsame, hopened, hdataLen,
    reassembledPacket_fragment]
  rfl

end Fragment

/-! ### What a context holds -/

/-- The context has counted `k` fragments of the message. -/
structure Reassembly.Counts (ctx : Reassembly) (msgId : Block 16) (n k : ℕ) : Prop where
  received : ctx.received = UInt8.ofNat k
  belongs : ctx.Belongs msgId n

/-- The slots of the message hold the pieces that were stored, and the others are empty. -/
structure Reassembly.Holds (ctx : Reassembly) (pkt : Packet) (size n : ℕ) (stored : List ℕ) :
    Prop where
  slots : ∀ i < n, ctx.fragments (UInt8.ofNat i) =
    if i ∈ stored then some (Pieces.piece size pkt.payloadBytes i) else none
  lengths : ∀ i < n, ctx.fragLengths (UInt8.ofNat i) =
    if i ∈ stored then UInt32.ofNat (Pieces.piece size pkt.payloadBytes i).length else 0
  sized : ∀ i ∈ stored, 18 + (Pieces.piece size pkt.payloadBytes i).length < 2 ^ 32

section Invariant

variable {ctx : Reassembly} {pkt : Packet} {msgId : Block 16} {size n k : ℕ} {stored : List ℕ}

theorem counts_zero : Reassembly.zero.Counts msgId n 0 :=
  ⟨rfl, fun hreceived ↦ absurd rfl hreceived⟩

theorem holds_zero : Reassembly.zero.Holds pkt size n [] where
  slots := fun _ _ ↦ rfl
  lengths := fun _ _ ↦ rfl
  sized := fun _ hmem ↦ absurd hmem List.not_mem_nil

theorem Reassembly.Counts.named (hcounts : ctx.Counts msgId n k) :
    (ctx.named msgId n).Counts msgId n k :=
  ⟨hcounts.received, fun _ ↦ ⟨rfl, rfl⟩⟩

theorem Reassembly.Counts.holding (hcounts : ctx.Counts msgId n k) (i : ℕ) :
    (ctx.holding pkt msgId size n i).Counts msgId n (k + 1) := by
  refine ⟨?_, fun _ ↦ ⟨rfl, rfl⟩⟩
  change ctx.received + 1 = UInt8.ofNat (k + 1)
  rw [hcounts.received, UInt8.ofNat_add]
  rfl

theorem Reassembly.Counts.released (hcounts : ctx.Counts msgId n k) :
    ctx.released.Counts msgId n k :=
  ⟨hcounts.received, hcounts.belongs⟩

/-- The count is compared with the number of fragments as a byte. Assumes: fewer than 256
fragments. -/
theorem Reassembly.Counts.waits_iff (hcounts : ctx.Counts msgId n k) (hn : n < 256) :
    ctx.received + 1 < UInt8.ofNat n ↔ (k + 1) % 256 < n := by
  rw [hcounts.received, UInt8.lt_iff_toNat_lt, UInt8.toNat_add, UInt8.toNat_ofNat',
    UInt8.toNat_ofNat', Nat.mod_eq_of_lt hn]
  change (k % 256 + 1) % 256 < n ↔ _
  omega

theorem Reassembly.Holds.named (hholds : ctx.Holds pkt size n stored) :
    (ctx.named msgId n).Holds pkt size n stored :=
  ⟨hholds.slots, hholds.lengths, hholds.sized⟩

/-- Assumes: fewer than 256 fragments, and the index of a piece that fits 32 bits. -/
theorem Reassembly.Holds.holding (hholds : ctx.Holds pkt size n stored) (hn : n < 256) {i : ℕ}
    (hi : i < n) (hsize : 18 + (Pieces.piece size pkt.payloadBytes i).length < 2 ^ 32) :
    (ctx.holding pkt msgId size n i).Holds pkt size n (stored ++ [i]) := by
  have hbyte (j : ℕ) (hj : j < n) : UInt8.ofNat j = UInt8.ofNat i ↔ j = i := by
    rw [← UInt8.toNat_inj, UInt8.toNat_ofNat', UInt8.toNat_ofNat', Nat.mod_eq_of_lt (by omega),
      Nat.mod_eq_of_lt (by omega)]
  constructor
  · intro j hj
    change Function.update ctx.fragments _ _ _ = _
    rw [Function.update_apply, hholds.slots j hj]
    by_cases hsame : j = i
    · simp [hsame]
    · simp [hbyte j hj, hsame]
  · intro j hj
    change Function.update ctx.fragLengths _ _ _ = _
    rw [Function.update_apply, hholds.lengths j hj]
    by_cases hsame : j = i
    · simp [hsame]
    · simp [hbyte j hj, hsame]
  · intro j hj
    rcases List.mem_append.mp hj with hold | hnew
    · exact hholds.sized j hold
    · rwa [List.mem_singleton.mp hnew]

theorem Reassembly.Holds.slot_eq (hholds : ctx.Holds pkt size n stored) {i : ℕ} (hi : i < n) :
    ctx.slot i = some (if i ∈ stored then Pieces.piece size pkt.payloadBytes i else []) := by
  unfold Reassembly.slot
  rw [hholds.slots i hi, hholds.lengths i hi]
  by_cases hmem : i ∈ stored
  · have hsized := hholds.sized i hmem
    have hlength : (UInt32.ofNat (Pieces.piece size pkt.payloadBytes i).length).toNat =
        (Pieces.piece size pkt.payloadBytes i).length := by
      rw [UInt32.toNat_ofNat', Nat.mod_eq_of_lt (by omega)]
    simp only [if_pos hmem, hlength, List.take_length]
  · simp only [if_neg hmem, if_true]

/-- The copying loop copies the stored pieces in the order of their indices. -/
theorem Reassembly.Holds.copied_eq (hholds : ctx.Holds pkt size n stored) {m : ℕ} (hm : m ≤ n) :
    ctx.copied m = some ((List.range m).flatMap fun i ↦
      if i ∈ stored then Pieces.piece size pkt.payloadBytes i else []) := by
  induction m with
  | zero => rfl
  | succ m ih =>
    rw [Reassembly.copied, ih (by omega), Option.bind_some, hholds.slot_eq (by omega),
      Option.map_some, List.range_succ, List.flatMap_append, List.flatMap_singleton]

/-- Assumes: every piece is stored. -/
theorem Reassembly.Holds.totalLen_eq (hholds : ctx.Holds pkt size n stored)
    (hall : ∀ i < n, i ∈ stored) :
    ctx.totalLen n = ((List.range n).flatMap (Pieces.piece size pkt.payloadBytes)).length := by
  rw [Reassembly.totalLen, List.length_flatMap]
  congr 1
  apply List.map_congr_left
  intro i hi
  have hlt := List.mem_range.mp hi
  have hsized := hholds.sized i (hall i hlt)
  rw [hholds.lengths i hlt, if_pos (hall i hlt), UInt32.toNat_ofNat', Nat.mod_eq_of_lt (by omega)]

end Invariant

end KoeCore
