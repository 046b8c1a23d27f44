import KoeCore.Library.Pieces
import KoeCore.Protocol.Packet

/-!
# Fragmentation

`koe_packet_fragment` cuts a payload into pieces of `mtu` bytes, puts 18 bytes in front of each, a
random message id, the index of the piece and the number of pieces, and sends every piece under a
copy of the packet's header. `Packet.fragment` is the fragment that the format intends, and the loop
produces these fragments (`fragmentLoop_eq`).

The number of pieces is narrowed to a byte before it is compared with anything. A payload of more
than 255 pieces is therefore cut off after its first few, with a successful return code, unless the
low byte happens to be `0` or above `max_frags` (`koePacketFragment_carries_iff`).

The 18 bytes in front of a piece are not counted in its size. A payload that does not leave room for
them is sent in fragments of up to `mtu + 18` bytes (`koePacketFragment_within_iff`).
-/

set_option autoImplicit false
set_option relaxedAutoImplicit false

namespace KoeCore

open ByteWire

/-- What `koe_packet_fragment` takes from its environment: the message id it draws, and whether
`malloc` succeeds for each fragment. -/
structure FragmentEnv where
  msgId : Block 16
  alloc : ℕ → Bool

/-- `total_frags`, computed in 64 bits and narrowed to a byte. -/
def fragmentCount (pkt : Packet) (mtu : UInt64) : UInt8 :=
  ((pkt.header.length.toUInt64 + mtu - 1) / mtu).toUInt8

/-- The size of the piece at an offset. -/
def fragmentChunk (pkt : Packet) (offset mtu : UInt64) : UInt64 :=
  if offset + mtu > pkt.header.length.toUInt64 then pkt.header.length.toUInt64 - offset else mtu

/-- One entry of `out_frags`. -/
def fragmentAt (msgId : Block 16) (pkt : Packet) (totalFrags i : UInt8) (offset chunk : UInt64) :
    Packet :=
  let flags := pkt.header.flags ||| PacketFlag.fragmented.mask
  let header :=
    { pkt.header with
      length := (18 + chunk).toUInt32
      flags := if i = totalFrags - 1 then flags ||| PacketFlag.lastFrag.mask else flags }
  { header := { header with checksum := koePacketChecksum header }
    payload := some (msgId.toList ++ [i] ++ [totalFrags] ++
      ((pkt.payload.getD []).drop offset.toNat).take chunk.toNat) }

/-- The loop with a given number of iterations left. The list is what it has written to `out_frags`,
and its length the loop counter, a byte, and `count`. -/
def fragmentLoop (env : FragmentEnv) (pkt : Packet) (mtu : UInt64) (totalFrags : UInt8) :
    ℕ → UInt64 → List Packet → ℤ × List Packet
  | 0, _, frags => (frags.length, frags)
  | left + 1, offset, frags =>
    if !env.alloc frags.length then (-1, frags)
    else
      let chunk := fragmentChunk pkt offset mtu
      fragmentLoop env pkt mtu totalFrags left (offset + chunk)
        (frags ++ [fragmentAt env.msgId pkt totalFrags (UInt8.ofNat frags.length) offset chunk])

/-- The return code, and the entries of `out_frags` that the call writes. An `mtu` of zero, on which
the C code divides by zero, gives no fragments. -/
def koePacketFragment (env : FragmentEnv) (pkt : Packet) (maxFrags : ℤ) (mtu : UInt64) :
    ℤ × List Packet :=
  if pkt.payload.isNone ∨ pkt.header.length = 0 then (-1, [])
  else
    let totalFrags := fragmentCount pkt mtu
    if maxFrags < totalFrags.toNat ∨ totalFrags = 0 then (-1, [])
    else fragmentLoop env pkt mtu totalFrags totalFrags.toNat 0 []

/-! ### The fragments of a packet -/

/-- The fragment with index `i` of `n`, for pieces of a given size. -/
def Packet.fragment (pkt : Packet) (msgId : Block 16) (size n i : ℕ) : Packet :=
  let flags := pkt.header.flags ||| PacketFlag.fragmented.mask
  let header :=
    { pkt.header with
      length := UInt32.ofNat (18 + (Pieces.piece size pkt.payloadBytes i).length)
      flags := if i + 1 = n then flags ||| PacketFlag.lastFrag.mask else flags }
  { header := { header with checksum := koePacketChecksum header }
    payload := some (msgId.toList ++ [UInt8.ofNat i] ++ [UInt8.ofNat n] ++
      Pieces.piece size pkt.payloadBytes i) }

/-- The header announces some bytes, and the payload has them. -/
def Packet.Loaded (pkt : Packet) : Prop :=
  pkt.header.length ≠ 0 ∧ ∃ bytes, pkt.payload = some bytes ∧
    bytes.length = pkt.header.length.toNat

section Loaded

variable {pkt : Packet} (hloaded : pkt.Loaded)

include hloaded

theorem Packet.Loaded.payload_eq : pkt.payload = some pkt.payloadBytes := by
  obtain ⟨-, bytes, hpayload, hlength⟩ := hloaded
  rw [Packet.payloadBytes_eq hpayload hlength.symm, hpayload]

theorem Packet.Loaded.length_payloadBytes :
    pkt.payloadBytes.length = pkt.header.length.toNat := by
  obtain ⟨-, bytes, hpayload, hlength⟩ := hloaded
  rw [Packet.payloadBytes_eq hpayload hlength.symm, hlength]

theorem Packet.Loaded.length_pos : 0 < pkt.header.length.toNat := by
  have hzero : pkt.header.length.toNat ≠ (0 : UInt32).toNat := by
    rw [Ne, UInt32.toNat_inj]
    exact hloaded.1
  exact Nat.pos_of_ne_zero hzero

/-- The count is the number of pieces modulo 256, or zero when the sum in it leaves 64 bits.
Assumes: a loaded packet and a positive mtu. -/
theorem fragmentCount_toNat {mtu : UInt64} (hmtu : 0 < mtu.toNat) :
    (fragmentCount pkt mtu).toNat =
      if pkt.header.length.toNat + mtu.toNat - 1 < 2 ^ 64 then
        Pieces.count mtu.toNat pkt.header.length.toNat % 256
      else 0 := by
  have hpos := hloaded.length_pos
  have hlength : pkt.header.length.toNat < 2 ^ 32 := pkt.header.length.toNat_lt
  have hmtuLt : mtu.toNat < 2 ^ 64 := mtu.toNat_lt
  have hsum : (pkt.header.length.toUInt64 + mtu - 1).toNat =
      (pkt.header.length.toNat + mtu.toNat - 1) % 2 ^ 64 := by
    rw [UInt64.toNat_sub, UInt64.toNat_add, UInt32.toNat_toUInt64]
    simp only [UInt64.toNat_one]
    omega
  rw [fragmentCount, UInt64.toNat_toUInt8, UInt64.toNat_div, hsum, Pieces.count]
  split_ifs with hfits
  · rw [Nat.mod_eq_of_lt hfits]
  · -- The wrapped sum is below the mtu, so the quotient is zero.
    rw [Nat.div_eq_of_lt (by omega)]

/-- Assumes: a loaded packet, an mtu for which the count stays in 64 bits, and a piece that starts
at the offset. The chunk is the size of that piece. -/
theorem fragmentChunk_toNat {mtu offset : UInt64} {i : ℕ}
    (hwidth : pkt.header.length.toNat + mtu.toNat - 1 < 2 ^ 64)
    (hoffset : offset.toNat = i * mtu.toNat) (hstart : i * mtu.toNat < pkt.header.length.toNat) :
    (fragmentChunk pkt offset mtu).toNat =
      (Pieces.piece mtu.toNat pkt.payloadBytes i).length := by
  have hend : (offset + mtu).toNat = i * mtu.toNat + mtu.toNat := by
    rw [UInt64.toNat_add, hoffset]
    exact Nat.mod_eq_of_lt (by omega)
  have hle : offset ≤ pkt.header.length.toUInt64 := by
    rw [UInt64.le_iff_toNat_le, UInt32.toNat_toUInt64, hoffset]
    omega
  rw [Pieces.length_piece, hloaded.length_payloadBytes, fragmentChunk]
  split_ifs with hlast
  · rw [gt_iff_lt, UInt64.lt_iff_toNat_lt, UInt32.toNat_toUInt64, hend] at hlast
    rw [UInt64.toNat_sub_of_le _ _ hle, UInt32.toNat_toUInt64, hoffset]
    omega
  · rw [gt_iff_lt, UInt64.lt_iff_toNat_lt, UInt32.toNat_toUInt64, hend] at hlast
    omega

/-- Assumes: as above, and an index below a count in a byte. The entry is the intended fragment. -/
theorem fragmentAt_eq {mtu offset : UInt64} {totalFrags : UInt8} {i : ℕ} (msgId : Block 16)
    (hwidth : pkt.header.length.toNat + mtu.toNat - 1 < 2 ^ 64)
    (hoffset : offset.toNat = i * mtu.toNat) (hstart : i * mtu.toNat < pkt.header.length.toNat)
    (hi : i < totalFrags.toNat) :
    fragmentAt msgId pkt totalFrags (UInt8.ofNat i) offset (fragmentChunk pkt offset mtu) =
      pkt.fragment msgId mtu.toNat totalFrags.toNat i := by
  have hchunk := fragmentChunk_toNat hloaded hwidth hoffset hstart
  have hlt : totalFrags.toNat < 256 := totalFrags.toNat_lt
  have hlast : UInt8.ofNat i = totalFrags - 1 ↔ i + 1 = totalFrags.toNat := by
    have hone : (1 : UInt8) ≤ totalFrags := by
      rw [UInt8.le_iff_toNat_le, UInt8.toNat_one]
      omega
    rw [← UInt8.toNat_inj, UInt8.toNat_sub_of_le _ _ hone, UInt8.toNat_one, UInt8.toNat_ofNat',
      Nat.mod_eq_of_lt (by omega)]
    omega
  have hpiece : ((pkt.payload.getD []).drop offset.toNat).take
      (fragmentChunk pkt offset mtu).toNat = Pieces.piece mtu.toNat pkt.payloadBytes i := by
    rw [hloaded.payload_eq, Option.getD_some, hoffset, hchunk, Pieces.length_piece, Pieces.piece,
      ← List.length_drop]
    exact (List.take_eq_take_min).symm
  have hlength : (18 + fragmentChunk pkt offset mtu).toUInt32 =
      UInt32.ofNat (18 + (Pieces.piece mtu.toNat pkt.payloadBytes i).length) := by
    have hle := Pieces.length_piece mtu.toNat pkt.payloadBytes i
    rw [hloaded.length_payloadBytes] at hle
    have hsmall : pkt.header.length.toNat < 2 ^ 32 := pkt.header.length.toNat_lt
    rw [← UInt32.toNat_inj, UInt64.toNat_toUInt32, UInt64.toNat_add, hchunk, UInt32.toNat_ofNat']
    simp only [UInt64.toNat_ofNat]
    omega
  simp only [fragmentAt, Packet.fragment, hlast, hpiece, hlength, UInt8.ofNat_toNat]

/-- Assumes: a loaded packet, a positive mtu for which the count stays in 64 bits, at most as many
fragments as pieces, the fragments before `k` written, and memory for the others. The loop writes
the intended fragments. -/
theorem fragmentLoop_eq {env : FragmentEnv} {mtu : UInt64} {totalFrags : UInt8}
    (hmtu : 0 < mtu.toNat) (hwidth : pkt.header.length.toNat + mtu.toNat - 1 < 2 ^ 64)
    (hpieces : totalFrags.toNat ≤ Pieces.count mtu.toNat pkt.header.length.toNat) (left : ℕ) :
    ∀ {k : ℕ} {offset : UInt64}, k + left = totalFrags.toNat →
      offset.toNat = min (k * mtu.toNat) pkt.header.length.toNat →
      (∀ i, k ≤ i → i < totalFrags.toNat → env.alloc i = true) →
      fragmentLoop env pkt mtu totalFrags left offset
          ((List.range k).map (pkt.fragment env.msgId mtu.toNat totalFrags.toNat)) =
        ((totalFrags.toNat : ℤ),
          (List.range totalFrags.toNat).map
            (pkt.fragment env.msgId mtu.toNat totalFrags.toNat)) := by
  induction left with
  | zero =>
    intro k offset hk _ _
    rw [Nat.add_zero] at hk
    simp only [fragmentLoop, List.length_map, List.length_range, hk]
  | succ left ih =>
    intro k offset hk hoffset halloc
    have hstart : k * mtu.toNat < pkt.header.length.toNat :=
      (Pieces.lt_count_iff hmtu _ _).mp (by omega)
    rw [Nat.min_eq_left hstart.le] at hoffset
    have hchunk := fragmentChunk_toNat hloaded hwidth hoffset hstart
    rw [Pieces.length_piece, hloaded.length_payloadBytes] at hchunk
    have hnext : (offset + fragmentChunk pkt offset mtu).toNat =
        min ((k + 1) * mtu.toNat) pkt.header.length.toNat := by
      rw [UInt64.toNat_add, hchunk, hoffset, Nat.succ_mul]
      omega
    have hwritten := fragmentAt_eq hloaded env.msgId hwidth hoffset hstart
      (show k < totalFrags.toNat by omega)
    have hsucc : (List.range k).map (pkt.fragment env.msgId mtu.toNat totalFrags.toNat) ++
        [pkt.fragment env.msgId mtu.toNat totalFrags.toNat k] =
          (List.range (k + 1)).map (pkt.fragment env.msgId mtu.toNat totalFrags.toNat) := by
      rw [List.range_succ, List.map_append, List.map_singleton]
    rw [fragmentLoop]
    simp only [List.length_map, List.length_range, halloc k (Nat.le_refl k) (by omega),
      Bool.not_true, Bool.false_eq_true, if_false, hwritten, hsucc]
    exact ih (by omega) hnext fun i hi hlt ↦ halloc i (by omega) hlt

/-- Assumes: a loaded packet, a positive mtu, a count that is positive and within `max_frags`, and
memory for that many fragments. -/
theorem koePacketFragment_eq {env : FragmentEnv} {mtu : UInt64} {maxFrags : ℤ}
    (hmtu : 0 < mtu.toNat) (hcount : 0 < (fragmentCount pkt mtu).toNat)
    (hmax : (fragmentCount pkt mtu).toNat ≤ maxFrags)
    (halloc : ∀ i < (fragmentCount pkt mtu).toNat, env.alloc i = true) :
    koePacketFragment env pkt maxFrags mtu =
      (((fragmentCount pkt mtu).toNat : ℤ),
        (List.range (fragmentCount pkt mtu).toNat).map
          (pkt.fragment env.msgId mtu.toNat (fragmentCount pkt mtu).toNat)) := by
  have hloads : ¬ (pkt.payload.isNone ∨ pkt.header.length = 0) := by
    rw [hloaded.payload_eq]
    simp [hloaded.1]
  have hnonzero : fragmentCount pkt mtu ≠ 0 := by
    intro hzero
    rw [hzero] at hcount
    exact absurd hcount (by simp)
  have hgoes : ¬ (maxFrags < (fragmentCount pkt mtu).toNat ∨ fragmentCount pkt mtu = 0) := by
    rw [not_or]
    exact ⟨Int.not_lt.mpr hmax, hnonzero⟩
  have hwidth : pkt.header.length.toNat + mtu.toNat - 1 < 2 ^ 64 := by
    by_contra hwide
    rw [fragmentCount_toNat hloaded hmtu, if_neg hwide] at hcount
    exact Nat.lt_irrefl 0 hcount
  have hpieces : (fragmentCount pkt mtu).toNat ≤
      Pieces.count mtu.toNat pkt.header.length.toNat := by
    rw [fragmentCount_toNat hloaded hmtu, if_pos hwidth]
    exact Nat.mod_le _ _
  have hstart : (0 : UInt64).toNat = min (0 * mtu.toNat) pkt.header.length.toNat := by simp
  rw [koePacketFragment, if_neg hloads]
  simp only [if_neg hgoes]
  exact fragmentLoop_eq hloaded hmtu hwidth hpieces _ (Nat.zero_add _) hstart
    fun i _ hi ↦ halloc i hi

end Loaded

/-- A loop that runs out of memory fails. Assumes: no memory for one of the fragments that are still
to come. -/
theorem fragmentLoop_fails {env : FragmentEnv} {pkt : Packet} {mtu : UInt64} {totalFrags : UInt8}
    {i : ℕ} (hfails : env.alloc i = false) (left : ℕ) :
    ∀ {offset : UInt64} {frags : List Packet}, frags.length ≤ i → i < frags.length + left →
      (fragmentLoop env pkt mtu totalFrags left offset frags).1 = -1 := by
  induction left with
  | zero =>
    intro offset frags hle hlt
    omega
  | succ left ih =>
    intro offset frags hle hlt
    rw [fragmentLoop]
    by_cases halloc : env.alloc frags.length = true
    · have hne : frags.length ≠ i := by
        intro heq
        rw [heq, hfails] at halloc
        exact Bool.false_ne_true halloc
      simp only [halloc, Bool.not_true, Bool.false_eq_true, if_false]
      apply ih
      · rw [List.length_append, List.length_singleton]
        omega
      · rw [List.length_append, List.length_singleton]
        omega
    · simp [halloc]

/-- The count is zero or above `max_frags`, or there is no memory for one of so many fragments. -/
def FragmentRefused (env : FragmentEnv) (pkt : Packet) (maxFrags : ℤ) (mtu : UInt64) : Prop :=
  fragmentCount pkt mtu = 0 ∨ maxFrags < (fragmentCount pkt mtu).toNat ∨
    ∃ i < (fragmentCount pkt mtu).toNat, env.alloc i = false

theorem koePacketFragment_fails {env : FragmentEnv} {pkt : Packet} {maxFrags : ℤ} {mtu : UInt64}
    (hfails : FragmentRefused env pkt maxFrags mtu) :
    (koePacketFragment env pkt maxFrags mtu).1 = -1 := by
  unfold koePacketFragment
  by_cases hempty : pkt.payload.isNone ∨ pkt.header.length = 0
  · rw [if_pos hempty]
  · rw [if_neg hempty]
    by_cases hrefused : maxFrags < (fragmentCount pkt mtu).toNat ∨ fragmentCount pkt mtu = 0
    · simp only [if_pos hrefused]
    · simp only [if_neg hrefused]
      rw [not_or] at hrefused
      rcases hfails with hzero | hmany | ⟨i, hi, hmemory⟩
      · exact absurd hzero hrefused.2
      · exact absurd hmany hrefused.1
      · exact fragmentLoop_fails hmemory _ (Nat.zero_le i) (by simpa using hi)

/-- Assumes: a loaded packet, a positive mtu, and a call that is not refused. -/
theorem koePacketFragment_of_not_refused {env : FragmentEnv} {pkt : Packet} {maxFrags : ℤ}
    {mtu : UInt64} (hloaded : pkt.Loaded) (hmtu : 0 < mtu.toNat)
    (haccepted : ¬ FragmentRefused env pkt maxFrags mtu) :
    0 < (fragmentCount pkt mtu).toNat ∧ (fragmentCount pkt mtu).toNat ≤ maxFrags ∧
      koePacketFragment env pkt maxFrags mtu =
        (((fragmentCount pkt mtu).toNat : ℤ),
          (List.range (fragmentCount pkt mtu).toNat).map
            (pkt.fragment env.msgId mtu.toNat (fragmentCount pkt mtu).toNat)) := by
  rw [FragmentRefused, not_or, not_or, ← UInt8.toNat_inj, Int.not_lt] at haccepted
  obtain ⟨hnonzero, hfrags, hmemory⟩ := haccepted
  have hpos : 0 < (fragmentCount pkt mtu).toNat := Nat.pos_of_ne_zero hnonzero
  have halloc : ∀ i < (fragmentCount pkt mtu).toNat, env.alloc i = true := by
    intro i hi
    by_contra hfalse
    exact hmemory ⟨i, hi, Bool.eq_false_iff.mpr hfalse⟩
  exact ⟨hpos, hfrags, koePacketFragment_eq hloaded hmtu hpos hfrags halloc⟩

/-! ### What a fragment carries -/

section Fragment

variable {pkt : Packet} {msgId : Block 16} {size n i : ℕ}
  (hsize : 18 + (Pieces.piece size pkt.payloadBytes i).length < 2 ^ 32)

include hsize

/-- Assumes: a piece that fits 32 bits together with its 18 bytes in front. -/
theorem Packet.fragment_length : (pkt.fragment msgId size n i).header.length.toNat =
    18 + (Pieces.piece size pkt.payloadBytes i).length := by
  change (UInt32.ofNat _).toNat = _
  rw [UInt32.toNat_ofNat', Nat.mod_eq_of_lt hsize]

theorem Packet.fragment_payloadBytes : (pkt.fragment msgId size n i).payloadBytes =
    msgId.toList ++ [UInt8.ofNat i] ++ [UInt8.ofNat n] ++
      Pieces.piece size pkt.payloadBytes i := by
  apply Packet.payloadBytes_eq rfl
  rw [Packet.fragment_length hsize]
  simp only [List.length_append, List.Vector.toList_length, List.length_singleton]

theorem Packet.fragment_data : (pkt.fragment msgId size n i).payloadBytes.drop 18 =
    Pieces.piece size pkt.payloadBytes i := by
  have hfront : (msgId.toList ++ [UInt8.ofNat i] ++ [UInt8.ofNat n]).length = 18 := by
    simp only [List.length_append, List.Vector.toList_length, List.length_singleton]
  rw [Packet.fragment_payloadBytes hsize, ← hfront, List.drop_left]

theorem Packet.fragment_index :
    byteAt 16 (pkt.fragment msgId size n i).payloadBytes = UInt8.ofNat i := by
  rw [Packet.fragment_payloadBytes hsize, List.append_assoc, List.append_assoc]
  exact byteAt_of_eq msgId.toList _ rfl msgId.toList_length

theorem Packet.fragment_total :
    byteAt 17 (pkt.fragment msgId size n i).payloadBytes = UInt8.ofNat n := by
  rw [Packet.fragment_payloadBytes hsize, List.append_assoc]
  exact byteAt_of_eq (msgId.toList ++ [UInt8.ofNat i]) _ rfl (by simp)

theorem Packet.fragment_msgId :
    readAt 16 0 (pkt.fragment msgId size n i).payloadBytes = msgId := by
  rw [Packet.fragment_payloadBytes hsize, List.append_assoc, List.append_assoc]
  exact readAt_of_eq [] _ rfl rfl

end Fragment

/-! ### No silent loss -/

/-- The call fails, or it returns a positive number of fragments within `max_frags` that carry their
index and this number, of which the last alone is marked as the last, and whose data in order is the
payload. -/
def FragmentsCarry (pkt : Packet) (maxFrags : ℤ) (result : ℤ × List Packet) : Prop :=
  result.1 = -1 ∨
    ∃ n : ℕ, 1 ≤ n ∧ (n : ℤ) ≤ maxFrags ∧ result.1 = n ∧ result.2.length = n ∧
      (∀ i frag, result.2[i]? = some frag →
        (byteAt 16 frag.payloadBytes).toNat = i ∧ (byteAt 17 frag.payloadBytes).toNat = n ∧
          frag.header.flags = pkt.header.flags ||| PacketFlag.fragmented.mask |||
            (if i + 1 = n then PacketFlag.lastFrag.mask else 0)) ∧
      (result.2.flatMap fun frag ↦ frag.payloadBytes.drop 18) = pkt.payloadBytes

/-- The payload has at most 255 pieces, or the low byte of their number is zero or above
`max_frags`, or memory runs out before that many fragments. -/
def FragmentSafe (env : FragmentEnv) (pkt : Packet) (maxFrags : ℤ) (mtu : UInt64) : Prop :=
  let pieces := Pieces.count mtu.toNat pkt.header.length.toNat
  pieces ≤ 255 ∨ pieces % 256 = 0 ∨ maxFrags < (pieces % 256 : ℕ) ∨
    ∃ i < pieces % 256, env.alloc i = false

section Loss

variable {pkt : Packet} (hloaded : pkt.Loaded)
  (hmax : pkt.header.length.toNat ≤ koeMaxPayload) {mtu : UInt64} (hmtu : 0 < mtu.toNat)
  (env : FragmentEnv) (maxFrags : ℤ)

include hloaded hmax

theorem Packet.fragment_sized (i : ℕ) :
    18 + (Pieces.piece mtu.toNat pkt.payloadBytes i).length < 2 ^ 32 := by
  rw [Pieces.length_piece, hloaded.length_payloadBytes]
  simp only [koeMaxPayload] at hmax
  omega

/-- The data of the first `n` fragments is that of the first `n` pieces. -/
theorem flatMap_fragment_data (msgId : Block 16) (n : ℕ) :
    (((List.range n).map (pkt.fragment msgId mtu.toNat n)).flatMap
        fun frag ↦ frag.payloadBytes.drop 18) =
      (List.range n).flatMap (Pieces.piece mtu.toNat pkt.payloadBytes) := by
  rw [List.flatMap_map]
  apply List.flatMap_congr
  intro i _
  exact Packet.fragment_data (Packet.fragment_sized hloaded hmax i)

include hmtu

/-- Assumes: a loaded packet within the cap, a positive mtu, a positive number of fragments, within
`max_frags` and a byte. The fragments carry the payload exactly when they are all its pieces. -/
theorem fragments_carry_iff (msgId : Block 16) {n : ℕ} (hpos : 1 ≤ n) (hbyte : n < 256)
    (hfrags : (n : ℤ) ≤ maxFrags)
    (hpieces : n ≤ Pieces.count mtu.toNat pkt.header.length.toNat) :
    FragmentsCarry pkt maxFrags
        ((n : ℤ), (List.range n).map (pkt.fragment msgId mtu.toNat n)) ↔
      n = Pieces.count mtu.toNat pkt.header.length.toNat := by
  rw [← hloaded.length_payloadBytes] at hpieces ⊢
  constructor
  · intro hcarry
    by_contra hne
    rcases hcarry with hfailed | ⟨m, -, -, -, -, -, hdata⟩
    · change (n : ℤ) = -1 at hfailed
      omega
    · rw [flatMap_fragment_data hloaded hmax] at hdata
      exact Pieces.flatMap_piece_ne hmtu _ (by omega) hdata
  · intro hall
    refine Or.inr ⟨n, hpos, hfrags, rfl, by simp, ?_, ?_⟩
    · intro i frag hfrag
      have hi : i < n := by
        have hlt := (List.getElem?_eq_some_iff.mp hfrag).1
        rwa [List.length_map, List.length_range] at hlt
      have hfragment : frag = pkt.fragment msgId mtu.toNat n i := by
        simp only [List.getElem?_map, List.getElem?_range hi, Option.map_some] at hfrag
        exact (Option.some.inj hfrag).symm
      have hsized : 18 + (Pieces.piece mtu.toNat pkt.payloadBytes i).length < 2 ^ 32 :=
        Packet.fragment_sized hloaded hmax i
      rw [hfragment, Packet.fragment_index hsized, Packet.fragment_total hsized,
        UInt8.toNat_ofNat', UInt8.toNat_ofNat', Nat.mod_eq_of_lt (by omega), Nat.mod_eq_of_lt hbyte]
      refine ⟨rfl, rfl, ?_⟩
      change (if i + 1 = n then _ else _) = _
      split_ifs with hlast
      · rfl
      · rw [UInt8.or_zero]
    · rw [flatMap_fragment_data hloaded hmax, hall]
      exact Pieces.flatMap_piece_count hmtu pkt.payloadBytes

/-- Fragmentation loses no data exactly under the condition. Assumes: a payload of the announced
positive length within the cap, and a positive mtu. -/
theorem koePacketFragment_carries_iff :
    FragmentsCarry pkt maxFrags (koePacketFragment env pkt maxFrags mtu) ↔
      FragmentSafe env pkt maxFrags mtu := by
  have hcount := fragmentCount_toNat hloaded hmtu
  by_cases hfails : FragmentRefused env pkt maxFrags mtu
  · refine iff_of_true (Or.inl (koePacketFragment_fails hfails)) ?_
    rw [FragmentRefused, ← UInt8.toNat_inj] at hfails
    by_cases hwidth : pkt.header.length.toNat + mtu.toNat - 1 < 2 ^ 64
    · rw [hcount, if_pos hwidth] at hfails
      exact Or.inr hfails
    · -- An mtu this large covers the payload in one piece.
      have hone : ¬ 1 < Pieces.count mtu.toNat pkt.header.length.toNat := by
        rw [Pieces.lt_count_iff hmtu]
        have hlength : pkt.header.length.toNat < 2 ^ 32 := pkt.header.length.toNat_lt
        omega
      exact Or.inl (by omega)
  · obtain ⟨hpos, hfrags, hresult⟩ := koePacketFragment_of_not_refused hloaded hmtu hfails
    have hwidth : pkt.header.length.toNat + mtu.toNat - 1 < 2 ^ 64 := by
      by_contra hwide
      rw [hcount, if_neg hwide] at hpos
      exact Nat.lt_irrefl 0 hpos
    rw [if_pos hwidth] at hcount
    have hpieces : (fragmentCount pkt mtu).toNat ≤
        Pieces.count mtu.toNat pkt.header.length.toNat := hcount ▸ Nat.mod_le _ _
    rw [hresult, fragments_carry_iff hloaded hmax hmtu maxFrags env.msgId hpos
      (fragmentCount pkt mtu).toNat_lt hfrags hpieces]
    unfold FragmentSafe
    simp only [← hcount]
    constructor
    · intro hall
      exact Or.inl (by omega)
    · rintro (hfew | hzero | hmany | hnone)
      · omega
      · omega
      · omega
      · exact absurd (Or.inr (Or.inr hnone)) hfails

end Loss

/-- A message packet with a payload of zero bytes. -/
def zerosPacket (length : ℕ) : Packet where
  header :=
    let header :=
      { (koePacketInit PacketType.msg.code 0).header with length := UInt32.ofNat length }
    { header with checksum := koePacketChecksum header }
  payload := some (List.replicate length 0)

theorem zerosPacket_checksum (length : ℕ) :
    (zerosPacket length).header.checksum = koePacketChecksum (zerosPacket length).header :=
  (koePacketChecksum_checksum _ _).symm

/-- An environment with enough memory. -/
def FragmentEnv.zero : FragmentEnv := ⟨Block.zero 16, fun _ ↦ true⟩

/-- Five bytes, two at a time, are safe and arrive in three fragments. -/
theorem zerosPacket_carries :
    FragmentSafe FragmentEnv.zero (zerosPacket 5) 255 2 ∧
      FragmentsCarry (zerosPacket 5) 255
        (koePacketFragment FragmentEnv.zero (zerosPacket 5) 255 2) := by
  have hsafe : FragmentSafe FragmentEnv.zero (zerosPacket 5) 255 2 := Or.inl (by decide)
  have hloaded : (zerosPacket 5).Loaded := ⟨by decide, _, rfl, by decide⟩
  exact ⟨hsafe, (koePacketFragment_carries_iff hloaded (by decide) (by decide) _ _).mpr hsafe⟩

/-- Of 257 bytes, one at a time, the call sends the first one and reports success. -/
theorem koePacketFragment_drops_payload :
    let pkt := zerosPacket 257
    let result := koePacketFragment FragmentEnv.zero pkt 255 1
    pkt.payloadBytes.length = 257 ∧ result.1 = 1 ∧ result.2.length = 1 ∧
      (result.2.flatMap fun frag ↦ frag.payloadBytes.drop 18) = [0] := by
  decide +kernel

/-! ### The size of fragments -/

/-- The call fails, or no fragment announces more than `mtu` bytes. -/
def FragmentsWithin (mtu : UInt64) (result : ℤ × List Packet) : Prop :=
  result.1 ≠ -1 → ∀ frag ∈ result.2, frag.header.length.toNat ≤ mtu.toNat

instance (mtu : UInt64) (result : ℤ × List Packet) : Decidable (FragmentsWithin mtu result) :=
  inferInstanceAs (Decidable (_ → _))

/-- The call is refused, or the first piece fits the mtu together with the 18 bytes in front of it.
Their sum is a 32-bit word, so that the largest pieces fit as well. -/
def FirstFragmentFits (env : FragmentEnv) (pkt : Packet) (maxFrags : ℤ) (mtu : UInt64) : Prop :=
  FragmentRefused env pkt maxFrags mtu ∨
    (18 + min mtu.toNat pkt.header.length.toNat) % 2 ^ 32 ≤ mtu.toNat

section Size

variable {pkt : Packet} (hloaded : pkt.Loaded) {mtu : UInt64} (env : FragmentEnv) (maxFrags : ℤ)

include hloaded

theorem Packet.fragment_length_mod (msgId : Block 16) (n i : ℕ) :
    (pkt.fragment msgId mtu.toNat n i).header.length.toNat =
      (18 + min mtu.toNat (pkt.header.length.toNat - i * mtu.toNat)) % 2 ^ 32 := by
  change (UInt32.ofNat (18 + (Pieces.piece mtu.toNat pkt.payloadBytes i).length)).toNat = _
  rw [UInt32.toNat_ofNat', Pieces.length_piece, hloaded.length_payloadBytes]

/-- If the first fragment fits, so do the others. Assumes: a loaded packet, and an mtu above the 18
bytes in front of each piece. -/
theorem Packet.fragment_length_le (hmtu : 18 < mtu.toNat)
    (hfirst : (18 + min mtu.toNat pkt.header.length.toNat) % 2 ^ 32 ≤ mtu.toNat)
    (msgId : Block 16) (n i : ℕ) :
    (pkt.fragment msgId mtu.toNat n i).header.length.toNat ≤ mtu.toNat := by
  rw [Packet.fragment_length_mod hloaded]
  cases i with
  | zero =>
    rw [Nat.zero_mul, Nat.sub_zero]
    exact hfirst
  | succ i =>
    have hlength : pkt.header.length.toNat < 2 ^ 32 := pkt.header.length.toNat_lt
    have hnext : mtu.toNat ≤ (i + 1) * mtu.toNat := Nat.le_mul_of_pos_left _ (Nat.succ_pos i)
    generalize (i + 1) * mtu.toNat = offset at hnext ⊢
    -- A second piece means a first one of `mtu` bytes, which only fits when the sum wraps.
    omega

/-- Fragments respect the mtu exactly when the first one does. Assumes: a payload of the announced
positive length, and an mtu above the 18 bytes in front of each piece. -/
theorem koePacketFragment_within_iff (hmtu : 18 < mtu.toNat) :
    FragmentsWithin mtu (koePacketFragment env pkt maxFrags mtu) ↔
      FirstFragmentFits env pkt maxFrags mtu := by
  by_cases hfails : FragmentRefused env pkt maxFrags mtu
  · exact iff_of_true (fun hrc ↦ absurd (koePacketFragment_fails hfails) hrc) (Or.inl hfails)
  · obtain ⟨hpos, -, hresult⟩ :=
      koePacketFragment_of_not_refused hloaded (Nat.zero_lt_of_lt hmtu) hfails
    rw [hresult, FirstFragmentFits, or_iff_right hfails]
    constructor
    · intro hwithin
      have hsuccess : ((fragmentCount pkt mtu).toNat : ℤ) ≠ -1 := by omega
      have hfirst := hwithin hsuccess _ (List.mem_map_of_mem (List.mem_range.mpr hpos))
      rw [Packet.fragment_length_mod hloaded, Nat.zero_mul, Nat.sub_zero] at hfirst
      exact hfirst
    · intro hfirst _ frag hfrag
      obtain ⟨i, -, rfl⟩ := List.mem_map.mp hfrag
      exact Packet.fragment_length_le hloaded hmtu hfirst _ _ i

end Size

/-- Five bytes leave room for the 18 bytes in front of them in an mtu of 23. -/
theorem zerosPacket_within :
    FirstFragmentFits FragmentEnv.zero (zerosPacket 5) 255 23 ∧
      FragmentsWithin 23 (koePacketFragment FragmentEnv.zero (zerosPacket 5) 255 23) := by
  have hfits : FirstFragmentFits FragmentEnv.zero (zerosPacket 5) 255 23 := Or.inr (by decide)
  have hloaded : (zerosPacket 5).Loaded := ⟨by decide, _, rfl, by decide⟩
  exact ⟨hfits, (koePacketFragment_within_iff hloaded _ _ (by decide)).mpr hfits⟩

/-- Twenty bytes under an mtu of 20 are sent as one fragment of 38 bytes. -/
theorem koePacketFragment_exceeds_mtu :
    let result := koePacketFragment FragmentEnv.zero (zerosPacket 20) 255 20
    result.1 = 1 ∧ (result.2.map fun frag ↦ frag.header.length) = [38] ∧
      ¬ FragmentsWithin 20 result := by
  decide +kernel

end KoeCore
