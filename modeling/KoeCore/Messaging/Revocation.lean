import KoeCore.Protocol.Crypto
import KoeCore.Protocol.Packet

/-!
# Revocations

The record of `koe_revoke.h`, its signature, and the packet that carries it. The record is sent as
the bytes of the C structure (`Revocation.bytes`), in the layout of a little-endian machine with an
eight-byte `time_t`. The fields then follow each other without padding. The signature covers the two
keys and the time, and not the reason (`revokeMessage`).
-/

set_option autoImplicit false
set_option relaxedAutoImplicit false

namespace KoeCore

open ByteWire

/-- `koe_revocation_t`. -/
structure Revocation where
  oldPk : Block 32
  newPk : Block 32
  revokedAt : ℤ
  reason : Block 128
  sig : Block 64
deriving DecidableEq

/-- The 264 bytes of the record in memory. -/
def Revocation.bytes (rev : Revocation) : List UInt8 :=
  rev.oldPk.toList ++ rev.newPk.toList ++ (leBytes 8 (rev.revokedAt % 2 ^ 64).toNat).toList ++
    rev.reason.toList ++ rev.sig.toList

@[simp] theorem Revocation.length_bytes (rev : Revocation) : rev.bytes.length = 264 := by
  simp [Revocation.bytes]

/-! ### Signing and checking -/

/-- The 72 bytes that are signed. -/
def revokeMessage (rev : Revocation) : List UInt8 :=
  rev.oldPk.toList ++ rev.newPk.toList ++ (leBytes 8 (rev.revokedAt % 2 ^ 64).toNat).toList

/-- The return code, and the revocation after the call, given a reading of the clock. -/
def koeRevokeBuild (S : Sodium) (oldId newId : Identity) (reason : List UInt8) (now : ℤ) :
    ℤ × Revocation :=
  let rev : Revocation :=
    ⟨oldId.pk, newId.pk, now, clip 128 (reason.take 127), Block.zero 64⟩
  match koeSign S (revokeMessage rev) oldId with
  | none => (-1, rev)
  | some sig => (0, { rev with sig := sig })

def koeRevokeVerify (S : Sodium) (rev : Revocation) : ℤ :=
  koeVerify S rev.sig (revokeMessage rev) rev.oldPk

/-- Assumes: a call that returned 0. -/
theorem koeRevokeBuild_inv {S : Sodium} {oldId newId : Identity} {reason : List UInt8} {now : ℤ}
    {rev : Revocation} (hbuilt : koeRevokeBuild S oldId newId reason now = (0, rev)) :
    rev.revokedAt = now ∧ rev.reason = clip 128 (reason.take 127) := by
  have hfails : ¬ (-1 : ℤ) = 0 := by decide
  simp only [koeRevokeBuild] at hbuilt
  split at hbuilt
  · exact absurd (congrArg Prod.fst hbuilt) hfails
  · obtain rfl := congrArg Prod.snd hbuilt
    exact ⟨rfl, rfl⟩

/-! ### Packets -/

/-- The header in front of a revocation. -/
def revocationHeader (rev : Revocation) (toPk : Block 32) : Header :=
  let header :=
    { (koePacketInit PacketType.revoke.code PacketFlag.signed.mask).header with
      length := UInt32.ofNat rev.bytes.length
      fromPk := rev.oldPk
      toPk := toPk }
  { header with checksum := koePacketChecksum header }

/-- The return code, and the output packet after the call. `alloc` is whether `malloc` succeeds. -/
def koeRevokeBuildPacket (alloc : Bool) (pkt : Packet) (rev : Revocation) (toPk : Block 32) :
    ℤ × Packet :=
  if !alloc then (-1, pkt) else (0, ⟨revocationHeader rev toPk, some rev.bytes⟩)

/-- Assumes: a return code other than -1. -/
theorem koeRevokeBuildPacket_header {alloc : Bool} {pkt : Packet} {rev : Revocation}
    {toPk : Block 32} (hrc : 0 ≤ (koeRevokeBuildPacket alloc pkt rev toPk).1) :
    (koeRevokeBuildPacket alloc pkt rev toPk).2.header = revocationHeader rev toPk := by
  cases alloc with
  | false =>
    have hfailed : (0 : ℤ) ≤ -1 := hrc
    exact absurd hfailed (by decide)
  | true => rfl

end KoeCore
