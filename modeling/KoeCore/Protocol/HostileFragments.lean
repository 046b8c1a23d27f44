import KoeCore.Protocol.Reassembly

/-!
# Reassembly of arbitrary fragments

Any packets are fed to one reassembly context, under any message ids, indices and totals, and any
number of times. `Intake` follows the context together with the fragments stored since it was last
empty, that is, since a call found nothing counted in it, and with the indices stored since then or
since the last completion.

A call copies the slots once the number of stored fragments, a byte, reaches the total. Nothing ties
that number to the slots, and a completed context keeps its count and the recorded lengths. What the
slots hold is `Intake.Sound`, and every call that does no harm keeps it (`Intake.Sound.step`). From
it follows when a call does no harm (`Intake.safe_iff_ready`): at the total, every index below it
must be among the indices stored. `koePacketReassemble_hostile_iff` says so for whole sequences.
-/

set_option autoImplicit false
set_option relaxedAutoImplicit false

namespace KoeCore

open ByteWire

/-! ### Fragments as they are read -/

/-- `msg_id` of a received fragment. -/
def Packet.fragMsgId (frag : Packet) : Block 16 := readAt 16 0 frag.payloadBytes

/-- `frag_index` of a received fragment. -/
def Packet.fragIndex (frag : Packet) : UInt8 := byteAt 16 frag.payloadBytes

/-- `total` of a received fragment. -/
def Packet.fragTotal (frag : Packet) : UInt8 := byteAt 17 frag.payloadBytes

/-- The data of a received fragment. -/
def Packet.fragData (frag : Packet) : List UInt8 := frag.payloadBytes.drop 18

/-- A packet arrives, and the memory that the call finds. -/
structure Arrival where
  frag : Packet
  env : ReassembleEnv

/-- The call stores the fragment: it has the 18 bytes in front of its data, it belongs to the
message of the context or finds the context empty, and there is memory for its data. -/
def Reassembly.Stores (ctx : Reassembly) (arrival : Arrival) : Prop :=
  arrival.frag.payload.isSome = true ∧ 18 ≤ arrival.frag.header.length ∧
    (ctx.received ≠ 0 → ctx.msgId = arrival.frag.fragMsgId) ∧ arrival.env.dataAlloc = true

instance Reassembly.decidableStores (ctx : Reassembly) (arrival : Arrival) :
    Decidable (ctx.Stores arrival) :=
  inferInstanceAs (Decidable (_ ∧ _ ∧ (_ → _) ∧ _))

/-- The context with the fragment in its slot, what the copying loop reads. -/
def Reassembly.gathered (ctx : Reassembly) (frag : Packet) : Reassembly :=
  (ctx.opened frag.fragMsgId frag.fragTotal).stored frag.fragIndex frag.fragData
    (frag.header.length - 18)

/-- The count reaches the total, and there is memory for the output. -/
def Reassembly.Completes (ctx : Reassembly) (arrival : Arrival) : Prop :=
  (ctx.gathered arrival.frag).totalFragments ≤ (ctx.gathered arrival.frag).received ∧
    arrival.env.outAlloc = true

instance Reassembly.decidableCompletes (ctx : Reassembly) (arrival : Arrival) :
    Decidable (ctx.Completes arrival) :=
  inferInstanceAs (Decidable (_ ∧ _))

section Calls

variable {ctx : Reassembly} {arrival : Arrival}

variable (ctx) in
/-- The answer to a fragment that is stored. -/
def Reassembly.answer (arrival : Arrival) (outPkt : Packet) : Option (ℤ × Reassembly × Packet) :=
  if (ctx.gathered arrival.frag).received < (ctx.gathered arrival.frag).totalFragments then
    some (0, ctx.gathered arrival.frag, outPkt)
  else if !arrival.env.outAlloc then
    some (-1, ctx.gathered arrival.frag, ⟨arrival.frag.header, none⟩)
  else
    ((ctx.gathered arrival.frag).copied
        (ctx.gathered arrival.frag).totalFragments.toNat).map fun payload ↦
      (1, (ctx.gathered arrival.frag).released,
        reassembledPacket arrival.frag.header
          ((ctx.gathered arrival.frag).totalLen
            (ctx.gathered arrival.frag).totalFragments.toNat) payload)

variable (ctx arrival) in
theorem koePacketReassemble_eq (outPkt : Packet) :
    koePacketReassemble arrival.env ctx arrival.frag outPkt =
      if arrival.frag.payload.isNone ∨ arrival.frag.header.length < 18 then some (-1, ctx, outPkt)
      else if ctx.received ≠ 0 ∧ ctx.msgId ≠ arrival.frag.fragMsgId then some (-1, ctx, outPkt)
      else if !arrival.env.dataAlloc then
        some (-1, ctx.opened arrival.frag.fragMsgId arrival.frag.fragTotal, outPkt)
      else ctx.answer arrival outPkt := rfl

/-- A fragment that is not stored is refused. In a context that is not empty it changes nothing, and
an empty one stays empty. -/
theorem koePacketReassemble_refused (hrefused : ¬ ctx.Stores arrival) (outPkt : Packet) :
    ∃ next, koePacketReassemble arrival.env ctx arrival.frag outPkt = some (-1, next, outPkt) ∧
      next.received = ctx.received ∧ (ctx.received ≠ 0 → next = ctx) := by
  rw [koePacketReassemble_eq]
  split_ifs with hshort hother halloc
  · exact ⟨ctx, rfl, rfl, fun _ ↦ rfl⟩
  · exact ⟨ctx, rfl, rfl, fun _ ↦ rfl⟩
  · -- An empty context takes over the message id and the total, and counts nothing.
    refine ⟨_, rfl, ?_, fun hreceived ↦ if_neg hreceived⟩
    unfold Reassembly.opened
    split_ifs
    · rfl
    · rfl
  · rw [not_or, Bool.not_eq_true, Option.isNone_eq_false_iff, UInt32.not_lt] at hshort
    rw [not_and, not_not] at hother
    rw [Bool.not_eq_true, Bool.not_eq_false'] at halloc
    exact absurd ⟨hshort.1, hshort.2, hother, halloc⟩ hrefused

/-- Assumes: a fragment that is stored. -/
theorem koePacketReassemble_stores (hstores : ctx.Stores arrival) (outPkt : Packet) :
    koePacketReassemble arrival.env ctx arrival.frag outPkt = ctx.answer arrival outPkt := by
  obtain ⟨hpayload, hlength, hsame, halloc⟩ := hstores
  have hshort : ¬ (arrival.frag.payload.isNone = true ∨ arrival.frag.header.length < 18) := by
    rw [not_or, Bool.not_eq_true, Option.isNone_eq_false_iff, UInt32.not_lt]
    exact ⟨hpayload, hlength⟩
  have hother : ¬ (ctx.received ≠ 0 ∧ ctx.msgId ≠ arrival.frag.fragMsgId) := by
    rw [not_and, not_not]
    exact hsame
  have hmemory : ¬ (!arrival.env.dataAlloc) = true := by
    rw [halloc]
    exact Bool.false_ne_true
  rw [koePacketReassemble_eq, if_neg hshort, if_neg hother, if_neg hmemory]

/-- Assumes: a fragment that is stored, and a count below the total or no memory. -/
theorem koePacketReassemble_waits (hstores : ctx.Stores arrival)
    (hwaits : ¬ ctx.Completes arrival) (outPkt : Packet) :
    ∃ rc out, koePacketReassemble arrival.env ctx arrival.frag outPkt =
        some (rc, ctx.gathered arrival.frag, out) ∧ rc ≠ 1 := by
  rw [koePacketReassemble_stores hstores, Reassembly.answer]
  split_ifs with hbelow hout
  · exact ⟨0, outPkt, rfl, by decide⟩
  · exact ⟨-1, _, rfl, by decide⟩
  · exact absurd ⟨UInt8.not_lt.mp hbelow, by simpa using hout⟩ hwaits

/-- Assumes: a fragment that is stored and reaches the total. -/
theorem koePacketReassemble_completes (hstores : ctx.Stores arrival)
    (hcompletes : ctx.Completes arrival) (outPkt : Packet) :
    koePacketReassemble arrival.env ctx arrival.frag outPkt =
      ((ctx.gathered arrival.frag).copied
          (ctx.gathered arrival.frag).totalFragments.toNat).map fun payload ↦
        (1, (ctx.gathered arrival.frag).released,
          reassembledPacket arrival.frag.header
            ((ctx.gathered arrival.frag).totalLen
              (ctx.gathered arrival.frag).totalFragments.toNat) payload) := by
  rw [koePacketReassemble_stores hstores, Reassembly.answer,
    if_neg (UInt8.not_lt.mpr hcompletes.1),
    if_neg (by rw [hcompletes.2]; exact Bool.false_ne_true)]

theorem Reassembly.gathered_fragments (frag : Packet) :
    (ctx.gathered frag).fragments =
      Function.update ctx.fragments frag.fragIndex (some frag.fragData) := by
  unfold Reassembly.gathered Reassembly.opened
  split_ifs
  · rfl
  · rfl

/-- Assumes: a fragment that is stored. -/
theorem Reassembly.Stores.gathered_msgId (hstores : ctx.Stores arrival) :
    (ctx.gathered arrival.frag).msgId = arrival.frag.fragMsgId := by
  unfold Reassembly.gathered Reassembly.opened
  split_ifs with hempty
  · rfl
  · exact hstores.2.2.1 hempty

/-- Assumes: data in each of the first slots. The copying loop gets through them. -/
theorem Reassembly.exists_copied {n : ℕ}
    (hfilled : ∀ i < n, (ctx.fragments (UInt8.ofNat i)).isSome = true) :
    ∃ payload, ctx.copied n = some payload := by
  induction n with
  | zero => exact ⟨[], rfl⟩
  | succ n ih =>
    obtain ⟨front, hfront⟩ := ih fun i hi ↦ hfilled i (Nat.lt_succ_of_lt hi)
    obtain ⟨data, hdata⟩ := Option.isSome_iff_exists.mp (hfilled n (Nat.lt_succ_self n))
    have hslot : ctx.slot n = some (data.take (ctx.fragLengths (UInt8.ofNat n)).toNat) := by
      rw [Reassembly.slot, hdata]
    exact ⟨_, by rw [Reassembly.copied, hfront, hslot]; rfl⟩

end Calls

/-! ### Sequences of packets -/

/-- A context, or `none` after a read from `NULL`, with the fragments stored since it was last empty
and the indices stored since then or since the last completion. -/
structure Intake where
  ctx : Option Reassembly
  since : List Packet
  held : List UInt8

namespace Intake

/-- A zero-initialised context. -/
def start : Intake := ⟨some Reassembly.zero, [], []⟩

/-- The fragments stored since the context was last empty, with one more. -/
def sinceWith (intake : Intake) (ctx : Reassembly) (frag : Packet) : List Packet :=
  (if ctx.received = 0 then [] else intake.since) ++ [frag]

/-- The indices stored since the context was last empty or completed, with one more. -/
def heldWith (intake : Intake) (ctx : Reassembly) (frag : Packet) : List UInt8 :=
  (if ctx.received = 0 then [] else intake.held) ++ [frag.fragIndex]

/-- What the call leaves. -/
def step (intake : Intake) (arrival : Arrival) : Intake :=
  match intake.ctx with
  | none => intake
  | some ctx =>
    let result := koePacketReassemble arrival.env ctx arrival.frag Packet.zero
    { ctx := result.map fun result ↦ result.2.1
      since := if ctx.Stores arrival then intake.sinceWith ctx arrival.frag else intake.since
      held :=
        if ctx.Stores arrival then
          if ctx.Completes arrival then [] else intake.heldWith ctx arrival.frag
        else intake.held }

/-- The call reads nothing from `NULL`, and if it returns `1`, the copying loop finds in each slot
below the total the data of a fragment of the message that was stored since the context was last
empty. -/
def Safe (intake : Intake) (arrival : Arrival) : Prop :=
  ∃ ctx, intake.ctx = some ctx ∧ ∀ outPkt, ∃ rc next out,
    koePacketReassemble arrival.env ctx arrival.frag outPkt = some (rc, next, out) ∧
      (rc = 1 → ∀ i < next.totalFragments, ∃ frag ∈ intake.sinceWith ctx arrival.frag,
        frag.fragMsgId = next.msgId ∧ frag.fragIndex = i ∧
          (ctx.gathered arrival.frag).fragments i = some frag.fragData)

/-- If the fragment is stored and reaches the total, every index below the total has been stored
since the context was last empty or completed. -/
def Ready (intake : Intake) (arrival : Arrival) : Prop :=
  ∃ ctx, intake.ctx = some ctx ∧
    (ctx.Stores arrival → ctx.Completes arrival →
      ∀ i < (ctx.gathered arrival.frag).totalFragments, i ∈ intake.heldWith ctx arrival.frag)

end Intake

/-- What the slots of a context hold: each index held has the data of one of the fragments, and an
index below the total that is not held has no data, or none of the fragments has it. -/
structure Reassembly.Gathers (ctx : Reassembly) (since : List Packet) (held : List UInt8) :
    Prop where
  sameMsg : ∀ frag ∈ since, frag.fragMsgId = ctx.msgId
  filled : ∀ i ∈ held, ∃ frag ∈ since, frag.fragIndex = i ∧ ctx.fragments i = some frag.fragData
  missing : ∀ i < ctx.totalFragments, i ∉ held →
    ctx.fragments i = none ∨ ∀ frag ∈ since, frag.fragIndex ≠ i

namespace Intake

/-- The intake is not stuck, and what its context holds, unless that is empty. -/
def Sound (intake : Intake) : Prop :=
  ∃ ctx, intake.ctx = some ctx ∧ (ctx.received ≠ 0 → ctx.Gathers intake.since intake.held)

theorem sound_start : start.Sound := ⟨Reassembly.zero, rfl, fun hreceived ↦ absurd rfl hreceived⟩

variable {intake : Intake} {ctx : Reassembly} {arrival : Arrival}

/-- The slot of a fragment that is stored holds it. -/
theorem gathered_fragments_self (ctx : Reassembly) (frag : Packet) :
    (ctx.gathered frag).fragments frag.fragIndex = some frag.fragData := by
  rw [Reassembly.gathered_fragments, Function.update_self]

/-- What a context holds of the fragment that is stored, as the only one. Assumes: a fragment that
is stored. -/
theorem gathers_first (hstores : ctx.Stores arrival) :
    (ctx.gathered arrival.frag).Gathers [arrival.frag] [arrival.frag.fragIndex] := by
  constructor
  · intro frag hfrag
    rw [List.mem_singleton.mp hfrag, hstores.gathered_msgId]
  · intro i hi
    rw [List.mem_singleton.mp hi]
    exact ⟨arrival.frag, List.mem_singleton_self _, rfl, gathered_fragments_self ctx arrival.frag⟩
  · intro i _ hi
    refine Or.inr fun frag hfrag hindex ↦ hi ?_
    rw [List.mem_singleton.mp hfrag] at hindex
    rw [hindex]
    exact List.mem_singleton_self _

/-- Assumes: a further fragment that is stored. -/
theorem gathers_more {since : List Packet} {held : List UInt8}
    (hbefore : ctx.Gathers since held) (hstarted : ctx.received ≠ 0)
    (hstores : ctx.Stores arrival) :
    (ctx.gathered arrival.frag).Gathers (since ++ [arrival.frag])
      (held ++ [arrival.frag.fragIndex]) := by
  have hmsgId := hstores.gathered_msgId
  have htotal : (ctx.gathered arrival.frag).totalFragments = ctx.totalFragments := by
    rw [Reassembly.gathered, Reassembly.opened, if_neg hstarted]
    rfl
  have hold (i : UInt8) (hne : i ≠ arrival.frag.fragIndex) :
      (ctx.gathered arrival.frag).fragments i = ctx.fragments i := by
    rw [Reassembly.gathered_fragments, Function.update_of_ne hne]
  constructor
  · intro frag hfrag
    rcases List.mem_append.mp hfrag with hearlier | hthis
    · rw [hbefore.sameMsg frag hearlier, hmsgId, hstores.2.2.1 hstarted]
    · rw [List.mem_singleton.mp hthis, hmsgId]
  · intro i hi
    by_cases hindex : i = arrival.frag.fragIndex
    · rw [hindex]
      exact ⟨arrival.frag, List.mem_append_right _ (List.mem_singleton_self _), rfl,
        gathered_fragments_self ctx arrival.frag⟩
    · have hearlier : i ∈ held :=
        (List.mem_append.mp hi).resolve_right fun hthis ↦ hindex (List.mem_singleton.mp hthis)
      obtain ⟨frag, hfrag, hsame, hdata⟩ := hbefore.filled i hearlier
      exact ⟨frag, List.mem_append_left _ hfrag, hsame, by rw [hold i hindex, hdata]⟩
  · intro i hi hout
    rw [List.mem_append, List.mem_singleton, not_or] at hout
    rw [htotal] at hi
    rw [hold i hout.2]
    refine (hbefore.missing i hi hout.1).imp_right fun hnone frag hfrag ↦ ?_
    rcases List.mem_append.mp hfrag with hearlier | hthis
    · exact hnone frag hearlier
    · rw [List.mem_singleton.mp hthis]
      exact Ne.symm hout.2

/-- Storing a fragment keeps what the slots hold. Assumes: a fragment that is stored. -/
theorem gathers_gathered (hgathers : ctx.received ≠ 0 → ctx.Gathers intake.since intake.held)
    (hstores : ctx.Stores arrival) :
    (ctx.gathered arrival.frag).Gathers (intake.sinceWith ctx arrival.frag)
      (intake.heldWith ctx arrival.frag) := by
  by_cases hempty : ctx.received = 0
  · rw [sinceWith, heldWith, if_pos hempty, if_pos hempty, List.nil_append, List.nil_append]
    exact gathers_first hstores
  · rw [sinceWith, heldWith, if_neg hempty, if_neg hempty]
    exact gathers_more (hgathers hempty) hempty hstores

/-- Assumes: slots that hold what is said of them, and every index below the total among those
held. The copying loop gets through. -/
theorem exists_copied_of_gathers {since : List Packet} {held : List UInt8}
    (hgathers : ctx.Gathers since held) (hall : ∀ i < ctx.totalFragments, i ∈ held) :
    ∃ payload, ctx.copied ctx.totalFragments.toNat = some payload := by
  apply Reassembly.exists_copied
  intro i hi
  have hlt : UInt8.ofNat i < ctx.totalFragments := by
    rw [UInt8.lt_iff_toNat_lt, UInt8.toNat_ofNat']
    exact Nat.lt_of_le_of_lt (Nat.mod_le _ _) hi
  obtain ⟨frag, -, -, hdata⟩ := hgathers.filled _ (hall _ hlt)
  rw [hdata]
  rfl

/-- A call does no harm exactly when it is ready. Assumes: a sound intake. -/
theorem safe_iff_ready (hsound : intake.Sound) (arrival : Arrival) :
    intake.Safe arrival ↔ intake.Ready arrival := by
  obtain ⟨ctx, hctx, hgathers⟩ := hsound
  have hsafe : intake.Safe arrival ↔ ∀ outPkt, ∃ rc next out,
      koePacketReassemble arrival.env ctx arrival.frag outPkt = some (rc, next, out) ∧
        (rc = 1 → ∀ i < next.totalFragments, ∃ frag ∈ intake.sinceWith ctx arrival.frag,
          frag.fragMsgId = next.msgId ∧ frag.fragIndex = i ∧
            (ctx.gathered arrival.frag).fragments i = some frag.fragData) := by
    simp [Safe, hctx]
  have hready : intake.Ready arrival ↔ (ctx.Stores arrival → ctx.Completes arrival →
      ∀ i < (ctx.gathered arrival.frag).totalFragments,
        i ∈ intake.heldWith ctx arrival.frag) := by
    simp [Ready, hctx]
  rw [hsafe, hready]
  by_cases hstores : ctx.Stores arrival
  swap
  · refine iff_of_true (fun outPkt ↦ ?_) fun h ↦ absurd h hstores
    obtain ⟨next, hcall, -, -⟩ := koePacketReassemble_refused hstores outPkt
    exact ⟨-1, next, outPkt, hcall, fun hrc ↦ absurd hrc (by decide)⟩
  by_cases hcompletes : ctx.Completes arrival
  swap
  · refine iff_of_true (fun outPkt ↦ ?_) fun _ h ↦ absurd h hcompletes
    obtain ⟨rc, out, hcall, hrc⟩ := koePacketReassemble_waits hstores hcompletes outPkt
    exact ⟨rc, _, out, hcall, fun hone ↦ absurd hone hrc⟩
  have hnow := gathers_gathered hgathers hstores
  constructor
  · intro hcopies _ _ i hi
    obtain ⟨rc, next, out, hcall, hfilled⟩ := hcopies Packet.zero
    rw [koePacketReassemble_completes hstores hcompletes, Option.map_eq_some_iff] at hcall
    obtain ⟨payload, -, hresult⟩ := hcall
    simp only [Prod.mk.injEq] at hresult
    obtain ⟨rfl, rfl, -⟩ := hresult
    obtain ⟨frag, hfrag, -, hindex, hdata⟩ := hfilled rfl i hi
    by_contra hout
    rcases hnow.missing i hi hout with hnone | hnever
    · rw [hdata] at hnone
      exact absurd hnone (by simp)
    · exact hnever frag hfrag hindex
  · intro hall outPkt
    obtain ⟨payload, hcopied⟩ := exists_copied_of_gathers hnow (hall hstores hcompletes)
    rw [koePacketReassemble_completes hstores hcompletes, hcopied, Option.map_some]
    refine ⟨1, _, _, rfl, fun _ i hi ↦ ?_⟩
    obtain ⟨frag, hfrag, hindex, hdata⟩ := hnow.filled i (hall hstores hcompletes i hi)
    exact ⟨frag, hfrag, hnow.sameMsg frag hfrag, hindex, hdata⟩

/-- A completed context has no data in the slots below its total. -/
theorem gathers_released {since : List Packet} {held : List UInt8}
    (hgathers : ctx.Gathers since held) : ctx.released.Gathers since [] where
  sameMsg := hgathers.sameMsg
  filled := fun _ hi ↦ absurd hi List.not_mem_nil
  missing := fun _ hi _ ↦ Or.inl (if_pos hi)

/-- Assumes: a call that does no harm. -/
theorem Sound.step (hsound : intake.Sound) (hsafe : intake.Safe arrival) :
    (intake.step arrival).Sound := by
  obtain ⟨ctx, hctx, hgathers⟩ := hsound
  obtain ⟨other, hsame, hanswers⟩ := hsafe
  obtain rfl : ctx = other := Option.some.inj (hctx.symm.trans hsame)
  obtain ⟨rc, next, out, hcall, -⟩ := hanswers Packet.zero
  rw [Intake.step, hctx]
  simp only [hcall, Option.map_some]
  refine ⟨next, rfl, ?_⟩
  intro hreceived
  by_cases hstores : ctx.Stores arrival
  · have hnow := gathers_gathered hgathers hstores
    by_cases hcompletes : ctx.Completes arrival
    · simp only [if_pos hstores, if_pos hcompletes]
      rw [koePacketReassemble_completes hstores hcompletes, Option.map_eq_some_iff] at hcall
      obtain ⟨payload, -, hresult⟩ := hcall
      rw [← (Prod.mk.inj (Prod.mk.inj hresult).2).1]
      exact gathers_released hnow
    · simp only [if_pos hstores, if_neg hcompletes]
      obtain ⟨_, _, hwaits, -⟩ := koePacketReassemble_waits hstores hcompletes Packet.zero
      have hresult := Option.some.inj (hcall.symm.trans hwaits)
      rw [(Prod.mk.inj (Prod.mk.inj hresult).2).1]
      exact hnow
  · simp only [if_neg hstores]
    obtain ⟨_, hrefused, hcount, hkept⟩ := koePacketReassemble_refused hstores Packet.zero
    have hresult := Option.some.inj (hcall.symm.trans hrefused)
    rw [(Prod.mk.inj (Prod.mk.inj hresult).2).1] at hreceived ⊢
    rw [hcount] at hreceived
    rw [hkept hreceived]
    exact hgathers hreceived

end Intake

/-- When reassembly is safe on arbitrary packets: in a sequence from a zero-initialised context,
every call is safe exactly when every call that reaches the total has every index below it. -/
theorem koePacketReassemble_hostile_iff (arrivals : List Arrival) :
    (∀ front arrival back, arrivals = front ++ arrival :: back →
        (front.foldl Intake.step Intake.start).Safe arrival) ↔
      ∀ front arrival back, arrivals = front ++ arrival :: back →
        (front.foldl Intake.step Intake.start).Ready arrival := by
  rw [← Runs.allSteps_iff, ← Runs.allSteps_iff]
  refine Runs.allSteps_iff_of_invariant ?_ ?_ Intake.sound_start arrivals
  · intro intake arrival hsound
    exact Intake.safe_iff_ready hsound arrival
  · intro intake arrival hsound hsafe
    exact hsound.step hsafe

/-- One byte of a message of two fragments, under message id zero. -/
def smallFragment (index byte : UInt8) : Packet where
  header :=
    { (koePacketInit PacketType.msg.code PacketFlag.fragmented.mask).header with length := 19 }
  payload := some (List.replicate 16 0 ++ [index, 2, byte])

/-- After the two fragments of a message have completed it, a copy of the first one reads from the
empty slot of the second. The same fragment twice completes the message with a slot never filled. -/
theorem koePacketReassemble_reads_empty_slot :
    let arrive (index : UInt8) : Arrival := ⟨smallFragment index 7, ⟨true, true⟩⟩
    let answer (intake : Intake) (arrival : Arrival) : Option (Option ℤ) :=
      intake.ctx.map fun ctx ↦
        (koePacketReassemble arrival.env ctx arrival.frag Packet.zero).map fun result ↦ result.1
    let first := Intake.start.step (arrive 0)
    let complete := first.step (arrive 1)
    answer first (arrive 1) = some (some 1) ∧ answer complete (arrive 0) = some none ∧
      answer first (arrive 0) = some (some 1) ∧
      (first.step (arrive 0)).since.map Packet.fragIndex = [0, 0] := by
  decide +kernel

end KoeCore
