import KoeCore.Context.SendKey
import KoeCore.Messaging.Delivery
import KoeCore.Queue.History

/-!
# What a returned message id says

`koe_send_text` returns the id of its message whether or not the message was encrypted and stored,
and `koe_send_text_scheduled` returns one and frees the message. `TextCall.Reported` is what a
caller takes an id for: the queue holds a packet that the recipient can read the text from, and a
message that is not there is reported by -1.

`koeSendText_reported_iff` says when this holds, for every outcome of each statement that the push
sends to SQLite and of each request for memory. Other than by a failed allocation, which is
reported, or by an equal packet that was in the queue already, it holds only for a text that is sent
at once, with the buffer of its ciphertext and an `INSERT` that succeed, and within the length that
can be read back.
-/

set_option autoImplicit false
set_option relaxedAutoImplicit false

namespace KoeCore

open ByteWire RowTable

/-- The two calls that return the id of a text: at once with a timer, or scheduled. -/
inductive TextCall
  | now (destructTtl : UInt32)
  | scheduled (sendAtUnix : ℤ)

namespace TextCall

section Run

variable (S : Sodium) (env : SendEnv) (ctx : Ctx) (maxPerPeer : ℤ) (db : QueueTable)
  (toPk : Block 32) (text : List UInt8)

/-- The value returned. -/
def rc : TextCall → ℤ
  | .now destructTtl => (koeSendText S env ctx maxPerPeer db toPk text destructTtl).1.rc
  | .scheduled sendAtUnix => (koeSendTextScheduled S env ctx toPk text sendAtUnix).rc

/-- The queue table after the call. -/
def queue : TextCall → QueueTable
  | .now destructTtl => (koeSendText S env ctx maxPerPeer db toPk text destructTtl).2
  | .scheduled _ => db

/-- The rows from before the call that are still there after it. -/
def room : TextCall → QueueTable
  | .now _ => if env.build.alloc then makeRoom env.push maxPerPeer db toPk else db
  | .scheduled _ => db

end Run

end TextCall

/-- The row is for the peer, and holds a packet to the peer that decrypts under the session to the
text. -/
structure QueuedRow.Holds (S : Sodium) (theirs : Session) (toPk : Block 32) (text : List UInt8)
    (row : QueuedRow) : Prop where
  toPk_eq : row.toPk = toPk
  decodes : (koePacketDeserialise true Packet.zero row.packet).1 = 0
  addressed : (koePacketDeserialise true Packet.zero row.packet).2.header.toPk = toPk
  yields : (koePacketDeserialise true Packet.zero row.packet).2.Yields S theirs text

/-- The queue has such a row. -/
def Keeps (S : Sodium) (theirs : Session) (toPk : Block 32) (text : List UInt8)
    (db : QueueTable) : Prop :=
  ∃ row ∈ db.rows, row.2.Holds S theirs toPk text

/-- An id means that the message is in the queue, and a message that is not is reported by -1. -/
def TextCall.Reported (S : Sodium) (env : SendEnv) (ctx : Ctx) (maxPerPeer : ℤ) (db : QueueTable)
    (toPk : Block 32) (text : List UInt8) (theirs : Session) (call : TextCall) : Prop :=
  (0 ≤ call.rc S env ctx maxPerPeer db toPk text →
      Keeps S theirs toPk text (call.queue S env ctx maxPerPeer db toPk text)) ∧
    (¬ Keeps S theirs toPk text (call.queue S env ctx maxPerPeer db toPk text) →
      call.rc S env ctx maxPerPeer db toPk text = -1)

/-- The call stores a packet that can be read back. -/
def TextCall.Stores (env : SendEnv) (text : List UInt8) : TextCall → Prop
  | .now _ => env.build.alloc = true ∧ env.push.Stores ∧ text.length + 16 ≤ koeMaxPayload
  | .scheduled _ => False

section Rows

variable {S : Sodium} {theirs : Session} {toPk : Block 32} {text : List UInt8}

/-- What is decoded is within the cap. Assumes: bytes that decode. -/
theorem koePacketDeserialise_withinCap {alloc : Bool} {out : Packet} {bytes : List UInt8}
    (hrc : (koePacketDeserialise alloc out bytes).1 = 0) :
    (koePacketDeserialise alloc out bytes).2.header.length.toNat ≤ koeMaxPayload := by
  unfold koePacketDeserialise at hrc ⊢
  simp only at hrc ⊢
  split_ifs at hrc ⊢ with hshort hpos hroom hmax halloc
  · exact absurd hrc (by simp)
  · exact absurd hrc (by simp)
  · exact absurd hrc (by simp)
  · exact absurd hrc (by simp)
  · exact Nat.not_lt.mp hmax
  · have hzero : (Header.ofWire bytes).length.toNat = 0 := by
      rw [UInt32.lt_iff_toNat_lt] at hpos
      exact Nat.eq_zero_of_not_pos hpos
    exact hzero.le.trans (Nat.zero_le _)

/-- A packet that differs in its reserved bytes decrypts to the same. Assumes: a correct AEAD and
matching packets. -/
theorem Packet.Matches.yields_iff (haead : S.Aead) {pkt out : Packet} (hmatches : pkt.Matches out) :
    out.Yields S theirs text ↔ pkt.Yields S theirs text := by
  have hbytes : out.payloadBytes = pkt.payloadBytes := by
    rw [Packet.payloadBytes, Packet.payloadBytes, hmatches.1, hmatches.2]
  rw [Packet.yields_iff haead, Packet.yields_iff haead, hbytes, hmatches.1]

/-- A text that can be read from a row is within the cap. Assumes: a correct AEAD and such a row. -/
theorem QueuedRow.Holds.withinCap (haead : S.Aead) {row : QueuedRow}
    (hholds : row.Holds S theirs toPk text) : text.length + 16 ≤ koeMaxPayload := by
  have hlength := ((Packet.yields_iff haead _ _ _).mp hholds.yields).2.2
  have hcap := koePacketDeserialise_withinCap hholds.decodes
  rw [hlength, cryptoSecretboxMacbytes] at hcap
  exact hcap

/-- The row of a message within the cap. Assumes: a correct AEAD, a message with the text, its
ciphertext under the sending key, the mirrored session, and a text within the cap. -/
theorem queuedRow_holds (haead : S.Aead) {msg : Message} (hmsg : msg.Holds toPk text)
    {sess : Session} (hmirrored : sess.Mirrored theirs) {nonce : Block 24} {ct : List UInt8}
    (hct : koeEncrypt S text nonce sess.txKey = some ct) (hcap : text.length + 16 ≤ koeMaxPayload)
    (now : ℤ) : (queuedRow now (messagePacket msg nonce ct)).Holds S theirs toPk text := by
  have hmax : text.length ≤ koeMaxPayload - 16 := Nat.le_sub_of_add_le hcap
  obtain ⟨hannounced, hwithin, hctLen⟩ := messagePacket_length haead hmsg.bodyLen_eq hmax hct
  have hcarries : (messagePacket msg nonce ct).Carries := hannounced.symm
  obtain ⟨hdecodes, hmatches⟩ :=
    (koePacketDeserialise_queuedRow hcarries now Packet.zero).1 (hannounced ▸ hwithin)
  refine ⟨hmsg.toPk_eq, hdecodes, ?_, ?_⟩
  · rw [hmatches.1]
    exact hmsg.toPk_eq
  · rw [hmatches.yields_iff haead, Packet.yields_iff haead, Packet.payloadBytes_eq rfl hannounced,
      ← hmirrored.1]
    refine ⟨?_, hct, hannounced.trans hctLen⟩
    change (PacketFlag.encrypted.mask ||| PacketFlag.signed.mask) &&& PacketFlag.encrypted.mask ≠ 0
    decide

theorem keeps_insert_iff {db : QueueTable} {row : QueuedRow} :
    Keeps S theirs toPk text (db.insert row) ↔
      Keeps S theirs toPk text db ∨ row.Holds S theirs toPk text := by
  unfold Keeps
  constructor
  · rintro ⟨found, hfound, hholds⟩
    rcases List.mem_append.mp hfound with hold | hnew
    · exact Or.inl ⟨found, hold, hholds⟩
    · rw [List.mem_singleton.mp hnew] at hholds
      exact Or.inr hholds
  · rintro (⟨found, hfound, hholds⟩ | hholds)
    · exact ⟨found, List.mem_append_left _ hfound, hholds⟩
    · exact ⟨_, List.mem_append_right _ (List.mem_singleton_self _), hholds⟩

end Rows

/-! ### When an id means that the message is kept -/

section Calls

variable {S : Sodium} {env : SendEnv} {ctx : Ctx} {toPk : Block 32} {text : List UInt8}
  {sess theirs : Session}

/-- What a call that has a message returns, and what the queue then keeps. Assumes: a correct AEAD,
an initialised context with a session for the recipient, a message, and the mirrored session. -/
theorem TextCall.keeps_iff (haead : S.Aead) (hinit : ctx.initialised = true)
    (hlookup : ctx.sessions.lookup toPk = some sess) (halloc : env.alloc.Allocates text)
    (hmirrored : sess.Mirrored theirs) (maxPerPeer : ℤ) (db : QueueTable) (call : TextCall) :
    call.rc S env ctx maxPerPeer db toPk text = Int.bmod env.alloc.messageId.toNat (2 ^ 64) ∧
      (Keeps S theirs toPk text (call.queue S env ctx maxPerPeer db toPk text) ↔
        Keeps S theirs toPk text (call.room env maxPerPeer db toPk) ∨ call.Stores env text) := by
  cases call with
  | scheduled sendAtUnix =>
    exact ⟨koeSendTextScheduled_eq hinit halloc sendAtUnix, (or_iff_left (not_false)).symm⟩
  | now destructTtl =>
    obtain ⟨ct, hct⟩ := haead.seals sess.txKey env.build.nonce text
    obtain ⟨msg, hmsg, hrc, hqueue⟩ :=
      koeSendText_eq hinit hlookup halloc hct maxPerPeer db destructTtl
    refine ⟨hrc, ?_⟩
    change Keeps S theirs toPk text (koeSendText S env ctx maxPerPeer db toPk text destructTtl).2 ↔
      Keeps S theirs toPk text (if env.build.alloc then _ else _) ∨ _
    rw [hqueue]
    by_cases hbuild : env.build.alloc = true
    swap
    · rw [if_neg hbuild, if_neg hbuild]
      exact (or_iff_left fun hstores ↦ hbuild hstores.1).symm
    rw [if_pos hbuild, if_pos hbuild]
    have hto : (messagePacket msg env.build.nonce ct).header.toPk = toPk := hmsg.toPk_eq
    rcases koeQueuePush_cases env.push maxPerPeer db (messagePacket msg env.build.nonce ct) with
      ⟨hstores, hpush⟩ | ⟨hstores, hpush⟩
    · rw [hpush, keeps_insert_iff, hto]
      refine or_congr_right ⟨fun hholds ↦ ⟨hbuild, hstores, hholds.withinCap haead⟩, ?_⟩
      rintro ⟨-, -, hcap⟩
      exact queuedRow_holds haead hmsg hmirrored hct hcap env.push.now
    · rw [hpush, hto]
      exact (or_iff_left fun hcall ↦ hstores hcall.2.1).symm

/-- When an id means that the message is kept: where there is no message to keep, or its id is the
error code itself, where the queue held such a packet already, or where the call stores one that can
be read back. For all outcomes of the statements of the push: a failed count, `SELECT` or `DELETE`
only decides which rows are left from before. Assumes: a correct AEAD, an initialised context with a
session for the recipient, and the session that mirrors it. -/
theorem koeSendText_reported_iff (haead : S.Aead) (hinit : ctx.initialised = true)
    (hlookup : ctx.sessions.lookup toPk = some sess) (hmirrored : sess.Mirrored theirs)
    (maxPerPeer : ℤ) (db : QueueTable) (call : TextCall) :
    call.Reported S env ctx maxPerPeer db toPk text theirs ↔
      ¬ env.alloc.Allocates text ∨ Int.bmod env.alloc.messageId.toNat (2 ^ 64) = -1 ∨
        Keeps S theirs toPk text (call.room env maxPerPeer db toPk) ∨ call.Stores env text := by
  by_cases halloc : env.alloc.Allocates text
  swap
  · have hrc : call.rc S env ctx maxPerPeer db toPk text = -1 := by
      cases call with
      | scheduled sendAtUnix => exact koeSendTextScheduled_fails halloc sendAtUnix
      | now destructTtl =>
        obtain ⟨-, -, hfails⟩ := koeSendText_spec S env ctx maxPerPeer db toPk text destructTtl
        exact (hfails fun hready ↦ halloc hready.2).1
    refine iff_of_true ⟨fun hid ↦ ?_, fun _ ↦ hrc⟩ (Or.inl halloc)
    rw [hrc] at hid
    exact absurd hid (by decide)
  obtain ⟨hrc, hkeeps⟩ := call.keeps_iff haead hinit hlookup halloc hmirrored maxPerPeer db
  rw [TextCall.Reported, hrc, ← hkeeps]
  constructor
  · rintro ⟨-, hreports⟩
    by_cases hkept : Keeps S theirs toPk text (call.queue S env ctx maxPerPeer db toPk text)
    · exact Or.inr (Or.inr hkept)
    · exact Or.inr (Or.inl (hreports hkept))
  · rintro (hnone | hcode | hkept)
    · exact absurd halloc hnone
    · refine ⟨fun hid ↦ ?_, fun _ ↦ hcode⟩
      rw [hcode] at hid
      exact absurd hid (by decide)
    · exact ⟨fun _ ↦ hkept, fun hlost ↦ absurd hkept hlost⟩

end Calls

/-! ### Instances -/

/-- A session of the stand-in. -/
def storedSession : Session := ⟨List.Vector.replicate 32 1, List.Vector.replicate 32 2⟩

/-- The session that mirrors it. -/
def storedMirror : Session := ⟨List.Vector.replicate 32 2, List.Vector.replicate 32 1⟩

/-- A context of the stand-in that has the session with one peer. -/
def storedCtx : Ctx :=
  { transparentCtx 1 with
    sessions := (koeSessionTableAdd 0 koeSessionTableInit (Block.zero 32) storedSession).2 }

theorem storedCtx_lookup : storedCtx.sessions.lookup (Block.zero 32) = some storedSession := by
  have hroom : koeSessionTableInit.HasRoom := transparentCtx_hasRoom 1
  have hretained : koeSessionTableInit.retained (Block.zero 32) = none := by
    rw [SessionTable.retained, if_pos hroom]
    rfl
  change (koeSessionTableAdd 0 koeSessionTableInit (Block.zero 32) storedSession).2.lookup _ = _
  rw [koeSessionTableAdd_lookup, hretained, if_pos hroom]
  rfl

/-- Everything succeeds but the `INSERT`. -/
def refusedSend : SendEnv :=
  { smoothSend with push := ⟨.effective, ⟨true, true, 0⟩, true, 0, false⟩ }

theorem not_keeps_empty {S : Sodium} {theirs : Session} {toPk : Block 32} {text : List UInt8}
    {db : QueueTable} (hrows : db.rows ⊆ []) : ¬ Keeps S theirs toPk text db := by
  rintro ⟨row, hrow, -⟩
  exact absurd (hrows hrow) List.not_mem_nil

/-- The text `"hi"` is scheduled with everything going well, and sent at once while the database
refuses the `INSERT`: both calls return the id 1000001, and the queue stays empty. -/
theorem koeSendText_id_without_message :
    let scheduled := TextCall.scheduled 7
    let refused := TextCall.now 0
    scheduled.rc Sodium.transparent smoothSend storedCtx 512 Table.empty (Block.zero 32)
        [0x68, 0x69] = 1000001 ∧
      ¬ Keeps Sodium.transparent storedMirror (Block.zero 32) [0x68, 0x69]
        (scheduled.queue Sodium.transparent smoothSend storedCtx 512 Table.empty (Block.zero 32)
          [0x68, 0x69]) ∧
      refused.rc Sodium.transparent refusedSend storedCtx 512 Table.empty (Block.zero 32)
        [0x68, 0x69] = 1000001 ∧
      ¬ Keeps Sodium.transparent storedMirror (Block.zero 32) [0x68, 0x69]
        (refused.queue Sodium.transparent refusedSend storedCtx 512 Table.empty (Block.zero 32)
          [0x68, 0x69]) := by
  intro scheduled refused
  have hinit : storedCtx.initialised = true := rfl
  have hmirrored : storedSession.Mirrored storedMirror := ⟨rfl, rfl⟩
  have hsmooth : smoothSend.alloc.Allocates [0x68, 0x69] := ⟨by simp, rfl, rfl⟩
  have hrefused : refusedSend.alloc.Allocates [0x68, 0x69] := ⟨by simp, rfl, rfl⟩
  have hid : Int.bmod smoothSend.alloc.messageId.toNat (2 ^ 64) = 1000001 := by decide
  obtain ⟨hscheduledRc, hscheduledKeeps⟩ := scheduled.keeps_iff Sodium.transparent_aead hinit
    storedCtx_lookup hsmooth hmirrored 512 Table.empty
  obtain ⟨hrefusedRc, hrefusedKeeps⟩ := refused.keeps_iff Sodium.transparent_aead hinit
    storedCtx_lookup hrefused hmirrored 512 Table.empty
  refine ⟨hscheduledRc.trans hid, ?_, hrefusedRc.trans hid, ?_⟩
  · rw [hscheduledKeeps]
    rintro (hkept | hstores)
    · exact not_keeps_empty (List.Subset.refl _) hkept
    · exact hstores
  · rw [hrefusedKeeps]
    rintro (hkept | ⟨-, hstores, -⟩)
    · exact not_keeps_empty
        (makeRoom_keeps refusedSend.push 512 Table.empty (Block.zero 32)).2 hkept
    · exact absurd hstores.2 (by decide)

/-- Sent at once with everything going well, the text is kept. -/
theorem hiText_reported :
    (TextCall.now 0).Reported Sodium.transparent smoothSend storedCtx 512 Table.empty
      (Block.zero 32) [0x68, 0x69] storedMirror := by
  have hinit : storedCtx.initialised = true := rfl
  have hmirrored : storedSession.Mirrored storedMirror := ⟨rfl, rfl⟩
  have hstores : (TextCall.now 0).Stores smoothSend [0x68, 0x69] :=
    ⟨rfl, ⟨rfl, rfl⟩, by decide⟩
  exact (koeSendText_reported_iff Sodium.transparent_aead hinit storedCtx_lookup hmirrored 512
    Table.empty (TextCall.now 0)).mpr (Or.inr (Or.inr (Or.inr hstores)))

end KoeCore
