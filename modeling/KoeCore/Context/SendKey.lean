import KoeCore.Context.Send
import KoeCore.Protocol.PacketRoundTrip

/-!
# The key of a send

What whoever reads the queue or the output can see of a packet is `Outgoing`: the recipient, the
nonce and the payload. `SendCall.UsesSession` is what a send owes its recipient: what it emits is
encrypted under the session of the recipient, and without one it fails and enqueues nothing.

`koeSends_usesSession_iff` says for which calls this holds. For the two calls that send a message it
is a matter of size, since the length of the ciphertext and the size of the stored packet are 32-bit
words. A file offer is encrypted under the zero key (`koeSendFile_offered`), whether or not the
recipient has a session, so it only ever agrees with a session whose sending key is zero.
-/

set_option autoImplicit false
set_option relaxedAutoImplicit false

namespace KoeCore

open ByteWire RowTable

/-! ### What is visible of a packet -/

/-- The recipient, the nonce and the payload of a packet on its way out. -/
structure Outgoing where
  toPk : Block 32
  nonce : Block 24
  payload : List UInt8

def Packet.outgoing (pkt : Packet) : Outgoing where
  toPk := pkt.header.toPk
  nonce := pkt.header.nonce
  payload := pkt.payloadBytes

/-- What a row of the queue stores of a packet, by the offsets of the format. -/
def QueuedRow.outgoing (row : QueuedRow) : Outgoing where
  toPk := row.toPk
  nonce := readAt 24 76 row.packet
  payload := row.packet.drop koeHeaderSize

/-- The payload is the ciphertext of the content under the sending key of the session. -/
def Outgoing.SealedUnder (S : Sodium) (sess : Session) (content : List UInt8) (out : Outgoing) :
    Prop :=
  koeEncrypt S content out.nonce sess.txKey = some out.payload

section Outgoing

variable {S : Sodium} {pkt : Packet} {ct : List UInt8}

/-- A packet is stored as a whole. Assumes: a payload of the announced length, and a size that fits
the 32-bit word it is computed in. -/
theorem queuedRow_outgoing (hpayload : pkt.payload = some ct)
    (hlength : pkt.header.length.toNat = ct.length) (hsize : koeHeaderSize + ct.length < 2 ^ 32)
    (now : ℤ) : (queuedRow now pkt).outgoing = ⟨pkt.header.toPk, pkt.header.nonce, ct⟩ := by
  have hpacket : (queuedRow now pkt).packet = pkt.header.wire ++ ct := by
    have hstored := queuedRow_packet (by rw [hpayload, hlength]; rfl)
      (hlength ▸ hsize) now
    rw [hstored, hpayload, Option.getD_some]
  have hnonce : readAt 24 76 (queuedRow now pkt).packet = pkt.header.nonce := by
    have hfield (bytes : List UInt8) : readAt 24 76 bytes = (Header.ofWire bytes).nonce := rfl
    rw [hpacket, hfield, Header.ofWire_wire]
  have hdrop : (queuedRow now pkt).packet.drop koeHeaderSize = ct := by
    rw [hpacket, ← Header.length_wire pkt.header, List.drop_left]
  rw [QueuedRow.outgoing, hnonce, hdrop]
  rfl

/-- The ciphertext of a content is stored as a whole only if its size fits. Assumes: a correct AEAD,
and a row whose payload is such a ciphertext. -/
theorem QueuedRow.size_of_sealedUnder (haead : S.Aead) {sess : Session} {content : List UInt8}
    {now : ℤ} (hsealed : (queuedRow now pkt).outgoing.SealedUnder S sess content) :
    koeHeaderSize + (content.length + 16) < 2 ^ 32 := by
  have hlength : (queuedRow now pkt).outgoing.payload.length = content.length + 16 :=
    haead.length_sealed hsealed
  have hreserved : pkt.reserved32 < 2 ^ 32 := Nat.mod_lt _ (by decide)
  have hstored : (queuedRow now pkt).outgoing.payload.length ≤
      pkt.reserved32 - koeHeaderSize := by
    simp only [QueuedRow.outgoing, queuedRow, List.length_drop, List.length_take]
    omega
  omega

/-- Likewise for a packet that is handed to the caller. Assumes: a correct AEAD, and a packet whose
payload is such a ciphertext. -/
theorem Packet.size_of_sealedUnder (haead : S.Aead) {sess : Session} {content : List UInt8}
    (hsealed : pkt.outgoing.SealedUnder S sess content) : content.length + 16 < 2 ^ 32 := by
  have hlength : pkt.payloadBytes.length = content.length + 16 := haead.length_sealed hsealed
  have hannounced := pkt.header.length.toNat_lt
  rw [Packet.payloadBytes, List.length_take] at hlength
  omega

/-- The packet of an offer is stored as a whole. Assumes: a correct AEAD, and the ciphertext of the
offer. -/
theorem offerRow_outgoing (haead : S.Aead) {offer : MediaOffer} {nonce : Block 24} {key : Block 32}
    (hct : koeEncrypt S offer.bytes nonce key = some ct) (toPk : Block 32) (now : ℤ) :
    (queuedRow now (offerPacket toPk nonce ct)).outgoing = ⟨toPk, nonce, ct⟩ := by
  have hlength : ct.length = 536 := by
    rw [haead.length_sealed hct, MediaOffer.length_bytes]
  have hannounced : (offerPacket toPk nonce ct).header.length.toNat = ct.length := by
    rw [hlength]
    rfl
  have hsize : koeHeaderSize + ct.length < 2 ^ 32 := by
    rw [hlength]
    decide
  exact queuedRow_outgoing rfl hannounced hsize now

end Outgoing

/-! ### What a send owes its recipient -/

/-- The sends of the application, with their arguments. -/
inductive SendCall
  | sendText (toPk : Block 32) (text : List UInt8) (destructTtl : UInt32)
  | sendEncrypted (toPk : Block 32) (body : List UInt8) (pktOut : Packet)
  | sendFile (toPk : Block 32) (offerEnv : OfferEnv) (filePath : List UInt8)
      (transferIdOut : Option (List UInt8))

/-- The recipient. -/
def SendCall.toPk : SendCall → Block 32
  | .sendText toPk _ _ => toPk
  | .sendEncrypted toPk _ _ => toPk
  | .sendFile toPk _ _ _ => toPk

section Run

variable (S : Sodium) (env : SendEnv) (ctx : Ctx) (maxPerPeer : ℤ) (db : QueueTable)

/-- The value returned. -/
def SendCall.rc : SendCall → ℤ
  | .sendText toPk text destructTtl =>
    (koeSendText S env ctx maxPerPeer db toPk text destructTtl).1.rc
  | .sendEncrypted toPk body pktOut => (koeMessageSendEncrypted S env ctx toPk body pktOut).1.rc
  | .sendFile toPk offerEnv filePath transferIdOut =>
    (koeSendFile S env offerEnv ctx maxPerPeer db toPk filePath transferIdOut).1

/-- The queue table after the call. -/
def SendCall.queue : SendCall → QueueTable
  | .sendText toPk text destructTtl => (koeSendText S env ctx maxPerPeer db toPk text destructTtl).2
  | .sendEncrypted _ _ _ => db
  | .sendFile toPk offerEnv filePath transferIdOut =>
    (koeSendFile S env offerEnv ctx maxPerPeer db toPk filePath transferIdOut).2.1

/-- What is to be encrypted: the text, the body, or the record of the file offer. -/
def SendCall.content : SendCall → List UInt8
  | .sendText _ text _ => text
  | .sendEncrypted _ body _ => body
  | .sendFile toPk offerEnv filePath _ =>
    (koeMediaOfferBuild S env.build offerEnv filePath toPk Session.zero MediaOffer.zero
      Packet.zero).2.1.bytes

/-- The call enqueues the packet, or outputs it. -/
def SendCall.Emits (out : Outgoing) (call : SendCall) : Prop :=
  (∃ row, db.Gains (call.queue S env ctx maxPerPeer db) row ∧ out = row.outgoing) ∨
    ∃ toPk body pktOut, call = .sendEncrypted toPk body pktOut ∧
      out = (koeMessageSendEncrypted S env ctx toPk body pktOut).2.outgoing

/-- A successful call only emits the content encrypted under the session that
`koe_session_table_find` returns for the recipient, and without such a session the call fails and
enqueues nothing. -/
def SendCall.UsesSession (call : SendCall) : Prop :=
  (call.rc S env ctx maxPerPeer db ≠ -1 →
    ∀ out, call.Emits S env ctx maxPerPeer db out → out.toPk = call.toPk →
      ∃ sess, (koeSessionTableFind env.findNow ctx.sessions call.toPk).1 = some sess ∧
        out.SealedUnder S sess (call.content S env)) ∧
  ((koeSessionTableFind env.findNow ctx.sessions call.toPk).1 = none →
    call.rc S env ctx maxPerPeer db = -1 ∧
      ∀ row, ¬ db.Gains (call.queue S env ctx maxPerPeer db) row)

end Run

/-! ### Which sends fulfil it -/

/-- The calls that use the session of their recipient. A text that is stored and whose id is not the
error code has to fit the 32-bit size of the stored packet, a message that is handed out has to fit
the 32-bit length, and the recipient of a file that can be offered needs a session, with the zero
key if the offer is stored. -/
def SendCall.Proper (env : SendEnv) (ctx : Ctx) : SendCall → Prop
  | .sendText toPk text _ =>
    env.Ready ctx toPk text → env.build.alloc = true → env.push.Stores →
      Int.bmod env.alloc.messageId.toNat (2 ^ 64) ≠ -1 →
        koeHeaderSize + (text.length + 16) < 2 ^ 32
  | .sendEncrypted toPk body _ =>
    env.Ready ctx toPk body → env.build.alloc = true → body.length + 16 < 2 ^ 32
  | .sendFile toPk offerEnv _ _ =>
    (∃ stSize contents, offerEnv.Readable stSize contents) → env.build.alloc = true →
      ∃ sess, ctx.sessions.lookup toPk = some sess ∧
        (env.push.Stores → sess.txKey = Block.zero 32)

section Sends

variable {S : Sodium} {env : SendEnv} {ctx : Ctx} {toPk : Block 32}

/-- A call that fails and leaves the queue alone owes nothing. Assumes: the return code -1, and an
unchanged table. -/
theorem SendCall.usesSession_of_fails {maxPerPeer : ℤ} {db : QueueTable} {call : SendCall}
    (hrc : call.rc S env ctx maxPerPeer db = -1)
    (hqueue : call.queue S env ctx maxPerPeer db = db) :
    call.UsesSession S env ctx maxPerPeer db := by
  constructor
  · intro hsuccess
    exact absurd hrc hsuccess
  · intro _
    refine ⟨hrc, ?_⟩
    rw [hqueue]
    exact Table.not_gains_of_subset (List.Subset.refl _)

/-- Assumes: a correct AEAD and an initialised context. -/
theorem usesSession_sendText_iff (haead : S.Aead) (hinit : ctx.initialised = true)
    (maxPerPeer : ℤ) (db : QueueTable) (text : List UInt8) (destructTtl : UInt32) :
    (SendCall.sendText toPk text destructTtl).UsesSession S env ctx maxPerPeer db ↔
      (SendCall.sendText toPk text destructTtl).Proper env ctx := by
  by_cases hready : env.Ready ctx toPk text
  swap
  · obtain ⟨-, -, hfails⟩ := koeSendText_spec S env ctx maxPerPeer db toPk text destructTtl
    obtain ⟨hrc, hqueue⟩ := hfails hready
    exact iff_of_true (SendCall.usesSession_of_fails hrc hqueue) fun h ↦ absurd h hready
  obtain ⟨⟨sess, hlookup⟩, halloc⟩ := hready
  obtain ⟨ct, hct⟩ := haead.seals sess.txKey env.build.nonce text
  obtain ⟨msg, hmsg, hrc, hqueue⟩ :=
    koeSendText_eq hinit hlookup halloc hct maxPerPeer db destructTtl
  have hgains (row : QueuedRow) : db.Gains
        ((SendCall.sendText toPk text destructTtl).queue S env ctx maxPerPeer db) row ↔
      env.build.alloc = true ∧ env.push.Stores ∧
        row = queuedRow env.push.now (messagePacket msg env.build.nonce ct) := by
    change db.Gains (koeSendText S env ctx maxPerPeer db toPk text destructTtl).2 row ↔ _
    rw [hqueue]
    by_cases hbuild : env.build.alloc = true
    · rw [if_pos hbuild, koeQueuePush_gains_iff]
      exact ⟨fun hrow ↦ ⟨hbuild, hrow⟩, And.right⟩
    · rw [if_neg hbuild]
      exact iff_of_false (Table.not_gains_of_subset (List.Subset.refl _) row)
        fun hrow ↦ hbuild hrow.1
  constructor
  · rintro ⟨husesSession, -⟩ - hbuild hstores hid
    have hrow := (hgains _).mpr ⟨hbuild, hstores, rfl⟩
    obtain ⟨found, -, hsealed⟩ :=
      husesSession (hrc.trans_ne hid) _ (Or.inl ⟨_, hrow, rfl⟩) hmsg.toPk_eq
    exact QueuedRow.size_of_sealedUnder haead hsealed
  · intro hproper
    refine ⟨?_, fun hnone ↦ absurd (hlookup.symm.trans hnone) (by simp)⟩
    rintro hsuccess out (⟨row, hrow, rfl⟩ | ⟨_, _, _, hcall, _⟩) -
    · obtain ⟨hbuild, hstores, rfl⟩ := (hgains row).mp hrow
      have hsize := hproper ⟨⟨sess, hlookup⟩, halloc⟩ hbuild hstores (hrc.symm.trans_ne hsuccess)
      have hlength : ct.length = text.length + 16 := haead.length_sealed hct
      have hannounced := messagePacket_announces haead hmsg.bodyLen_eq hct (by omega)
      refine ⟨sess, hlookup, ?_⟩
      rw [queuedRow_outgoing rfl hannounced (hlength ▸ hsize)]
      exact hct
    · exact absurd hcall (by simp)

/-- Assumes: a correct AEAD and an initialised context. -/
theorem usesSession_sendEncrypted_iff (haead : S.Aead) (hinit : ctx.initialised = true)
    (maxPerPeer : ℤ) (db : QueueTable) (body : List UInt8) (pktOut : Packet) :
    (SendCall.sendEncrypted toPk body pktOut).UsesSession S env ctx maxPerPeer db ↔
      (SendCall.sendEncrypted toPk body pktOut).Proper env ctx := by
  by_cases hready : env.Ready ctx toPk body
  swap
  · have hrc := (koeMessageSendEncrypted_spec S env ctx toPk body pktOut).2 hready
    exact iff_of_true (SendCall.usesSession_of_fails hrc rfl) fun h ↦ absurd h hready
  obtain ⟨⟨sess, hlookup⟩, halloc⟩ := hready
  obtain ⟨ct, hct⟩ := haead.seals sess.txKey env.build.nonce body
  obtain ⟨msg, hmsg, -, hrc, hpacket⟩ :=
    koeMessageSendEncrypted_eq (S := S) hinit hlookup halloc pktOut
  by_cases hbuild : env.build.alloc = true
  swap
  · have hfails : (koeMessageEncrypt S env.build msg sess).1 = -1 := by
      simp [koeMessageEncrypt, hbuild]
    exact iff_of_true (SendCall.usesSession_of_fails (hrc.trans hfails) rfl) fun _ h ↦
      absurd h hbuild
  rw [koeMessageEncrypt_eq hbuild (hmsg.bodyBytes.symm ▸ hct)] at hrc hpacket
  have hnothing := Table.not_gains_of_subset (List.Subset.refl db.rows)
  constructor
  · rintro ⟨husesSession, -⟩ - -
    have hto : (koeMessageSendEncrypted S env ctx toPk body pktOut).2.outgoing.toPk = toPk := by
      rw [hpacket]
      exact hmsg.toPk_eq
    obtain ⟨found, -, hsealed⟩ := husesSession (hrc.trans_ne (show (0 : ℤ) ≠ -1 by decide)) _
      (Or.inr ⟨toPk, body, pktOut, rfl, rfl⟩) hto
    exact Packet.size_of_sealedUnder haead hsealed
  · intro hproper
    refine ⟨?_, fun hnone ↦ absurd (hlookup.symm.trans hnone) (by simp)⟩
    rintro - out (⟨row, hrow, -⟩ | ⟨_, _, _, hcall, rfl⟩) -
    · exact absurd hrow (hnothing row)
    · cases hcall
      have hannounced := messagePacket_announces haead hmsg.bodyLen_eq hct
        (hproper ⟨⟨sess, hlookup⟩, halloc⟩ hbuild)
      refine ⟨sess, hlookup, ?_⟩
      rw [hpacket, Outgoing.SealedUnder, Packet.outgoing, Packet.payloadBytes_eq rfl hannounced]
      exact hct

/-- The offer of a readable file returns 0 and enqueues the offer under the zero key, whatever
sessions there are. Assumes: a correct AEAD, an initialised context, a readable file, and a buffer
for its offer. -/
theorem koeSendFile_offered (haead : S.Aead) (hinit : ctx.initialised = true) {offerEnv : OfferEnv}
    {stSize : ℤ} {contents : List UInt8} (hfile : offerEnv.Readable stSize contents)
    (hbuild : env.build.alloc = true) (toPk : Block 32) (maxPerPeer : ℤ) (db : QueueTable)
    (filePath : List UInt8) (transferIdOut : Option (List UInt8)) :
    let sent := koeSendFile S env offerEnv ctx maxPerPeer db toPk filePath transferIdOut
    let offer := hashedOffer S offerEnv stSize contents filePath toPk
    sent.1 = 0 ∧ ∃ out : Outgoing, out.toPk = toPk ∧
      out.SealedUnder S Session.zero offer.bytes ∧
      (∀ row, db.Gains sent.2.1 row → env.push.Stores ∧ row.outgoing = out) ∧
      (env.push.Stores → ∃ row, db.Gains sent.2.1 row ∧ row.outgoing = out) := by
  intro sent offer
  obtain ⟨ct, hct⟩ := haead.seals Session.zero.txKey env.build.nonce offer.bytes
  obtain ⟨hrc, hqueue⟩ := koeSendFile_eq hinit hfile hbuild hct maxPerPeer db transferIdOut
  have hstored := offerRow_outgoing haead hct toPk env.push.now
  have hgains (row : QueuedRow) : db.Gains sent.2.1 row ↔ env.push.Stores ∧
      row = queuedRow env.push.now (offerPacket toPk env.build.nonce ct) := by
    rw [show sent.2.1 = _ from hqueue]
    exact koeQueuePush_gains_iff env.push maxPerPeer db _ row
  refine ⟨hrc, ⟨toPk, env.build.nonce, ct⟩, rfl, hct, ?_, ?_⟩
  · intro row hrow
    obtain ⟨hstores, rfl⟩ := (hgains row).mp hrow
    exact ⟨hstores, hstored⟩
  · intro hstores
    exact ⟨_, (hgains _).mpr ⟨hstores, rfl⟩, hstored⟩

/-- Assumes: a correct AEAD whose ciphertexts tell keys apart, and an initialised context. -/
theorem usesSession_sendFile_iff (haead : S.Aead) (hseparates : S.SeparatesKeys)
    (hinit : ctx.initialised = true) (maxPerPeer : ℤ) (db : QueueTable) (offerEnv : OfferEnv)
    (filePath : List UInt8) (transferIdOut : Option (List UInt8)) :
    (SendCall.sendFile toPk offerEnv filePath transferIdOut).UsesSession S env ctx maxPerPeer db ↔
      (SendCall.sendFile toPk offerEnv filePath transferIdOut).Proper env ctx := by
  by_cases hoffered : (∃ stSize contents, offerEnv.Readable stSize contents) ∧
    env.build.alloc = true
  swap
  · have hfails : (∀ stSize contents, ¬ offerEnv.Readable stSize contents) ∨
        env.build.alloc = false := by
      by_cases hbuild : env.build.alloc = true
      · exact Or.inl fun stSize contents hfile ↦ hoffered ⟨⟨stSize, contents, hfile⟩, hbuild⟩
      · exact Or.inr (by simpa using hbuild)
    have hsent : koeSendFile S env offerEnv ctx maxPerPeer db toPk filePath transferIdOut =
        (-1, db, transferIdOut) :=
      koeSendFile_fails hfails maxPerPeer db filePath transferIdOut
    exact iff_of_true
      (SendCall.usesSession_of_fails (congrArg Prod.fst hsent)
        (congrArg (fun sent ↦ sent.2.1) hsent))
      fun hfile hbuild ↦ absurd ⟨hfile, hbuild⟩ hoffered
  obtain ⟨⟨stSize, contents, hfile⟩, hbuild⟩ := hoffered
  obtain ⟨hrc, out, hto, hzero, honly, hstored⟩ :=
    koeSendFile_offered haead hinit hfile hbuild toPk maxPerPeer db filePath transferIdOut
  have hcontent : (SendCall.sendFile toPk offerEnv filePath transferIdOut).content S env =
      (hashedOffer S offerEnv stSize contents filePath toPk).bytes := by
    simp only [SendCall.content, koeMediaOfferBuild_eq hfile]
  constructor
  · rintro ⟨husesSession, hneeds⟩ - -
    rcases hlookup : ctx.sessions.lookup toPk with _ | sess
    · exact absurd (hrc.symm.trans (hneeds hlookup).1) (by decide)
    · refine ⟨sess, rfl, fun hstores ↦ ?_⟩
      obtain ⟨row, hrow, rfl⟩ := hstored hstores
      obtain ⟨found, hfound, hsealed⟩ := husesSession (hrc.trans_ne (by decide)) _
        (Or.inl ⟨row, hrow, rfl⟩) hto
      obtain rfl : sess = found := Option.some.inj (hlookup.symm.trans hfound)
      rw [hcontent] at hsealed
      exact hseparates (by simp) hsealed hzero
  · intro hproper
    obtain ⟨sess, hlookup, hkey⟩ := hproper ⟨stSize, contents, hfile⟩ hbuild
    refine ⟨?_, fun hnone ↦ absurd (hlookup.symm.trans hnone) (by simp)⟩
    rintro - _ (⟨row, hrow, rfl⟩ | ⟨_, _, _, hcall, -⟩) -
    · obtain ⟨hstores, rfl⟩ := honly row hrow
      refine ⟨sess, hlookup, ?_⟩
      rw [hcontent, Outgoing.SealedUnder, hkey hstores]
      exact hzero
    · exact absurd hcall (by simp)

end Sends

/-- An environment in which everything succeeds. -/
def smoothSend : SendEnv where
  findNow := 0
  alloc := ⟨1, 0, 0, 0, true, true⟩
  destructNow := 0
  build := ⟨Block.zero 24, true⟩
  push := ⟨.effective, ⟨true, true, 0⟩, true, 0, true⟩

/-- An empty file. -/
def emptyFile : OfferEnv := ⟨some 0, Block.zero 16, 0, some []⟩

theorem emptyFile_readable : emptyFile.Readable 0 [] := ⟨rfl, Nat.zero_le _, rfl⟩

end KoeCore
