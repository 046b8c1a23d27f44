import KoeCore.Context.Handshake
import KoeCore.Messaging.Media
import KoeCore.Queue.Store

/-!
# Application sends

`koe_send_text`, `koe_send_text_scheduled`, `koe_message_send_encrypted` and `koe_send_file` of
`koe_core.c`. The first and the third look up the session of the recipient, write and sign a message
and encrypt it; the text is then put into the offline queue and the other message handed to the
caller. A scheduled text is written and signed, and then freed. The file offer is built with a
session of zero bytes, and no session is looked up for it. The pointers of a call are taken not to
be `NULL`, except the optional `transfer_id_out`.

`koeSendText_spec` and `koeMessageSendEncrypted_spec` say what a call leaves in the context and when
it fails, and a lemma for each of the four what it returns and enqueues when it does not.
`pushedText` and `pushedOffer` are the packets that reach the queue (`koeSendText_queue`,
`koeSendFile_queue`).
-/

set_option autoImplicit false
set_option relaxedAutoImplicit false

namespace KoeCore

open ByteWire RowTable

/-- What a send takes from its environment: the clock of the session lookup, the answers to
`koe_message_alloc`, the clock of `koe_message_set_destruct`, and the answers to the packet builder
and to the push. -/
structure SendEnv where
  findNow : ℤ
  alloc : AllocEnv
  destructNow : ℤ
  build : BuildEnv
  push : PushEnv

/-- The value returned, and the context and the counter of message ids after a send. -/
structure Sent where
  rc : ℤ
  ctx : Ctx
  counter : UInt64

section Functions

variable (S : Sodium) (env : SendEnv)

/-- The message after `koe_message_sign`, whose return code is dropped. -/
def signedBy (keys : Identity) (msg : Message) : Message :=
  (koeMessageSign S msg keys).2

def koeSendText (ctx : Ctx) (maxPerPeer : ℤ) (db : QueueTable) (toPk : Block 32) (text : List UInt8)
    (destructTtl : UInt32) : Sent × QueueTable :=
  if !ctx.initialised then (⟨-1, ctx, env.alloc.counter⟩, db)
  else
    let found := koeSessionTableFind env.findNow ctx.sessions toPk
    let ctx := { ctx with sessions := found.2 }
    match found.1 with
    | none => (⟨-1, ctx, env.alloc.counter⟩, db)
    | some sess =>
      let allocated := koeMessageAlloc env.alloc .text toPk text
      match allocated.1 with
      | none => (⟨-1, ctx, allocated.2⟩, db)
      | some msg =>
        let msg := { msg with fromPk := ctx.keys.pk }
        let msg :=
          if 0 < destructTtl then koeMessageSetDestruct env.destructNow msg destructTtl else msg
        let msg := signedBy S ctx.keys msg
        -- `(int64_t)msg->id`
        let id := Int.bmod msg.id.toNat (2 ^ 64)
        let encrypted := koeMessageEncrypt S env.build msg sess
        if encrypted.1 = 0 then
          (⟨id, ctx, allocated.2⟩, (koeQueuePush env.push maxPerPeer db encrypted.2).2)
        else (⟨id, ctx, allocated.2⟩, db)

/-- No session is looked up, and nothing is put into the queue. -/
def koeSendTextScheduled (ctx : Ctx) (toPk : Block 32) (text : List UInt8) (sendAtUnix : ℤ) :
    Sent :=
  if !ctx.initialised then ⟨-1, ctx, env.alloc.counter⟩
  else
    let allocated := koeMessageAlloc env.alloc .text toPk text
    match allocated.1 with
    | none => ⟨-1, ctx, allocated.2⟩
    | some msg =>
      let msg := { msg with fromPk := ctx.keys.pk }
      let msg := koeMessageSchedule msg sendAtUnix
      let msg := signedBy S ctx.keys msg
      ⟨Int.bmod msg.id.toNat (2 ^ 64), ctx, allocated.2⟩

def koeMessageSendEncrypted (ctx : Ctx) (toPk : Block 32) (body : List UInt8) (pktOut : Packet) :
    Sent × Packet :=
  if !ctx.initialised then (⟨-1, ctx, env.alloc.counter⟩, pktOut)
  else if body.length = 0 then (⟨-1, ctx, env.alloc.counter⟩, pktOut)
  else
    let found := koeSessionTableFind env.findNow ctx.sessions toPk
    let ctx := { ctx with sessions := found.2 }
    match found.1 with
    | none => (⟨-1, ctx, env.alloc.counter⟩, pktOut)
    | some sess =>
      let allocated := koeMessageAlloc env.alloc .text toPk body
      match allocated.1 with
      | none => (⟨-1, ctx, allocated.2⟩, pktOut)
      | some msg =>
        let msg := signedBy S ctx.keys { msg with fromPk := ctx.keys.pk }
        let encrypted := koeMessageEncrypt S env.build msg sess
        (⟨encrypted.1, ctx, allocated.2⟩, encrypted.2)

/-- The lower-case hexadecimal digit of a number below 16. -/
def hexDigit (value : UInt8) : UInt8 := if value < 10 then value + 0x30 else value + 0x57

/-- The text that `%02x` prints for each byte, with its terminator. -/
def hexText (bytes : List UInt8) : List UInt8 :=
  bytes.flatMap (fun byte ↦ [hexDigit (byte / 16), hexDigit (byte % 16)]) ++ [0]

/-- The return code, the queue table, and the buffer behind `transfer_id_out` after the call. -/
def koeSendFile (offerEnv : OfferEnv) (ctx : Ctx) (maxPerPeer : ℤ) (db : QueueTable)
    (toPk : Block 32) (filePath : List UInt8) (transferIdOut : Option (List UInt8)) :
    ℤ × QueueTable × Option (List UInt8) :=
  if !ctx.initialised then (-1, db, transferIdOut)
  else
    -- `koe_session_t dummy_sess = {0}`; the offer and the packet are locals.
    let built := koeMediaOfferBuild S env.build offerEnv filePath toPk Session.zero MediaOffer.zero
      Packet.zero
    if built.1 ≠ 0 then (-1, db, transferIdOut)
    else
      let hex := hexText built.2.1.transferId.toList
      (0, (koeQueuePush env.push maxPerPeer db built.2.2).2,
        transferIdOut.map fun buf ↦ hex ++ buf.drop hex.length)

/-- The packet that `koe_send_text` hands to `koe_queue_push`, if it comes to that. -/
def pushedText (ctx : Ctx) (toPk : Block 32) (text : List UInt8) (destructTtl : UInt32) :
    Option Packet :=
  if !ctx.initialised then none
  else
    match ctx.sessions.lookup toPk, (koeMessageAlloc env.alloc .text toPk text).1 with
    | some sess, some msg =>
      let msg := { msg with fromPk := ctx.keys.pk }
      let msg :=
        if 0 < destructTtl then koeMessageSetDestruct env.destructNow msg destructTtl else msg
      let encrypted := koeMessageEncrypt S env.build (signedBy S ctx.keys msg) sess
      if encrypted.1 = 0 then some encrypted.2 else none
    | _, _ => none

/-- The packet that `koe_send_file` hands to `koe_queue_push`, if it comes to that. -/
def pushedOffer (offerEnv : OfferEnv) (ctx : Ctx) (toPk : Block 32) (filePath : List UInt8) :
    Option Packet :=
  if !ctx.initialised then none
  else
    let built := koeMediaOfferBuild S env.build offerEnv filePath toPk Session.zero MediaOffer.zero
      Packet.zero
    if built.1 ≠ 0 then none else some built.2.2

end Functions

/-- The queue after a call that pushes at most one packet. -/
def queueAfter (env : PushEnv) (maxPerPeer : ℤ) (db : QueueTable) : Option Packet → QueueTable
  | none => db
  | some pkt => (koeQueuePush env maxPerPeer db pkt).2

/-! ### Messages on their way out -/

/-- The message is to the given peer and has the given body. -/
structure Message.Holds (msg : Message) (toPk : Block 32) (body : List UInt8) : Prop where
  toPk_eq : msg.toPk = toPk
  body_eq : msg.body = some body
  bodyLen_eq : msg.bodyLen = body.length

/-- `koe_message_alloc` succeeds on the body. -/
def AllocEnv.Allocates (env : AllocEnv) (body : List UInt8) : Prop :=
  body ≠ [] ∧ env.recordAlloc = true ∧ env.bodyAlloc = true

/-- There is a session for the recipient, and a message can be made of the body. -/
def SendEnv.Ready (env : SendEnv) (ctx : Ctx) (toPk : Block 32) (body : List UInt8) : Prop :=
  (∃ sess, ctx.sessions.lookup toPk = some sess) ∧ env.alloc.Allocates body

/-- The id of the next message. -/
def AllocEnv.messageId (env : AllocEnv) : UInt64 :=
  (generateMessageId env.sec env.nsec env.counter).1

section Messages

variable {S : Sodium} {msg : Message} {toPk : Block 32} {body : List UInt8}

theorem Message.Holds.bodyBytes (hmsg : msg.Holds toPk body) : msg.bodyBytes = body := by
  rw [Message.bodyBytes, hmsg.body_eq, hmsg.bodyLen_eq, Option.getD_some, List.take_length]

/-- Assumes: `koe_message_alloc` succeeds on the body. -/
theorem koeMessageAlloc_eq {env : AllocEnv} (halloc : env.Allocates body) (type : MsgType)
    (toPk : Block 32) :
    ∃ msg, (koeMessageAlloc env type toPk body).1 = some msg ∧ msg.Holds toPk body ∧
      msg.id = env.messageId := by
  obtain ⟨hbody, hrecord, hbuffer⟩ := halloc
  have hlength : body.length ≠ 0 := fun hzero ↦ hbody (List.length_eq_zero_iff.mp hzero)
  simp only [koeMessageAlloc, if_neg hlength, hrecord, hbuffer]
  exact ⟨_, rfl, ⟨rfl, rfl, rfl⟩, rfl⟩

/-- Assumes: `koe_message_alloc` fails on the body. -/
theorem koeMessageAlloc_none {env : AllocEnv} (halloc : ¬ env.Allocates body) (type : MsgType)
    (toPk : Block 32) : (koeMessageAlloc env type toPk body).1 = none := by
  by_cases hbody : body = []
  · simp [koeMessageAlloc, hbody]
  by_cases hrecord : env.recordAlloc = true
  · have hbuffer : ¬ env.bodyAlloc = true := fun hbuffer ↦ halloc ⟨hbody, hrecord, hbuffer⟩
    simp [koeMessageAlloc, hbody, hrecord, hbuffer]
  · simp [koeMessageAlloc, hbody, hrecord]

/-- Signing changes the signature and the sender, and neither the recipient, the body nor the
id. -/
theorem signedBy_holds (hmsg : msg.Holds toPk body) (keys : Identity) :
    (signedBy S keys msg).Holds toPk body ∧ (signedBy S keys msg).id = msg.id := by
  unfold signedBy koeMessageSign
  rcases koeSign S msg.bodyBytes keys with _ | sig
  · exact ⟨hmsg, rfl⟩
  · exact ⟨⟨hmsg.toPk_eq, hmsg.body_eq, hmsg.bodyLen_eq⟩, rfl⟩

/-- The sender of a signed message is the signer. -/
theorem signedBy_fromPk {keys : Identity} (hfrom : msg.fromPk = keys.pk) :
    (signedBy S keys msg).fromPk = keys.pk := by
  unfold signedBy koeMessageSign
  rcases koeSign S msg.bodyBytes keys with _ | sig
  · exact hfrom
  · rfl

/-- A timer changes none of these. -/
theorem koeMessageSetDestruct_holds (hmsg : msg.Holds toPk body) (now : ℤ) (ttlSeconds : UInt32) :
    (koeMessageSetDestruct now msg ttlSeconds).Holds toPk body ∧
      (koeMessageSetDestruct now msg ttlSeconds).id = msg.id ∧
      (koeMessageSetDestruct now msg ttlSeconds).fromPk = msg.fromPk := by
  unfold koeMessageSetDestruct
  split_ifs with hzero
  · exact ⟨hmsg, rfl, rfl⟩
  · exact ⟨⟨hmsg.toPk_eq, hmsg.body_eq, hmsg.bodyLen_eq⟩, rfl, rfl⟩

variable (S) in
/-- The message that `koe_send_text` encrypts. Assumes: the message that it allocated. -/
theorem signedBy_timed (hmsg : msg.Holds toPk body) (keys : Identity) (now : ℤ)
    (ttlSeconds : UInt32) :
    let named := { msg with fromPk := keys.pk }
    let signed := signedBy S keys
      (if 0 < ttlSeconds then koeMessageSetDestruct now named ttlSeconds else named)
    signed.Holds toPk body ∧ signed.id = msg.id ∧ signed.fromPk = keys.pk := by
  intro named signed
  have hnamed : named.Holds toPk body := ⟨hmsg.toPk_eq, hmsg.body_eq, hmsg.bodyLen_eq⟩
  obtain ⟨timed, htimed, hholds, hid, hfrom⟩ : ∃ timed : Message,
      signed = signedBy S keys timed ∧ timed.Holds toPk body ∧ timed.id = msg.id ∧
        timed.fromPk = keys.pk := by
    refine ⟨_, rfl, ?_⟩
    split_ifs
    · exact koeMessageSetDestruct_holds hnamed now ttlSeconds
    · exact ⟨hnamed, rfl, rfl⟩
  rw [htimed]
  obtain ⟨hsigned, hsignedId⟩ := signedBy_holds (S := S) hholds keys
  exact ⟨hsigned, hsignedId.trans hid, signedBy_fromPk hfrom⟩

end Messages

/-! ### What the calls do to the queue and to the sessions -/

section Pushed

variable (S : Sodium) (env : SendEnv) (ctx : Ctx)

/-- What `koe_send_text` does: it pushes at most one packet, the only trace that it leaves in the
context is the time of use of the session, and without a session or a message it fails. -/
theorem koeSendText_spec (maxPerPeer : ℤ) (db : QueueTable) (toPk : Block 32) (text : List UInt8)
    (destructTtl : UInt32) :
    let sent := koeSendText S env ctx maxPerPeer db toPk text destructTtl
    sent.2 = queueAfter env.push maxPerPeer db (pushedText S env ctx toPk text destructTtl) ∧
      sent.1.ctx.sessions =
        (if ctx.initialised then (koeSessionTableFind env.findNow ctx.sessions toPk).2
        else ctx.sessions) ∧
      (¬ env.Ready ctx toPk text → sent.1.rc = -1 ∧ sent.2 = db) := by
  intro sent
  by_cases hinit : ctx.initialised = true
  swap
  · simp [sent, koeSendText, pushedText, hinit, queueAfter]
  rcases hlookup : ctx.sessions.lookup toPk with _ | sess
  · simp [sent, koeSendText, pushedText, hinit, koeSessionTableFind, hlookup, queueAfter]
  by_cases halloc : env.alloc.Allocates text
  · have hready : env.Ready ctx toPk text := ⟨⟨sess, hlookup⟩, halloc⟩
    obtain ⟨msg, hmsg, -, -⟩ := koeMessageAlloc_eq halloc .text toPk
    refine ⟨?_, ?_, fun hfails ↦ absurd hready hfails⟩
    · simp only [sent, koeSendText, pushedText, hinit, koeSessionTableFind, hlookup, hmsg,
        Bool.not_true, Bool.false_eq_true, if_false]
      split_ifs
      · rfl
      · rfl
      · rfl
      · rfl
    · simp only [sent, koeSendText, hinit, koeSessionTableFind, hlookup, hmsg, Bool.not_true,
        Bool.false_eq_true, if_false, if_true]
      split_ifs
      · rfl
      · rfl
      · rfl
      · rfl
  · have hmsg := koeMessageAlloc_none halloc .text toPk
    simp [sent, koeSendText, pushedText, hinit, koeSessionTableFind, hlookup, hmsg, queueAfter]

theorem koeSendText_queue (maxPerPeer : ℤ) (db : QueueTable) (toPk : Block 32) (text : List UInt8)
    (destructTtl : UInt32) :
    (koeSendText S env ctx maxPerPeer db toPk text destructTtl).2 =
      queueAfter env.push maxPerPeer db (pushedText S env ctx toPk text destructTtl) :=
  (koeSendText_spec S env ctx maxPerPeer db toPk text destructTtl).1

theorem koeSendFile_queue (offerEnv : OfferEnv) (maxPerPeer : ℤ) (db : QueueTable) (toPk : Block 32)
    (filePath : List UInt8) (transferIdOut : Option (List UInt8)) :
    (koeSendFile S env offerEnv ctx maxPerPeer db toPk filePath transferIdOut).2.1 =
      queueAfter env.push maxPerPeer db (pushedOffer S env offerEnv ctx toPk filePath) := by
  unfold koeSendFile pushedOffer
  dsimp only
  split_ifs
  · rfl
  · rfl
  · rfl

/-- The same for a message that is handed to the caller: the time of use of the session is its only
trace, and without a session or a message it fails. -/
theorem koeMessageSendEncrypted_spec (toPk : Block 32) (body : List UInt8) (pktOut : Packet) :
    let sent := koeMessageSendEncrypted S env ctx toPk body pktOut
    sent.1.ctx.sessions =
        (if ctx.initialised ∧ body.length ≠ 0 then
          (koeSessionTableFind env.findNow ctx.sessions toPk).2
        else ctx.sessions) ∧
      (¬ env.Ready ctx toPk body → sent.1.rc = -1) := by
  intro sent
  by_cases hinit : ctx.initialised = true
  swap
  · simp [sent, koeMessageSendEncrypted, hinit]
  by_cases hbody : body.length = 0
  · simp [sent, koeMessageSendEncrypted, hinit, hbody]
  rw [if_pos ⟨hinit, hbody⟩]
  rcases hlookup : ctx.sessions.lookup toPk with _ | sess
  · simp [sent, koeMessageSendEncrypted, hinit, hbody, koeSessionTableFind, hlookup]
  by_cases halloc : env.alloc.Allocates body
  · have hready : env.Ready ctx toPk body := ⟨⟨sess, hlookup⟩, halloc⟩
    obtain ⟨msg, hmsg, -, -⟩ := koeMessageAlloc_eq halloc .text toPk
    refine ⟨?_, fun hfails ↦ absurd hready hfails⟩
    simp [sent, koeMessageSendEncrypted, hinit, hbody, koeSessionTableFind, hlookup, hmsg]
  · have hmsg := koeMessageAlloc_none halloc .text toPk
    simp [sent, koeMessageSendEncrypted, hinit, hbody, koeSessionTableFind, hlookup, hmsg]

theorem koeSendTextScheduled_sessions (toPk : Block 32) (text : List UInt8) (sendAtUnix : ℤ) :
    (koeSendTextScheduled S env ctx toPk text sendAtUnix).ctx.sessions = ctx.sessions := by
  unfold koeSendTextScheduled
  split_ifs
  · rfl
  · dsimp only
    rcases (koeMessageAlloc env.alloc .text toPk text).1 with _ | msg
    · rfl
    · rfl

end Pushed

/-! ### What the calls do -/

section Specs

variable {S : Sodium} {env : SendEnv} {ctx : Ctx} {toPk : Block 32} {sess : Session}

/-- Assumes: an initialised context, a session for the recipient, a message, and the ciphertext of
the text under the sending key. -/
theorem koeSendText_eq {text ct : List UInt8} (hinit : ctx.initialised = true)
    (hlookup : ctx.sessions.lookup toPk = some sess) (halloc : env.alloc.Allocates text)
    (hct : koeEncrypt S text env.build.nonce sess.txKey = some ct) (maxPerPeer : ℤ)
    (db : QueueTable) (destructTtl : UInt32) :
    ∃ msg : Message, msg.Holds toPk text ∧
      (koeSendText S env ctx maxPerPeer db toPk text destructTtl).1.rc =
        Int.bmod env.alloc.messageId.toNat (2 ^ 64) ∧
      (koeSendText S env ctx maxPerPeer db toPk text destructTtl).2 =
        if env.build.alloc then
          (koeQueuePush env.push maxPerPeer db (messagePacket msg env.build.nonce ct)).2
        else db := by
  obtain ⟨written, hwritten, hholds, hid⟩ := koeMessageAlloc_eq halloc .text toPk
  obtain ⟨hsigned, hsignedId, -⟩ := signedBy_timed S hholds ctx.keys env.destructNow destructTtl
  have hmsgId := hsignedId.trans hid
  refine ⟨_, hsigned, ?_⟩
  rw [← hsigned.bodyBytes] at hct
  simp only [koeSendText, hinit, koeSessionTableFind, hlookup, hwritten]
  by_cases hbuild : env.build.alloc = true
  · simp [koeMessageEncrypt_eq hbuild hct, hmsgId, hbuild]
  · simp [koeMessageEncrypt, hmsgId, hbuild]

/-- Assumes: no message. -/
theorem koeSendTextScheduled_fails {text : List UInt8} (halloc : ¬ env.alloc.Allocates text)
    (sendAtUnix : ℤ) : (koeSendTextScheduled S env ctx toPk text sendAtUnix).rc = -1 := by
  by_cases hinit : ctx.initialised = true
  · simp [koeSendTextScheduled, hinit, koeMessageAlloc_none halloc]
  · simp [koeSendTextScheduled, hinit]

/-- Assumes: an initialised context and a message. -/
theorem koeSendTextScheduled_eq {text : List UInt8} (hinit : ctx.initialised = true)
    (halloc : env.alloc.Allocates text) (sendAtUnix : ℤ) :
    (koeSendTextScheduled S env ctx toPk text sendAtUnix).rc =
      Int.bmod env.alloc.messageId.toNat (2 ^ 64) := by
  obtain ⟨written, hwritten, hholds, hid⟩ := koeMessageAlloc_eq halloc .text toPk
  let scheduled := koeMessageSchedule { written with fromPk := ctx.keys.pk } sendAtUnix
  have hscheduled : scheduled.Holds toPk text :=
    ⟨hholds.toPk_eq, hholds.body_eq, hholds.bodyLen_eq⟩
  have hsignedId : (signedBy S ctx.keys scheduled).id = env.alloc.messageId :=
    (signedBy_holds hscheduled ctx.keys).2.trans hid
  simp only [scheduled] at hsignedId
  simp [koeSendTextScheduled, hinit, hwritten, hsignedId]

/-- Assumes: an initialised context, a session for the recipient, and a message. -/
theorem koeMessageSendEncrypted_eq {body : List UInt8} (hinit : ctx.initialised = true)
    (hlookup : ctx.sessions.lookup toPk = some sess) (halloc : env.alloc.Allocates body)
    (pktOut : Packet) :
    ∃ msg : Message, msg.Holds toPk body ∧ msg.fromPk = ctx.keys.pk ∧
      (koeMessageSendEncrypted S env ctx toPk body pktOut).1.rc =
        (koeMessageEncrypt S env.build msg sess).1 ∧
      (koeMessageSendEncrypted S env ctx toPk body pktOut).2 =
        (koeMessageEncrypt S env.build msg sess).2 := by
  obtain ⟨written, hwritten, hholds, -⟩ := koeMessageAlloc_eq halloc .text toPk
  have hlength : body.length ≠ 0 := fun hzero ↦ halloc.1 (List.length_eq_zero_iff.mp hzero)
  let named := { written with fromPk := ctx.keys.pk }
  have hnamed : named.Holds toPk body := ⟨hholds.toPk_eq, hholds.body_eq, hholds.bodyLen_eq⟩
  refine ⟨signedBy S ctx.keys named, (signedBy_holds hnamed ctx.keys).1, signedBy_fromPk rfl, ?_⟩
  simp [koeMessageSendEncrypted, hinit, hlength, koeSessionTableFind, hlookup, hwritten, named]

/-- The packet of a file offer, with its ciphertext. -/
def offerPacket (toPk : Block 32) (nonce : Block 24) (ct : List UInt8) : Packet where
  header := sealedHeader .mediaOffer PacketFlag.encrypted.mask (Block.zero 32) toPk nonce 520
  payload := some ct

/-- Assumes: a file that cannot be read, or no buffer for its offer. -/
theorem koeSendFile_fails {offerEnv : OfferEnv}
    (hfails : (∀ stSize contents, ¬ offerEnv.Readable stSize contents) ∨ env.build.alloc = false)
    (maxPerPeer : ℤ) (db : QueueTable) (filePath : List UInt8)
    (transferIdOut : Option (List UInt8)) :
    koeSendFile S env offerEnv ctx maxPerPeer db toPk filePath transferIdOut =
      (-1, db, transferIdOut) := by
  have hbuilt : (koeMediaOfferBuild S env.build offerEnv filePath toPk Session.zero
      MediaOffer.zero Packet.zero).1 = -1 := by
    by_cases hreadable : ∃ stSize contents, offerEnv.Readable stSize contents
    · obtain ⟨stSize, contents, hfile⟩ := hreadable
      rcases hfails with hunreadable | hbuild
      · exact absurd hfile (hunreadable stSize contents)
      · rw [koeMediaOfferBuild_eq hfile]
        simp [buildSealed, hbuild]
    · simp only [not_exists] at hreadable
      exact koeMediaOfferBuild_unreadable hreadable filePath toPk MediaOffer.zero
  simp [koeSendFile, hbuilt]

/-- Assumes: an initialised context, a readable file, a buffer for its offer, and the ciphertext of
the offer under the zero key. -/
theorem koeSendFile_eq {offerEnv : OfferEnv} {stSize : ℤ} {contents filePath ct : List UInt8}
    (hinit : ctx.initialised = true) (hreadable : offerEnv.Readable stSize contents)
    (hbuild : env.build.alloc = true)
    (hct : koeEncrypt S (hashedOffer S offerEnv stSize contents filePath toPk).bytes
      env.build.nonce Session.zero.txKey = some ct) (maxPerPeer : ℤ) (db : QueueTable)
    (transferIdOut : Option (List UInt8)) :
    let sent := koeSendFile S env offerEnv ctx maxPerPeer db toPk filePath transferIdOut
    sent.1 = 0 ∧
      sent.2.1 =
        (koeQueuePush env.push maxPerPeer db (offerPacket toPk env.build.nonce ct)).2 := by
  have hsealed : koeMediaOfferBuild S env.build offerEnv filePath toPk Session.zero MediaOffer.zero
      Packet.zero =
      (0, hashedOffer S offerEnv stSize contents filePath toPk,
        offerPacket toPk env.build.nonce ct) := by
    rw [koeMediaOfferBuild_eq hreadable]
    simp only [buildSealed, hbuild, hct, MediaOffer.length_bytes]
    rfl
  have hpushed : pushedOffer S env offerEnv ctx toPk filePath =
      some (offerPacket toPk env.build.nonce ct) := by
    simp [pushedOffer, hinit, hsealed]
  refine ⟨by simp [koeSendFile, hinit, hsealed], ?_⟩
  rw [koeSendFile_queue, hpushed]
  rfl

end Specs

end KoeCore
