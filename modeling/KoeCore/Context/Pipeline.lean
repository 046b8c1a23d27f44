import KoeCore.Context.Receive
import KoeCore.Messaging.Delivery
import KoeCore.Queue.Backlog
import KoeCore.Transport.Tcp

/-!
# From a text to the screen of the peer

The whole way of texts: `koe_send_text` encrypts them and puts them into the offline queue,
`koe_queue_drain` hands them to a `send_fn` that calls `koe_transport_send`, the stream is cut in
whatever way the sockets cut it, `koe_transport_recv` takes the packets off again, and
`koe_message_recv_and_decrypt` opens them.

`TextSend.Goes` are the conditions on one text, and `Written` says what the packet of a text holds.
Sends keep the sessions (`koeSendText_ctx`) and append to the packets that wait for the peer
(`sendTexts_backlog`), a drain over a working connection empties them into the stream, and every
packet opens at the other end (`recvTexts_written`). `koeSendText_delivers` puts the parts together.
-/

set_option autoImplicit false
set_option relaxedAutoImplicit false

namespace KoeCore

open ByteWire RowTable Segments

/-! ### The sender -/

/-- A call of `koe_send_text`, with what it takes from its environment. -/
structure TextSend where
  env : SendEnv
  toPk : Block 32
  text : List UInt8
  destructTtl : UInt32

/-- The context and the queue after one call after the other. -/
def sendTexts (S : Sodium) (maxPerPeer : ℤ) : Ctx → QueueTable → List TextSend → Ctx × QueueTable
  | ctx, db, [] => (ctx, db)
  | ctx, db, send :: sends =>
    let sent := koeSendText S send.env ctx maxPerPeer db send.toPk send.text send.destructTtl
    sendTexts S maxPerPeer sent.1.ctx sent.2 sends

/-- The text is not empty and within the cap, and there is memory for every step of the call. -/
structure TextSend.Goes (send : TextSend) : Prop where
  allocates : send.env.alloc.Allocates send.text
  builds : send.env.build.alloc = true
  stores : send.env.push.Stores
  fits : send.text.length ≤ koeMaxPayload - 16

/-- The packet is to the peer, names its sender, and carries the text sealed under the key. -/
def Written (S : Sodium) (fromPk toPk : Block 32) (key : Block 32) (text : List UInt8)
    (pkt : Packet) : Prop :=
  ∃ msg nonce ct, pkt = messagePacket msg nonce ct ∧ msg.Holds toPk text ∧ msg.fromPk = fromPk ∧
    koeEncrypt S text nonce key = some ct

section Sender

variable {S : Sodium} {fromPk toPk key : Block 32} {text : List UInt8} {pkt : Packet}

/-- Assumes: a correct AEAD, and the packet of a text within the cap. -/
theorem Written.storable (haead : S.Aead) (hwritten : Written S fromPk toPk key text pkt)
    (hfits : text.length ≤ koeMaxPayload - 16) : pkt.Storable := by
  obtain ⟨msg, nonce, ct, rfl, hholds, -, hct⟩ := hwritten
  obtain ⟨hannounced, hmax, hlength⟩ := messagePacket_length haead hholds.bodyLen_eq hfits hct
  refine ⟨messagePacket_payloadFits hannounced (by omega), ?_⟩
  rw [hannounced]
  exact hmax

/-- Its reserved bytes are clear from the start. -/
theorem Written.received (hwritten : Written S fromPk toPk key text pkt) : pkt.received = pkt := by
  obtain ⟨msg, nonce, ct, rfl, -⟩ := hwritten
  rfl

/-- Assumes: a correct AEAD, and the packets of texts within the cap. -/
theorem storable_of_written (haead : S.Aead) {texts : List (List UInt8)} {pkts : List Packet}
    (hwritten : List.Forall₂ (Written S fromPk toPk key) texts pkts)
    (hfits : ∀ text ∈ texts, text.length ≤ koeMaxPayload - 16) :
    ∀ pkt ∈ pkts, pkt.Storable ∧ pkt.received = pkt := by
  induction hwritten with
  | nil =>
    intro pkt hpkt
    exact absurd hpkt List.not_mem_nil
  | cons hfirst _ ih =>
    intro pkt hpkt
    rcases List.mem_cons.mp hpkt with rfl | hlater
    · exact ⟨hfirst.storable haead (hfits _ List.mem_cons_self), hfirst.received⟩
    · exact ih (fun text htext ↦ hfits text (List.mem_cons_of_mem _ htext)) pkt hlater

/-- The sessions are searched, and nothing else of the context changes. -/
theorem koeSendText_ctx (S : Sodium) (env : SendEnv) (ctx : Ctx) (maxPerPeer : ℤ)
    (db : QueueTable) (toPk : Block 32) (text : List UInt8) (destructTtl : UInt32) :
    (koeSendText S env ctx maxPerPeer db toPk text destructTtl).1.ctx =
      if ctx.initialised then
        { ctx with sessions := (koeSessionTableFind env.findNow ctx.sessions toPk).2 }
      else ctx := by
  unfold koeSendText
  by_cases hinit : ctx.initialised = true
  swap
  · simp [hinit]
  rcases hlookup : ctx.sessions.lookup toPk with _ | sess
  · simp [hinit, koeSessionTableFind, hlookup]
  rcases halloc : (koeMessageAlloc env.alloc .text toPk text).1 with _ | msg
  · simp [hinit, koeSessionTableFind, hlookup, halloc]
  · simp only [hinit, koeSessionTableFind, hlookup, halloc, Bool.not_true, Bool.false_eq_true,
      if_false, if_true]
    split_ifs
    all_goals rfl

/-- Assumes: an initialised context, a session for the recipient, and a message. -/
theorem pushedText_eq {env : SendEnv} {ctx : Ctx} {sess : Session} (hinit : ctx.initialised = true)
    (hlookup : ctx.sessions.lookup toPk = some sess) (halloc : env.alloc.Allocates text)
    (destructTtl : UInt32) :
    ∃ msg : Message, msg.Holds toPk text ∧ msg.fromPk = ctx.keys.pk ∧
      pushedText S env ctx toPk text destructTtl =
        if (koeMessageEncrypt S env.build msg sess).1 = 0 then
          some (koeMessageEncrypt S env.build msg sess).2
        else none := by
  obtain ⟨allocated, hallocated, hholds, -⟩ := koeMessageAlloc_eq halloc .text toPk
  obtain ⟨hsigned, -, hfrom⟩ := signedBy_timed S hholds ctx.keys env.destructNow destructTtl
  refine ⟨_, hsigned, hfrom, ?_⟩
  simp only [pushedText, hinit, hlookup, hallocated]
  rfl

/-- What is queued is the text, sealed under the sending key of the session with the recipient.
Assumes: the packet that a text is queued as. -/
theorem pushedText_written {env : SendEnv} {ctx : Ctx} {destructTtl : UInt32}
    (hpushed : pushedText S env ctx toPk text destructTtl = some pkt) :
    ∃ sess, ctx.sessions.lookup toPk = some sess ∧
      Written S ctx.keys.pk toPk sess.txKey text pkt := by
  by_cases hinit : ctx.initialised = true
  swap
  · simp [pushedText, hinit] at hpushed
  rcases hlookup : ctx.sessions.lookup toPk with _ | sess
  · simp [pushedText, hinit, hlookup] at hpushed
  by_cases halloc : env.alloc.Allocates text
  swap
  · simp [pushedText, hinit, hlookup, koeMessageAlloc_none halloc] at hpushed
  obtain ⟨msg, hmsg, hfrom, heq⟩ := pushedText_eq (S := S) hinit hlookup halloc destructTtl
  rw [heq] at hpushed
  split_ifs at hpushed with hrc
  obtain ⟨ct, hct, hpkt⟩ := koeMessageEncrypt_sealed hrc
  rw [hmsg.bodyBytes] at hct
  exact ⟨sess, rfl, msg, env.build.nonce, ct, (Option.some.inj hpushed).symm.trans hpkt, hmsg,
    hfrom, hct⟩

/-- Assumes: a correct AEAD, an initialised context, a session for the recipient, and memory. -/
theorem exists_pushedText {env : SendEnv} {ctx : Ctx} {sess : Session} (haead : S.Aead)
    (hinit : ctx.initialised = true) (hlookup : ctx.sessions.lookup toPk = some sess)
    (halloc : env.alloc.Allocates text) (hbuild : env.build.alloc = true) (destructTtl : UInt32) :
    ∃ pkt, pushedText S env ctx toPk text destructTtl = some pkt := by
  obtain ⟨msg, -, -, heq⟩ := pushedText_eq (S := S) hinit hlookup halloc destructTtl
  obtain ⟨ct, hct⟩ := haead.seals sess.txKey env.build.nonce msg.bodyBytes
  rw [heq, koeMessageEncrypt_eq hbuild hct, if_pos rfl]
  exact ⟨_, rfl⟩

/-- Assumes: the packet of a text. -/
theorem Written.toPk_eq (hwritten : Written S fromPk toPk key text pkt) :
    pkt.header.toPk = toPk := by
  obtain ⟨msg, nonce, ct, rfl, hholds, -⟩ := hwritten
  exact hholds.toPk_eq

/-- What does not change while texts are sent, and what waits for the peer. -/
structure Sending (S : Sodium) (fromPk toPk : Block 32) (sess : Session) (texts : List (List UInt8))
    (ctx : Ctx) (db : QueueTable) : Prop where
  initialised : ctx.initialised = true
  keys : ctx.keys.pk = fromPk
  session : ctx.sessions.lookup toPk = some sess
  waiting : ∃ pkts, Backlog db toPk pkts ∧
    List.Forall₂ (Written S fromPk toPk sess.txKey) texts pkts

/-- The texts to the peer, in the order in which they are sent. -/
def textsTo (toPk : Block 32) (sends : List TextSend) : List TextSend :=
  sends.filter fun send ↦ send.toPk == toPk

variable {sess : Session} {texts : List (List UInt8)} {ctx : Ctx} {db : QueueTable}

/-- A text leaves what is fixed of the context. -/
theorem Sending.context (hsending : Sending S fromPk toPk sess texts ctx db) (send : TextSend)
    (maxPerPeer : ℤ) :
    let after :=
      (koeSendText S send.env ctx maxPerPeer db send.toPk send.text send.destructTtl).1.ctx
    after.initialised = true ∧ after.keys.pk = fromPk ∧
      after.sessions.lookup toPk = some sess := by
  dsimp only
  rw [koeSendText_ctx, if_pos hsending.initialised, koeSessionTableFind_lookup]
  exact ⟨hsending.initialised, hsending.keys, hsending.session⟩

/-- A text to anyone else changes nothing of this. -/
theorem Sending.other (hsending : Sending S fromPk toPk sess texts ctx db) {send : TextSend}
    (hother : send.toPk ≠ toPk) (maxPerPeer : ℤ) :
    let sent := koeSendText S send.env ctx maxPerPeer db send.toPk send.text send.destructTtl
    Sending S fromPk toPk sess texts sent.1.ctx sent.2 ∧
      rowsOf sent.2 toPk = rowsOf db toPk := by
  intro sent
  obtain ⟨hinit, hkeys, hsession⟩ := hsending.context send maxPerPeer
  have hbacklog : rowsOf sent.2 toPk = rowsOf db toPk := by
    simp only [sent, koeSendText_queue]
    rcases hpushed : pushedText S send.env ctx send.toPk send.text send.destructTtl with _ | pkt
    · rfl
    · obtain ⟨_, -, hwritten⟩ := pushedText_written hpushed
      exact rowsOf_push send.env.push maxPerPeer db (hwritten.toPk_eq ▸ Ne.symm hother)
  obtain ⟨pkts, hwaiting, hwritten⟩ := hsending.waiting
  refine ⟨⟨hinit, hkeys, hsession, pkts, ⟨?_, ?_⟩, hwritten⟩, hbacklog⟩
  · rw [hbacklog]
    exact hwaiting.packets
  · rw [hbacklog]
    exact hwaiting.ordered

/-- A text to the peer joins those that wait. Assumes: a correct AEAD, a text that goes, room for
it, and a clock that is not behind the rows of the peer. -/
theorem Sending.append (haead : S.Aead) (hsending : Sending S fromPk toPk sess texts ctx db)
    {send : TextSend} (hto : send.toPk = toPk) (hgoes : send.Goes) {maxPerPeer : ℤ}
    (hroom : (texts.length : ℤ) < maxPerPeer)
    (hclock : ∀ row ∈ rowsOf db toPk, row.2.sequence ≤ send.env.push.now) :
    let sent := koeSendText S send.env ctx maxPerPeer db send.toPk send.text send.destructTtl
    Sending S fromPk toPk sess (texts ++ [send.text]) sent.1.ctx sent.2 ∧
      ∀ row ∈ rowsOf sent.2 toPk, row.2.sequence ≤ send.env.push.now := by
  intro sent
  subst hto
  obtain ⟨hinit, hkeys, hsession⟩ := hsending.context send maxPerPeer
  obtain ⟨pkts, hwaiting, hwritten⟩ := hsending.waiting
  obtain ⟨pkt, hpushed⟩ := exists_pushedText haead hsending.initialised hsending.session
    hgoes.allocates hgoes.builds send.destructTtl
  obtain ⟨found, hfound, hpkt⟩ := pushedText_written hpushed
  obtain rfl : sess = found := Option.some.inj (hsending.session.symm.trans hfound)
  rw [hsending.keys] at hpkt
  have hqueue : sent.2 = (koeQueuePush send.env.push maxPerPeer db pkt).2 := by
    simp only [sent, koeSendText_queue, hpushed]
    rfl
  rw [hwritten.length_eq] at hroom
  obtain ⟨hpushedBacklog, hrows⟩ := hwaiting.push hroom hgoes.stores hpkt.toPk_eq
    (hpkt.storable haead hgoes.fits) hclock
  refine ⟨⟨hinit, hkeys, hsession, pkts ++ [pkt], ?_, ?_⟩, ?_⟩
  · rw [hqueue]
    exact hpushedBacklog
  · exact List.rel_append hwritten (List.Forall₂.cons hpkt List.Forall₂.nil)
  · intro row hrow
    rw [hqueue, hrows] at hrow
    rcases List.mem_append.mp hrow with hold | hnew
    · exact hclock row hold
    · rw [List.mem_singleton.mp hnew]
      exact le_refl _

/-- Assumes: a correct AEAD, texts to the peer that go, room for all of them, and a clock that does
not run backwards between them. Texts to others may come in between. -/
theorem sendTexts_backlog (haead : S.Aead) {maxPerPeer : ℤ} (sends : List TextSend) :
    ∀ {texts : List (List UInt8)} {ctx : Ctx} {db : QueueTable},
      Sending S fromPk toPk sess texts ctx db → (∀ send ∈ textsTo toPk sends, send.Goes) →
      ((textsTo toPk sends).map fun send ↦ send.env.push.now).Pairwise (· ≤ ·) →
      (∀ row ∈ rowsOf db toPk, ∀ send ∈ textsTo toPk sends,
        row.2.sequence ≤ send.env.push.now) →
      (texts.length : ℤ) + (textsTo toPk sends).length ≤ maxPerPeer →
      Sending S fromPk toPk sess (texts ++ (textsTo toPk sends).map TextSend.text)
        (sendTexts S maxPerPeer ctx db sends).1 (sendTexts S maxPerPeer ctx db sends).2 := by
  induction sends with
  | nil =>
    intro texts ctx db hsending _ _ _ _
    simpa [textsTo, sendTexts] using hsending
  | cons send sends ih =>
    intro texts ctx db hsending hgoes hclock hbehind hroom
    by_cases hto : send.toPk = toPk
    · have hcons : textsTo toPk (send :: sends) = send :: textsTo toPk sends :=
        List.filter_cons_of_pos (by rw [hto]; exact beq_self_eq_true _)
      rw [hcons] at hgoes hclock hbehind hroom ⊢
      rw [List.map_cons, List.pairwise_cons] at hclock
      rw [List.length_cons] at hroom
      obtain ⟨hnext, hrows⟩ := hsending.append haead hto (hgoes send List.mem_cons_self)
        (show (texts.length : ℤ) < maxPerPeer by omega)
        (fun row hrow ↦ hbehind row hrow send List.mem_cons_self)
      have hlast := ih hnext (fun later hlater ↦ hgoes later (List.mem_cons_of_mem _ hlater))
        hclock.2
        (fun row hrow later hlater ↦ (hrows row hrow).trans
          (hclock.1 _ (List.mem_map_of_mem hlater)))
        (by rw [List.length_append, List.length_singleton]; omega)
      rw [List.append_assoc] at hlast
      exact hlast
    · have hskip : textsTo toPk (send :: sends) = textsTo toPk sends :=
        List.filter_cons_of_neg (fun hsame ↦ hto (eq_of_beq hsame))
      rw [hskip] at hgoes hclock hbehind hroom ⊢
      obtain ⟨hnext, hrows⟩ := hsending.other hto maxPerPeer
      refine ih hnext hgoes hclock ?_ hroom
      intro row hrow
      rw [hrows] at hrow
      exact hbehind row hrow

end Sender

/-! ### The receiver -/

/-- One packet after the other is received into a cleared record. -/
def recvTexts (S : Sodium) (env : RecvEnv) : Ctx → List Packet → List Received
  | _, [] => []
  | ctx, pkt :: pkts =>
    let received := koeMessageRecvAndDecrypt S env ctx pkt Message.zero
    received :: recvTexts S env received.ctx pkts

/-- What a received text comes to. -/
def arrivedText (now : ℤ) (fromPk toPk : Block 32) (text : List UInt8) : ℤ × Message :=
  (0, { Message.zero with
    body := some text
    bodyLen := text.length
    fromPk := fromPk
    toPk := toPk
    status := .delivered
    deliveredAt := now })

/-- Assumes: a correct AEAD, an initialised context with a session for the sender whose receiving
key is the one the texts were sealed under, memory, and texts within the cap. -/
theorem recvTexts_written {S : Sodium} (haead : S.Aead) {fromPk toPk : Block 32} {sess : Session}
    {env : RecvEnv} (halloc : env.alloc = true) {texts : List (List UInt8)} {pkts : List Packet}
    (hwritten : List.Forall₂ (Written S fromPk toPk sess.rxKey) texts pkts) :
    ∀ {ctx : Ctx}, ctx.initialised = true → ctx.sessions.lookup fromPk = some sess →
      (∀ text ∈ texts, text.length ≤ koeMaxPayload - 16) →
      (recvTexts S env ctx pkts).map (fun received ↦ (received.rc, received.msg)) =
        texts.map (arrivedText env.now fromPk toPk) := by
  induction hwritten with
  | nil =>
    intro ctx _ _ _
    rfl
  | @cons text pkt texts pkts hpkt _ ih =>
    intro ctx hinit hlookup hfits
    have hclear := hpkt.received
    obtain ⟨msg, nonce, ct, rfl, hholds, hfrom, hct⟩ := hpkt
    have hlookupMsg : ctx.sessions.lookup (messagePacket msg nonce ct).header.fromPk =
        some sess := by
      rw [← hlookup, ← hfrom]
      rfl
    obtain ⟨hannounced, -, -⟩ := messagePacket_length haead hholds.bodyLen_eq
      (hfits text List.mem_cons_self) hct
    have hdecrypted := koeMessageDecrypt_received haead hct hannounced env.now Message.zero
    rw [hclear, hfrom, hholds.toPk_eq, ← halloc] at hdecrypted
    obtain ⟨hrc, hmsg⟩ := koeMessageRecvAndDecrypt_eq S env Message.zero hinit hlookupMsg
    have hctx := koeMessageRecvAndDecrypt_ctx S env ctx (messagePacket msg nonce ct) Message.zero
    rw [if_pos hinit] at hctx
    have hrest : (recvTexts S env (koeMessageRecvAndDecrypt S env ctx (messagePacket msg nonce ct)
        Message.zero).ctx pkts).map (fun received ↦ (received.rc, received.msg)) =
          texts.map (arrivedText env.now fromPk toPk) := by
      refine ih ?_ ?_ fun later hlater ↦ hfits later (List.mem_cons_of_mem _ hlater)
      · rw [hctx]
        exact hinit
      · rw [hctx, koeSessionTableFind_lookup]
        exact hlookup
    rw [recvTexts, List.map_cons, List.map_cons, hrest, hrc, hmsg, hdecrypted]
    rfl

/-! ### From end to end -/

/-- The answers of `send_fn` in a drain are those of `koe_transport_send`, called on one socket. -/
def Drained.AnsweredBy (writer : ℕ → ℤ) (env : TransportSendEnv) (fd : ℤ) (chan : Channel UInt8)
    (drained : Drained) : Prop :=
  (sendAll writer fd (drained.calls.map fun call ↦ (env, call.2.1)) chan).1 =
    drained.calls.map fun call ↦ call.2.2

section EndToEnd

variable {writer reader : ℕ → ℤ} (hwriter : ∀ call, 0 < writer call)
  (hreader : ∀ call, 0 < reader call) {fd peerFd : ℤ} (hfd : 0 ≤ fd) (hpeerFd : 0 ≤ peerFd)
  {env : TransportSendEnv} (halloc : env.alloc = true)

/-- The drain's choice of rows is the one in which they were pushed, and it has memory. -/
structure SmoothDrain (toPk : Block 32) (rounds : ℕ → DrainRound) (db : QueueTable) : Prop where
  pops : ∀ i, (rounds i).pop.rowAlloc = true ∧ (rounds i).pop.payloadAlloc = true
  picks : DrainPicksOldest toPk (db.countWhere (QueuedRow.isTo toPk) + 1) rounds db

include hwriter hfd halloc

/-- Over a connection that works a drain sends everything. Assumes: packets that are stored as a
whole and have clear reserved bytes, a working connection, an open socket and memory. -/
theorem Backlog.drain_over {db : QueueTable} {toPk : Block 32} {pkts : List Packet}
    (hbacklog : Backlog db toPk pkts)
    (hstorable : ∀ pkt ∈ pkts, pkt.Storable ∧ pkt.received = pkt) {rounds : ℕ → DrainRound}
    (hsmooth : SmoothDrain toPk rounds db) {writerCalls : ℕ}
    (hanswers : (koeQueueDrain rounds db toPk).AnsweredBy writer env fd ⟨[], writerCalls⟩) :
    (koeQueueDrain rounds db toPk).calls.map (fun call ↦ call.2.1) = pkts ∧
      (∀ call ∈ (koeQueueDrain rounds db toPk).calls, call.2.2 = 0) ∧
      Backlog (koeQueueDrain rounds db toPk).db toPk [] := by
  have hreceived : pkts.map Packet.received = pkts := by
    conv_rhs => rw [← List.map_id pkts]
    exact List.map_congr_left fun pkt hpkt ↦ (hstorable pkt hpkt).2
  -- The drain hands out a front of the packets, whatever the answers are.
  have hdrain := Backlog.drainLoop pkts Packet.zero hbacklog
    (fun pkt hpkt ↦ (hstorable pkt hpkt).1) hsmooth.pops hsmooth.picks
    (by rw [hbacklog.length_eq]; exact Nat.lt_succ_self _)
  rw [hreceived] at hdrain
  obtain ⟨hfront, hall⟩ := hdrain
  have hsendable : ∀ send ∈ (koeQueueDrain rounds db toPk).calls.map fun call ↦ (env, call.2.1),
      Sendable send := by
    intro send hsend
    obtain ⟨call, hcall, rfl⟩ := List.mem_map.mp hsend
    have hpkt : call.2.1 ∈ pkts := hfront.subset (List.mem_map_of_mem hcall)
    exact ⟨halloc, (hstorable _ hpkt).1⟩
  obtain ⟨calls, hsent⟩ := sendAll_eq hwriter hfd hsendable ⟨[], writerCalls⟩
  have hzero : ∀ call ∈ (koeQueueDrain rounds db toPk).calls, call.2.2 = 0 := by
    intro call hcall
    have hcodes : (koeQueueDrain rounds db toPk).calls.map (fun call ↦ call.2.2) =
        (koeQueueDrain rounds db toPk).calls.map fun _ ↦ 0 := by
      rw [← hanswers, hsent, List.map_map]
      rfl
    exact List.map_inj_left.mp hcodes call hcall
  exact ⟨(hall hzero).1, hzero, (hall hzero).2⟩

include hreader hpeerFd

/-- What was sent is received. Assumes: packets that are stored as a whole and have clear reserved
bytes, connections that work, open sockets and memory. -/
theorem recvAll_sendAll {pkts : List Packet}
    (hstorable : ∀ pkt ∈ pkts, pkt.Storable ∧ pkt.received = pkt) (writerCalls readerCalls : ℕ) :
    let stream := (sendAll writer fd (pkts.map fun pkt ↦ (env, pkt)) ⟨[], writerCalls⟩).2.pending
    ∃ after, recvAll reader ⟨true, true⟩ peerFd (List.replicate pkts.length Packet.zero)
      ⟨stream, readerCalls⟩ = (pkts.map fun pkt ↦ (0, pkt), ⟨[], after⟩) := by
  intro stream
  have hsendable : ∀ send ∈ pkts.map fun pkt ↦ (env, pkt), Sendable send := by
    intro send hsend
    obtain ⟨pkt, hpkt, rfl⟩ := List.mem_map.mp hsend
    exact ⟨halloc, (hstorable pkt hpkt).1⟩
  obtain ⟨calls, hsent⟩ := sendAll_eq hwriter hfd hsendable ⟨[], writerCalls⟩
  obtain ⟨after, hreceived⟩ := recvAll_frames hreader hpeerFd hsendable
    (show (List.replicate pkts.length Packet.zero).length = _ by simp) [] readerCalls
  have hstream :
      stream = ((pkts.map fun pkt ↦ (env, pkt)).flatMap fun send ↦ send.2.frame) ++ [] := by
    rw [List.append_nil]
    simp only [stream, hsent]
    rfl
  refine ⟨after, ?_⟩
  rw [hstream, hreceived, List.map_map]
  refine Prod.ext ?_ rfl
  refine List.map_congr_left fun pkt hpkt ↦ ?_
  exact Prod.ext rfl (hstorable pkt hpkt).2

end EndToEnd

/-- Texts arrive. Assumes: a correct AEAD; a sender with a session for the peer, and a receiver with
a session for the sender whose receiving key is the sender's sending key; no packets for the peer in
the queue at first, texts to the peer that go, room for them, and a clock that does not run
backwards; memory; a database that returns the first pushed of the rows of one second; and a
connection that works on both ends. Texts to others may come in between.

The receiver gets every text to the peer, in the order in which they were sent, under the identity
of the sender; the stream is used up and nothing waits for the peer any more. -/
theorem koeSendText_delivers {S : Sodium} (haead : S.Aead) {sender receiver : Ctx}
    {toPk : Block 32} {sess peerSess : Session} (hsender : sender.initialised = true)
    (hreceiver : receiver.initialised = true) (hsess : sender.sessions.lookup toPk = some sess)
    (hpeerSess : receiver.sessions.lookup sender.keys.pk = some peerSess)
    (hmirror : sess.txKey = peerSess.rxKey) {db : QueueTable}
    (hempty : db.countWhere (QueuedRow.isTo toPk) = 0) {sends : List TextSend}
    (hgoes : ∀ send ∈ textsTo toPk sends, send.Goes)
    (hclock : ((textsTo toPk sends).map fun send ↦ send.env.push.now).Pairwise (· ≤ ·))
    {maxPerPeer : ℤ} (hroom : ((textsTo toPk sends).length : ℤ) ≤ maxPerPeer)
    {rounds : ℕ → DrainRound}
    (hsmooth : SmoothDrain toPk rounds (sendTexts S maxPerPeer sender db sends).2)
    {writer reader : ℕ → ℤ} (hwriter : ∀ call, 0 < writer call) (hreader : ∀ call, 0 < reader call)
    {fd peerFd : ℤ} (hfd : 0 ≤ fd) (hpeerFd : 0 ≤ peerFd) {env : TransportSendEnv}
    (halloc : env.alloc = true) {recvEnv : RecvEnv} (hrecvAlloc : recvEnv.alloc = true)
    (writerCalls readerCalls : ℕ)
    (hanswers : (koeQueueDrain rounds (sendTexts S maxPerPeer sender db sends).2 toPk).AnsweredBy
      writer env fd ⟨[], writerCalls⟩) :
    let drained := koeQueueDrain rounds (sendTexts S maxPerPeer sender db sends).2 toPk
    let stream := (sendAll writer fd (drained.calls.map fun call ↦ (env, call.2.1))
      ⟨[], writerCalls⟩).2.pending
    let arrived := recvAll reader ⟨true, true⟩ peerFd
      (List.replicate drained.calls.length Packet.zero) ⟨stream, readerCalls⟩
    let received := recvTexts S recvEnv receiver (arrived.1.map Prod.snd)
    (received.map fun received ↦ (received.rc, received.msg)) =
        (textsTo toPk sends).map
          (fun send ↦ arrivedText recvEnv.now sender.keys.pk toPk send.text) ∧
      (∀ packet ∈ arrived.1, packet.1 = 0) ∧ arrived.2.pending = [] ∧
      drained.sent = (textsTo toPk sends).length ∧
      drained.db.countWhere (QueuedRow.isTo toPk) = 0 := by
  intro drained stream arrived received
  have hstart : Sending S sender.keys.pk toPk sess [] sender db :=
    ⟨hsender, rfl, hsess, [], backlog_of_none hempty, List.Forall₂.nil⟩
  have hnone : ∀ row ∈ rowsOf db toPk, ∀ send ∈ textsTo toPk sends,
      row.2.sequence ≤ send.env.push.now := by
    intro row hrow
    obtain ⟨hmem, hto⟩ := List.mem_filter.mp hrow
    exact absurd hto (Table.countWhere_eq_zero.mp hempty row hmem)
  have hsent := sendTexts_backlog haead sends hstart hgoes hclock hnone (by simpa using hroom)
  obtain ⟨pkts, hbacklog, hwritten⟩ := hsent.waiting
  rw [List.nil_append] at hwritten
  have hfits : ∀ text ∈ (textsTo toPk sends).map TextSend.text,
      text.length ≤ koeMaxPayload - 16 := by
    intro text htext
    obtain ⟨send, hsend, rfl⟩ := List.mem_map.mp htext
    exact (hgoes send hsend).fits
  have hstorable := storable_of_written haead hwritten hfits
  obtain ⟨hcalls, hzero, hdrained⟩ :=
    hbacklog.drain_over hwriter hfd halloc hstorable hsmooth hanswers
  have hsends : (drained.calls.map fun call ↦ (env, call.2.1)) = pkts.map fun pkt ↦ (env, pkt) := by
    rw [← hcalls, List.map_map]
    rfl
  have hcount : drained.calls.length = pkts.length := by
    rw [← hcalls, List.length_map]
  have hlength : pkts.length = (textsTo toPk sends).length := by
    rw [← hwritten.length_eq, List.length_map]
  obtain ⟨after, harrived⟩ := recvAll_sendAll hwriter hreader hfd hpeerFd halloc hstorable
    writerCalls readerCalls
  have hall : arrived = (pkts.map fun pkt ↦ (0, pkt), ⟨[], after⟩) := by
    simp only [arrived, stream, hsends, hcount]
    exact harrived
  have hpackets : arrived.1.map Prod.snd = pkts := by
    rw [hall, List.map_map]
    exact List.map_id pkts
  rw [hmirror] at hwritten
  refine ⟨?_, ?_, ?_, ?_, hdrained.length_eq⟩
  · simp only [received, hpackets]
    rw [recvTexts_written haead hrecvAlloc hwritten hreceiver hpeerSess hfits, List.map_map]
    rfl
  · intro packet hpacket
    rw [hall] at hpacket
    obtain ⟨pkt, -, rfl⟩ := List.mem_map.mp hpacket
    rfl
  · rw [hall]
  · have hsentAll : (drained.calls.filter fun call ↦ call.2.2 == 0) = drained.calls := by
      refine List.filter_eq_self.mpr fun call hcall ↦ ?_
      rw [hzero call hcall]
      rfl
    rw [Drained.sent, hsentAll, hcount, hlength]

/-- A context of the stand-in with a session for one peer. -/
def pairedCtx (own peer : UInt8) : Ctx :=
  (koeSessionEstablish 0 ⟨true, Sodium.transparentIdentity own, koeSessionTableInit⟩
    (Sodium.transparentIdentity peer).pk Session.zero).2

/-- A text to the second party, in the given second. -/
def textAt (now : ℤ) (text : List UInt8) : TextSend where
  env := ⟨0, ⟨1, 0, 0, 0, true, true⟩, 0, ⟨Block.zero 24, true⟩,
    ⟨.effective, ⟨true, true, 0⟩, true, now, true⟩⟩
  toPk := (Sodium.transparentIdentity 2).pk
  text := text
  destructTtl := 0

/-- Two texts of different seconds, written seven bytes at a time and read five at a time. -/
theorem twoTexts_delivered :
    let sends := [textAt 1 [104, 105], textAt 2 [104, 111]]
    let toPk := (Sodium.transparentIdentity 2).pk
    let rounds : ℕ → DrainRound := fun _ ↦ ⟨⟨true, true, 0⟩, 0⟩
    let db := (sendTexts Sodium.transparent 512 (pairedCtx 1 2) Table.empty sends).2
    let drained := koeQueueDrain rounds db toPk
    let stream := (sendAll (fun _ ↦ 7) 3
      (drained.calls.map fun call ↦ (⟨true, fun _ ↦ 0⟩, call.2.1)) ⟨[], 0⟩).2.pending
    let arrived := recvAll (fun _ ↦ 5) ⟨true, true⟩ 4
      (List.replicate drained.calls.length Packet.zero) ⟨stream, 0⟩
    (recvTexts Sodium.transparent ⟨0, true, 0⟩ (pairedCtx 2 1) (arrived.1.map Prod.snd)).map
        (fun received ↦ (received.rc, received.msg)) =
      sends.map fun send ↦
        arrivedText 0 (Sodium.transparentIdentity 1).pk (Sodium.transparentIdentity 2).pk
          send.text := by
  intro sends toPk rounds db drained stream arrived
  have hgoes : ∀ send ∈ textsTo toPk sends, send.Goes := by
    intro send hsend
    have hmem : send = textAt 1 [104, 105] ∨ send = textAt 2 [104, 111] := by
      simpa [sends] using List.mem_of_mem_filter hsend
    rcases hmem with rfl | rfl
    · exact ⟨⟨by decide, rfl, rfl⟩, rfl, ⟨rfl, rfl⟩, by decide⟩
    · exact ⟨⟨by decide, rfl, rfl⟩, rfl, ⟨rfl, rfl⟩, by decide⟩
  have hdistinct : ∀ first ∈ db.rows, ∀ second ∈ db.rows, first.2.isTo toPk = true →
      second.2.isTo toPk = true → first.2.sequence = second.2.sequence → first = second := by
    decide +kernel
  have hsmooth : SmoothDrain toPk rounds db :=
    ⟨fun _ ↦ ⟨rfl, rfl⟩, drainPicksOldest_of_distinct _ hdistinct⟩
  have hsender : (pairedCtx 1 2).initialised = true := rfl
  have hreceiver : (pairedCtx 2 1).initialised = true := rfl
  have hsess : (pairedCtx 1 2).sessions.lookup toPk = some Session.zero := by decide +kernel
  have hpeerSess : (pairedCtx 2 1).sessions.lookup (pairedCtx 1 2).keys.pk =
      some Session.zero := by
    decide +kernel
  have hempty : (Table.empty : QueueTable).countWhere (QueuedRow.isTo toPk) = 0 := rfl
  have hclock : ((textsTo toPk sends).map fun send ↦ send.env.push.now).Pairwise (· ≤ ·) := by
    decide +kernel
  have hroom : ((textsTo toPk sends).length : ℤ) ≤ 512 := by decide +kernel
  have halloc : (⟨true, fun _ ↦ 0⟩ : TransportSendEnv).alloc = true := rfl
  have hrecvAlloc : (⟨0, true, 0⟩ : RecvEnv).alloc = true := rfl
  have hanswers : (koeQueueDrain rounds db toPk).AnsweredBy (fun _ ↦ 7) ⟨true, fun _ ↦ 0⟩ 3
      ⟨[], 0⟩ := by
    unfold Drained.AnsweredBy
    decide +kernel
  have hall := koeSendText_delivers Sodium.transparent_aead hsender hreceiver hsess hpeerSess rfl
    hempty hgoes hclock hroom hsmooth (fun _ ↦ (by omega : (0 : ℤ) < 7))
    (fun _ ↦ (by omega : (0 : ℤ) < 5)) (by omega : (0 : ℤ) ≤ 3) (by omega : (0 : ℤ) ≤ 4) halloc
    hrecvAlloc 0 0 hanswers
  have htexts : textsTo toPk sends = sends := by
    refine List.filter_eq_self.mpr ?_
    intro send hsend
    have hmem : send = textAt 1 [104, 105] ∨ send = textAt 2 [104, 111] := by
      simpa [sends] using hsend
    rcases hmem with rfl | rfl
    · exact beq_self_eq_true _
    · exact beq_self_eq_true _
  have hkeys : (pairedCtx 1 2).keys = Sodium.transparentIdentity 1 := rfl
  rw [htexts, hkeys] at hall
  subst arrived stream drained db
  exact hall.1

end KoeCore
