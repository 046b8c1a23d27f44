import KoeCore.Context.Send
import KoeCore.Session.Retention

/-!
# Sessions and receptions at the top level

`koe_session_establish`, `koe_session_active`, `koe_session_close` and
`koe_message_recv_and_decrypt` of `koe_core.c`. The pointers of a call are taken not to be `NULL`.

The receiver looks up the session of the peer that the header names, and takes what opens under its
receiving key. `koeMessageDecrypt_eq_zero_iff` and `koeMessageRecvAndDecrypt_eq_zero_iff` say which
packets are accepted, and `koeMessageRecvAndDecrypt_eq` what the message then holds: the body is the
plaintext, and the sender and the recipient are those of the header.

`SessionTable.Carries` is the invariant of a table whose callers keep a rule about the sessions that
they add: every entry in use keeps it (`SessionTable.Carries.step`), so a search returns nothing
else (`SessionTable.Carries.lookup`).
-/

set_option autoImplicit false
set_option relaxedAutoImplicit false

namespace KoeCore

open ByteWire

/-- What a reception takes from its environment: the clock of the session lookup, and the outcome of
`malloc` and the clock of `koe_message_decrypt`. -/
structure RecvEnv where
  findNow : ℤ
  alloc : Bool
  now : ℤ

/-- The value returned, and the context and the message record after a reception. -/
structure Received where
  rc : ℤ
  ctx : Ctx
  msg : Message

/-- The return code, and the context after the call. -/
def koeSessionEstablish (now : ℤ) (ctx : Ctx) (peerPk : Block 32) (sess : Session) : ℤ × Ctx :=
  if !ctx.initialised then (-1, ctx)
  else
    let added := koeSessionTableAdd now ctx.sessions peerPk sess
    (added.1, { ctx with sessions := added.2 })

/-- The value returned, and the context after the call: the lookup marks the session as used. -/
def koeSessionActive (now : ℤ) (ctx : Ctx) (peerPk : Block 32) : ℤ × Ctx :=
  if !ctx.initialised then (0, ctx)
  else
    let found := koeSessionTableFind now ctx.sessions peerPk
    (if found.1.isSome then 1 else 0, { ctx with sessions := found.2 })

/-- The context after the call. The result of `koe_session_table_remove` is dropped. -/
def koeSessionClose (ctx : Ctx) (peerPk : Block 32) : Ctx :=
  if !ctx.initialised then ctx
  else { ctx with sessions := (koeSessionTableRemove ctx.sessions peerPk).2 }

def koeMessageRecvAndDecrypt (S : Sodium) (env : RecvEnv) (ctx : Ctx) (pkt : Packet)
    (msgOut : Message) : Received :=
  if !ctx.initialised then ⟨-1, ctx, msgOut⟩
  else
    let found := koeSessionTableFind env.findNow ctx.sessions pkt.header.fromPk
    let ctx := { ctx with sessions := found.2 }
    match found.1 with
    | none => ⟨-1, ctx, msgOut⟩
    | some sess =>
      let decrypted := koeMessageDecrypt S env.alloc env.now msgOut pkt sess
      ⟨decrypted.1, ctx, decrypted.2⟩

/-! ### What a reception accepts -/

section Receive

variable {S : Sodium} {env : RecvEnv} {ctx : Ctx} {pkt : Packet} {msgOut : Message}

theorem Packet.length_payloadBytes_le (pkt : Packet) :
    pkt.payloadBytes.length ≤ pkt.header.length.toNat := by
  rw [Packet.payloadBytes, List.length_take]
  exact Nat.min_le_left _ _

/-- A packet that opens is long enough, so the length that the header announces decides nothing. -/
theorem koeMessageDecrypt_eq_zero_iff (alloc : Bool) (now : ℤ) (sess : Session) :
    (koeMessageDecrypt S alloc now msgOut pkt sess).1 = 0 ↔
      pkt.header.flags &&& PacketFlag.encrypted.mask ≠ 0 ∧ alloc = true ∧
        (koeDecrypt S pkt.payloadBytes pkt.header.nonce sess.rxKey).isSome = true := by
  have hopens (hsome : (koeDecrypt S pkt.payloadBytes pkt.header.nonce sess.rxKey).isSome = true) :
      cryptoSecretboxMacbytes ≤ pkt.header.length.toNat := by
    unfold koeDecrypt at hsome
    split_ifs at hsome with hshort
    · exact absurd hsome (by decide)
    · exact (Nat.not_lt.mp hshort).trans pkt.length_payloadBytes_le
  unfold koeMessageDecrypt
  split_ifs with hflag hlength halloc
  · simp [hflag]
  · have hclosed : ¬ (koeDecrypt S pkt.payloadBytes pkt.header.nonce sess.rxKey).isSome = true :=
      fun hsome ↦ absurd (hopens hsome) (by omega)
    simp [hclosed]
  · simp_all
  · rcases hplain : koeDecrypt S pkt.payloadBytes pkt.header.nonce sess.rxKey with _ | plain
    · simp
    · simp_all

/-- The sessions are searched, and nothing else of the context changes. -/
theorem koeMessageRecvAndDecrypt_ctx (S : Sodium) (env : RecvEnv) (ctx : Ctx) (pkt : Packet)
    (msgOut : Message) :
    (koeMessageRecvAndDecrypt S env ctx pkt msgOut).ctx =
      if ctx.initialised then
        { ctx with sessions :=
            (koeSessionTableFind env.findNow ctx.sessions pkt.header.fromPk).2 }
      else ctx := by
  unfold koeMessageRecvAndDecrypt
  cases hinit : ctx.initialised with
  | false => rfl
  | true =>
    rcases hlookup : ctx.sessions.lookup pkt.header.fromPk with _ | sess
    · simp [koeSessionTableFind, hlookup]
    · simp [koeSessionTableFind, hlookup]

/-- Assumes: an initialised context and a session of the sender that the header names. -/
theorem koeMessageRecvAndDecrypt_eq (S : Sodium) (env : RecvEnv) (msgOut : Message) {sess : Session}
    (hinit : ctx.initialised = true)
    (hlookup : ctx.sessions.lookup pkt.header.fromPk = some sess) :
    (koeMessageRecvAndDecrypt S env ctx pkt msgOut).rc =
        (koeMessageDecrypt S env.alloc env.now msgOut pkt sess).1 ∧
      (koeMessageRecvAndDecrypt S env ctx pkt msgOut).msg =
        (koeMessageDecrypt S env.alloc env.now msgOut pkt sess).2 := by
  simp [koeMessageRecvAndDecrypt, hinit, koeSessionTableFind, hlookup]

/-- A packet is accepted exactly when it is marked as encrypted, there is memory, and it opens under
the receiving key of the session with the sender that the header names. -/
theorem koeMessageRecvAndDecrypt_eq_zero_iff :
    (koeMessageRecvAndDecrypt S env ctx pkt msgOut).rc = 0 ↔
      ctx.initialised = true ∧ pkt.header.flags &&& PacketFlag.encrypted.mask ≠ 0 ∧
        env.alloc = true ∧ ∃ sess, ctx.sessions.lookup pkt.header.fromPk = some sess ∧
          (koeDecrypt S pkt.payloadBytes pkt.header.nonce sess.rxKey).isSome = true := by
  by_cases hinit : ctx.initialised = true
  swap
  · simp [koeMessageRecvAndDecrypt, hinit]
  rcases hlookup : ctx.sessions.lookup pkt.header.fromPk with _ | sess
  · simp [koeMessageRecvAndDecrypt, hinit, koeSessionTableFind, hlookup]
  · rw [(koeMessageRecvAndDecrypt_eq S env msgOut hinit hlookup).1, koeMessageDecrypt_eq_zero_iff]
    simp [hinit]

/-- A packet that is not accepted leaves the record as it was. Assumes: a return code other than
`0`. -/
theorem koeMessageRecvAndDecrypt_rejects
    (hrc : (koeMessageRecvAndDecrypt S env ctx pkt msgOut).rc ≠ 0) :
    (koeMessageRecvAndDecrypt S env ctx pkt msgOut).rc = -1 ∧
      (koeMessageRecvAndDecrypt S env ctx pkt msgOut).msg = msgOut := by
  by_cases hinit : ctx.initialised = true
  swap
  · simp [koeMessageRecvAndDecrypt, hinit]
  rcases hlookup : ctx.sessions.lookup pkt.header.fromPk with _ | sess
  · simp [koeMessageRecvAndDecrypt, hinit, koeSessionTableFind, hlookup]
  · obtain ⟨hcode, hmsg⟩ := koeMessageRecvAndDecrypt_eq S env msgOut hinit hlookup
    rw [hcode] at hrc ⊢
    rw [hmsg]
    rcases koeMessageDecrypt_cases S env.alloc env.now msgOut pkt sess with hcall | ⟨_, -, hcall⟩
    · rw [hcall]
      exact ⟨rfl, rfl⟩
    · rw [hcall] at hrc
      exact absurd rfl hrc

end Receive

/-! ### What a table holds -/

/-- Every entry in use keeps the rule. -/
def SessionTable.Carries (rule : Block 32 → Session → Prop) (tbl : SessionTable) : Prop :=
  ∀ entry ∈ tbl.entries, entry.active = true → rule entry.peerPk entry.sess

section Carries

variable {rule : Block 32 → Session → Prop} {tbl : SessionTable}

theorem carries_init (rule : Block 32 → Session → Prop) : koeSessionTableInit.Carries rule := by
  intro entry hentry hactive
  rw [List.eq_of_mem_replicate hentry] at hactive
  exact absurd hactive (by decide)

/-- Assumes: a table that carries the rule. -/
theorem SessionTable.Carries.lookup (hcarries : tbl.Carries rule) {peerPk : Block 32}
    {sess : Session} (hlookup : tbl.lookup peerPk = some sess) : rule peerPk sess := by
  obtain ⟨entry, hfind, rfl⟩ := Option.map_eq_some_iff.mp hlookup
  obtain ⟨hactive, hpeer⟩ := SessionEntry.isFor_iff.mp (List.find?_some hfind)
  rw [← hpeer]
  exact hcarries entry (List.mem_of_find?_eq_some hfind) hactive

/-- Assumes: a change that leaves an entry free, or one that keeps the rule. -/
theorem SessionTable.Carries.updateFirst {next : SessionTable} (hcarries : tbl.Carries rule)
    {test : SessionEntry → Bool} {change : SessionEntry → SessionEntry}
    (hnext : next.entries = Slots.updateFirst test change tbl.entries)
    (hchange : ∀ entry ∈ tbl.entries, test entry = true → (change entry).active = true →
      rule (change entry).peerPk (change entry).sess) : next.Carries rule := by
  intro entry hentry hactive
  rw [hnext] at hentry
  rcases Slots.mem_updateFirst hentry with hold | ⟨slot, hslot, htest, rfl⟩
  · exact hcarries entry hold hactive
  · exact hchange slot hslot htest hactive

/-- Assumes: a call that adds no session against the rule. -/
theorem SessionTable.Carries.step (hcarries : tbl.Carries rule) (call : TableCall)
    (hadd : ∀ now peerPk sess, call = .add now peerPk sess → rule peerPk sess) :
    (call.step tbl).Carries rule := by
  cases call with
  | add now peerPk sess =>
    change (koeSessionTableAdd now tbl peerPk sess).2.Carries rule
    by_cases hroom : tbl.HasRoom
    · refine hcarries.updateFirst (koeSessionTableAdd_eq hroom now peerPk sess).2 ?_
      intro _ _ _ _
      exact hadd now peerPk sess rfl
    · rw [koeSessionTableAdd_full hroom]
      exact hcarries
  | find now peerPk =>
    refine hcarries.updateFirst rfl ?_
    intro entry hentry hfor _
    exact hcarries entry hentry (Bool.and_eq_true_iff.mp hfor).1
  | remove peerPk =>
    change (koeSessionTableRemove tbl peerPk).2.Carries rule
    by_cases hsome : tbl.entries.any (SessionEntry.isFor peerPk) = true
    · refine hcarries.updateFirst (koeSessionTableRemove_eq hsome).2 ?_
      intro _ _ _ hactive
      exact absurd hactive (by decide)
    · rw [koeSessionTableRemove, if_neg hsome]
      exact hcarries
  | cleanup now maxAge =>
    change (koeSessionTableCleanup now tbl maxAge).Carries rule
    rw [koeSessionTableCleanup]
    split_ifs with hage
    · exact hcarries
    · intro entry hentry hactive
      obtain ⟨old, hold, rfl⟩ := List.mem_map.mp hentry
      split_ifs at hactive ⊢ with hstale
      · exact absurd hactive (by decide)
      · exact hcarries old hold hactive

end Carries

/-! ### What a send hands out -/

section Send

variable {S : Sodium} {env : SendEnv} {ctx : Ctx} {toPk : Block 32} {body : List UInt8}
  {pktOut : Packet}

/-- The sessions are searched, and nothing else of the context changes. -/
theorem koeMessageSendEncrypted_ctx (S : Sodium) (env : SendEnv) (ctx : Ctx) (toPk : Block 32)
    (body : List UInt8) (pktOut : Packet) :
    (koeMessageSendEncrypted S env ctx toPk body pktOut).1.ctx =
      if ctx.initialised ∧ body.length ≠ 0 then
        { ctx with sessions := (koeSessionTableFind env.findNow ctx.sessions toPk).2 }
      else ctx := by
  unfold koeMessageSendEncrypted
  by_cases hinit : ctx.initialised = true
  swap
  · simp [hinit]
  by_cases hbody : body.length = 0
  · simp [hinit, hbody]
  rcases hlookup : ctx.sessions.lookup toPk with _ | sess
  · simp [hinit, hbody, koeSessionTableFind, hlookup]
  rcases halloc : (koeMessageAlloc env.alloc .text toPk body).1 with _ | msg
  · simp [hinit, hbody, koeSessionTableFind, hlookup, halloc]
  · simp [hinit, hbody, koeSessionTableFind, hlookup, halloc]

/-- Assumes: the return code `0`. -/
theorem koeMessageEncrypt_sealed {env : BuildEnv} {msg : Message} {sess : Session}
    (hrc : (koeMessageEncrypt S env msg sess).1 = 0) :
    ∃ ct, koeEncrypt S msg.bodyBytes env.nonce sess.txKey = some ct ∧
      (koeMessageEncrypt S env msg sess).2 = messagePacket msg env.nonce ct := by
  have hfailed : ¬ (-1 : ℤ) = 0 := by decide
  rcases hbuild : env.alloc with _ | _
  · simp only [koeMessageEncrypt, hbuild, Bool.not_false, if_true] at hrc
    exact absurd hrc hfailed
  · rcases hct : koeEncrypt S msg.bodyBytes env.nonce sess.txKey with _ | ct
    · simp only [koeMessageEncrypt, hbuild, hct, Bool.not_true, Bool.false_eq_true, if_false] at hrc
      exact absurd hrc hfailed
    · exact ⟨ct, rfl, by rw [koeMessageEncrypt_eq hbuild hct]⟩

/-- A packet that was handed out carries the body, sealed under the sending key of the session with
the recipient, and names its sender. Assumes: the return code `0`. -/
theorem koeMessageSendEncrypted_sealed
    (hrc : (koeMessageSendEncrypted S env ctx toPk body pktOut).1.rc = 0) :
    let pkt := (koeMessageSendEncrypted S env ctx toPk body pktOut).2
    ∃ sess ct, ctx.sessions.lookup toPk = some sess ∧
      koeEncrypt S body env.build.nonce sess.txKey = some ct ∧ pkt.payload = some ct ∧
      pkt.header.nonce = env.build.nonce ∧ pkt.header.fromPk = ctx.keys.pk ∧
      pkt.header.flags &&& PacketFlag.encrypted.mask ≠ 0 := by
  intro pkt
  have hfailed : ¬ (-1 : ℤ) = 0 := by decide
  have hready : env.Ready ctx toPk body := by
    by_contra hfails
    have hneg := (koeMessageSendEncrypted_spec S env ctx toPk body pktOut).2 hfails
    exact hfailed (hneg.symm.trans hrc)
  have hinit : ctx.initialised = true := by
    by_contra hclosed
    have hguard : (!ctx.initialised) = true := by simpa using hclosed
    rw [koeMessageSendEncrypted, if_pos hguard] at hrc
    exact hfailed hrc
  obtain ⟨⟨sess, hlookup⟩, halloc⟩ := hready
  obtain ⟨msg, hmsg, hfrom, hcode, hpkt⟩ :=
    koeMessageSendEncrypted_eq (S := S) hinit hlookup halloc pktOut
  obtain ⟨ct, hct, hsealed⟩ := koeMessageEncrypt_sealed (hcode.symm.trans hrc)
  rw [hmsg.bodyBytes] at hct
  have hflags : (PacketFlag.encrypted.mask ||| PacketFlag.signed.mask) &&&
      PacketFlag.encrypted.mask ≠ 0 := by decide
  rw [show pkt = _ from hpkt.trans hsealed]
  exact ⟨sess, ct, hlookup, hct, rfl, rfl, hfrom, hflags⟩

end Send

end KoeCore
