import KoeCore.Context.Lifecycle

/-!
# Switching accounts and shutting down

What holds of a context over whole runs of `Life.step`, from a process that has not called anything.

A context is well formed when, while it is initialised, its database handle is an open connection,
its queue has the same handle and its account is loaded, and when no closed handle was used
(`Life.WellFormed`). `koe_switch_account` closes the handle that the queue keeps and opens another,
or leaves `NULL` behind when it fails, so a run is well formed throughout exactly when no account is
switched in an initialised context (`koeLifecycle_wellFormed_iff`). The next send after a switch
then uses the closed connection.

The session table is in neither teardown. `Life.step_sessions` says what calls do to it, and
`koeSessions_purged_iff` that a switch or a shutdown leaves a purged table exactly when there was
nothing to purge.
-/

set_option autoImplicit false
set_option relaxedAutoImplicit false

namespace KoeCore

open ByteWire RowTable

/-! ### Well-formed contexts -/

/-- While the context is initialised, its database handle is one of an open connection, the queue
has the same handle, and the account is loaded with keys that are not erased. No handle was used
after it was closed. -/
structure Life.WellFormed (life : Life) : Prop where
  loaded : life.ctx.initialised = true →
    ∃ handle, life.ctx.db = some handle ∧ life.conns.IsOpen handle ∧
      life.ctx.queue.db = some handle ∧ life.ctx.account.desc.active = 1 ∧
      life.ctx.account.keys ≠ Identity.erased
  unmisused : life.conns.misused = []

/-- The call is one of `koe_switch_account`. -/
def LifeCall.Switches : LifeCall → Prop
  | .switchAccount _ _ _ => True
  | _ => False

/-- No identity file opens to 96 zero bytes, under any passphrase. -/
def Files.HoldKeys (S : Sodium) (pwhash : Pwhash) (files : Files) : Prop :=
  ∀ id path passphrase, koeIdentityLoad S pwhash files id path passphrase ≠ (0, Identity.erased)

/-- The keys that the call can find are not all zero: neither those drawn for a new account nor
those in the identity files. -/
def LifeCall.FindsKeys (S : Sodium) (pwhash : Pwhash) : LifeCall → Prop
  | .init env _ => env.create.drawn ≠ some Identity.erased ∧ env.files.HoldKeys S pwhash
  | .switchAccount env _ _ => env.files.HoldKeys S pwhash
  | _ => True

section WellFormed

variable {S : Sodium} {pwhash : Pwhash} {version : Version} {life : Life}

/-- Assumes: keys that are not all zero, and an account that was loaded. -/
theorem firstAccount_loaded {env : InitEnv} {cfg : Config}
    (hkeys : (LifeCall.init env cfg).FindsKeys S pwhash) {reg : AccountRegistry}
    (hrc : (firstAccount S pwhash env cfg reg).1 = 0) :
    (firstAccount S pwhash env cfg reg).2.1.desc.active = 1 ∧
      (firstAccount S pwhash env cfg reg).2.1.keys ≠ Identity.erased := by
  obtain ⟨hdrawn, hfiles⟩ := hkeys
  unfold firstAccount at hrc ⊢
  split_ifs at hrc ⊢ with hcount
  · obtain ⟨hactive, hnew⟩ := koeAccountCreate_created hrc
    refine ⟨hactive, ?_⟩
    intro herased
    rw [hnew] at hdrawn
    exact hdrawn (congrArg some herased)
  · rcases koeAccountActivate_cases (S := S) env.files Account.zero reg 0 cfg.passphrase with
      hfails | ⟨account, hloads, hactive, path, hload⟩
    · rw [hfails] at hrc
      exact absurd hrc (show ¬ (-1 : ℤ) = 0 by decide)
    · rw [hloads]
      refine ⟨hactive, ?_⟩
      intro herased
      exact hfiles Account.zero.keys path cfg.passphrase (hload.trans (by rw [herased]))

/-- A context that `koe_init` leaves is well formed, whatever it returns. Assumes: no closed handle
was used, and keys that are not all zero. -/
theorem wellFormed_koeInit {conns : Connections} (hmisused : conns.misused = []) {env : InitEnv}
    {cfg : Config} (hkeys : (LifeCall.init env cfg).FindsKeys S pwhash) :
    (koeInit S pwhash env cfg conns).2.WellFormed := by
  have hblank {failed : Life} (hinit : failed.ctx.initialised = false)
      (hconns : failed.conns.misused = []) : failed.WellFormed :=
    ⟨fun htrue ↦ absurd (hinit.symm.trans htrue) (by decide), hconns⟩
  unfold koeInit
  dsimp only
  split_ifs with hsodium hregistry hfirst hnone
  · exact hblank rfl hmisused
  · exact hblank rfl hmisused
  · exact hblank rfl hmisused
  · refine hblank rfl ?_
    rcases koeDbOpen_cases cfg.sqlite env.stored conns with hopened | ⟨conn, -, hopened⟩
    · rw [hopened]
      exact hmisused
    · rw [hopened] at hnone
      exact absurd hnone (by simp)
  · rcases koeDbOpen_cases cfg.sqlite env.stored conns with hopened | ⟨conn, hisOpen, hopened⟩
    · rw [hopened] at hnone
      exact absurd rfl hnone
    · rw [hopened]
      let after : Connections := { conns with all := conns.all ++ [conn] }
      have hopen : after.IsOpen conns.all.length := ⟨conn, by simp [after], hisOpen⟩
      obtain ⟨hactive, hnonzero⟩ := firstAccount_loaded hkeys (not_not.mp hfirst)
      refine ⟨fun _ ↦ ⟨conns.all.length, rfl, ?_, rfl, hactive, hnonzero⟩, ?_⟩
      · exact hopen.use fun _ ↦ rfl
      · exact (hopen.misused_use id).trans hmisused

/-- Assumes: a well-formed state. -/
theorem wellFormed_koeShutdown (hformed : life.WellFormed) (done : Contact → Bool) :
    (koeShutdown done life).WellFormed := by
  by_cases hinit : life.ctx.initialised = true
  · obtain ⟨handle, hdb, hopen, -⟩ := hformed.loaded hinit
    obtain ⟨hsavedOpen, hsaved⟩ := hopen.save done life.ctx.contacts
    refine ⟨?_, ?_⟩
    · intro hstopped
      rw [koeShutdown, if_neg (by simp [hinit])] at hstopped
      exact absurd hstopped Bool.false_ne_true
    · rw [koeShutdown, if_neg (by simp [hinit]), hdb]
      exact (hsavedOpen.misused_use _).trans (hsaved.trans hformed.unmisused)
  · rw [koeShutdown, if_pos (by simp [hinit])]
    exact hformed

/-- Assumes: a well-formed state. -/
theorem wellFormed_koeAddContact (hformed : life.WellFormed) (alloc : Bool) (now : ℤ)
    (done : Contact → Bool) (displayName : List UInt8) :
    (koeAddContact alloc now done life displayName).2.WellFormed := by
  by_cases hinit : life.ctx.initialised = true
  · obtain ⟨handle, hdb, hopen, hqueue, haccount⟩ := hformed.loaded hinit
    unfold koeAddContact
    rw [if_neg (by simp [hinit])]
    dsimp only
    split_ifs with hadded
    · exact ⟨fun _ ↦ ⟨handle, hdb, hopen, hqueue, haccount⟩, hformed.unmisused⟩
    · rw [hdb]
      obtain ⟨hsavedOpen, hsaved⟩ := hopen.save done
        (koeContactAdd alloc now life.ctx.contacts (Block.zero 32) displayName).2
      exact ⟨fun _ ↦ ⟨handle, rfl, hsavedOpen, hqueue, haccount⟩,
        hsaved.trans hformed.unmisused⟩
  · rw [koeAddContact, if_pos (by simp [hinit])]
    exact hformed

theorem wellFormed_withSessions (hformed : life.WellFormed) (sessions : SessionTable) :
    (life.withSessions sessions).WellFormed :=
  ⟨hformed.loaded, hformed.unmisused⟩

/-- Assumes: a well-formed state, and a packet that is pushed only in an initialised context. -/
theorem wellFormed_push (hformed : life.WellFormed) (env : PushEnv) {pkt : Option Packet}
    (hpkt : life.ctx.initialised = false → pkt = none) : (life.push env pkt).WellFormed := by
  by_cases hinit : life.ctx.initialised = true
  · obtain ⟨handle, hdb, hopen, hqueue, haccount⟩ := hformed.loaded hinit
    obtain ⟨hpushedOpen, hpushed⟩ := hopen.push env life.ctx.queue.maxPerPeer pkt
    rw [Life.push, hqueue]
    exact ⟨fun _ ↦ ⟨handle, hdb, hpushedOpen, hqueue, haccount⟩, hpushed.trans hformed.unmisused⟩
  · rw [hpkt (Bool.not_eq_true _ ▸ hinit)]
    exact hformed

/-- Assumes: a well-formed state, keys that are not all zero, and no switch in an initialised
context. -/
theorem wellFormed_step (hformed : life.WellFormed) {call : LifeCall}
    (hkeys : call.FindsKeys S pwhash) (hcall : ¬ (life.ctx.initialised = true ∧ call.Switches)) :
    (life.step S pwhash version call).WellFormed := by
  cases call with
  | init env cfg => exact wellFormed_koeInit hformed.unmisused hkeys
  | shutdown done => exact wellFormed_koeShutdown hformed done
  | switchAccount env idx passphrase =>
    have hinit : ¬ life.ctx.initialised = true := fun htrue ↦ hcall ⟨htrue, trivial⟩
    rw [Life.step, koeSwitchAccount, if_pos (by simp [hinit])]
    exact hformed
  | sendText env toPk text destructTtl =>
    refine wellFormed_withSessions (wellFormed_push hformed env.push ?_) _
    intro hblank
    simp [pushedText, KoeCtx.core, hblank]
  | sendTextScheduled env toPk text sendAtUnix => exact wellFormed_withSessions hformed _
  | sendEncrypted env toPk body pktOut => exact wellFormed_withSessions hformed _
  | sendFile env offerEnv toPk filePath =>
    refine wellFormed_push hformed env.push ?_
    intro hblank
    simp [pushedOffer, KoeCtx.core, hblank]
  | addContact alloc now done displayName =>
    exact wellFormed_koeAddContact hformed alloc now done displayName
  | session call =>
    rw [Life.step]
    split_ifs
    · exact wellFormed_withSessions hformed _
    · exact hformed
  | handshake env now inPkt out completeOut => exact wellFormed_withSessions hformed _

/-- After a switch the queue has a handle that is not the context's. Assumes: a well-formed state
with an initialised context. -/
theorem not_wellFormed_koeSwitchAccount (hformed : life.WellFormed)
    (hinit : life.ctx.initialised = true) (env : SwitchEnv) (idx : ℤ) (passphrase : List UInt8) :
    ¬ (koeSwitchAccount S pwhash env life idx passphrase).2.WellFormed := by
  intro hafter
  obtain ⟨old, -, hopen, hqueue, -⟩ := hformed.loaded hinit
  obtain ⟨hkeepsQueue, -, hkeepsInit⟩ := koeSwitchAccount_keeps S pwhash env life idx
    passphrase
  obtain ⟨new, hdb, -, hnewQueue, -⟩ := hafter.loaded (hkeepsInit.trans hinit)
  rw [hkeepsQueue, hqueue] at hnewQueue
  have hsame : old = new := Option.some.inj hnewQueue
  rcases koeSwitchAccount_db S pwhash hinit env idx passphrase with
    hnull | hopened
  · rw [hdb] at hnull
    exact absurd hnull (by simp)
  · rw [hdb] at hopened
    have hlt := hopen.lt_length
    have hlength : new = life.conns.all.length := Option.some.inj hopened
    omega

end WellFormed

theorem wellFormed_start : Life.start.WellFormed :=
  ⟨fun hinit ↦ absurd hinit (by decide), rfl⟩

/-- In every run, the context is well formed in every state exactly when no account is switched in
an initialised context. Assumes: keys that are not all zero. -/
theorem koeLifecycle_wellFormed_iff (S : Sodium) (pwhash : Pwhash) (version : Version)
    (calls : List LifeCall) (hkeys : ∀ call ∈ calls, call.FindsKeys S pwhash) :
    (∀ front back, calls = front ++ back →
        (front.foldl (Life.step S pwhash version) Life.start).WellFormed) ↔
      Runs.AllSteps (Life.step S pwhash version)
        (fun life call ↦ ¬ (life.ctx.initialised = true ∧ call.Switches)) Life.start calls := by
  constructor
  · intro hformed
    rw [Runs.allSteps_iff]
    rintro front call back hsplit ⟨hinit, hswitches⟩
    have hbefore := hformed front (call :: back) hsplit
    have hafter := hformed (front ++ [call]) back (by rw [hsplit]; simp)
    rw [List.foldl_append, List.foldl_cons, List.foldl_nil] at hafter
    cases call with
    | switchAccount env idx passphrase =>
      exact not_wellFormed_koeSwitchAccount hbefore hinit env idx passphrase hafter
    | _ => exact hswitches
  · intro hquiet front back hsplit
    have hall : Runs.AllSteps (Life.step S pwhash version)
        (fun life call ↦ call.FindsKeys S pwhash ∧
          ¬ (life.ctx.initialised = true ∧ call.Switches)) Life.start calls := by
      rw [Runs.allSteps_iff] at hquiet ⊢
      intro before call after heq
      refine ⟨hkeys call ?_, hquiet before call after heq⟩
      rw [heq]
      exact List.mem_append_right before List.mem_cons_self
    rw [hsplit] at hall
    refine Runs.AllSteps.invariant ?_ front hall wellFormed_start
    intro life call hlife hcall
    exact wellFormed_step hlife hcall.1 hcall.2

/-- A first start: there are no files, the account of party 1 is created, and the database is
empty. -/
def freshInit : InitEnv where
  sodiumInit := true
  files := fun _ ↦ none
  create := ⟨some (Sodium.transparentIdentity 1), 0, 0, ⟨Block.zero 16, Block.zero 24, true⟩, true⟩
  stored := some (Table.empty, [])
  contactAlloc := fun _ ↦ true

def plainConfig : Config := ⟨[], [], true, 0⟩

/-- An identity file with the keys of party 2. -/
def secondFile : List UInt8 :=
  identityMagic ++ (Block.zero 16).toList ++ (Block.zero 24).toList ++
    (koeEncrypt Sodium.transparent
      ((Sodium.transparentIdentity 2).pk.toList ++ (Sodium.transparentIdentity 2).sk.toList)
      (Block.zero 24) (Block.zero 32)).getD []

/-- A switch to an account with this file, in which everything works. -/
def smoothSwitch : SwitchEnv where
  done := fun _ ↦ true
  files := fun _ ↦ some secondFile
  stored := some (Table.empty, [])
  contactAlloc := fun _ ↦ true

theorem smoothSwitch_loads (id : Identity) (path passphrase : List UInt8) :
    koeIdentityLoad Sodium.transparent plainPwhash smoothSwitch.files id path passphrase =
      (0, Sodium.transparentIdentity 2) := by
  obtain ⟨ct, hct⟩ := Sodium.transparent_aead.seals (Block.zero 32) (Block.zero 24)
    ((Sodium.transparentIdentity 2).pk.toList ++ (Sodium.transparentIdentity 2).sk.toList)
  have hsealed : koeEncrypt Sodium.transparent
      ((Sodium.transparentIdentity 2).pk.toList ++ (Sodium.transparentIdentity 2).sk.toList)
      (Block.zero 24) (Block.zero 32) = some ct := hct
  have hfile : smoothSwitch.files path =
      some (identityMagic ++ (Block.zero 16).toList ++ (Block.zero 24).toList ++ ct) := by
    change some secondFile = _
    rw [secondFile, hsealed, Option.getD_some]
  exact koeIdentityLoad_sealed Sodium.transparent plainPwhash Sodium.transparent_aead hfile rfl
    hsealed id

def keptSession : Session := ⟨List.Vector.replicate 32 1, List.Vector.replicate 32 2⟩

/-- A start, and a session with party 3. -/
def sessionRun : List LifeCall :=
  [.init freshInit plainConfig,
    .session (.add 0 (Sodium.transparentIdentity 3).pk keptSession)]

/-- A send with memory, in which everything works. -/
def plainSend : SendEnv :=
  ⟨0, ⟨1, 0, 0, 0, true, true⟩, 0, ⟨Block.zero 24, true⟩,
    ⟨.effective, ⟨true, true, 0⟩, true, 0, true⟩⟩

/-- The state after calls of the concrete runs. -/
def reached (calls : List LifeCall) : Life :=
  calls.foldl (Life.step Sodium.transparent plainPwhash koeVersionLocal) Life.start

/-- The account that the switch loads. -/
def switchedAccount : Account where
  desc := { (reached sessionRun).ctx.registry.accounts.getD 0 AccountDescriptor.zero with
    active := 1 }
  keys := Sodium.transparentIdentity 2
  passphrase := []

/-- The state after the switch. -/
def switchedLife : Life :=
  let before := reached sessionRun
  let closed := koeDbClose (before.conns.save before.ctx.db smoothSwitch.done before.ctx.contacts)
    before.ctx.db
  { ctx :=
      { before.ctx with
        db := some before.conns.all.length
        contacts := loadedBook smoothSwitch.contactAlloc smoothSwitch.stored
        account := switchedAccount }
    conns := { closed with all := closed.all ++ [⟨true, Table.empty, []⟩] } }

theorem reached_sessionRun_switch :
    koeSwitchAccount Sodium.transparent plainPwhash smoothSwitch (reached sessionRun) 0 [] =
      (0, switchedLife) := by
  have hcount : (reached sessionRun).ctx.registry.count = 1 := by decide +kernel
  have hactivated : koeAccountActivate Sodium.transparent plainPwhash smoothSwitch.files
      (koeAccountDeactivate (reached sessionRun).ctx.account) (reached sessionRun).ctx.registry 0
      [] = (0, switchedAccount) := by
    rw [koeAccountActivate, hcount, if_neg (by decide)]
    simp only [smoothSwitch_loads]
    rw [if_neg (by decide)]
    rfl
  exact koeSwitchAccount_succeeds Sodium.transparent plainPwhash (by decide +kernel) hactivated
    (by decide +kernel) rfl

/-- A switch that returns 0 leaves the closed handle in the queue, and the next text uses it. A
switch to an account that does not exist leaves an initialised context without a database and
without an account. -/
theorem koeSwitchAccount_leaves_closed :
    let switched := koeSwitchAccount Sodium.transparent plainPwhash smoothSwitch
      (reached sessionRun) 0 []
    let failed := koeSwitchAccount Sodium.transparent plainPwhash smoothSwitch
      (reached sessionRun) 7 []
    switched.1 = 0 ∧ switched.2.ctx.initialised = true ∧ switched.2.ctx.db = some 1 ∧
      switched.2.ctx.queue.db = some 0 ∧
      switched.2.conns.all.map Connection.isOpen = [false, true] ∧
      (switched.2.step Sodium.transparent plainPwhash koeVersionLocal
        (.sendText plainSend (Sodium.transparentIdentity 3).pk [104, 105] 0)).conns.misused = [0] ∧
      failed.1 = -1 ∧ failed.2.ctx.initialised = true ∧ failed.2.ctx.db = none ∧
      failed.2.ctx.account.desc.active = 0 := by
  intro switched failed
  have hswitched : switched = (0, switchedLife) := reached_sessionRun_switch
  rw [hswitched]
  refine ⟨rfl, ?_, ?_, ?_, ?_, ?_, ?_, ?_, ?_, ?_⟩
  all_goals decide +kernel

/-- A start and a text keep the context well formed throughout. -/
theorem sessionRun_wellFormed :
    let text := LifeCall.sendText plainSend (Sodium.transparentIdentity 3).pk [104, 105] 0
    (reached sessionRun).WellFormed ∧ (reached (sessionRun ++ [text])).WellFormed := by
  intro text
  have hfinds : ∀ call ∈ sessionRun ++ [text], call.FindsKeys Sodium.transparent plainPwhash := by
    intro call hcall
    simp only [sessionRun, text, List.cons_append, List.nil_append, List.mem_cons,
      List.not_mem_nil, or_false] at hcall
    rcases hcall with rfl | rfl | rfl
    · refine ⟨by decide, ?_⟩
      intro id path passphrase
      exact fun hload ↦ absurd (congrArg Prod.fst hload) (show ¬ (-1 : ℤ) = 0 by decide)
    · exact trivial
    · exact trivial
  have hrun := (koeLifecycle_wellFormed_iff Sodium.transparent plainPwhash koeVersionLocal
    (sessionRun ++ [text]) hfinds).mpr
    ⟨fun hcall ↦ hcall.2, fun hcall ↦ hcall.2, fun hcall ↦ hcall.2, trivial⟩
  exact ⟨hrun sessionRun [text] rfl, hrun (sessionRun ++ [text]) [] (List.append_nil _).symm⟩

/-! ### Session keys -/

/-- No entry is in use and none has key bytes. -/
def SessionTable.Purged (tbl : SessionTable) : Prop :=
  ∀ entry ∈ tbl.entries, entry.active = false ∧ entry.sess = Session.zero

/-- Assumes: free entries that are all zero. -/
theorem SessionTable.Scrubbed.purged_iff {tbl : SessionTable} (hscrubbed : tbl.Scrubbed) :
    tbl.Purged ↔ ∀ entry ∈ tbl.entries, entry.active = false := by
  constructor
  · intro hpurged entry hentry
    exact (hpurged entry hentry).1
  · intro hidle entry hentry
    have hzero := hscrubbed entry hentry (hidle entry hentry)
    exact ⟨hidle entry hentry, congrArg SessionEntry.sess hzero⟩

section Sessions

variable (S : Sodium) (pwhash : Pwhash) (version : Version)

theorem koeHandshakeProcess_sessions (env : HandshakeEnv) (now : ℤ) (ctx : Ctx)
    (inPkt out : Packet) (completeOut : ℤ) :
    (koeHandshakeProcess S version env now ctx inPkt out completeOut).ctx.sessions = ctx.sessions ∨
      ∃ sess, (koeHandshakeProcess S version env now ctx inPkt out completeOut).ctx.sessions =
        (koeSessionTableAdd now ctx.sessions inPkt.header.fromPk sess).2 := by
  unfold koeHandshakeProcess completeHandshake
  dsimp only
  split_ifs
  · exact Or.inl rfl
  · exact Or.inr ⟨_, rfl⟩
  · exact Or.inl rfl
  · exact Or.inr ⟨_, rfl⟩
  · exact Or.inl rfl
  · exact Or.inl rfl

theorem koeInit_sessions (env : InitEnv) (cfg : Config) (conns : Connections) :
    (koeInit S pwhash env cfg conns).2.ctx.sessions = koeSessionTableInit := by
  unfold koeInit
  dsimp only
  split_ifs
  · rfl
  · rfl
  · rfl
  · rfl
  · rfl

theorem koeAddContact_sessions (alloc : Bool) (now : ℤ) (done : Contact → Bool) (life : Life)
    (displayName : List UInt8) :
    (koeAddContact alloc now done life displayName).2.ctx.sessions = life.ctx.sessions := by
  unfold koeAddContact
  dsimp only
  split_ifs
  · rfl
  · rfl
  · rfl

theorem koeShutdown_sessions (done : Contact → Bool) (life : Life) :
    (koeShutdown done life).ctx.sessions = life.ctx.sessions := by
  unfold koeShutdown
  split_ifs
  · rfl
  · rfl
  · rfl

/-- A call leaves the session table alone, starts it afresh or makes one call on it. -/
theorem Life.step_sessions (life : Life) (call : LifeCall) :
    (life.step S pwhash version call).ctx.sessions = life.ctx.sessions ∨
      (life.step S pwhash version call).ctx.sessions = koeSessionTableInit ∨
      ∃ inner : TableCall,
        (life.step S pwhash version call).ctx.sessions = inner.step life.ctx.sessions := by
  cases call with
  | init env cfg => exact Or.inr (Or.inl (koeInit_sessions S pwhash env cfg life.conns))
  | shutdown done => exact Or.inl (koeShutdown_sessions done life)
  | switchAccount env idx passphrase =>
    exact Or.inl (koeSwitchAccount_keeps S pwhash env life idx passphrase).2.1
  | sendText env toPk text destructTtl =>
    obtain ⟨-, hsessions, -⟩ := koeSendText_spec S env life.ctx.core life.ctx.queue.maxPerPeer
      Table.empty toPk text destructTtl
    split_ifs at hsessions
    · exact Or.inr (Or.inr ⟨.find env.findNow toPk, hsessions⟩)
    · exact Or.inl hsessions
  | sendTextScheduled env toPk text sendAtUnix =>
    exact Or.inl (koeSendTextScheduled_sessions S env life.ctx.core toPk text sendAtUnix)
  | sendEncrypted env toPk body pktOut =>
    obtain ⟨hsessions, -⟩ := koeMessageSendEncrypted_spec S env life.ctx.core toPk body pktOut
    split_ifs at hsessions
    · exact Or.inr (Or.inr ⟨.find env.findNow toPk, hsessions⟩)
    · exact Or.inl hsessions
  | sendFile env offerEnv toPk filePath => exact Or.inl rfl
  | addContact alloc now done displayName =>
    exact Or.inl (koeAddContact_sessions alloc now done life displayName)
  | session call =>
    rw [Life.step]
    split_ifs
    · exact Or.inr (Or.inr ⟨call, rfl⟩)
    · exact Or.inl rfl
  | handshake env now inPkt out completeOut =>
    rcases koeHandshakeProcess_sessions S version env now life.ctx.core inPkt out completeOut
      with hsame | ⟨sess, hadded⟩
    · exact Or.inl hsame
    · exact Or.inr (Or.inr ⟨.add now inPkt.header.fromPk sess, hadded⟩)

/-- In every state of a run, the free entries of the session table are all zero. -/
theorem scrubbed_run (calls : List LifeCall) :
    (calls.foldl (Life.step S pwhash version) Life.start).ctx.sessions.Scrubbed := by
  have hstart : Life.start.ctx.sessions.Scrubbed := scrubbed_init
  refine List.foldlRecOn (motive := fun life ↦ life.ctx.sessions.Scrubbed) calls
    (Life.step S pwhash version) hstart ?_
  intro life hscrubbed call _
  rcases life.step_sessions S pwhash version call with hsame | hfresh | ⟨inner, hinner⟩
  · rw [hsame]
    exact hscrubbed
  · rw [hfresh]
    exact scrubbed_init
  · rw [hinner]
    exact scrubbed_step hscrubbed inner

end Sessions

/-- In every state that a run reaches, a switch of accounts and a shutdown each leave a session
table without active entries and without key bytes exactly when no entry was active before. -/
theorem koeSessions_purged_iff (S : Sodium) (pwhash : Pwhash) (version : Version)
    (calls : List LifeCall) (env : SwitchEnv) (idx : ℤ) (passphrase : List UInt8)
    (done : Contact → Bool) :
    let life := calls.foldl (Life.step S pwhash version) Life.start
    ((koeSwitchAccount S pwhash env life idx passphrase).2.ctx.sessions.Purged ↔
        ∀ entry ∈ life.ctx.sessions.entries, entry.active = false) ∧
      ((koeShutdown done life).ctx.sessions.Purged ↔
        ∀ entry ∈ life.ctx.sessions.entries, entry.active = false) := by
  intro life
  have hscrubbed : life.ctx.sessions.Scrubbed := scrubbed_run S pwhash version calls
  rw [(koeSwitchAccount_keeps S pwhash env life idx passphrase).2.1, koeShutdown_sessions]
  exact ⟨hscrubbed.purged_iff, hscrubbed.purged_iff⟩

/-- A session with party 3 under the identity of party 1 is still found after a switch to party 2
that returns 0, and after a shutdown. -/
theorem koeSwitchAccount_keeps_session :
    let life := reached sessionRun
    let switched := koeSwitchAccount Sodium.transparent plainPwhash smoothSwitch life 0 []
    switched.1 = 0 ∧ switched.2.ctx.account.keys = Sodium.transparentIdentity 2 ∧
      switched.2.ctx.sessions.lookup (Sodium.transparentIdentity 3).pk = some keptSession ∧
      (koeShutdown (fun _ ↦ true) life).ctx.sessions.lookup (Sodium.transparentIdentity 3).pk =
        some keptSession := by
  intro life switched
  have hswitched : switched = (0, switchedLife) := reached_sessionRun_switch
  rw [hswitched]
  refine ⟨rfl, rfl, ?_, ?_⟩
  all_goals decide +kernel

end KoeCore
