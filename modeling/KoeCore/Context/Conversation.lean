import KoeCore.Context.Receive
import KoeCore.Context.SendKey
import Mathlib.Logic.Function.Basic

/-!
# Conversations over an open network

Any number of parties, each with its own context, that establish and close sessions with one
another, clean up old ones, poll, send with `koe_message_send_encrypted` and receive with
`koe_message_recv_and_decrypt`, in any order. The network is not modelled as a channel: a delivery
hands an arbitrary packet to an arbitrary party, so packets may be lost, reordered, repeated,
redirected and given another header.

`Parties` are identities that differ and one key for each ordered pair of parties that no other pair
shares, and `Parties.session` is the session that one party holds for another whenever it holds one:
it sends under the key of the one order, and receives under that of the other. `Hall.letters` is a
log beside the contexts of what was sealed, by whom and for whom. `HallCall.Unforged` is what the
AEAD is trusted for: a delivered payload that opens under a key of the parties was sealed under this
key and nonce before.

`conversation_exact` says what the deliveries of such a run come to. A packet is accepted exactly
when the receiver is ready for the sender that the header names and some letter from this sender to
this receiver has its nonce and payload; the message then holds the body of that letter. The letter
may have been accepted before: the log is not consumed, and a repeated packet is accepted again. The
recipient in the header, the type and the checksum decide nothing.
-/

set_option autoImplicit false
set_option relaxedAutoImplicit false

namespace KoeCore

open ByteWire

/-- Parties with different identities, and a key for each ordered pair of them. -/
structure Parties (ι : Type*) where
  identity : ι → Identity
  key : ι → ι → Block 32
  identity_injective : ∀ who other, (identity who).pk = (identity other).pk → who = other
  key_injective : ∀ who peer other another, key who peer = key other another →
    who = other ∧ peer = another

/-- The session that `who` holds for `peer`. -/
def Parties.session {ι : Type*} (parties : Parties ι) (who peer : ι) : Session :=
  ⟨parties.key who peer, parties.key peer who⟩

/-- A packet that was handed out for sending: who sealed which body for whom, under which key. -/
structure Letter (ι : Type*) where
  sender : ι
  toPk : Block 32
  body : List UInt8
  key : Block 32
  pkt : Packet

/-- The contexts of all parties, and the letters so far, the latest first. -/
structure Hall (ι : Type*) where
  ctxs : ι → Ctx
  letters : List (Letter ι)

/-- A call of one party, with what it takes from its environment. -/
inductive HallCall (ι : Type*)
  | establish (who peer : ι) (now : ℤ)
  | active (who : ι) (peerPk : Block 32) (now : ℤ)
  | close (who : ι) (peerPk : Block 32)
  | cleanup (who : ι) (now maxAgeSeconds : ℤ)
  | poll (who : ι) (now : ℤ)
  | send (who : ι) (env : SendEnv) (toPk : Block 32) (body : List UInt8) (pktOut : Packet)
  | deliver (who : ι) (env : RecvEnv) (pkt : Packet) (msgOut : Message)

section Defs

variable {ι : Type*}

/-- Every party initialised, without sessions. -/
def Hall.start (parties : Parties ι) : Hall ι where
  ctxs who := ⟨true, parties.identity who, koeSessionTableInit⟩
  letters := []

/-- The letter that a send adds to the log, if it succeeds. -/
def sentLetter (S : Sodium) (ctx : Ctx) (who : ι) (env : SendEnv) (toPk : Block 32)
    (body : List UInt8) (pktOut : Packet) : Option (Letter ι) :=
  let sent := koeMessageSendEncrypted S env ctx toPk body pktOut
  if sent.1.rc = 0 then
    (ctx.sessions.lookup toPk).map fun sess ↦ ⟨who, toPk, body, sess.txKey, sent.2⟩
  else none

section Step

variable [DecidableEq ι] (S : Sodium) (parties : Parties ι)

def Hall.set (hall : Hall ι) (who : ι) (ctx : Ctx) : Hall ι :=
  { hall with ctxs := Function.update hall.ctxs who ctx }

def HallCall.step (hall : Hall ι) : HallCall ι → Hall ι
  | establish who peer now =>
    hall.set who (koeSessionEstablish now (hall.ctxs who) (parties.identity peer).pk
      (parties.session who peer)).2
  | active who peerPk now => hall.set who (koeSessionActive now (hall.ctxs who) peerPk).2
  | close who peerPk => hall.set who (koeSessionClose (hall.ctxs who) peerPk)
  | cleanup who now maxAgeSeconds =>
    hall.set who (koeSessionsCleanup now (hall.ctxs who) maxAgeSeconds)
  | poll who now => hall.set who (koePoll now (hall.ctxs who)).2
  | send who env toPk body pktOut =>
    let sent := koeMessageSendEncrypted S env (hall.ctxs who) toPk body pktOut
    let letter := sentLetter S (hall.ctxs who) who env toPk body pktOut
    { hall.set who sent.1.ctx with letters := letter.toList ++ hall.letters }
  | deliver who env pkt msgOut =>
    hall.set who (koeMessageRecvAndDecrypt S env (hall.ctxs who) pkt msgOut).ctx

end Step

/-- The payload was sealed under the key and the nonce. -/
def Hall.Sealed (hall : Hall ι) (key : Block 32) (nonce : Block 24) (ct : List UInt8) : Prop :=
  ∃ letter ∈ hall.letters, letter.key = key ∧ letter.pkt.header.nonce = nonce ∧
    letter.pkt.payload = some ct

instance (hall : Hall ι) (key : Block 32) (nonce : Block 24) (ct : List UInt8) :
    Decidable (hall.Sealed key nonce ct) :=
  inferInstanceAs (Decidable (∃ letter ∈ hall.letters, _))

/-- What is delivered has a payload of the announced length, and if it opens under a key of the
parties, it was sealed under it. -/
def HallCall.Unforged (S : Sodium) (parties : Parties ι) (hall : Hall ι) : HallCall ι → Prop
  | deliver _ _ pkt _ =>
    pkt.PayloadFits ∧ ∀ sender peer,
      (koeDecrypt S pkt.payloadBytes pkt.header.nonce (parties.key sender peer)).isSome = true →
        hall.Sealed (parties.key sender peer) pkt.header.nonce pkt.payloadBytes
  | _ => True

/-- The packet has the nonce and the payload of the letter, is handed to the party the letter was
sealed for, and names the sender of the letter. -/
def Letter.Reaches (parties : Parties ι) (who : ι) (pkt : Packet) (letter : Letter ι) : Prop :=
  letter.toPk = (parties.identity who).pk ∧
    (parties.identity letter.sender).pk = pkt.header.fromPk ∧
    letter.pkt.header.nonce = pkt.header.nonce ∧ letter.pkt.payload = some pkt.payloadBytes

/-- The context is initialised and has a session for the sender that the header names, the packet is
marked as encrypted, and there is memory for the body. -/
def RecvEnv.Ready (env : RecvEnv) (ctx : Ctx) (pkt : Packet) : Prop :=
  ctx.initialised = true ∧ (ctx.sessions.lookup pkt.header.fromPk).isSome = true ∧
    pkt.header.flags &&& PacketFlag.encrypted.mask ≠ 0 ∧ env.alloc = true

/-- A delivery accepts exactly what some letter accounts for, the message is that letter's, a
rejected packet leaves the record alone, and a letter's own packet reaches the party it is for. -/
def HallCall.Exact (S : Sodium) (parties : Parties ι) (hall : Hall ι) : HallCall ι → Prop
  | deliver who env pkt msgOut =>
    let received := koeMessageRecvAndDecrypt S env (hall.ctxs who) pkt msgOut
    (received.rc = 0 ↔ env.Ready (hall.ctxs who) pkt ∧
      ∃ letter ∈ hall.letters, letter.Reaches parties who pkt) ∧
    (∀ letter ∈ hall.letters, letter.Reaches parties who pkt → received.rc = 0 →
      received.msg.body = some letter.body ∧ received.msg.bodyLen = letter.body.length ∧
        received.msg.fromPk = (parties.identity letter.sender).pk) ∧
    (received.rc ≠ 0 → received.msg = msgOut) ∧
    ∀ letter ∈ hall.letters, pkt = letter.pkt → letter.toPk = (parties.identity who).pk →
      letter.Reaches parties who pkt
  | _ => True

end Defs

/-! ### The invariant -/

section Invariant

variable {ι : Type*} (S : Sodium) (parties : Parties ι)

/-- The session is the one that `who` holds for the peer with the key. -/
def Parties.Assigns (who : ι) (peerPk : Block 32) (sess : Session) : Prop :=
  ∃ peer, peerPk = (parties.identity peer).pk ∧ sess = parties.session who peer

/-- The letter is to some party, was sealed under the key of the pair, and names its sender. -/
def Letter.Genuine (letter : Letter ι) : Prop :=
  ∃ peer ct, letter.toPk = (parties.identity peer).pk ∧
    letter.key = parties.key letter.sender peer ∧
    koeEncrypt S letter.body letter.pkt.header.nonce letter.key = some ct ∧
    letter.pkt.payload = some ct ∧
    letter.pkt.header.fromPk = (parties.identity letter.sender).pk

structure Hall.Sound (hall : Hall ι) : Prop where
  keys : ∀ who, (hall.ctxs who).keys = parties.identity who
  sessions : ∀ who, (hall.ctxs who).sessions.Carries (parties.Assigns who)
  letters : ∀ letter ∈ hall.letters, letter.Genuine S parties

theorem Hall.sound_start : (Hall.start parties).Sound S parties where
  keys _ := rfl
  sessions who := carries_init (parties.Assigns who)
  letters := by
    intro letter hletter
    exact absurd hletter (List.not_mem_nil)

variable {S parties} {hall : Hall ι}

/-- Assumes: a context of the same party, with sessions that are assigned to it. -/
theorem Hall.Sound.set [DecidableEq ι] (hsound : hall.Sound S parties) {who : ι} {ctx : Ctx}
    (hkeys : ctx.keys = (hall.ctxs who).keys)
    (hsessions : ctx.sessions.Carries (parties.Assigns who)) :
    (hall.set who ctx).Sound S parties where
  keys := by
    intro other
    by_cases hother : other = who
    · subst hother
      simp only [Hall.set, Function.update_self]
      exact hkeys.trans (hsound.keys other)
    · simp only [Hall.set, Function.update_of_ne hother]
      exact hsound.keys other
  sessions := by
    intro other
    by_cases hother : other = who
    · subst hother
      simp only [Hall.set, Function.update_self]
      exact hsessions
    · simp only [Hall.set, Function.update_of_ne hother]
      exact hsound.sessions other
  letters := hsound.letters

/-- A function leaves the context of a party alone, or makes one call on its session table. Assumes:
that, and that no session is added that is not assigned. -/
theorem Hall.Sound.onTable [DecidableEq ι] (hsound : hall.Sound S parties) {who : ι} {ctx : Ctx}
    (call : TableCall)
    (hadd : ∀ now peerPk sess, call = .add now peerPk sess → parties.Assigns who peerPk sess)
    (hctx : ctx = hall.ctxs who ∨
      ctx = { hall.ctxs who with sessions := call.step (hall.ctxs who).sessions }) :
    (hall.set who ctx).Sound S parties := by
  rcases hctx with rfl | rfl
  · exact hsound.set rfl (hsound.sessions who)
  · exact hsound.set rfl ((hsound.sessions who).step call hadd)

/-- What a send adds to the log is genuine. Assumes: the letter of a successful send. -/
theorem Hall.Sound.sentLetter (hsound : hall.Sound S parties) {who : ι} {env : SendEnv}
    {toPk : Block 32} {body : List UInt8} {pktOut : Packet} {letter : Letter ι}
    (hletter : sentLetter S (hall.ctxs who) who env toPk body pktOut = some letter) :
    letter.Genuine S parties := by
  unfold KoeCore.sentLetter at hletter
  dsimp only at hletter
  split_ifs at hletter with hrc
  obtain ⟨sess, ct, hlookup, hct, hpayload, hnonce, hfrom, -⟩ := koeMessageSendEncrypted_sealed hrc
  rw [hlookup, Option.map_some, Option.some.injEq] at hletter
  subst hletter
  obtain ⟨peer, hpeer, rfl⟩ := (hsound.sessions who).lookup hlookup
  refine ⟨peer, ct, hpeer, rfl, ?_, hpayload, ?_⟩
  · rw [hnonce]
    exact hct
  · rw [hfrom, hsound.keys who]

theorem Hall.Sound.step [DecidableEq ι] (hsound : hall.Sound S parties) (call : HallCall ι) :
    (call.step S parties hall).Sound S parties := by
  cases call with
  | establish who peer now =>
    refine hsound.onTable (.add now (parties.identity peer).pk (parties.session who peer)) ?_ ?_
    · rintro _ _ _ ⟨rfl, rfl, rfl⟩
      exact ⟨peer, rfl, rfl⟩
    · rw [koeSessionEstablish]
      split_ifs
      · exact Or.inl rfl
      · exact Or.inr rfl
  | active who peerPk now =>
    refine hsound.onTable (.find now peerPk) ?_ ?_
    · rintro _ _ _ ⟨⟩
    · rw [koeSessionActive]
      split_ifs
      · exact Or.inl rfl
      · exact Or.inr rfl
  | close who peerPk =>
    refine hsound.onTable (.remove peerPk) ?_ ?_
    · rintro _ _ _ ⟨⟩
    · rw [koeSessionClose]
      split_ifs
      · exact Or.inl rfl
      · exact Or.inr rfl
  | cleanup who now maxAgeSeconds =>
    refine hsound.onTable (.cleanup now maxAgeSeconds) ?_ ?_
    · rintro _ _ _ ⟨⟩
    · rw [koeSessionsCleanup]
      split_ifs
      · exact Or.inl rfl
      · exact Or.inr rfl
  | poll who now =>
    refine hsound.onTable (.cleanup now 300) ?_ ?_
    · rintro _ _ _ ⟨⟩
    · rw [koePoll]
      split_ifs with hinit
      · exact Or.inl rfl
      · rw [koeSessionsCleanup, if_neg hinit]
        exact Or.inr rfl
  | send who env toPk body pktOut =>
    have hset : (hall.set who (koeMessageSendEncrypted S env (hall.ctxs who) toPk body
        pktOut).1.ctx).Sound S parties := by
      refine hsound.onTable (.find env.findNow toPk) ?_ ?_
      · rintro _ _ _ ⟨⟩
      · rw [koeMessageSendEncrypted_ctx]
        split_ifs
        · exact Or.inr rfl
        · exact Or.inl rfl
    refine ⟨hset.keys, hset.sessions, ?_⟩
    intro letter hletter
    rcases List.mem_append.mp hletter with hnew | hold
    · exact hsound.sentLetter (Option.mem_toList.mp hnew)
    · exact hsound.letters letter hold
  | deliver who env pkt msgOut =>
    refine hsound.onTable (.find env.findNow pkt.header.fromPk) ?_ ?_
    · rintro _ _ _ ⟨⟩
    · rw [koeMessageRecvAndDecrypt_ctx]
      split_ifs
      · exact Or.inr rfl
      · exact Or.inl rfl

end Invariant

/-! ### Deliveries -/

section Deliveries

variable {ι : Type*} {S : Sodium} {parties : Parties ι} {hall : Hall ι} {who : ι} {pkt : Packet}

/-- Assumes: a packet that a letter reaches the party with, and a session for the sender that the
header names. -/
theorem Hall.Sound.opens (haead : S.Aead) (hsound : hall.Sound S parties) {letter : Letter ι}
    (hletter : letter ∈ hall.letters) (hreaches : letter.Reaches parties who pkt) {sess : Session}
    (hlookup : (hall.ctxs who).sessions.lookup pkt.header.fromPk = some sess) :
    koeDecrypt S pkt.payloadBytes pkt.header.nonce sess.rxKey = some letter.body ∧
      pkt.payloadBytes.length = letter.body.length + 16 := by
  obtain ⟨hto, hfrom, hnonce, hpayload⟩ := hreaches
  obtain ⟨peer, ct, hpeer, hkey, hct, hsealed, -⟩ := hsound.letters letter hletter
  obtain ⟨sender, hsender, rfl⟩ := (hsound.sessions who).lookup hlookup
  obtain rfl : letter.sender = sender :=
    parties.identity_injective _ _ (hfrom.trans hsender)
  obtain rfl : who = peer := parties.identity_injective _ _ (hto.symm.trans hpeer)
  obtain rfl : pkt.payloadBytes = ct := Option.some.inj (hpayload.symm.trans hsealed)
  rw [hnonce, hkey] at hct
  exact ⟨koeDecrypt_koeEncrypt haead hct, haead.length_sealed hct⟩

/-- Assumes: a payload that opens under the receiving key of a session, and was not forged. -/
theorem Hall.Sound.reaches_of_opens (hsound : hall.Sound S parties) {sess : Session}
    (hlookup : (hall.ctxs who).sessions.lookup pkt.header.fromPk = some sess)
    (hopens : (koeDecrypt S pkt.payloadBytes pkt.header.nonce sess.rxKey).isSome = true)
    (hunforged : ∀ sender peer,
      (koeDecrypt S pkt.payloadBytes pkt.header.nonce (parties.key sender peer)).isSome = true →
        hall.Sealed (parties.key sender peer) pkt.header.nonce pkt.payloadBytes) :
    ∃ letter ∈ hall.letters, letter.Reaches parties who pkt := by
  obtain ⟨sender, hsender, rfl⟩ := (hsound.sessions who).lookup hlookup
  obtain ⟨letter, hletter, hkey, hnonce, hpayload⟩ := hunforged sender who hopens
  obtain ⟨peer, ct, hpeer, hpair, -⟩ := hsound.letters letter hletter
  -- The key of the log is the key of one ordered pair only.
  obtain ⟨hfrom, hto⟩ := parties.key_injective _ _ _ _ (hpair.symm.trans hkey)
  refine ⟨letter, hletter, ?_, ?_, hnonce, hpayload⟩
  · rw [hpeer, hto]
  · rw [hfrom, hsender]

theorem Packet.PayloadFits.length_payloadBytes (hfits : pkt.PayloadFits) :
    pkt.payloadBytes.length = pkt.header.length.toNat := by
  obtain ⟨hnull, hlength⟩ := hfits
  rcases hpayload : pkt.payload with _ | bytes
  · have hzero : pkt.header.length = 0 := hnull.mp hpayload
    simp [Packet.payloadBytes, hpayload, hzero]
  · rw [Packet.payloadBytes_eq hpayload (hlength bytes hpayload).symm, hlength bytes hpayload]

/-- The step lemma. Assumes: a correct AEAD, and a call that delivers nothing forged. -/
theorem Hall.Sound.exact (haead : S.Aead) (hsound : hall.Sound S parties) {call : HallCall ι}
    (hunforged : call.Unforged S parties hall) : call.Exact S parties hall := by
  cases call with
  | deliver who env pkt msgOut =>
    obtain ⟨hfits, hunforged⟩ := hunforged
    refine ⟨?_, ?_, ?_, ?_⟩
    · rw [koeMessageRecvAndDecrypt_eq_zero_iff]
      constructor
      · rintro ⟨hinit, hflag, halloc, sess, hlookup, hopens⟩
        have hsome : ((hall.ctxs who).sessions.lookup pkt.header.fromPk).isSome = true := by
          rw [hlookup, Option.isSome_some]
        exact ⟨⟨hinit, hsome, hflag, halloc⟩, hsound.reaches_of_opens hlookup hopens hunforged⟩
      · rintro ⟨⟨hinit, hsome, hflag, halloc⟩, letter, hletter, hreaches⟩
        obtain ⟨sess, hlookup⟩ := Option.isSome_iff_exists.mp hsome
        have hopens := (hsound.opens haead hletter hreaches hlookup).1
        exact ⟨hinit, hflag, halloc, sess, hlookup, by rw [hopens, Option.isSome_some]⟩
    · intro letter hletter hreaches hrc
      obtain ⟨hinit, -, -, sess, hlookup, -⟩ := koeMessageRecvAndDecrypt_eq_zero_iff.mp hrc
      obtain ⟨hplain, hlength⟩ := hsound.opens haead hletter hreaches hlookup
      obtain ⟨hcode, hmsg⟩ := koeMessageRecvAndDecrypt_eq S env msgOut hinit hlookup
      obtain ⟨plain, hopened, hfilled⟩ := koeMessageDecrypt_filled (hcode.symm.trans hrc)
      obtain rfl : letter.body = plain := Option.some.inj (hplain.symm.trans hopened)
      rw [hmsg, hfilled]
      refine ⟨rfl, ?_, hreaches.2.1.symm⟩
      change pkt.header.length.toNat - 16 = letter.body.length
      rw [← hfits.length_payloadBytes, hlength, Nat.add_sub_cancel]
    · intro hrc
      exact (koeMessageRecvAndDecrypt_rejects hrc).2
    · rintro letter hletter rfl hto
      obtain ⟨peer, ct, -, -, -, hpayload, hfrom⟩ := hsound.letters letter hletter
      refine ⟨hto, hfrom.symm, rfl, ?_⟩
      rw [Packet.payloadBytes_eq hpayload (hfits.2 ct hpayload).symm, hpayload]
  | _ => trivial

/-- In every run in which nothing forged is delivered, every delivery is exact: what is accepted was
sent by the party it is attributed to, to the party that accepts it, with this body, and every such
letter is accepted as often as it arrives. Assumes: a correct AEAD, and keys that the parties do not
change in the run (`Parties`). -/
theorem conversation_exact [DecidableEq ι] (haead : S.Aead) (parties : Parties ι)
    (calls : List (HallCall ι))
    (hunforged : Runs.AllSteps (fun hall call ↦ call.step S parties hall)
      (fun hall call ↦ call.Unforged S parties hall) (Hall.start parties) calls) :
    Runs.AllSteps (fun hall call ↦ call.step S parties hall)
      (fun hall call ↦ call.Exact S parties hall) (Hall.start parties) calls := by
  refine Runs.AllSteps.imp_of_invariant ?_ calls (Hall.sound_start S parties) hunforged
  intro hall call hsound hcall
  exact ⟨hsound.exact haead hcall, hsound.step call⟩

/-- Two parties of the stand-in. -/
def twoParties : Parties Bool where
  identity who := Sodium.transparentIdentity (if who then 2 else 1)
  key who peer := List.Vector.replicate 32 ((if who then 2 else 0) + (if peer then 1 else 0))
  identity_injective := by decide
  key_injective := by decide

/-- The first party writes to the second, and the packet arrives twice, the second time with another
recipient in its header. -/
def twoDeliveries (pkt : Packet) : List (HallCall Bool) :=
  [.establish false true 0, .establish true false 0,
    .send false smoothSend (twoParties.identity true).pk [104, 105] Packet.zero,
    .deliver true ⟨0, true, 0⟩ pkt Message.zero,
    .deliver true ⟨0, true, 0⟩ { pkt with header := { pkt.header with toPk := Block.zero 32 } }
      Message.zero]

def firstPacket : Packet :=
  let ctx : Ctx := ⟨true, twoParties.identity false, koeSessionTableInit⟩
  let ctx := (koeSessionEstablish 0 ctx (twoParties.identity true).pk
    (twoParties.session false true)).2
  (koeMessageSendEncrypted Sodium.transparent smoothSend ctx (twoParties.identity true).pk
    [104, 105] Packet.zero).2

theorem twoDeliveries_exact :
    Runs.AllSteps (fun hall call ↦ call.step Sodium.transparent twoParties hall)
      (fun hall call ↦ call.Exact Sodium.transparent twoParties hall) (Hall.start twoParties)
      (twoDeliveries firstPacket) := by
  refine conversation_exact Sodium.transparent_aead twoParties _ ?_
  refine ⟨trivial, trivial, trivial, ⟨by decide +kernel, ?_⟩, ⟨by decide +kernel, ?_⟩, trivial⟩
  · decide +kernel
  · decide +kernel

end Deliveries

end KoeCore
