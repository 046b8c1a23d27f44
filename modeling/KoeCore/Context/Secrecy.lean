import KoeCore.Context.Handshake
import KoeCore.Library.Runs

/-!
# The secrets behind stored sessions

Runs of `koe_handshake_start` and `koe_handshake_process` at one party, over any sequence of
incoming packets. The state of a run is the context together with the ephemeral secrets whose
public halves the party has sent in a HELLO, which the code itself does not keep.

A stored session is forward secret when it was derived from a live secret of its own handshake
(`LiveDerived`). No call ever derives from one (`not_liveDerived`). A HELLO_ACK is finalised on a
cleared record. A HELLO is finalised on a record whose secret the responder's step has already
erased, or, when that step failed, on a secret whose public half was never sent. A run is forward
secret exactly when none of its calls stores a session (`koeHandshake_forwardSecret_iff`). What a
HELLO_ACK leads to is a function of the packet and the receiver's public key
(`koeHandshakeProcess_ack_public`).
-/

set_option autoImplicit false
set_option relaxedAutoImplicit false

namespace KoeCore

open ByteWire

/-- One call of a run, with everything it takes from the caller and the environment. -/
inductive HandshakeCall
  | start (env : HandshakeEnv) (peerPk : Block 32) (helloOut : Packet)
  | process (env : HandshakeEnv) (now : ℤ) (inPkt out : Packet) (completeOut : ℤ)

/-- The context, and the ephemeral secrets whose public halves were sent in a HELLO. -/
structure Traced where
  ctx : Ctx
  sent : List (Block 32)

section Runs

variable (S : Sodium) (version : Version)

/-- One call. A HELLO is sent when `koe_handshake_start` returns 0. -/
def Traced.step (traced : Traced) : HandshakeCall → Traced
  | .start env peerPk helloOut =>
    if (koeHandshakeStart S version env traced.ctx peerPk helloOut).1 = 0 then
      { traced with sent := env.drawn.toList ++ traced.sent }
    else traced
  | .process env now inPkt out completeOut =>
    { traced with
      ctx := (koeHandshakeProcess S version env now traced.ctx inPkt out completeOut).ctx }

/-- The secret that a call derives a session from is not erased and is the one generated in the same
handshake, whose public half this party sent: for a HELLO the one drawn in this call, in the
HELLO_ACK that the responder's step built, and for a HELLO_ACK the one behind an earlier HELLO. -/
def LiveDerived (traced : Traced) (env : HandshakeEnv) (inPkt out : Packet) : Prop :=
  let secret := (handed S version env traced.ctx inPkt out).1.localEph.sk
  secret ≠ Block.zero 32 ∧
    ((inPkt.header.type = PacketType.hello.code ∧ env.drawn = some secret ∧
        (koeHandshakeRespond S version env out inPkt traced.ctx.keys).1 = 0) ∨
      (inPkt.header.type = PacketType.helloAck.code ∧ secret ∈ traced.sent))

/-- Every session that the call stores was derived from a live secret. -/
def StoresLive (traced : Traced) : HandshakeCall → Prop
  | .start _ _ _ => True
  | .process env now inPkt out completeOut =>
    ∀ entry, traced.ctx.sessions.Gains
        (koeHandshakeProcess S version env now traced.ctx inPkt out completeOut).ctx.sessions
        entry →
      LiveDerived S version traced env inPkt out

/-- The call is not one that stores a session. -/
def Quiet (traced : Traced) : HandshakeCall → Prop
  | .start _ _ _ => True
  | .process env _ inPkt out _ => ¬ Accepted S version env traced.ctx inPkt out

end Runs

section Specs

variable {S : Sodium} {version : Version}

/-- No call derives a session from a live secret. -/
theorem not_liveDerived (traced : Traced) (env : HandshakeEnv) (inPkt out : Packet) :
    ¬ LiveDerived S version traced env inPkt out := by
  rintro ⟨hlive, ⟨hhello, -, hrc⟩ | ⟨hack, -⟩⟩
  · rw [handed, if_pos hhello] at hlive
    rcases koeHandshakeRespond_cases env out inPkt traced.ctx.keys with
      ⟨payload, sk, dh, sig, hresponds⟩ | ⟨hfailed, -, -⟩
    · rw [koeHandshakeRespond_eq hresponds] at hlive
      exact hlive rfl
    · rw [hfailed] at hrc
      exact absurd hrc (by decide)
  · have hhello : inPkt.header.type ≠ PacketType.hello.code := by
      rw [hack]
      decide
    rw [handed, if_neg hhello] at hlive
    exact hlive rfl

theorem storesLive_iff_quiet (traced : Traced) (call : HandshakeCall) :
    StoresLive S version traced call ↔ Quiet S version traced call := by
  rcases call with _ | ⟨env, now, inPkt, out, completeOut⟩
  · exact Iff.rfl
  · constructor
    · intro hstores haccepted
      exact not_liveDerived traced env inPkt out (hstores _
        ((koeHandshakeProcess_gains_iff env now traced.ctx inPkt out completeOut _).mpr
          ⟨haccepted, rfl⟩))
    · intro hquiet entry hgains
      exact absurd ((koeHandshakeProcess_gains_iff env now traced.ctx inPkt out completeOut
        entry).mp hgains).1 hquiet

/-- A run stores only sessions derived from live secrets exactly when none of its calls stores a
session. -/
theorem koeHandshake_forwardSecret_iff (traced : Traced) (calls : List HandshakeCall) :
    (∀ front call back, calls = front ++ call :: back →
        StoresLive S version (front.foldl (Traced.step S version) traced) call) ↔
      Runs.AllSteps (Traced.step S version) (Quiet S version) traced calls := by
  rw [← Runs.allSteps_iff]
  exact Runs.allSteps_congr storesLive_iff_quiet traced calls

/-- An accepted HELLO_ACK stores a session that is a function of the packet and the receiver's
public key. Assumes: an accepted HELLO_ACK. -/
theorem koeHandshakeProcess_ack_public {env : HandshakeEnv} {ctx : Ctx} {ack out : Packet}
    (haccepted : Accepted S version env ctx ack out)
    (hack : ack.header.type = PacketType.helloAck.code) (now completeOut : ℤ) :
    ∃ entry payload dh, ctx.sessions.Gains
        (koeHandshakeProcess S version env now ctx ack out completeOut).ctx.sessions entry ∧
      ack.payload = some payload ∧
      S.cryptoScalarmult (Block.zero 32) (payloadEph payload) = some dh ∧
      entry.sess = sessionOf true (sessionDigest S dh ctx.keys.pk (payloadIdentity payload)) := by
  have hhello : ack.header.type ≠ PacketType.hello.code := by
    rw [hack]
    decide
  have hhanded : handed S version env ctx ack out = (Handshake.zero, ack) := if_neg hhello
  have hpasses : ack.AckPasses S version Handshake.zero.localEph.sk := by
    rcases haccepted.2.2 with ⟨htype, -⟩ | ⟨-, hpasses⟩
    · exact absurd htype hhello
    · exact hpasses
  obtain ⟨payload, hpresents, hsome⟩ := hpasses
  obtain ⟨dh, hdh⟩ := Option.isSome_iff_exists.mp hsome
  refine ⟨_, payload, dh, (koeHandshakeProcess_gains_iff env now ctx ack out completeOut _).mpr
    ⟨haccepted, rfl⟩, hpresents.carried, hdh, ?_⟩
  rw [hhanded, koeHandshakeFinalise_eq hpresents hdh]
  rfl

end Specs

/-- Party 1 starts a handshake with party 2 and receives the HELLO_ACK of party 2. The session it
stores is no live one, and can be computed from the HELLO_ACK and the two public keys. -/
theorem koeHandshake_stores_public_session :
    let S := Sodium.transparent
    let one := Sodium.transparentIdentity 1
    let two := Sodium.transparentIdentity 2
    let ack := transparentAck 2 two.pk one.pk
    let start := HandshakeCall.start ⟨some transparentSecret, true⟩ two.pk Packet.zero
    let before := Traced.step S koeVersionLocal ⟨transparentCtx 1, []⟩ start
    before.ctx.keys = one ∧
      ¬ StoresLive S koeVersionLocal before (.process ⟨none, true⟩ 0 ack Packet.zero 0) ∧
      ∃ entry payload dh, before.ctx.sessions.Gains
          (koeHandshakeProcess S koeVersionLocal ⟨none, true⟩ 0 before.ctx ack Packet.zero
            0).ctx.sessions entry ∧
        ack.payload = some payload ∧
        S.cryptoScalarmult (Block.zero 32) (payloadEph payload) = some dh ∧
        entry.sess =
          sessionOf true (sessionDigest S dh before.ctx.keys.pk (payloadIdentity payload)) := by
  intro S one two ack start before
  have hctx : before.ctx = transparentCtx 1 := by
    simp only [before, start, Traced.step]
    split_ifs <;> rfl
  have haccepted : Accepted S koeVersionLocal ⟨none, true⟩ before.ctx ack Packet.zero := by
    rw [hctx]
    exact ⟨rfl, transparentCtx_hasRoom 1, Or.inr ⟨rfl, transparentAck_passes 2 _ _ _⟩⟩
  refine ⟨by rw [hctx]; rfl, ?_, koeHandshakeProcess_ack_public haccepted rfl 0 0⟩
  intro hstores
  exact (storesLive_iff_quiet before _).mp hstores haccepted

end KoeCore
