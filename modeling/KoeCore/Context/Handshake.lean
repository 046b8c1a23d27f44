import KoeCore.Handshake.Record
import KoeCore.Messaging.Builders
import KoeCore.Session.Table

/-!
# Handshakes at the top level

`koe_handshake_start` and `koe_handshake_process` of `koe_core.c`. The handshake record is a local
variable of each call and is dropped when the call returns, so the secret behind a HELLO is gone
when its HELLO_ACK arrives, and `koe_handshake_process` works on a cleared record instead. For a
HELLO it calls `koe_handshake_finalise` on the record that `koe_handshake_respond` has just
completed, with its own HELLO_ACK as the packet to check. The return code of the responder's step is
not looked at: when it fails, the packet that the caller left in `out` is checked.

`koeHandshakeProcess_gains_iff` is the specification of a call: it stores a session exactly when
its inputs are `Accepted`, and files it under the sender that the header names. The header is not
signed. `koeHandshakeProcess_bound_iff` draws the conclusion: a stored session belongs to the
identity it is filed under only if the packet happened to name its sender truthfully.

A HELLO that the responder rejects still completes a handshake when the packet in `out` passes the
checks. `koeHandshakeProcess_rejects_iff` says when it does not.
-/

set_option autoImplicit false
set_option relaxedAutoImplicit false

namespace KoeCore

open ByteWire

/-- The fields of `koe_ctx_t` that the session layer reads and writes; `keys` is
`active_account.keys`. -/
structure Ctx where
  initialised : Bool
  keys : Identity
  sessions : SessionTable

/-- What `koe_handshake_process` leaves behind: its return code, the context, and the values of
`*out` and `*complete_out`. -/
structure Processed where
  rc : ℤ
  ctx : Ctx
  out : Packet
  complete : ℤ

section Functions

variable (S : Sodium) (version : Version)

/-- The return code, and the output packet after the call. -/
def koeHandshakeStart (env : HandshakeEnv) (ctx : Ctx) (peerPk : Block 32) (helloOut : Packet) :
    ℤ × Packet :=
  if !ctx.initialised then (-1, helloOut)
  else
    let started := koeHandshakeInit S version env helloOut ctx.keys peerPk
    (started.1, started.2.2)

/-- The two branches of `koe_handshake_process` end alike: the record is finalised on a packet, and
on success its session is filed under `peerPk`. The result of `koe_session_table_add` is dropped. -/
def completeHandshake (now : ℤ) (ctx : Ctx) (hs : Handshake) (checked : Packet)
    (peerPk : Block 32) (out : Packet) : Processed :=
  let finalised := koeHandshakeFinalise S version hs checked ctx.keys
  if finalised.1 = 0 then
    { rc := 0
      ctx := { ctx with
        sessions := (koeSessionTableAdd now ctx.sessions peerPk finalised.2.session).2 }
      out := out
      complete := 1 }
  else { rc := 0, ctx := ctx, out := out, complete := 0 }

def koeHandshakeProcess (env : HandshakeEnv) (now : ℤ) (ctx : Ctx) (inPkt out : Packet)
    (completeOut : ℤ) : Processed :=
  if !ctx.initialised then { rc := -1, ctx := ctx, out := out, complete := completeOut }
  else if inPkt.header.type = PacketType.hello.code then
    let responded := koeHandshakeRespond S version env out inPkt ctx.keys
    completeHandshake S version now ctx responded.2.1 responded.2.2 inPkt.header.fromPk
      responded.2.2
  else if inPkt.header.type = PacketType.helloAck.code then
    completeHandshake S version now ctx Handshake.zero inPkt inPkt.header.fromPk out
  else { rc := 0, ctx := ctx, out := out, complete := 0 }

end Functions

/-! ### When a call stores a session -/

/-- The HELLO_ACK that a responder builds. -/
def ackPacket (S : Sodium) (version : Version) (payload : List UInt8) (localId : Identity)
    (sk : Block 32) (sig : Block 64) : Packet :=
  handshakePacket .helloAck localId.pk (payloadIdentity payload)
    (ackSigned S version payload localId sk ++ sig.toList)

/-- The responder's step succeeds on the packet. -/
def CanRespond (S : Sodium) (version : Version) (env : HandshakeEnv) (hello : Packet)
    (localId : Identity) : Prop :=
  ∃ payload sk dh sig, Responds S version env hello localId payload sk dh sig

/-- A HELLO leads to a session: the responder's step succeeds and the answer passes the checks of
its own author, on an erased secret, or that step fails and the packet that was already in `out`
passes them. -/
def HelloAccepted (S : Sodium) (version : Version) (env : HandshakeEnv) (localId : Identity)
    (inPkt out : Packet) : Prop :=
  (∃ payload sk dh sig, Responds S version env inPkt localId payload sk dh sig ∧
      (ackPacket S version payload localId sk sig).AckPasses S version (Block.zero 32)) ∨
    (¬ CanRespond S version env inPkt localId ∧
      out.AckPasses S version (leftoverSecret S version env inPkt))

/-- The inputs on which `koe_handshake_process` stores a session. A HELLO_ACK has to pass the checks
on a cleared record. -/
def Accepted (S : Sodium) (version : Version) (env : HandshakeEnv) (ctx : Ctx)
    (inPkt out : Packet) : Prop :=
  ctx.initialised = true ∧ ctx.sessions.HasRoom ∧
    ((inPkt.header.type = PacketType.hello.code ∧
        HelloAccepted S version env ctx.keys inPkt out) ∨
      (inPkt.header.type = PacketType.helloAck.code ∧
        inPkt.AckPasses S version (Block.zero 32)))

section Specs

variable {S : Sodium} {version : Version}

/-- What finalising a record and filing its session adds to the table. -/
theorem completeHandshake_gains_iff (now : ℤ) (ctx : Ctx) (hs : Handshake)
    (checked : Packet) (peerPk : Block 32) (out : Packet) (entry : SessionEntry) :
    ctx.sessions.Gains (completeHandshake S version now ctx hs checked peerPk out).ctx.sessions
        entry ↔
      checked.AckPasses S version hs.localEph.sk ∧ ctx.sessions.HasRoom ∧
        entry = SessionEntry.fresh now peerPk
          (koeHandshakeFinalise S version hs checked ctx.keys).2.session := by
  rw [← koeHandshakeFinalise_eq_zero_iff hs checked ctx.keys]
  unfold completeHandshake
  by_cases hrc : (koeHandshakeFinalise S version hs checked ctx.keys).1 = 0
  · simp only [if_pos hrc]
    rw [koeSessionTableAdd_gains_iff]
    exact ⟨fun h ↦ ⟨hrc, h⟩, fun h ↦ h.2⟩
  · simp only [if_neg hrc]
    constructor
    · intro hgains
      exact absurd hgains (not_gains_self entry)
    · intro h
      exact absurd h.1 hrc

/-- The record and the packet that a call hands to `koe_handshake_finalise`. -/
def handed (S : Sodium) (version : Version) (env : HandshakeEnv) (ctx : Ctx)
    (inPkt out : Packet) : Handshake × Packet :=
  if inPkt.header.type = PacketType.hello.code then
    (koeHandshakeRespond S version env out inPkt ctx.keys).2
  else (Handshake.zero, inPkt)

/-- The checks on what a HELLO hands over. -/
theorem handed_hello_passes_iff (env : HandshakeEnv) (ctx : Ctx) {inPkt : Packet} (out : Packet)
    (htype : inPkt.header.type = PacketType.hello.code) :
    (handed S version env ctx inPkt out).2.AckPasses S version
        (handed S version env ctx inPkt out).1.localEph.sk ↔
      HelloAccepted S version env ctx.keys inPkt out := by
  rw [handed, if_pos htype]
  constructor
  · intro hpasses
    rcases koeHandshakeRespond_cases env out inPkt ctx.keys with
      ⟨payload, sk, dh, sig, hresponds⟩ | ⟨hrc, hsecret, hout⟩
    · rw [koeHandshakeRespond_eq hresponds] at hpasses
      exact Or.inl ⟨payload, sk, dh, sig, hresponds, hpasses⟩
    · rw [hsecret, hout] at hpasses
      refine Or.inr ⟨?_, hpasses⟩
      rintro ⟨payload, sk, dh, sig, hresponds⟩
      rw [koeHandshakeRespond_eq hresponds] at hrc
      exact absurd hrc (by simp)
  · rintro (⟨payload, sk, dh, sig, hresponds, hpasses⟩ | ⟨hfails, hpasses⟩)
    · rw [koeHandshakeRespond_eq hresponds]
      exact hpasses
    · rcases koeHandshakeRespond_cases env out inPkt ctx.keys with hresponds | ⟨-, hsecret, hout⟩
      · exact absurd hresponds hfails
      · rw [hsecret, hout]
        exact hpasses

/-- A call stores a session exactly on accepted inputs, one session, under the sender of the
header. -/
theorem koeHandshakeProcess_gains_iff (env : HandshakeEnv) (now : ℤ) (ctx : Ctx)
    (inPkt out : Packet) (completeOut : ℤ) (entry : SessionEntry) :
    ctx.sessions.Gains
        (koeHandshakeProcess S version env now ctx inPkt out completeOut).ctx.sessions entry ↔
      Accepted S version env ctx inPkt out ∧
        entry = SessionEntry.fresh now inPkt.header.fromPk
          (koeHandshakeFinalise S version (handed S version env ctx inPkt out).1
            (handed S version env ctx inPkt out).2 ctx.keys).2.session := by
  rcases hinit : ctx.initialised with _ | _
  · rw [koeHandshakeProcess, Accepted, hinit]
    constructor
    · intro hgains
      exact absurd hgains (not_gains_self entry)
    · rintro ⟨⟨hfalse, -⟩, -⟩
      exact absurd hfalse (by simp)
  have hready : ¬ (!ctx.initialised) = true := by simp [hinit]
  by_cases hhello : inPkt.header.type = PacketType.hello.code
  · have hprocess : koeHandshakeProcess S version env now ctx inPkt out completeOut =
        completeHandshake S version now ctx (handed S version env ctx inPkt out).1
          (handed S version env ctx inPkt out).2 inPkt.header.fromPk
          (handed S version env ctx inPkt out).2 := by
      rw [koeHandshakeProcess, if_neg hready, if_pos hhello, handed, if_pos hhello]
    rw [hprocess, completeHandshake_gains_iff, handed_hello_passes_iff env ctx out hhello]
    constructor
    · rintro ⟨haccepted, hroom, hentry⟩
      exact ⟨⟨hinit, hroom, Or.inl ⟨hhello, haccepted⟩⟩, hentry⟩
    · rintro ⟨⟨-, hroom, ⟨-, haccepted⟩ | ⟨hack, -⟩⟩, hentry⟩
      · exact ⟨haccepted, hroom, hentry⟩
      · exact absurd (hhello.symm.trans hack) (by decide)
  have hhanded : handed S version env ctx inPkt out = (Handshake.zero, inPkt) := if_neg hhello
  by_cases hack : inPkt.header.type = PacketType.helloAck.code
  · have hprocess : koeHandshakeProcess S version env now ctx inPkt out completeOut =
        completeHandshake S version now ctx Handshake.zero inPkt inPkt.header.fromPk out := by
      rw [koeHandshakeProcess, if_neg hready, if_neg hhello, if_pos hack]
    rw [hprocess, completeHandshake_gains_iff, hhanded]
    constructor
    · rintro ⟨hpasses, hroom, hentry⟩
      exact ⟨⟨hinit, hroom, Or.inr ⟨hack, hpasses⟩⟩, hentry⟩
    · rintro ⟨⟨-, hroom, ⟨htype, -⟩ | ⟨-, hpasses⟩⟩, hentry⟩
      · exact absurd htype hhello
      · exact ⟨hpasses, hroom, hentry⟩
  · rw [koeHandshakeProcess, if_neg hready, if_neg hhello, if_neg hack]
    constructor
    · intro hgains
      exact absurd hgains (not_gains_self entry)
    · rintro ⟨⟨-, -, ⟨htype, -⟩ | ⟨htype, -⟩⟩, -⟩
      · exact absurd htype hhello
      · exact absurd htype hack

/-! ### HELLOs that the responder rejects -/

/-- What finalising a record reports. -/
theorem completeHandshake_complete_iff (now : ℤ) (ctx : Ctx) (hs : Handshake) (checked : Packet)
    (peerPk : Block 32) (out : Packet) :
    (completeHandshake S version now ctx hs checked peerPk out).complete = 0 ↔
      ¬ checked.AckPasses S version hs.localEph.sk := by
  rw [← koeHandshakeFinalise_eq_zero_iff hs checked ctx.keys]
  unfold completeHandshake
  by_cases hrc : (koeHandshakeFinalise S version hs checked ctx.keys).1 = 0
  · simp [hrc]
  · simp [hrc]

/-- A packet that fails the checks leaves the table alone. Assumes: such a packet. -/
theorem completeHandshake_sessions {hs : Handshake} {checked : Packet}
    (hfails : ¬ checked.AckPasses S version hs.localEph.sk) (now : ℤ) (ctx : Ctx)
    (peerPk : Block 32) (out : Packet) :
    (completeHandshake S version now ctx hs checked peerPk out).ctx.sessions = ctx.sessions := by
  have hrc := mt (koeHandshakeFinalise_eq_zero_iff hs checked ctx.keys).mp hfails
  rw [completeHandshake, if_neg hrc]

/-- Assumes: a packet on which the responder's step cannot succeed. -/
theorem koeHandshakeRespond_rejects {env : HandshakeEnv} {hello : Packet} {localId : Identity}
    (hcannot : ¬ CanRespond S version env hello localId) (out : Packet) :
    (koeHandshakeRespond S version env out hello localId).1 = -1 ∧
      (koeHandshakeRespond S version env out hello localId).2.1.localEph.sk =
        leftoverSecret S version env hello ∧
      (koeHandshakeRespond S version env out hello localId).2.2 = out := by
  rcases koeHandshakeRespond_cases env out hello localId with hresponds | hrejects
  · exact absurd hresponds hcannot
  · exact hrejects

/-- A HELLO that is rejected leads to the checks on the packet in `out`. Assumes: an initialised
context, and a HELLO on which the responder's step cannot succeed. -/
theorem koeHandshakeProcess_rejected_eq {env : HandshakeEnv} {ctx : Ctx} {inPkt : Packet}
    (hinit : ctx.initialised = true) (htype : inPkt.header.type = PacketType.hello.code)
    (hcannot : ¬ CanRespond S version env inPkt ctx.keys) (now : ℤ) (out : Packet)
    (completeOut : ℤ) :
    ∃ hs : Handshake, hs.localEph.sk = leftoverSecret S version env inPkt ∧
      koeHandshakeProcess S version env now ctx inPkt out completeOut =
        completeHandshake S version now ctx hs out inPkt.header.fromPk out := by
  have hready : ¬ (!ctx.initialised) = true := by simp [hinit]
  obtain ⟨-, hsecret, hout⟩ := koeHandshakeRespond_rejects hcannot out
  refine ⟨_, hsecret, ?_⟩
  rw [koeHandshakeProcess, if_neg hready, if_pos htype]
  simp only [hout]

/-- A HELLO that the responder rejects changes nothing and is reported as not complete exactly when
the packet that the caller left in `out` fails the checks of `koe_handshake_finalise`. A context
that is not initialised does not write `complete_out` at all. Assumes: a HELLO on which the
responder's step fails. -/
theorem koeHandshakeProcess_rejects_iff {env : HandshakeEnv} {ctx : Ctx} {inPkt out : Packet}
    (htype : inPkt.header.type = PacketType.hello.code)
    (hrejected : (koeHandshakeRespond S version env out inPkt ctx.keys).1 ≠ 0) (now : ℤ)
    (completeOut : ℤ) :
    let processed := koeHandshakeProcess S version env now ctx inPkt out completeOut
    (processed.ctx.sessions = ctx.sessions ∧ processed.complete = 0) ↔
      (ctx.initialised = true → ¬ out.AckPasses S version (leftoverSecret S version env inPkt)) ∧
        (ctx.initialised = false → completeOut = 0) := by
  intro processed
  rcases hinit : ctx.initialised with _ | _
  · have hprocessed : processed = ⟨-1, ctx, out, completeOut⟩ := by
      simp only [processed, koeHandshakeProcess, hinit, Bool.not_false, if_true]
    simp [hprocessed]
  have hcannot : ¬ CanRespond S version env inPkt ctx.keys := by
    rintro ⟨payload, sk, dh, sig, hresponds⟩
    rw [koeHandshakeRespond_eq hresponds] at hrejected
    exact hrejected rfl
  obtain ⟨hs, hsecret, hprocessed⟩ :=
    koeHandshakeProcess_rejected_eq hinit htype hcannot now out completeOut
  rw [show processed = _ from hprocessed, completeHandshake_complete_iff, hsecret]
  constructor
  · rintro ⟨-, hfails⟩
    exact ⟨fun _ ↦ hfails, fun hfalse ↦ absurd hfalse (by simp)⟩
  · rintro ⟨hfails, -⟩
    have hstale := hfails rfl
    refine ⟨completeHandshake_sessions ?_ now ctx _ out, hstale⟩
    rw [hsecret]
    exact hstale

/-! ### The identity that a stored session is filed under -/

/-- The first 66 bytes of the payload name the key as identity, and carry a signature that is valid
under it. -/
def Packet.VouchesFor (S : Sodium) (pkt : Packet) (pk : Block 32) : Prop :=
  ∃ payload, pkt.payload = some payload ∧ payloadIdentity payload = pk ∧
    S.cryptoSignVerifyDetached (payloadSig payload) (payloadSigned payload) pk = true

/-- Stored sessions are bound to authenticated identities exactly for the packets that vouch for
the sender their header names, and where no session is stored. -/
theorem koeHandshakeProcess_bound_iff (env : HandshakeEnv) (now : ℤ) (ctx : Ctx)
    (inPkt out : Packet) (completeOut : ℤ) :
    (∀ entry, ctx.sessions.Gains
        (koeHandshakeProcess S version env now ctx inPkt out completeOut).ctx.sessions entry →
      inPkt.VouchesFor S entry.peerPk) ↔
      (inPkt.VouchesFor S inPkt.header.fromPk ∨ ¬ Accepted S version env ctx inPkt out) := by
  constructor
  · intro hbound
    by_cases haccepted : Accepted S version env ctx inPkt out
    · exact Or.inl (hbound _ ((koeHandshakeProcess_gains_iff env now ctx inPkt out completeOut
        _).mpr ⟨haccepted, rfl⟩))
    · exact Or.inr haccepted
  · intro hcondition entry hgains
    obtain ⟨haccepted, rfl⟩ := (koeHandshakeProcess_gains_iff env now ctx inPkt out completeOut
      entry).mp hgains
    rcases hcondition with hvouches | hrejected
    · exact hvouches
    · exact absurd haccepted hrejected

end Specs

/-- A fresh context on the stand-in. -/
def transparentCtx (byte : UInt8) : Ctx :=
  ⟨true, Sodium.transparentIdentity byte, koeSessionTableInit⟩

theorem transparentCtx_hasRoom (byte : UInt8) : (transparentCtx byte).sessions.HasRoom := by
  constructor
  · change (0 : ℤ) < koeMaxSessions
    decide
  · change (List.replicate koeMaxSessions SessionEntry.zero).any (fun entry ↦ !entry.active) = true
    rw [List.any_replicate]
    rfl

/-- An ephemeral secret for the stand-in. -/
def transparentSecret : Block 32 := List.Vector.replicate 32 5

/-- A HELLO_ACK that a keypair of the stand-in signs for itself, under any header. -/
def transparentAck (byte : UInt8) (fromPk toPk : Block 32) : Packet :=
  let id := Sodium.transparentIdentity byte
  let signed := signedPart koeVersionLocal (Sodium.transparent.cryptoBoxPublic transparentSecret)
    id.pk
  handshakePacket .helloAck fromPk toPk (signed ++ (Sodium.mix 64 (id.pk.toList ++ signed)).toList)

theorem transparentAck_passes (byte : UInt8) (fromPk toPk secret : Block 32) :
    (transparentAck byte fromPk toPk).AckPasses Sodium.transparent koeVersionLocal secret := by
  refine ⟨_, handshakePacket_presents (koeVersionCompatible_self _) ?_ .helloAck fromPk toPk, ?_⟩
  · exact decide_eq_true rfl
  · rw [payloadEph_built]
    change (Sodium.transparent.cryptoScalarmult secret
      (Sodium.transparentPoint transparentSecret)).isSome = true
    rw [Sodium.transparent_scalarmult_point]
    rfl

/-- Party 3 signs a HELLO_ACK for itself and writes party 2 into the header; party 1 files the
session under party 2, whose key has signed nothing. -/
theorem koeHandshakeProcess_files_under_header :
    let inPkt :=
      transparentAck 3 (Sodium.transparentIdentity 2).pk (Sodium.transparentIdentity 1).pk
    ∃ entry, (transparentCtx 1).sessions.Gains (koeHandshakeProcess Sodium.transparent
        koeVersionLocal ⟨none, true⟩ 0 (transparentCtx 1) inPkt Packet.zero 0).ctx.sessions entry ∧
      entry.peerPk = (Sodium.transparentIdentity 2).pk ∧
      ¬ inPkt.VouchesFor Sodium.transparent entry.peerPk := by
  intro inPkt
  have haccepted : Accepted Sodium.transparent koeVersionLocal ⟨none, true⟩ (transparentCtx 1)
      inPkt Packet.zero :=
    ⟨rfl, transparentCtx_hasRoom 1, Or.inr ⟨rfl, transparentAck_passes 3 _ _ _⟩⟩
  refine ⟨_, (koeHandshakeProcess_gains_iff _ _ _ _ _ _ _).mpr ⟨haccepted, rfl⟩, rfl, ?_⟩
  rintro ⟨payload, hpayload, hidentity, -⟩
  obtain rfl := Option.some.inj hpayload
  rw [payloadIdentity_built] at hidentity
  exact absurd hidentity (by decide)

/-- The call-start packet of a party of the stand-in, 17 bytes under the type of a HELLO. -/
def transparentCallStart (byte : UInt8) (toPk : Block 32) : Packet :=
  (koeAudioBuildCallStart Sodium.transparent ⟨Block.zero 24, true⟩ (Sodium.transparentIdentity byte)
    toPk Session.zero Packet.zero).2

theorem transparentCallStart_fromPk (byte : UInt8) (toPk : Block 32) :
    (transparentCallStart byte toPk).header.fromPk = (Sodium.transparentIdentity byte).pk :=
  rfl

/-- No responder accepts a call-start packet. -/
theorem transparentCallStart_rejected (byte : UInt8) (toPk : Block 32) (env : HandshakeEnv)
    (localId : Identity) :
    ¬ CanRespond Sodium.transparent koeVersionLocal env (transparentCallStart byte toPk)
      localId := by
  rintro ⟨payload, sk, dh, sig, hresponds⟩
  have hlength : (transparentCallStart byte toPk).header.length.toNat = 17 := rfl
  have hannounced := hresponds.presents.announced
  rw [hlength] at hannounced
  exact absurd hannounced (by decide)

/-- Party 2 starts a call with party 1, whose `out` still holds the HELLO_ACK of an earlier
handshake: the responder rejects the packet, and the call reports a complete handshake and stores a
session for party 2. -/
theorem koeHandshakeProcess_completes_rejected :
    let inPkt := transparentCallStart 2 (Sodium.transparentIdentity 1).pk
    let out :=
      transparentAck 1 (Sodium.transparentIdentity 1).pk (Sodium.transparentIdentity 3).pk
    let processed := koeHandshakeProcess Sodium.transparent koeVersionLocal ⟨none, true⟩ 0
      (transparentCtx 1) inPkt out 0
    inPkt.header.type = PacketType.hello.code ∧ inPkt.header.length = 17 ∧
      (koeHandshakeRespond Sodium.transparent koeVersionLocal ⟨none, true⟩ out inPkt
        (transparentCtx 1).keys).1 = -1 ∧
      processed.complete ≠ 0 ∧
      ∃ entry, (transparentCtx 1).sessions.Gains processed.ctx.sessions entry ∧
        entry.peerPk = (Sodium.transparentIdentity 2).pk := by
  intro inPkt out processed
  have hcannot := transparentCallStart_rejected 2 (Sodium.transparentIdentity 1).pk ⟨none, true⟩
    (transparentCtx 1).keys
  have hpasses (secret : Block 32) : out.AckPasses Sodium.transparent koeVersionLocal secret :=
    transparentAck_passes 1 _ _ secret
  have hinit : (transparentCtx 1).initialised = true := rfl
  obtain ⟨hs, -, hprocessed⟩ := koeHandshakeProcess_rejected_eq hinit rfl hcannot 0 out 0
  refine ⟨rfl, rfl, (koeHandshakeRespond_rejects hcannot out).1, ?_⟩
  simp only [processed, inPkt, hprocessed]
  constructor
  · rw [ne_eq, completeHandshake_complete_iff]
    exact fun hfails ↦ hfails (hpasses _)
  · refine ⟨_, (completeHandshake_gains_iff 0 (transparentCtx 1) hs out _ out _).mpr
      ⟨hpasses _, transparentCtx_hasRoom 1, rfl⟩, ?_⟩
    exact transparentCallStart_fromPk 2 (Sodium.transparentIdentity 1).pk

/-- With an empty packet in `out` the same call is reported as not complete. -/
theorem transparentCallStart_changes_nothing :
    let processed := koeHandshakeProcess Sodium.transparent koeVersionLocal ⟨none, true⟩ 0
      (transparentCtx 1) (transparentCallStart 2 (Sodium.transparentIdentity 1).pk) Packet.zero 1
    processed.ctx.sessions = (transparentCtx 1).sessions ∧ processed.complete = 0 := by
  have hrejected := (koeHandshakeRespond_rejects (transparentCallStart_rejected 2
    (Sodium.transparentIdentity 1).pk ⟨none, true⟩ (transparentCtx 1).keys) Packet.zero).1
  refine (koeHandshakeProcess_rejects_iff rfl (hrejected.trans_ne (by decide)) 0 1).mpr ⟨?_, ?_⟩
  · rintro - ⟨payload, hpresents, -⟩
    exact absurd hpresents.carried (by simp [Packet.zero])
  · intro hfalse
    exact absurd hfalse (by decide)

end KoeCore
