import KoeCore.Context.Handshake

/-!
# What two contexts agree on

An undisturbed exchange at the top level: `koe_handshake_start` at one context, its HELLO to
`koe_handshake_process` at the other, and the HELLO_ACK back to `koe_handshake_process` at the
first.

Both calls report completion and both sides derive a session from an all-zero secret, so that the
two X25519 results coincide. They do not hash the same identities, though: the first context hashes
its own key and the peer's, while the second checks its own HELLO_ACK and hashes its own key twice.
Both take the initiator's half for sending (`Exchange.Carried.lookups`). The new sessions are
therefore no mirror images, and after an exchange the tables hold mirrored sessions exactly when
older ones that mirror each other still come first in both (`koeHandshakeProcess_mirrored_iff`).
-/

set_option autoImplicit false
set_option relaxedAutoImplicit false

namespace KoeCore

open ByteWire

/-- The first table holds a session for one key, the second for another, and the two are each
other's mirror. -/
def HoldMirrored (first : SessionTable) (firstPeer : Block 32) (second : SessionTable)
    (secondPeer : Block 32) : Prop :=
  ∃ mine yours, first.lookup firstPeer = some mine ∧ second.lookup secondPeer = some yours ∧
    mine.Mirrored yours

section Steps

variable {S : Sodium} {version : Version} {env : HandshakeEnv} {ctx : Ctx}

/-- A packet that completes a handshake. Assumes: the packet passes the checks, and the X25519
result on the secret of the record. -/
theorem completeHandshake_eq {hs : Handshake} {checked : Packet} {payload : List UInt8}
    {dh : Block 32} (hpresents : checked.Presents S version payload)
    (hdh : S.cryptoScalarmult hs.localEph.sk (payloadEph payload) = some dh) (now : ℤ)
    (peerPk : Block 32) (out : Packet) :
    completeHandshake S version now ctx hs checked peerPk out =
      { rc := 0
        ctx := { ctx with
          sessions := (koeSessionTableAdd now ctx.sessions peerPk (sessionOf true
            (sessionDigest S dh ctx.keys.pk (payloadIdentity payload)))).2 }
        out := out
        complete := 1 } := by
  rw [completeHandshake, koeHandshakeFinalise_eq hpresents hdh]
  rfl

/-- The answer of a responder passes its own checks. Assumes: the responder's step succeeds, and its
signatures verify. -/
theorem ackPacket_presents {hello : Packet} {localId : Identity} {payload : List UInt8}
    {sk dh : Block 32} {sig : Block 64}
    (hresponds : Responds S version env hello localId payload sk dh sig)
    (hsig : S.cryptoSignVerifyDetached sig (ackSigned S version payload localId sk) localId.pk =
      true) :
    (ackPacket S version payload localId sk sig).Presents S version
      (ackSigned S version payload localId sk ++ sig.toList) := by
  refine handshakePacket_presents ?_ hsig .helloAck localId.pk (payloadIdentity payload)
  exact koeVersionCompatible_negotiate hresponds.presents.compatible ⟨0, 0⟩

/-- A HELLO that is answered. Assumes: an initialised context, a HELLO to which the responder's step
succeeds, signatures that verify, and the X25519 result on the erased secret. -/
theorem koeHandshakeProcess_hello_eq {hello : Packet} {payload : List UInt8}
    {sk dh erased : Block 32} {sig : Block 64} (hinit : ctx.initialised = true)
    (htype : hello.header.type = PacketType.hello.code)
    (hresponds : Responds S version env hello ctx.keys payload sk dh sig)
    (hsig : S.cryptoSignVerifyDetached sig (ackSigned S version payload ctx.keys sk) ctx.keys.pk =
      true)
    (herased : S.cryptoScalarmult (Block.zero 32) (S.cryptoBoxPublic sk) = some erased) (now : ℤ)
    (out : Packet) (completeOut : ℤ) :
    koeHandshakeProcess S version env now ctx hello out completeOut =
      { rc := 0
        ctx := { ctx with
          sessions := (koeSessionTableAdd now ctx.sessions hello.header.fromPk
            (sessionOf true (sessionDigest S erased ctx.keys.pk ctx.keys.pk))).2 }
        out := ackPacket S version payload ctx.keys sk sig
        complete := 1 } := by
  have hready : ¬ (!ctx.initialised) = true := by simp [hinit]
  have hsecret : S.cryptoScalarmult
      (Handshake.responded S version payload ctx.keys sk dh).localEph.sk
      (payloadEph (ackSigned S version payload ctx.keys sk ++ sig.toList)) = some erased := by
    rw [ackSigned, payloadEph_built]
    exact herased
  rw [koeHandshakeProcess, if_neg hready, if_pos htype, koeHandshakeRespond_eq hresponds]
  change completeHandshake S version now ctx _ (ackPacket S version payload ctx.keys sk sig) _ _ = _
  rw [completeHandshake_eq (ackPacket_presents hresponds hsig) hsecret, ackSigned,
    payloadIdentity_built]
  rfl

/-- A HELLO_ACK that is accepted. Assumes: an initialised context, a HELLO_ACK that passes the
checks, and the X25519 result on a cleared record. -/
theorem koeHandshakeProcess_ack_eq {ack : Packet} {payload : List UInt8} {erased : Block 32}
    (hinit : ctx.initialised = true) (htype : ack.header.type = PacketType.helloAck.code)
    (hpresents : ack.Presents S version payload)
    (herased : S.cryptoScalarmult (Block.zero 32) (payloadEph payload) = some erased)
    (ackEnv : HandshakeEnv) (now : ℤ) (out : Packet) (completeOut : ℤ) :
    koeHandshakeProcess S version ackEnv now ctx ack out completeOut =
      { rc := 0
        ctx := { ctx with
          sessions := (koeSessionTableAdd now ctx.sessions ack.header.fromPk (sessionOf true
            (sessionDigest S erased ctx.keys.pk (payloadIdentity payload)))).2 }
        out := out
        complete := 1 } := by
  have hready : ¬ (!ctx.initialised) = true := by simp [hinit]
  have hhello : ack.header.type ≠ PacketType.hello.code := by
    rw [htype]
    decide
  have hsecret : S.cryptoScalarmult Handshake.zero.localEph.sk (payloadEph payload) =
      some erased := herased
  rw [koeHandshakeProcess, if_neg hready, if_neg hhello, if_pos htype,
    completeHandshake_eq hpresents hsecret]

end Steps

/-! ### The exchange -/

/-- Two contexts with the builds they run, and what the three calls of an exchange take from their
callers and their environments. -/
structure Exchange where
  first : Ctx
  second : Ctx
  firstVersion : Version
  secondVersion : Version
  startEnv : HandshakeEnv
  secondEnv : HandshakeEnv
  firstEnv : HandshakeEnv
  secondNow : ℤ
  firstNow : ℤ
  helloOut : Packet
  secondOut : Packet
  firstOut : Packet
  secondComplete : ℤ
  firstComplete : ℤ

namespace Exchange

variable (S : Sodium) (x : Exchange)

/-- `koe_handshake_start` at the first context. -/
def started : ℤ × Packet :=
  koeHandshakeStart S x.firstVersion x.startEnv x.first x.second.keys.pk x.helloOut

/-- `koe_handshake_process` at the second context, on the HELLO. -/
def atSecond : Processed :=
  koeHandshakeProcess S x.secondVersion x.secondEnv x.secondNow x.second (x.started S).2
    x.secondOut x.secondComplete

/-- `koe_handshake_process` at the first context, on the HELLO_ACK. -/
def atFirst : Processed :=
  koeHandshakeProcess S x.firstVersion x.firstEnv x.firstNow x.first (x.atSecond S).out x.firstOut
    x.firstComplete

/-- Both contexts are initialised, the first built a HELLO, and the responder's step at the second
built a HELLO_ACK. -/
structure Carried : Prop where
  firstInit : x.first.initialised = true
  secondInit : x.second.initialised = true
  hello : (x.started S).1 = 0
  ack : (koeHandshakeRespond S x.secondVersion x.secondEnv x.secondOut (x.started S).2
    x.second.keys).1 = 0

/-- The session that the first context derives, given the X25519 result. -/
def firstFresh (erased : Block 32) : Session :=
  sessionOf true (sessionDigest S erased x.first.keys.pk x.second.keys.pk)

/-- The session that the second context derives, given the X25519 result. -/
def secondFresh (erased : Block 32) : Session :=
  sessionOf true (sessionDigest S erased x.second.keys.pk x.second.keys.pk)

variable {S x}

/-- The HELLO of a carried exchange and the answer to it. Assumes: a carried exchange. -/
theorem Carried.responds (hcarried : x.Carried S) :
    ∃ payload sk dh sig, Responds S x.secondVersion x.secondEnv (x.started S).2 x.second.keys
        payload sk dh sig ∧
      (x.started S).2.header.type = PacketType.hello.code ∧
      (x.started S).2.header.fromPk = x.first.keys.pk ∧
      payloadVersion payload = x.firstVersion := by
  have hready : ¬ (!x.first.initialised) = true := by simp [hcarried.firstInit]
  have hhello := hcarried.hello
  rw [started, koeHandshakeStart, if_neg hready] at hhello
  obtain ⟨startSk, startSig, hdrawn, halloc, hsig⟩ := koeHandshakeInit_inv hhello.ge
  have hstarted : (x.started S).2 = handshakePacket .hello x.first.keys.pk x.second.keys.pk
      (signedPart x.firstVersion (S.cryptoBoxPublic startSk) x.first.keys.pk ++
        startSig.toList) := by
    rw [started, koeHandshakeStart, if_neg hready, koeHandshakeInit_eq hdrawn halloc hsig]
  rcases koeHandshakeRespond_cases x.secondEnv x.secondOut (x.started S).2 x.second.keys with
    ⟨payload, sk, dh, sig, hresponds⟩ | ⟨hfailed, -, -⟩
  · refine ⟨payload, sk, dh, sig, hresponds, by rw [hstarted]; rfl, by rw [hstarted]; rfl, ?_⟩
    have hpresented := hresponds.presents.carried
    rw [hstarted] at hpresented
    obtain rfl := Option.some.inj hpresented
    exact payloadVersion_built _ _ _ _
  · exact absurd (hfailed.symm.trans hcarried.ack) (by decide)

/-- What both tables return for the peer after an exchange. Assumes: a carried exchange, X25519
agreement, and a working signing key at the second context. -/
theorem Carried.lookups (hcarried : x.Carried S) (hagree : S.KeyAgreement)
    (hsigns : S.SignsFor x.second.keys) :
    ∃ sk erased, x.secondEnv.drawn = some sk ∧
      S.cryptoScalarmult (Block.zero 32) (S.cryptoBoxPublic sk) = some erased ∧
      (x.atSecond S).complete = 1 ∧ (x.atFirst S).complete = 1 ∧
      (x.atFirst S).ctx.sessions.lookup x.second.keys.pk =
        (x.first.sessions.retained x.second.keys.pk).or
          (if x.first.sessions.HasRoom then some (x.firstFresh S erased) else none) ∧
      (x.atSecond S).ctx.sessions.lookup x.first.keys.pk =
        (x.second.sessions.retained x.first.keys.pk).or
          (if x.second.sessions.HasRoom then some (x.secondFresh S erased) else none) := by
  obtain ⟨payload, sk, dh, sig, hresponds, htype, hsender, hversion⟩ := hcarried.responds
  obtain ⟨erased, herased, -⟩ := hagree (Block.zero 32) sk
  have hverifies : S.cryptoSignVerifyDetached sig
      (ackSigned S x.secondVersion payload x.second.keys sk) x.second.keys.pk = true := by
    obtain ⟨sig', hsig', hverifies⟩ :=
      hsigns (ackSigned S x.secondVersion payload x.second.keys sk)
    obtain rfl : sig = sig' := Option.some.inj (hresponds.signs.symm.trans hsig')
    exact hverifies
  have hatSecond := koeHandshakeProcess_hello_eq hcarried.secondInit htype hresponds hverifies
    herased x.secondNow x.secondOut x.secondComplete
  rw [hsender] at hatSecond
  have hspoken : koeVersionCompatible x.secondVersion x.firstVersion = true :=
    hversion ▸ hresponds.presents.compatible
  have hcompatible : koeVersionCompatible x.firstVersion
      (respondVersion x.secondVersion payload) = true := by
    rw [respondVersion, hversion, koeVersionNegotiate_comm hspoken ⟨0, 0⟩ ⟨0, 0⟩]
    exact koeVersionCompatible_negotiate ((koeVersionCompatible_comm _ _).trans hspoken) ⟨0, 0⟩
  have hack : (ackPacket S x.secondVersion payload x.second.keys sk sig).Presents S x.firstVersion
      (ackSigned S x.secondVersion payload x.second.keys sk ++ sig.toList) :=
    handshakePacket_presents hcompatible hverifies .helloAck _ _
  have heph : S.cryptoScalarmult (Block.zero 32)
      (payloadEph (ackSigned S x.secondVersion payload x.second.keys sk ++ sig.toList)) =
        some erased := by
    rw [ackSigned, payloadEph_built]
    exact herased
  have hatFirst := koeHandshakeProcess_ack_eq hcarried.firstInit rfl hack heph x.firstEnv
    x.firstNow x.firstOut x.firstComplete
  rw [ackSigned, payloadIdentity_built] at hatFirst
  refine ⟨sk, erased, hresponds.drawn, herased, ?_, ?_, ?_, ?_⟩
  · rw [atSecond, hatSecond]
  · rw [atFirst, atSecond, hatSecond, hatFirst]
  · rw [atFirst, atSecond, hatSecond, hatFirst]
    exact koeSessionTableAdd_lookup x.firstNow x.second.keys.pk (x.firstFresh S erased)
  · rw [atSecond, hatSecond]
    exact koeSessionTableAdd_lookup x.secondNow x.first.keys.pk (x.secondFresh S erased)

/-- BLAKE2b gives no coincidences in the exchange: on the X25519 result of the erased secret, the
first half of the first context's digest is not the second half of the second context's, and
neither is a key of an older session that comes first in the other table. -/
structure NoCoincidence (S : Sodium) (x : Exchange) : Prop where
  halves : ∀ sk erased, x.secondEnv.drawn = some sk →
    S.cryptoScalarmult (Block.zero 32) (S.cryptoBoxPublic sk) = some erased →
    (x.firstFresh S erased).txKey ≠ (x.secondFresh S erased).rxKey
  olderFirst : ∀ sk erased older, x.secondEnv.drawn = some sk →
    S.cryptoScalarmult (Block.zero 32) (S.cryptoBoxPublic sk) = some erased →
    x.first.sessions.retained x.second.keys.pk = some older →
    older.txKey ≠ (x.secondFresh S erased).rxKey
  olderSecond : ∀ sk erased older, x.secondEnv.drawn = some sk →
    S.cryptoScalarmult (Block.zero 32) (S.cryptoBoxPublic sk) = some erased →
    x.second.sessions.retained x.first.keys.pk = some older →
    (x.firstFresh S erased).txKey ≠ older.rxKey

end Exchange

/-- Of two choices between an older and a new session, a mirrored pair can only be the older ones.
Assumes: no new session mirrors a session of the other side. -/
theorem exists_mirrored_or_iff {mine yours newMine newYours : Option Session}
    (hnew : ∀ a b, newMine = some a → newYours = some b → a.txKey ≠ b.rxKey)
    (hmine : ∀ a b, mine = some a → newYours = some b → a.txKey ≠ b.rxKey)
    (hyours : ∀ a b, newMine = some a → yours = some b → a.txKey ≠ b.rxKey) :
    (∃ a b, mine.or newMine = some a ∧ yours.or newYours = some b ∧ a.Mirrored b) ↔
      ∃ a b, mine = some a ∧ yours = some b ∧ a.Mirrored b := by
  constructor
  · rintro ⟨a, b, ha, hb, hmirrored⟩
    rcases Option.or_eq_some_iff.mp ha with ha | ⟨-, ha⟩
    · rcases Option.or_eq_some_iff.mp hb with hb | ⟨-, hb⟩
      · exact ⟨a, b, ha, hb, hmirrored⟩
      · exact absurd hmirrored.1 (hmine a b ha hb)
    · rcases Option.or_eq_some_iff.mp hb with hb | ⟨-, hb⟩
      · exact absurd hmirrored.1 (hyours a b ha hb)
      · exact absurd hmirrored.1 (hnew a b ha hb)
  · rintro ⟨a, b, rfl, rfl, hmirrored⟩
    exact ⟨a, b, rfl, rfl, hmirrored⟩

/-- An exchange completes on both sides, and leaves mirrored sessions exactly when older sessions
that mirror each other still come first in both tables. Assumes: a carried exchange, X25519
agreement, working signing keys, and no coincidences of BLAKE2b. -/
theorem koeHandshakeProcess_mirrored_iff {S : Sodium} {x : Exchange} (hcarried : x.Carried S)
    (hagree : S.KeyAgreement) (hsigns : S.SignsFor x.second.keys) (hfresh : x.NoCoincidence S) :
    (x.atSecond S).complete = 1 ∧ (x.atFirst S).complete = 1 ∧
      (HoldMirrored (x.atFirst S).ctx.sessions x.second.keys.pk (x.atSecond S).ctx.sessions
          x.first.keys.pk ↔
        ∃ mine yours, x.first.sessions.retained x.second.keys.pk = some mine ∧
          x.second.sessions.retained x.first.keys.pk = some yours ∧ mine.Mirrored yours) := by
  obtain ⟨sk, erased, hdrawn, herased, hsecond, hfirst, hmine, hyours⟩ :=
    hcarried.lookups hagree hsigns
  refine ⟨hsecond, hfirst, ?_⟩
  have hnewMine {a : Session} (ha : (if x.first.sessions.HasRoom then
      some (x.firstFresh S erased) else none) = some a) : a = x.firstFresh S erased := by
    split_ifs at ha
    exact (Option.some.inj ha).symm
  have hnewYours {b : Session} (hb : (if x.second.sessions.HasRoom then
      some (x.secondFresh S erased) else none) = some b) : b = x.secondFresh S erased := by
    split_ifs at hb
    exact (Option.some.inj hb).symm
  rw [HoldMirrored, hmine, hyours]
  refine exists_mirrored_or_iff ?_ ?_ ?_
  · intro a b ha hb
    rw [hnewMine ha, hnewYours hb]
    exact hfresh.halves sk erased hdrawn herased
  · intro a b ha hb
    rw [hnewYours hb]
    exact hfresh.olderFirst sk erased a hdrawn herased ha
  · intro a b ha hb
    rw [hnewMine ha]
    exact hfresh.olderSecond sk erased b hdrawn herased hb

/-- Two fresh contexts on the stand-in. -/
def transparentExchange : Exchange where
  first := transparentCtx 1
  second := transparentCtx 2
  firstVersion := koeVersionLocal
  secondVersion := koeVersionLocal
  startEnv := ⟨some transparentSecret, true⟩
  secondEnv := ⟨some transparentSecret, true⟩
  firstEnv := ⟨none, true⟩
  secondNow := 0
  firstNow := 0
  helloOut := Packet.zero
  secondOut := Packet.zero
  firstOut := Packet.zero
  secondComplete := 0
  firstComplete := 0

theorem transparentExchange_carried : transparentExchange.Carried Sodium.transparent where
  firstInit := rfl
  secondInit := rfl
  hello := by decide +kernel
  ack := by decide +kernel

theorem transparentCtx_retained (byte : UInt8) (peerPk : Block 32) :
    (transparentCtx byte).sessions.retained peerPk = none := by
  rw [SessionTable.retained, if_pos (transparentCtx_hasRoom byte)]
  change ((List.replicate koeMaxSessions SessionEntry.zero).takeWhile _ |>.find? _).map _ = none
  rw [koeMaxSessions, List.replicate_succ, List.takeWhile_cons_of_neg (by decide)]
  rfl

theorem transparentExchange_noCoincidence :
    transparentExchange.NoCoincidence Sodium.transparent where
  halves := by
    intro sk erased hdrawn herased
    obtain rfl := Option.some.inj hdrawn
    obtain rfl := Option.some.inj
      ((Sodium.transparent_scalarmult_point (Block.zero 32) transparentSecret).symm.trans herased)
    decide +kernel
  olderFirst := by
    intro sk erased older _ _ holder
    exact absurd ((transparentCtx_retained 1 _).symm.trans holder) (by simp)
  olderSecond := by
    intro sk erased older _ _ holder
    exact absurd ((transparentCtx_retained 2 _).symm.trans holder) (by simp)

/-- The equivalence on two fresh contexts, where no older session comes first. -/
theorem transparentExchange_iff :
    (transparentExchange.atSecond Sodium.transparent).complete = 1 ∧
      (HoldMirrored (transparentExchange.atFirst Sodium.transparent).ctx.sessions
          transparentExchange.second.keys.pk
          (transparentExchange.atSecond Sodium.transparent).ctx.sessions
          transparentExchange.first.keys.pk ↔
        ∃ mine yours, transparentExchange.first.sessions.retained
            transparentExchange.second.keys.pk = some mine ∧
          transparentExchange.second.sessions.retained
            transparentExchange.first.keys.pk = some yours ∧ mine.Mirrored yours) := by
  have hmirrored := koeHandshakeProcess_mirrored_iff transparentExchange_carried
    Sodium.transparent_keyAgreement (Sodium.transparentIdentity_signsFor 2)
    transparentExchange_noCoincidence
  exact ⟨hmirrored.1, hmirrored.2.2⟩

/-- Two fresh contexts complete an undisturbed exchange, both hold a session for the other, and the
first sends under a key that the second does not receive under. -/
theorem transparentExchange_not_mirrored :
    (transparentExchange.atSecond Sodium.transparent).complete = 1 ∧
      (transparentExchange.atFirst Sodium.transparent).complete = 1 ∧
      ∃ mine yours, (transparentExchange.atFirst Sodium.transparent).ctx.sessions.lookup
          transparentExchange.second.keys.pk = some mine ∧
        (transparentExchange.atSecond Sodium.transparent).ctx.sessions.lookup
          transparentExchange.first.keys.pk = some yours ∧
        mine.txKey ≠ yours.rxKey := by
  obtain ⟨sk, erased, hdrawn, herased, hsecond, hfirst, hmine, hyours⟩ :=
    transparentExchange_carried.lookups Sodium.transparent_keyAgreement
      (Sodium.transparentIdentity_signsFor 2)
  refine ⟨hsecond, hfirst, _, _, hmine.trans ?_, hyours.trans ?_,
    transparentExchange_noCoincidence.halves sk erased hdrawn herased⟩
  · rw [show transparentExchange.first = transparentCtx 1 from rfl, transparentCtx_retained,
      if_pos (transparentCtx_hasRoom 1)]
    rfl
  · rw [show transparentExchange.second = transparentCtx 2 from rfl, transparentCtx_retained,
      if_pos (transparentCtx_hasRoom 2)]
    rfl

end KoeCore
