import KoeCore.Protocol.Crypto
import KoeCore.Protocol.Packet

/-!
# The handshake functions

`koe_handshake.c`: `koeHandshakeInit` at the initiator, `koeHandshakeRespond` at the responder and
`koeHandshakeFinalise` back at the initiator, on a handshake record that the caller owns. The
protocol version of a build is a parameter of each, so that two sides may run different builds.

All three functions leave traces on their error branches: `koe_handshake_respond` clears the record
first and may leave a drawn secret in it, and `koe_handshake_finalise` stores the negotiated version
before it checks the signature. Each is therefore a function to the return code together with the
record and the output packet after the call.

A HELLO and a HELLO_ACK have the same payload, the version, an ephemeral key, an identity key and a
signature over these 66 bytes. The C code trusts `header.length` for the size of the payload; a
payload with fewer bytes than its header announces, which the codec never builds, is read here as
if zero bytes followed. `Packet.Presents` says that a packet passes the checks that both
receiving functions make on it, and a packet built by one side presents what was put into it
(`handshakePacket_presents`). `koeHandshakeFinalise_eq` and `koeHandshakeRespond_eq` are what the
functions return when every check passes; `koeHandshakeFinalise_eq_zero_iff` and
`koeHandshakeRespond_cases` say what they do otherwise.
-/

set_option autoImplicit false
set_option relaxedAutoImplicit false

namespace KoeCore

open ByteWire

/-- `koe_handshake_state_t`. -/
inductive HandshakeState
  | idle | sentHello | complete | failed
deriving DecidableEq, Repr

/-- `koe_handshake_t`. -/
structure Handshake where
  state : HandshakeState
  localEph : Ephemeral
  remotePk : Block 32
  session : Session
  negotiatedVersion : Version
deriving DecidableEq

/-- The record that `memset(hs, 0, sizeof(*hs))` leaves. -/
def Handshake.zero : Handshake where
  state := .idle
  localEph := Ephemeral.zero
  remotePk := Block.zero 32
  session := Session.zero
  negotiatedVersion := ⟨0, 0⟩

/-- What a handshake function takes from its environment: the secret that the generator draws, or
`none` when it fails, and whether `malloc` succeeds. -/
structure HandshakeEnv where
  drawn : Option (Block 32)
  alloc : Bool

/-! ### Payloads -/

/-- `HELLO_PAYLOAD`. -/
def helloPayload : ℕ := 130

/-- The signed bytes of a payload: version, ephemeral key and identity key. -/
def signedPart (version : Version) (ephPk idPk : Block 32) : List UInt8 :=
  [version.major, version.minor] ++ ephPk.toList ++ idPk.toList

/-- The version that a received payload names. -/
def payloadVersion (payload : List UInt8) : Version := ⟨byteAt 0 payload, byteAt 1 payload⟩

/-- The ephemeral key that a received payload names. -/
def payloadEph (payload : List UInt8) : Block 32 := readAt 32 2 payload

/-- The identity key that a received payload names. -/
def payloadIdentity (payload : List UInt8) : Block 32 := readAt 32 34 payload

/-- The signature of a received payload. -/
def payloadSig (payload : List UInt8) : Block 64 := readAt 64 66 payload

/-- The bytes that the signature of a received payload is checked against. -/
def payloadSigned (payload : List UInt8) : List UInt8 := (readAt 66 0 payload).toList

/-- The packet that carries a handshake payload. -/
def handshakePacket (type : PacketType) (fromPk toPk : Block 32) (payload : List UInt8) :
    Packet where
  header :=
    let header :=
      { (koePacketInit type.code PacketFlag.signed.mask).header with
        length := UInt32.ofNat helloPayload
        fromPk := fromPk
        toPk := toPk }
    { header with checksum := koePacketChecksum header }
  payload := some payload

/-! ### The three functions -/

section Functions

variable (S : Sodium) (version : Version)

/-- The return code, and the record and the output packet after the call. -/
def koeHandshakeInit (env : HandshakeEnv) (helloOut : Packet) (localId : Identity)
    (remotePk : Block 32) : ℤ × Handshake × Packet :=
  let hs := { Handshake.zero with remotePk := remotePk }
  let generated := koeEphemeralGenerate S env.drawn hs.localEph
  let hs := { hs with localEph := generated.2 }
  if generated.1 ≠ 0 then (-1, hs, helloOut)
  else if !env.alloc then (-1, hs, helloOut)
  else
    let signed := signedPart version hs.localEph.pk localId.pk
    match koeSign S signed localId with
    | none => (-1, hs, helloOut)
    | some sig =>
      (0, { hs with state := .sentHello },
        handshakePacket .hello localId.pk remotePk (signed ++ sig.toList))

/-- The return code, and the record and the output packet after the call. -/
def koeHandshakeRespond (env : HandshakeEnv) (ackOut hello : Packet) (localId : Identity) :
    ℤ × Handshake × Packet :=
  let hs := Handshake.zero
  match hello.payload with
  | none => (-1, hs, ackOut)
  | some payload =>
    if hello.header.length.toNat < helloPayload then (-1, hs, ackOut)
    else
      let negotiated := koeVersionNegotiate version (payloadVersion payload) hs.negotiatedVersion
      let hs := { hs with negotiatedVersion := negotiated.2 }
      let remoteIdPk := payloadIdentity payload
      if negotiated.1 ≠ 0 then (-1, hs, ackOut)
      else if koeVerify S (payloadSig payload) (payloadSigned payload) remoteIdPk ≠ 0 then
        (-1, hs, ackOut)
      else
        let hs := { hs with remotePk := remoteIdPk }
        let generated := koeEphemeralGenerate S env.drawn hs.localEph
        let hs := { hs with localEph := generated.2 }
        if generated.1 ≠ 0 then (-1, hs, ackOut)
        else
          let derived := koeSessionDerive S hs.session hs.localEph (payloadEph payload) localId
            remoteIdPk false
          let hs := { hs with session := derived.2.1, localEph := derived.2.2 }
          if derived.1 ≠ 0 then (-1, hs, ackOut)
          else if !env.alloc then (-1, hs, ackOut)
          else
            let signed := signedPart hs.negotiatedVersion hs.localEph.pk localId.pk
            match koeSign S signed localId with
            | none => (-1, hs, ackOut)
            | some sig =>
              (0, { hs with state := .complete },
                handshakePacket .helloAck localId.pk remoteIdPk (signed ++ sig.toList))

/-- The return code, and the record after the call. -/
def koeHandshakeFinalise (hs : Handshake) (ack : Packet) (localId : Identity) : ℤ × Handshake :=
  match ack.payload with
  | none => (-1, hs)
  | some payload =>
    if ack.header.length.toNat < helloPayload then (-1, hs)
    else
      let negotiated := koeVersionNegotiate version (payloadVersion payload) hs.negotiatedVersion
      let hs := { hs with negotiatedVersion := negotiated.2 }
      let remoteIdPk := payloadIdentity payload
      if negotiated.1 ≠ 0 then (-1, hs)
      else if koeVerify S (payloadSig payload) (payloadSigned payload) remoteIdPk ≠ 0 then (-1, hs)
      else
        let derived := koeSessionDerive S hs.session hs.localEph (payloadEph payload) localId
          remoteIdPk true
        let hs := { hs with session := derived.2.1, localEph := derived.2.2 }
        if derived.1 ≠ 0 then (-1, hs) else (0, { hs with state := .complete })

end Functions

/-! ### What a received packet must present -/

/-- The packet carries the payload, announces at least 130 bytes, names a compatible version and is
signed by the identity that it names: the checks that the responder makes on a HELLO and the
initiator on a HELLO_ACK. -/
structure Packet.Presents (S : Sodium) (version : Version) (pkt : Packet)
    (payload : List UInt8) : Prop where
  carried : pkt.payload = some payload
  announced : helloPayload ≤ pkt.header.length.toNat
  compatible : koeVersionCompatible version (payloadVersion payload) = true
  signed : S.cryptoSignVerifyDetached (payloadSig payload) (payloadSigned payload)
    (payloadIdentity payload) = true

/-- The packet passes every check of `koe_handshake_finalise` on a record with the given ephemeral
secret, X25519 included. -/
def Packet.AckPasses (S : Sodium) (version : Version) (secret : Block 32) (pkt : Packet) : Prop :=
  ∃ payload, pkt.Presents S version payload ∧
    (S.cryptoScalarmult secret (payloadEph payload)).isSome = true

/-- The payload of a packet that passes the checks of `Packet.Presents`. -/
def Packet.presented (S : Sodium) (version : Version) (pkt : Packet) : Option (List UInt8) :=
  match pkt.payload with
  | none => none
  | some payload =>
    if helloPayload ≤ pkt.header.length.toNat ∧
        koeVersionCompatible version (payloadVersion payload) = true ∧
        S.cryptoSignVerifyDetached (payloadSig payload) (payloadSigned payload)
          (payloadIdentity payload) = true then
      some payload
    else none

/-- The ephemeral secret in the record of a `koe_handshake_respond` that fails: the drawn one when
X25519 refuses it with the key of the HELLO, and zero bytes in every other case. -/
def leftoverSecret (S : Sodium) (version : Version) (env : HandshakeEnv) (hello : Packet) :
    Block 32 :=
  match hello.presented S version, env.drawn with
  | some payload, some sk =>
    if (S.cryptoScalarmult sk (payloadEph payload)).isSome then Block.zero 32 else sk
  | _, _ => Block.zero 32

section Built

variable (built : Version) (ephPk idPk : Block 32) (sig : Block 64)

theorem payloadVersion_built :
    payloadVersion (signedPart built ephPk idPk ++ sig.toList) = built := rfl

theorem payloadEph_built : payloadEph (signedPart built ephPk idPk ++ sig.toList) = ephPk :=
  readAt_of_eq [built.major, built.minor] _
    (by simp only [signedPart, List.append_assoc]; rfl) rfl

theorem payloadIdentity_built :
    payloadIdentity (signedPart built ephPk idPk ++ sig.toList) = idPk :=
  readAt_of_eq ([built.major, built.minor] ++ ephPk.toList) _
    (by simp only [signedPart, List.append_assoc]; rfl) (by simp)

theorem payloadSig_built : payloadSig (signedPart built ephPk idPk ++ sig.toList) = sig :=
  readAt_of_eq (signedPart built ephPk idPk) _ (by rw [List.append_nil]) (by simp [signedPart])

theorem payloadSigned_built :
    payloadSigned (signedPart built ephPk idPk ++ sig.toList) = signedPart built ephPk idPk := by
  have hlength : (signedPart built ephPk idPk).length = 66 := by simp [signedPart]
  rw [payloadSigned, readAt, List.drop_zero, toList_clip (by simp [hlength])]
  rw [← hlength, List.take_left]

end Built

/-- What one side built, the other side accepts. Assumes: compatible versions and a signature that
verifies. -/
theorem handshakePacket_presents {S : Sodium} {version built : Version} {idPk : Block 32}
    {ephPk : Block 32} {sig : Block 64} (hcompatible : koeVersionCompatible version built = true)
    (hsig : S.cryptoSignVerifyDetached sig (signedPart built ephPk idPk) idPk = true)
    (type : PacketType) (fromPk toPk : Block 32) :
    (handshakePacket type fromPk toPk (signedPart built ephPk idPk ++ sig.toList)).Presents S
      version (signedPart built ephPk idPk ++ sig.toList) where
  carried := rfl
  announced := by
    change helloPayload ≤ (UInt32.ofNat helloPayload).toNat
    decide
  compatible := hcompatible
  signed := by
    rw [payloadSig_built, payloadSigned_built, payloadIdentity_built]
    exact hsig

section Specs

variable {S : Sodium} {version : Version}

/-- The record after `koe_handshake_init` has drawn a secret and built the HELLO. -/
def Handshake.started (S : Sodium) (remotePk sk : Block 32) : Handshake where
  state := .sentHello
  localEph := ⟨S.cryptoBoxPublic sk, sk⟩
  remotePk := remotePk
  session := Session.zero
  negotiatedVersion := ⟨0, 0⟩

/-- The initiator's first step. Assumes: a drawn secret, memory, and a signature. -/
theorem koeHandshakeInit_eq {env : HandshakeEnv} {localId : Identity} {sk : Block 32}
    {sig : Block 64} (hdrawn : env.drawn = some sk) (halloc : env.alloc = true)
    (hsig : koeSign S (signedPart version (S.cryptoBoxPublic sk) localId.pk) localId = some sig)
    (helloOut : Packet) (remotePk : Block 32) :
    koeHandshakeInit S version env helloOut localId remotePk =
      (0, Handshake.started S remotePk sk,
        handshakePacket .hello localId.pk remotePk
          (signedPart version (S.cryptoBoxPublic sk) localId.pk ++ sig.toList)) := by
  simp [koeHandshakeInit, koeEphemeralGenerate, hdrawn, halloc, hsig, Handshake.started,
    Handshake.zero]

/-- The initiator's first step succeeds only with a drawn secret, memory and a signature. Assumes:
a return code other than -1. -/
theorem koeHandshakeInit_inv {env : HandshakeEnv} {helloOut : Packet} {localId : Identity}
    {remotePk : Block 32} (hrc : 0 ≤ (koeHandshakeInit S version env helloOut localId remotePk).1) :
    ∃ sk sig, env.drawn = some sk ∧ env.alloc = true ∧
      koeSign S (signedPart version (S.cryptoBoxPublic sk) localId.pk) localId = some sig := by
  rcases hdrawn : env.drawn with _ | sk
  · simp [koeHandshakeInit, koeEphemeralGenerate, hdrawn] at hrc
  rcases halloc : env.alloc with _ | _
  · simp [koeHandshakeInit, koeEphemeralGenerate, hdrawn, halloc] at hrc
  rcases hsig : koeSign S (signedPart version (S.cryptoBoxPublic sk) localId.pk) localId
    with _ | sig
  · simp [koeHandshakeInit, koeEphemeralGenerate, hdrawn, halloc, hsig] at hrc
  · exact ⟨sk, sig, rfl, rfl, hsig⟩

/-- The record after `koe_handshake_finalise` has accepted a payload. -/
def Handshake.finalised (S : Sodium) (version : Version) (hs : Handshake) (payload : List UInt8)
    (localId : Identity) (dh : Block 32) : Handshake where
  state := .complete
  localEph := { hs.localEph with sk := Block.zero 32 }
  remotePk := hs.remotePk
  session := sessionOf true (sessionDigest S dh localId.pk (payloadIdentity payload))
  negotiatedVersion :=
    (koeVersionNegotiate version (payloadVersion payload) hs.negotiatedVersion).2

/-- The initiator's last step. Assumes: a packet that passes the checks, and the X25519 secret. -/
theorem koeHandshakeFinalise_eq {ack : Packet} {payload : List UInt8}
    (hack : ack.Presents S version payload) {hs : Handshake} {dh : Block 32}
    (hdh : S.cryptoScalarmult hs.localEph.sk (payloadEph payload) = some dh)
    (localId : Identity) :
    koeHandshakeFinalise S version hs ack localId =
      (0, hs.finalised S version payload localId dh) := by
  have hlength : ¬ ack.header.length.toNat < helloPayload := Nat.not_lt.mpr hack.announced
  have hnegotiated := (koeVersionNegotiate_eq_zero_iff version (payloadVersion payload)
    hs.negotiatedVersion).mpr hack.compatible
  have hverified := (koeVerify_eq_zero_iff S _ _ _).mpr hack.signed
  simp [koeHandshakeFinalise, hack.carried, hlength, hnegotiated, hverified,
    koeSessionDerive_initiator hdh, Handshake.finalised]

/-- The initiator's last step on a packet that passes every check. Assumes: such a packet. -/
theorem koeHandshakeFinalise_accepted {hs : Handshake} {ack : Packet}
    (hack : ack.AckPasses S version hs.localEph.sk) (localId : Identity) :
    ∃ payload dh, koeHandshakeFinalise S version hs ack localId =
      (0, hs.finalised S version payload localId dh) := by
  obtain ⟨payload, hpresents, hsome⟩ := hack
  obtain ⟨dh, hdh⟩ := Option.isSome_iff_exists.mp hsome
  exact ⟨payload, dh, koeHandshakeFinalise_eq hpresents hdh localId⟩

/-- The initiator's last step returns 0 only on a packet that passes the checks, with an X25519
secret. -/
theorem koeHandshakeFinalise_eq_zero_iff (hs : Handshake) (ack : Packet) (localId : Identity) :
    (koeHandshakeFinalise S version hs ack localId).1 = 0 ↔
      ack.AckPasses S version hs.localEph.sk := by
  constructor
  · intro hrc
    unfold koeHandshakeFinalise at hrc
    split at hrc
    · simp at hrc
    · rename_i payload hpayload
      refine ⟨payload, ?_⟩
      simp only at hrc
      split_ifs at hrc with hlength hnegotiated hverified hderived
      · simp at hrc
      · simp at hrc
      · simp at hrc
      · simp at hrc
      · rw [not_not] at hnegotiated hverified hderived
        exact ⟨⟨hpayload, Nat.not_lt.mp hlength,
          (koeVersionNegotiate_eq_zero_iff _ _ _).mp hnegotiated,
          (koeVerify_eq_zero_iff _ _ _ _).mp hverified⟩,
          (koeSessionDerive_eq_zero_iff _ _ _ _ _ _ _).mp hderived⟩
  · intro hack
    obtain ⟨payload, dh, heq⟩ := koeHandshakeFinalise_accepted hack localId
    rw [heq]

/-- The version in a record after the version check of `koe_handshake_finalise`. -/
def Packet.negotiated (version : Version) (pkt : Packet) (before : Version) : Version :=
  match pkt.payload with
  | none => before
  | some payload =>
    if pkt.header.length.toNat < helloPayload then before
    else (koeVersionNegotiate version (payloadVersion payload) before).2

/-- A rejected packet may leave its version in the record, and nothing else. Assumes: a packet that
fails a check. -/
theorem koeHandshakeFinalise_rejected {hs : Handshake} {ack : Packet}
    (hack : ¬ ack.AckPasses S version hs.localEph.sk) (localId : Identity) :
    koeHandshakeFinalise S version hs ack localId =
      (-1, { hs with negotiatedVersion := ack.negotiated version hs.negotiatedVersion }) := by
  have hrc := mt (koeHandshakeFinalise_eq_zero_iff hs ack localId).mp hack
  rcases hcarried : ack.payload with _ | payload
  · simp [koeHandshakeFinalise, Packet.negotiated, hcarried]
  by_cases hlength : ack.header.length.toNat < helloPayload
  · simp [koeHandshakeFinalise, Packet.negotiated, hcarried, hlength]
  by_cases hnegotiated :
      (koeVersionNegotiate version (payloadVersion payload) hs.negotiatedVersion).1 = 0
  swap
  · simp [koeHandshakeFinalise, Packet.negotiated, hcarried, hlength, hnegotiated]
  by_cases hverified : koeVerify S (payloadSig payload) (payloadSigned payload)
      (payloadIdentity payload) = 0
  swap
  · simp [koeHandshakeFinalise, Packet.negotiated, hcarried, hlength, hnegotiated, hverified]
  rcases hdh : S.cryptoScalarmult hs.localEph.sk (payloadEph payload) with _ | dh
  · simp [koeHandshakeFinalise, Packet.negotiated, hcarried, hlength, hnegotiated, hverified,
      koeSessionDerive, hdh]
  · simp [koeHandshakeFinalise, hcarried, hlength, hnegotiated, hverified, koeSessionDerive,
      hdh] at hrc

/-- The version that a responder settles on for a payload. -/
def respondVersion (version : Version) (payload : List UInt8) : Version :=
  (koeVersionNegotiate version (payloadVersion payload) ⟨0, 0⟩).2

/-- The bytes that a responder signs. -/
def ackSigned (S : Sodium) (version : Version) (payload : List UInt8) (localId : Identity)
    (sk : Block 32) : List UInt8 :=
  signedPart (respondVersion version payload) (S.cryptoBoxPublic sk) localId.pk

/-- The record after `koe_handshake_respond` has accepted a payload. -/
def Handshake.responded (S : Sodium) (version : Version) (payload : List UInt8)
    (localId : Identity) (sk dh : Block 32) : Handshake where
  state := .complete
  localEph := ⟨S.cryptoBoxPublic sk, Block.zero 32⟩
  remotePk := payloadIdentity payload
  session := sessionOf false (sessionDigest S dh (payloadIdentity payload) localId.pk)
  negotiatedVersion := respondVersion version payload

/-- Everything that has to go well for `koe_handshake_respond` to return 0: the HELLO passes the
checks, a secret is drawn, X25519 and `malloc` succeed, and the answer is signed. -/
structure Responds (S : Sodium) (version : Version) (env : HandshakeEnv) (hello : Packet)
    (localId : Identity) (payload : List UInt8) (sk dh : Block 32) (sig : Block 64) : Prop where
  presents : hello.Presents S version payload
  drawn : env.drawn = some sk
  agreed : S.cryptoScalarmult sk (payloadEph payload) = some dh
  alloc : env.alloc = true
  signs : koeSign S (ackSigned S version payload localId sk) localId = some sig

/-- The responder's step. Assumes: everything goes well. -/
theorem koeHandshakeRespond_eq {env : HandshakeEnv} {hello : Packet} {localId : Identity}
    {payload : List UInt8} {sk dh : Block 32} {sig : Block 64}
    (h : Responds S version env hello localId payload sk dh sig) (ackOut : Packet) :
    koeHandshakeRespond S version env ackOut hello localId =
      (0, Handshake.responded S version payload localId sk dh,
        handshakePacket .helloAck localId.pk (payloadIdentity payload)
          (ackSigned S version payload localId sk ++ sig.toList)) := by
  have hlength : ¬ hello.header.length.toNat < helloPayload :=
    Nat.not_lt.mpr h.presents.announced
  have hnegotiated := (koeVersionNegotiate_eq_zero_iff version (payloadVersion payload)
    ⟨0, 0⟩).mpr h.presents.compatible
  have hverified := (koeVerify_eq_zero_iff S _ _ _).mpr h.presents.signed
  have hsigns := h.signs
  unfold ackSigned respondVersion at hsigns
  have hagreed : S.cryptoScalarmult
      (Ephemeral.mk (S.cryptoBoxPublic sk) sk).sk (payloadEph payload) = some dh := h.agreed
  simp [koeHandshakeRespond, h.presents.carried, hlength, Handshake.zero, hnegotiated, hverified,
    koeEphemeralGenerate, h.drawn, koeSessionDerive_responder hagreed, h.alloc, hsigns,
    Handshake.responded, ackSigned, respondVersion]

/-- The responder's step returns 0 with everything gone well, or returns -1, leaves the output
packet alone and leaves `leftoverSecret` in the record. -/
theorem koeHandshakeRespond_cases (env : HandshakeEnv) (ackOut hello : Packet)
    (localId : Identity) :
    (∃ payload sk dh sig, Responds S version env hello localId payload sk dh sig) ∨
      ((koeHandshakeRespond S version env ackOut hello localId).1 = -1 ∧
        (koeHandshakeRespond S version env ackOut hello localId).2.1.localEph.sk =
          leftoverSecret S version env hello ∧
        (koeHandshakeRespond S version env ackOut hello localId).2.2 = ackOut) := by
  rcases hcarried : hello.payload with _ | payload
  · right
    simp [koeHandshakeRespond, hcarried, leftoverSecret, Packet.presented, Handshake.zero,
      Ephemeral.zero]
  by_cases hlength : hello.header.length.toNat < helloPayload
  · right
    simp [koeHandshakeRespond, hcarried, hlength, leftoverSecret, Packet.presented,
      Nat.not_le.mpr hlength, Handshake.zero, Ephemeral.zero]
  by_cases hcompatible : koeVersionCompatible version (payloadVersion payload) = true
  swap
  · right
    have hnegotiated := mt (koeVersionNegotiate_eq_zero_iff version (payloadVersion payload)
      ⟨0, 0⟩).mp hcompatible
    simp [koeHandshakeRespond, hcarried, hlength, hnegotiated, hcompatible, leftoverSecret,
      Packet.presented, Handshake.zero, Ephemeral.zero]
  have hnegotiated := (koeVersionNegotiate_eq_zero_iff version (payloadVersion payload)
    ⟨0, 0⟩).mpr hcompatible
  by_cases hsigned : S.cryptoSignVerifyDetached (payloadSig payload) (payloadSigned payload)
      (payloadIdentity payload) = true
  swap
  · right
    have hverified := mt (koeVerify_eq_zero_iff S _ _ _).mp hsigned
    simp [koeHandshakeRespond, hcarried, hlength, hnegotiated, hverified, hsigned, leftoverSecret,
      Packet.presented, Handshake.zero, Ephemeral.zero]
  have hverified := (koeVerify_eq_zero_iff S _ _ _).mpr hsigned
  have hpresents : hello.Presents S version payload :=
    ⟨hcarried, Nat.not_lt.mp hlength, hcompatible, hsigned⟩
  have hpresented : hello.presented S version = some payload := by
    simp [Packet.presented, hcarried, Nat.not_lt.mp hlength, hcompatible, hsigned]
  rcases hdrawn : env.drawn with _ | sk
  · right
    simp [koeHandshakeRespond, hcarried, hlength, hnegotiated, hverified, hdrawn, leftoverSecret,
      hpresented, koeEphemeralGenerate, Handshake.zero, Ephemeral.zero]
  rcases hagreed : S.cryptoScalarmult sk (payloadEph payload) with _ | dh
  · right
    simp [koeHandshakeRespond, hcarried, hlength, hnegotiated, hverified, hdrawn, hagreed,
      leftoverSecret, hpresented, koeEphemeralGenerate, koeSessionDerive, Handshake.zero]
  rcases halloc : env.alloc with _ | _
  · right
    simp [koeHandshakeRespond, hcarried, hlength, hnegotiated, hverified, hdrawn, hagreed, halloc,
      leftoverSecret, hpresented, koeEphemeralGenerate, koeSessionDerive, Handshake.zero]
  rcases hsigns : koeSign S (ackSigned S version payload localId sk) localId with _ | sig
  · right
    unfold ackSigned respondVersion at hsigns
    simp [koeHandshakeRespond, hcarried, hlength, hnegotiated, hverified, hdrawn, hagreed, halloc,
      leftoverSecret, hpresented, koeEphemeralGenerate, koeSessionDerive, Handshake.zero, hsigns]
  · left
    exact ⟨payload, sk, dh, sig, hpresents, hdrawn, hagreed, halloc, hsigns⟩

end Specs

end KoeCore
