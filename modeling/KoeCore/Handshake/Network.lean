import KoeCore.Handshake.Agreement
import KoeCore.Library.Runs

/-!
# Handshakes over a network

Any number of handshake runs between honest parties, in any interleaving. `Network` holds the runs
of both roles with their records, and the packets on the network are those that the runs sent
(`Network.sent`). A step starts a run, lets a party respond to a packet, or gives a packet to a run
of an initiator; the network may hold packets back, reorder and repeat them, and take them to the
wrong run, and it cannot make packets of its own.

`Network.Agreed` is the agreement that the handshake is for: a run of an initiator that is complete
through a packet naming its peer has its counterpart, a complete run of the peer on this very HELLO,
with mirrored keys. A HELLO_ACK does not say which HELLO it answers, and `koe_handshake_finalise`
does not ask, so two runs with one peer can be crossed (`crossedAck_disagrees`). When each packet
that completes a run comes from a run on its HELLO and the run was not complete before
(`Network.Matched`), agreement holds in every state (`koeHandshake_network_agreed`).
-/

set_option autoImplicit false
set_option relaxedAutoImplicit false

namespace KoeCore

open ByteWire

/-- A run of `koe_handshake_init` with the packet that last completed it. -/
structure InitiatorRun where
  owner : Identity
  peer : Block 32
  hello : Packet
  record : Handshake
  via : Option Packet

/-- A run of `koe_handshake_respond`. -/
structure ResponderRun where
  owner : Identity
  hello : Packet
  record : Handshake
  ack : Packet

/-- The runs so far. -/
structure Network where
  initiators : List InitiatorRun
  responders : List ResponderRun

/-- A step of a party, with the packet that the network delivers to it. -/
inductive NetworkCall
  | start (owner : Identity) (peer : Block 32) (env : HandshakeEnv)
  | respond (owner : Identity) (hello : Packet) (env : HandshakeEnv)
  | finalise (index : ℕ) (ack : Packet)

namespace Network

def empty : Network := ⟨[], []⟩

/-- The packets that the network can deliver. -/
def sent (net : Network) : List Packet :=
  net.initiators.map InitiatorRun.hello ++ net.responders.map ResponderRun.ack

end Network

section Steps

variable (S : Sodium) (builds : Identity → Version)

/-- The run after a packet. -/
def InitiatorRun.finalise (run : InitiatorRun) (ack : Packet) : InitiatorRun :=
  let finalised := koeHandshakeFinalise S (builds run.owner) run.record ack run.owner
  { run with record := finalised.2, via := if finalised.1 = 0 then some ack else run.via }

namespace Network

/-- A call that fails leaves no run, and a packet that nobody sent is not delivered. -/
def step (net : Network) : NetworkCall → Network
  | .start owner peer env =>
    let started := koeHandshakeInit S (builds owner) env Packet.zero owner peer
    if started.1 = 0 then
      { net with
        initiators := net.initiators ++ [⟨owner, peer, started.2.2, started.2.1, none⟩] }
    else net
  | .respond owner hello env =>
    if hello ∈ net.sent then
      let responded := koeHandshakeRespond S (builds owner) env Packet.zero hello owner
      if responded.1 = 0 then
        { net with
          responders := net.responders ++ [⟨owner, hello, responded.2.1, responded.2.2⟩] }
      else net
    else net
  | .finalise index ack =>
    match net.initiators[index]? with
    | none => net
    | some run =>
      if ack ∈ net.sent then
        { net with initiators := net.initiators.set index (run.finalise S builds ack) }
      else net

/-- A packet that completes a run and names its peer was sent by a run on the HELLO of this run,
which was not complete before. -/
def Matched (net : Network) : NetworkCall → Prop
  | .finalise index ack =>
    ∀ run, net.initiators[index]? = some run → ack ∈ net.sent →
      ack.AckPasses S (builds run.owner) run.record.localEph.sk → ack.namedIdentity = run.peer →
      run.record.state ≠ .complete ∧
        ∃ other ∈ net.responders, other.ack = ack ∧ other.hello = run.hello
  | _ => True

end Network

end Steps

/-- The counterpart of a run: a complete run of its peer on its HELLO, with mirrored keys. -/
def InitiatorRun.Agrees (run : InitiatorRun) (responders : List ResponderRun) : Prop :=
  run.record.state = .complete → ∀ ack, run.via = some ack → ack.namedIdentity = run.peer →
    ∃ other ∈ responders, other.owner.pk = run.peer ∧ other.hello = run.hello ∧
      other.record.state = .complete ∧ run.record.session.Mirrored other.record.session

/-- Every run has its counterpart. -/
def Network.Agreed (net : Network) : Prop := ∀ run ∈ net.initiators, run.Agrees net.responders

/-! ### What the runs hold -/

/-- The HELLO carries the public key of a secret that the record holds until it is complete. -/
def InitiatorRun.Sound (S : Sodium) (run : InitiatorRun) : Prop :=
  ∃ (version : Version) (sk : Block 32) (sig : Block 64),
    run.hello = handshakePacket .hello run.owner.pk run.peer
      (signedPart version (S.cryptoBoxPublic sk) run.owner.pk ++ sig.toList) ∧
    (run.record.state ≠ .complete → run.record.localEph.sk = sk)

/-- The record and the HELLO_ACK are those of a successful response to the HELLO. -/
def ResponderRun.Sound (S : Sodium) (run : ResponderRun) : Prop :=
  ∃ version env payload sk dh sig, Responds S version env run.hello run.owner payload sk dh sig ∧
    run.record = Handshake.responded S version payload run.owner sk dh ∧
    run.ack = handshakePacket .helloAck run.owner.pk (payloadIdentity payload)
      (ackSigned S version payload run.owner sk ++ sig.toList)

/-- The invariant of the network. -/
structure Network.Inv (S : Sodium) (net : Network) : Prop where
  initiators : ∀ run ∈ net.initiators, run.Sound S
  responders : ∀ run ∈ net.responders, run.Sound S
  agreed : net.Agreed

section Runs

variable {S : Sodium} {builds : Identity → Version} {run : InitiatorRun} {ack : Packet}

/-- Assumes: a packet that fails a check. -/
theorem InitiatorRun.finalise_rejected
    (hack : ¬ ack.AckPasses S (builds run.owner) run.record.localEph.sk) :
    run.finalise S builds ack =
      { run with
        record := { run.record with
          negotiatedVersion :=
            ack.negotiated (builds run.owner) run.record.negotiatedVersion } } := by
  simp only [InitiatorRun.finalise, koeHandshakeFinalise_rejected hack]
  rfl

/-- Assumes: a packet that passes the checks. -/
theorem InitiatorRun.finalise_accepted
    (hack : ack.AckPasses S (builds run.owner) run.record.localEph.sk) :
    (run.finalise S builds ack).record.state = .complete ∧
      (run.finalise S builds ack).via = some ack := by
  obtain ⟨payload, dh, heq⟩ := koeHandshakeFinalise_accepted hack run.owner
  simp only [InitiatorRun.finalise, heq]
  exact ⟨rfl, rfl⟩

/-- The packet of a run on the same HELLO completes the run with mirrored keys. Assumes: X25519
agreement, two sound runs on one HELLO of which the first is not complete, and that the packet of
the second passes the checks of the first. -/
theorem InitiatorRun.finalise_mirrored (hagree : S.KeyAgreement) (hrun : run.Sound S)
    (hopen : run.record.state ≠ .complete) {other : ResponderRun} (hother : other.Sound S)
    (hhello : other.hello = run.hello)
    (hack : other.ack.AckPasses S (builds run.owner) run.record.localEph.sk) :
    other.ack.namedIdentity = other.owner.pk ∧ other.record.state = .complete ∧
      (run.finalise S builds other.ack).record.session.Mirrored other.record.session := by
  obtain ⟨version, sk, sig, hcarries, hsecret⟩ := hrun
  obtain ⟨version', env, payload, sk', dh', sig', hresponds, hrecord, hanswer⟩ := hother
  obtain ⟨ackPayload, hpresents, -⟩ := hack
  -- Both payloads are the ones that were built.
  obtain rfl : payload = signedPart version (S.cryptoBoxPublic sk) run.owner.pk ++ sig.toList := by
    have hcarried := hresponds.presents.carried
    rw [hhello, hcarries] at hcarried
    exact (Option.some.inj hcarried).symm
  obtain rfl : ackPayload = ackSigned S version'
      (signedPart version (S.cryptoBoxPublic sk) run.owner.pk ++ sig.toList) other.owner sk' ++
        sig'.toList := by
    have hcarried := hpresents.carried
    rw [hanswer] at hcarried
    exact (Option.some.inj hcarried).symm
  have hnamed : other.ack.namedIdentity = other.owner.pk := by
    rw [hanswer]
    exact payloadIdentity_built _ _ _ _
  -- The two X25519 secrets are one.
  obtain ⟨dh, hdh, hdh''⟩ := hagree sk sk'
  obtain rfl : dh = dh' := by
    have hagreed := hresponds.agreed
    rw [payloadEph_built, hdh''] at hagreed
    exact Option.some.inj hagreed
  have hshared : S.cryptoScalarmult run.record.localEph.sk (payloadEph (ackSigned S version'
      (signedPart version (S.cryptoBoxPublic sk) run.owner.pk ++ sig.toList) other.owner sk' ++
        sig'.toList)) = some dh := by
    rw [hsecret hopen, ackSigned, payloadEph_built]
    exact hdh
  refine ⟨hnamed, by rw [hrecord]; rfl, ?_⟩
  simp only [InitiatorRun.finalise, koeHandshakeFinalise_eq hpresents hshared, hrecord,
    Handshake.finalised, Handshake.responded, ackSigned, payloadIdentity_built]
  exact mirrored_sessionOf _

/-- Assumes: a sound run. -/
theorem InitiatorRun.Sound.finalise (hrun : run.Sound S) : (run.finalise S builds ack).Sound S := by
  obtain ⟨version, sk, sig, hcarries, hsecret⟩ := hrun
  refine ⟨version, sk, sig, hcarries, ?_⟩
  by_cases hack : ack.AckPasses S (builds run.owner) run.record.localEph.sk
  · intro hopen
    exact absurd (InitiatorRun.finalise_accepted hack).1 hopen
  · rw [InitiatorRun.finalise_rejected hack]
    exact hsecret

/-- Assumes: more runs of responders than before. -/
theorem InitiatorRun.Agrees.mono {fewer more : List ResponderRun} (hagrees : run.Agrees fewer)
    (hsub : fewer ⊆ more) : run.Agrees more := by
  intro hcomplete via hvia hnamed
  obtain ⟨other, hother, hcounterpart⟩ := hagrees hcomplete via hvia hnamed
  exact ⟨other, hsub hother, hcounterpart⟩

end Runs

/-! ### Whole runs of the network -/

namespace Network

variable {S : Sodium} {builds : Identity → Version} {net : Network}

theorem inv_empty : empty.Inv S :=
  ⟨fun _ hrun ↦ absurd hrun List.not_mem_nil, fun _ hrun ↦ absurd hrun List.not_mem_nil,
    fun _ hrun ↦ absurd hrun List.not_mem_nil⟩

theorem Inv.start (hinv : net.Inv S) (owner : Identity) (peer : Block 32) (env : HandshakeEnv) :
    (net.step S builds (.start owner peer env)).Inv S := by
  simp only [step]
  split
  swap
  · exact hinv
  rename_i hrc
  obtain ⟨sk, sig, hdrawn, halloc, hsig⟩ := koeHandshakeInit_inv hrc.ge
  rw [koeHandshakeInit_eq hdrawn halloc hsig]
  refine ⟨?_, hinv.responders, ?_⟩
  · refine List.forall_mem_append.mpr ⟨hinv.initiators, List.forall_mem_singleton.mpr ?_⟩
    exact ⟨builds owner, sk, sig, rfl, fun _ ↦ rfl⟩
  · refine List.forall_mem_append.mpr ⟨hinv.agreed, List.forall_mem_singleton.mpr ?_⟩
    intro _ via hvia
    exact absurd hvia.symm (Option.some_ne_none via)

theorem Inv.respond (hinv : net.Inv S) (owner : Identity) (hello : Packet) (env : HandshakeEnv) :
    (net.step S builds (.respond owner hello env)).Inv S := by
  simp only [step]
  split
  swap
  · exact hinv
  split
  swap
  · exact hinv
  rename_i hrc
  rcases koeHandshakeRespond_cases env Packet.zero hello owner with
    ⟨payload, sk, dh, sig, hresponds⟩ | ⟨hfailed, -⟩
  swap
  · rw [hfailed] at hrc
    exact absurd hrc (by decide)
  rw [koeHandshakeRespond_eq hresponds]
  refine ⟨hinv.initiators, ?_, ?_⟩
  · refine List.forall_mem_append.mpr ⟨hinv.responders, List.forall_mem_singleton.mpr ?_⟩
    exact ⟨builds owner, env, payload, sk, dh, sig, hresponds, rfl, rfl⟩
  · intro run hrun
    exact (hinv.agreed run hrun).mono (List.subset_append_left _ _)

/-- Assumes: X25519 agreement, and a packet that is matched to the run. -/
theorem Inv.finalise (hinv : net.Inv S) (hagree : S.KeyAgreement) {index : ℕ} {ack : Packet}
    (hmatched : net.Matched S builds (.finalise index ack)) :
    (net.step S builds (.finalise index ack)).Inv S := by
  simp only [step]
  split
  · exact hinv
  rename_i run hindex
  split
  swap
  · exact hinv
  rename_i hsent
  have hrun : run ∈ net.initiators := List.mem_of_getElem? hindex
  refine ⟨?_, hinv.responders, ?_⟩
  · intro changed hchanged
    rcases List.mem_or_eq_of_mem_set hchanged with hold | rfl
    · exact hinv.initiators changed hold
    · exact (hinv.initiators run hrun).finalise
  · intro changed hchanged
    rcases List.mem_or_eq_of_mem_set hchanged with hold | rfl
    · exact hinv.agreed changed hold
    by_cases hack : ack.AckPasses S (builds run.owner) run.record.localEph.sk
    swap
    · rw [InitiatorRun.finalise_rejected hack]
      exact hinv.agreed run hrun
    intro _ via hvia hnamed
    obtain rfl : ack = via :=
      Option.some.inj ((InitiatorRun.finalise_accepted hack).2.symm.trans hvia)
    obtain ⟨hopen, other, hother, rfl, hhello⟩ := hmatched run hindex hsent hack hnamed
    obtain ⟨hidentity, hcomplete, hmirrored⟩ := InitiatorRun.finalise_mirrored hagree
      (hinv.initiators run hrun) hopen (hinv.responders other hother) hhello hack
    exact ⟨other, hother, hidentity.symm.trans hnamed, hhello, hcomplete, hmirrored⟩

/-- Assumes: X25519 agreement, and a step that meets the condition. -/
theorem Inv.step (hagree : S.KeyAgreement) (net : Network) (call : NetworkCall)
    (hinv : net.Inv S) (hmatched : net.Matched S builds call) :
    (net.step S builds call).Inv S := by
  cases call with
  | start owner peer env => exact hinv.start owner peer env
  | respond owner hello env => exact hinv.respond owner hello env
  | finalise index ack => exact hinv.finalise hagree hmatched

end Network

/-- Agreement in every state of the network. Assumes: X25519 agreement, and a sequence of steps that
all meet the condition. -/
theorem koeHandshake_network_agreed {S : Sodium} (hagree : S.KeyAgreement)
    {builds : Identity → Version} {front back : List NetworkCall}
    (hmatched : Runs.AllSteps (Network.step S builds) (Network.Matched S builds) Network.empty
      (front ++ back)) :
    (front.foldl (Network.step S builds) Network.empty).Agreed :=
  (hmatched.invariant (Network.Inv.step hagree) front Network.inv_empty).agreed

/-! ### A crossed answer -/

namespace Network

variable {S : Sodium} {builds : Identity → Version} {net : Network}

/-- Assumes: `koe_handshake_init` returns 0 with this record and this HELLO. -/
theorem step_start {owner : Identity} {peer : Block 32} {env : HandshakeEnv} {record : Handshake}
    {hello : Packet} (hstarted : koeHandshakeInit S (builds owner) env Packet.zero owner peer =
      (0, record, hello)) :
    net.step S builds (.start owner peer env) =
      ⟨net.initiators ++ [⟨owner, peer, hello, record, none⟩], net.responders⟩ := by
  simp only [step, hstarted, if_true]

/-- Assumes: a HELLO that was sent, and `koe_handshake_respond` returns 0 on it. -/
theorem step_respond {owner : Identity} {hello : Packet} {env : HandshakeEnv}
    (hsent : hello ∈ net.sent)
    (hrc : (koeHandshakeRespond S (builds owner) env Packet.zero hello owner).1 = 0) :
    net.step S builds (.respond owner hello env) =
      ⟨net.initiators, net.responders ++
        [⟨owner, hello, (koeHandshakeRespond S (builds owner) env Packet.zero hello owner).2.1,
          (koeHandshakeRespond S (builds owner) env Packet.zero hello owner).2.2⟩]⟩ := by
  simp only [step, if_pos hsent, if_pos hrc]

theorem hello_mem_sent {run : InitiatorRun} (hrun : run ∈ net.initiators) :
    run.hello ∈ net.sent :=
  List.mem_append_left _ (List.mem_map_of_mem hrun)

theorem ack_mem_sent {run : ResponderRun} (hrun : run ∈ net.responders) : run.ack ∈ net.sent :=
  List.mem_append_right _ (List.mem_map_of_mem hrun)

/-- Assumes: a packet that was sent. -/
theorem step_finalise {index : ℕ} {run : InitiatorRun} {ack : Packet}
    (hindex : net.initiators[index]? = some run) (hsent : ack ∈ net.sent) :
    net.step S builds (.finalise index ack) =
      ⟨net.initiators.set index (run.finalise S builds ack), net.responders⟩ := by
  simp only [step, hindex, if_pos hsent]

end Network

/-- Every party runs the local build. -/
def localBuilds : Identity → Version := fun _ ↦ koeVersionLocal

/-- A secret with one byte throughout. -/
def uniformSecret (byte : UInt8) : Block 32 := List.Vector.replicate 32 byte

/-- The identity 1 starts a run towards the identity 2. -/
def startCall (byte : UInt8) : NetworkCall :=
  .start (Sodium.transparentIdentity 1) (Sodium.transparentIdentity 2).pk
    ⟨some (uniformSecret byte), true⟩

/-- The payload of the HELLO that `startCall` sends. -/
def startPayload (byte : UInt8) : List UInt8 :=
  let signed := signedPart koeVersionLocal
    (Sodium.transparent.cryptoBoxPublic (uniformSecret byte)) (Sodium.transparentIdentity 1).pk
  signed ++ (Sodium.mix 64 ((Sodium.transparentIdentity 1).pk.toList ++ signed)).toList

/-- The HELLO that `startCall` sends. -/
def startHello (byte : UInt8) : Packet :=
  handshakePacket .hello (Sodium.transparentIdentity 1).pk (Sodium.transparentIdentity 2).pk
    (startPayload byte)

/-- The run that `startCall` starts. -/
def startRun (byte : UInt8) : InitiatorRun where
  owner := Sodium.transparentIdentity 1
  peer := (Sodium.transparentIdentity 2).pk
  hello := startHello byte
  record := Handshake.started Sodium.transparent (Sodium.transparentIdentity 2).pk
    (uniformSecret byte)
  via := none

/-- The identity 2 answers the HELLO of the run with the secret 4. -/
def answerCall : NetworkCall :=
  .respond (Sodium.transparentIdentity 2) (startHello 4) ⟨some (uniformSecret 9), true⟩

/-- The run that `answerCall` makes. -/
def answerRun : ResponderRun :=
  let responded := koeHandshakeRespond Sodium.transparent
    (localBuilds (Sodium.transparentIdentity 2)) ⟨some (uniformSecret 9), true⟩ Packet.zero
    (startHello 4) (Sodium.transparentIdentity 2)
  ⟨Sodium.transparentIdentity 2, startHello 4, responded.2.1, responded.2.2⟩

/-- A step of the network in which every party runs the local build. -/
def localStep : Network → NetworkCall → Network := Network.step Sodium.transparent localBuilds

theorem localStep_startCall (net : Network) (byte : UInt8) :
    localStep net (startCall byte) =
      ⟨net.initiators ++ [startRun byte], net.responders⟩ := by
  have hsig : koeSign Sodium.transparent
      (signedPart koeVersionLocal (Sodium.transparent.cryptoBoxPublic (uniformSecret byte))
        (Sodium.transparentIdentity 1).pk) (Sodium.transparentIdentity 1) =
      some (Sodium.mix 64 ((Sodium.transparentIdentity 1).pk.toList ++
        signedPart koeVersionLocal (Sodium.transparent.cryptoBoxPublic (uniformSecret byte))
          (Sodium.transparentIdentity 1).pk)) := rfl
  have hstarted : koeHandshakeInit Sodium.transparent (localBuilds (Sodium.transparentIdentity 1))
      ⟨some (uniformSecret byte), true⟩ Packet.zero (Sodium.transparentIdentity 1)
        (Sodium.transparentIdentity 2).pk = (0, (startRun byte).record, startHello byte) :=
    koeHandshakeInit_eq rfl rfl hsig Packet.zero (Sodium.transparentIdentity 2).pk
  exact Network.step_start hstarted

/-- Assumes: the HELLO of the run with the secret 4 has been sent. -/
theorem localStep_answerCall {net : Network} (hsent : startHello 4 ∈ net.sent) :
    localStep net answerCall = ⟨net.initiators, net.responders ++ [answerRun]⟩ := by
  have hrc : (koeHandshakeRespond Sodium.transparent (localBuilds (Sodium.transparentIdentity 2))
      ⟨some (uniformSecret 9), true⟩ Packet.zero (startHello 4)
      (Sodium.transparentIdentity 2)).1 = 0 := by
    decide +kernel
  exact Network.step_respond hsent hrc

/-- The HELLO packets of the two runs differ in their ephemeral keys. -/
theorem startHello_ne : startHello 4 ≠ startHello 3 := by
  intro hequal
  have hpayload : some (startPayload 4) = some (startPayload 3) := congrArg Packet.payload hequal
  exact absurd (Option.some.inj hpayload) (by decide +kernel)

/-- The answer to the one run passes the checks of the other. -/
theorem answerRun_passes :
    answerRun.ack.AckPasses Sodium.transparent koeVersionLocal (uniformSecret 3) := by
  have hrc : (koeHandshakeFinalise Sodium.transparent koeVersionLocal (startRun 3).record
      answerRun.ack (Sodium.transparentIdentity 1)).1 = 0 := by
    decide +kernel
  exact (koeHandshakeFinalise_eq_zero_iff _ _ _).mp hrc

theorem answerRun_named : answerRun.ack.namedIdentity = (Sodium.transparentIdentity 2).pk := by
  decide +kernel

/-- One run, started, answered and finalised in this order. -/
theorem answeredRun_agrees :
    let calls := [startCall 4, answerCall, .finalise 0 answerRun.ack]
    (calls.foldl localStep Network.empty).Agreed := by
  intro calls
  have hsent : (startRun 4).hello ∈ (⟨[startRun 4], []⟩ : Network).sent :=
    Network.hello_mem_sent List.mem_cons_self
  have hmatched : Runs.AllSteps localStep
      (Network.Matched Sodium.transparent localBuilds) Network.empty (calls ++ []) := by
    refine ⟨trivial, trivial, ?_, trivial⟩
    rw [localStep_startCall, Network.empty, List.nil_append, localStep_answerCall hsent]
    intro run hindex _ _ _
    obtain rfl := Option.some.inj hindex
    exact ⟨HandshakeState.noConfusion, answerRun, List.mem_singleton.mpr rfl, rfl, rfl⟩
  exact koeHandshake_network_agreed Sodium.transparent_keyAgreement hmatched

/-- Two runs, of which the second is answered, and the answer is delivered to the first. -/
def crossedCalls : List NetworkCall :=
  [startCall 3, startCall 4, answerCall, .finalise 0 answerRun.ack]

theorem crossedCalls_network :
    crossedCalls.foldl localStep Network.empty =
      ⟨[(startRun 3).finalise Sodium.transparent localBuilds answerRun.ack, startRun 4],
        [answerRun]⟩ := by
  have hfour : startRun 4 ∈ [startRun 3, startRun 4] := List.mem_cons_of_mem _ List.mem_cons_self
  have hsent : (startRun 4).hello ∈ (⟨[startRun 3, startRun 4], []⟩ : Network).sent :=
    Network.hello_mem_sent hfour
  have hack : answerRun.ack ∈ (⟨[startRun 3, startRun 4], [answerRun]⟩ : Network).sent :=
    Network.ack_mem_sent List.mem_cons_self
  -- Each step is rewritten before the next, so that no checksum is evaluated.
  rw [crossedCalls, Network.empty, List.foldl_cons, localStep_startCall, List.nil_append,
    List.foldl_cons, localStep_startCall, List.singleton_append, List.foldl_cons,
    localStep_answerCall hsent, List.nil_append, List.foldl_cons, List.foldl_nil]
  exact Network.step_finalise rfl hack

/-- The first run is complete through a packet that names its peer. -/
theorem crossedRun_complete :
    let run := (startRun 3).finalise Sodium.transparent localBuilds answerRun.ack
    run.record.state = .complete ∧ run.via = some answerRun.ack := by
  have hpasses : answerRun.ack.AckPasses Sodium.transparent (localBuilds (startRun 3).owner)
      (startRun 3).record.localEph.sk := answerRun_passes
  exact InitiatorRun.finalise_accepted hpasses

/-- After the crossed delivery the first run is complete through a packet that names its peer, and
nobody has seen its HELLO. -/
theorem crossedAck_disagrees : ¬ (crossedCalls.foldl localStep Network.empty).Agreed := by
  intro hagreed
  rw [crossedCalls_network] at hagreed
  obtain ⟨hcomplete, hvia⟩ := crossedRun_complete
  obtain ⟨other, hother, -, hhello, -⟩ :=
    hagreed _ List.mem_cons_self hcomplete answerRun.ack hvia answerRun_named
  obtain rfl := List.mem_singleton.mp hother
  exact startHello_ne hhello

end KoeCore
