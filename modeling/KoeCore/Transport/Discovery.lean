import KoeCore.Protocol.Sodium
import KoeCore.Protocol.Version

/-!
# Discovery

`koe_transport_discover` broadcasts a message with the local key and version and calls `on_peer` for
the answers that arrive within its window; `koe_transport_handle_discovery` answers such a message
and calls `on_peer` for its sender. A run is given by the datagrams that arrive on the discovery
socket, in their order, and a `DiscoveryRun` notes next to each of them the call it causes.

The calls are to be the announcements among the datagrams: 38 bytes with the magic and a key other
than the local one (`announced`). The loop of `koe_transport_discover` is left by `break` at the
first datagram that it does not take, the echo of its own broadcast included, and `recvfrom` cuts a
longer datagram to the 38 bytes of the buffer. So the calls are right exactly when the announcements
come first (`koeTransportDiscover_reports_iff`).
-/

set_option autoImplicit false
set_option relaxedAutoImplicit false

namespace KoeCore

open ByteWire

/-- `koe_transport_type_t`. -/
inductive TransportType
  | none | wifiDirect | bluetooth | tcpRelay | websocket
deriving DecidableEq

def TransportType.code : TransportType → ℤ
  | .none => 0
  | .wifiDirect => 1
  | .bluetooth => 2
  | .tcpRelay => 3
  | .websocket => 4

/-- `koe_peer_t`. -/
structure Peer where
  pk : Block 32
  addr : Block 64
  port : UInt16
  fd : ℤ
  transport : TransportType
  reachable : ℤ
  version : Version
  lastContactUs : ℤ
deriving DecidableEq

/-- `KOE_DISCOVERY_PORT`. -/
def koeDiscoveryPort : UInt16 := 9473

/-- `KOE_RELAY_PORT_DEF`. -/
def koeRelayPortDef : UInt16 := 9474

/-- `DISCO_PAYLOAD`. -/
def discoPayload : ℕ := 38

/-- `DISCO_MAGIC`. -/
def discoMagic : List UInt8 := [0x4b, 0x44, 0x53, 0x43]

/-- A datagram, with the address and the port of the other end. -/
structure Datagram where
  addr : Block 4
  port : UInt16
  payload : List UInt8
deriving DecidableEq

/-- What `recvfrom` leaves of a datagram in a buffer of `DISCO_PAYLOAD` bytes. -/
def Datagram.received (dgram : Datagram) : Datagram :=
  { dgram with payload := dgram.payload.take discoPayload }

/-- The message with which both functions announce the local identity. -/
def discoMessage (localId : Identity) : List UInt8 :=
  discoMagic ++ localId.pk.toList ++ [koeProtoMajor, koeProtoMinor]

/-- The four bytes of an address in decimal, with dots between them. -/
def inetNtop (addr : Block 4) : List UInt8 :=
  [0x2e].intercalate (addr.toList.map fun byte ↦
    (Nat.toDigits 10 byte.toNat).map fun digit ↦ UInt8.ofNat digit.toNat)

/-- The peer that both functions pass to `on_peer`. -/
def discoPeer (dgram : Datagram) : Peer where
  pk := readAt 32 4 dgram.payload
  addr := clip 64 (inetNtop dgram.addr)
  port := koeRelayPortDef
  fd := -1
  transport := .wifiDirect
  reachable := 1
  version := ⟨byteAt 36 dgram.payload, byteAt 37 dgram.payload⟩
  lastContactUs := 0

/-- What a call does: its return code, the datagrams it sends, and next to each datagram that
arrives the call of `on_peer` that it causes. -/
structure DiscoveryRun where
  rc : ℤ
  sent : List Datagram
  calls : List (Option Peer)
deriving DecidableEq

/-- The loop that collects the replies. After a `break` nothing more is read. -/
def collectReplies (localId : Identity) : List Datagram → List (Option Peer)
  | [] => []
  | dgram :: later =>
    let reply := dgram.received
    if reply.payload.length ≠ discoPayload then none :: later.map fun _ ↦ none
    else if reply.payload.take 4 ≠ discoMagic then none :: later.map fun _ ↦ none
    else if readAt 32 4 reply.payload = localId.pk then none :: later.map fun _ ↦ none
    else some (discoPeer reply) :: collectReplies localId later

/-- `arrivals` are the datagrams that arrive within the window. -/
def koeTransportDiscover (listenFd : ℤ) (localId : Identity) (arrivals : List Datagram) :
    DiscoveryRun :=
  if listenFd < 0 then ⟨-1, [], arrivals.map fun _ ↦ none⟩
  else
    ⟨0, [⟨List.Vector.replicate 4 0xff, koeDiscoveryPort, discoMessage localId⟩],
      collectReplies localId arrivals⟩

/-- `arrival` is what `recvfrom` finds on the socket, `none` when it fails. -/
def koeTransportHandleDiscovery (listenFd : ℤ) (localId : Identity) (arrival : Option Datagram) :
    DiscoveryRun :=
  if listenFd < 0 then ⟨-1, [], arrival.toList.map fun _ ↦ none⟩
  else
    match arrival with
    | none => ⟨-1, [], []⟩
    | some dgram =>
      let ping := dgram.received
      if ping.payload.length ≠ discoPayload then ⟨-1, [], [none]⟩
      else if ping.payload.take 4 ≠ discoMagic then ⟨-1, [], [none]⟩
      else if readAt 32 4 ping.payload = localId.pk then ⟨0, [], [none]⟩
      else ⟨0, [⟨dgram.addr, dgram.port, discoMessage localId⟩], [some (discoPeer ping)]⟩

/-! ### Announcements -/

/-- The key and the version that a datagram announces, if it is 38 bytes with the magic and a key
other than the local one. -/
def announced (localId : Identity) (dgram : Datagram) : Option (Block 32 × Version) :=
  if dgram.payload.length = discoPayload ∧ dgram.payload.take 4 = discoMagic ∧
      readAt 32 4 dgram.payload ≠ localId.pk then
    some (readAt 32 4 dgram.payload, ⟨byteAt 36 dgram.payload, byteAt 37 dgram.payload⟩)
  else none

def isAnnouncement (localId : Identity) (dgram : Datagram) : Bool :=
  (announced localId dgram).isSome

/-- Each announcement causes one call with its key and version, and no other datagram causes one. -/
def ReportsEachPeer (localId : Identity) (arrivals : List Datagram) (run : DiscoveryRun) : Prop :=
  run.calls.map (Option.map fun peer ↦ (peer.pk, peer.version)) =
    arrivals.map (announced localId)

instance ReportsEachPeer.instDecidable (localId : Identity) (arrivals : List Datagram)
    (run : DiscoveryRun) : Decidable (ReportsEachPeer localId arrivals run) :=
  inferInstanceAs (Decidable (_ = _))

/-- No announcement comes after a datagram that is none, and the first such datagram does not begin
with an announcement either. -/
def AnnouncementsFirst (localId : Identity) (arrivals : List Datagram) : Prop :=
  let others := arrivals.dropWhile (isAnnouncement localId)
  (∀ dgram ∈ others, announced localId dgram = none) ∧
    ∀ dgram ∈ others.head?, announced localId dgram.received = none

section Announcements

variable {localId : Identity} {dgram : Datagram} {later : List Datagram}

/-- Assumes: an announcement. The buffer holds all of it. -/
theorem received_of_announced {announcement : Block 32 × Version}
    (hannounced : announced localId dgram = some announcement) : dgram.received = dgram := by
  have hsize : dgram.payload.length = discoPayload := by
    by_contra hother
    rw [announced, if_neg fun hall ↦ hother hall.1] at hannounced
    exact Option.some_ne_none _ hannounced.symm
  rw [Datagram.received, List.take_of_length_le (le_of_eq hsize)]

/-- A round of the loop ends it unless the buffer holds an announcement. -/
theorem collectReplies_cons (localId : Identity) (dgram : Datagram) (later : List Datagram) :
    collectReplies localId (dgram :: later) =
      match announced localId dgram.received with
      | none => none :: later.map fun _ ↦ none
      | some _ => some (discoPeer dgram.received) :: collectReplies localId later := by
  rw [collectReplies, announced]
  by_cases hsize : dgram.received.payload.length = discoPayload
  · by_cases hmagic : dgram.received.payload.take 4 = discoMagic
    · by_cases hown : readAt 32 4 dgram.received.payload = localId.pk
      · simp only [hsize, hmagic, hown, ne_eq, not_true_eq_false, and_false, if_true, if_false]
      · simp only [hsize, hmagic, hown, ne_eq, not_true_eq_false, not_false_eq_true, and_self,
          if_true, if_false]
    · simp only [hsize, hmagic, ne_eq, not_true_eq_false, not_false_eq_true, false_and, and_false,
        if_true, if_false]
  · simp only [hsize, ne_eq, not_false_eq_true, false_and, if_true, if_false]

/-- Assumes: an announcement. The peer that it is reported as. -/
theorem discoPeer_of_announced {announcement : Block 32 × Version}
    (hannounced : announced localId dgram = some announcement) :
    ((discoPeer dgram).pk, (discoPeer dgram).version) = announcement := by
  rw [announced] at hannounced
  split_ifs at hannounced with hall
  exact Option.some.inj hannounced

/-- Assumes: an announcement in front. -/
theorem announcementsFirst_cons_some {announcement : Block 32 × Version}
    (hannounced : announced localId dgram = some announcement) :
    AnnouncementsFirst localId (dgram :: later) ↔ AnnouncementsFirst localId later := by
  have hfront : isAnnouncement localId dgram = true := by
    rw [isAnnouncement, hannounced]
    rfl
  rw [AnnouncementsFirst, AnnouncementsFirst, List.dropWhile_cons_of_pos hfront]

/-- Assumes: a datagram in front that is no announcement. -/
theorem announcementsFirst_cons_none (hother : announced localId dgram = none) :
    AnnouncementsFirst localId (dgram :: later) ↔
      (∀ after ∈ later, announced localId after = none) ∧
        announced localId dgram.received = none := by
  have hfront : ¬ isAnnouncement localId dgram = true := by
    rw [isAnnouncement, hother]
    exact Bool.false_ne_true
  rw [AnnouncementsFirst, List.dropWhile_cons_of_neg hfront, List.forall_mem_cons,
    and_iff_right hother]
  refine and_congr_right fun _ ↦ ⟨fun hhead ↦ hhead dgram rfl, ?_⟩
  rintro hdgram other hhead
  obtain rfl := Option.some.inj hhead
  exact hdgram

end Announcements

/-- What the loop reports. -/
theorem collectReplies_reports_iff (localId : Identity) (arrivals : List Datagram) :
    (collectReplies localId arrivals).map (Option.map fun peer ↦ (peer.pk, peer.version)) =
        arrivals.map (announced localId) ↔
      AnnouncementsFirst localId arrivals := by
  induction arrivals with
  | nil =>
    refine iff_of_true rfl ⟨?_, ?_⟩
    · intro dgram hmem
      exact absurd hmem List.not_mem_nil
    · intro dgram hhead
      exact absurd hhead.symm (Option.some_ne_none _)
  | cons dgram later ih =>
    rw [collectReplies_cons]
    rcases hannounced : announced localId dgram with _ | announcement
    · rw [announcementsFirst_cons_none hannounced]
      rcases hreceived : announced localId dgram.received with _ | cut
      · -- The loop is left here, which is right when no later datagram is an announcement.
        simp only [List.map_cons, hannounced, Option.map_none, List.cons.injEq, true_and, and_true,
          List.map_map]
        rw [eq_comm, List.map_inj_left]
        rfl
      · -- A longer datagram is taken for an announcement.
        simp only [List.map_cons, hannounced, Option.map_some, List.cons.injEq, reduceCtorEq,
          false_and, and_false]
    · have hpeer := discoPeer_of_announced hannounced
      simp only [received_of_announced hannounced, hannounced,
        announcementsFirst_cons_some hannounced, List.map_cons, Option.map_some, hpeer,
        List.cons.injEq, true_and]
      exact ih

/-- Discovery reports every peer exactly when the announcements come before all other datagrams, and
the first of the others does not begin with an announcement. Assumes: an open socket. -/
theorem koeTransportDiscover_reports_iff {listenFd : ℤ} (hopen : 0 ≤ listenFd) (localId : Identity)
    (arrivals : List Datagram) :
    ReportsEachPeer localId arrivals (koeTransportDiscover listenFd localId arrivals) ↔
      AnnouncementsFirst localId arrivals := by
  rw [ReportsEachPeer, koeTransportDiscover, if_neg (Int.not_lt.mpr hopen)]
  exact collectReplies_reports_iff localId arrivals

/-- The key 2 announces itself, and so does the key 3; then a datagram arrives that is too short. -/
theorem twoPeers_reported :
    ReportsEachPeer (Sodium.transparentIdentity 1)
      [⟨Block.zero 4, 0, discoMessage (Sodium.transparentIdentity 2)⟩,
        ⟨Block.zero 4, 0, discoMessage (Sodium.transparentIdentity 3)⟩, ⟨Block.zero 4, 0, []⟩]
      (koeTransportDiscover 0 (Sodium.transparentIdentity 1)
        [⟨Block.zero 4, 0, discoMessage (Sodium.transparentIdentity 2)⟩,
          ⟨Block.zero 4, 0, discoMessage (Sodium.transparentIdentity 3)⟩,
          ⟨Block.zero 4, 0, []⟩]) := by
  refine (koeTransportDiscover_reports_iff (Int.le_refl 0) _ _).mpr ⟨by decide, ?_⟩
  rintro dgram hhead
  obtain rfl := Option.some.inj hhead
  rfl

/-- The echo of the broadcast hides the peer that answers it. -/
theorem ownEcho_hides_peer :
    let arrivals : List Datagram :=
      [⟨Block.zero 4, koeDiscoveryPort, discoMessage (Sodium.transparentIdentity 1)⟩,
        ⟨Block.zero 4, koeDiscoveryPort, discoMessage (Sodium.transparentIdentity 2)⟩]
    announced (Sodium.transparentIdentity 1)
        ⟨Block.zero 4, koeDiscoveryPort, discoMessage (Sodium.transparentIdentity 2)⟩ =
        some ((Sodium.transparentIdentity 2).pk, koeVersionLocal) ∧
      (koeTransportDiscover 0 (Sodium.transparentIdentity 1) arrivals).calls = [none, none] ∧
      ¬ ReportsEachPeer (Sodium.transparentIdentity 1) arrivals
        (koeTransportDiscover 0 (Sodium.transparentIdentity 1) arrivals) := by
  decide

/-! ### Answers -/

section Answers

variable {localId remoteId : Identity}

/-- Assumes: different keys. -/
theorem announced_discoMessage (hkeys : remoteId.pk ≠ localId.pk) (addr : Block 4) (port : UInt16) :
    announced localId ⟨addr, port, discoMessage remoteId⟩ =
      some (remoteId.pk, koeVersionLocal) := by
  have hsize : (discoMessage remoteId).length = discoPayload := by
    simp only [discoMessage, List.length_append, List.Vector.toList_length]
    rfl
  have hpk : readAt 32 4 (discoMessage remoteId) = remoteId.pk :=
    readAt_of_eq discoMagic remoteId.pk (List.append_assoc _ _ _) rfl
  have hprefix : (discoMagic ++ remoteId.pk.toList).length = 36 := by
    rw [List.length_append, List.Vector.toList_length]
    rfl
  have hmajor : byteAt 36 (discoMessage remoteId) = koeProtoMajor :=
    byteAt_of_eq (discoMagic ++ remoteId.pk.toList) koeProtoMajor rfl hprefix
  have hlast : discoMessage remoteId =
      (discoMagic ++ remoteId.pk.toList ++ [koeProtoMajor]) ++ ([koeProtoMinor] ++ []) :=
    (List.append_assoc _ [koeProtoMajor] _).symm
  have hminor : byteAt 37 (discoMessage remoteId) = koeProtoMinor := by
    refine byteAt_of_eq _ koeProtoMinor hlast ?_
    rw [List.length_append, hprefix]
    rfl
  have hmagic : (discoMessage remoteId).take 4 = discoMagic := by
    rw [discoMessage, List.append_assoc]
    exact List.take_left' rfl
  rw [announced, if_pos ⟨hsize, hmagic, hpk ▸ hkeys⟩, hpk, hmajor, hminor]
  rfl

/-- A peer answers the broadcast and reports where it came from. Assumes: an open socket and
different keys. -/
theorem koeTransportHandleDiscovery_broadcast {listenFd : ℤ} (hopen : 0 ≤ listenFd)
    (hkeys : localId.pk ≠ remoteId.pk) (addr : Block 4) (port : UInt16) :
    koeTransportHandleDiscovery listenFd remoteId (some ⟨addr, port, discoMessage localId⟩) =
      ⟨0, [⟨addr, port, discoMessage remoteId⟩],
        [some (discoPeer ⟨addr, port, discoMessage localId⟩)]⟩ := by
  have hannounced := announced_discoMessage hkeys addr port
  have hall : (discoMessage localId).length = discoPayload ∧
      (discoMessage localId).take 4 = discoMagic ∧
      readAt 32 4 (discoMessage localId) ≠ remoteId.pk := by
    by_contra hother
    rw [announced, if_neg hother] at hannounced
    exact Option.some_ne_none _ hannounced.symm
  rw [koeTransportHandleDiscovery, if_neg (Int.not_lt.mpr hopen)]
  dsimp only
  rw [received_of_announced hannounced]
  simp only [hall, ne_eq, not_true_eq_false, if_false]

/-- A machine on the local network. -/
structure Host where
  keys : Identity
  addr : Block 4
  port : UInt16

/-- A datagram that the host has sent, where it arrives. -/
def Host.delivers (host : Host) (sent : Datagram) : Datagram :=
  ⟨host.addr, host.port, sent.payload⟩

end Answers

end KoeCore
