import KoeCore.Transport.Discovery
import Mathlib.Data.List.Perm.Basic

/-!
# Announcements in flight

A local network of hosts that discover one another. A broadcast of `koe_transport_discover` reaches
every host, its own included, and a host outside of a discovery hands what arrives to
`koe_transport_handle_discovery`. The answer has the same form as the question, so it is answered in
turn by a host that is not inside of a discovery when it arrives.

`Air` are the datagrams in flight and the calls of `on_peer` so far. A delivery takes a datagram at
any place, so the network reorders; it loses a datagram by `AirCall.lose`, and `AirCall.collect` is
a datagram that is read within the window of a discovery.

`koeTransportDiscovery_echoes` counts the announcements of other hosts that are in flight
(`LocalNet.live`): a discovery adds one for each other host, and they become fewer only where one is
lost or collected. Without either the hosts answer each other without end, and every delivery
reports a peer once more.
-/

set_option autoImplicit false
set_option relaxedAutoImplicit false

namespace KoeCore

open ByteWire

/-- `INADDR_BROADCAST`. -/
def inaddrBroadcast : Block 4 := List.Vector.replicate 4 0xff

/-- Hosts with different keys and their own addresses, each with an open discovery socket. -/
structure LocalNet (ι : Type*) where
  hosts : List ι
  nodup : hosts.Nodup
  complete : ∀ who, who ∈ hosts
  host : ι → Host
  listenFd : ι → ℤ
  listenFd_nonneg : ∀ who, 0 ≤ listenFd who
  keys_injective : ∀ who other, (host who).keys.pk = (host other).keys.pk → who = other
  route : Block 4 → UInt16 → Option ι
  route_host : ∀ who, route (host who).addr (host who).port = some who
  addr_ne : ∀ who, (host who).addr ≠ inaddrBroadcast

/-- The datagrams in flight, each with the host it is for, and the calls of `on_peer`, each with the
host that makes it, the oldest first. -/
structure Air (ι : Type*) where
  flight : List (ι × Datagram)
  reports : List (ι × Peer)

/-- What happens next: a discovery, or something to the datagram at a place of the flight. -/
inductive AirCall (ι : Type*)
  | discover (who : ι)
  | deliver (k : ℕ)
  | collect (k : ℕ)
  | lose (k : ℕ)

section Defs

variable {ι : Type*} (net : LocalNet ι)

/-- Where a datagram that the host sends arrives. -/
def LocalNet.arrives (who : ι) (sent : Datagram) : List (ι × Datagram) :=
  let arriving := (net.host who).delivers sent
  if sent.addr = inaddrBroadcast then net.hosts.map (·, arriving)
  else ((net.route sent.addr sent.port).map (·, arriving)).toList

/-- What a call of the host adds. -/
def Air.add (air : Air ι) (who : ι) (run : DiscoveryRun) : Air ι where
  flight := air.flight ++ run.sent.flatMap (net.arrives who)
  reports := air.reports ++ (run.calls.filterMap id).map (who, ·)

/-- Without the datagram at a place. -/
def Air.drop (air : Air ι) (k : ℕ) : Air ι := { air with flight := air.flight.eraseIdx k }

def AirCall.step (air : Air ι) : AirCall ι → Air ι
  | discover who =>
    air.add net who (koeTransportDiscover (net.listenFd who) (net.host who).keys [])
  | deliver k =>
    match air.flight[k]? with
    | none => air
    | some (who, dgram) =>
      (air.drop k).add net who
        (koeTransportHandleDiscovery (net.listenFd who) (net.host who).keys (some dgram))
  | collect k =>
    match air.flight[k]? with
    | none => air
    | some (who, dgram) =>
      (air.drop k).add net who ⟨0, [], collectReplies (net.host who).keys [dgram]⟩
  | lose k => air.drop k

/-- An announcement of another host. -/
def LocalNet.live (entry : ι × Datagram) : Bool :=
  isAnnouncement (net.host entry.1).keys entry.2

/-- The announcement of a host, where it arrives. -/
def LocalNet.announcement (who : ι) : Datagram :=
  ⟨(net.host who).addr, (net.host who).port, discoMessage (net.host who).keys⟩

/-- How many announcements of other hosts the call takes off the network: the one that is lost or
collected, if it is one. -/
def AirCall.removed (air : Air ι) : AirCall ι → ℕ
  | collect k => (air.flight[k]?.any net.live).toNat
  | lose k => (air.flight[k]?.any net.live).toNat
  | _ => 0

/-- Their number over a run. -/
def removals : Air ι → List (AirCall ι) → ℕ
  | _, [] => 0
  | air, call :: calls => call.removed net air + removals (call.step net air) calls

def AirCall.isDiscovery : AirCall ι → Bool
  | discover _ => true
  | _ => false

/-- The call takes a datagram off the network. -/
def AirCall.isRemoval : AirCall ι → Bool
  | collect _ => true
  | lose _ => true
  | _ => false

/-- What is in flight are announcements, and what is reported is a host other than the one that
reports it, with its key and address. -/
structure Air.Genuine (air : Air ι) : Prop where
  flight : ∀ entry ∈ air.flight, ∃ source, entry.2 = net.announcement source
  reports : ∀ report ∈ air.reports, ∃ source ≠ report.1,
    report.2 = discoPeer (net.announcement source)

end Defs

section Steps

variable {ι : Type*} {net : LocalNet ι} {air : Air ι}

/-- The message of a host: 38 bytes with the magic and its key. -/
theorem discoMessage_spec (id : Identity) :
    (discoMessage id).length = discoPayload ∧ (discoMessage id).take 4 = discoMagic ∧
      readAt 32 4 (discoMessage id) = id.pk := by
  refine ⟨?_, ?_, readAt_of_eq discoMagic id.pk (List.append_assoc _ _ _) rfl⟩
  · simp only [discoMessage, List.length_append, List.Vector.toList_length]
    rfl
  · rw [discoMessage, List.append_assoc]
    exact List.take_left' rfl

theorem LocalNet.received_announcement (who : ι) :
    (net.announcement who).received = net.announcement who := by
  have hsize := (discoMessage_spec (net.host who).keys).1
  rw [Datagram.received, LocalNet.announcement, List.take_of_length_le (le_of_eq hsize)]

theorem LocalNet.announced_own (who : ι) :
    announced (net.host who).keys (net.announcement who) = none := by
  rw [announced, LocalNet.announcement, (discoMessage_spec (net.host who).keys).2.2]
  exact if_neg fun hall ↦ hall.2.2 rfl

/-- Assumes: different hosts. -/
theorem LocalNet.announced_other {who source : ι} (hother : source ≠ who) :
    announced (net.host who).keys (net.announcement source) =
      some ((net.host source).keys.pk, koeVersionLocal) :=
  announced_discoMessage (fun heq ↦ hother (net.keys_injective source who heq)) _ _

theorem LocalNet.live_announcement (who source : ι) :
    net.live (who, net.announcement source) = true ↔ source ≠ who := by
  rw [LocalNet.live, isAnnouncement]
  constructor
  · rintro hlive rfl
    rw [net.announced_own] at hlive
    exact absurd hlive Bool.false_ne_true
  · intro hother
    rw [net.announced_other hother]
    rfl

/-- What a broadcast puts into the air. -/
theorem LocalNet.discover_sent (who : ι) :
    (koeTransportDiscover (net.listenFd who) (net.host who).keys []).sent.flatMap
        (net.arrives who) = net.hosts.map (·, net.announcement who) := by
  rw [koeTransportDiscover, if_neg (Int.not_lt.mpr (net.listenFd_nonneg who)),
    List.flatMap_singleton, LocalNet.arrives]
  exact if_pos rfl

/-- The own announcement is not answered. -/
theorem LocalNet.handle_own (who : ι) :
    koeTransportHandleDiscovery (net.listenFd who) (net.host who).keys
      (some (net.announcement who)) = ⟨0, [], [none]⟩ := by
  obtain ⟨hsize, hmagic, hown⟩ := discoMessage_spec (net.host who).keys
  rw [koeTransportHandleDiscovery, if_neg (Int.not_lt.mpr (net.listenFd_nonneg who))]
  dsimp only
  rw [net.received_announcement]
  simp [LocalNet.announcement, hsize, hmagic, hown]

/-- Another host's announcement is reported and answered with the own one. Assumes: different
hosts. -/
theorem LocalNet.handle_other {who source : ι} (hother : source ≠ who) :
    (koeTransportHandleDiscovery (net.listenFd who) (net.host who).keys
        (some (net.announcement source))).sent.flatMap (net.arrives who) =
          [(source, net.announcement who)] ∧
      (koeTransportHandleDiscovery (net.listenFd who) (net.host who).keys
        (some (net.announcement source))).calls =
          [some (discoPeer (net.announcement source))] := by
  have hkeys : (net.host source).keys.pk ≠ (net.host who).keys.pk :=
    fun heq ↦ hother (net.keys_injective source who heq)
  rw [LocalNet.announcement,
    koeTransportHandleDiscovery_broadcast (net.listenFd_nonneg who) hkeys]
  refine ⟨?_, rfl⟩
  rw [List.flatMap_singleton, LocalNet.arrives]
  dsimp only
  rw [if_neg (net.addr_ne source), net.route_host source]
  rfl

/-- Within the window of a discovery another host's announcement is reported. -/
theorem LocalNet.collect_spec {who source : ι} {peer : Peer}
    (hpeer : some peer ∈ collectReplies (net.host who).keys [net.announcement source]) :
    source ≠ who ∧ peer = discoPeer (net.announcement source) := by
  rw [collectReplies_cons, net.received_announcement] at hpeer
  by_cases hother : source = who
  · subst hother
    rw [net.announced_own] at hpeer
    exact absurd hpeer (by simp)
  · rw [net.announced_other hother] at hpeer
    exact ⟨hother, by simpa [collectReplies] using hpeer⟩

theorem countP_cons_toNat {α : Type*} (test : α → Bool) (entry : α) (entries : List α) :
    (entry :: entries).countP test = entries.countP test + (test entry).toNat := by
  rw [List.countP_cons]
  cases test entry <;> rfl

/-- Assumes: the entry at a place of a list. -/
theorem countP_eraseIdx_add {α : Type*} {entries : List α} {k : ℕ} {entry : α}
    (hentry : entries[k]? = some entry) (test : α → Bool) :
    entries.countP test = (entries.eraseIdx k).countP test + (test entry).toNat := by
  obtain ⟨hk, rfl⟩ := List.getElem?_eq_some_iff.mp hentry
  rw [← (List.getElem_cons_eraseIdx_perm hk).countP_eq test, countP_cons_toNat]

/-- A broadcast is in flight once for each other host. -/
theorem LocalNet.countP_broadcast (who : ι) :
    (net.hosts.map (·, net.announcement who)).countP net.live + 1 = net.hosts.length := by
  classical
  have hone : net.hosts.countP (fun other ↦ decide (other = who)) = 1 :=
    List.count_eq_one_of_mem net.nodup (net.complete who)
  have hrest : net.hosts.countP (net.live ∘ fun other ↦ (other, net.announcement who)) =
      net.hosts.countP fun other ↦ decide (¬ decide (other = who) = true) := by
    refine List.countP_congr fun other _ ↦ ?_
    rw [Function.comp_apply, net.live_announcement, decide_eq_true_iff, decide_eq_true_iff]
    exact ne_comm
  have hsplit := net.hosts.length_eq_countP_add_countP fun other ↦ decide (other = who)
  rw [List.countP_map, hrest, hsplit, hone, Nat.add_comm]

/-- A call adds genuine entries to genuine ones. -/
theorem Air.Genuine.add (hgenuine : air.Genuine net) {who : ι} {run : DiscoveryRun}
    (hsent : ∀ entry ∈ run.sent.flatMap (net.arrives who),
      ∃ source, entry.2 = net.announcement source)
    (hcalls : ∀ peer, some peer ∈ run.calls →
      ∃ source ≠ who, peer = discoPeer (net.announcement source)) :
    (air.add net who run).Genuine net := by
  constructor
  · intro entry hentry
    exact (List.mem_append.mp hentry).elim (hgenuine.flight entry) (hsent entry)
  · intro report hreport
    rcases List.mem_append.mp hreport with hold | hnew
    · exact hgenuine.reports report hold
    · obtain ⟨peer, hpeer, rfl⟩ := List.mem_map.mp hnew
      obtain ⟨call, hcall, heq⟩ := List.mem_filterMap.mp hpeer
      exact hcalls peer (heq ▸ hcall)

theorem Air.Genuine.drop (hgenuine : air.Genuine net) (k : ℕ) : (air.drop k).Genuine net where
  flight entry hentry := hgenuine.flight entry (List.mem_of_mem_eraseIdx hentry)
  reports := hgenuine.reports

/-- The delivery of another host's announcement. Assumes: such an announcement at a place of the
flight. -/
theorem Air.deliver_other {k : ℕ} {who source : ι} (hother : source ≠ who)
    (hentry : air.flight[k]? = some (who, net.announcement source)) :
    AirCall.step net air (.deliver k) =
      ⟨air.flight.eraseIdx k ++ [(source, net.announcement who)],
        air.reports ++ [(who, discoPeer (net.announcement source))]⟩ := by
  obtain ⟨hsent, hcalls⟩ := net.handle_other hother
  simp only [AirCall.step, hentry, Air.add, Air.drop, hsent, hcalls]
  rfl

/-- The delivery of the own announcement. Assumes: it is at a place of the flight. -/
theorem Air.deliver_own {k : ℕ} {who : ι}
    (hentry : air.flight[k]? = some (who, net.announcement who)) :
    AirCall.step net air (.deliver k) = ⟨air.flight.eraseIdx k, air.reports⟩ := by
  simp only [AirCall.step, hentry, net.handle_own]
  simp [Air.add, Air.drop]

/-- What is left without the datagram at a place. -/
theorem Air.countP_drop (air : Air ι) (k : ℕ) (test : ι × Datagram → Bool) :
    (air.drop k).flight.countP test + (air.flight[k]?.any test).toNat =
      air.flight.countP test := by
  rcases hentry : air.flight[k]? with _ | entry
  · rw [Air.drop, List.eraseIdx_of_length_le (List.getElem?_eq_none_iff.mp hentry)]
    rfl
  · exact (countP_eraseIdx_add hentry test).symm

theorem AirCall.removed_le (air : Air ι) (call : AirCall ι) :
    call.removed net air ≤ call.isRemoval.toNat := by
  cases call with
  | discover who => exact Nat.le_refl 0
  | deliver k => exact Nat.le_refl 0
  | collect k => exact Bool.toNat_le _
  | lose k => exact Bool.toNat_le _

theorem removals_le (calls : List (AirCall ι)) (air : Air ι) :
    removals net air calls ≤ calls.countP AirCall.isRemoval := by
  induction calls generalizing air with
  | nil => exact Nat.le_refl 0
  | cons call calls ih =>
    rw [removals, countP_cons_toNat, Nat.add_comm]
    exact Nat.add_le_add (ih (call.step net air)) (call.removed_le air)

/-- What a call does to the announcements in flight. Assumes: genuine entries. -/
theorem Air.Genuine.step (hgenuine : air.Genuine net) (call : AirCall ι) :
    (call.step net air).Genuine net ∧
      (call.step net air).flight.countP net.live + call.removed net air =
        air.flight.countP net.live + call.isDiscovery.toNat * (net.hosts.length - 1) := by
  cases call with
  | discover who =>
    have hsent := net.discover_sent who
    constructor
    · refine hgenuine.add ?_ ?_
      · rw [hsent]
        intro entry hentry
        obtain ⟨other, -, rfl⟩ := List.mem_map.mp hentry
        exact ⟨who, rfl⟩
      · intro peer hpeer
        rw [koeTransportDiscover, if_neg (Int.not_lt.mpr (net.listenFd_nonneg who))] at hpeer
        exact absurd hpeer List.not_mem_nil
    · have hcount := net.countP_broadcast who
      simp only [AirCall.step, Air.add, hsent, List.countP_append, AirCall.isDiscovery,
        AirCall.removed, Bool.toNat_true]
      omega
  | deliver k =>
    rcases hentry : air.flight[k]? with _ | ⟨who, dgram⟩
    · have hsame : AirCall.step net air (.deliver k) = air := by simp only [AirCall.step, hentry]
      rw [hsame]
      exact ⟨hgenuine, by simp [AirCall.isDiscovery, AirCall.removed]⟩
    · obtain ⟨source, heq⟩ := hgenuine.flight _ (List.mem_of_getElem? hentry)
      obtain rfl : dgram = net.announcement source := heq
      have hcount := countP_eraseIdx_add hentry net.live
      by_cases hother : source = who
      · subst hother
        have hnot : net.live (source, net.announcement source) = false := by
          rw [Bool.eq_false_iff, Ne, net.live_announcement]
          exact not_not.mpr rfl
        rw [Air.deliver_own hentry]
        refine ⟨hgenuine.drop k, ?_⟩
        simp only [hnot, Bool.toNat_false, AirCall.isDiscovery, AirCall.removed] at hcount ⊢
        omega
      · have hlive := (net.live_announcement who source).mpr hother
        have hback := (net.live_announcement source who).mpr (Ne.symm hother)
        rw [Air.deliver_other hother hentry]
        refine ⟨⟨?_, ?_⟩, ?_⟩
        · intro entry hmem
          rcases List.mem_append.mp hmem with hold | hnew
          · exact hgenuine.flight entry (List.mem_of_mem_eraseIdx hold)
          · exact ⟨who, by rw [List.mem_singleton.mp hnew]⟩
        · intro report hmem
          rcases List.mem_append.mp hmem with hold | hnew
          · exact hgenuine.reports report hold
          · exact ⟨source, by rw [List.mem_singleton.mp hnew]; exact ⟨hother, rfl⟩⟩
        · simp only [hlive, Bool.toNat_true, AirCall.isDiscovery, AirCall.removed,
            Bool.toNat_false, List.countP_append, List.countP_singleton, hback, if_true] at hcount ⊢
          omega
  | collect k =>
    rcases hentry : air.flight[k]? with _ | ⟨who, dgram⟩
    · have hsame : AirCall.step net air (.collect k) = air := by simp only [AirCall.step, hentry]
      rw [hsame]
      exact ⟨hgenuine, by simp [AirCall.isDiscovery, AirCall.removed, hentry]⟩
    · obtain ⟨source, heq⟩ := hgenuine.flight _ (List.mem_of_getElem? hentry)
      obtain rfl : dgram = net.announcement source := heq
      have hcount := air.countP_drop k net.live
      simp only [AirCall.step, hentry]
      refine ⟨(hgenuine.drop k).add ?_ ?_, ?_⟩
      · exact fun entry hmem ↦ absurd hmem List.not_mem_nil
      · intro peer hpeer
        exact ⟨source, net.collect_spec hpeer⟩
      · simp only [Air.add, List.flatMap_nil, List.append_nil, AirCall.isDiscovery,
          AirCall.removed, Bool.toNat_false]
        omega
  | lose k =>
    have hcount := air.countP_drop k net.live
    refine ⟨hgenuine.drop k, ?_⟩
    simp only [AirCall.step, AirCall.isDiscovery, AirCall.removed, Bool.toNat_false]
    omega

/-- The announcements in flight over a run. Assumes: genuine entries before it. -/
theorem Air.Genuine.run (calls : List (AirCall ι)) :
    ∀ {air : Air ι}, air.Genuine net →
      (calls.foldl (AirCall.step net) air).Genuine net ∧
        (calls.foldl (AirCall.step net) air).flight.countP net.live + removals net air calls =
          air.flight.countP net.live +
            calls.countP AirCall.isDiscovery * (net.hosts.length - 1) := by
  induction calls with
  | nil =>
    intro air hgenuine
    exact ⟨hgenuine, by simp [removals]⟩
  | cons call calls ih =>
    intro air hgenuine
    obtain ⟨hnext, hcount⟩ := hgenuine.step call
    obtain ⟨hlast, hrest⟩ := ih hnext
    refine ⟨hlast, ?_⟩
    rw [List.foldl_cons, countP_cons_toNat, Nat.add_mul, removals]
    omega

end Steps

/-- Announcements do not die out. In every run of a local network with nothing in flight, the
announcements of other hosts in flight are one for each discovery and other host, less those of them
that were lost or collected; in particular all of them when nothing was. What hosts report are other
hosts, with their keys and addresses. And the delivery of such an announcement reports a peer and
leaves as many in flight as before. -/
theorem koeTransportDiscovery_echoes {ι : Type*} (net : LocalNet ι) (calls : List (AirCall ι)) :
    let air := calls.foldl (AirCall.step net) ⟨[], []⟩
    air.flight.countP net.live + removals net ⟨[], []⟩ calls =
        calls.countP AirCall.isDiscovery * (net.hosts.length - 1) ∧
      removals net ⟨[], []⟩ calls ≤ calls.countP AirCall.isRemoval ∧
      (∀ report ∈ air.reports, ∃ source ≠ report.1,
        report.2 = discoPeer (net.announcement source)) ∧
      ∀ k entry, air.flight[k]? = some entry → net.live entry = true →
        ∃ source ≠ entry.1,
          (AirCall.step net air (.deliver k)).reports =
              air.reports ++ [(entry.1, discoPeer (net.announcement source))] ∧
            (AirCall.step net air (.deliver k)).flight.countP net.live =
              air.flight.countP net.live := by
  intro air
  have hstart : (⟨[], []⟩ : Air ι).Genuine net :=
    ⟨fun _ hmem ↦ absurd hmem List.not_mem_nil, fun _ hmem ↦ absurd hmem List.not_mem_nil⟩
  obtain ⟨hgenuine, hcount⟩ := hstart.run calls
  rw [List.countP_nil, Nat.zero_add] at hcount
  refine ⟨hcount, removals_le calls _, hgenuine.reports, ?_⟩
  rintro k ⟨who, dgram⟩ hentry hlive
  obtain ⟨source, heq⟩ := hgenuine.flight _ (List.mem_of_getElem? hentry)
  obtain rfl : dgram = net.announcement source := heq
  have hother := (net.live_announcement who source).mp hlive
  refine ⟨source, hother, by rw [Air.deliver_other hother hentry], ?_⟩
  obtain ⟨-, hsame⟩ := hgenuine.step (.deliver k)
  simpa [AirCall.removed, AirCall.isDiscovery] using hsame

/-- Two hosts with the addresses 1.1.1.1 and 2.2.2.2. -/
def twoHosts : LocalNet Bool where
  hosts := [false, true]
  nodup := by decide
  complete := by decide
  host who := ⟨Sodium.transparentIdentity (if who then 2 else 1),
    List.Vector.replicate 4 (if who then 2 else 1), koeDiscoveryPort⟩
  listenFd _ := 0
  listenFd_nonneg _ := Int.le_refl 0
  keys_injective := by decide
  route addr _ :=
    if addr = List.Vector.replicate 4 1 then some false
    else if addr = List.Vector.replicate 4 2 then some true
    else none
  route_host := by decide
  addr_ne := by decide

example :
    let calls : List (AirCall Bool) :=
      [.discover false, .deliver 1, .deliver 1, .deliver 1, .deliver 0]
    let air := calls.foldl (AirCall.step twoHosts) ⟨[], []⟩
    air.flight.countP twoHosts.live = 1 ∧ air.reports.map Prod.fst = [true, false, true] := by
  decide

end KoeCore
