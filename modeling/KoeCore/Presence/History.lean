import Mathlib.Data.List.Induction
import KoeCore.Library.Runs
import KoeCore.Presence.Table
import KoeCore.Transport.Discovery

/-!
# What presence entries owe to the calls

An entry of the presence table is there because of the updates of its peer, and its typing fields
should be there because of typing packets of that peer. `TypingRun` follows, beside the table,
which peers have sent a typing packet since their entry was made. A new entry is free of typing
state exactly when the place that it takes is (`TypingRun.owned_step_iff`), and expiry leaves what
was in a place behind, so a peer can show as typing who never typed (`koePresence_inherits_typing`).

The other fields do come from the last update of the peer (`records_run`). A query then follows
the lifetime of the transport of that update, except for peers last seen over Bluetooth
(`koePresenceGet_lifetime_iff`).
-/

set_option autoImplicit false
set_option relaxedAutoImplicit false

namespace KoeCore

open ByteWire

theorem PresenceTable.isSome_entryOf_iff {table : PresenceTable} {pk : Block 32} :
    (table.entryOf pk).isSome = true ↔ ∃ peer ∈ table.entries, peer.pk = pk := by
  rw [PresenceTable.entryOf, List.find?_isSome]
  simp only [PeerPresence.isFor_iff]

/-! ### Typing -/

/-- The presence table, and the peers from whom a typing packet was handled since their entry was
made. -/
structure TypingRun where
  table : PresenceTable
  typed : List (Block 32)

namespace TypingRun

def start : TypingRun := ⟨koePresenceInit, []⟩

/-- The peers who have typed, after a call. An update that makes an entry starts anew for its peer,
and a typing packet counts if its sender has an entry. -/
def typedAfter (run : TypingRun) : PresenceCall → List (Block 32)
  | .update _ pk _ _ =>
    if (run.table.entryOf pk).isSome then run.typed else run.typed.filter (· ≠ pk)
  | .handleTyping _ pkt =>
    if (run.table.entryOf pkt.header.fromPk).isSome then pkt.header.fromPk :: run.typed
    else run.typed
  | .expire _ => run.typed

def step (run : TypingRun) (call : PresenceCall) : TypingRun :=
  ⟨call.step run.table, run.typedAfter call⟩

/-- A peer without a typing packet since its entry was made shows no typing state. -/
def Owned (run : TypingRun) : Prop :=
  ∀ peer ∈ run.table.entries, peer.pk ∉ run.typed → peer.isTyping = 0 ∧ peer.typingStartedAt = 0

instance decidableOwned (run : TypingRun) : Decidable run.Owned :=
  inferInstanceAs (Decidable (∀ peer ∈ run.table.entries, peer.pk ∉ run.typed →
    peer.isTyping = 0 ∧ peer.typingStartedAt = 0))

/-- An update that makes an entry finds no typing state in the place that it takes. -/
def FindsClear (run : TypingRun) : PresenceCall → Prop
  | .update _ pk _ _ =>
    (∀ peer ∈ run.table.entries, peer.pk ≠ pk) → run.table.count < koePresenceMaxPeers →
      (run.table.peers run.table.count).isTyping = 0 ∧
        (run.table.peers run.table.count).typingStartedAt = 0
  | .handleTyping _ _ => True
  | .expire _ => True

theorem owned_start : start.Owned := fun _ hpeer ↦ absurd hpeer List.not_mem_nil

variable {run : TypingRun}

/-- Assumes: a peer with an entry. -/
theorem typedAfter_known {pk : Block 32} (hknown : ∃ peer ∈ run.table.entries, peer.pk = pk)
    (now : ℤ) (state : PresenceState) (transport : ℤ) :
    run.typedAfter (.update now pk state transport) = run.typed :=
  if_pos (PresenceTable.isSome_entryOf_iff.mpr hknown)

/-- Assumes: a peer without an entry. -/
theorem typedAfter_new {pk : Block 32} (hnew : ∀ peer ∈ run.table.entries, peer.pk ≠ pk)
    (now : ℤ) (state : PresenceState) (transport : ℤ) :
    run.typedAfter (.update now pk state transport) = run.typed.filter (· ≠ pk) := by
  refine if_neg fun hsome ↦ ?_
  obtain ⟨peer, hpeer, hpk⟩ := PresenceTable.isSome_entryOf_iff.mp hsome
  exact hnew peer hpeer hpk

/-- An update keeps typing state with its peers exactly when an entry that it makes takes over none.
Assumes: typing state with its peers before. -/
theorem owned_update_iff (howned : run.Owned) (now : ℤ) (pk : Block 32) (state : PresenceState)
    (transport : ℤ) :
    (run.step (.update now pk state transport)).Owned ↔
      run.FindsClear (.update now pk state transport) := by
  -- For the other peers nothing changes when the peer of the update starts anew.
  have hothers {peer : PeerPresence} (hpk : peer.pk ≠ pk)
      (hout : peer.pk ∉ run.typed.filter (· ≠ pk)) : peer.pk ∉ run.typed := fun hin ↦
    hout (List.mem_filter.mpr ⟨hin, decide_eq_true hpk⟩)
  change (∀ peer ∈ (koePresenceUpdate now run.table pk state transport).entries,
    peer.pk ∉ run.typedAfter (.update now pk state transport) → _) ↔ _
  obtain ⟨hknown, -, hentries⟩ | ⟨hnew, hroom, -, hentries⟩ | ⟨hnew, hfull, hsame⟩ :=
    koePresenceUpdate_cases run.table now pk state transport
  · rw [hentries, typedAfter_known hknown]
    constructor
    · intro _ hnew
      obtain ⟨peer, hpeer, hpk⟩ := hknown
      exact absurd hpk (hnew peer hpeer)
    · intro _ peer hpeer hout
      rcases Slots.mem_updateFirst hpeer with hold | ⟨old, hold, -, rfl⟩
      · exact howned peer hold hout
      · exact howned old hold hout
  · rw [hentries, typedAfter_new hnew]
    constructor
    · intro hafter _ _
      have hadded : run.table.newEntry now pk state transport ∈
          run.table.entries ++ [run.table.newEntry now pk state transport] :=
        List.mem_append_right _ (List.mem_singleton_self _)
      refine hafter (run.table.newEntry now pk state transport) hadded fun hin ↦ ?_
      exact of_decide_eq_true (List.mem_filter.mp hin).2 rfl
    · intro hclear peer hpeer hout
      rcases List.mem_append.mp hpeer with hold | hadded
      · exact howned peer hold (hothers (hnew peer hold) hout)
      · rw [List.mem_singleton.mp hadded]
        exact hclear hnew hroom
  · rw [hsame, typedAfter_new hnew]
    constructor
    · intro _ _ hroom
      exact absurd hroom hfull
    · intro _ peer hpeer hout
      exact howned peer hpeer (hothers (hnew peer hpeer) hout)

theorem owned_handleTyping (howned : run.Owned) (now : ℤ) (pkt : Packet) :
    (run.step (.handleTyping now pkt)).Owned := by
  obtain ⟨-, hentries⟩ := koePresenceHandleTyping_entries run.table now pkt
  intro peer hpeer hout
  change peer ∈ (koePresenceHandleTyping now run.table pkt).entries at hpeer
  change peer.pk ∉ run.typedAfter (.handleTyping now pkt) at hout
  rw [hentries] at hpeer
  rw [typedAfter] at hout
  rcases Slots.mem_updateFirst hpeer with hold | ⟨old, hold, htest, rfl⟩
  · refine howned peer hold fun hin ↦ hout ?_
    split_ifs
    · exact List.mem_cons_of_mem _ hin
    · exact hin
  · -- The sender of the packet has an entry, so it is among those who have typed.
    have hpk : old.pk = pkt.header.fromPk := PeerPresence.isFor_iff.mp htest
    rw [if_pos (PresenceTable.isSome_entryOf_iff.mpr ⟨old, hold, hpk⟩)] at hout
    exact absurd (List.mem_cons.mpr (Or.inl hpk)) hout

theorem owned_step_iff (howned : run.Owned) (call : PresenceCall) :
    (run.step call).Owned ↔ run.FindsClear call := by
  cases call with
  | update now pk state transport => exact owned_update_iff howned now pk state transport
  | handleTyping now pkt => exact iff_of_true (owned_handleTyping howned now pkt) trivial
  | expire now =>
    refine iff_of_true (fun peer hpeer hout ↦ ?_) trivial
    exact howned peer (mem_entries_expire.mp hpeer).1 hout

end TypingRun

/-- In a run from the empty table, typing state stays with its peers after every call exactly when
each update that makes an entry finds no typing state in the place that it takes. -/
theorem koePresence_typing_iff (calls : List PresenceCall) :
    Runs.AllSteps TypingRun.step (fun run call ↦ (run.step call).Owned) TypingRun.start calls ↔
      Runs.AllSteps TypingRun.step TypingRun.FindsClear TypingRun.start calls := by
  have hiff (run : TypingRun) (call : PresenceCall) (howned : run.Owned) :
      (run.step call).Owned ↔ run.FindsClear call := TypingRun.owned_step_iff howned call
  exact Runs.allSteps_iff_of_invariant hiff (fun _ _ _ hafter ↦ hafter) TypingRun.owned_start calls

/-- A peer is online, types, and expires; the next peer takes its place and shows as typing. -/
theorem koePresence_inherits_typing :
    let first : Block 32 := Block.zero 32
    let second : Block 32 := List.Vector.replicate 32 1
    let typing : Packet := koePacketInit PacketType.typing.code PacketFlag.encrypted.mask
    let calls : List PresenceCall :=
      [.update 0 first .online 3, .handleTyping 90 typing, .expire 91, .update 91 second .online 3]
    typing.header.fromPk = first ∧
      (calls.foldl PresenceCall.step koePresenceInit).entries =
        [⟨second, .online, 91, 3, 1, 90⟩] ∧
      koePresenceTypingExpired 92 ⟨second, .online, 91, 3, 1, 90⟩ = 0 ∧
      ¬ (calls.foldl TypingRun.step TypingRun.start).Owned := by
  decide +kernel

/-! ### The last update -/

/-- The lifetime that the header gives a peer last seen over the transport; it gives none for
`KOE_TRANSPORT_NONE`. -/
def TransportType.lifetime : TransportType → Option ℤ
  | .none => Option.none
  | .wifiDirect => some koePresenceTtlLocal
  | .bluetooth => some koePresenceTtlLocal
  | .tcpRelay => some koePresenceTtlRelay
  | .websocket => some koePresenceTtlRelay

/-- What an update says of its peer, and when. -/
structure PresenceUpdate where
  now : ℤ
  state : PresenceState
  transport : ℤ
deriving DecidableEq

/-- The update that a call makes of a peer. -/
def PresenceCall.updateOf (pk : Block 32) : PresenceCall → Option PresenceUpdate
  | update now other state transport => if other = pk then some ⟨now, state, transport⟩ else none
  | handleTyping _ _ => none
  | expire _ => none

/-- The last update of a peer in a run. -/
def lastUpdate (calls : List PresenceCall) (pk : Block 32) : Option PresenceUpdate :=
  (calls.filterMap (PresenceCall.updateOf pk)).getLast?

/-- The update that an entry holds. -/
def PeerPresence.update (peer : PeerPresence) : PresenceUpdate :=
  ⟨peer.lastSeen, peer.state, peer.transport⟩

/-- The entries hold the given updates of their peers. -/
def PresenceTable.Records (table : PresenceTable) (last : Block 32 → Option PresenceUpdate) :
    Prop :=
  ∀ peer ∈ table.entries, last peer.pk = some peer.update

section Records

variable {table : PresenceTable} {last : Block 32 → Option PresenceUpdate}

theorem lastUpdate_append (calls : List PresenceCall) (call : PresenceCall) (pk : Block 32) :
    lastUpdate (calls ++ [call]) pk = (call.updateOf pk).or (lastUpdate calls pk) := by
  rw [lastUpdate, List.filterMap_append, List.getLast?_append]
  cases hupdate : call.updateOf pk with
  | none => simp [hupdate, lastUpdate]
  | some update => simp [hupdate]

theorem PresenceCall.updateOf_of_ne {pk other : Block 32} (hne : pk ≠ other) (now : ℤ)
    (state : PresenceState) (transport : ℤ) :
    (PresenceCall.update now other state transport).updateOf pk = none :=
  if_neg hne.symm

theorem records_update (hsound : table.Sound) (hrecords : table.Records last) (now : ℤ)
    (pk : Block 32) (state : PresenceState) (transport : ℤ) :
    (koePresenceUpdate now table pk state transport).Records fun other ↦
      ((PresenceCall.update now pk state transport).updateOf other).or (last other) := by
  have hafter : (koePresenceUpdate now table pk state transport).Sound :=
    sound_presenceStep hsound (.update now pk state transport)
  have hothers {peer : PeerPresence} (hpeer : peer ∈ table.entries) (hne : peer.pk ≠ pk) :
      ((PresenceCall.update now pk state transport).updateOf peer.pk).or (last peer.pk) =
        some peer.update := by
    rw [PresenceCall.updateOf_of_ne hne, Option.none_or]
    exact hrecords peer hpeer
  have hsame : (PresenceCall.update now pk state transport).updateOf pk =
      some ⟨now, state, transport⟩ := if_pos rfl
  intro peer hpeer
  obtain ⟨⟨known, hknown, hpk⟩, -, hentries⟩ | ⟨hnew, -, -, hentries⟩ | ⟨hnew, -, hunchanged⟩ :=
    koePresenceUpdate_cases table now pk state transport
  · by_cases hne : peer.pk = pk
    · have hany : table.entries.any (PeerPresence.isFor pk) = true :=
        List.any_eq_true.mpr ⟨known, hknown, PeerPresence.isFor_iff.mpr hpk⟩
      obtain ⟨slot, back, htest, -, hupdate⟩ :=
        Slots.updateFirst_eq hany (PeerPresence.seen now state transport)
      have hslot : slot.seen now state transport ∈
          (koePresenceUpdate now table pk state transport).entries := by
        rw [hentries, hupdate]
        exact List.mem_append_right _ List.mem_cons_self
      have hslotPk : (slot.seen now state transport).pk = pk := PeerPresence.isFor_iff.mp htest
      have heq : peer = slot.seen now state transport :=
        List.inj_on_of_nodup_map hafter.distinct hpeer hslot (hne.trans hslotPk.symm)
      simp only [hne, hsame, Option.some_or]
      rw [heq]
      rfl
    · rw [hentries] at hpeer
      rcases Slots.mem_updateFirst hpeer with hold | ⟨old, -, htest, rfl⟩
      · exact hothers hold hne
      · exact absurd (PeerPresence.isFor_iff.mp htest) hne
  · rw [hentries] at hpeer
    rcases List.mem_append.mp hpeer with hold | hadded
    · exact hothers hold (hnew peer hold)
    · obtain rfl := List.mem_singleton.mp hadded
      change (PresenceCall.updateOf pk _).or _ = _
      rw [hsame]
      rfl
  · rw [hunchanged] at hpeer
    exact hothers hpeer (hnew peer hpeer)

/-- Every call keeps the last updates in the entries. -/
theorem records_step (hsound : table.Sound) (hrecords : table.Records last) (call : PresenceCall) :
    (call.step table).Records fun pk ↦ (call.updateOf pk).or (last pk) := by
  cases call with
  | update now pk state transport => exact records_update hsound hrecords now pk state transport
  | handleTyping now pkt =>
    intro peer hpeer
    change peer ∈ (koePresenceHandleTyping now table pkt).entries at hpeer
    rw [(koePresenceHandleTyping_entries table now pkt).2] at hpeer
    rcases Slots.mem_updateFirst hpeer with hold | ⟨old, hold, -, rfl⟩
    · exact hrecords peer hold
    · exact hrecords old hold
  | expire now =>
    intro peer hpeer
    exact hrecords peer (mem_entries_expire.mp hpeer).1

theorem records_run (calls : List PresenceCall) :
    (calls.foldl PresenceCall.step koePresenceInit).Records (lastUpdate calls) := by
  induction calls using List.reverseRecOn with
  | nil => exact fun _ hpeer ↦ absurd hpeer List.not_mem_nil
  | append_singleton calls call ih =>
    have hstep := records_step (sound_presenceRun calls) ih call
    rw [List.foldl_append]
    intro peer hpeer
    rw [lastUpdate_append]
    exact hstep peer hpeer

end Records

/-! ### Lifetimes -/

/-- What a query has to answer for a peer with an entry: the state of the last update, for as long
as the lifetime of its transport. -/
def PresenceUpdate.FollowedBy (update : PresenceUpdate) (now : ℤ) (answer : PresenceState) : Prop :=
  ∀ type : TransportType, type.code = update.transport → ∀ lifetime, type.lifetime = some lifetime →
    answer = if now - update.now > lifetime then .offline else update.state

/-- After the calls, a query for the peer follows the lifetime of its transport. -/
def LifetimeFollowed (calls : List PresenceCall) (now : ℤ) (pk : Block 32) : Prop :=
  let table := calls.foldl PresenceCall.step koePresenceInit
  (table.entryOf pk = none → koePresenceGet now table pk = .offline) ∧
    ((table.entryOf pk).isSome → ∃ update, lastUpdate calls pk = some update ∧
      update.FollowedBy now (koePresenceGet now table pk))

/-- The update came over Bluetooth, and its state is shown between the two lifetimes. -/
def PresenceUpdate.Overstays (update : PresenceUpdate) (now : ℤ) : Prop :=
  update.transport = TransportType.bluetooth.code ∧ update.state ≠ .offline ∧
    koePresenceTtlLocal < now - update.now ∧ now - update.now ≤ koePresenceTtlRelay

/-- The lifetime that the code uses: the short one for Wi-Fi Direct alone, whose code is that of
`KOE_PRESENCE_ONLINE`. -/
theorem PeerPresence.ttl_eq {peer : PeerPresence} {type : TransportType}
    (htype : type.code = peer.transport) :
    peer.ttl = if type = .wifiDirect then koePresenceTtlLocal else koePresenceTtlRelay := by
  rw [PeerPresence.ttl, ← htype]
  cases type <;> rfl

/-- What a query shows of an entry follows the lifetime of its transport, unless it overstays. -/
theorem PeerPresence.followedBy_shown_iff (peer : PeerPresence) (now : ℤ) :
    peer.update.FollowedBy now (peer.shown now) ↔ ¬ peer.update.Overstays now := by
  constructor
  · rintro hfollowed ⟨htype, hstate, hlocal, hrelay⟩
    have hanswer := hfollowed .bluetooth htype.symm _ rfl
    have httl : peer.ttl = koePresenceTtlRelay := PeerPresence.ttl_eq htype.symm
    have hshown : peer.shown now = peer.state := by
      rw [PeerPresence.shown, httl]
      exact if_neg (not_lt.mpr hrelay)
    rw [if_pos hlocal, hshown] at hanswer
    exact hstate hanswer
  · intro hstays type htype lifetime hlifetime
    have httl := PeerPresence.ttl_eq htype
    cases type with
    | none => exact absurd hlifetime (by simp [TransportType.lifetime])
    | wifiDirect =>
      obtain rfl := Option.some.inj hlifetime
      rw [PeerPresence.shown, httl]
      rfl
    | bluetooth =>
      obtain rfl := Option.some.inj hlifetime
      rw [PeerPresence.shown, httl]
      change (if now - peer.lastSeen > koePresenceTtlRelay then _ else peer.state) =
        if now - peer.lastSeen > koePresenceTtlLocal then _ else peer.state
      split_ifs with hrelay hlocal hlocal
      · rfl
      · exact absurd (lt_trans (by decide) hrelay) hlocal
      · by_contra hstate
        exact hstays ⟨htype.symm, hstate, hlocal, not_lt.mp hrelay⟩
      · rfl
    | tcpRelay =>
      obtain rfl := Option.some.inj hlifetime
      rw [PeerPresence.shown, httl]
      rfl
    | websocket =>
      obtain rfl := Option.some.inj hlifetime
      rw [PeerPresence.shown, httl]
      rfl

/-- A query follows the lifetime of the transport of the last update of its peer, except for a peer
with an entry whose last update came over Bluetooth, is not of the offline state and is more than 30
and at most 90 seconds old. -/
theorem koePresenceGet_lifetime_iff (calls : List PresenceCall) (now : ℤ) (pk : Block 32) :
    LifetimeFollowed calls now pk ↔
      ¬ (((calls.foldl PresenceCall.step koePresenceInit).entryOf pk).isSome ∧
        ∃ update, lastUpdate calls pk = some update ∧ update.Overstays now) := by
  have hrecords := records_run calls
  unfold LifetimeFollowed
  generalize calls.foldl PresenceCall.step koePresenceInit = table at hrecords
  have hquery := koePresenceGet_eq table now pk
  cases hentry : table.entryOf pk with
  | none =>
    rw [hentry] at hquery
    simp [hentry, hquery]
  | some peer =>
    have hpk : peer.pk = pk := PeerPresence.isFor_iff.mp (List.find?_some hentry)
    have hlast : lastUpdate calls pk = some peer.update :=
      hpk ▸ hrecords peer (List.mem_of_find?_eq_some hentry)
    have hanswer : koePresenceGet now table pk = peer.shown now := by
      rw [hquery, hentry]
      rfl
    simp [hentry, hlast, hanswer, peer.followedBy_shown_iff now]

/-- A peer seen over Bluetooth is still shown after 31 seconds. -/
theorem koePresenceGet_bluetooth_overstays :
    let peer : Block 32 := Block.zero 32
    let calls : List PresenceCall := [.update 0 peer .online TransportType.bluetooth.code]
    koePresenceGet 31 (calls.foldl PresenceCall.step koePresenceInit) peer = .online ∧
      TransportType.bluetooth.lifetime = some 30 ∧
      lastUpdate calls peer = some ⟨0, .online, TransportType.bluetooth.code⟩ ∧
      ¬ LifetimeFollowed calls 31 peer := by
  intro peer calls
  have hquery : koePresenceGet 31 (calls.foldl PresenceCall.step koePresenceInit) peer =
      .online := by
    decide +kernel
  have hlast : lastUpdate calls peer = some ⟨0, .online, TransportType.bluetooth.code⟩ := by
    decide +kernel
  have hentry : (calls.foldl PresenceCall.step koePresenceInit).entryOf peer =
      some ⟨peer, .online, 0, TransportType.bluetooth.code, 0, 0⟩ := by
    decide +kernel
  refine ⟨hquery, rfl, hlast, fun hfollowed ↦ ?_⟩
  obtain ⟨update, hupdate, hfollowed⟩ := hfollowed.2 (Option.isSome_iff_exists.mpr ⟨_, hentry⟩)
  obtain rfl := Option.some.inj (hlast.symm.trans hupdate)
  have hanswer := hfollowed .bluetooth rfl _ rfl
  rw [hquery] at hanswer
  exact absurd hanswer (by decide)

end KoeCore
