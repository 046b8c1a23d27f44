import KoeCore.Library.Loops
import KoeCore.Library.Windows
import KoeCore.Messaging.Builders

/-!
# The presence table

The peers of `koe_presence.c` lie in the first `count` of 512 places. An update changes the place of
its peer or takes the next one, and expiry moves the last peer in use into each place that it frees,
without going on to the next place, so that the peer moved is looked at too. Places from `count` on
keep what was last written to them, and a new peer takes over the typing fields that it finds.

`PresenceTable.entries` are the peers in use. What the functions do to them is
`koePresenceUpdate_cases`, `koePresenceHandleTyping_entries` and `koePresenceExpire_entries`: the
loop of the last one ends (`expireRounds_ended`), and the peers that are not stale are kept, in some
order. No peer is in the table twice (`sound_presenceStep`), and then expiry takes nothing away that
a query would still have shown (`koePresenceGet_expire`). `koePresence_expiry` collects this for
every run.
-/

set_option autoImplicit false
set_option relaxedAutoImplicit false

namespace KoeCore

open ByteWire

/-- `KOE_PRESENCE_TTL_LOCAL`. -/
def koePresenceTtlLocal : ℤ := 30

/-- `KOE_PRESENCE_TTL_RELAY`. -/
def koePresenceTtlRelay : ℤ := 90

/-- `KOE_PRESENCE_MAX_PEERS`. -/
def koePresenceMaxPeers : ℕ := 512

/-- `koe_peer_presence_t`. -/
structure PeerPresence where
  pk : Block 32
  state : PresenceState
  lastSeen : ℤ
  transport : ℤ
  isTyping : ℤ
  typingStartedAt : ℤ
deriving DecidableEq

/-- The entry that `memset(.., 0, ..)` leaves. -/
def PeerPresence.zero : PeerPresence := ⟨Block.zero 32, .offline, 0, 0, 0, 0⟩

/-- `koe_presence_table_t`, without our own state. The array is a function on indices. -/
structure PresenceTable where
  peers : ℕ → PeerPresence
  count : ℕ

/-! ### The functions -/

def koePresenceInit : PresenceTable := ⟨fun _ ↦ PeerPresence.zero, 0⟩

/-- The test of the searching loops: equal keys. -/
def PeerPresence.isFor (pk : Block 32) (peer : PeerPresence) : Bool := peer.pk == pk

/-- The index at which the searching loops stop. -/
def PresenceTable.indexOf (table : PresenceTable) (pk : Block 32) : Option ℕ :=
  Windows.firstIndex (PeerPresence.isFor pk) table.peers table.count

/-- `peers[i] = peer`. -/
def PresenceTable.write (table : PresenceTable) (i : ℕ) (peer : PeerPresence) : PresenceTable :=
  { table with peers := Function.update table.peers i peer }

/-- The fields that an update sets in the entry of a peer. -/
def PeerPresence.seen (now : ℤ) (state : PresenceState) (transport : ℤ) (peer : PeerPresence) :
    PeerPresence :=
  { peer with state := state, lastSeen := now, transport := transport }

def koePresenceUpdate (now : ℤ) (table : PresenceTable) (pk : Block 32) (state : PresenceState)
    (transport : ℤ) : PresenceTable :=
  match table.indexOf pk with
  | some i => table.write i ((table.peers i).seen now state transport)
  | none =>
    if table.count < koePresenceMaxPeers then
      -- The typing fields of the place are left as they are.
      { table.write table.count
          ({ table.peers table.count with pk := pk }.seen now state transport) with
        count := table.count + 1 }
    else table

/-- The seconds for which `koe_presence_get` shows a peer. It compares the transport with a presence
state. -/
def PeerPresence.ttl (peer : PeerPresence) : ℤ :=
  if peer.transport = PresenceState.online.code.toNat then koePresenceTtlLocal
  else koePresenceTtlRelay

def koePresenceGet (now : ℤ) (table : PresenceTable) (pk : Block 32) : PresenceState :=
  match table.indexOf pk with
  | some i =>
    if now - (table.peers i).lastSeen > (table.peers i).ttl then .offline
    else (table.peers i).state
  | none => .offline

/-- The variables of the loop of `koe_presence_expire`. -/
structure ExpireLoop where
  i : ℕ
  removed : ℕ
  table : PresenceTable

/-- The age from which expiry removes an entry. -/
def PeerPresence.stale (now : ℤ) (peer : PeerPresence) : Bool :=
  decide (now - peer.lastSeen > koePresenceTtlRelay)

/-- `i < table->count`. -/
def ExpireLoop.test (loop : ExpireLoop) : Bool := decide (loop.i < loop.table.count)

/-- One round: `table->peers[i] = table->peers[--table->count]`, or on to the next entry. -/
def ExpireLoop.body (now : ℤ) (loop : ExpireLoop) : ExpireLoop :=
  if (loop.table.peers loop.i).stale now then
    { loop with
      removed := loop.removed + 1
      table :=
        { loop.table.write loop.i (loop.table.peers (loop.table.count - 1)) with
          count := loop.table.count - 1 } }
  else { loop with i := loop.i + 1 }

/-- The loop, followed for a number of rounds. -/
def expireRounds (now : ℤ) (table : PresenceTable) (n : ℕ) : ExpireLoop :=
  Loops.rounds ExpireLoop.test (ExpireLoop.body now) n ⟨0, 0, table⟩

/-- The return code, and the table after the call. As many rounds as there are entries are enough
(`expireRounds_ended`). -/
def koePresenceExpire (now : ℤ) (table : PresenceTable) : ℤ × PresenceTable :=
  ((expireRounds now table table.count).removed, (expireRounds now table table.count).table)

/-- The fields that a typing packet sets in the entry of its sender. -/
def PeerPresence.typing (now : ℤ) (peer : PeerPresence) : PeerPresence :=
  { peer with isTyping := 1, typingStartedAt := now }

def koePresenceHandleTyping (now : ℤ) (table : PresenceTable) (pkt : Packet) : PresenceTable :=
  match table.indexOf pkt.header.fromPk with
  | some i => table.write i ((table.peers i).typing now)
  | none => table

def koePresenceTypingExpired (now : ℤ) (peer : PeerPresence) : ℤ :=
  if peer.isTyping = 0 then 0 else if now - peer.typingStartedAt > 5 then 1 else 0

/-! ### The entries in use -/

/-- The peers in use. -/
def PresenceTable.entries (table : PresenceTable) : List PeerPresence :=
  Windows.window table.peers table.count

/-- The entry of a peer. -/
def PresenceTable.entryOf (table : PresenceTable) (pk : Block 32) : Option PeerPresence :=
  table.entries.find? (PeerPresence.isFor pk)

/-- What a query shows of an entry. -/
def PeerPresence.shown (now : ℤ) (peer : PeerPresence) : PresenceState :=
  if now - peer.lastSeen > peer.ttl then .offline else peer.state

section Entries

variable {table : PresenceTable}

theorem PeerPresence.isFor_iff {pk : Block 32} {peer : PeerPresence} :
    peer.isFor pk = true ↔ peer.pk = pk := by
  rw [PeerPresence.isFor, beq_iff_eq]

@[simp] theorem PresenceTable.length_entries : table.entries.length = table.count :=
  Windows.length_window

theorem PresenceTable.entryOf_eq (pk : Block 32) :
    table.entryOf pk = (table.indexOf pk).map table.peers :=
  (Windows.firstIndex_map _).symm

/-- A query shows the entry of the peer, or that the peer is offline. -/
theorem koePresenceGet_eq (table : PresenceTable) (now : ℤ) (pk : Block 32) :
    koePresenceGet now table pk =
      ((table.entryOf pk).map (PeerPresence.shown now)).getD .offline := by
  rw [koePresenceGet, PresenceTable.entryOf_eq]
  cases table.indexOf pk with
  | none => rfl
  | some i => rfl

theorem PresenceTable.indexOf_eq_none_iff {pk : Block 32} :
    table.indexOf pk = none ↔ ∀ peer ∈ table.entries, peer.pk ≠ pk := by
  have htest (peer : PeerPresence) : peer.isFor pk = false ↔ peer.pk ≠ pk := by
    rw [← Bool.not_eq_true, PeerPresence.isFor_iff]
  rw [PresenceTable.indexOf, Windows.firstIndex_eq_none_iff]
  exact forall₂_congr fun peer _ ↦ htest peer

/-- The entry that an update writes for a peer without one. -/
def PresenceTable.newEntry (table : PresenceTable) (now : ℤ) (pk : Block 32)
    (state : PresenceState) (transport : ℤ) : PeerPresence :=
  { table.peers table.count with pk := pk }.seen now state transport

/-- What an update can do: it marks the first entry of a known peer as seen, appends one for a new
peer, or does nothing, for want of room. -/
theorem koePresenceUpdate_cases (table : PresenceTable) (now : ℤ) (pk : Block 32)
    (state : PresenceState) (transport : ℤ) :
    ((∃ peer ∈ table.entries, peer.pk = pk) ∧
      (koePresenceUpdate now table pk state transport).count = table.count ∧
      (koePresenceUpdate now table pk state transport).entries =
        Slots.updateFirst (PeerPresence.isFor pk) (PeerPresence.seen now state transport)
          table.entries) ∨
    ((∀ peer ∈ table.entries, peer.pk ≠ pk) ∧ table.count < koePresenceMaxPeers ∧
      (koePresenceUpdate now table pk state transport).count = table.count + 1 ∧
      (koePresenceUpdate now table pk state transport).entries =
        table.entries ++ [table.newEntry now pk state transport]) ∨
    ((∀ peer ∈ table.entries, peer.pk ≠ pk) ∧ ¬ table.count < koePresenceMaxPeers ∧
      koePresenceUpdate now table pk state transport = table) := by
  cases hindex : table.indexOf pk with
  | some i =>
    have hknown : ∃ peer ∈ table.entries, peer.pk = pk := by
      by_contra hnone
      have hnew := PresenceTable.indexOf_eq_none_iff.mpr fun peer hpeer hpk ↦
        hnone ⟨peer, hpeer, hpk⟩
      exact Option.some_ne_none i (hindex.symm.trans hnew)
    simp only [koePresenceUpdate, hindex]
    exact Or.inl ⟨hknown, rfl, Windows.window_updateFirst hindex _⟩
  | none =>
    have hnew := PresenceTable.indexOf_eq_none_iff.mp hindex
    by_cases hroom : table.count < koePresenceMaxPeers
    · have hwritten : koePresenceUpdate now table pk state transport =
          { table.write table.count (table.newEntry now pk state transport) with
            count := table.count + 1 } := by
        simp only [koePresenceUpdate, hindex, if_pos hroom]
        rfl
      rw [hwritten]
      exact Or.inr (Or.inl ⟨hnew, hroom, rfl, Windows.window_push _⟩)
    · refine Or.inr (Or.inr ⟨hnew, hroom, ?_⟩)
      simp only [koePresenceUpdate, hindex, if_neg hroom]

/-- A typing packet marks the first entry of its sender, if there is one. -/
theorem koePresenceHandleTyping_entries (table : PresenceTable) (now : ℤ) (pkt : Packet) :
    (koePresenceHandleTyping now table pkt).count = table.count ∧
      (koePresenceHandleTyping now table pkt).entries =
        Slots.updateFirst (PeerPresence.isFor pkt.header.fromPk) (PeerPresence.typing now)
          table.entries := by
  cases hindex : table.indexOf pkt.header.fromPk with
  | none =>
    have hsame : koePresenceHandleTyping now table pkt = table := by
      simp only [koePresenceHandleTyping, hindex]
    rw [hsame]
    exact ⟨rfl, (Slots.updateFirst_of_forall (Windows.firstIndex_eq_none_iff.mp hindex) _).symm⟩
  | some i =>
    simp only [koePresenceHandleTyping, hindex]
    exact ⟨rfl, Windows.window_updateFirst hindex _⟩

end Entries

/-! ### Expiry -/

section Expiry

variable {now : ℤ} {table : PresenceTable}

/-- Each round leaves one entry less to look at. -/
theorem ExpireLoop.body_falls (loop : ExpireLoop) (htest : loop.test = true) :
    (loop.body now).table.count - (loop.body now).i < loop.table.count - loop.i := by
  have hlt : loop.i < loop.table.count := of_decide_eq_true htest
  unfold ExpireLoop.body
  split_ifs
  · change loop.table.count - 1 - loop.i < _
    omega
  · change loop.table.count - (loop.i + 1) < _
    omega

/-- The loop ends after at most as many rounds as there are entries. -/
theorem expireRounds_ended (now : ℤ) {n : ℕ} (hn : table.count ≤ n) :
    (expireRounds now table n).test = false :=
  Loops.rounds_ended (fun loop ↦ loop.table.count - loop.i) ExpireLoop.body_falls n hn

/-- What the loop has done so far: the entries are those in use at the start without some stale
ones, as many as were counted, and the entries before `i` are not stale. -/
structure ExpireLoop.Sweeps (now : ℤ) (table : PresenceTable) (loop : ExpireLoop) : Prop where
  taken : ∃ gone, (gone ++ loop.table.entries).Perm table.entries ∧ gone.length = loop.removed ∧
    ∀ peer ∈ gone, peer.stale now = true
  fresh : ∀ k < loop.i, (loop.table.peers k).stale now = false
  le_count : loop.i ≤ loop.table.count

theorem sweeps_start (now : ℤ) (table : PresenceTable) :
    ExpireLoop.Sweeps now table ⟨0, 0, table⟩ where
  taken := ⟨[], List.Perm.refl _, rfl, fun _ hpeer ↦ absurd hpeer List.not_mem_nil⟩
  fresh := fun k hk ↦ absurd hk (Nat.not_lt_zero k)
  le_count := Nat.zero_le _

theorem ExpireLoop.Sweeps.body {loop : ExpireLoop} (hsweeps : loop.Sweeps now table)
    (htest : loop.test = true) : (loop.body now).Sweeps now table := by
  have hlt : loop.i < loop.table.count := of_decide_eq_true htest
  obtain ⟨gone, hperm, hlength, hstale⟩ := hsweeps.taken
  by_cases hold : (loop.table.peers loop.i).stale now = true
  · rw [ExpireLoop.body, if_pos hold]
    obtain ⟨last, hlast⟩ : ∃ last, loop.table.count = last + 1 := ⟨loop.table.count - 1, by omega⟩
    have hmoved : (loop.table.peers loop.i ::
        Windows.window (Function.update loop.table.peers loop.i (loop.table.peers last)) last).Perm
          (Windows.window loop.table.peers (last + 1)) :=
      Windows.perm_window_moveLast (by omega)
    refine ⟨⟨loop.table.peers loop.i :: gone, ?_, ?_, ?_⟩, ?_, ?_⟩
    · simp only [hlast, Nat.add_sub_cancel]
      rw [PresenceTable.entries, hlast] at hperm
      exact (List.perm_middle.symm.trans (hmoved.append_left gone)).trans hperm
    · rw [List.length_cons, hlength]
    · intro peer hpeer
      rcases List.mem_cons.mp hpeer with rfl | hearlier
      · exact hold
      · exact hstale peer hearlier
    · intro k hk
      change (Function.update loop.table.peers loop.i _ k).stale now = false
      rw [Function.update_of_ne (Nat.ne_of_lt hk)]
      exact hsweeps.fresh k hk
    · change loop.i ≤ loop.table.count - 1
      omega
  · rw [ExpireLoop.body, if_neg hold]
    refine ⟨⟨gone, hperm, hlength, hstale⟩, ?_, hlt⟩
    intro k hk
    rcases Nat.lt_succ_iff_lt_or_eq.mp hk with hbefore | rfl
    · exact hsweeps.fresh k hbefore
    · exact Bool.not_eq_true _ ▸ hold

/-- A loop that has ended has looked at every entry. -/
theorem ExpireLoop.Sweeps.fresh_of_ended {loop : ExpireLoop} (hsweeps : loop.Sweeps now table)
    (hended : loop.test = false) :
    ∀ peer ∈ loop.table.entries, peer.stale now = false := by
  intro peer hpeer
  obtain ⟨k, hk, rfl⟩ := Windows.mem_window.mp hpeer
  have hpast : ¬ loop.i < loop.table.count := of_decide_eq_false hended
  exact hsweeps.fresh k (by omega)

/-- Expiry keeps exactly the entries that are not stale, and returns how many were. -/
theorem koePresenceExpire_entries (now : ℤ) (table : PresenceTable) :
    (koePresenceExpire now table).2.entries.Perm
        (table.entries.filter fun peer ↦ !peer.stale now) ∧
      (koePresenceExpire now table).1 = table.entries.countP (PeerPresence.stale now) := by
  have hsweeps : (expireRounds now table table.count).Sweeps now table :=
    Loops.rounds_invariant (fun _ hbefore htest ↦ hbefore.body htest) table.count
      (sweeps_start now table)
  have hfresh := hsweeps.fresh_of_ended (expireRounds_ended now (Nat.le_refl table.count))
  obtain ⟨gone, hperm, hlength, hstale⟩ := hsweeps.taken
  change (expireRounds now table table.count).table.entries.Perm _ ∧
    ((expireRounds now table table.count).removed : ℤ) = _
  generalize (expireRounds now table table.count).table.entries = kept at hperm hfresh ⊢
  have hkept : (gone ++ kept).filter (fun peer ↦ !peer.stale now) = kept := by
    have hgone : gone.filter (fun peer ↦ !peer.stale now) = [] :=
      List.filter_eq_nil_iff.mpr fun peer hpeer ↦ by simp [hstale peer hpeer]
    have hall : kept.filter (fun peer ↦ !peer.stale now) = kept :=
      List.filter_eq_self.mpr fun peer hpeer ↦ by simp [hfresh peer hpeer]
    rw [List.filter_append, hgone, hall, List.nil_append]
  have hcount : table.entries.countP (PeerPresence.stale now) = gone.length := by
    have hgone : gone.countP (PeerPresence.stale now) = gone.length :=
      List.countP_eq_length.mpr hstale
    have hnone : kept.countP (PeerPresence.stale now) = 0 :=
      List.countP_eq_zero.mpr fun peer hpeer ↦ by simp [hfresh peer hpeer]
    rw [← hperm.countP_eq, List.countP_append, hgone, hnone, Nat.add_zero]
  refine ⟨?_, by rw [hcount, hlength]⟩
  have hfiltered := hperm.filter fun peer ↦ !peer.stale now
  rwa [hkept] at hfiltered

/-- The number returned is by how many entries the table is shorter. -/
theorem koePresenceExpire_removed (now : ℤ) (table : PresenceTable) :
    (koePresenceExpire now table).1 =
      table.entries.length - (koePresenceExpire now table).2.entries.length := by
  obtain ⟨hperm, hremoved⟩ := koePresenceExpire_entries now table
  have hsplit := List.length_eq_countP_add_countP (PeerPresence.stale now) (l := table.entries)
  have hkept : (koePresenceExpire now table).2.entries.length =
      table.entries.countP fun peer ↦ decide ¬ peer.stale now = true := by
    rw [hperm.length_eq, List.countP_eq_length_filter]
    simp
  rw [hremoved, hkept]
  omega

/-- Assumes: at least as many rounds as there are entries. The call leaves what they leave. -/
theorem koePresenceExpire_rounds (now : ℤ) {n : ℕ} (hn : table.count ≤ n) :
    koePresenceExpire now table =
      (((expireRounds now table n).removed : ℤ), (expireRounds now table n).table) := by
  have hsame : expireRounds now table n = expireRounds now table table.count :=
    Loops.rounds_of_ended (expireRounds_ended now (Nat.le_refl table.count)) n hn
  rw [hsame, koePresenceExpire]

theorem mem_entries_expire {peer : PeerPresence} :
    peer ∈ (koePresenceExpire now table).2.entries ↔
      peer ∈ table.entries ∧ peer.stale now = false := by
  rw [(koePresenceExpire_entries now table).1.mem_iff, List.mem_filter, Bool.not_eq_true']

end Expiry

/-! ### Runs -/

/-- A call on the presence table, with the clock reading it makes. -/
inductive PresenceCall
  | update (now : ℤ) (pk : Block 32) (state : PresenceState) (transport : ℤ)
  | handleTyping (now : ℤ) (pkt : Packet)
  | expire (now : ℤ)

/-- The table after the call. -/
def PresenceCall.step (table : PresenceTable) : PresenceCall → PresenceTable
  | update now pk state transport => koePresenceUpdate now table pk state transport
  | handleTyping now pkt => koePresenceHandleTyping now table pkt
  | expire now => (koePresenceExpire now table).2

/-- No peer has two entries, and the entries fit the array. -/
structure PresenceTable.Sound (table : PresenceTable) : Prop where
  distinct : (table.entries.map PeerPresence.pk).Nodup
  count_le : table.count ≤ koePresenceMaxPeers

section Sound

variable {table : PresenceTable}

theorem sound_koePresenceInit : koePresenceInit.Sound := ⟨List.nodup_nil, Nat.zero_le _⟩

theorem sound_presenceStep (hsound : table.Sound) (call : PresenceCall) :
    (call.step table).Sound := by
  cases call with
  | update now pk state transport =>
    change (koePresenceUpdate now table pk state transport).Sound
    obtain ⟨-, hcount, hentries⟩ | ⟨hnew, hroom, hcount, hentries⟩ | ⟨-, -, hsame⟩ :=
      koePresenceUpdate_cases table now pk state transport
    · constructor
      · have hkeeps (peer : PeerPresence) : (peer.seen now state transport).pk = peer.pk := rfl
        rw [hentries, Slots.map_updateFirst hkeeps]
        exact hsound.distinct
      · rw [hcount]
        exact hsound.count_le
    · constructor
      · rw [hentries, List.map_append]
        refine List.nodup_append.mpr ⟨hsound.distinct, List.nodup_singleton _, ?_⟩
        intro known hknown added hadded heq
        obtain ⟨peer, hpeer, hpk⟩ := List.mem_map.mp hknown
        have hadd : added = pk := List.mem_singleton.mp hadded
        exact hnew peer hpeer (hpk.trans (heq.trans hadd))
      · rw [hcount]
        exact hroom
    · rw [hsame]
      exact hsound
  | handleTyping now pkt =>
    obtain ⟨hcount, hentries⟩ := koePresenceHandleTyping_entries table now pkt
    constructor
    · have hkeeps (peer : PeerPresence) : (peer.typing now).pk = peer.pk := rfl
      change ((koePresenceHandleTyping now table pkt).entries.map _).Nodup
      rw [hentries, Slots.map_updateFirst hkeeps]
      exact hsound.distinct
    · change (koePresenceHandleTyping now table pkt).count ≤ _
      rw [hcount]
      exact hsound.count_le
  | expire now =>
    obtain ⟨hperm, -⟩ := koePresenceExpire_entries now table
    constructor
    · refine ((hperm.map PeerPresence.pk).nodup_iff).mpr ?_
      exact hsound.distinct.sublist (List.filter_sublist.map _)
    · change (koePresenceExpire now table).2.count ≤ _
      rw [← PresenceTable.length_entries, hperm.length_eq]
      refine (List.length_filter_le _ _).trans ?_
      rw [PresenceTable.length_entries]
      exact hsound.count_le

theorem sound_presenceRun (calls : List PresenceCall) :
    (calls.foldl PresenceCall.step koePresenceInit).Sound := by
  refine List.foldlRecOn (motive := PresenceTable.Sound) calls PresenceCall.step
    sound_koePresenceInit ?_
  intro table hsound call _
  exact sound_presenceStep hsound call

/-- Assumes: no peer with two entries. -/
theorem PresenceTable.entryOf_eq_some_iff (hdistinct : (table.entries.map PeerPresence.pk).Nodup)
    {pk : Block 32} {peer : PeerPresence} :
    table.entryOf pk = some peer ↔ peer ∈ table.entries ∧ peer.pk = pk := by
  constructor
  · intro hfound
    exact ⟨List.mem_of_find?_eq_some hfound, PeerPresence.isFor_iff.mp (List.find?_some hfound)⟩
  · rintro ⟨hpeer, hpk⟩
    have hsome : (table.entryOf pk).isSome :=
      List.find?_isSome.mpr ⟨peer, hpeer, PeerPresence.isFor_iff.mpr hpk⟩
    obtain ⟨found, hfound⟩ := Option.isSome_iff_exists.mp hsome
    have hfoundPk : found.pk = pk := PeerPresence.isFor_iff.mp (List.find?_some hfound)
    have hsame : found = peer :=
      List.inj_on_of_nodup_map hdistinct (List.mem_of_find?_eq_some hfound) hpeer
        (hfoundPk.trans hpk.symm)
    rw [hfound, hsame]

/-- Expiry leaves the entry of a peer, unless the entry is stale. Assumes: no peer with two
entries. -/
theorem entryOf_koePresenceExpire (hsound : table.Sound) (now : ℤ) (pk : Block 32) :
    (koePresenceExpire now table).2.entryOf pk =
      (table.entryOf pk).filter fun peer ↦ !peer.stale now := by
  have hafter : (koePresenceExpire now table).2.Sound :=
    sound_presenceStep hsound (.expire now)
  ext peer
  rw [Option.filter_eq_some_iff, PresenceTable.entryOf_eq_some_iff hafter.distinct,
    PresenceTable.entryOf_eq_some_iff hsound.distinct, mem_entries_expire, Bool.not_eq_true']
  exact and_right_comm

/-- A stale entry is shown as offline: no lifetime is above the one that expiry uses. -/
theorem PeerPresence.shown_of_stale {peer : PeerPresence} {now : ℤ}
    (hstale : peer.stale now = true) : peer.shown now = .offline := by
  have hage : now - peer.lastSeen > koePresenceTtlRelay := of_decide_eq_true hstale
  have httl : peer.ttl ≤ koePresenceTtlRelay := by
    unfold PeerPresence.ttl
    split_ifs
    · decide
    · exact le_rfl
  exact if_pos (lt_of_le_of_lt httl hage)

/-- Expiry is invisible to queries at the same time. Assumes: no peer with two entries. -/
theorem koePresenceGet_expire (hsound : table.Sound) (now : ℤ) (pk : Block 32) :
    koePresenceGet now (koePresenceExpire now table).2 pk = koePresenceGet now table pk := by
  rw [koePresenceGet_eq, koePresenceGet_eq, entryOf_koePresenceExpire hsound]
  cases table.entryOf pk with
  | none => rfl
  | some peer =>
    by_cases hstale : peer.stale now = true
    · simp [Option.filter, hstale, PeerPresence.shown_of_stale hstale]
    · simp [Option.filter, hstale]

end Sound

/-- Presence expiry removes exactly the stale peers, and no query at the same time tells. In every
table that a run reaches no key is there twice and the count is at most 512; the loop of expiry
ends, and more rounds change nothing; the entries of age at most 90 are kept, in some order, and the
others are counted. The clock readings of the run are arbitrary. -/
theorem koePresence_expiry (calls : List PresenceCall) :
    let table := calls.foldl PresenceCall.step koePresenceInit
    (table.entries.map PeerPresence.pk).Nodup ∧ table.count ≤ 512 ∧
      ∀ now : ℤ,
        (∀ n ≥ table.count, (expireRounds now table n).test = false ∧
          koePresenceExpire now table =
            (((expireRounds now table n).removed : ℤ), (expireRounds now table n).table)) ∧
        (koePresenceExpire now table).2.entries.Perm
          (table.entries.filter fun peer ↦ decide (now - peer.lastSeen ≤ 90)) ∧
        (koePresenceExpire now table).1 =
          table.entries.length - (koePresenceExpire now table).2.entries.length ∧
        ∀ pk, koePresenceGet now (koePresenceExpire now table).2 pk =
          koePresenceGet now table pk := by
  intro table
  have hsound : table.Sound := sound_presenceRun calls
  refine ⟨hsound.distinct, hsound.count_le, fun now ↦ ⟨?_, ?_, ?_, ?_⟩⟩
  · intro n hn
    exact ⟨expireRounds_ended now hn, koePresenceExpire_rounds now hn⟩
  · have hfresh (peer : PeerPresence) :
        (!peer.stale now) = decide (now - peer.lastSeen ≤ 90) := by
      rw [PeerPresence.stale, ← decide_not, decide_eq_decide, not_lt]
      rfl
    have hkept := (koePresenceExpire_entries now table).1
    simpa only [hfresh] using hkept
  · exact koePresenceExpire_removed now table
  · exact koePresenceGet_expire hsound now

end KoeCore
