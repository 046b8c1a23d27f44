import KoeCore.Messaging.Builders

/-!
# The subscribers of a channel

The subscriber list of `koe_channel.c`, a linked list with its length next to it. A subscriber is
added at the head after a search for the key, and removed by unlinking the first node with the key.

`SubscriberRun` runs additions and removals from an empty list and keeps, for every key, which kind
of call on it succeeded last. The invariant `SubscriberRun.Sound` ties the two together: no key is
in the list twice, the count is the length, and a key is in the list exactly when the last
successful call on it was an addition (`sound_step`). A post walks the list once, so it calls
`send_fn` once for each of these keys (`koeChannelPost_reaches`), and `koeChannel_subscribers` is
the result for every sequence of calls.
-/

set_option autoImplicit false
set_option relaxedAutoImplicit false

namespace KoeCore

open ByteWire

/-! ### The list -/

/-- `koe_subscriber_node_t`, without its link. -/
structure SubscriberNode where
  pk : Block 32
  subscribedAt : ℤ

/-- `koe_subscriber_list_t`, with the nodes from the head on. -/
structure SubscriberList where
  nodes : List SubscriberNode
  count : ℤ

namespace SubscriberList

/-- The list that `memset(.., 0, ..)` leaves. -/
def empty : SubscriberList := ⟨[], 0⟩

/-- The keys in the list, from the head on. -/
def keys (subs : SubscriberList) : List (Block 32) := subs.nodes.map SubscriberNode.pk

end SubscriberList

/-- The return code, and the list after the call. `alloc` is whether `calloc` succeeds. -/
def koeChannelAddSubscriber (alloc : Bool) (now : ℤ) (subs : SubscriberList) (pk : Block 32) :
    ℤ × SubscriberList :=
  if subs.nodes.any fun node ↦ node.pk == pk then (-1, subs)
  else if !alloc then (-1, subs)
  else (0, ⟨⟨pk, now⟩ :: subs.nodes, subs.count + 1⟩)

/-- The return code, and the list after the call. -/
def koeChannelRemoveSubscriber (subs : SubscriberList) (pk : Block 32) : ℤ × SubscriberList :=
  if subs.nodes.any fun node ↦ node.pk == pk then
    (0, ⟨subs.nodes.eraseP fun node ↦ node.pk == pk, subs.count - 1⟩)
  else (-1, subs)

section List

variable {subs : SubscriberList} {pk : Block 32}

theorem SubscriberList.any_pk_iff :
    (subs.nodes.any fun node ↦ node.pk == pk) = true ↔ pk ∈ subs.keys := by
  rw [List.any_eq_true, SubscriberList.keys, List.mem_map]
  simp only [beq_iff_eq]

/-- What an addition can do. -/
theorem koeChannelAddSubscriber_cases (alloc : Bool) (now : ℤ) (subs : SubscriberList)
    (pk : Block 32) :
    ((pk ∈ subs.keys ∨ alloc = false) ∧
        koeChannelAddSubscriber alloc now subs pk = (-1, subs)) ∨
      (pk ∉ subs.keys ∧ alloc = true ∧ koeChannelAddSubscriber alloc now subs pk =
        (0, ⟨⟨pk, now⟩ :: subs.nodes, subs.count + 1⟩)) := by
  unfold koeChannelAddSubscriber
  by_cases hfound : (subs.nodes.any fun node ↦ node.pk == pk) = true
  · rw [if_pos hfound]
    exact Or.inl ⟨Or.inl (SubscriberList.any_pk_iff.mp hfound), rfl⟩
  · rw [if_neg hfound]
    cases alloc with
    | false => exact Or.inl ⟨Or.inr rfl, rfl⟩
    | true => exact Or.inr ⟨mt SubscriberList.any_pk_iff.mpr hfound, rfl, rfl⟩

/-- What a removal can do. -/
theorem koeChannelRemoveSubscriber_cases (subs : SubscriberList) (pk : Block 32) :
    (pk ∉ subs.keys ∧ koeChannelRemoveSubscriber subs pk = (-1, subs)) ∨
      (pk ∈ subs.keys ∧ koeChannelRemoveSubscriber subs pk =
        (0, ⟨subs.nodes.eraseP fun node ↦ node.pk == pk, subs.count - 1⟩)) := by
  unfold koeChannelRemoveSubscriber
  by_cases hfound : (subs.nodes.any fun node ↦ node.pk == pk) = true
  · rw [if_pos hfound]
    exact Or.inr ⟨SubscriberList.any_pk_iff.mp hfound, rfl⟩
  · rw [if_neg hfound]
    exact Or.inl ⟨mt SubscriberList.any_pk_iff.mpr hfound, rfl⟩

/-- Unlinking a node takes its key out of the list of keys. -/
theorem SubscriberList.keys_eraseP (subs : SubscriberList) (count : ℤ) (pk : Block 32) :
    (SubscriberList.mk (subs.nodes.eraseP fun node ↦ node.pk == pk) count).keys =
      subs.keys.erase pk := by
  rw [SubscriberList.keys, SubscriberList.keys, List.erase_eq_eraseP', List.eraseP_map]
  rfl

end List

/-! ### Sequences of calls -/

/-- A call on the list, with what `calloc` and the clock answer to an addition. -/
inductive SubscriberCall
  | add (alloc : Bool) (now : ℤ) (pk : Block 32)
  | remove (pk : Block 32)

/-- The two kinds of calls. -/
inductive SubscriberKind
  | add | remove
deriving DecidableEq

namespace SubscriberCall

def pk : SubscriberCall → Block 32
  | add _ _ pk => pk
  | remove pk => pk

def kind : SubscriberCall → SubscriberKind
  | add _ _ _ => .add
  | remove _ => .remove

/-- The return code, and the list after the call. -/
def run (subs : SubscriberList) : SubscriberCall → ℤ × SubscriberList
  | add alloc now pk => koeChannelAddSubscriber alloc now subs pk
  | remove pk => koeChannelRemoveSubscriber subs pk

end SubscriberCall

/-- The list, and for every key the kind of the last call on it that returned `0`. -/
structure SubscriberRun where
  subs : SubscriberList
  last : Block 32 → Option SubscriberKind

namespace SubscriberRun

def start : SubscriberRun := ⟨SubscriberList.empty, fun _ ↦ none⟩

def step (run : SubscriberRun) (call : SubscriberCall) : SubscriberRun where
  subs := (call.run run.subs).2
  last := if (call.run run.subs).1 = 0 then Function.update run.last call.pk (some call.kind)
    else run.last

/-- No key is in the list twice, the count is its length, and it has the keys whose last successful
call was an addition. -/
structure Sound (run : SubscriberRun) : Prop where
  nodup : run.subs.keys.Nodup
  counted : run.subs.count = run.subs.nodes.length
  mem_iff : ∀ pk, pk ∈ run.subs.keys ↔ run.last pk = some .add

theorem sound_start : start.Sound where
  nodup := List.nodup_nil
  counted := rfl
  mem_iff := fun _ ↦ iff_of_false List.not_mem_nil (Option.some_ne_none _).symm

/-- A call that fails changes nothing. Assumes: a call that returns -1 and leaves the list alone. -/
theorem step_of_failed {run : SubscriberRun} (call : SubscriberCall)
    (hfailed : call.run run.subs = (-1, run.subs)) : run.step call = run := by
  have hrc : ¬ (call.run run.subs).1 = 0 := by
    rw [hfailed]
    exact (by decide : ¬ (-1 : ℤ) = 0)
  unfold step
  rw [if_neg hrc, hfailed]

/-- An addition keeps the invariant. Assumes: a key that is not in the list. -/
theorem Sound.add {run : SubscriberRun} (hsound : run.Sound) {pk : Block 32}
    (hnew : pk ∉ run.subs.keys) (now : ℤ) :
    Sound ⟨⟨⟨pk, now⟩ :: run.subs.nodes, run.subs.count + 1⟩,
      Function.update run.last pk (some .add)⟩ := by
  refine ⟨List.nodup_cons.mpr ⟨hnew, hsound.nodup⟩, ?_, ?_⟩
  · change run.subs.count + 1 = ((run.subs.nodes.length + 1 : ℕ) : ℤ)
    rw [hsound.counted]
    rfl
  · intro other
    change other ∈ pk :: run.subs.keys ↔ Function.update run.last pk (some .add) other = some .add
    rw [List.mem_cons, Function.update_apply, hsound.mem_iff]
    by_cases hother : other = pk
    · simp [hother]
    · simp [hother]

/-- A removal keeps the invariant. Assumes: a key that is in the list. -/
theorem Sound.remove {run : SubscriberRun} (hsound : run.Sound) {pk : Block 32}
    (hfound : pk ∈ run.subs.keys) :
    Sound ⟨⟨run.subs.nodes.eraseP fun node ↦ node.pk == pk, run.subs.count - 1⟩,
      Function.update run.last pk (some .remove)⟩ := by
  refine ⟨?_, ?_, ?_⟩
  · rw [SubscriberList.keys_eraseP]
    exact hsound.nodup.erase pk
  · have hlength : (run.subs.nodes.eraseP fun node ↦ node.pk == pk).length =
        run.subs.nodes.length - 1 := by
      obtain ⟨node, hnode, hpk⟩ := List.any_eq_true.mp (SubscriberList.any_pk_iff.mpr hfound)
      exact List.length_eraseP_of_mem hnode hpk
    have hpos : 0 < run.subs.nodes.length := by
      obtain ⟨node, hnode, -⟩ := List.mem_map.mp hfound
      exact List.length_pos_of_mem hnode
    change run.subs.count - 1 = _
    rw [hlength, hsound.counted]
    omega
  · intro other
    rw [SubscriberList.keys_eraseP, hsound.nodup.mem_erase_iff]
    change _ ↔ Function.update run.last pk (some .remove) other = some .add
    rw [Function.update_apply]
    have hmem := hsound.mem_iff other
    by_cases hother : other = pk
    · simp [hother]
    · rw [if_neg hother, ← hmem]
      exact and_iff_right hother

/-- Every call keeps the invariant. Assumes: the invariant before the call. -/
theorem sound_step {run : SubscriberRun} (hsound : run.Sound) (call : SubscriberCall) :
    (run.step call).Sound := by
  cases call with
  | add alloc now pk =>
    rcases koeChannelAddSubscriber_cases alloc now run.subs pk with
      ⟨-, hfailed⟩ | ⟨hnew, -, hadded⟩
    · rw [step_of_failed (.add alloc now pk) hfailed]
      exact hsound
    · have hstep : run.step (.add alloc now pk) =
          ⟨⟨⟨pk, now⟩ :: run.subs.nodes, run.subs.count + 1⟩,
            Function.update run.last pk (some .add)⟩ := by
        simp only [step, SubscriberCall.run, hadded, if_true]
        rfl
      rw [hstep]
      exact hsound.add hnew now
  | remove pk =>
    rcases koeChannelRemoveSubscriber_cases run.subs pk with ⟨-, hfailed⟩ | ⟨hfound, hremoved⟩
    · rw [step_of_failed (.remove pk) hfailed]
      exact hsound
    · have hstep : run.step (.remove pk) =
          ⟨⟨run.subs.nodes.eraseP fun node ↦ node.pk == pk, run.subs.count - 1⟩,
            Function.update run.last pk (some .remove)⟩ := by
        simp only [step, SubscriberCall.run, hremoved, if_true]
        rfl
      rw [hstep]
      exact hsound.remove hfound

theorem sound_run (calls : List SubscriberCall) : (calls.foldl step start).Sound := by
  refine List.foldlRecOn (motive := Sound) calls step sound_start ?_
  intro run hsound call _
  exact sound_step hsound call

end SubscriberRun

/-! ### Posts -/

/-- The list as a post walks it, with what the environment answers at the turn of each node. -/
def SubscriberList.turns (subs : SubscriberList) (envs : ℕ → BuildEnv) :
    List (Block 32 × BuildEnv) :=
  subs.nodes.mapIdx fun i node ↦ (node.pk, envs i)

/-- A post is sent to the subscribers in the order of the list, each packet to the key it is sent
for. Assumes: an owner, memory, and an encryption that succeeds. -/
theorem koeChannelPost_reaches {S : Sodium} {ch : KoeChannel} (howner : ch.owner ≠ 0)
    {envs : ℕ → BuildEnv} (halloc : ∀ i, (envs i).alloc = true) {body : List UInt8}
    (hencrypts : ∀ nonce key, (koeEncrypt S body nonce key).isSome) (ownerId : Identity)
    (subs : SubscriberList) :
    let post := koeChannelPost S ch ownerId (subs.turns envs) body
    post.1 = 0 ∧ post.2.2.map Prod.fst = subs.keys ∧
      ∀ sent ∈ post.2.2, sent.2.header.toPk = sent.1 := by
  intro post
  have hbuilt (i : ℕ) (pk : Block 32) :
      ∃ pkt, channelPacket S (envs i) ownerId pk body = some pkt := by
    obtain ⟨ct, hct⟩ := Option.isSome_iff_exists.mp
      (hencrypts (envs i).nonce (channelKey S ownerId pk))
    unfold channelPacket
    rw [halloc i, hct]
    exact ⟨_, rfl⟩
  refine ⟨?_, ?_, ?_⟩
  · simp only [post, koeChannelPost, if_neg howner]
  · have hturn (sub : Block 32 × BuildEnv) (hsub : sub ∈ subs.turns envs) :
        ((channelPacket S sub.2 ownerId sub.1 body).map fun pkt ↦ (sub.1, pkt)).map Prod.fst =
          some sub.1 := by
      obtain ⟨i, hi, rfl⟩ := List.mem_mapIdx.mp hsub
      obtain ⟨pkt, hpkt⟩ := hbuilt i subs.nodes[i].pk
      rw [hpkt]
      rfl
    have hkeys : (subs.turns envs).map Prod.fst = subs.keys := by
      refine List.ext_getElem (by simp [SubscriberList.turns, SubscriberList.keys]) ?_
      intro i hfirst hsecond
      simp [SubscriberList.turns, SubscriberList.keys]
    calc post.2.2.map Prod.fst
        = (subs.turns envs).filterMap fun sub ↦
            ((channelPacket S sub.2 ownerId sub.1 body).map fun pkt ↦ (sub.1, pkt)).map
              Prod.fst := by
          simp only [post, koeChannelPost, if_neg howner, List.map_filterMap]
      _ = (subs.turns envs).filterMap (some ∘ Prod.fst) := List.filterMap_congr hturn
      _ = subs.keys := by rw [List.filterMap_eq_map, hkeys]
  · intro sent hsent
    obtain ⟨env, -, hpkt⟩ := koeChannelPost_sent hsent
    rw [channelPacket_header hpkt]
    rfl

/-- Posts reach the subscribers. For every sequence of additions and removals from an empty list:
no key is in the list twice, and its count is its length. With memory, an addition returns -1
exactly for a key that is in the list, and a removal returns -1 exactly for one that is not. A post
by an owner, with memory and an encryption that succeeds, calls `send_fn` once for each key whose
last successful call was an addition and for no other key, and every packet is addressed to the key
it is sent for. -/
theorem koeChannel_subscribers (calls : List SubscriberCall) :
    let run := calls.foldl SubscriberRun.step SubscriberRun.start
    run.subs.keys.Nodup ∧ run.subs.count = run.subs.nodes.length ∧
      (∀ now pk, (koeChannelAddSubscriber true now run.subs pk).1 = -1 ↔ pk ∈ run.subs.keys) ∧
      (∀ pk, (koeChannelRemoveSubscriber run.subs pk).1 = -1 ↔ pk ∉ run.subs.keys) ∧
      ∀ (S : Sodium) (ch : KoeChannel) (ownerId : Identity) (envs : ℕ → BuildEnv)
        (body : List UInt8), ch.owner ≠ 0 → (∀ i, (envs i).alloc = true) →
        (∀ nonce key, (koeEncrypt S body nonce key).isSome) →
        let post := koeChannelPost S ch ownerId (run.subs.turns envs) body
        post.1 = 0 ∧
          (∀ pk, (post.2.2.map Prod.fst).count pk = if run.last pk = some .add then 1 else 0) ∧
          ∀ sent ∈ post.2.2, sent.2.header.toPk = sent.1 := by
  intro run
  have hsound : run.Sound := SubscriberRun.sound_run calls
  have hsucceeds : ¬ (0 : ℤ) = -1 := by decide
  refine ⟨hsound.nodup, hsound.counted, ?_, ?_, ?_⟩
  · intro now pk
    rcases koeChannelAddSubscriber_cases true now run.subs pk with
      ⟨hfound | hnoMemory, hfailed⟩ | ⟨hnew, -, hadded⟩
    · rw [hfailed]
      exact iff_of_true rfl hfound
    · exact absurd hnoMemory (by decide)
    · rw [hadded]
      exact iff_of_false hsucceeds hnew
  · intro pk
    rcases koeChannelRemoveSubscriber_cases run.subs pk with
      ⟨hmissing, hfailed⟩ | ⟨hfound, hremoved⟩
    · rw [hfailed]
      exact iff_of_true rfl hmissing
    · rw [hremoved]
      exact iff_of_false hsucceeds (not_not.mpr hfound)
  · intro S ch ownerId envs body howner halloc hencrypts post
    obtain ⟨hrc, hkeys, haddressed⟩ :=
      koeChannelPost_reaches howner halloc hencrypts ownerId run.subs
    refine ⟨hrc, ?_, haddressed⟩
    intro pk
    rw [hkeys, hsound.nodup.count]
    exact if_congr (hsound.mem_iff pk) rfl rfl

/-- Two keys are added and the first is removed: a post is sent once to the second. -/
theorem koeChannel_subscribers_two :
    let first : Block 32 := clip 32 [1]
    let second : Block 32 := clip 32 [2]
    let run := [.add true 5 first, .add true 6 second, .remove first].foldl SubscriberRun.step
      SubscriberRun.start
    let post := koeChannelPost Sodium.transparent ⟨1, 0⟩ (Sodium.transparentIdentity 3)
      (run.subs.turns fun _ ↦ ⟨Block.zero 24, true⟩) [0x68, 0x69]
    (post.2.2.map Prod.fst).count second = 1 ∧ (post.2.2.map Prod.fst).count first = 0 := by
  intro first second run post
  have hencrypts (nonce : Block 24) (key : Block 32) :
      (koeEncrypt Sodium.transparent [0x68, 0x69] nonce key).isSome := by
    obtain ⟨ct, hct⟩ := Sodium.transparent_aead.seals key nonce [0x68, 0x69]
    exact Option.isSome_iff_exists.mpr ⟨ct, hct⟩
  obtain ⟨-, -, -, -, hposts⟩ := koeChannel_subscribers
    [.add true 5 first, .add true 6 second, .remove first]
  have howner : (KoeChannel.mk 1 0).owner ≠ 0 := by decide
  obtain ⟨-, hcount, -⟩ := hposts Sodium.transparent ⟨1, 0⟩ (Sodium.transparentIdentity 3)
    (fun _ ↦ ⟨Block.zero 24, true⟩) [0x68, 0x69] howner (fun _ ↦ rfl) hencrypts
  have hsecond : run.last second = some .add := by decide
  have hfirst : run.last first ≠ some .add := by decide
  exact ⟨(hcount second).trans (if_pos hsecond), (hcount first).trans (if_neg hfirst)⟩

end KoeCore
