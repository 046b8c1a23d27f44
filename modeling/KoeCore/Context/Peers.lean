import KoeCore.Context.Receive
import KoeCore.Transport.Tcp
import Mathlib.Logic.Function.Basic

/-!
# Sending to a peer at the top level

`koe_peer_discover`, `koe_peer_connect` and `koe_send_to_peer` of `koe_core.c`, on the static array
of peers that all contexts share. `koe_send_to_peer` looks up the session of a peer and then its
descriptor, and hands the packet to `koe_transport_send` if there is one.

There never is one. The only function that fills in an entry of the array sets its descriptor to
`-1`, and the entries behind the counter, whose descriptor is that of the standard input, are not
read (`PeerList.Sound`). `koePeers_send_nothing` is what follows for every run, in which the rest of
the process may do anything to the context: no byte is sent, every call returns `-1`, and its one
effect is that of `koe_session_active`, which counts as a use of the session.
-/

set_option autoImplicit false
set_option relaxedAutoImplicit false

namespace KoeCore

open ByteWire Segments

/-- The fields of `koe_peer_t` that are read here. -/
structure PeerSlot where
  pk : Block 32
  fd : ℤ

/-- `g_peers` and `g_peer_count`. -/
structure PeerList where
  slots : List PeerSlot
  count : ℕ

/-- The static data of a process that starts. -/
def PeerList.zero : PeerList := ⟨List.replicate koeMaxSessions ⟨Block.zero 32, 0⟩, 0⟩

/-- The return code, and the peers after the call. -/
def koePeerDiscover (peers : PeerList) : ℤ × PeerList := (0, { peers with count := 0 })

/-- The return code, and the peers after the call. -/
def koePeerConnect (peers : PeerList) (peerPk : Block 32) : ℤ × PeerList :=
  if koeMaxSessions ≤ peers.count then (-1, peers)
  else (0, ⟨peers.slots.set peers.count ⟨peerPk, -1⟩, peers.count + 1⟩)

/-- What a call takes from its environment: the clock of the session lookup, and what the socket and
`malloc` answer. -/
structure PeerSendEnv where
  findNow : ℤ
  answer : ℕ → ℤ
  send : TransportSendEnv

/-- The return code, and the context and what is on the descriptors after the call. -/
def koeSendToPeer (env : PeerSendEnv) (peers : PeerList) (ctx : Ctx) (chans : ℤ → Channel UInt8)
    (peerPk : Block 32) (pkt : Packet) : ℤ × Ctx × (ℤ → Channel UInt8) :=
  if !ctx.initialised then (-1, ctx, chans)
  else
    let found := koeSessionTableFind env.findNow ctx.sessions peerPk
    let ctx := { ctx with sessions := found.2 }
    match found.1 with
    | none => (-1, ctx, chans)
    | some _ =>
      -- The loop goes on behind an entry of the peer without a descriptor.
      match (peers.slots.take peers.count).find? fun slot ↦ slot.pk = peerPk ∧ 0 ≤ slot.fd with
      | none => (-1, ctx, chans)
      | some slot =>
        let sent := koeTransportSend env.answer env.send slot.fd pkt (chans slot.fd)
        (sent.1, ctx, Function.update chans slot.fd sent.2)

/-! ### Runs -/

/-- A call on the peers, or whatever else is done to the context. -/
inductive PeerCall
  | discover
  | connect (peerPk : Block 32)
  | send (env : PeerSendEnv) (peerPk : Block 32) (pkt : Packet)
  | other (change : Ctx → Ctx)

/-- The peers, the context, what is on the descriptors, and what the sends have returned. -/
structure PeerWorld where
  peers : PeerList
  ctx : Ctx
  chans : ℤ → Channel UInt8
  codes : List ℤ

def PeerWorld.step (world : PeerWorld) : PeerCall → PeerWorld
  | .discover => { world with peers := (koePeerDiscover world.peers).2 }
  | .connect peerPk => { world with peers := (koePeerConnect world.peers peerPk).2 }
  | .send env peerPk pkt =>
    let sent := koeSendToPeer env world.peers world.ctx world.chans peerPk pkt
    { world with ctx := sent.2.1, chans := sent.2.2, codes := world.codes ++ [sent.1] }
  | .other change => { world with ctx := change world.ctx }

/-- The context after a call, if sending were asking for the session. -/
def askStep (ctx : Ctx) : PeerCall → Ctx
  | .send env peerPk _ => (koeSessionActive env.findNow ctx peerPk).2
  | .other change => change ctx
  | _ => ctx

/-- The connections since the last discovery, after a call. -/
def connectStep (connections : ℕ) : PeerCall → ℕ
  | .discover => 0
  | .connect _ => connections + 1
  | _ => connections

/-- The array is complete, and no entry that is in use has a descriptor. -/
structure PeerList.Sound (peers : PeerList) : Prop where
  length_slots : peers.slots.length = koeMaxSessions
  count_le : peers.count ≤ koeMaxSessions
  fd_eq : ∀ slot ∈ peers.slots.take peers.count, slot.fd = -1

/-- Nothing was sent, the context is this one, and there were so many connections since the last
discovery. -/
structure PeerWorld.Idle (chans : ℤ → Channel UInt8) (ctx : Ctx) (connections : ℕ)
    (world : PeerWorld) : Prop where
  sound : world.peers.Sound
  chans_eq : world.chans = chans
  codes : ∀ code ∈ world.codes, code = -1
  ctx_eq : world.ctx = ctx
  count : world.peers.count = min connections koeMaxSessions

section Steps

variable {peers : PeerList}

/-- Assumes: sound peers. -/
theorem PeerList.Sound.connect (hsound : peers.Sound) (peerPk : Block 32) :
    (koePeerConnect peers peerPk).2.Sound := by
  rw [koePeerConnect]
  split_ifs with hfull
  · exact hsound
  · have hroom : peers.count < peers.slots.length := by
      rw [hsound.length_slots]
      omega
    refine ⟨?_, Nat.not_le.mp hfull, fun slot hslot ↦ ?_⟩
    · rw [List.length_set, hsound.length_slots]
    · rw [List.take_add_one, List.take_set_of_le (Nat.le_refl _)] at hslot
      rcases List.mem_append.mp hslot with hold | hnew
      · exact hsound.fd_eq slot hold
      · rw [List.getElem?_set_self hroom] at hnew
        rw [List.mem_singleton.mp hnew]

/-- Assumes: sound peers. -/
theorem koeSendToPeer_eq (hsound : peers.Sound) (env : PeerSendEnv) (ctx : Ctx)
    (chans : ℤ → Channel UInt8) (peerPk : Block 32) (pkt : Packet) :
    koeSendToPeer env peers ctx chans peerPk pkt =
      (-1, (koeSessionActive env.findNow ctx peerPk).2, chans) := by
  have hnone : ((peers.slots.take peers.count).find? fun slot ↦
      slot.pk = peerPk ∧ 0 ≤ slot.fd) = none := by
    refine List.find?_eq_none.mpr fun slot hslot hopen ↦ ?_
    have hfd : 0 ≤ slot.fd := (of_decide_eq_true hopen).2
    rw [hsound.fd_eq slot hslot] at hfd
    exact absurd hfd (by decide)
  rw [koeSendToPeer, koeSessionActive]
  cases ctx.initialised with
  | false => rfl
  | true =>
    cases hfound : (koeSessionTableFind env.findNow ctx.sessions peerPk).1 with
    | none =>
      simp only [hfound]
      rfl
    | some sess =>
      simp only [hfound, hnone]
      rfl

variable {chans : ℤ → Channel UInt8} {ctx : Ctx} {connections : ℕ} {world : PeerWorld}

/-- Assumes: nothing was sent before. -/
theorem PeerWorld.Idle.step (hidle : world.Idle chans ctx connections) (call : PeerCall) :
    (world.step call).Idle chans (askStep ctx call) (connectStep connections call) := by
  obtain ⟨hsound, hchans, hcodes, hctx, hcount⟩ := hidle
  cases call with
  | discover =>
    refine ⟨⟨hsound.length_slots, Nat.zero_le _, ?_⟩, hchans, hcodes, hctx, rfl⟩
    intro slot hslot
    exact absurd hslot List.not_mem_nil
  | connect peerPk =>
    refine ⟨hsound.connect peerPk, hchans, hcodes, hctx, ?_⟩
    rw [PeerWorld.step, koePeerConnect, connectStep]
    split_ifs with hfull
    · dsimp only
      omega
    · dsimp only
      omega
  | send env peerPk pkt =>
    rw [PeerWorld.step, koeSendToPeer_eq hsound]
    refine ⟨hsound, hchans, ?_, ?_, hcount⟩
    · intro code hcode
      rcases List.mem_append.mp hcode with hold | hnew
      · exact hcodes code hold
      · exact List.mem_singleton.mp hnew
    · dsimp only
      rw [hctx]
      rfl
  | other change => exact ⟨hsound, hchans, hcodes, congrArg change hctx, hcount⟩

/-- Assumes: nothing was sent before. -/
theorem PeerWorld.Idle.run (hidle : world.Idle chans ctx connections) (calls : List PeerCall) :
    (calls.foldl PeerWorld.step world).Idle chans (calls.foldl askStep ctx)
      (calls.foldl connectStep connections) := by
  induction calls generalizing world ctx connections with
  | nil => exact hidle
  | cons call calls ih => exact ih (hidle.step call)

end Steps

/-- Sending to a peer sends nothing, in every run from the start of a process and whatever else is
done to the context. Every call returns `-1`, and the context is as if the calls had asked for the
session. A connection is refused exactly if there were 256 since the last discovery, and the array
is not left. -/
theorem koePeers_send_nothing (ctx : Ctx) (chans : ℤ → Channel UInt8) (calls : List PeerCall) :
    let world := calls.foldl PeerWorld.step ⟨PeerList.zero, ctx, chans, []⟩
    let connections := calls.foldl connectStep 0
    world.chans = chans ∧ (∀ code ∈ world.codes, code = -1) ∧ world.ctx = calls.foldl askStep ctx ∧
      world.peers.slots.length = koeMaxSessions ∧
      world.peers.count = min connections koeMaxSessions ∧
      ∀ peerPk, (koePeerConnect world.peers peerPk).1 = 0 ↔ connections < koeMaxSessions := by
  intro world connections
  have hstart : (⟨PeerList.zero, ctx, chans, []⟩ : PeerWorld).Idle chans ctx 0 := by
    refine ⟨⟨List.length_replicate, Nat.zero_le _, ?_⟩, rfl, ?_, rfl, rfl⟩
    · intro slot hslot
      exact absurd hslot List.not_mem_nil
    · intro code hcode
      exact absurd hcode List.not_mem_nil
  obtain ⟨hsound, hchans, hcodes, hctx, hcount⟩ := hstart.run calls
  refine ⟨hchans, hcodes, hctx, hsound.length_slots, hcount, fun peerPk ↦ ?_⟩
  have hroom : koeMaxSessions ≤ world.peers.count ↔ ¬ connections < koeMaxSessions := by
    rw [show world.peers.count = min connections koeMaxSessions from hcount]
    omega
  rw [koePeerConnect, ← not_iff_not, ← hroom]
  split_ifs with hfull
  · exact iff_of_true (show ¬ (-1 : ℤ) = 0 by decide) hfull
  · exact iff_of_false (not_not.mpr rfl) hfull

end KoeCore
