import KoeCore.Account.Registry
import KoeCore.Library.Descriptors
import KoeCore.Transport.Discovery
import Mathlib.Data.List.Infix

/-!
# Connections

The sockets of `koe_transport.c`: the three that a transport listens on, the connections that are
made and accepted, and the WebSocket connections that are handed to the caller. What the system and
the network answer is a parameter of each call; the descriptors are those of a table in which the
rest of the process has descriptors too.

`Node` is a process that uses the transport, and `NodeCall` what it does, including the discovery of
peers, whose records start without a connection. A record is overwritten by an initialisation, a
connection and an acceptance, and what it held is then held by nobody; `NodeCall.overwritten` notes
these descriptors. `koeTransport_descriptors` is the account over every run: each open descriptor
belongs to the rest of the process, to one record, or was overwritten. So nothing is closed that
belongs to somebody else or is not open, no two records share a descriptor, and nothing else leaks.
-/

set_option autoImplicit false
set_option relaxedAutoImplicit false

namespace KoeCore

open ByteWire Descriptors

/-- `koe_transport_ctx_t`, without the fields that are not read. -/
structure TransportCtx where
  listenFd : ℤ
  tcpListenFd : ℤ
  wsListenFd : ℤ
  relayHost : List UInt8
  relayPort : UInt16

/-- The answers of `socket`, and of `bind` and `listen` together. -/
structure ListenEnv where
  socket : Bool
  listens : Bool

/-- The answer for the discovery socket, and those for the two that listen. -/
structure TransportInitEnv where
  udp : Bool
  tcp : ListenEnv
  ws : ListenEnv

/-- A socket that listens, or `-1`. -/
def listenSocket (env : ListenEnv) (table : Table) : ℤ × Table :=
  let opened := table.openAt env.socket
  if 0 ≤ opened.1 then
    if env.listens then opened else (-1, opened.2.closeAt opened.1)
  else opened

/-- The relay that is configured, if any. -/
def relayOf (relayPort : UInt16) : Option (List UInt8) → List UInt8 × UInt16
  | none => ([], 0)
  | some host => (strncpy 255 host, if relayPort ≠ 0 then relayPort else koeRelayPortDef)

/-- The return code, and the record and the descriptors after the call. A failed `bind` of the
discovery socket is not looked at. -/
def koeTransportInit (env : TransportInitEnv) (relayHost : Option (List UInt8)) (relayPort : UInt16)
    (wsPort : ℤ) (table : Table) : ℤ × TransportCtx × Table :=
  let relay := relayOf relayPort relayHost
  let ctx : TransportCtx := ⟨-1, -1, -1, relay.1, relay.2⟩
  let udp := table.openAt env.udp
  let ctx := { ctx with listenFd := udp.1 }
  if udp.1 < 0 then (-1, ctx, udp.2)
  else
    let tcp := listenSocket env.tcp udp.2
    let ctx := { ctx with tcpListenFd := tcp.1 }
    if 0 < wsPort then
      let ws := listenSocket env.ws tcp.2
      (0, { ctx with wsListenFd := ws.1 }, ws.2)
    else (0, ctx, tcp.2)

/-- `if (fd >= 0) { close(fd); fd = -1; }`. -/
def closeVar (fd : ℤ) (table : Table) : ℤ × Table :=
  if 0 ≤ fd then (-1, table.closeAt fd) else (fd, table)

def koeTransportShutdown (ctx : TransportCtx) (table : Table) : TransportCtx × Table :=
  let listen := closeVar ctx.listenFd table
  let tcp := closeVar ctx.tcpListenFd listen.2
  let ws := closeVar ctx.wsListenFd tcp.2
  ({ ctx with listenFd := listen.1, tcpListenFd := tcp.1, wsListenFd := ws.1 }, ws.2)

/-- What a connection attempt meets: the answers of `socket`, `inet_pton` and `connect` for the
address of the peer, and of `socket`, `getaddrinfo` and `connect` for the relay. -/
structure ConnectEnv where
  socket : Bool
  isAddress : Bool
  connects : Bool
  relaySocket : Bool
  resolves : Bool
  relayConnects : Bool

/-- The part behind `try_relay`. -/
def tryRelay (env : ConnectEnv) (ctx : TransportCtx) (peer : Peer) (table : Table) :
    ℤ × Peer × Table :=
  if ctx.relayHost = [] then (-1, peer, table)
  else
    let relay := table.openAt env.relaySocket
    if relay.1 < 0 then (-1, peer, relay.2)
    else if !env.resolves then (-1, peer, relay.2.closeAt relay.1)
    else if !env.relayConnects then (-1, peer, relay.2.closeAt relay.1)
    else (0, { peer with fd := relay.1, transport := .tcpRelay, reachable := 1 }, relay.2)

/-- The return code, and the peer and the descriptors after the call. -/
def koeTransportConnect (env : ConnectEnv) (ctx : TransportCtx) (peer : Peer) (table : Table) :
    ℤ × Peer × Table :=
  let direct := table.openAt env.socket
  if direct.1 < 0 then (-1, peer, direct.2)
  else if !env.isAddress then tryRelay env ctx peer (direct.2.closeAt direct.1)
  else if env.connects then
    (0, { peer with fd := direct.1, transport := .wifiDirect, reachable := 1 }, direct.2)
  else tryRelay env ctx peer (direct.2.closeAt direct.1)

/-- `source` is the other end of the connection that `accept` takes, if there is one. -/
def koeTransportAccept (source : Option (Block 4 × UInt16)) (ctx : TransportCtx) (peer : Peer)
    (table : Table) : ℤ × Peer × Table :=
  if ctx.tcpListenFd < 0 then (-1, peer, table)
  else
    match source with
    | none => (-1, peer, table)
    | some (addr, port) =>
      let accepted := table.openAt true
      (0, ⟨Block.zero 32, clip 64 (inetNtop addr), port, accepted.1, .wifiDirect, 1, ⟨0, 0⟩, 0⟩,
        accepted.2)

def koeTransportDisconnect (peer : Peer) (table : Table) : Peer × Table :=
  let closed := closeVar peer.fd table
  ({ peer with fd := closed.1, reachable := 0 }, closed.2)

/-- What `accept` and `recv` answer for a WebSocket connection: whether there is one, and what is
read of its request, if anything. -/
structure WsAcceptEnv where
  accepts : Bool
  request : Option (List UInt8)

/-- The accept key that stands in the answer to every request. -/
def wsAcceptKey : List UInt8 := ascii "dGhlIHNhbXBsZSBub25jZQ=="

def wsResponse : List UInt8 :=
  ascii "HTTP/1.1 101 Switching Protocols\r\nUpgrade: websocket\r\nConnection: Upgrade\r\n" ++
    ascii "Sec-WebSocket-Accept: " ++ wsAcceptKey ++ ascii "\r\n\r\n"

/-- The descriptor of the connection or `-1`, what is sent on it, and the descriptors after the
call. The key of the request is copied and not used. -/
def koeTransportWsAccept (env : WsAcceptEnv) (ctx : TransportCtx) (table : Table) :
    ℤ × List UInt8 × Table :=
  if ctx.wsListenFd < 0 then (-1, [], table)
  else
    let accepted := table.openAt env.accepts
    if accepted.1 < 0 then (-1, [], accepted.2)
    else
      match env.request with
      | none => (-1, [], accepted.2.closeAt accepted.1)
      | some bytes =>
        if ascii "Sec-WebSocket-Key:" <:+: (bytes.take 2047).takeWhile (· ≠ 0) then
          (accepted.1, wsResponse, accepted.2)
        else (-1, [], accepted.2.closeAt accepted.1)

/-- One `if` of `koe_transport_fd_set`. -/
def selectFd (fd : ℤ) (selected : ℤ × List ℤ) : ℤ × List ℤ :=
  if 0 ≤ fd then (if selected.1 < fd then fd else selected.1, selected.2 ++ [fd]) else selected

/-- The largest descriptor, and the set, given the set before the call. -/
def koeTransportFdSet (ctx : TransportCtx) (fds : List ℤ) : ℤ × List ℤ :=
  selectFd ctx.wsListenFd (selectFd ctx.tcpListenFd (selectFd ctx.listenFd (-1, fds)))

/-! ### What a call does to the descriptors -/

section Calls

variable {table : Table} {rest : Multiset ℕ}

def TransportCtx.held (ctx : TransportCtx) : Multiset ℕ :=
  Descriptors.held ctx.listenFd + Descriptors.held ctx.tcpListenFd + Descriptors.held ctx.wsListenFd

theorem listenSocket_opened (env : ListenEnv) (table : Table) :
    ((listenSocket env table).2.opened : Multiset ℕ) =
      held (listenSocket env table).1 + table.opened := by
  have hopened := table.opened_openAt env.socket
  unfold listenSocket
  dsimp only
  split_ifs
  · exact hopened
  · rw [table.closeAt_openAt, held_neg_one, zero_add]
  · exact hopened

theorem koeTransportInit_opened (env : TransportInitEnv) (relayHost : Option (List UInt8))
    (relayPort : UInt16) (wsPort : ℤ) (table : Table) :
    ((koeTransportInit env relayHost relayPort wsPort table).2.2.opened : Multiset ℕ) =
      (koeTransportInit env relayHost relayPort wsPort table).2.1.held + table.opened := by
  have hudp := table.opened_openAt env.udp
  have htcp := listenSocket_opened env.tcp (table.openAt env.udp).2
  have hws := listenSocket_opened env.ws (listenSocket env.tcp (table.openAt env.udp).2).2
  unfold koeTransportInit
  dsimp only
  split_ifs
  · rw [hudp]
    simp only [TransportCtx.held, held_neg_one, add_zero]
  · rw [hws, htcp, hudp]
    simp only [TransportCtx.held]
    abel
  · rw [htcp, hudp]
    simp only [TransportCtx.held, held_neg_one]
    abel

theorem held_closeVar (fd : ℤ) (table : Table) : held (closeVar fd table).1 = 0 := by
  unfold closeVar
  split_ifs with hfd
  · rfl
  · exact held_of_neg (Int.not_le.mp hfd)

/-- Assumes: an account with the variable and a rest. -/
theorem closeVar_opened {fd : ℤ} (hopened : (table.opened : Multiset ℕ) = held fd + rest) :
    ((closeVar fd table).2.opened : Multiset ℕ) = rest := by
  unfold closeVar
  split_ifs with hfd
  · exact Table.opened_closeAt hopened
  · rwa [held_of_neg (Int.not_le.mp hfd), zero_add] at hopened

theorem held_koeTransportShutdown (ctx : TransportCtx) (table : Table) :
    (koeTransportShutdown ctx table).1.held = 0 := by
  simp only [koeTransportShutdown, TransportCtx.held, held_closeVar, add_zero]

/-- Assumes: an account with the record and a rest. -/
theorem koeTransportShutdown_opened {ctx : TransportCtx}
    (hopened : (table.opened : Multiset ℕ) = ctx.held + rest) :
    ((koeTransportShutdown ctx table).2.opened : Multiset ℕ) = rest := by
  rw [TransportCtx.held, add_assoc, add_assoc] at hopened
  exact closeVar_opened (closeVar_opened (closeVar_opened hopened))

/-- A call on a peer fails and changes nothing, or opens the descriptor that the record then has. -/
def OpensOrFails (call : Peer → Table → ℤ × Peer × Table) : Prop :=
  ∀ peer table, call peer table = (-1, peer, table) ∨
    (call peer table).1 = 0 ∧ ((call peer table).2.2.opened : Multiset ℕ) =
      held (call peer table).2.1.fd + table.opened

theorem tryRelay_opensOrFails (env : ConnectEnv) (ctx : TransportCtx) :
    OpensOrFails (tryRelay env ctx) := by
  intro peer table
  have hopened := table.opened_openAt env.relaySocket
  unfold tryRelay
  dsimp only
  split_ifs with hhost hfailed
  · exact Or.inl rfl
  · exact Or.inl (by rw [Table.openAt_of_neg hfailed])
  · exact Or.inl (by rw [table.closeAt_openAt])
  · exact Or.inl (by rw [table.closeAt_openAt])
  · exact Or.inr ⟨rfl, hopened⟩

theorem koeTransportConnect_opensOrFails (env : ConnectEnv) (ctx : TransportCtx) :
    OpensOrFails (koeTransportConnect env ctx) := by
  intro peer table
  have hopened := table.opened_openAt env.socket
  unfold koeTransportConnect
  dsimp only
  split_ifs with hfailed
  · exact Or.inl (by rw [Table.openAt_of_neg hfailed])
  · rw [table.closeAt_openAt]
    exact tryRelay_opensOrFails env ctx peer table
  · exact Or.inr ⟨rfl, hopened⟩
  · rw [table.closeAt_openAt]
    exact tryRelay_opensOrFails env ctx peer table

theorem koeTransportAccept_opensOrFails (source : Option (Block 4 × UInt16)) (ctx : TransportCtx) :
    OpensOrFails (koeTransportAccept source ctx) := by
  intro peer table
  unfold koeTransportAccept
  split_ifs
  · exact Or.inl rfl
  · rcases source with _ | ⟨addr, port⟩
    · exact Or.inl rfl
    · exact Or.inr ⟨rfl, table.opened_openAt true⟩

theorem koeTransportWsAccept_cases (env : WsAcceptEnv) (ctx : TransportCtx) (table : Table) :
    koeTransportWsAccept env ctx table = (-1, [], table) ∨
      ((koeTransportWsAccept env ctx table).2.2.opened : Multiset ℕ) =
        held (koeTransportWsAccept env ctx table).1 + table.opened := by
  have hopened := table.opened_openAt env.accepts
  unfold koeTransportWsAccept
  dsimp only
  split_ifs with hlistens hfailed
  · exact Or.inl rfl
  · exact Or.inl (by rw [Table.openAt_of_neg hfailed])
  · rcases env.request with _ | bytes
    · exact Or.inl (by rw [table.closeAt_openAt])
    · dsimp only
      split_ifs
      · exact Or.inr hopened
      · exact Or.inl (by rw [table.closeAt_openAt])

/-- Assumes: a set without negative numbers, and a bound for it. -/
theorem selectFd_spec {selected : ℤ × List ℤ}
    (hselected : ∀ other ∈ selected.2, 0 ≤ other ∧ other ≤ selected.1) (fd : ℤ) :
    heldAll (selectFd fd selected).2 = heldAll selected.2 + held fd ∧
      ∀ other ∈ (selectFd fd selected).2, 0 ≤ other ∧ other ≤ (selectFd fd selected).1 := by
  unfold selectFd
  split_ifs with hfd hmax
  · refine ⟨by rw [heldAll_append, heldAll_cons, heldAll_nil, add_zero], ?_⟩
    intro other hother
    rcases List.mem_append.mp hother with hold | hnew
    · exact ⟨(hselected other hold).1, (hselected other hold).2.trans hmax.le⟩
    · rw [List.mem_singleton.mp hnew]
      exact ⟨hfd, le_rfl⟩
  · refine ⟨by rw [heldAll_append, heldAll_cons, heldAll_nil, add_zero], ?_⟩
    intro other hother
    rcases List.mem_append.mp hother with hold | hnew
    · exact hselected other hold
    · rw [List.mem_singleton.mp hnew]
      exact ⟨hfd, Int.not_lt.mp hmax⟩
  · exact ⟨by rw [held_of_neg (Int.not_le.mp hfd), add_zero], hselected⟩

/-- The sockets that are waited on are those of the record, and none has a higher number than the
one that is returned. -/
theorem koeTransportFdSet_spec (ctx : TransportCtx) :
    heldAll (koeTransportFdSet ctx []).2 = ctx.held ∧
      ∀ fd ∈ (koeTransportFdSet ctx []).2, 0 ≤ fd ∧ fd ≤ (koeTransportFdSet ctx []).1 := by
  have hempty : ∀ other ∈ ((-1, []) : ℤ × List ℤ).2, 0 ≤ other ∧ other ≤ -1 :=
    fun other hother ↦ absurd hother List.not_mem_nil
  obtain ⟨hlisten, hlistenMax⟩ := selectFd_spec hempty ctx.listenFd
  obtain ⟨htcp, htcpMax⟩ := selectFd_spec hlistenMax ctx.tcpListenFd
  obtain ⟨hws, hwsMax⟩ := selectFd_spec htcpMax ctx.wsListenFd
  refine ⟨?_, hwsMax⟩
  rw [koeTransportFdSet, hws, htcp, hlisten, heldAll_nil, zero_add, TransportCtx.held]

end Calls

/-! ### Runs -/

/-- A process with a transport: the descriptors that are open, those of the rest of the process, and
the records that hold descriptors. -/
structure Node where
  table : Table
  foreign : Multiset ℕ
  ctx : TransportCtx
  peers : List Peer
  sockets : List ℤ

/-- What the records hold. -/
def Node.held (node : Node) : Multiset ℕ :=
  node.ctx.held + heldAll (node.peers.map Peer.fd) + heldAll node.sockets

/-- What the process does. The rest of it opens and closes descriptors of its own. -/
inductive NodeCall
  | init (env : TransportInitEnv) (relayHost : Option (List UInt8)) (relayPort : UInt16)
    (wsPort : ℤ)
  | shutdown
  | discovered (dgram : Datagram)
  | connect (i : ℕ) (env : ConnectEnv)
  | accept (i : ℕ) (source : Option (Block 4 × UInt16))
  | disconnect (i : ℕ)
  | wsAccept (env : WsAcceptEnv)
  | wsClose (i : ℕ)
  | otherOpens (ok : Bool)
  | otherCloses (n : ℕ)

/-- A call on the record of one peer. -/
def Node.onPeer (node : Node) (i : ℕ) (call : Peer → Table → ℤ × Peer × Table) : Node :=
  match node.peers[i]? with
  | none => node
  | some peer =>
    let after := call peer node.table
    { node with table := after.2.2, peers := node.peers.set i after.2.1 }

def NodeCall.step (node : Node) : NodeCall → Node
  | init env relayHost relayPort wsPort =>
    let after := koeTransportInit env relayHost relayPort wsPort node.table
    { node with ctx := after.2.1, table := after.2.2 }
  | shutdown =>
    let after := koeTransportShutdown node.ctx node.table
    { node with ctx := after.1, table := after.2 }
  | discovered dgram => { node with peers := node.peers ++ [discoPeer dgram] }
  | connect i env => node.onPeer i (koeTransportConnect env node.ctx)
  | accept i source => node.onPeer i (koeTransportAccept source node.ctx)
  | disconnect i => node.onPeer i fun peer table ↦ (0, koeTransportDisconnect peer table)
  | wsAccept env =>
    let after := koeTransportWsAccept env node.ctx node.table
    { node with table := after.2.2, sockets := node.sockets ++ [after.1] }
  | wsClose i =>
    match node.sockets[i]? with
    | none => node
    | some fd => { node with table := node.table.closeAt fd, sockets := node.sockets.set i (-1) }
  | otherOpens ok =>
    let after := node.table.openAt ok
    { node with table := after.2, foreign := Descriptors.held after.1 + node.foreign }
  | otherCloses n =>
    if n ∈ node.foreign then
      { node with table := node.table.closeAt n, foreign := node.foreign.erase n }
    else node

/-- What the record of one peer held, if a call on it succeeds. -/
def Node.replaced (node : Node) (i : ℕ) (call : Peer → Table → ℤ × Peer × Table) : Multiset ℕ :=
  match node.peers[i]? with
  | none => 0
  | some peer => if (call peer node.table).1 = 0 then Descriptors.held peer.fd else 0

/-- The descriptors that the call overwrites. -/
def NodeCall.overwritten (node : Node) : NodeCall → Multiset ℕ
  | init _ _ _ _ => node.ctx.held
  | connect i env => node.replaced i (koeTransportConnect env node.ctx)
  | accept i source => node.replaced i (koeTransportAccept source node.ctx)
  | _ => 0

/-- The descriptors that a run overwrites. -/
def overwrittenBy : Node → List NodeCall → Multiset ℕ
  | _, [] => 0
  | node, call :: calls => call.overwritten node + overwrittenBy (call.step node) calls

/-- Every open descriptor is one of the rest of the process, one that a record holds, or lost. -/
def Node.Balanced (node : Node) (lost : Multiset ℕ) : Prop :=
  (node.table.opened : Multiset ℕ) = node.foreign + lost + node.held

section Runs

variable {node : Node} {lost : Multiset ℕ}

/-- Another record for a peer. Assumes: the peer. -/
theorem Node.held_set {i : ℕ} {peer : Peer} (hpeer : node.peers[i]? = some peer) (after : Peer)
    (table : Table) :
    ({ node with table := table, peers := node.peers.set i after } : Node).held +
        Descriptors.held peer.fd = node.held + Descriptors.held after.fd := by
  have hfd : (node.peers.map Peer.fd)[i]? = some peer.fd := by
    rw [List.getElem?_map, hpeer, Option.map_some]
  have hset := heldAll_set hfd after.fd
  simp only [Node.held, List.map_set]
  calc node.ctx.held + heldAll ((node.peers.map Peer.fd).set i after.fd) + heldAll node.sockets +
        Descriptors.held peer.fd
      = node.ctx.held + (heldAll ((node.peers.map Peer.fd).set i after.fd) +
          Descriptors.held peer.fd) + heldAll node.sockets := by abel
    _ = node.ctx.held + heldAll (node.peers.map Peer.fd) + heldAll node.sockets +
          Descriptors.held after.fd := by rw [hset]; abel

/-- Assumes: a call on a peer that fails. The process is as before. -/
theorem Node.onPeer_of_failed {call : Peer → Table → ℤ × Peer × Table} {i : ℕ} {peer : Peer}
    (hpeer : node.peers[i]? = some peer) (hfailed : call peer node.table = (-1, peer, node.table)) :
    node.onPeer i call = node := by
  obtain ⟨hi, rfl⟩ := List.getElem?_eq_some_iff.mp hpeer
  simp only [Node.onPeer, hpeer, hfailed, List.set_getElem_self hi]

/-- A call on a peer keeps the account. Assumes: an account, and a call that opens the descriptor of
the record or fails. -/
theorem Node.Balanced.onPeer (hbalanced : node.Balanced lost)
    {call : Peer → Table → ℤ × Peer × Table} (hcall : OpensOrFails call) (i : ℕ) :
    (node.onPeer i call).Balanced (node.replaced i call + lost) := by
  rcases hpeer : node.peers[i]? with _ | peer
  · simpa only [Node.onPeer, Node.replaced, hpeer, zero_add] using hbalanced
  · rcases hcall peer node.table with hfailed | ⟨hrc, hopened⟩
    · have hkept : node.replaced i call = 0 := by
        simp only [Node.replaced, hpeer, hfailed]
        rfl
      rw [Node.onPeer_of_failed hpeer hfailed, hkept, zero_add]
      exact hbalanced
    · have hheld := Node.held_set hpeer (call peer node.table).2.1 (call peer node.table).2.2
      simp only [Node.onPeer, Node.replaced, hpeer, if_pos hrc, Node.Balanced]
      calc ((call peer node.table).2.2.opened : Multiset ℕ)
          = node.foreign + lost +
              (node.held + Descriptors.held (call peer node.table).2.1.fd) := by
            rw [hopened, hbalanced]
            abel
        _ = _ := by
            rw [← hheld]
            abel

/-- What a call does to the account. Assumes: an account. -/
theorem Node.Balanced.step (hbalanced : node.Balanced lost) (call : NodeCall) :
    (call.step node).Balanced (call.overwritten node + lost) := by
  cases call with
  | init env relayHost relayPort wsPort =>
    have hopened := koeTransportInit_opened env relayHost relayPort wsPort node.table
    rw [hbalanced] at hopened
    simp only [Node.Balanced, NodeCall.step, NodeCall.overwritten, Node.held] at hopened ⊢
    rw [hopened]
    abel
  | shutdown =>
    have haccount : (node.table.opened : Multiset ℕ) = node.ctx.held + (node.foreign + lost +
        (heldAll (node.peers.map Peer.fd) + heldAll node.sockets)) := by
      rw [hbalanced, Node.held]
      abel
    simp only [Node.Balanced, NodeCall.step, NodeCall.overwritten, Node.held,
      koeTransportShutdown_opened haccount, held_koeTransportShutdown, zero_add]
  | discovered dgram =>
    have hnone : Descriptors.held (discoPeer dgram).fd = 0 := rfl
    simpa [Node.Balanced, NodeCall.step, NodeCall.overwritten, Node.held, heldAll_append, hnone]
      using hbalanced
  | connect i env => exact hbalanced.onPeer (koeTransportConnect_opensOrFails env node.ctx) i
  | accept i source => exact hbalanced.onPeer (koeTransportAccept_opensOrFails source node.ctx) i
  | disconnect i =>
    simp only [NodeCall.step, Node.onPeer, NodeCall.overwritten, zero_add]
    rcases hpeer : node.peers[i]? with _ | peer
    · exact hbalanced
    · have hheld := Node.held_set hpeer (koeTransportDisconnect peer node.table).1
        (koeTransportDisconnect peer node.table).2
      have hnone : Descriptors.held (koeTransportDisconnect peer node.table).1.fd = 0 :=
        held_closeVar peer.fd node.table
      rw [hnone, add_zero] at hheld
      refine closeVar_opened ?_
      rw [hbalanced, ← hheld]
      abel
  | wsAccept env =>
    rcases koeTransportWsAccept_cases env node.ctx node.table with hfailed | hopened
    · simpa [Node.Balanced, NodeCall.step, NodeCall.overwritten, Node.held, hfailed,
        heldAll_append] using hbalanced
    · rw [hbalanced] at hopened
      simp only [Node.Balanced, NodeCall.step, NodeCall.overwritten, Node.held, heldAll_append,
        heldAll_cons, heldAll_nil] at hopened ⊢
      rw [hopened]
      abel
  | wsClose i =>
    simp only [NodeCall.step, NodeCall.overwritten, zero_add]
    rcases hsocket : node.sockets[i]? with _ | fd
    · exact hbalanced
    · have hset := heldAll_set hsocket (-1)
      rw [held_neg_one, add_zero] at hset
      refine Table.opened_closeAt ?_
      rw [hbalanced, Node.held, Node.held, ← hset]
      abel
  | otherOpens ok =>
    have hopened := node.table.opened_openAt ok
    rw [hbalanced] at hopened
    simp only [Node.Balanced, NodeCall.step, NodeCall.overwritten, Node.held] at hopened ⊢
    rw [hopened]
    abel
  | otherCloses n =>
    simp only [NodeCall.step, NodeCall.overwritten, zero_add]
    split_ifs with hmem
    · have hforeign : node.foreign = {n} + node.foreign.erase n := by
        rw [Multiset.singleton_add, Multiset.cons_erase hmem]
      refine Table.opened_closeAt ?_
      calc (node.table.opened : Multiset ℕ)
          = {n} + node.foreign.erase n + lost + node.held := by rw [← hforeign, hbalanced]
        _ = _ := by
            simp only [held_natCast, Node.held]
            abel
    · exact hbalanced

/-- The account over a run. Assumes: an account before it. -/
theorem Node.Balanced.run (calls : List NodeCall) :
    ∀ {node : Node} {lost : Multiset ℕ}, node.Balanced lost →
      (calls.foldl NodeCall.step node).Balanced (overwrittenBy node calls + lost) := by
  induction calls with
  | nil =>
    intro node lost hbalanced
    rwa [overwrittenBy, zero_add]
  | cons call calls ih =>
    intro node lost hbalanced
    have hrest := ih (hbalanced.step call)
    rwa [← add_assoc, add_comm (overwrittenBy (call.step node) calls)] at hrest

end Runs

/-- A process whose transport was initialised, with the descriptors that it had before. -/
def Node.start (table : Table) (env : TransportInitEnv) (relayHost : Option (List UInt8))
    (relayPort : UInt16) (wsPort : ℤ) : Node :=
  let started := koeTransportInit env relayHost relayPort wsPort table
  ⟨started.2.2, table.opened, started.2.1, [], []⟩

/-- The account of the descriptors, after every run of a process that starts with its own. The open
descriptors are those of the rest of the process, those that were overwritten and those that records
hold; none is in this account twice. What is waited on is open and not above the number returned.
And a connection or an acceptance that fails leaves everything as it was. -/
theorem koeTransport_descriptors (table : Table) (env : TransportInitEnv)
    (relayHost : Option (List UInt8)) (relayPort : UInt16) (wsPort : ℤ) (calls : List NodeCall) :
    let start := Node.start table env relayHost relayPort wsPort
    let node := calls.foldl NodeCall.step start
    (node.table.opened : Multiset ℕ) = node.foreign + overwrittenBy start calls + node.held ∧
      (node.foreign + overwrittenBy start calls + node.held).Nodup ∧
      (∀ fd ∈ (koeTransportFdSet node.ctx []).2,
        fd.toNat ∈ node.table.opened ∧ fd ≤ (koeTransportFdSet node.ctx []).1) ∧
      ∀ i peer, node.peers[i]? = some peer →
        (∀ env, (koeTransportConnect env node.ctx peer node.table).1 ≠ 0 →
          NodeCall.step node (.connect i env) = node) ∧
        ∀ source, (koeTransportAccept source node.ctx peer node.table).1 ≠ 0 →
          NodeCall.step node (.accept i source) = node := by
  intro start node
  have hstart : start.Balanced 0 := by
    have hopened := koeTransportInit_opened env relayHost relayPort wsPort table
    rw [Node.Balanced]
    change ((koeTransportInit env relayHost relayPort wsPort table).2.2.opened : Multiset ℕ) =
      (table.opened : Multiset ℕ) + 0 +
        ((koeTransportInit env relayHost relayPort wsPort table).2.1.held + 0 + 0)
    rw [hopened]
    abel
  have hnode : (node.table.opened : Multiset ℕ) =
      node.foreign + overwrittenBy start calls + node.held := by
    have hrun := hstart.run calls
    rwa [add_zero] at hrun
  refine ⟨hnode, ?_, ?_, ?_⟩
  · rw [← hnode]
    exact Multiset.coe_nodup.mpr node.table.nodup
  · intro fd hfd
    obtain ⟨hheld, hbound⟩ := koeTransportFdSet_spec node.ctx
    refine ⟨?_, (hbound fd hfd).2⟩
    have hmem : fd.toNat ∈ node.ctx.held := by
      rw [← hheld]
      exact mem_heldAll hfd (hbound fd hfd).1
    rw [← Multiset.mem_coe, hnode, Node.held]
    simp only [Multiset.mem_add, hmem, true_or, or_true]
  · intro i peer hpeer
    constructor
    · intro env hrc
      rcases koeTransportConnect_opensOrFails env node.ctx peer node.table with hfailed | hdone
      · exact Node.onPeer_of_failed hpeer hfailed
      · exact absurd hdone.1 hrc
    · intro source hrc
      rcases koeTransportAccept_opensOrFails source node.ctx peer node.table with hfailed | hdone
      · exact Node.onPeer_of_failed hpeer hfailed
      · exact absurd hdone.1 hrc

end KoeCore
