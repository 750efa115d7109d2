import LdkSample.Machine.Basic

/-!
# The tasks that connect peers

The tasks of `start_ldk` (`main.rs`) that call `setup_inbound` or `connect_outbound`:
the listener, the once-a-second reconnect task, one task for each `ConnectionNeeded`
event, and the CLI, next to the main task that stops them. Each load of the stop flag,
each test of the peer map and each call is a step of its own, so steps interleave at
least as finely as at every await. What LDK, the network and the resolver answer is in
the labels.
-/

namespace LdkSample

namespace Node

structure PublicKey where
  bytes : Vector UInt8 33
  deriving DecidableEq

/-- `lightning::ln::msgs::SocketAddress`. -/
inductive SocketAddress where
  | tcpIpV4 (addr : Vector UInt8 4) (port : UInt16)
  | tcpIpV6 (addr : Vector UInt8 16) (port : UInt16)
  | onionV2 (bytes : Vector UInt8 12)
  | onionV3 (ed25519Pubkey : Vector UInt8 32) (checksum : UInt16) (version : UInt8) (port : UInt16)
  | hostname (hostname : List UInt8) (port : UInt16)
  deriving DecidableEq

/-- `std::net::SocketAddr`. -/
inductive SocketAddr where
  | v4 (ip : Vector UInt8 4) (port : UInt16)
  | v6 (ip : Vector UInt8 16) (port : UInt16)
  deriving DecidableEq

/-- What the reconnect task reads of a node in the network graph. -/
structure NodeInfo where
  announcementInfo : Option (List SocketAddress)
  deriving DecidableEq

def nonOnion : SocketAddress → Option SocketAddress
  | .onionV2 _ => none
  | .onionV3 .. => none
  | addr => some addr

/-- The addresses the reconnect task tries for a node. -/
def dialAddrs : Option NodeInfo → List SocketAddress
  | some ⟨some addresses⟩ => addresses.filterMap nonOnion
  | some ⟨none⟩ => []
  | none => []

/-! ## The reconnect task -/

/-- Where the reconnect task is: the three loops, with what is left of each. -/
inductive Reconnect where
  | ticking
  | filtering (nodes : List PublicKey)
  | checking (nodeId : PublicKey) (nodes : List PublicKey)
  | looking (nodeId : PublicKey) (nodes : List PublicKey)
  | resolving (nodeId : PublicKey) (addrs : List SocketAddress) (nodes : List PublicKey)
  | dialing (nodeId : PublicKey) (sockaddrs : List SocketAddr) (addrs : List SocketAddress)
      (nodes : List PublicKey)
  | connecting (nodeId : PublicKey) (sockaddrs : List SocketAddr) (addrs : List SocketAddress)
      (nodes : List PublicKey)
  | stopped
  deriving DecidableEq

inductive ReconnectAct where
  | tick (counterparties : List PublicKey)
  | advance
  | lookup (node : Option NodeInfo)
  | resolve (sockaddrs : Option (List SocketAddr))
  | dial
  | connected (ok : Bool)
  deriving DecidableEq

/-- One step of the reconnect task, with the `do_connect_peer` call it makes. -/
def Reconnect.step (stop : Bool) (peers : List PublicKey) :
    Reconnect → ReconnectAct → Option (Reconnect × Option (PublicKey × SocketAddr))
  | ticking, .tick counterparties => some (filtering counterparties, none)
  | filtering [], .advance => some (ticking, none)
  | filtering (id :: nodes), .advance =>
    some (if id ∈ peers then filtering nodes else checking id nodes, none)
  | checking id nodes, .advance => some (if stop then stopped else looking id nodes, none)
  | looking id nodes, .lookup node => some (resolving id (dialAddrs node) nodes, none)
  | resolving _ [] nodes, .advance => some (filtering nodes, none)
  | resolving id (_ :: addrs) nodes, .resolve none => some (resolving id addrs nodes, none)
  | resolving id (_ :: addrs) nodes, .resolve (some sockaddrs) =>
    some (dialing id sockaddrs addrs nodes, none)
  | dialing id [] addrs nodes, .advance => some (resolving id addrs nodes, none)
  | dialing id (sockaddr :: sockaddrs) addrs nodes, .dial =>
    some (connecting id sockaddrs addrs nodes, some (id, sockaddr))
  | connecting id sockaddrs addrs nodes, .connected ok =>
    -- `do_connect_peer` returns `Ok` when it sees the peer in the peer map
    if ok && id ∉ peers then none else some (dialing id sockaddrs addrs nodes, none)
  | _, _ => none

/-- Every way a step of the reconnect task can go. -/
inductive Reconnect.Step (stop : Bool) (peers : List PublicKey) :
    Reconnect → ReconnectAct → Reconnect → Option (PublicKey × SocketAddr) → Prop where
  | tick {ids : List PublicKey} : Step stop peers .ticking (.tick ids) (.filtering ids) none
  | tickDone : Step stop peers (.filtering []) .advance .ticking none
  | skip {id : PublicKey} {nodes : List PublicKey} : id ∈ peers →
      Step stop peers (.filtering (id :: nodes)) .advance (.filtering nodes) none
  | pick {id : PublicKey} {nodes : List PublicKey} : id ∉ peers →
      Step stop peers (.filtering (id :: nodes)) .advance (.checking id nodes) none
  | stop {id : PublicKey} {nodes : List PublicKey} : stop = true →
      Step stop peers (.checking id nodes) .advance .stopped none
  | go {id : PublicKey} {nodes : List PublicKey} : stop = false →
      Step stop peers (.checking id nodes) .advance (.looking id nodes) none
  | lookup {id : PublicKey} {nodes : List PublicKey} {node : Option NodeInfo} :
      Step stop peers (.looking id nodes) (.lookup node) (.resolving id (dialAddrs node) nodes) none
  | nodeDone {id : PublicKey} {nodes : List PublicKey} :
      Step stop peers (.resolving id [] nodes) .advance (.filtering nodes) none
  | unresolved {id : PublicKey} {addr : SocketAddress} {addrs : List SocketAddress}
      {nodes : List PublicKey} :
      Step stop peers (.resolving id (addr :: addrs) nodes) (.resolve none)
        (.resolving id addrs nodes) none
  | resolved {id : PublicKey} {addr : SocketAddress} {addrs : List SocketAddress}
      {nodes : List PublicKey} {sockaddrs : List SocketAddr} :
      Step stop peers (.resolving id (addr :: addrs) nodes) (.resolve (some sockaddrs))
        (.dialing id sockaddrs addrs nodes) none
  | addrDone {id : PublicKey} {addrs : List SocketAddress} {nodes : List PublicKey} :
      Step stop peers (.dialing id [] addrs nodes) .advance (.resolving id addrs nodes) none
  | dial {id : PublicKey} {sockaddr : SocketAddr} {sockaddrs : List SocketAddr}
      {addrs : List SocketAddress} {nodes : List PublicKey} :
      Step stop peers (.dialing id (sockaddr :: sockaddrs) addrs nodes) .dial
        (.connecting id sockaddrs addrs nodes) (some (id, sockaddr))
  | connected {id : PublicKey} {sockaddrs : List SocketAddr} {addrs : List SocketAddress}
      {nodes : List PublicKey} {ok : Bool} : (ok = true → id ∈ peers) →
      Step stop peers (.connecting id sockaddrs addrs nodes) (.connected ok)
        (.dialing id sockaddrs addrs nodes) none

theorem Reconnect.step_cases {stop : Bool} {peers : List PublicKey} {r r' : Reconnect}
    {a : ReconnectAct} {d : Option (PublicKey × SocketAddr)}
    (h : r.step stop peers a = some (r', d)) : Step stop peers r a r' d := by
  unfold Reconnect.step at h
  split at h
  · cases h; exact .tick
  · cases h; exact .tickDone
  · split at h
    · next hp => cases h; exact .skip hp
    · next hp => cases h; exact .pick hp
  · split at h
    · next hs => cases h; exact .stop hs
    · next hs => cases h; exact .go (Bool.eq_false_iff.mpr hs)
  · cases h; exact .lookup
  · cases h; exact .nodeDone
  · cases h; exact .unresolved
  · cases h; exact .resolved
  · cases h; exact .addrDone
  · cases h; exact .dial
  · split at h
    · cases h
    · next ho => cases h; exact .connected (by simpa using ho)
  · cases h

/-! ## Tasks for `ConnectionNeeded` -/

inductive Needed where
  | resolving (addresses : List SocketAddress)
  | trying (sockaddrs : List SocketAddr) (addresses : List SocketAddress)
  | dialing (addr : SocketAddr) (sockaddrs : List SocketAddr) (addresses : List SocketAddress)
  | connecting (sockaddrs : List SocketAddr) (addresses : List SocketAddress)
  | returned
  deriving DecidableEq

inductive NeededAct where
  | advance
  | resolve (sockaddrs : Option (List SocketAddr))
  | dial
  | connected (ok : Bool)
  deriving DecidableEq

/-- One step of a `ConnectionNeeded` task for `nodeId`, with the address it connects to. -/
def Needed.step (nodeId : PublicKey) (peers : List PublicKey) :
    Needed → NeededAct → Option (Needed × Option SocketAddr)
  | resolving [], .advance => some (returned, none)
  | resolving (_ :: addresses), .resolve none => some (resolving addresses, none)
  | resolving (_ :: addresses), .resolve (some sockaddrs) => some (trying sockaddrs addresses, none)
  | trying [] addresses, .advance => some (resolving addresses, none)
  | trying (addr :: sockaddrs) addresses, .advance =>
    -- `connect_peer_if_necessary` returns `Ok` for a connected peer
    some (if nodeId ∈ peers then returned else dialing addr sockaddrs addresses, none)
  | dialing addr sockaddrs addresses, .dial => some (connecting sockaddrs addresses, some addr)
  | connecting sockaddrs addresses, .connected ok =>
    if ok && nodeId ∉ peers then none
    else some (if ok then returned else trying sockaddrs addresses, none)
  | _, _ => none

/-- Every way a step of a `ConnectionNeeded` task can go. -/
inductive Needed.Step (nodeId : PublicKey) (peers : List PublicKey) :
    Needed → NeededAct → Needed → Option SocketAddr → Prop where
  | done : Step nodeId peers (.resolving []) .advance .returned none
  | unresolved {address : SocketAddress} {addresses : List SocketAddress} :
      Step nodeId peers (.resolving (address :: addresses)) (.resolve none)
        (.resolving addresses) none
  | resolved {address : SocketAddress} {addresses : List SocketAddress}
      {sockaddrs : List SocketAddr} :
      Step nodeId peers (.resolving (address :: addresses)) (.resolve (some sockaddrs))
        (.trying sockaddrs addresses) none
  | addrDone {addresses : List SocketAddress} :
      Step nodeId peers (.trying [] addresses) .advance (.resolving addresses) none
  | already {addr : SocketAddr} {sockaddrs : List SocketAddr} {addresses : List SocketAddress} :
      nodeId ∈ peers → Step nodeId peers (.trying (addr :: sockaddrs) addresses) .advance
        .returned none
  | pick {addr : SocketAddr} {sockaddrs : List SocketAddr} {addresses : List SocketAddress} :
      nodeId ∉ peers → Step nodeId peers (.trying (addr :: sockaddrs) addresses) .advance
        (.dialing addr sockaddrs addresses) none
  | dial {addr : SocketAddr} {sockaddrs : List SocketAddr} {addresses : List SocketAddress} :
      Step nodeId peers (.dialing addr sockaddrs addresses) .dial
        (.connecting sockaddrs addresses) (some addr)
  | connected {sockaddrs : List SocketAddr} {addresses : List SocketAddress} : nodeId ∈ peers →
      Step nodeId peers (.connecting sockaddrs addresses) (.connected true) .returned none
  | failed {sockaddrs : List SocketAddr} {addresses : List SocketAddress} :
      Step nodeId peers (.connecting sockaddrs addresses) (.connected false)
        (.trying sockaddrs addresses) none

theorem Needed.step_cases {nodeId : PublicKey} {peers : List PublicKey} {t t' : Needed}
    {a : NeededAct} {d : Option SocketAddr} (h : t.step nodeId peers a = some (t', d)) :
    Step nodeId peers t a t' d := by
  unfold Needed.step at h
  split at h
  · cases h; exact .done
  · cases h; exact .unresolved
  · cases h; exact .resolved
  · cases h; exact .addrDone
  · split at h
    · next hp => cases h; exact .already hp
    · next hp => cases h; exact .pick hp
  · cases h; exact .dial
  · next ok =>
    cases ok with
    | true =>
      split at h
      · cases h
      · next ho => cases h; exact .connected (by simpa using ho)
    | false => cases h; exact .failed
  · cases h

/-! ## The machine -/

inductive Main where
  | selecting
  | stopping
  | stored
  | disconnected
  deriving DecidableEq, Repr

inductive Listener where
  | accepting
  | accepted
  | spawning
  | stopped
  deriving DecidableEq, Repr

inductive Cli where
  | idle
  | dialing (pubkey : PublicKey) (peerAddr : SocketAddr)
  | connecting (pubkey : PublicKey)
  | ended
  deriving DecidableEq

/-- The calls whose order the stop sequence is about. -/
inductive Call where
  | disconnectAllPeers
  | setupInbound
  | connectOutbound (nodeId : PublicKey) (addr : SocketAddr)
  deriving DecidableEq

structure State where
  stop : Bool
  main : Main
  bgEnded : Bool
  listener : Listener
  /-- Accepted streams whose task has not yet called `setup_inbound`. -/
  spawned : Nat
  reconnect : Reconnect
  needed : List (PublicKey × Needed)
  cli : Cli
  peers : List PublicKey
  calls : List Call
  deriving DecidableEq

inductive Label where
  | select
  | storeStop
  | disconnectAllPeers
  | bgEnd
  | accept
  | loadStop
  | spawn
  | setupInbound
  | reconnect (a : ReconnectAct)
  | connectionNeeded (nodeId : PublicKey) (addresses : List SocketAddress)
  | needed (i : Nat) (a : NeededAct)
  | connectPeer (pubkey : PublicKey) (peerAddr : SocketAddr)
  | cliDial
  | cliConnected (ok : Bool)
  | cliEnd
  | peerConnected (nodeId : PublicKey)
  | peerDisconnected (nodeId : PublicKey)
  deriving DecidableEq

def init : State where
  stop := false
  main := .selecting
  bgEnded := false
  listener := .accepting
  spawned := 0
  reconnect := .ticking
  needed := []
  cli := .idle
  peers := []
  calls := []

/-- The call of `connect_outbound`, if there was one. -/
def outboundCalls : Option (PublicKey × SocketAddr) → List Call
  | none => []
  | some (nodeId, addr) => [.connectOutbound nodeId addr]

def step (s : State) : Label → Option State
  | .select =>
    if s.main = .selecting ∧ (s.cli = .ended ∨ s.bgEnded) then some { s with main := .stopping }
    else none
  | .storeStop =>
    if s.main = .stopping then some { s with main := .stored, stop := true } else none
  | .disconnectAllPeers =>
    if s.main = .stored then
      some { s with
        main := .disconnected
        peers := []
        calls := s.calls ++ [.disconnectAllPeers] }
    else none
  | .bgEnd => if s.bgEnded then none else some { s with bgEnded := true }
  | .accept => if s.listener = .accepting then some { s with listener := .accepted } else none
  | .loadStop =>
    if s.listener = .accepted then
      some { s with listener := if s.stop then .stopped else .spawning }
    else none
  | .spawn =>
    if s.listener = .spawning then
      some { s with listener := .accepting, spawned := s.spawned + 1 }
    else none
  | .setupInbound =>
    match s.spawned with
    | 0 => none
    | n + 1 => some { s with spawned := n, calls := s.calls ++ [.setupInbound] }
  | .reconnect a =>
    (s.reconnect.step s.stop s.peers a).map fun r =>
      { s with reconnect := r.1, calls := s.calls ++ outboundCalls r.2 }
  | .connectionNeeded nodeId addresses =>
    -- events are handled by the background processor's task
    if s.bgEnded then none
    else some { s with needed := s.needed ++ [(nodeId, .resolving addresses)] }
  | .needed i a =>
    match s.needed[i]? with
    | none => none
    | some (nodeId, t) =>
      (t.step nodeId s.peers a).map fun r =>
        { s with
          needed := s.needed.set i (nodeId, r.1)
          calls := s.calls ++ outboundCalls (r.2.map fun addr => (nodeId, addr)) }
  | .connectPeer pubkey peerAddr =>
    if s.cli = .idle then
      some { s with cli := if pubkey ∈ s.peers then .idle else .dialing pubkey peerAddr }
    else none
  | .cliDial =>
    match s.cli with
    | .dialing pubkey peerAddr =>
      some { s with
        cli := .connecting pubkey
        calls := s.calls ++ [.connectOutbound pubkey peerAddr] }
    | _ => none
  | .cliConnected ok =>
    match s.cli with
    | .connecting pubkey => if ok && pubkey ∉ s.peers then none else some { s with cli := .idle }
    | _ => none
  | .cliEnd => if s.cli = .idle then some { s with cli := .ended } else none
  | .peerConnected nodeId => some { s with peers := nodeId :: s.peers }
  | .peerDisconnected nodeId => some { s with peers := s.peers.filter (· ≠ nodeId) }

def machine : Machine State Label := ⟨step⟩

/-- Every way a step can go. -/
inductive Step (s : State) : Label → State → Prop where
  | select : s.main = .selecting → s.cli = .ended ∨ s.bgEnded = true →
      Step s .select { s with main := .stopping }
  | storeStop : s.main = .stopping → Step s .storeStop { s with main := .stored, stop := true }
  | disconnectAllPeers : s.main = .stored →
      Step s .disconnectAllPeers { s with
        main := .disconnected
        peers := []
        calls := s.calls ++ [.disconnectAllPeers] }
  | bgEnd : s.bgEnded = false → Step s .bgEnd { s with bgEnded := true }
  | accept : s.listener = .accepting → Step s .accept { s with listener := .accepted }
  | loadStop : s.listener = .accepted →
      Step s .loadStop { s with listener := if s.stop then .stopped else .spawning }
  | spawn : s.listener = .spawning →
      Step s .spawn { s with listener := .accepting, spawned := s.spawned + 1 }
  | setupInbound {n : Nat} : s.spawned = n + 1 →
      Step s .setupInbound { s with spawned := n, calls := s.calls ++ [.setupInbound] }
  | reconnect {a : ReconnectAct} {r : Reconnect} {d : Option (PublicKey × SocketAddr)} :
      s.reconnect.step s.stop s.peers a = some (r, d) →
      Step s (.reconnect a) { s with reconnect := r, calls := s.calls ++ outboundCalls d }
  | connectionNeeded {nodeId : PublicKey} {addresses : List SocketAddress} : s.bgEnded = false →
      Step s (.connectionNeeded nodeId addresses) { s with
        needed := s.needed ++ [(nodeId, .resolving addresses)] }
  | needed {i : Nat} {a : NeededAct} {nodeId : PublicKey} {t t' : Needed}
      {d : Option SocketAddr} : s.needed[i]? = some (nodeId, t) →
      t.step nodeId s.peers a = some (t', d) →
      Step s (.needed i a) { s with
        needed := s.needed.set i (nodeId, t')
        calls := s.calls ++ outboundCalls (d.map fun addr => (nodeId, addr)) }
  | connectPeer {pubkey : PublicKey} {peerAddr : SocketAddr} : s.cli = .idle →
      Step s (.connectPeer pubkey peerAddr) { s with
        cli := if pubkey ∈ s.peers then .idle else .dialing pubkey peerAddr }
  | cliDial {pubkey : PublicKey} {peerAddr : SocketAddr} : s.cli = .dialing pubkey peerAddr →
      Step s .cliDial { s with
        cli := .connecting pubkey
        calls := s.calls ++ [.connectOutbound pubkey peerAddr] }
  | cliConnected {pubkey : PublicKey} {ok : Bool} : s.cli = .connecting pubkey →
      (ok = true → pubkey ∈ s.peers) → Step s (.cliConnected ok) { s with cli := .idle }
  | cliEnd : s.cli = .idle → Step s .cliEnd { s with cli := .ended }
  | peerConnected {nodeId : PublicKey} :
      Step s (.peerConnected nodeId) { s with peers := nodeId :: s.peers }
  | peerDisconnected {nodeId : PublicKey} :
      Step s (.peerDisconnected nodeId) { s with peers := s.peers.filter (· ≠ nodeId) }

theorem step_cases {s s' : State} {l : Label} (h : machine.step s l = some s') : Step s l s' := by
  unfold machine step at h
  cases l with
  | select =>
    obtain ⟨⟨hm, he⟩, ⟨⟩⟩ := Option.ite_none_right_eq_some.mp h
    exact .select hm he
  | storeStop =>
    obtain ⟨hm, ⟨⟩⟩ := Option.ite_none_right_eq_some.mp h
    exact .storeStop hm
  | disconnectAllPeers =>
    obtain ⟨hm, ⟨⟩⟩ := Option.ite_none_right_eq_some.mp h
    exact .disconnectAllPeers hm
  | bgEnd =>
    obtain ⟨hb, ⟨⟩⟩ := Option.ite_none_left_eq_some.mp h
    exact .bgEnd (Bool.eq_false_iff.mpr hb)
  | accept =>
    obtain ⟨hl, ⟨⟩⟩ := Option.ite_none_right_eq_some.mp h
    exact .accept hl
  | loadStop =>
    obtain ⟨hl, ⟨⟩⟩ := Option.ite_none_right_eq_some.mp h
    exact .loadStop hl
  | spawn =>
    obtain ⟨hl, ⟨⟩⟩ := Option.ite_none_right_eq_some.mp h
    exact .spawn hl
  | setupInbound =>
    dsimp only at h
    split at h
    · cases h
    · next hn => cases h; exact .setupInbound hn
  | reconnect a =>
    obtain ⟨⟨r, d⟩, hr, rfl⟩ := Option.map_eq_some_iff.mp h
    exact .reconnect hr
  | connectionNeeded nodeId addresses =>
    obtain ⟨hb, ⟨⟩⟩ := Option.ite_none_left_eq_some.mp h
    exact .connectionNeeded (Bool.eq_false_iff.mpr hb)
  | needed i a =>
    dsimp only at h
    split at h
    · cases h
    · next nodeId t ht =>
      obtain ⟨⟨t', d⟩, hs, rfl⟩ := Option.map_eq_some_iff.mp h
      exact .needed ht hs
  | connectPeer pubkey peerAddr =>
    obtain ⟨hc, ⟨⟩⟩ := Option.ite_none_right_eq_some.mp h
    exact .connectPeer hc
  | cliDial =>
    dsimp only at h
    split at h
    · next hc => cases h; exact .cliDial hc
    · cases h
  | cliConnected ok =>
    dsimp only at h
    split at h
    · next hc =>
      obtain ⟨ho, ⟨⟩⟩ := Option.ite_none_left_eq_some.mp h
      exact .cliConnected hc (by simpa using ho)
    · cases h
  | cliEnd =>
    obtain ⟨hc, ⟨⟩⟩ := Option.ite_none_right_eq_some.mp h
    exact .cliEnd hc
  | peerConnected nodeId => cases h; exact .peerConnected
  | peerDisconnected nodeId => cases h; exact .peerDisconnected

theorem step_reconnect {s : State} {a : ReconnectAct} {r : Reconnect}
    {d : Option (PublicKey × SocketAddr)} (h : s.reconnect.step s.stop s.peers a = some (r, d)) :
    machine.step s (.reconnect a) =
      some { s with reconnect := r, calls := s.calls ++ outboundCalls d } := by
  simp [machine, step, h]

/-! ## Towards a call of the reconnect task -/

/-- The task has an address of the peer to try. -/
def Reconnect.Tries (stop : Bool) (id : PublicKey) : Reconnect → Prop
  | .checking nodeId _ => nodeId = id ∧ stop = false
  | .looking nodeId _ => nodeId = id
  | .resolving nodeId addrs _ => nodeId = id ∧ addrs ≠ []
  | .dialing nodeId sockaddrs addrs _ | .connecting nodeId sockaddrs addrs _ =>
    nodeId = id ∧ (sockaddrs ≠ [] ∨ addrs ≠ [])
  | _ => False

theorem Reconnect.Tries.mono {stop stop' : Bool} {id : PublicKey} {r : Reconnect}
    (hs : stop = true → stop' = true) (h : r.Tries stop' id) : r.Tries stop id := by
  cases r with
  | checking nodeId nodes =>
    refine ⟨h.1, Bool.eq_false_iff.mpr fun ht => ?_⟩
    rw [hs ht] at h
    cases h.2
  | _ => exact h

/-- An address the resolver may answer with. -/
def localhost : SocketAddr := .v4 #v[127, 0, 0, 1] 9735

/-- Some continuation takes the task to its next call for the peer, and does nothing else. -/
def ComesToDial (s : State) (id : PublicKey) : Prop :=
  ∃ ks sockaddr sockaddrs addrs nodes, machine.run s ks =
    some { s with reconnect := .dialing id (sockaddr :: sockaddrs) addrs nodes }

section ComesToDial

variable {s : State} {id : PublicKey} {nodes : List PublicKey}

theorem ComesToDial.later {a : ReconnectAct} {r : Reconnect}
    (h : s.reconnect.step s.stop s.peers a = some (r, none))
    (hc : ComesToDial { s with reconnect := r } id) : ComesToDial s id := by
  obtain ⟨ks, sockaddr, sockaddrs, addrs, nodes, hrun⟩ := hc
  have hstep : machine.step s (.reconnect a) = some { s with reconnect := r } := by
    rw [step_reconnect h, outboundCalls, List.append_nil]
  exact ⟨.reconnect a :: ks, sockaddr, sockaddrs, addrs, nodes,
    (Machine.run_cons hstep).trans hrun⟩

theorem comes_of_dialing {sockaddr : SocketAddr} {sockaddrs : List SocketAddr}
    {addrs : List SocketAddress}
    (h : s.reconnect = .dialing id (sockaddr :: sockaddrs) addrs nodes) : ComesToDial s id := by
  refine ⟨[], sockaddr, sockaddrs, addrs, nodes, ?_⟩
  rw [← h]
  rfl

theorem comes_of_resolving {addr : SocketAddress} {addrs : List SocketAddress}
    (h : s.reconnect = .resolving id (addr :: addrs) nodes) : ComesToDial s id :=
  .later (a := .resolve (some [localhost])) (by rw [h]; rfl) (comes_of_dialing rfl)

theorem comes_of_left {sockaddrs : List SocketAddr} {addrs : List SocketAddress}
    (h : s.reconnect = .dialing id sockaddrs addrs nodes) (hne : sockaddrs ≠ [] ∨ addrs ≠ []) :
    ComesToDial s id := by
  cases sockaddrs with
  | cons sockaddr sockaddrs => exact comes_of_dialing h
  | nil =>
    cases addrs with
    | nil => exact absurd rfl (hne.resolve_left (absurd rfl))
    | cons addr addrs => exact .later (a := .advance) (by rw [h]; rfl) (comes_of_resolving rfl)

theorem comes_of_looking (h : s.reconnect = .looking id nodes) : ComesToDial s id :=
  let node : NodeInfo := ⟨some [.tcpIpV4 #v[127, 0, 0, 1] 9735]⟩
  .later (a := .lookup (some node)) (by rw [h]; rfl) (comes_of_resolving rfl)

/-- A task with an address to try may come to try one. -/
theorem comes_to_dial (h : s.reconnect.Tries s.stop id) : ComesToDial s id := by
  cases hr : s.reconnect with
  | ticking | filtering | stopped =>
    rw [hr] at h
    exact h.elim
  | checking nodeId nodes =>
    rw [hr] at h
    obtain ⟨rfl, hs⟩ := h
    exact .later (a := .advance) (by rw [hr, hs]; rfl) (comes_of_looking rfl)
  | looking nodeId nodes =>
    rw [hr] at h
    obtain rfl : nodeId = id := h
    exact comes_of_looking hr
  | resolving nodeId addrs nodes =>
    rw [hr] at h
    obtain ⟨rfl, ha⟩ := h
    obtain ⟨addr, addrs, rfl⟩ := List.exists_cons_of_ne_nil ha
    exact comes_of_resolving hr
  | dialing nodeId sockaddrs addrs nodes =>
    rw [hr] at h
    obtain ⟨rfl, hne⟩ := h
    exact comes_of_left hr hne
  | connecting nodeId sockaddrs addrs nodes =>
    rw [hr] at h
    obtain ⟨rfl, hne⟩ := h
    exact .later (a := .connected false) (by rw [hr]; rfl) (comes_of_left rfl hne)

end ComesToDial

end Node

end LdkSample
