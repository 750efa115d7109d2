import LdkSample.Machine.Logged
import LdkSample.Node.Dial

/-!
# What the reconnect task dials

The task looks at the peer map once for each node of the tick and then tries every address of the
node, whatever becomes of the attempts. `watch` is the machine of the node with a log of what the
task has done in the tick. In a run in which no peer becomes connected while the task has an address
of it to try (`Calm`), each call is for a counterparty that is not connected and for a resolved
address that is no onion address, and at the end of the tick all addresses of an unreachable
counterparty have been tried (`Good`); a step that is not calm leads to a call for a connected peer.
-/

namespace LdkSample

namespace Node

/-! ## The log of a tick -/

def isOnion : SocketAddress → Bool
  | .onionV2 _ | .onionV3 .. => true
  | _ => false

/-- The addresses that a node has announced. -/
def announced : Option NodeInfo → List SocketAddress
  | some ⟨some addresses⟩ => addresses
  | _ => []

/-- What the task has done for a node since it looked it up. -/
structure Visit where
  nodeId : Option PublicKey
  announced : List SocketAddress
  /-- The addresses that were looked up, with what they resolved to. -/
  answers : List (SocketAddress × Option (List SocketAddr))
  dialed : List SocketAddr
  /-- An attempt has succeeded. -/
  reached : Bool
  deriving DecidableEq

namespace Visit

/-- The addresses to be tried. -/
def wanted (v : Visit) : List SocketAddress := v.announced.filter fun addr => !isOnion addr

/-- The socket addresses, as far as they have been resolved. -/
def resolved (v : Visit) : List SocketAddr := v.answers.flatMap fun answer => answer.2.getD []

/-- Everything has been tried, in order. -/
structure Tried (v : Visit) : Prop where
  answers : v.answers.map Prod.fst = v.wanted
  dialed : v.dialed = v.resolved

end Visit

structure Log where
  /-- The counterparties of the channels, one for each channel. -/
  counterparties : List PublicKey
  /-- The nodes that were found in the peer map. -/
  met : List PublicKey
  visits : List Visit
  /-- The visit that the task is at. -/
  visit : Visit
  deriving DecidableEq

/-- What a step of the task adds to the log. -/
def Log.note (peers : List PublicKey) (g : Log) : Reconnect → ReconnectAct → Log
  | .ticking, .tick counterparties => ⟨counterparties, [], [], g.visit⟩
  | .filtering (id :: _), .advance => if id ∈ peers then { g with met := id :: g.met } else g
  | .looking id _, .lookup node => { g with visit := ⟨some id, announced node, [], [], false⟩ }
  | .resolving _ [] _, .advance => { g with visits := g.visits ++ [g.visit] }
  | .resolving _ (addr :: _) _, .resolve sockaddrs =>
    { g with visit := { g.visit with answers := g.visit.answers ++ [(addr, sockaddrs)] } }
  | .dialing _ (sockaddr :: _) _ _, .dial =>
    { g with visit := { g.visit with dialed := g.visit.dialed ++ [sockaddr] } }
  | .connecting .., .connected ok =>
    { g with visit := { g.visit with reached := g.visit.reached || ok } }
  | _, _ => g

def Log.empty : Log := ⟨[], [], [], ⟨none, [], [], [], false⟩⟩

abbrev Watch := Machine.Logged State Log

/-- The node, with what the reconnect task has done. -/
def watch : Machine Watch Label := machine.logged fun s l g =>
  match l with
  | .reconnect a => g.note s.peers s.reconnect a
  | _ => g

def Watch.init : Watch := ⟨Node.init, .empty⟩

/-! ## What is to hold -/

/-- No peer becomes connected while the task has an address of it to try. -/
def Calm (w : Watch) (l : Label) : Prop :=
  ∀ id, l = .peerConnected id → ¬ w.state.reconnect.Tries w.state.stop id

/-- A call for `id` and `sockaddr` in order. -/
structure DialOk (w : Watch) (id : PublicKey) (sockaddr : SocketAddr) : Prop where
  counterparty : id ∈ w.log.counterparties
  apart : id ∉ w.state.peers
  visit : w.log.visit.nodeId = some id
  address : ∃ addr ∈ w.log.visit.announced, isOnion addr = false ∧
    ∃ sockaddrs, (addr, some sockaddrs) ∈ w.log.visit.answers ∧ sockaddr ∈ sockaddrs

structure Good (w : Watch) (l : Label) : Prop where
  dial : ∀ a r id sockaddr, l = .reconnect a →
    w.state.reconnect.step w.state.stop w.state.peers a = some (r, some (id, sockaddr)) →
    DialOk w id sockaddr
  /-- At the end of a tick each counterparty has been met or visited, and a visit without success
  has tried everything. -/
  finish : l = .reconnect .advance → w.state.reconnect = .filtering [] →
    (∀ id ∈ w.log.counterparties, id ∈ w.log.met ∨ ∃ v ∈ w.log.visits, v.nodeId = some id) ∧
    ∀ v ∈ w.log.visits, v.reached = false → v.Tried

/-! ## The log follows the task -/

/-- The nodes that the tick still comes to, with the one it is at. -/
def Reconnect.ahead : Reconnect → List PublicKey
  | .ticking | .stopped => []
  | .filtering nodes => nodes
  | .checking id nodes | .looking id nodes | .resolving id _ nodes | .dialing id _ _ nodes
  | .connecting id _ _ nodes => id :: nodes

/-- The visit is where the task is. -/
def Visit.At (v : Visit) : Reconnect → Prop
  | .resolving id addrs _ => v.nodeId = some id ∧
    v.answers.map Prod.fst ++ addrs = v.wanted ∧ v.dialed = v.resolved
  | .dialing id sockaddrs addrs _ | .connecting id sockaddrs addrs _ => v.nodeId = some id ∧
    v.answers.map Prod.fst ++ addrs = v.wanted ∧ v.dialed ++ sockaddrs = v.resolved
  | _ => True

structure LogInv (r : Reconnect) (g : Log) : Prop where
  ahead : ∀ id ∈ r.ahead, id ∈ g.counterparties
  covered : r ≠ .stopped → ∀ id ∈ g.counterparties,
    id ∈ r.ahead ∨ id ∈ g.met ∨ ∃ v ∈ g.visits, v.nodeId = some id
  tried : ∀ v ∈ g.visits, v.Tried
  visit : g.visit.At r

theorem dialAddrs_eq (node : Option NodeInfo) :
    dialAddrs node = (announced node).filter fun addr => !isOnion addr := by
  have hguard : nonOnion = Option.guard fun addr => !isOnion addr := by
    funext addr
    cases addr <;> rfl
  rcases node with _ | ⟨_ | addresses⟩
  · rfl
  · rfl
  · show addresses.filterMap nonOnion = _
    rw [hguard, List.filterMap_eq_filter]
    rfl

section ReconnectStep

variable {stop : Bool} {peers : List PublicKey} {r r' : Reconnect} {a : ReconnectAct}
  {d : Option (PublicKey × SocketAddr)} {g : Log}

/-- The task goes on with the same nodes. -/
theorem LogInv.go {v : Visit} (hi : LogInv r g) (hr : r ≠ .stopped) (ha : r'.ahead = r.ahead)
    (hv : v.At r') : LogInv r' { g with visit := v } where
  ahead id hid := hi.ahead id (ha ▸ hid)
  covered _ id hid := ha ▸ hi.covered hr id hid
  tried := hi.tried
  visit := hv

theorem logInv_step (h : Reconnect.Step stop peers r a r' d) (hi : LogInv r g) :
    LogInv r' (g.note peers r a) := by
  cases h with
  | tick => exact ⟨fun id hid => hid, fun _ id hid => .inl hid, fun v hv => (nomatch hv), trivial⟩
  | tickDone => exact ⟨fun id hid => (nomatch hid), fun _ => hi.covered (by simp), hi.tried, trivial⟩
  | @skip id nodes hp =>
    show LogInv _ (if id ∈ peers then _ else _)
    rw [if_pos hp]
    refine ⟨fun id hid => hi.ahead id (List.mem_cons_of_mem _ hid), fun _ i hid => ?_, hi.tried,
      trivial⟩
    rcases hi.covered (by simp) i hid with hid | hid | hv
    · rcases List.mem_cons.mp hid with rfl | hid
      · exact .inr (.inl List.mem_cons_self)
      · exact .inl hid
    · exact .inr (.inl (List.mem_cons_of_mem _ hid))
    · exact .inr (.inr hv)
  | @pick id nodes hp =>
    show LogInv _ (if id ∈ peers then _ else _)
    rw [if_neg hp]
    exact hi.go (by simp) rfl trivial
  | stop _ => exact ⟨fun id hid => (nomatch hid), fun hne => absurd rfl hne, hi.tried, trivial⟩
  | go _ => exact hi.go (by simp) rfl trivial
  | @lookup id nodes node => exact hi.go (by simp) rfl ⟨rfl, dialAddrs_eq node, rfl⟩
  | @nodeDone id nodes =>
    obtain ⟨hid, hanswers, hdialed⟩ := hi.visit
    rw [List.append_nil] at hanswers
    refine ⟨fun id hid => hi.ahead id (List.mem_cons_of_mem _ hid), fun _ i hi' => ?_,
      fun v hv => ?_, trivial⟩
    · rcases hi.covered (by simp) i hi' with hi' | hi' | ⟨v, hv, hvi⟩
      · rcases List.mem_cons.mp hi' with rfl | hi'
        · exact .inr (.inr ⟨g.visit, List.mem_append_right _ (List.mem_singleton.mpr rfl), hid⟩)
        · exact .inl hi'
      · exact .inr (.inl hi')
      · exact .inr (.inr ⟨v, List.mem_append_left _ hv, hvi⟩)
    · rcases List.mem_append.mp hv with hv | hv
      · exact hi.tried v hv
      · rw [List.mem_singleton.mp hv]
        exact ⟨hanswers, hdialed⟩
  | unresolved =>
    obtain ⟨hid, hanswers, hdialed⟩ := hi.visit
    exact hi.go (by simp) rfl ⟨hid, by simpa [Visit.wanted] using hanswers,
      by simpa [Visit.resolved] using hdialed⟩
  | resolved =>
    obtain ⟨hid, hanswers, hdialed⟩ := hi.visit
    exact hi.go (by simp) rfl ⟨hid, by simpa [Visit.wanted] using hanswers,
      by simpa [Visit.resolved] using hdialed⟩
  | addrDone =>
    obtain ⟨hid, hanswers, hdialed⟩ := hi.visit
    exact hi.go (by simp) rfl ⟨hid, hanswers, by simpa using hdialed⟩
  | dial =>
    obtain ⟨hid, hanswers, hdialed⟩ := hi.visit
    exact hi.go (by simp) rfl ⟨hid, hanswers, by simpa [Visit.resolved] using hdialed⟩
  | connected _ => exact hi.go (by simp) rfl hi.visit

/-- The task comes to a peer when it is not connected. -/
theorem Reconnect.Step.apart (h : Step stop peers r a r' d)
    (hr : ∀ id, r.Tries stop id → id ∉ peers) {id : PublicKey} (hid : r'.Tries stop id) :
    id ∉ peers := by
  cases h with
  | tick | tickDone | skip _ | stop _ | nodeDone => exact hid.elim
  | pick hp =>
    obtain ⟨rfl, -⟩ := hid
    exact hp
  | go hs => exact hr id ⟨hid, hs⟩
  | lookup => exact hr id hid.1
  | unresolved => exact hr id ⟨hid.1, List.cons_ne_nil _ _⟩
  | resolved => exact hr id ⟨hid.1, List.cons_ne_nil _ _⟩
  | addrDone => exact hr id ⟨hid.1, .inr hid.2⟩
  | dial => exact hr id ⟨hid.1, .inl (List.cons_ne_nil _ _)⟩
  | connected _ => exact hr id hid

end ReconnectStep

/-! ## Calm runs -/

structure WatchInv (w : Watch) : Prop where
  log : LogInv w.state.reconnect w.log
  apart : ∀ id, w.state.reconnect.Tries w.state.stop id → id ∉ w.state.peers

theorem watchInv_init : WatchInv Watch.init where
  log := ⟨fun _ hid => (nomatch hid), fun _ _ hid => (nomatch hid), fun _ hv => (nomatch hv), trivial⟩
  apart _ h := h.elim

/-- A step of the node that is none of the reconnect task. -/
theorem other_step {s s' : State} {l : Label} (hl : ∀ a, l ≠ .reconnect a)
    (h : machine.step s l = some s') : s'.reconnect = s.reconnect ∧
      (s.stop = true → s'.stop = true) ∧
      ∀ id ∈ s'.peers, id ∈ s.peers ∨ l = .peerConnected id := by
  cases step_cases h with
  | reconnect _ => exact absurd rfl (hl _)
  | storeStop _ => exact ⟨rfl, fun _ => rfl, fun _ hid => .inl hid⟩
  | disconnectAllPeers _ => exact ⟨rfl, fun hs => hs, fun _ hid => nomatch hid⟩
  | peerConnected =>
    refine ⟨rfl, fun hs => hs, fun id hid => ?_⟩
    rcases List.mem_cons.mp hid with rfl | hid
    · exact .inr rfl
    · exact .inl hid
  | peerDisconnected => exact ⟨rfl, fun hs => hs, fun _ hid => .inl (List.mem_filter.mp hid).1⟩
  | _ => exact ⟨rfl, fun hs => hs, fun _ hid => .inl hid⟩

theorem watchInv_step {w w' : Watch} {l : Label} (hi : WatchInv w) (hc : Calm w l)
    (h : watch.step w l = some w') : WatchInv w' := by
  obtain ⟨s, g⟩ := w'
  obtain ⟨hs, hlog⟩ := Machine.logged_step.mp h
  by_cases hl : ∃ a, l = .reconnect a
  · obtain ⟨a, rfl⟩ := hl
    obtain rfl : g = _ := hlog
    cases step_cases hs with
    | reconnect hstep =>
      have hstep := Reconnect.step_cases hstep
      exact ⟨logInv_step hstep hi.log, fun id hid => hstep.apart hi.apart hid⟩
  · have hl : ∀ a, l ≠ .reconnect a := fun a ha => hl ⟨a, ha⟩
    obtain ⟨hr, hstop, hpeers⟩ := other_step hl hs
    have hkeep : g = w.log := by
      cases l with
      | reconnect a => exact absurd rfl (hl a)
      | _ => exact hlog
    refine ⟨by rw [hkeep, hr]; exact hi.log, fun id hid hp => ?_⟩
    rw [hr] at hid
    have hid := hid.mono hstop
    rcases hpeers id hp with hp | hp
    · exact hi.apart id hid hp
    · exact hc id hp hid

theorem good_of_inv {w : Watch} (hi : WatchInv w) (l : Label) : Good w l where
  dial a r id sockaddr _ h := by
    have hapart := hi.apart
    obtain ⟨hahead, -, -, hvisit⟩ := hi.log
    revert hapart hahead hvisit
    generalize w.state.reconnect = r₀ at h
    intro hapart hahead hvisit
    cases Reconnect.step_cases h with
    | dial =>
      obtain ⟨hid, hanswers, hdialed⟩ := hvisit
      refine ⟨hahead id List.mem_cons_self, hapart id ⟨rfl, .inl (List.cons_ne_nil _ _)⟩, hid, ?_⟩
      have hmem : sockaddr ∈ w.log.visit.resolved := by
        rw [← hdialed]
        exact List.mem_append_right _ List.mem_cons_self
      obtain ⟨⟨addr, answer⟩, hanswer, hsock⟩ := List.mem_flatMap.mp hmem
      have hwanted : addr ∈ w.log.visit.wanted := by
        rw [← hanswers]
        exact List.mem_append_left _ (List.mem_map_of_mem hanswer)
      obtain ⟨hann, honion⟩ := List.mem_filter.mp hwanted
      refine ⟨addr, hann, by simpa using honion, ?_⟩
      cases answer with
      | none => cases hsock
      | some sockaddrs => exact ⟨sockaddrs, hanswer, hsock⟩
  finish _ hr := by
    refine ⟨fun id hid => ?_, fun v hv _ => hi.log.tried v hv⟩
    have hcov := hi.log.covered (by rw [hr]; simp) id hid
    rw [hr] at hcov
    exact hcov.resolve_left (List.not_mem_nil)

/-! ## Runs that are not calm -/

/-- A peer that becomes connected while the task has an address of it may be called again. -/
theorem dials_connected {w w' : Watch} {l : Label} (h : watch.step w l = some w')
    (hc : ¬ Calm w l) : ∃ ks, ¬ watch.Along Good w' ks := by
  simp only [Calm, not_forall, not_not] at hc
  obtain ⟨id, rfl, htries⟩ := hc
  obtain ⟨s, g⟩ := w'
  cases step_cases (Machine.logged_step.mp h).1
  obtain ⟨ks, sockaddr, sockaddrs, addrs, nodes, hrun⟩ :=
    comes_to_dial (s := { w.state with peers := id :: w.state.peers }) htries
  obtain ⟨g', hg⟩ := Machine.exists_logged_run (w := ⟨_, g⟩) hrun
  refine ⟨ks ++ [.reconnect .dial], fun ha => ?_⟩
  obtain ⟨hgood, -⟩ := ((Machine.along_append hg).mp ha).2
  exact (hgood.dial _ _ id sockaddr rfl rfl).apart List.mem_cons_self

/-- **The reconnect task dials no connected peer**, and tries an unreachable one everywhere, in a
run whose steps are all calm; after a step that is not, some continuation breaks this. -/
theorem reconnect_good (ls : List Label) :
    (watch.Along Calm .init ls → watch.Along Good .init ls) ∧
    ∀ w l w', watch.run .init ls = some w → watch.step w l = some w' → ¬ Calm w l →
      ∃ ks, ¬ watch.Along Good .init (ls ++ l :: ks) := by
  refine ⟨fun ha => ?_, fun w l w' hr h hc => ?_⟩
  · exact ha.of_inv (fun _ _ _ => watchInv_step) (fun _ l hi _ => good_of_inv hi l) watchInv_init
  · obtain ⟨ks, hks⟩ := dials_connected h hc
    refine ⟨ks, fun ha => hks ?_⟩
    exact ((Machine.along_cons h).mp ((Machine.along_append hr).mp ha).2).2

/-- The second of two addresses is left when the peer comes in by itself. -/
theorem reconnect_good_left :
    let id : PublicKey := ⟨Vector.replicate 33 2⟩
    let node : NodeInfo := ⟨some [.onionV2 (Vector.replicate 12 0), .hostname [108, 110] 9735]⟩
    let first : SocketAddr := .v4 #v[10, 0, 0, 1] 9735
    let second : SocketAddr := .v4 #v[10, 0, 0, 2] 9735
    let ls : List Label := [.reconnect (.tick [id, id]), .reconnect .advance, .reconnect .advance,
      .reconnect (.lookup (some node)), .reconnect (.resolve (some [first, second])),
      .reconnect .dial, .reconnect (.connected false)]
    watch.Along Good .init ls ∧
      ∃ ks, ¬ watch.Along Good .init (ls ++ .peerConnected id :: ks) := by
  intro id node first second ls
  have h := reconnect_good ls
  refine ⟨h.1 ⟨?_, ?_, ?_, ?_, ?_, ?_, ?_, trivial⟩, h.2 _ (.peerConnected id) _ rfl rfl ?_⟩
  case refine_8 => exact fun hc => hc id rfl ⟨rfl, .inl (List.cons_ne_nil _ _)⟩
  all_goals exact fun _ hl => nomatch hl

/-- An attempt succeeds at the first of two addresses, and the task calls the second. -/
theorem dials_after_success :
    ¬ ∀ ls w, watch.run .init ls = some w → watch.Along Good .init ls := by
  intro h
  let id : PublicKey := ⟨Vector.replicate 33 2⟩
  let node : NodeInfo := ⟨some [.hostname [108, 110] 9735]⟩
  let first : SocketAddr := .v4 #v[10, 0, 0, 1] 9735
  let second : SocketAddr := .v4 #v[10, 0, 0, 2] 9735
  let ls : List Label := [.reconnect (.tick [id]), .reconnect .advance, .reconnect .advance,
    .reconnect (.lookup (some node)), .reconnect (.resolve (some [first, second])),
    .reconnect .dial, .peerConnected id, .reconnect (.connected true)]
  have hrun : watch.run .init ls = some _ := rfl
  obtain ⟨hgood, -⟩ := ((Machine.along_append hrun).mp (h (ls ++ [.reconnect .dial]) _ rfl)).2
  exact (hgood.dial _ _ id second rfl rfl).apart List.mem_cons_self

end Node

end LdkSample
