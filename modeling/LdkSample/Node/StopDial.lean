import LdkSample.Node.Dial

/-!
# Dialing after the peers are disconnected

`start_ldk` disconnects all peers once the stop flag is set, so that no peer updates a
channel after the background processor has stopped. A task has a licence (`mayDial`) when
it can connect a peer without loading the flag again. A run keeps the promise when no task
holds one at the disconnect (`State.Idle`) and none is handed one later (`Quiet`); each
step that breaks this leads to a call after the disconnect.
-/

namespace LdkSample

namespace Node

/-! ## Licences -/

/-- The task can dial although the stop flag is set. -/
def Reconnect.mayDial : Reconnect → Bool
  | ticking | filtering _ | checking _ _ | stopped => false
  | looking _ _ => true
  | resolving _ addrs _ => !addrs.isEmpty
  | dialing _ sockaddrs addrs _ | connecting _ sockaddrs addrs _ =>
    !(sockaddrs.isEmpty && addrs.isEmpty)

def Needed.mayDial : Needed → Bool
  | resolving addresses => !addresses.isEmpty
  | trying sockaddrs addresses | connecting sockaddrs addresses =>
    !(sockaddrs.isEmpty && addresses.isEmpty)
  | dialing _ _ _ => true
  | returned => false

def Cli.mayDial : Cli → Bool
  | dialing _ _ => true
  | idle | connecting _ | ended => false

/-- No task can connect a peer without loading the stop flag before it. -/
structure State.Idle (s : State) : Prop where
  listener : s.listener ≠ .spawning
  spawned : s.spawned = 0
  reconnect : s.reconnect.mayDial = false
  needed : ∀ p ∈ s.needed, p.2.mayDial = false
  cli : s.cli.mayDial = false

/-- The step hands no task a licence after the disconnect, nor does it leave one across it. -/
structure Quiet (s : State) (l : Label) : Prop where
  idle : l = .disconnectAllPeers → s.Idle
  needed : s.main = .disconnected → ∀ nodeId addresses,
    l = .connectionNeeded nodeId addresses → addresses = []
  connect : s.main = .disconnected → ∀ pubkey peerAddr,
    l = .connectPeer pubkey peerAddr → pubkey ∈ s.peers

theorem Quiet.before {s : State} {l : Label} (hm : s.main ≠ .disconnected)
    (hl : l ≠ .disconnectAllPeers) : Quiet s l :=
  ⟨fun h => absurd h hl, fun h => absurd h hm, fun h => absurd h hm⟩

def Call.connects : Call → Bool
  | disconnectAllPeers => false
  | setupInbound | connectOutbound _ _ => true

/-- No peer connection is started after the peers have been disconnected. -/
def NoDialAfter (calls : List Call) : Prop :=
  ∀ as bs, calls = as ++ .disconnectAllPeers :: bs → ∀ c ∈ bs, c.connects = false

/-! ## Quiet runs -/

theorem Reconnect.step_quiet {peers : List PublicKey} {r r' : Reconnect} {a : ReconnectAct}
    {d : Option (PublicKey × SocketAddr)} (h : r.step true peers a = some (r', d))
    (hq : r.mayDial = false) : r'.mayDial = false ∧ d = none := by
  cases step_cases h with
  | tick | tickDone | skip | pick | stop | nodeDone => exact ⟨rfl, rfl⟩
  | go hs => cases hs
  | lookup | unresolved | resolved | dial => simp [mayDial] at hq
  | addrDone | connected => simpa [mayDial] using hq

theorem Needed.step_quiet {nodeId : PublicKey} {peers : List PublicKey} {t t' : Needed}
    {a : NeededAct} {d : Option SocketAddr} (h : t.step nodeId peers a = some (t', d))
    (hq : t.mayDial = false) : t'.mayDial = false ∧ d = none := by
  cases step_cases h with
  | done | already | connected => exact ⟨rfl, rfl⟩
  | unresolved | resolved | dial | pick => simp [mayDial] at hq
  | addrDone | failed => simpa [mayDial] using hq

/-- A quiet step after the disconnect calls nothing. -/
theorem idle_step {s s' : State} {l : Label} (hi : s.Idle) (hs : s.stop = true)
    (hm : s.main = .disconnected) (hq : Quiet s l) (h : machine.step s l = some s') :
    s'.Idle ∧ s'.calls = s.calls := by
  obtain ⟨hl, hn, hr, hd, hc⟩ := hi
  cases step_cases h with
  | select hm' _ | storeStop hm' | disconnectAllPeers hm' =>
    rw [hm] at hm'
    cases hm'
  | bgEnd _ => exact ⟨⟨hl, hn, hr, hd, hc⟩, rfl⟩
  | accept _ => exact ⟨⟨by simp, hn, hr, hd, hc⟩, rfl⟩
  | loadStop _ => exact ⟨⟨by simp [hs], hn, hr, hd, hc⟩, rfl⟩
  | spawn hl' => exact absurd hl' hl
  | setupInbound hn' =>
    rw [hn] at hn'
    cases hn'
  | reconnect hstep =>
    rw [hs] at hstep
    obtain ⟨hr', rfl⟩ := Reconnect.step_quiet hstep hr
    exact ⟨⟨hl, hn, hr', hd, hc⟩, List.append_nil _⟩
  | @connectionNeeded nodeId addresses _ =>
    refine ⟨⟨hl, hn, hr, fun p hp => ?_, hc⟩, rfl⟩
    rcases List.mem_append.mp hp with hp | hp
    · exact hd p hp
    · rw [List.mem_singleton.mp hp, hq.needed hm nodeId addresses rfl]
      rfl
  | @needed i a nodeId t t' d ht hstep =>
    obtain ⟨ht', rfl⟩ := Needed.step_quiet hstep (hd _ (List.mem_of_getElem? ht))
    refine ⟨⟨hl, hn, hr, fun p hp => ?_, hc⟩, List.append_nil _⟩
    rcases List.mem_or_eq_of_mem_set hp with hp | rfl
    · exact hd p hp
    · exact ht'
  | connectPeer _ =>
    refine ⟨⟨hl, hn, hr, hd, ?_⟩, rfl⟩
    show Cli.mayDial (if _ then _ else _) = false
    rw [if_pos (hq.connect hm _ _ rfl)]
    rfl
  | cliDial hc' =>
    rw [hc'] at hc
    cases hc
  | cliConnected _ _ | cliEnd _ => exact ⟨⟨hl, hn, hr, hd, rfl⟩, rfl⟩
  | peerConnected | peerDisconnected => exact ⟨⟨hl, hn, hr, hd, hc⟩, rfl⟩

/-- What a step before the disconnect adds to the calls. -/
theorem calls_step {s s' : State} {l : Label} (hl : l ≠ .disconnectAllPeers)
    (h : machine.step s l = some s') :
    ∃ cs, s'.calls = s.calls ++ cs ∧ Call.disconnectAllPeers ∉ cs := by
  have hout : ∀ d, Call.disconnectAllPeers ∉ outboundCalls d := by
    intro d
    cases d <;> simp [outboundCalls]
  cases step_cases h with
  | disconnectAllPeers _ => exact absurd rfl hl
  | setupInbound _ | cliDial _ => exact ⟨_, rfl, by simp⟩
  | reconnect _ | needed _ _ => exact ⟨_, rfl, hout _⟩
  | _ => exact ⟨[], (List.append_nil _).symm, List.not_mem_nil⟩

/-- The main task has disconnected the peers exactly when the flag's store is behind it and
the call is in the log. -/
structure MainInv (s : State) : Prop where
  stop : s.main = .stored ∨ s.main = .disconnected → s.stop = true
  calls : s.main = .disconnected ↔ .disconnectAllPeers ∈ s.calls

theorem mainInv_init : MainInv init := ⟨by simp [init], by simp [init]⟩

theorem main_step {s s' : State} {l : Label} (h : machine.step s l = some s') :
    (s'.main = s.main ∧ s'.stop = s.stop ∧ l ≠ .disconnectAllPeers) ∨
      (s'.main = .stopping ∧ s.main = .selecting ∧ s'.calls = s.calls) ∨
      (s'.main = .stored ∧ s.main = .stopping ∧ s'.stop = true ∧ s'.calls = s.calls) ∨
      (l = .disconnectAllPeers ∧ s.main = .stored ∧ s'.main = .disconnected ∧
        s'.stop = s.stop ∧ s'.calls = s.calls ++ [.disconnectAllPeers]) := by
  cases step_cases h with
  | select hm _ => exact .inr (.inl ⟨rfl, hm, rfl⟩)
  | storeStop hm => exact .inr (.inr (.inl ⟨rfl, hm, rfl, rfl⟩))
  | disconnectAllPeers hm => exact .inr (.inr (.inr ⟨rfl, hm, rfl, rfl, rfl⟩))
  | _ => exact .inl ⟨rfl, rfl, by simp⟩

theorem mainInv_step {s s' : State} {l : Label} (hi : MainInv s)
    (h : machine.step s l = some s') : MainInv s' := by
  obtain ⟨hs, hc⟩ := hi
  obtain ⟨hm', hs', hl⟩ | ⟨hm', hm, hc'⟩ | ⟨hm', hm, hs', hc'⟩ | ⟨-, hm, hm', hs', hc'⟩ :=
    main_step h
  · obtain ⟨cs, hcs, hn⟩ := calls_step hl h
    refine ⟨by rw [hm', hs']; exact hs, ?_⟩
    rw [hm', hcs, List.mem_append, hc]
    exact ⟨.inl, fun hx => hx.resolve_right hn⟩
  · refine ⟨by rw [hm']; simp, ?_⟩
    rw [hm', hc', ← hc, hm]
    simp
  · refine ⟨fun _ => hs', ?_⟩
    rw [hm', hc', ← hc, hm]
    simp
  · refine ⟨fun _ => hs'.trans (hs (.inl hm)), ?_⟩
    rw [hm', hc']
    simp

theorem mainInv_run {ls : List Label} {s : State} (hr : machine.run init ls = some s) :
    MainInv s :=
  Machine.inv_run_all (fun _ _ _ hi h => mainInv_step hi h) mainInv_init hr

/-- After the disconnect a quiet run is idle, and the disconnect is the last call. -/
structure QuietInv (s : State) : Prop where
  main : MainInv s
  after : s.main = .disconnected →
    s.Idle ∧ ∃ as, s.calls = as ++ [.disconnectAllPeers] ∧ Call.disconnectAllPeers ∉ as

theorem quietInv_step {s s' : State} {l : Label} (hi : QuietInv s) (hq : Quiet s l)
    (h : machine.step s l = some s') : QuietInv s' := by
  obtain ⟨hm, ha⟩ := hi
  refine ⟨mainInv_step hm h, fun hd => ?_⟩
  obtain ⟨hm', -, -⟩ | ⟨hm', -⟩ | ⟨hm', -⟩ | ⟨rfl, hm₀, -, -, hc'⟩ := main_step h
  · rw [hm'] at hd
    obtain ⟨hidle, as, has⟩ := ha hd
    obtain ⟨hidle', hc'⟩ := idle_step hidle (hm.stop (.inr hd)) hd hq h
    exact ⟨hidle', as, by rw [hc']; exact has⟩
  · rw [hm'] at hd
    cases hd
  · rw [hm'] at hd
    cases hd
  · have hnot : Call.disconnectAllPeers ∉ s.calls := by
      rw [← hm.calls, hm₀]
      simp
    have hidle := hq.idle rfl
    cases step_cases h
    exact ⟨⟨hidle.listener, hidle.spawned, hidle.reconnect, hidle.needed, hidle.cli⟩,
      s.calls, hc', hnot⟩

theorem QuietInv.noDialAfter {s : State} (hi : QuietInv s) : NoDialAfter s.calls := by
  intro as bs hc c hb
  have hd : s.main = .disconnected := by
    rw [hi.main.calls, hc]
    simp
  obtain ⟨-, as', has, hn⟩ := hi.after hd
  rw [hc] at has
  -- the disconnect occurs once, so nothing follows it
  rcases List.eq_nil_or_concat bs with rfl | ⟨bs, b, rfl⟩
  · cases hb
  · have hlist := congrArg List.dropLast has
    rw [List.concat_eq_append, ← List.cons_append, ← List.append_assoc, List.dropLast_concat,
      List.dropLast_concat] at hlist
    rw [← hlist] at hn
    simp at hn

/-! ## Dialing in spite of the stop -/

/-- Some continuation calls `setup_inbound` or `connect_outbound` next. -/
def Dials (s : State) : Prop :=
  ∃ ks t c, machine.run s ks = some t ∧ c.connects = true ∧ t.calls = s.calls ++ [c]

theorem Dials.now {s s' : State} {l : Label} {c : Call} (h : machine.step s l = some s')
    (hc : c.connects = true) (hs : s'.calls = s.calls ++ [c]) : Dials s :=
  ⟨[l], s', c, Machine.run_single.trans h, hc, hs⟩

theorem Dials.later {s s' : State} {l : Label} (h : machine.step s l = some s')
    (hs : s'.calls = s.calls) (hd : Dials s') : Dials s := by
  obtain ⟨ks, t, c, hr, hc, ht⟩ := hd
  exact ⟨l :: ks, t, c, (Machine.run_cons h).trans hr, hc, by rw [ht, hs]⟩

theorem step_needed {s : State} {i : Nat} {a : NeededAct} {nodeId : PublicKey} {t t' : Needed}
    {d : Option SocketAddr} (ht : s.needed[i]? = some (nodeId, t))
    (h : t.step nodeId s.peers a = some (t', d)) :
    machine.step s (.needed i a) = some { s with
      needed := s.needed.set i (nodeId, t')
      calls := s.calls ++ outboundCalls (d.map fun addr => (nodeId, addr)) } := by
  simp [machine, step, ht, h]

theorem Reconnect.tries_of_mayDial {stop : Bool} {r : Reconnect} (h : r.mayDial = true) :
    ∃ id, r.Tries stop id := by
  cases r with
  | ticking | filtering | checking | stopped => cases h
  | looking nodeId nodes => exact ⟨nodeId, rfl⟩
  | resolving nodeId addrs nodes => exact ⟨nodeId, rfl, by simpa [mayDial] using h⟩
  | dialing nodeId sockaddrs addrs nodes | connecting nodeId sockaddrs addrs nodes =>
    exact ⟨nodeId, rfl, by simpa [mayDial, Decidable.imp_iff_not_or] using h⟩

theorem dials_of_reconnect {s : State} (h : s.reconnect.mayDial = true) : Dials s := by
  obtain ⟨id, hid⟩ := Reconnect.tries_of_mayDial h
  obtain ⟨ks, sockaddr, sockaddrs, addrs, nodes, hrun⟩ := comes_to_dial hid
  have hdial : Dials { s with reconnect := .dialing id (sockaddr :: sockaddrs) addrs nodes } :=
    .now (step_reconnect (a := .dial) rfl) (c := .connectOutbound id sockaddr) rfl rfl
  obtain ⟨js, t, c, hr, hc, ht⟩ := hdial
  exact ⟨ks ++ js, t, c, (Machine.run_append hrun).trans hr, hc, ht⟩

theorem getElem?_set_of_some {α : Type} {xs : List α} {i : Nat} {a b : α}
    (h : xs[i]? = some a) : (xs.set i b)[i]? = some b :=
  List.getElem?_set_self (List.getElem?_eq_some_iff.mp h).1

theorem dials_of_needed_dialing {s : State} {i : Nat} {nodeId : PublicKey} {addr : SocketAddr}
    {sockaddrs : List SocketAddr} {addresses : List SocketAddress}
    (h : s.needed[i]? = some (nodeId, .dialing addr sockaddrs addresses)) : Dials s :=
  .now (step_needed (a := .dial) h rfl) (c := .connectOutbound nodeId addr) rfl rfl

theorem dials_of_needed_trying {s : State} {i : Nat} {nodeId : PublicKey} {addr : SocketAddr}
    {sockaddrs : List SocketAddr} {addresses : List SocketAddress}
    (h : s.needed[i]? = some (nodeId, .trying (addr :: sockaddrs) addresses)) : Dials s := by
  -- the peer may go away before the task looks for it
  have hd : machine.step s (.peerDisconnected nodeId) =
      some { s with peers := s.peers.filter (· ≠ nodeId) } := rfl
  have ht : Needed.step nodeId (s.peers.filter (· ≠ nodeId)) (.trying (addr :: sockaddrs) addresses)
      .advance = some (.dialing addr sockaddrs addresses, none) := by
    simp [Needed.step]
  exact .later hd rfl (.later (step_needed h ht) (List.append_nil _)
    (dials_of_needed_dialing (getElem?_set_of_some h)))

theorem dials_of_needed_resolving {s : State} {i : Nat} {nodeId : PublicKey}
    {address : SocketAddress} {addresses : List SocketAddress}
    (h : s.needed[i]? = some (nodeId, .resolving (address :: addresses))) : Dials s :=
  .later (step_needed (a := .resolve (some [localhost])) h rfl) (List.append_nil _)
    (dials_of_needed_trying (getElem?_set_of_some h))

theorem dials_of_needed_left {s : State} {i : Nat} {nodeId : PublicKey}
    {sockaddrs : List SocketAddr} {addresses : List SocketAddress}
    (h : s.needed[i]? = some (nodeId, .trying sockaddrs addresses))
    (hne : (!(sockaddrs.isEmpty && addresses.isEmpty)) = true) : Dials s := by
  cases sockaddrs with
  | cons addr sockaddrs => exact dials_of_needed_trying h
  | nil =>
    cases addresses with
    | nil => cases hne
    | cons address addresses =>
      exact .later (step_needed (a := .advance) h rfl) (List.append_nil _)
        (dials_of_needed_resolving (getElem?_set_of_some h))

theorem dials_of_needed {s : State} {i : Nat} {nodeId : PublicKey} {t : Needed}
    (h : s.needed[i]? = some (nodeId, t)) (hm : t.mayDial = true) : Dials s := by
  cases t with
  | resolving addresses =>
    cases addresses with
    | nil => cases hm
    | cons address addresses => exact dials_of_needed_resolving h
  | trying sockaddrs addresses => exact dials_of_needed_left h hm
  | dialing addr sockaddrs addresses => exact dials_of_needed_dialing h
  | connecting sockaddrs addresses =>
    exact .later (step_needed (a := .connected false) h rfl) (List.append_nil _)
      (dials_of_needed_left (getElem?_set_of_some h) hm)
  | returned => cases hm

/-- A task with a licence dials in some continuation. -/
theorem dials_of_not_idle {s : State} (h : ¬ s.Idle) : Dials s := by
  by_contra hn
  refine h ⟨fun hl => ?_, ?_, ?_, ?_, ?_⟩
  · have hspawn : machine.step s .spawn =
        some { s with listener := .accepting, spawned := s.spawned + 1 } := by
      simp [machine, step, hl]
    exact hn (.later hspawn rfl (.now (l := .setupInbound) (c := .setupInbound) rfl rfl rfl))
  · by_contra hz
    obtain ⟨n, hn'⟩ := Nat.exists_eq_succ_of_ne_zero hz
    have hsetup : machine.step s .setupInbound =
        some { s with spawned := n, calls := s.calls ++ [.setupInbound] } := by
      simp [machine, step, hn']
    exact hn (.now hsetup (c := .setupInbound) rfl rfl)
  · rw [Bool.eq_false_iff]
    exact fun hr => hn (dials_of_reconnect hr)
  · rintro ⟨nodeId, t⟩ hp
    obtain ⟨i, hi⟩ := List.mem_iff_getElem?.mp hp
    rw [Bool.eq_false_iff]
    exact fun ht => hn (dials_of_needed hi ht)
  · rw [Bool.eq_false_iff]
    intro hc
    cases hcli : s.cli with
    | dialing pubkey peerAddr =>
      have hdial : machine.step s .cliDial = some { s with
          cli := .connecting pubkey
          calls := s.calls ++ [.connectOutbound pubkey peerAddr] } := by
        simp [machine, step, hcli]
      exact hn (.now hdial (c := .connectOutbound pubkey peerAddr) rfl rfl)
    | idle | connecting | ended =>
      rw [hcli] at hc
      cases hc

/-- What a step that is not quiet does: it crosses or follows the disconnect. -/
theorem not_quiet {s : State} {l : Label} (hq : ¬ Quiet s l) :
    (l = .disconnectAllPeers ∧ ¬ s.Idle) ∨
      (s.main = .disconnected ∧ ∃ nodeId addresses,
        l = .connectionNeeded nodeId addresses ∧ addresses ≠ []) ∨
      (s.main = .disconnected ∧ ∃ pubkey peerAddr,
        l = .connectPeer pubkey peerAddr ∧ pubkey ∉ s.peers) := by
  by_contra hn
  simp only [not_or, not_and, not_exists, not_not] at hn
  obtain ⟨hidle, hneeded, hconnect⟩ := hn
  exact hq ⟨hidle, hneeded, hconnect⟩

/-- A step that is not quiet leaves a task with a licence after the disconnect. -/
theorem not_idle_of_not_quiet {s s' : State} {l : Label} (h : machine.step s l = some s')
    (hq : ¬ Quiet s l) : s'.main = .disconnected ∧ ¬ s'.Idle := by
  obtain ⟨rfl, hi⟩ | ⟨hm, nodeId, addresses, rfl, ha⟩ | ⟨hm, pubkey, peerAddr, rfl, hp⟩ :=
    not_quiet hq
  · cases step_cases h
    exact ⟨rfl, fun hi' =>
      hi ⟨hi'.listener, hi'.spawned, hi'.reconnect, hi'.needed, hi'.cli⟩⟩
  · cases step_cases h
    refine ⟨hm, fun hi' => ha ?_⟩
    have ht := hi'.needed (nodeId, .resolving addresses) (List.mem_append_right _ (by simp))
    simpa [Needed.mayDial] using ht
  · cases step_cases h
    refine ⟨hm, fun hi' => ?_⟩
    have hc := hi'.cli
    rw [if_neg hp] at hc
    cases hc

/-- **No peer connection after the disconnect**, in a run whose steps are all quiet; and from
a step that is not, some continuation makes one. -/
theorem no_dial_after_stop (ls : List Label) (s : State) (hr : machine.run init ls = some s) :
    (machine.Along Quiet init ls → NoDialAfter s.calls) ∧
    ∀ l s', machine.step s l = some s' → ¬ Quiet s l →
      ∃ ks t, machine.run s' ks = some t ∧ ¬ NoDialAfter t.calls := by
  refine ⟨fun ha => ?_, fun l s' h hq => ?_⟩
  · have hi : QuietInv init := ⟨mainInv_init, fun hd => (nomatch hd)⟩
    exact (Machine.inv_run Quiet (fun _ _ _ hi hq h => quietInv_step hi hq h) hi ha hr).noDialAfter
  · obtain ⟨hm, hn⟩ := not_idle_of_not_quiet h hq
    obtain ⟨ks, t, c, hk, hc, ht⟩ := dials_of_not_idle hn
    refine ⟨ks, t, hk, fun hno => ?_⟩
    have hmem : Call.disconnectAllPeers ∈ s'.calls :=
      (mainInv_step (mainInv_run hr) h).calls.mp hm
    obtain ⟨as, bs, hab⟩ := List.append_of_mem hmem
    have hfalse := hno as (bs ++ [c]) (by rw [ht, hab]; simp) c (by simp)
    rw [hc] at hfalse
    cases hfalse

/-- The listener accepts a stream before the stop and loads the flag after it; then an event
asks for a connection. -/
theorem no_dial_after_stop_run :
    let id : PublicKey := ⟨Vector.replicate 33 2⟩
    let ls : List Label := [.accept, .loadStop, .spawn, .setupInbound, .accept, .cliEnd, .select,
      .storeStop, .disconnectAllPeers, .loadStop]
    let event : Label := .connectionNeeded id [.tcpIpV4 #v[127, 0, 0, 1] 9735]
    ∃ s, machine.run init ls = some s ∧ NoDialAfter s.calls ∧
      ∃ s', machine.step s event = some s' ∧
        ∃ ks t, machine.run s' ks = some t ∧ ¬ NoDialAfter t.calls := by
  intro id ls event
  refine ⟨_, rfl, ?_⟩
  have h := no_dial_after_stop ls _ rfl
  refine ⟨h.1 ?_, _, rfl, h.2 event _ rfl fun hq => ?_⟩
  · refine ⟨.before ?_ ?_, .before ?_ ?_, .before ?_ ?_, .before ?_ ?_, .before ?_ ?_,
      .before ?_ ?_, .before ?_ ?_, .before ?_ ?_,
      ⟨fun _ => ⟨by decide, rfl, rfl, fun p hp => (nomatch hp), rfl⟩, fun hm => (nomatch hm),
        fun hm => (nomatch hm)⟩,
      ⟨fun hl => (nomatch hl), fun _ _ _ hl => (nomatch hl), fun _ _ _ hl => (nomatch hl)⟩, trivial⟩
    all_goals decide
  · cases hq.needed rfl _ _ rfl

/-- The CLI ends while the reconnect task waits for the first of a peer's two addresses. -/
theorem dial_after_stop : ¬ ∀ ls s, machine.run init ls = some s → NoDialAfter s.calls := by
  intro h
  let id : PublicKey := ⟨Vector.replicate 33 2⟩
  let addr : SocketAddress := .hostname [108, 110] 9735
  let first : SocketAddr := .v4 #v[10, 0, 0, 1] 9735
  let second : SocketAddr := .v4 #v[10, 0, 0, 2] 9735
  have hcalls := h
    [.reconnect (.tick [id]), .reconnect .advance, .reconnect .advance,
      .reconnect (.lookup (some ⟨some [addr]⟩)), .reconnect (.resolve (some [first, second])),
      .reconnect .dial, .cliEnd, .select, .storeStop, .disconnectAllPeers,
      .reconnect (.connected false), .reconnect .dial] _ rfl
  cases hcalls [.connectOutbound id first] [.connectOutbound id second] rfl
    (.connectOutbound id second) List.mem_cons_self

end Node

end LdkSample
