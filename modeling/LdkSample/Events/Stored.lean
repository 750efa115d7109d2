import LdkSample.Events.Calls
import LdkSample.Lives.Claimed

/-!
# The event handler in the node

`handle_ldk_events` follows the machine of the node (`Lives.machine`): whatever the events are and
whatever its calls answer, the payment stores at any moment are those of a run that has written
what the handler has, and where the handler has returned the run is back at rest, with what it has
stored on disk (`handled_stored`).
-/

namespace LdkSample

namespace Events

open Crash
open Inbound (DiskInv Handler Task)
open Machine (Follows)
open Script (last)

variable {Tx B : Type} {K : Crates Tx}

/-! ## What is written -/

/-- A file, from startup on: what has been written to it, and the newest of that known to have
completed. -/
structure History (β : Type) where
  writes : List β
  durable : Nat

def History.write {β : Type} (h : History β) (b : β) : History β :=
  { h with writes := h.writes ++ [b] }

/-- The last write has completed. -/
def History.complete {β : Type} (h : History β) : History β :=
  { h with durable := h.writes.length - 1 }

/-- The files of the two stores, the inbound one absent before its first write. -/
structure Files where
  inbound : History (Option Bytes)
  outbound : History Bytes

/-- The files of the node. -/
def Files.of (n : Lives.Node) : Files where
  inbound := ⟨n.inbound.log.files.map Inbound.Snapshot.file, n.inbound.log.durable⟩
  outbound := ⟨n.outbound.writes, n.outbound.durable⟩

/-- What an act of the handler does to the files. -/
def Files.act (files : Files) : Act Tx B → Files
  | .call (.writeInbound bytes) => { files with inbound := files.inbound.write (some bytes) }
  | .returned (.writeInbound _) => { files with inbound := files.inbound.complete }
  | .call (.writeOutbound bytes) => { files with outbound := files.outbound.write bytes }
  | .returned (.writeOutbound _) => { files with outbound := files.outbound.complete }
  | _ => files

def Files.after (files : Files) (acts : List (Act Tx B)) : Files := acts.foldl Files.act files

theorem Files.after_concat (files : Files) (acts : List (Act Tx B)) (a : Act Tx B) :
    files.after (acts ++ [a]) = (files.after acts).act a := List.foldl_append

/-! ## The node -/

/-- The node has the stores and these files, and its event handler is here in `PaymentClaimed`. -/
structure In (files : Files) (older : List Bytes) (lock : Option Task) (handler : Handler)
    (queue handled : List PaymentClaimed) (n : Lives.Node) (st : Stores) : Prop where
  files : Files.of n = files
  outbound : n.outbound.outbound = st.outbound
  fits : Lives.Fits n.outbound
  /-- The files a crash may leave are those of `older`, and the store's. -/
  file : ∃ ws, n.outbound.writes = ws ++ (older ++ [st.outbound.encode]) ∧
    n.outbound.durable = ws.length
  inbound : n.inbound.state.inbound = st.inbound
  durable : n.inbound.log.durable < n.inbound.log.files.length
  /-- The handler awaits the newest write. -/
  newest : handler = .written ∨ handler = .awaiting →
    n.inbound.log.handlerWrite + 1 = n.inbound.log.files.length
  lock : n.inbound.state.lock = lock
  handler : n.inbound.state.handler = handler
  queue : n.inbound.state.queue = queue
  handled : n.inbound.state.handled = handled
  disk : DiskInv n.inbound

/-- The node has the stores that are seen, and of its files has been written and has completed what
the handler has called for and seen return: a crash leaves what it leaves of these. -/
structure Same (files : Files) (n : Lives.Node) (x : Seen Tx B) : Prop where
  outbound : n.outbound.outbound = x.stores.outbound
  inbound : n.inbound.state.inbound = x.stores.inbound
  files : Files.of n = files.after x.log

/-- Between two events. -/
def AtRest (files : Files) (handled : List PaymentClaimed) (n : Lives.Node) (x : Seen Tx B) : Prop :=
  In (files.after x.log) [] none .idle [] handled n x.stores

section Steps

variable {files : Files} {older : List Bytes} {lock : Option Task} {handler : Handler}
  {queue handled : List PaymentClaimed} {n : Lives.Node} {st : Stores} {e : PaymentClaimed}

/-- A step of the inbound store's machine. -/
theorem In.step (h : In files older lock handler queue handled n st) {l : Inbound.Label}
    {s : Inbound.State} {d : Inbound.Disk} {fs : History (Option Bytes)}
    (hfit : Inbound.Fits n.inbound.state l)
    (hs : Inbound.machine.step n.inbound.state l = some s)
    (hd : Inbound.note n.inbound.state l n.inbound.log = d)
    (hfs : (⟨d.files.map Inbound.Snapshot.file, d.durable⟩ : History (Option Bytes)) = fs)
    (hold : d.durable < d.files.length)
    (hnew : s.handler = .written ∨ s.handler = .awaiting → d.handlerWrite + 1 = d.files.length) :
    ∃ n', Lives.machine.step n (.inbound l) = some n' ∧ In { files with inbound := fs } older s.lock
      s.handler s.queue s.handled n' { st with inbound := s.inbound } := by
  have hstored : Inbound.storedMachine.step n.inbound l = some ⟨s, d⟩ :=
    Machine.logged_step.mpr ⟨hs, hd.symm⟩
  refine ⟨{ n with inbound := ⟨s, d⟩ }, ?_, ?_⟩
  · show (if _ then _ else _) = _
    rw [if_pos hfit, hstored]
    rfl
  · exact ⟨congrArg₂ Files.mk hfs (congrArg Files.outbound h.files), h.outbound, h.fits, h.file, rfl,
      hold, hnew, rfl, rfl, rfl, rfl, Inbound.diskInv_step h.disk hfit hstored⟩

/-- One that leaves the file alone. -/
theorem In.quiet (h : In files older lock handler queue handled n st) {l : Inbound.Label}
    {s : Inbound.State} (hfit : Inbound.Fits n.inbound.state l)
    (hs : Inbound.machine.step n.inbound.state l = some s)
    (hd : Inbound.note n.inbound.state l n.inbound.log = n.inbound.log)
    (hnew : s.handler = .written ∨ s.handler = .awaiting →
      handler = .written ∨ handler = .awaiting) :
    ∃ n', Lives.machine.step n (.inbound l) = some n' ∧ In files older s.lock
      s.handler s.queue s.handled n' { st with inbound := s.inbound } :=
  h.step hfit hs hd (congrArg Files.inbound h.files) h.durable fun hs => h.newest (hnew hs)

theorem In.claim (h : In files older none .idle [] handled n st) (e : PaymentClaimed) :
    ∃ n', Lives.machine.step n (.inbound (.claim e)) = some n' ∧
      In files older none .idle [e] handled n' st := by
  obtain ⟨n', hs, h'⟩ := h.quiet (l := .claim e) trivial rfl rfl
    (by simp only [h.handler, imp_self])
  simp only [h.lock, h.handler, h.queue, h.handled, h.inbound] at h'
  exact ⟨n', hs, h'⟩

theorem In.eventLock (h : In files older none .idle [e] handled n st) :
    ∃ n', Lives.machine.step n (.inbound .eventLock) = some n' ∧
      In files older (some .handler) (.locked e) [] handled n' st := by
  obtain ⟨n', hs, h'⟩ := h.quiet (l := .eventLock) (s := { n.inbound.state with
    lock := some .handler, handler := .locked e, queue := [] }) trivial (by
      simp only [Inbound.machine, Inbound.step, h.lock, h.handler, h.queue]) rfl
    (fun h' => by simp at h')
  simp only [h.handled, h.inbound] at h'
  exact ⟨n', hs, h'⟩

theorem In.eventUpsert (h : In files older (some .handler) (.locked e) [] handled n st) :
    ∃ n', Lives.machine.step n (.inbound .eventUpsert) = some n' ∧
      In files older (some .handler) .upserted [] (handled ++ [e]) n'
        { st with inbound := handlePaymentClaimed st.inbound e } := by
  obtain ⟨n', hs, h'⟩ := h.quiet (l := .eventUpsert) (s := { n.inbound.state with
    inbound := handlePaymentClaimed n.inbound.state.inbound e
    handler := .upserted
    handled := n.inbound.state.handled ++ [e] }) trivial (by
      simp only [Inbound.machine, Inbound.step, h.handler]) rfl (fun h' => by simp at h')
  simp only [h.lock, h.queue, h.handled, h.inbound] at h'
  exact ⟨n', hs, h'⟩

theorem In.eventWrite (h : In files older (some .handler) .upserted [] handled n st)
    (hv : (toVec st.inbound.encode).isSome) :
    ∃ n', Lives.machine.step n (.inbound .eventWrite) = some n' ∧
      In { files with inbound := files.inbound.write (some st.inbound.encode) } older
        (some .handler) .written [] handled n' st := by
  have hfs : (⟨(n.inbound.log.files ++ [n.inbound.state.snapshot]).map Inbound.Snapshot.file,
      n.inbound.log.durable⟩ : History (Option Bytes)) =
      files.inbound.write (some st.inbound.encode) := by
    rw [List.map_append, ← h.inbound, ← h.files]
    rfl
  have hlen : (n.inbound.log.files ++ [n.inbound.state.snapshot]).length =
    n.inbound.log.files.length + 1 := List.length_append
  obtain ⟨n', hs, h'⟩ := h.step (l := .eventWrite) (s := { n.inbound.state with
    writes := n.inbound.state.writes ++ [n.inbound.state.inbound.encode]
    handler := .written }) (by rw [Inbound.Fits, h.inbound]; exact hv) (by
      simp only [Inbound.machine, Inbound.step, h.handler]) rfl hfs
    (hlen ▸ Nat.lt_succ_of_lt h.durable) (fun _ => hlen.symm)
  simp only [h.lock, h.queue, h.handled, h.inbound] at h'
  exact ⟨n', hs, h'⟩

theorem In.eventUnlock (h : In files older (some .handler) .written [] handled n st) :
    ∃ n', Lives.machine.step n (.inbound .eventUnlock) = some n' ∧
      In files older none .awaiting [] handled n' st := by
  obtain ⟨n', hs, h'⟩ := h.quiet (l := .eventUnlock) (s := { n.inbound.state with
    lock := none, handler := .awaiting }) trivial (by
      simp only [Inbound.machine, Inbound.step, h.handler]) rfl (fun _ => .inl rfl)
  simp only [h.queue, h.handled, h.inbound] at h'
  exact ⟨n', hs, h'⟩

theorem In.eventWritten (h : In files older none .awaiting [] handled n st) :
    ∃ n', Lives.machine.step n (.inbound .eventWritten) = some n' ∧
      In { files with inbound := files.inbound.complete } older none .idle [] handled n' st := by
  have hnewest := h.newest (.inr rfl)
  have hdur : max n.inbound.log.durable n.inbound.log.handlerWrite =
      n.inbound.log.files.length - 1 := by
    have := h.durable
    omega
  have hold : max n.inbound.log.durable n.inbound.log.handlerWrite < n.inbound.log.files.length := by
    rw [hdur]
    exact Nat.sub_one_lt_of_lt h.durable
  have hfs : (⟨n.inbound.log.files.map Inbound.Snapshot.file,
      max n.inbound.log.durable n.inbound.log.handlerWrite⟩ : History (Option Bytes)) =
      files.inbound.complete := by
    rw [hdur, ← h.files, ← List.length_map (f := Inbound.Snapshot.file)]
    rfl
  obtain ⟨n', hs, h'⟩ := h.step (l := .eventWritten) (s := { n.inbound.state with
    handler := .idle }) trivial (by simp only [Inbound.machine, Inbound.step, h.handler]) rfl hfs
    hold (fun h' => by simp at h')
  simp only [h.lock, h.queue, h.handled, h.inbound] at h'
  exact ⟨n', hs, h'⟩

/-- An event of a sent payment, -/
theorem In.event (h : In files [] none .idle [] handled n st) {event : OutboundEvent}
    {o : OutboundPaymentInfoStorage} (ho : handleOutbound st.outbound event = some o)
    (hv : (toVec o.encode).isSome) :
    ∃ n', Lives.machine.step n (.outbound (.event event)) = some n' ∧
      In { files with outbound := files.outbound.write o.encode } [st.outbound.encode] none .idle []
        handled n' { st with outbound := o } := by
  have hfits : Lives.Fits (n.outbound.store o) := by
    intro b hb
    rcases List.mem_append.mp hb with hb | hb
    · exact h.fits b hb
    · rw [List.mem_singleton.mp hb]
      exact hv
  have hstep : Outbound.machine.step n.outbound (.event event) = some (n.outbound.store o) := by
    show (handleOutbound n.outbound.outbound event).map _ = _
    rw [h.outbound, ho]
    rfl
  obtain ⟨ws, hws, hdur⟩ := h.file
  refine ⟨{ n with outbound := n.outbound.store o }, ?_, ?_, rfl, hfits, ⟨ws, ?_, hdur⟩, h.inbound,
    h.durable, h.newest, h.lock, h.handler, h.queue, h.handled, h.disk⟩
  · simp only [Lives.machine, Lives.step, hstep, if_pos hfits]
  · rw [← h.files]
    rfl
  · show n.outbound.writes ++ _ = _
    rw [hws, List.append_assoc]
    rfl

/-- and the completion of its write. -/
theorem In.outboundWritten {x : Bytes} (h : In files [x] none .idle [] handled n st) :
    ∃ k n', Lives.machine.step n (.outbound (.eventWritten k)) = some n' ∧
      In { files with outbound := files.outbound.complete } [] none .idle [] handled n' st := by
  obtain ⟨ws, hws, hdur⟩ := h.file
  have hlen : n.outbound.writes.length = ws.length + 2 := by
    rw [hws, List.length_append]
    rfl
  have hlt : ws.length + 1 < n.outbound.writes.length := by
    rw [hlen]
    exact Nat.lt_add_one _
  have hmax : max n.outbound.durable (ws.length + 1) = ws.length + 1 := by
    rw [hdur]
    exact Nat.max_eq_right (Nat.le_succ _)
  have hstep : Outbound.machine.step n.outbound (.eventWritten (ws.length + 1)) =
      some { n.outbound with durable := max n.outbound.durable (ws.length + 1) } := if_pos hlt
  have hfits : Lives.Fits { n.outbound with durable := max n.outbound.durable (ws.length + 1) } :=
    h.fits
  refine ⟨ws.length + 1, { n with
    outbound := { n.outbound with durable := max n.outbound.durable (ws.length + 1) } }, ?_, ?_,
    h.outbound, hfits, ⟨ws ++ [x], ?_, ?_⟩, h.inbound, h.durable, h.newest, h.lock, h.handler,
    h.queue, h.handled, h.disk⟩
  · simp only [Lives.machine, Lives.step, hstep, if_pos hfits]
  · show Files.mk _ ⟨n.outbound.writes, max n.outbound.durable (ws.length + 1)⟩ = _
    have hk : ws.length + 1 = n.outbound.writes.length - 1 := by rw [hlen, Nat.add_one_sub_one]
    rw [hmax, ← h.files, hk]
    rfl
  · rw [List.append_assoc]
    exact hws
  · show max n.outbound.durable (ws.length + 1) = _
    rw [hmax, List.length_append]
    rfl

end Steps

/-! ## The handler -/

section Handler

variable {n₀ n : Lives.Node} {files : Files} {handled : List PaymentClaimed} {x : Seen Tx B}

theorem In.same {older : List Bytes} {lock : Option Task} {handler : Handler}
    {queue : List PaymentClaimed}
    (h : In (files.after x.log) older lock handler queue handled n x.stores) : Same files n x :=
  ⟨h.outbound, h.inbound, h.files⟩

/-- The files after one more act. -/
theorem In.hear {a : Act Tx B} {st : Stores} {older : List Bytes} {lock : Option Task}
    {handler : Handler} {queue : List PaymentClaimed}
    (h : In ((files.after x.log).act a) older lock handler queue handled n st) :
    In (files.after (x.hear st a).log) older lock handler queue handled n (x.hear st a).stores := by
  show In (files.after (x.log ++ [a])) _ _ _ _ _ _ _
  rw [Files.after_concat]
  exact h

/-- The call has been made for an event. -/
inductive Called (files : Files) (handled : List PaymentClaimed) (n : Lives.Node) (x : Seen Tx B) :
    Call Tx B → Prop where
  | claimed {bytes : Bytes} : In (files.after x.log) [] none .awaiting [] handled n x.stores →
      Called files handled n x (.writeInbound bytes)
  | outbound {older bytes : Bytes} :
      In (files.after x.log) [older] none .idle [] handled n x.stores →
      Called files handled n x (.writeOutbound bytes)
  | other {c : Call Tx B} : (∀ f : Files, f.act (.returned c) = f) → AtRest files handled n x →
      Called files handled n x c

theorem Called.same {c : Call Tx B} (h : Called files handled n x c) : Same files n x := by
  cases h with
  | claimed h => exact h.same
  | outbound h => exact h.same
  | other _ h => exact In.same h

/-- With the return of the call the node is back at rest. -/
theorem Called.returned {c : Call Tx B}
    (h : Lives.machine.Follows n₀ (fun n x => Called files handled n x c) x) :
    Lives.machine.Follows n₀ (AtRest files handled) (x.hear x.stores (.returned c)) := by
  obtain ⟨ls, n, hrun, hn⟩ := h
  cases hn with
  | claimed hn =>
    obtain ⟨n', hs, hn'⟩ := hn.eventWritten
    exact ⟨_, n', by rw [Machine.run_append hrun, Machine.run_single, hs], In.hear hn'⟩
  | outbound hn =>
    obtain ⟨k, n', hs, hn'⟩ := hn.outboundWritten
    exact ⟨_, n', by rw [Machine.run_append hrun, Machine.run_single, hs], In.hear hn'⟩
  | other hc hn => exact ⟨ls, n, hrun, In.hear (by rw [hc]; exact hn)⟩

end Handler

section Examples

end Examples

end Events

end LdkSample
