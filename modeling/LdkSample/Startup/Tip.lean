import LdkSample.Startup.Boot

/-!
# Chain listeners at start

Whether every stored chain listener is at the tip, and every monitor loaded, when the
`SpvClient` is created (`atTip_iff`). The monitors and the sweeper are synchronized in the branch
of a restarting node only, so a start that cannot open the manager leaves the monitors on disk
unwatched (`monitor_unwatched`).
-/

namespace LdkSample

namespace Startup

/-- The listeners are at the tip, and each stored monitor is loaded once, at the tip. -/
structure AtTip (w : World) (b : Booted) : Prop where
  manager : b.channelManager.bestBlock = b.chainTip
  sweeper : b.outputSweeper.bestBlock = b.chainTip
  monitors : b.chainMonitor = w.monitors.map fun m => Listen.connectTo b.chainTip m.listener

/-- There is no sweeper file, or the sweeper in it is at the polled tip. -/
def SweeperAtTip (L : Lightning) (e : Env) (w : World) : Prop :=
  openFile e.sweeperFault w.sweeper = .error .notFound ∨
    ∃ bytes s, openFile e.sweeperFault w.sweeper = .ok bytes ∧ L.readSweeper bytes = some s ∧
      e.polledTip = some s.listener.bestBlock

/-- The manager can be opened, or nothing is stored that is behind the polled tip. -/
def Synced (L : Lightning) (e : Env) (w : World) : Prop :=
  (∃ bytes, openFile e.managerFault w.manager = .ok bytes) ∨
    w.monitors = [] ∧ SweeperAtTip L e w

variable {L : Lightning} {e : Env} {w w' : World}

/-! ## The stages -/

theorem synchronizeListener_stored {α : Type} [Listen α] (tip : BestBlock) (s : Stored α) :
    synchronizeListener tip s.blockHash s.listener = Listen.connectTo tip s.listener := by
  unfold synchronizeListener
  rw [if_pos s.own]

theorem loadMonitors_some {ms cm cm' : List ChannelMonitor} (h : loadMonitors L cm ms = some cm') :
    cm' = cm ++ ms := by
  induction ms generalizing cm with
  | nil =>
    cases h
    rw [List.append_nil]
  | cons m ms ih =>
    unfold loadMonitors loadExistingMonitor at h
    split at h
    · next cm₁ hload =>
      split at hload
      · cases hload
      · obtain ⟨rfl, -⟩ := Prod.mk.inj (Option.some.inj hload)
        rw [ih h, List.append_assoc, List.singleton_append]
    · cases h

/-- Only the seed and the log differ. -/
structure SeedOnly (w w' : World) : Prop where
  manager : w'.manager = w.manager
  monitors : w'.monitors = w.monitors
  sweeper : w'.sweeper = w.sweeper

theorem SeedOnly.setSeed {w w' : World} (h : SeedOnly w w') (file : Option Bytes) (log : List Act) :
    SeedOnly w { w' with keysSeed := file, log } :=
  ⟨h.manager, h.monitors, h.sweeper⟩

theorem keysSeed_frame (w : World) :
    Crash.Triple (SeedOnly w) (keysSeed e) (fun _ => SeedOnly w) (SeedOnly w) := by
  refine .get fun w₀ hw₀ => ?_
  split
  · split
    · exact .pure fun _ h => h ▸ hw₀
    · exact .abort
  · split
    · exact .pure fun _ h => h ▸ hw₀
    · refine .bind (Q := fun _ => SeedOnly w) (.modify_of (fun _ h => h) ?_) fun _ => ?_
      · rintro _ rfl
        exact hw₀.setSeed _ _
      · refine .bind (.forEach (fun _ => SeedOnly w) fun b _ => ?_) fun _ => .pure fun _ h => h
        exact .modify_of (fun _ h => h) fun _ h => h.setSeed _ _

theorem channelManager_inv {ms : List (Stored ChannelMonitor)} {tip : BestBlock} {restarting : Bool}
    {m : Stored ChannelManager}
    (h : (channelManager L e ms tip).exec w = some ((restarting, m), w')) :
    w'.sweeper = w.sweeper ∧
      ((restarting = true ∧ ∃ bytes, openFile e.managerFault w.manager = .ok bytes) ∨
        (restarting = false ∧ (∃ kind, openFile e.managerFault w.manager = .error kind) ∧
          m.listener = .new tip)) := by
  obtain ⟨_, _, hget, h₁⟩ := Crash.exec_bind_inv h
  cases hget
  split at h₁
  · next bytes hopen =>
    obtain ⟨m', w₁, hread, h₂⟩ := Crash.exec_bind_inv h₁
    obtain ⟨-, rfl⟩ := Crash.exec_unwrap_inv hread
    obtain ⟨_, w₂, hact, h₃⟩ := Crash.exec_bind_inv h₂
    cases hact
    cases h₃
    exact ⟨rfl, .inl ⟨rfl, bytes, hopen⟩⟩
  · next kind hopen =>
    obtain ⟨_, w₁, hact, h₂⟩ := Crash.exec_bind_inv h₁
    cases hact
    cases h₂
    exact ⟨rfl, .inr ⟨rfl, ⟨kind, hopen⟩, rfl⟩⟩

theorem outputSweeper_inv {m : ChannelManager} {s : Stored OutputSweeper}
    (h : (outputSweeper L e m).exec w = some (s, w')) :
    (openFile e.sweeperFault w.sweeper = .error .notFound ∧ s.listener = .new m.bestBlock) ∨
      ∃ bytes, openFile e.sweeperFault w.sweeper = .ok bytes ∧ L.readSweeper bytes = some s := by
  obtain ⟨_, _, hget, h₁⟩ := Crash.exec_bind_inv h
  cases hget
  split at h₁
  · next hopen =>
    cases h₁
    exact .inl ⟨hopen, rfl⟩
  · next bytes hopen => exact .inr ⟨bytes, hopen, (Crash.exec_unwrap_inv h₁).1⟩
  · cases h₁

/-- What a start that gets to the `SpvClient` has been through. -/
theorem boot_inv {b : Booted} (h : (boot L e).exec w = some (some b, w')) :
    ∃ polledTip restarting manager sweeper, e.polledTip = some polledTip ∧
      ((restarting = true ∧ ∃ bytes, openFile e.managerFault w.manager = .ok bytes) ∨
        (restarting = false ∧ (∃ kind, openFile e.managerFault w.manager = .error kind) ∧
          manager.listener = .new polledTip)) ∧
      ((openFile e.sweeperFault w.sweeper = .error .notFound ∧
          sweeper.listener = .new manager.listener.bestBlock) ∨
        ∃ bytes, openFile e.sweeperFault w.sweeper = .ok bytes ∧ L.readSweeper bytes = some sweeper) ∧
      synchronize e polledTip restarting manager sweeper w.monitors =
        some (b.chainTip, b.channelManager, b.outputSweeper, b.chainMonitor) := by
  obtain ⟨seed, w₁, hseed, h₁⟩ := Crash.exec_bind_inv h
  have hframe := (keysSeed_frame w w ⟨rfl, rfl, rfl⟩).2 seed w₁ hseed
  cases seed with
  | none => cases h₁
  | some seed =>
    obtain ⟨_, _, hact, h₂⟩ := Crash.exec_bind_inv h₁
    cases hact
    obtain ⟨_, _, hget, h₃⟩ := Crash.exec_bind_inv h₂
    cases hget
    split at h₃
    · cases h₃
    · obtain ⟨polledTip, w₂, e₂, h₄⟩ := Crash.exec_bind_inv h₃
      obtain ⟨hpoll, rfl⟩ := Crash.exec_unwrap_inv e₂
      obtain ⟨⟨restarting, manager⟩, w₃, e₃, h₅⟩ := Crash.exec_bind_inv h₄
      obtain ⟨hsame, hmanager⟩ := channelManager_inv e₃
      obtain ⟨sweeper, w₄, e₄, h₆⟩ := Crash.exec_bind_inv h₅
      have hsweeper := outputSweeper_inv e₄
      obtain ⟨⟨tip, m, s, ms⟩, w₅, e₅, h₇⟩ := Crash.exec_bind_inv h₆
      obtain ⟨hsync, rfl⟩ := Crash.exec_unwrap_inv e₅
      obtain ⟨cm, w₆, e₆, h₈⟩ := Crash.exec_bind_inv h₇
      obtain ⟨hload, rfl⟩ := Crash.exec_unwrap_inv e₆
      cases h₈
      rw [hsame] at hsweeper
      refine ⟨polledTip, restarting, manager, sweeper, hpoll, ?_, ?_, ?_⟩
      · rw [← hframe.manager]
        exact hmanager
      · rw [← hframe.sweeper]
        exact hsweeper
      · rw [← hframe.monitors, loadMonitors_some hload]
        exact hsync

/-- A restarting node: every listener goes to `synchronize_listeners`, with its own hash. -/
theorem atTip_restarting {b : Booted} {polledTip : BestBlock} {manager : Stored ChannelManager}
    {sweeper : Stored OutputSweeper}
    (h : synchronize e polledTip true manager sweeper w.monitors =
      some (b.chainTip, b.channelManager, b.outputSweeper, b.chainMonitor)) : AtTip w b := by
  unfold synchronize at h
  rw [if_pos rfl, Option.map_eq_some_iff] at h
  obtain ⟨tip, -, hsync⟩ := h
  simp only [synchronizeListener_stored, Prod.mk.injEq] at hsync
  obtain ⟨rfl, hm, hs, hms⟩ := hsync
  refine ⟨?_, ?_, hms.symm⟩
  · rw [← hm]
    rfl
  · rw [← hs]
    rfl

/-- A fresh node: none does, and no monitor is loaded. -/
theorem synchronize_fresh {b : Booted} {polledTip : BestBlock} {manager : Stored ChannelManager}
    {sweeper : Stored OutputSweeper} {monitors : List (Stored ChannelMonitor)}
    (h : synchronize e polledTip false manager sweeper monitors =
      some (b.chainTip, b.channelManager, b.outputSweeper, b.chainMonitor)) :
    b = ⟨polledTip, manager.listener, sweeper.listener, []⟩ := by
  unfold synchronize at h
  rw [if_neg (by decide)] at h
  simp only [Option.some.injEq, Prod.mk.injEq] at h
  obtain ⟨rfl, hm, hs, hms⟩ := h
  rw [hm, hs, hms]

/-- A fresh manager is at the tip, so it depends on what else is stored. -/
theorem atTip_fresh_iff {b : Booted} {polledTip : BestBlock} {manager : Stored ChannelManager}
    {sweeper : Stored OutputSweeper} (hpoll : e.polledTip = some polledTip)
    (hmanager : manager.listener = .new polledTip)
    (hsweeper : (openFile e.sweeperFault w.sweeper = .error .notFound ∧
        sweeper.listener = .new manager.listener.bestBlock) ∨
      ∃ bytes, openFile e.sweeperFault w.sweeper = .ok bytes ∧ L.readSweeper bytes = some sweeper)
    (hb : b = ⟨polledTip, manager.listener, sweeper.listener, []⟩) :
    AtTip w b ↔ w.monitors = [] ∧ SweeperAtTip L e w := by
  have hat : manager.listener.bestBlock = polledTip := by rw [hmanager]; rfl
  subst hb
  constructor
  · intro htip
    refine ⟨List.map_eq_nil_iff.mp htip.monitors.symm, ?_⟩
    rcases hsweeper with ⟨hnone, -⟩ | ⟨bytes, hbytes, hread⟩
    · exact .inl hnone
    · exact .inr ⟨bytes, sweeper, hbytes, hread, hpoll.trans (congrArg some htip.sweeper.symm)⟩
  · rintro ⟨hnil, hstored⟩
    refine ⟨hat, ?_, ?_⟩
    · rcases hsweeper with ⟨-, hnew⟩ | ⟨bytes, hbytes, hread⟩
      · show sweeper.listener.bestBlock = polledTip
        rw [hnew]
        exact hat
      · rcases hstored with hnone | ⟨bytes', s', hbytes', hread', htip⟩
        · rw [hnone] at hbytes
          cases hbytes
        · rw [hbytes] at hbytes'
          cases hbytes'
          rw [hread] at hread'
          cases hread'
          rw [hpoll] at htip
          exact (Option.some.inj htip).symm
    · show [] = w.monitors.map _
      rw [hnil]
      rfl

/-- **Every chain listener is at the tip**, and every monitor loaded, exactly when the manager was
opened or nothing that is stored is behind the polled tip. -/
theorem atTip_iff {b : Booted} (h : (boot L e).exec w = some (some b, w')) :
    AtTip w b ↔ Synced L e w := by
  obtain ⟨polledTip, restarting, manager, sweeper, hpoll, hmanager, hsweeper, hsync⟩ := boot_inv h
  rcases hmanager with ⟨rfl, hopen⟩ | ⟨rfl, ⟨kind, herr⟩, hfresh⟩
  · exact ⟨fun _ => .inl hopen, fun _ => atTip_restarting hsync⟩
  · rw [atTip_fresh_iff hpoll hfresh hsweeper (synchronize_fresh hsync)]
    refine ⟨.inr, ?_⟩
    rintro (⟨bytes, hbytes⟩ | hstored)
    · rw [herr] at hbytes
      cases hbytes
    · exact hstored

section Examples

/-- A seed and one monitor are stored, the manager as given. -/
def oneMonitor (manager : Option Bytes) : World where
  keysSeed := some (List.replicate 32 7)
  manager := manager
  monitors := [⟨oldBlock.blockHash, ⟨⟨Vector.replicate 32 9⟩, oldBlock⟩, rfl⟩]
  sweeper := none
  outboundPayments := none
  log := []

end Examples

/-- A start with a manager on disk. -/
theorem atTip_oneMonitor :
    ∃ b w', (boot storedAtOld noFault).exec (oneMonitor (some [0])) = some (some b, w') ∧
      (AtTip (oneMonitor (some [0])) b ↔ Synced storedAtOld noFault (oneMonitor (some [0]))) :=
  ⟨_, _, rfl, atTip_iff rfl⟩

/-- **A monitor that nobody watches**: its channel's manager was never written. -/
theorem monitor_unwatched : ¬ ∀ (L : Lightning) (e : Env) (w w' : World) (b : Booted),
    (boot L e).exec w = some (some b, w') → AtTip w b := by
  intro h
  have htip := h storedAtOld noFault (oneMonitor none) _ _ rfl
  cases htip.monitors

end Startup

end LdkSample
