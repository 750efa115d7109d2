import LdkSample.Payment.InboundDisk
import LdkSample.Payment.OutboundKept
import LdkSample.Startup.Reconcile

/-!
# The node and its lives

The node while it is up is its two payment stores, each with the tasks that change it, and the
data directory. A kill leaves one of the files each store may leave; the next start is `start_ldk`:
it boots, reads both stores and writes the outbound one back. `service L` puts the two together, so
its lives are starts, runs and kills in any order.
-/

namespace LdkSample

namespace Lives

open Startup

/-- What is on disk while the node is down. -/
structure Disk where
  world : World
  inbound : Inbound.Snapshot

structure Node where
  world : World
  inbound : Inbound.Stored
  outbound : Outbound.State

inductive Label where
  | inbound (l : Inbound.Label)
  | outbound (l : Outbound.Label)
  /-- The background processor writes the manager. -/
  | persistManager (bytes : Bytes)

/-- Every write of the outbound store is of a `Vec`. -/
def Fits (s : Outbound.State) : Prop := ∀ b ∈ s.writes, (toVec b).isSome

instance (s : Outbound.State) : Decidable (Fits s) := inferInstanceAs (Decidable (∀ b ∈ s.writes, _))

def step (n : Node) : Label → Option Node
  | .inbound l =>
    if Inbound.Fits n.inbound.state l then
      (Inbound.storedMachine.step n.inbound l).map fun i => { n with inbound := i }
    else none
  | .outbound l =>
    match Outbound.machine.step n.outbound l with
    | some s => if Fits s then some { n with outbound := s } else none
    | none => none
  | .persistManager bytes =>
    some { n with
      world := { n.world with manager := some bytes, log := n.world.log ++ [.persistManager] } }

def machine : Machine Node Label := ⟨step⟩

/-- Every way a step can go. -/
inductive Step (n : Node) : Label → Node → Prop where
  | inbound {l : Inbound.Label} {i : Inbound.Stored} : Inbound.Fits n.inbound.state l →
      Inbound.storedMachine.step n.inbound l = some i → Step n (.inbound l) { n with inbound := i }
  | outbound {l : Outbound.Label} {s : Outbound.State} :
      Outbound.machine.step n.outbound l = some s → Fits s →
      Step n (.outbound l) { n with outbound := s }
  | persistManager {bytes : Bytes} : Step n (.persistManager bytes) { n with
      world := { n.world with manager := some bytes, log := n.world.log ++ [.persistManager] } }

theorem step_cases {n n' : Node} {l : Label} (h : machine.step n l = some n') : Step n l n' := by
  unfold machine step at h
  cases l with
  | inbound l =>
    dsimp only at h
    split at h
    · next hfit =>
      obtain ⟨i, hi, rfl⟩ := Option.map_eq_some_iff.mp h
      exact .inbound hfit hi
    · cases h
  | outbound l =>
    dsimp only at h
    split at h
    · next s hs =>
      split at h
      · next hfit =>
        cases h
        exact .outbound hs hfit
      · cases h
    · cases h
  | persistManager bytes =>
    cases h
    exact .persistManager

/-- What a kill may leave: for each store one of the files it may leave. -/
def Node.crash (n : Node) : List Disk :=
  n.outbound.crashFiles.flatMap fun b =>
    n.inbound.crashFiles.map fun f => ⟨{ n.world with outboundPayments := some b }, f⟩

/-- The outcomes of a start, with that of opening the inbound file. -/
structure StartEnv where
  env : Env
  inboundFault : Option IoErrorKind

abbrev Loaded : Type := InboundPaymentInfoStorage × OutboundPaymentInfoStorage

/-- A program over the data directory, with the inbound file beside it. -/
def onWorld {α : Type} (m : Crash World α) : Crash Disk α :=
  Crash.within Disk.world (fun w d => { d with world := w }) m

/-- `start_ldk`, from the keys seed to the two payment stores. -/
def start (L : Lightning) (e : StartEnv) : Crash Disk (Option Loaded) := do
  match ← onWorld (boot L e.env) with
  | none => pure none
  | some _ => do
    let d ← Crash.get
    let inbound := readInboundPaymentInfo (openFile e.inboundFault d.inbound.file).toOption
    let outbound ← onWorld (outboundPayments e.env)
    pure (some (inbound, outbound))

/-- The node once its stores are loaded. -/
def up (loaded : Loaded) (d : Disk) : Node where
  world := d.world
  inbound := .boot loaded.1 d.inbound
  outbound := Outbound.init loaded.2

def service (L : Lightning) : Machine.Service Node Label Disk StartEnv Loaded where
  machine := machine
  crash := Node.crash
  start := start L
  up := up

abbrev Phase : Type := Machine.Phase Node Disk

abbrev LifeLabel : Type := Machine.LifeLabel Label StartEnv

def lives (L : Lightning) : Machine Phase LifeLabel := (service L).lives

theorem mem_crash {n : Node} {d : Disk} (h : d ∈ n.crash) :
    (∃ b ∈ n.outbound.crashFiles, d.world.outboundPayments = some b) ∧
      d.inbound ∈ n.inbound.crashFiles := by
  obtain ⟨b, hb, hd⟩ := List.mem_flatMap.mp h
  obtain ⟨f, hf, rfl⟩ := List.mem_map.mp hd
  exact ⟨⟨b, hb, rfl⟩, hf⟩

/-! ## A start -/

variable {L : Lightning}

/-- An act that does not touch the outbound store's file. -/
theorem act_keeps {f : Option Bytes} {a : Act} {g : World → World}
    (hg : ∀ w, (g w).outboundPayments = w.outboundPayments) :
    Crash.Keeps (fun w : World => w.outboundPayments = f) (act a g) :=
  Crash.keeps_modify fun w hw => (hg w).trans hw

theorem keysSeed_keeps (e : Env) (f : Option Bytes) :
    Crash.Keeps (fun w : World => w.outboundPayments = f) (keysSeed e) := by
  refine Crash.keeps_get fun w => ?_
  split
  · split
    · exact Crash.keeps_pure _
    · exact Crash.keeps_abort
  · split
    · exact Crash.keeps_pure _
    · refine Crash.Keeps.bind (act_keeps ?_) fun _ => ?_
      · exact fun _ => rfl
      · refine Crash.Keeps.bind (Crash.keeps_forEach fun b => act_keeps ?_) fun _ => ?_
        · exact fun _ => rfl
        · exact Crash.keeps_pure _

/-- The outbound store's file is left alone until it is written back. -/
theorem boot_keeps (e : Env) (f : Option Bytes) :
    Crash.Keeps (fun w : World => w.outboundPayments = f) (boot L e) := by
  refine (keysSeed_keeps e f).bind fun r => ?_
  split
  · exact Crash.keeps_pure _
  · refine (act_keeps fun _ => rfl).bind fun _ => Crash.keeps_get fun w => ?_
    split
    · exact Crash.keeps_abort
    · refine (Crash.keeps_unwrap _).bind fun polledTip => ?_
      refine Crash.Keeps.bind ?_ fun ⟨restarting, manager⟩ => ?_
      · refine Crash.keeps_get fun w => ?_
        split
        · refine (Crash.keeps_unwrap _).bind fun _ => ?_
          exact (act_keeps fun _ => rfl).bind fun _ => Crash.keeps_pure _
        · exact (act_keeps fun _ => rfl).bind fun _ => Crash.keeps_pure _
      · refine Crash.Keeps.bind ?_ fun sweeper => ?_
        · refine Crash.keeps_get fun w => ?_
          split
          · exact Crash.keeps_pure _
          · exact Crash.keeps_unwrap _
          · exact Crash.keeps_abort
        · refine (Crash.keeps_unwrap _).bind fun ⟨_, _, _, _⟩ => ?_
          exact (Crash.keeps_unwrap _).bind fun _ => Crash.keeps_pure _

/-- The stores a start loads. -/
def loadedInbound (fault : Option IoErrorKind) (f : Inbound.Snapshot) : InboundPaymentInfoStorage :=
  readInboundPaymentInfo (openFile fault f.file).toOption

def loadedOutbound (e : Env) (file : Option Bytes) : OutboundPaymentInfoStorage :=
  reconcile (readOutboundPaymentInfo (openFile e.outboundFault file).toOption)
    e.recentPaymentsPaymentIds

/-- The file is that of the store. -/
def IsFileOf (o : OutboundPaymentInfoStorage) (file : Option Bytes) : Prop :=
  ∃ bytes, toVec o.encode = some bytes ∧ file = some bytes

/-- What a start in `d` may leave: the inbound file, and the outbound one or what is loaded of it. -/
structure Started (e : StartEnv) (d d' : Disk) : Prop where
  inbound : d'.inbound = d.inbound
  outbound : d'.world.outboundPayments = d.world.outboundPayments ∨
    IsFileOf (loadedOutbound e.env d.world.outboundPayments) d'.world.outboundPayments

/-- What it has loaded once the node is up. -/
structure LoadedIn (e : StartEnv) (d : Disk) (loaded : Loaded) (d' : Disk) : Prop where
  inbound : d'.inbound = d.inbound
  fst : loaded.1 = loadedInbound e.inboundFault d.inbound
  snd : loaded.2 = loadedOutbound e.env d.world.outboundPayments
  file : IsFileOf loaded.2 d'.world.outboundPayments

/-- How a start in `d` ends. -/
def EndsIn (e : StartEnv) (d : Disk) : Option Loaded → Disk → Prop
  | some loaded, d' => LoadedIn e d loaded d'
  | none, d' => Started e d d'

/-- The loop over the outbound payments and the write behind it. -/
theorem outboundPayments_triple (e : Env) (w : World) :
    Crash.Triple (fun w' => w' = w) (outboundPayments e)
      (fun o w' => o = loadedOutbound e w.outboundPayments ∧ IsFileOf o w'.outboundPayments)
      fun w' => IsFileOf (loadedOutbound e w.outboundPayments) w'.outboundPayments := by
  refine .get fun w₀ hw₀ => ?_
  subst hw₀
  refine .bind (Q := fun bytes _ => toVec (loadedOutbound e w₀.outboundPayments).encode = some bytes)
    (.unwrap fun bytes hb _ _ => hb) fun bytes => ?_
  split
  · exact .abort
  · refine .bind (Q := fun _ w' => IsFileOf (loadedOutbound e w₀.outboundPayments) w'.outboundPayments)
      (.modify (fun w' hb => ⟨bytes, hb, rfl⟩) fun w' hb => ⟨bytes, hb, rfl⟩) fun _ => ?_
    exact .pure fun w' hw => ⟨rfl, hw⟩

/-- The spec of a start. -/
theorem start_spec (e : StartEnv) (d : Disk) :
    Crash.Triple (fun d' => d' = d) (start L e) (EndsIn e d) (Started e d) := by
  have hboot : Crash.Triple (fun d' => d' = d) (onWorld (boot L e.env))
      (fun _ d' => d'.inbound = d.inbound ∧
        d'.world.outboundPayments = d.world.outboundPayments) (Started e d) := by
    refine .within fun t ht => ?_
    subst ht
    refine ((boot_keeps e.env t.world.outboundPayments).pre ?_).post ?_ ?_
    · rintro w rfl
      rfl
    · exact fun _ w hw => ⟨rfl, hw⟩
    · exact fun w hw => ⟨rfl, .inl hw⟩
  refine .bind hboot fun r => ?_
  split
  · exact .pure fun d' hd' => ⟨hd'.1, .inl hd'.2⟩
  · refine .get fun d₁ ⟨hin, hout⟩ => ?_
    have hspec : Crash.Triple (fun d' => d' = d₁) (onWorld (outboundPayments e.env))
        (fun o d' => d'.inbound = d.inbound ∧ o = loadedOutbound e.env d.world.outboundPayments ∧
          IsFileOf o d'.world.outboundPayments) (Started e d) := by
      refine .within fun t ht => ?_
      subst ht
      have h := outboundPayments_triple e.env t.world
      rw [hout] at h
      exact h.post (fun o w hw => ⟨hin, hw⟩) fun w hw => ⟨hin, .inr hw⟩
    refine hspec.bind fun o => .pure fun d' ⟨hin', ho, hw⟩ => ⟨hin', ?_, ho, hw⟩
    show loadedInbound e.inboundFault d₁.inbound = _
    rw [hin]

section Examples

/-- A data directory that holds nothing but the keys seed. -/
def seeded : Disk := ⟨{ noFiles with keysSeed := some (List.replicate 32 7) }, ⟨none, [], []⟩⟩

def noStartFault : StartEnv := ⟨noFault, none⟩

/-- A kill, and the next start. -/
def killAndStart : List LifeLabel := [.kill 0, .start noStartFault]

end Examples

end Lives

end LdkSample
