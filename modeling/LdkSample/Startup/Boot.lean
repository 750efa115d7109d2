import LdkSample.Machine.Crash
import LdkSample.Payment.StoreFile

/-!
# Starting the node

`start_ldk` (`main.rs`) from the keys seed to the reconciled outbound payments, as a program
over the files it reads and writes. `Env` holds what each outside operation comes back with;
a write that fails leaves what a kill leaves there, and then panics. `Lightning` holds the
readers of the lightning crate. Of a chain listener the model keeps its best block, which
`synchronize_listeners` moves from the stated hash to the tip.
-/

namespace LdkSample

namespace Startup

inductive IoErrorKind where
  | notFound
  | other
  deriving DecidableEq, Repr

/-- `fs::read`, `File::open` or `fs_store.read`; a fault is its outcome whatever the file is. -/
def openFile (fault : Option IoErrorKind) (file : Option Bytes) : Except IoErrorKind Bytes :=
  match fault, file with
  | some kind, _ => .error kind
  | none, some bytes => .ok bytes
  | none, none => .error .notFound

/-! ## Chain listeners -/

abbrev BlockHash := Bytes32

structure BestBlock where
  blockHash : BlockHash
  height : UInt32
  deriving DecidableEq

/-- `chain::Listen`, as far as the best block goes. -/
class Listen (α : Type) where
  bestBlock : α → BestBlock
  /-- All blocks up to this one are connected. -/
  connectTo : BestBlock → α → α
  bestBlock_connectTo : ∀ b a, bestBlock (connectTo b a) = b

structure ChannelManager where
  bestBlock : BestBlock
  deriving DecidableEq

structure OutputSweeper where
  bestBlock : BestBlock
  deriving DecidableEq

structure ChannelId where
  bytes : Bytes32
  deriving DecidableEq

structure ChannelMonitor where
  channelId : ChannelId
  bestBlock : BestBlock
  deriving DecidableEq

instance : Listen ChannelManager := ⟨ChannelManager.bestBlock, fun b _ => ⟨b⟩, fun _ _ => rfl⟩

instance : Listen OutputSweeper := ⟨OutputSweeper.bestBlock, fun b _ => ⟨b⟩, fun _ _ => rfl⟩

instance : Listen ChannelMonitor :=
  ⟨ChannelMonitor.bestBlock, fun b m => ⟨m.channelId, b⟩, fun _ _ => rfl⟩

def ChannelManager.new (bestBlock : BestBlock) : ChannelManager := ⟨bestBlock⟩

def OutputSweeper.new (bestBlock : BestBlock) : OutputSweeper := ⟨bestBlock⟩

/-- What a listener is stored as: with the hash of its own best block. -/
structure Stored (α : Type) [Listen α] where
  blockHash : BlockHash
  listener : α
  own : (Listen.bestBlock listener).blockHash = blockHash

/-- `synchronize_listeners` on one of its listeners: only from its own block does it get to the tip. -/
def synchronizeListener {α : Type} [Listen α] (tip : BestBlock) (blockHash : BlockHash) (a : α) : α :=
  if (Listen.bestBlock a).blockHash = blockHash then Listen.connectTo tip a else a

inductive ChannelMonitorUpdateStatus where
  | completed
  | inProgress
  | unrecoverableError
  deriving DecidableEq, Repr

/-- The readers, of what is left of a file they accept, and the status of a loaded monitor. -/
structure Lightning where
  readManager : List ChannelMonitor → Bytes → Option (Stored ChannelManager)
  readSweeper : Bytes → Option (Stored OutputSweeper)
  loadStatus : ChannelMonitor → ChannelMonitorUpdateStatus

/-- `load_existing_monitor`: a channel can be loaded once. -/
def loadExistingMonitor (L : Lightning) (chainMonitor : List ChannelMonitor) (m : ChannelMonitor) :
    Option (List ChannelMonitor × ChannelMonitorUpdateStatus) :=
  if m.channelId ∈ chainMonitor.map ChannelMonitor.channelId then none
  else some (chainMonitor ++ [m], L.loadStatus m)

/-- The loop over the monitors; `none` is the panic of `assert_eq!`. -/
def loadMonitors (L : Lightning) :
    List ChannelMonitor → List ChannelMonitor → Option (List ChannelMonitor)
  | chainMonitor, [] => some chainMonitor
  | chainMonitor, m :: ms =>
    match loadExistingMonitor L chainMonitor m with
    | some (chainMonitor', .completed) => loadMonitors L chainMonitor' ms
    | _ => none

/-! ## The files -/

/-- What the starts have done, oldest first. -/
inductive Act where
  | createSeed
  | writeSeed (b : UInt8)
  | keysManager (seed : Bytes32)
  | readManager
  | freshManager
  | persistManager
  deriving DecidableEq

structure World where
  keysSeed : Option Bytes
  manager : Option Bytes
  monitors : List (Stored ChannelMonitor)
  sweeper : Option Bytes
  outboundPayments : Option Bytes
  log : List Act

/-- `RecentPaymentDetails`. -/
inductive RecentPaymentDetails where
  | awaitingInvoice (paymentId : PaymentId)
  | pending (paymentId : PaymentId)
  | fulfilled (paymentId : PaymentId)
  | abandoned (paymentId : PaymentId)
  deriving DecidableEq

def RecentPaymentDetails.paymentId : RecentPaymentDetails → PaymentId
  | awaitingInvoice id => id
  | pending id => id
  | fulfilled id => id
  | abandoned id => id

/-- The outcomes of one start: a fault is an error of its operation. -/
structure Env where
  seedFault : Option IoErrorKind
  createFault : Option IoErrorKind
  /-- What `thread_rng` fills the key with. -/
  key : Bytes32
  monitorsFault : Option IoErrorKind
  polledTip : Option BestBlock
  managerFault : Option IoErrorKind
  sweeperFault : Option IoErrorKind
  /-- The tip `synchronize_listeners` returns. -/
  synchronizedTip : Option BestBlock
  outboundFault : Option IoErrorKind
  recentPayments : List RecentPaymentDetails
  outboundWriteFault : Option IoErrorKind
  /-- The managers written while the node runs. -/
  persisted : List Bytes

def Env.recentPaymentsPaymentIds (e : Env) : List PaymentId :=
  e.recentPayments.map RecentPaymentDetails.paymentId

def act (a : Act) (f : World → World) : Crash World Unit :=
  Crash.modify fun w => { f w with log := w.log ++ [a] }

/-! ## The keys seed -/

/-- `none` where the file cannot be created, and `start_ldk` returns. -/
def keysSeed (e : Env) : Crash World (Option Bytes32) := do
  let w ← Crash.get
  match openFile e.seedFault w.keysSeed with
  | .ok seed => if h : seed.length = 32 then pure (some ⟨seed.toArray, h⟩) else Crash.abort
  | .error _ =>
    match e.createFault with
    | some _ => pure none
    | none => do
      act .createSeed fun w => { w with keysSeed := some [] }
      Crash.forEach e.key.toList fun b =>
        act (.writeSeed b) fun w => { w with keysSeed := w.keysSeed.map (· ++ [b]) }
      pure (some e.key)

/-! ## From the channel manager to the chain tip -/

/-- The manager read from its file, or a fresh one; with whether the node is restarting. -/
def channelManager (L : Lightning) (e : Env) (monitors : List (Stored ChannelMonitor))
    (polledTip : BestBlock) : Crash World (Bool × Stored ChannelManager) := do
  let w ← Crash.get
  match openFile e.managerFault w.manager with
  | .ok bytes => do
    let manager ← Crash.unwrap (L.readManager (monitors.map Stored.listener) bytes)
    act .readManager id
    pure (true, manager)
  | .error _ => do
    act .freshManager id
    pure (false, ⟨polledTip.blockHash, .new polledTip, rfl⟩)

def outputSweeper (L : Lightning) (e : Env) (manager : ChannelManager) :
    Crash World (Stored OutputSweeper) := do
  let w ← Crash.get
  match openFile e.sweeperFault w.sweeper with
  | .error .notFound => pure ⟨manager.bestBlock.blockHash, .new manager.bestBlock, rfl⟩
  | .ok bytes => Crash.unwrap (L.readSweeper bytes)
  | .error .other => Crash.abort

/-- The tip, the listeners at it and the monitors to be loaded. -/
def synchronize (e : Env) (polledTip : BestBlock) (restarting : Bool)
    (manager : Stored ChannelManager) (sweeper : Stored OutputSweeper)
    (monitors : List (Stored ChannelMonitor)) :
    Option (BestBlock × ChannelManager × OutputSweeper × List ChannelMonitor) :=
  if restarting then
    e.synchronizedTip.map fun tip =>
      (tip, synchronizeListener tip manager.blockHash manager.listener,
        synchronizeListener tip sweeper.blockHash sweeper.listener,
        monitors.map fun m => synchronizeListener tip m.blockHash m.listener)
  else some (polledTip, manager.listener, sweeper.listener, [])

/-- What there is when the `SpvClient` is created. -/
structure Booted where
  chainTip : BestBlock
  channelManager : ChannelManager
  outputSweeper : OutputSweeper
  chainMonitor : List ChannelMonitor
  deriving DecidableEq

/-- `start_ldk` up to the creation of the `SpvClient`. -/
def boot (L : Lightning) (e : Env) : Crash World (Option Booted) := do
  match ← keysSeed e with
  | none => pure none
  | some seed => do
    act (.keysManager seed) id
    let w ← Crash.get
    match e.monitorsFault with
    | some _ => Crash.abort
    | none => do
      let polledTip ← Crash.unwrap e.polledTip
      let (restarting, manager) ← channelManager L e w.monitors polledTip
      let sweeper ← outputSweeper L e manager.listener
      let (chainTip, manager, sweeper, monitors) ←
        Crash.unwrap (synchronize e polledTip restarting manager sweeper w.monitors)
      let chainMonitor ← Crash.unwrap (loadMonitors L [] monitors)
      pure (some ⟨chainTip, manager, sweeper, chainMonitor⟩)

/-! ## Outbound payments -/

/-- The loop over the outbound payments. -/
def reconcile (o : OutboundPaymentInfoStorage) (recent : List PaymentId) :
    OutboundPaymentInfoStorage :=
  ⟨HashMap.iterMut o.payments fun id payment =>
    if payment.status = .pending ∧ id ∉ recent then { payment with status := .failed }
    else payment⟩

/-- The store read, reconciled and written back. -/
def outboundPayments (e : Env) : Crash World OutboundPaymentInfoStorage := do
  let w ← Crash.get
  let read := readOutboundPaymentInfo (openFile e.outboundFault w.outboundPayments).toOption
  let outbound := reconcile read e.recentPaymentsPaymentIds
  let bytes ← Crash.unwrap (toVec outbound.encode)
  match e.outboundWriteFault with
  | some _ => Crash.abort
  | none => do
    Crash.modify fun w => { w with outboundPayments := some bytes }
    pure outbound

/-- A start, and the writes of the manager while the node runs. -/
def startLdk (L : Lightning) (e : Env) : Crash World Unit := do
  match ← boot L e with
  | none => pure ()
  | some _ => do
    let _ ← outboundPayments e
    Crash.forEach e.persisted fun bytes =>
      act .persistManager fun w => { w with manager := some bytes }

section Examples

def oldBlock : BestBlock := ⟨Vector.replicate 32 1, 100⟩

def newBlock : BestBlock := ⟨Vector.replicate 32 2, 101⟩

/-- Every file that can be read holds something at `oldBlock`. -/
def storedAtOld : Lightning where
  readManager _ _ := some ⟨oldBlock.blockHash, ⟨oldBlock⟩, rfl⟩
  readSweeper _ := some ⟨oldBlock.blockHash, ⟨oldBlock⟩, rfl⟩
  loadStatus _ := .completed

/-- No operation fails; the chain is at `newBlock`. -/
def noFault : Env where
  seedFault := none
  createFault := none
  key := Vector.replicate 32 7
  monitorsFault := none
  polledTip := some newBlock
  managerFault := none
  sweeperFault := none
  synchronizedTip := some newBlock
  outboundFault := none
  recentPayments := []
  outboundWriteFault := none
  persisted := []

/-- The data directory before the first start. -/
def noFiles : World where
  keysSeed := none
  manager := none
  monitors := []
  sweeper := none
  outboundPayments := none
  log := []

end Examples

end Startup

end LdkSample
