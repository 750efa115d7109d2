import LdkSample.Bitcoind.Funding
import LdkSample.Machine.Crash
import LdkSample.Payment.Events
import LdkSample.Sweep.Descriptor

/-!
# The event handler

`handle_ldk_events` (`main.rs`), with an `Act` for each thing it does that others see: the lines it
prints, and its calls of LDK, of the store and of the output sweeper, each with its return. What
they and bitcoind answer is in the `Env` of the event.
-/

namespace LdkSample

/-- The preimage that `PaymentClaimable` claims with. -/
def PaymentPurpose.paymentPreimage : PaymentPurpose → Option PaymentPreimage
  | bolt11InvoicePayment paymentPreimage _ => paymentPreimage
  | bolt12OfferPayment paymentPreimage _ => paymentPreimage
  | bolt12RefundPayment paymentPreimage _ => paymentPreimage
  | spontaneousPayment preimage => some preimage

/-- `Display`. -/
def MillisatAmount.display (a : MillisatAmount) : String :=
  match a.msat with
  | some amt => toString amt
  | none => "unknown"

def Node.PublicKey.display (nodeId : Node.PublicKey) : String := Cli.hexStr nodeId.bytes.toList

namespace Events

open Args (Network)
open Bitcoind (CallMethod Consensus FeeTable FundingCall FundingGenerationReady ToAddress)
open Cli (hexStr)
open Node (PublicKey SocketAddress)
open Sweep (SpendableOutputDescriptor)

/-! ## Events -/

structure PaymentClaimable where
  paymentHash : PaymentHash
  purpose : PaymentPurpose
  amountMsat : UInt64

structure PaymentSent where
  paymentPreimage : PaymentPreimage
  paymentHash : PaymentHash
  feePaidMsat : Option UInt64
  paymentId : Option PaymentId

/-- A reason, as `{:?}` prints it. -/
structure Reason where
  debug : String
  deriving DecidableEq

structure PaymentFailed where
  paymentHash : Option PaymentHash
  reason : Option Reason
  paymentId : PaymentId

structure PaymentForwarded where
  prevChannelId : Option Bytes32
  nextChannelId : Option Bytes32
  totalFeeEarnedMsat : Option UInt64
  claimFromOnchainTx : Bool
  outboundAmountForwardedMsat : Option UInt64

/-- `lightning::events::Event`; `B` is `BumpTransactionEvent`. -/
inductive Event (B : Type) where
  | fundingGenerationReady (e : FundingGenerationReady)
  | fundingTxBroadcastSafe
  | paymentClaimable (e : PaymentClaimable)
  | paymentClaimed (e : PaymentClaimed)
  | paymentSent (e : PaymentSent)
  | openChannelRequest (temporaryChannelId : Bytes32) (counterpartyNodeId : PublicKey)
  | paymentPathSuccessful
  | paymentPathFailed
  | probeSuccessful
  | probeFailed
  | paymentFailed (e : PaymentFailed)
  | invoiceReceived
  | paymentForwarded (e : PaymentForwarded)
  | htlcHandlingFailed
  | spendableOutputs (outputs : List SpendableOutputDescriptor) (channelId : Option Bytes32)
  | channelPending (channelId : Bytes32) (counterpartyNodeId : PublicKey)
  | channelReady (channelId : Bytes32) (counterpartyNodeId : PublicKey)
  | channelClosed (channelId : Bytes32) (reason : Reason) (counterpartyNodeId : Option PublicKey)
  | discardFunding
  | htlcIntercepted
  | onionMessageIntercepted
  | onionMessagePeerConnected
  | bumpTransaction (event : B)
  | connectionNeeded (nodeId : PublicKey) (addresses : List SocketAddress)
  /-- The variants that come under `_`. -/
  | other

/-! ## The world -/

inductive Call (Tx B : Type) where
  | fundingTransactionGenerated (call : FundingCall Tx)
  | claimFunds (paymentPreimage : PaymentPreimage)
  | acceptInboundChannel (temporaryChannelId : Bytes32) (counterpartyNodeId : PublicKey)
      (userChannelId : BitVec 128)
  | writeInbound (bytes : Bytes)
  | writeOutbound (bytes : Bytes)
  | trackSpendableOutputs (outputs : List SpendableOutputDescriptor) (channelId : Option Bytes32)
      (excludeStaticOutputs : Bool) (delayUntilHeight : Option UInt32)
  | bumpTransaction (event : B)
  /-- `tokio::spawn` of the task that tries the addresses. -/
  | spawn (nodeId : PublicKey) (addresses : List SocketAddress)

inductive Act (Tx B : Type) where
  | print (text : String)
  | call (c : Call Tx B)
  | returned (c : Call Tx B)

structure World (Tx B : Type) where
  stores : Stores
  log : List (Act Tx B)

/-- The crates, and the network of the node. -/
structure Crates (Tx : Type) where
  consensus : Consensus Tx
  toAddress : ToAddress
  network : Network

/-- What `list_channels` says of a channel. -/
structure ChannelDetails where
  channelId : Bytes32
  counterparty : PublicKey

/-- What the handler finds out while it handles one event. -/
structure Env where
  callMethod : CallMethod
  fees : FeeTable
  fundingOk : Bool
  randomBytes : Bytes32
  /-- The `APIError` of `accept_inbound_channel`, as `{:?}` prints it. -/
  acceptError : Option String
  writeOk : Bool
  trackOk : Bool
  channels : List ChannelDetails
  /-- The aliases of the nodes in the graph, `some none` for one without an announcement. -/
  nodes : PublicKey → Option (Option String)

/-! ## The handler -/

section Handler

variable {Tx B : Type}

/-- One step: a change of the stores, and an act. -/
def act (g : Stores → Stores) (a : Act Tx B) : Crash (World Tx B) Unit :=
  Crash.modify fun w => { stores := g w.stores, log := w.log ++ [a] }

def note (a : Act Tx B) : Crash (World Tx B) Unit := act id a

def print (text : String) : Crash (World Tx B) Unit := note (.print text)

def println (text : String) : Crash (World Tx B) Unit := print (text ++ "\n")

def tell (text : String) : Crash (World Tx B) Unit := do
  println text
  print "> "

/-- A call that changes the stores first, under their mutex, and panics when it fails. -/
def performWith (g : Stores → Stores) (c : Call Tx B) (ok : Bool) : Crash (World Tx B) Unit := do
  act g (.call c)
  if ok then note (.returned c) else Crash.abort

def perform (c : Call Tx B) (ok : Bool) : Crash (World Tx B) Unit := performWith id c ok

/-- `Display` of the hashes and ids. -/
def display (bytes : Bytes32) : String := hexStr bytes.toList

/-- `u128::from_be_bytes` of the first half. -/
def userChannelId (randomBytes : Bytes32) : BitVec 128 :=
  BitVec.ofNat 128 ((randomBytes.toList.take 16).foldl (fun n b => 256 * n + b.toNat) 0)

def handleFundingGenerationReady (K : Crates Tx) (env : Env) (event : FundingGenerationReady) :
    Crash (World Tx B) Unit := do
  let call ← Crash.unwrap (Bitcoind.handleFundingGenerationReady env.callMethod K.consensus
    K.toAddress env.fees K.network event)
  perform (.fundingTransactionGenerated call) true
  if env.fundingOk then pure ()
  else tell "\nERROR: Channel went away before we could fund it. The peer disconnected or refused the channel."

end Handler

section Examples

end Examples

end Events

end LdkSample
