import LdkSample.Cli.Words
import LdkSample.Machine.Crash
import LdkSample.Payment.Inbound
import LdkSample.Payment.Outbound

/-!
# Commands

`poll_for_user_input` (`cli.rs`) on one line, as a program over the two payment stores and the
log of what it has done: what it prints, reads, asks and calls. `Env` holds what it is answered,
`Crates` the parsers of other crates. A command ends without a result where the process panics
or waits for input that does not come. Events are handled at the points where the outbound store
is in use or a line is awaited. This module has the commands about peers and channels.
-/

namespace LdkSample

namespace Cli

open Node (PublicKey SocketAddr)
open Outbound (Bolt11Invoice SendCmd)

/-! ## What a command does -/

inductive OfferAmount where
  | bitcoin (amountMsats : UInt64)
  /-- Another currency, as `{:?}` shows it. -/
  | currency (debug : String)
  deriving DecidableEq

structure Offer where
  amount : Option OfferAmount
  deriving DecidableEq

structure HumanReadableName where
  user : String
  domain : String
  deriving DecidableEq

structure Crates where
  publicKeyFromSlice : Bytes → Option PublicKey
  publicKeyFromStr : String → Except String PublicKey
  toSocketAddrs : String → Option (List SocketAddr)
  offerFromStr : String → Option Offer
  humanReadableNameFromEncoded : String → Option HumanReadableName
  bolt11InvoiceFromStr : String → Except String Bolt11Invoice
  sha256 : Bytes32 → Bytes32

/-- The commands that take a channel and its peer. -/
inductive CloseCommand where
  | closechannel
  | forceclosechannel
  deriving DecidableEq, Repr

def CloseCommand.name : CloseCommand → String
  | closechannel => "closechannel"
  | forceclosechannel => "forceclosechannel"

def CloseCommand.verb : CloseCommand → String
  | closechannel => "close"
  | forceclosechannel => "force-close"

/-- The errors about the words of a line. -/
inductive ArgError where
  | openchannelArgs
  | nodePubkey
  | peerAddressMissing
  | peerInfo (e : PeerInfoError)
  | channelAmount
  | booleanFlag
  | sendpaymentArgs
  | amountMsat (kind : IntErrorKind)
  | offerAmount (debug : String)
  | invoice (debug : String)
  | destinationPubkey
  | keysendPubkeyMissing
  | keysendAmountMissing
  | getofferAmount
  | getinvoiceAmountMissing
  | getinvoiceAmount
  | getinvoiceExpiryMissing
  | getinvoiceExpiry
  | connectpeerArgs
  | disconnectpeerArgs
  | disconnectpeerPubkey (e : String)
  | channelIdMissing (command : CloseCommand)
  | channelId
  | peerPubkeyMissing (command : CloseCommand)
  | peerPubkey
  | signmessageArgs
  deriving DecidableEq

def ArgError.text : ArgError → String
  | openchannelArgs => "ERROR: openchannel has 2 required arguments: `openchannel pubkey@host:port channel_amt_satoshis` [--public] [--with-anchors]"
  | nodePubkey => "ERROR: unable to parse given pubkey for node"
  | peerAddressMissing => "ERROR: Peer address not provided and peer is not connected"
  | peerInfo e => "\"" ++ e.text ++ "\""
  | channelAmount => "ERROR: channel amount must be a number"
  | booleanFlag => "ERROR: invalid boolean flag format. Valid formats: `--option`, `--option=true` `--option=false`"
  | sendpaymentArgs => "ERROR: sendpayment requires an invoice: `sendpayment <invoice> [amount_msat]`"
  | amountMsat kind => "ERROR: couldn't parse amount_msat: " ++ kind.text
  | offerAmount debug => "ERROR: Cannot process non-Bitcoin-denominated offer value " ++ debug
  | invoice debug => "ERROR: invalid invoice: " ++ debug
  | destinationPubkey => "ERROR: couldn't parse destination pubkey"
  | keysendPubkeyMissing => "ERROR: keysend requires a destination pubkey: `keysend <dest_pubkey> <amt_msat>`"
  | keysendAmountMissing => "ERROR: keysend requires an amount in millisatoshis: `keysend <dest_pubkey> <amt_msat>`"
  | getofferAmount => "ERROR: getoffer provided payment amount was not a number"
  | getinvoiceAmountMissing => "ERROR: getinvoice requires an amount in millisatoshis"
  | getinvoiceAmount => "ERROR: getinvoice provided payment amount was not a number"
  | getinvoiceExpiryMissing => "ERROR: getinvoice requires an expiry in seconds"
  | getinvoiceExpiry => "ERROR: getinvoice provided expiry was not a number"
  | connectpeerArgs => "ERROR: connectpeer requires peer connection info: `connectpeer pubkey@host:port`"
  | disconnectpeerArgs => "ERROR: disconnectpeer requires peer public key: `disconnectpeer <peer_pubkey>`"
  | disconnectpeerPubkey e => "ERROR: " ++ e
  | channelIdMissing command =>
    "ERROR: " ++ command.name ++ " requires a channel ID: `" ++ command.name ++ " <channel_id> <peer_pubkey>`"
  | channelId => "ERROR: couldn't parse channel_id"
  | peerPubkeyMissing command =>
    "ERROR: " ++ command.name ++ " requires a peer pubkey: `" ++ command.name ++ " <channel_id> <peer_pubkey>`"
  | peerPubkey => "ERROR: couldn't parse peer_pubkey"
  | signmessageArgs => "ERROR: signmsg requires a message"

/-- A pay call of `ChannelManager`. -/
inductive PayCall where
  | offer (offer : Offer) (amtMsats : Option UInt64) (paymentId : PaymentId)
  | humanReadableName (name : HumanReadableName) (amtMsats : UInt64) (paymentId : PaymentId)
      (dnsResolvers : List PublicKey)
  | bolt11 (invoice : Bolt11Invoice) (paymentId : PaymentId) (amountMsats : Option UInt64)
  | spontaneous (preimage : PaymentPreimage) (paymentId : PaymentId) (payee : PublicKey)
      (amtMsat : UInt64)
  deriving DecidableEq

inductive ReadResult where
  | line (line : String)
  | eof
  | error (text : String)
  deriving DecidableEq

inductive Act where
  | argError (e : ArgError)
  | print (text : String)
  /-- `Paying offer for {} msat. Continue (Y/N)? >` -/
  | prompt (amtMsat : UInt64)
  | nextLine (result : ReadResult)
  | peerByNodeId (nodeId : PublicKey) (connected : Bool)
  | connectOutbound (nodeId : PublicKey) (addr : SocketAddr)
  | disconnectByNodeId (nodeId : PublicKey)
  | createChannel (peer : PublicKey) (channelValueSat : UInt64) (announceForForwarding : Bool)
      (negotiateAnchorsZeroFeeHtlcTx : Bool)
  | closeChannel (command : CloseCommand) (channelId : Bytes32) (counterparty : PublicKey)
  | insertInbound (paymentHash : PaymentHash)
  | insertOutbound (paymentId : PaymentId)
  | writeInbound (bytes : Bytes)
  | writeOutbound (bytes : Bytes)
  | pay (call : PayCall)
  deriving DecidableEq

/-- The calls that change the node's state. -/
def Act.isEffect : Act → Bool
  | argError _ | print _ | prompt _ | nextLine _ | peerByNodeId .. => false
  | connectOutbound .. | disconnectByNodeId _ | createChannel .. | closeChannel .. => true
  | insertInbound _ | insertOutbound _ | writeInbound _ | writeOutbound _ | pay _ => true

def Act.isArgError : Act → Bool
  | argError _ => true
  | _ => false

structure World where
  inbound : InboundPaymentInfoStorage
  outbound : OutboundPaymentInfoStorage
  log : List Act

/-- A line of input, with the events handled while it is awaited. -/
structure Input where
  events : List OutboundEvent
  result : ReadResult

/-- What `do_connect_peer` waits for: the connection closes, or the peer map is looked at. -/
inductive Round where
  | closed
  | tick (connected : Bool)
  deriving DecidableEq

/-- What the CLI reads of a node in the network graph. -/
structure NetworkNode where
  /-- Of an announcement: the DNS resolution and the onion message bit. -/
  features : Option (Bool × Bool)
  asPubkey : Option PublicKey

/-- What the calls of one command come back with. -/
structure Env where
  connected : PublicKey → Bool
  /-- `none` where there is no connection. -/
  connectOutbound : Option (List Round)
  /-- The counterparties of `list_channels`. -/
  counterparties : List PublicKey
  createChannelOk : Bool
  closeChannelOk : Bool
  /-- The hash and the secret of the invoice `create_bolt11_invoice` returns. -/
  bolt11Invoice : Option (PaymentHash × PaymentSecret)
  inboundWriteOk : Bool
  createOfferBuilderOk : Bool
  buildOfferOk : Bool
  secureRandomBytes : Bytes32
  /-- The lines that follow. -/
  stdin : List Input
  networkGraph : List NetworkNode
  /-- Handled between the insert and the encoding, and between the encoding and the write, where
  the guard is given up. -/
  beforeEncode : List OutboundEvent
  beforeWrite : List OutboundEvent
  /-- Handled while the write is awaited. -/
  duringWrite : List OutboundEvent
  outboundWriteOk : Bool
  payOk : Bool
  /-- Handled between the pay call and the record of its refusal. -/
  afterCall : List OutboundEvent
  refusalWriteOk : Bool

def act (a : Act) (f : World → World) : Crash World Unit :=
  Crash.modify fun w => { f w with log := w.log ++ [a] }

/-- An act that leaves the stores alone. -/
def note (a : Act) : Crash World Unit := act a id

def argError (e : ArgError) : Crash World Unit := note (.argError e)

/-- The event handler, at a point where the CLI waits. -/
def deliver (events : List OutboundEvent) : Crash World Unit :=
  Crash.forEach events fun event => do
    let w ← Crash.get
    let outbound ← Crash.unwrap (handleOutbound w.outbound event)
    Crash.modify fun w => { w with outbound }

/-! ## Peers and channels -/

def peerByNodeId (e : Env) (nodeId : PublicKey) : Crash World Bool := do
  note (.peerByNodeId nodeId (e.connected nodeId))
  pure (e.connected nodeId)

def awaitConnection (nodeId : PublicKey) : List Round → Crash World Bool
  | [] => Crash.abort
  | .closed :: _ => pure false
  | .tick connected :: rounds => do
    note (.peerByNodeId nodeId connected)
    if connected then pure true else awaitConnection nodeId rounds

def doConnectPeer (e : Env) (nodeId : PublicKey) (addr : SocketAddr) : Crash World Bool := do
  note (.connectOutbound nodeId addr)
  match e.connectOutbound with
  | some rounds => awaitConnection nodeId rounds
  | none => pure false

def connectPeerIfNecessary (e : Env) (nodeId : PublicKey) (addr : SocketAddr) : Crash World Bool := do
  if ← peerByNodeId e nodeId then pure true
  else do
    let ok ← doConnectPeer e nodeId addr
    if ok then pure true
    else do
      note (.print "ERROR: failed to connect to peer")
      pure false

def doDisconnectPeer (e : Env) (nodeId : PublicKey) : Crash World Bool := do
  if nodeId ∈ e.counterparties then do
    note (.print "Error: Node has an active channel with this peer, close any channels first")
    pure false
  else if ← peerByNodeId e nodeId then do
    note (.disconnectByNodeId nodeId)
    pure true
  else do
    note (.print "Error: Could not find peer")
    pure false

def openChannel (e : Env) (peer : PublicKey) (channelAmtSat : UInt64)
    (announceForForwarding withAnchors : Bool) : Crash World Unit := do
  note (.createChannel peer channelAmtSat announceForForwarding withAnchors)
  if e.createChannelOk then note (.print "EVENT: initiated channel with peer")
  else note (.print "ERROR: failed to open channel")

/-- The peer of `openchannel`, connected; `none` where the command goes no further. -/
def reachPeer (K : Crates) (e : Env) (peerPubkeyAndIpAddr : String) :
    Crash World (Option PublicKey) := do
  let parts := splitParts '@' peerPubkeyAndIpAddr.toList
  match toCompressedPubkey K.publicKeyFromSlice (String.ofList parts.1) with
  | none => do
    argError .nodePubkey
    pure none
  | some pubkey =>
    if parts.2 = [] then
      if ← peerByNodeId e pubkey then pure (some pubkey)
      else do
        argError .peerAddressMissing
        pure none
    else
      match parsePeerInfo K.publicKeyFromSlice K.toSocketAddrs peerPubkeyAndIpAddr with
      | .error err => do
        argError (.peerInfo err)
        pure none
      | .ok (dialPubkey, peerAddr) =>
        -- the dialled key stays in this block, the channel is opened with the first one
        if ← connectPeerIfNecessary e dialPubkey peerAddr then pure (some pubkey) else pure none

/-- The loop over the flags; its `continue` goes on with the next flag. -/
def readFlags : List String → Bool → Bool → Crash World (Bool × Bool)
  | [], announceChannel, withAnchors => pure (announceChannel, withAnchors)
  | word :: words, announceChannel, withAnchors =>
    match word with
    | "--public" | "--public=true" => readFlags words true withAnchors
    | "--public=false" => readFlags words false withAnchors
    | "--with-anchors" | "--with-anchors=true" => readFlags words announceChannel true
    | "--with-anchors=false" => readFlags words announceChannel false
    | _ => do
      argError .booleanFlag
      readFlags words announceChannel withAnchors

def openchannel (K : Crates) (e : Env) : List String → Crash World Unit
  | peerPubkeyAndIpAddr :: channelValueSat :: flags => do
    match ← reachPeer K e peerPubkeyAndIpAddr with
    | none => pure ()
    | some pubkey =>
      match parseU64 channelValueSat with
      | .error _ => argError .channelAmount
      | .ok chanAmtSat => do
        let (announceChannel, withAnchors) ← readFlags flags false false
        openChannel e pubkey chanAmtSat announceChannel withAnchors
  | _ => argError .openchannelArgs

def connectpeer (K : Crates) (e : Env) : List String → Crash World Unit
  | peerPubkeyAndIpAddr :: _ =>
    match parsePeerInfo K.publicKeyFromSlice K.toSocketAddrs peerPubkeyAndIpAddr with
    | .error err => argError (.peerInfo err)
    | .ok (pubkey, peerAddr) => do
      if ← connectPeerIfNecessary e pubkey peerAddr then note (.print "SUCCESS: connected to peer")
  | [] => argError .connectpeerArgs

def disconnectpeer (K : Crates) (e : Env) : List String → Crash World Unit
  | peerPubkey :: _ =>
    match K.publicKeyFromStr peerPubkey with
    | .error err => argError (.disconnectpeerPubkey err)
    | .ok pubkey => do
      if ← doDisconnectPeer e pubkey then note (.print "SUCCESS: disconnected from peer")
  | [] => argError .disconnectpeerArgs

/-- The two commands that close a channel differ in their messages and in the call. -/
def close (K : Crates) (e : Env) (command : CloseCommand) : List String → Crash World Unit
  | [] => argError (.channelIdMissing command)
  | channelIdStr :: words =>
    match hexToVec channelIdStr with
    | none => argError .channelId
    | some bytes =>
      if h : bytes.length = 32 then
        match words with
        | [] => argError (.peerPubkeyMissing command)
        | peerPubkeyStr :: _ =>
          match (hexToVec peerPubkeyStr).bind K.publicKeyFromSlice with
          | none => argError .peerPubkey
          | some peerPubkey => do
            note (.closeChannel command ⟨bytes.toArray, h⟩ peerPubkey)
            if e.closeChannelOk then note (.print ("EVENT: initiating channel " ++ command.verb))
            else note (.print ("ERROR: failed to " ++ command.verb ++ " channel"))
      else argError .channelId

def closechannel (K : Crates) (e : Env) : List String → Crash World Unit := close K e .closechannel

def forceclosechannel (K : Crates) (e : Env) : List String → Crash World Unit :=
  close K e .forceclosechannel

end Cli

end LdkSample
