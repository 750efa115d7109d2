import LdkSample.Cli.Command

/-!
# Payments and the command loop

The rest of `poll_for_user_input`: invoices, offers, the four ways to send a payment and the
dispatch on the first word of a line. A send command that has passed its checks is `send`, which
differs between the four ways in its `SendCmd` and its pay call only.
-/

namespace LdkSample

namespace Cli

open Node (PublicKey)
open Outbound (Bolt11Invoice SendCmd sendPaymentAmt insertEntry markFailed)

/-- Whether the loop reads a next command. -/
inductive Next where
  | readCommand
  | quit
  deriving DecidableEq, Repr

/-! ## Invoices and offers -/

/-- The insert is left out where `create_bolt11_invoice` fails. -/
def getInvoice (e : Env) (amtMsat : UInt64) : Crash World Unit :=
  match e.bolt11Invoice with
  | some (hash, secret) => do
    note (.print "SUCCESS: generated invoice")
    act (.insertInbound hash) fun w =>
      { w with inbound := Inbound.getInvoice w.inbound (some ⟨hash, secret, amtMsat⟩) }
  | none => note (.print "ERROR: failed to create invoice")

def getinvoice (e : Env) : List String → Crash World Unit
  | [] => argError .getinvoiceAmountMissing
  | amtStr :: words =>
    match parseU64 amtStr with
    | .error _ => argError .getinvoiceAmount
    | .ok amtMsat =>
      match words with
      | [] => argError .getinvoiceExpiryMissing
      | expirySecsStr :: _ =>
        match parseU32 expirySecsStr with
        | .error _ => argError .getinvoiceExpiry
        | .ok _ => do
          getInvoice e amtMsat
          let w ← Crash.get
          note (.writeInbound w.inbound.encode)
          Crash.unwrap (if e.inboundWriteOk then some () else none)

def getoffer (e : Env) (words : List String) : Crash World Unit :=
  if !e.createOfferBuilderOk then note (.print "ERROR: Failed to initiate offer building")
  else
    match words.head?.map parseU64 with
    | some (.error _) => argError .getofferAmount
    | _ => note (.print (if e.buildOfferOk then "offer" else "ERROR: Failed to build offer"))

/-! ## Sending -/

/-- The call of `write`, under the guard of the insert or after it was given up. -/
def writeOutbound (e : Env) (guarded : Bool) : Crash World Unit :=
  if guarded then do
    let w ← Crash.get
    note (.writeOutbound w.outbound.encode)
  else do
    deliver e.beforeEncode
    let w ← Crash.get
    deliver e.beforeWrite
    note (.writeOutbound w.outbound.encode)

/-- What follows a refused call on the guarded paths. -/
def recordRefusal (e : Env) (id : PaymentId) : Crash World Unit := do
  deliver e.afterCall
  let w ← Crash.get
  let outbound ← Crash.unwrap (markFailed w.outbound id)
  act (.writeOutbound outbound.encode) fun w => { w with outbound }
  Crash.unwrap (if e.refusalWriteOk then some () else none)

/-- The record, its write and the pay call. -/
def send (e : Env) (cmd : SendCmd) (id : PaymentId) (info : PaymentInfo) (call : PayCall) :
    Crash World Unit := do
  act (.insertOutbound id) fun w => { w with outbound := insertEntry w.outbound id info }
  writeOutbound e cmd.path.guarded
  deliver e.duringWrite
  Crash.unwrap (if e.outboundWriteOk then some () else none)
  note (.pay call)
  if e.payOk then
    note (.print (if cmd.path.guarded then "EVENT: initiated sending" else "Payment in flight"))
  else if cmd.path.guarded then do
    note (.print "ERROR: failed to send payment")
    recordRefusal e id
  else note (.print "ERROR: Failed to pay")

/-- The answer to the prompt; `none` where the input ends or fails. -/
def confirm (amtMsat : UInt64) : List Input → Crash World (Option Bool)
  | [] => do
    note (.prompt amtMsat)
    Crash.abort
  | input :: stdin => do
    note (.prompt amtMsat)
    deliver input.events
    note (.nextLine input.result)
    match input.result with
    | .error text => do
      note (.print ("ERROR: " ++ text))
      pure none
    | .eof => do
      note (.print "ERROR: End of stdin")
      pure none
    | .line line =>
      if line.toList.head? = some 'Y' then pure (some true)
      else if line.toList.head? = some 'N' then pure (some false)
      else confirm amtMsat stdin

/-- The amount of an offer payment, or the `{:?}` of the amount that is not in bitcoin. -/
def offerAmt (amount : Option OfferAmount) (userProvidedAmt : Option UInt64) :
    Except String UInt64 :=
  match amount, userProvidedAmt with
  | some (.bitcoin amountMsats), _ => .ok amountMsats
  | _, some amt => .ok amt
  | none, none => .error "None"
  | some (.currency debug), none => .error ("Some(" ++ debug ++ ")")

def payForOffer (e : Env) (offer : Offer) (userProvidedAmt : Option UInt64) : Crash World Next :=
  let paymentId : PaymentId := ⟨e.secureRandomBytes⟩
  match offerAmt offer.amount userProvidedAmt with
  | .error debug => do
    argError (.offerAmount debug)
    pure .readCommand
  | .ok amtMsat =>
    let pay := do
      send e (.offer paymentId amtMsat) paymentId (SendCmd.pendingInfo none amtMsat)
        (.offer offer (some amtMsat) paymentId)
      pure .readCommand
    match userProvidedAmt with
    | some amt =>
      if amt = amtMsat then pay
      else do
        note (.print ("Amount didn't match offer of " ++ toString amtMsat.toNat ++ "msat"))
        pure .readCommand
    | none => do
      match ← confirm amtMsat e.stdin with
      | some true => pay
      | some false => pure .readCommand
      | none => pure .quit

/-- The loop over the nodes of the network graph. -/
def dnsResolvers (resolvers : List PublicKey) : List NetworkNode → List PublicKey
  | [] => resolvers
  | node :: nodes =>
    let resolvers :=
      match node.features, node.asPubkey with
      | some (true, true), some pubkey => resolvers ++ [pubkey]
      | _, _ => resolvers
    if resolvers.length > 5 then resolvers else dnsResolvers resolvers nodes

def payForHumanReadableName (e : Env) (hrn : HumanReadableName) (userProvidedAmt : Option UInt64) :
    Crash World Unit :=
  let paymentId : PaymentId := ⟨e.secureRandomBytes⟩
  match userProvidedAmt with
  | none => note (.print "Can't pay to a human-readable-name without an amount")
  | some amtMsat =>
    let resolvers := dnsResolvers [] e.networkGraph
    if resolvers = [] then
      note (.print "Failed to find any DNS resolving nodes, check your network graph is synced")
    else
      send e (.humanReadableName paymentId amtMsat) paymentId (SendCmd.pendingInfo none amtMsat)
        (.humanReadableName hrn amtMsat paymentId resolvers)

def sendPayment (e : Env) (invoice : Bolt11Invoice) (requiredAmountMsat : Option UInt64) :
    Crash World Unit :=
  let cmd := SendCmd.bolt11 invoice requiredAmountMsat
  match cmd.entry with
  | some (paymentId, info) =>
    send e cmd paymentId info (.bolt11 invoice paymentId requiredAmountMsat)
  | none =>
    match invoice.amountMilliSatoshis with
    | some invAmt =>
      note (.print ("Amount didn't match invoice value of " ++ toString invAmt.toNat ++ "msat"))
    | none => note (.print "Need an amount to pay an amountless invoice")

/-- The typed amount. -/
def userProvidedAmt : List String → Except IntErrorKind (Option UInt64)
  | [] => .ok none
  | amtMsatStr :: _ => (parseU64 amtMsatStr).map some

def sendpayment (K : Crates) (e : Env) : List String → Crash World Next
  | [] => do
    argError .sendpaymentArgs
    pure .readCommand
  | invoiceStr :: words =>
    match userProvidedAmt words with
    | .error kind => do
      argError (.amountMsat kind)
      pure .readCommand
    | .ok amt =>
      match K.offerFromStr invoiceStr with
      | some offer => payForOffer e offer amt
      | none =>
        match K.humanReadableNameFromEncoded invoiceStr with
        | some hrn => do
          payForHumanReadableName e hrn amt
          pure .readCommand
        | none =>
          match K.bolt11InvoiceFromStr invoiceStr with
          | .ok invoice => do
            sendPayment e invoice amt
            pure .readCommand
          | .error debug => do
            argError (.invoice debug)
            pure .readCommand

def keysend (K : Crates) (e : Env) : List String → Crash World Unit
  | [] => argError .keysendPubkeyMissing
  | dest :: words =>
    match toCompressedPubkey K.publicKeyFromSlice dest with
    | none => argError .destinationPubkey
    | some destPubkey =>
      match words with
      | [] => argError .keysendAmountMissing
      | amtMsatStr :: _ =>
        match parseU64 amtMsatStr with
        | .error kind => argError (.amountMsat kind)
        | .ok amtMsat =>
          let preimage : PaymentPreimage := ⟨e.secureRandomBytes⟩
          let paymentId : PaymentId := ⟨K.sha256 e.secureRandomBytes⟩
          send e (.keysend paymentId amtMsat) paymentId (SendCmd.pendingInfo none amtMsat)
            (.spontaneous preimage paymentId destPubkey amtMsat)

/-! ## Dispatch -/

def signmessage (line : String) : Crash World Unit :=
  if (trim line).utf8ByteSize ≤ "signmessage".utf8ByteSize + 1 then argError .signmessageArgs
  else note (.print "signature")

/-- One line of `poll_for_user_input`. The texts that the listing commands print are left out. -/
def handleLine (K : Crates) (e : Env) (line : String) : Crash World Next :=
  let unit (m : Crash World Unit) : Crash World Next := do
    m
    pure .readCommand
  match splitWhitespace line with
  | [] => pure .readCommand
  | word :: words =>
    match word with
    | "openchannel" => unit (openchannel K e words)
    | "sendpayment" => sendpayment K e words
    | "keysend" => unit (keysend K e words)
    | "getoffer" => unit (getoffer e words)
    | "getinvoice" => unit (getinvoice e words)
    | "connectpeer" => unit (connectpeer K e words)
    | "disconnectpeer" => unit (disconnectpeer K e words)
    | "closechannel" => unit (closechannel K e words)
    | "forceclosechannel" => unit (forceclosechannel K e words)
    | "signmessage" => unit (signmessage line)
    | "help" | "listchannels" | "listpayments" | "nodeinfo" | "listpeers" => pure .readCommand
    | "quit" | "exit" => pure .quit
    | _ => unit (note (.print "Unknown command. See `\"help\" for available commands."))

/-- One turn of the loop: the line that is read, and what its command comes back with. -/
structure Turn where
  input : Input
  env : Env

def pollForUserInput (K : Crates) : List Turn → Crash World Unit
  | [] => Crash.abort
  | turn :: turns => do
    deliver turn.input.events
    note (.nextLine turn.input.result)
    match turn.input.result with
    | .error text => note (.print ("ERROR: " ++ text))
    | .eof => note (.print "ERROR: End of stdin")
    | .line line => do
      match ← handleLine K turn.env line with
      | .readCommand => pollForUserInput K turns
      | .quit => pure ()

section Examples

/-- Keys by their first byte, one address, and one offer, of ten satoshis. -/
def sampleCrates : Crates where
  publicKeyFromSlice bytes :=
    if h : bytes.length = 33 then
      if bytes.head? = some 2 ∨ bytes.head? = some 3 then some ⟨⟨bytes.toArray, h⟩⟩ else none
    else none
  publicKeyFromStr _ := .error "malformed public key"
  toSocketAddrs s :=
    if s = "127.0.0.1:9735" then some [Node.localhost] else none
  offerFromStr s :=
    if s = "lno1pqpzwyq2p32x2um5ypmx2cm5dae8x93pqthvwfzadd7jejes8q9lhc4rvjxd022zv5l44g6qah82ru5rdpnpj"
    then some ⟨some (.bitcoin 10000)⟩ else none
  humanReadableNameFromEncoded _ := none
  bolt11InvoiceFromStr _ := .error "ParseError"
  sha256 := id

/-- No peer is connected, and a dialled one turns up at the second look. -/
def sampleEnv : Env where
  connected _ := false
  connectOutbound := some [.tick false, .tick true]
  counterparties := []
  createChannelOk := true
  closeChannelOk := true
  bolt11Invoice := none
  inboundWriteOk := true
  createOfferBuilderOk := true
  buildOfferOk := true
  secureRandomBytes := Vector.replicate 32 7
  stdin := [⟨[], .line "10 sats?"⟩, ⟨[], .line "Yes"⟩]
  networkGraph := []
  beforeEncode := []
  beforeWrite := []
  duringWrite := []
  outboundWriteOk := true
  payOk := true
  afterCall := []
  refusalWriteOk := true

def samplePeer : PublicKey where
  bytes := ⟨#[0x02, 0x79, 0xbe, 0x66, 0x7e, 0xf9, 0xdc, 0xbb, 0xac, 0x55, 0xa0, 0x62, 0x95, 0xce, 0x87, 0x0b, 0x07,
    0x02, 0x9b, 0xfc, 0xdb, 0x2d, 0xce, 0x28, 0xd9, 0x59, 0xf2, 0x81, 0x5b, 0x16, 0xf8, 0x17, 0x98], rfl⟩

def noPayments : World := ⟨⟨∅⟩, ⟨∅⟩, []⟩

end Examples

end Cli

end LdkSample
