import LdkSample.Args.Parse
import LdkSample.Bitcoind.Amounts
import LdkSample.Bitcoind.FeeOrder
import LdkSample.Bitcoind.SignPsbt
import LdkSample.Bitcoind.Unspent

/-!
# Funding a channel

What `handle_ldk_events` (`main.rs`) does on `FundingGenerationReady`, with the calls of bitcoind it
makes (`bitcoind_client.rs`): a transaction with one output is created, funded and signed, and given
to LDK. What is given pays the channel exactly, through amounts that are doubles on the way
(`funding_exact`), and at every moment of the poller's life the fee rate asked for is a whole number
of thousandths of a satoshi that bitcoind takes (`fee_rate_asked`).
-/

namespace LdkSample

namespace Bitcoind

open Args (Network)
open Cli (HexOf hexStr hexToVec)
open Node (PublicKey)
open Numeric (Decimal Shortest)

/-! ## The calls -/

/-- `Value::as_i64`. -/
def Json.asI64 : Json → Option Int64
  | .number (.posInt n) => if n.toNat < 2 ^ 63 then some n.toInt64 else none
  | .number (.negInt n) => some n
  | _ => none

/-- `RawTx`; `none` is a panic. -/
def rawTx (response : Json) : Option String := response.asStr

structure FundedTx where
  changepos : Int64
  hex : String

/-- `none` is a panic. -/
def fundedTx (response : Json) : Option FundedTx := do
  let changepos ← (response.index "changepos").asI64
  let hex ← (response.index "hex").asStr
  pure { changepos, hex }

/-- `none` is a panic. -/
def createRawTransaction (callMethod : CallMethod) (outputs : List (List (String × ℚ))) :
    Option String := do
  let outputsJson := Json.array (outputs.map fun output =>
    .object (output.map fun (addr, amount) => (addr, .number (.float amount))))
  let response ← callMethod "createrawtransaction" [.array [], outputsJson]
  rawTx response

/-- `none` is a panic. -/
def fundRawTransaction (callMethod : CallMethod) (fees : FeeTable) (rawTx : String) :
    Option FundedTx := do
  let satPer1000Weight ← getEstSatPer1000Weight fees .nonAnchorChannelFee
  let options := Json.object
    [("fee_rate", .number (.float (feeRate satPer1000Weight))), ("replaceable", .bool false)]
  let response ← callMethod "fundrawtransaction" [.string rawTx, options]
  fundedTx response

/-! ## The event -/

/-- `bitcoin_bech32::constants::Network`. -/
inductive Bech32Network where
  | bitcoin
  | testnet
  | signet
  | regtest
  deriving DecidableEq, Repr

def bech32Network : Network → Bech32Network
  | .bitcoin => .bitcoin
  | .regtest => .regtest
  | .signet => .signet
  | .testnet => .testnet

/-- `WitnessProgram::from_scriptpubkey` of `bitcoin_bech32`, and `to_address` of what it returns. -/
abbrev ToAddress := Bytes → Bech32Network → Option String

structure FundingGenerationReady where
  temporaryChannelId : Vector UInt8 32
  counterpartyNodeId : PublicKey
  channelValueSatoshis : UInt64
  outputScript : Bytes

/-- The arguments of `funding_transaction_generated`. -/
structure FundingCall (Tx : Type) where
  temporaryChannelId : Vector UInt8 32
  counterpartyNodeId : PublicKey
  finalTx : Tx

variable {Tx : Type}

/-- What LDK is given; `none` is a panic. -/
def handleFundingGenerationReady (callMethod : CallMethod) (C : Consensus Tx) (toAddress : ToAddress)
    (fees : FeeTable) (network : Network) (event : FundingGenerationReady) :
    Option (FundingCall Tx) := do
  let addr ← toAddress event.outputScript (bech32Network network)
  let rawTx ← createRawTransaction callMethod [[(addr, channelAmount event.channelValueSatoshis)]]
  let fundedTx ← fundRawTransaction callMethod fees rawTx
  let signedTx ← signRawTransactionWithWallet callMethod fundedTx.hex
  if signedTx.complete then
    let finalTx ← C.decode (← hexToVec signedTx.hex)
    pure {
      temporaryChannelId := event.temporaryChannelId
      counterpartyNodeId := event.counterpartyNodeId
      finalTx }
  else none

/-! ## What bitcoind does -/

/-- What the transactions of bitcoind are to the node. -/
structure TxModel (Tx : Type) where
  consensus : Consensus Tx
  outputs : Tx → List TxOut
  /-- Every input is signed. -/
  signed : Tx → Prop

/-- The text is that of the transaction. -/
def TxModel.Text (M : TxModel Tx) (hex : String) (tx : Tx) : Prop :=
  HexOf hex.toList (M.consensus.encode tx)

/-- bitcoind as documented, for the scripts whose addresses it knows: a number is read as the decimal
that is printed of it, and where it answers at all it answers like this. -/
structure Funds (callMethod : CallMethod) (M : TxModel Tx) (address : Bytes → Option String)
    (changeScript : Bytes → Prop) : Prop where
  create : ∀ script addr amount (d : Decimal) (sat : UInt64) response, address script = some addr →
    Shortest f64.fl amount d → d.value = sat.toNat / 100000000 →
    callMethod "createrawtransaction"
      [.array [], .array [.object [(addr, .number (.float amount))]]] = some response →
    ∃ hex tx, response = .string hex ∧ M.Text hex tx ∧ M.outputs tx = [⟨sat, script⟩]
  fund : ∀ hex tx options response, M.Text hex tx →
    callMethod "fundrawtransaction" [.string hex, options] = some response →
    ∃ hex' tx' change, response.index "hex" = .string hex' ∧ M.Text hex' tx' ∧
      (M.outputs tx').Perm (Option.toList change ++ M.outputs tx) ∧
      ∀ c ∈ change, changeScript (TxOut.scriptPubkey c)
  sign : ∀ hex tx response, M.Text hex tx →
    callMethod "signrawtransactionwithwallet" [.string hex] = some response →
    ∃ hex' tx' complete, response.index "hex" = .string hex' ∧
      response.index "complete" = .bool complete ∧ M.Text hex' tx' ∧
      M.outputs tx' = M.outputs tx ∧ (complete = true → M.signed tx')
  /-- A transaction is read back as it is written. -/
  read : ∀ tx, M.consensus.decode (M.consensus.encode tx) = some tx

/-! ## What LDK is given -/

variable {callMethod : CallMethod} {M : TxModel Tx} {address : Bytes → Option String}
  {changeScript : Bytes → Prop}

theorem createRawTransaction_text (hb : Funds callMethod M address changeScript) {script : Bytes}
    {addr hex : String} {v : UInt64} (haddr : address script = some addr)
    (hv : v ≤ 2100000000000000)
    (h : createRawTransaction callMethod [[(addr, channelAmount v)]] = some hex) :
    ∃ tx, M.Text hex tx ∧ M.outputs tx = [⟨v, script⟩] := by
  obtain ⟨response, hcall, hraw⟩ := Option.bind_eq_some_iff.mp h
  have hv' : v.toNat ≤ 2100000000000000 := UInt64.le_iff_toNat_le.mp hv
  -- the amount is printed as some shortest decimal, and that one is exact
  obtain ⟨d, hd⟩ : ∃ d, Shortest f64.fl (channelAmount v) d := by
    rw [channelAmount_eq (by omega)]
    exact Numeric.exists_shortest ⟨v.toNat, -8⟩
  obtain ⟨hex', tx, hresponse, htext, hout⟩ :=
    hb.create script addr _ d v response haddr hd (channelAmount_printed hv hd) hcall
  rw [hresponse] at hraw
  cases hraw
  exact ⟨tx, htext, hout⟩

theorem fundRawTransaction_text (hb : Funds callMethod M address changeScript) {fees : FeeTable}
    {hex : String} {tx : Tx} {funded : FundedTx} (htext : M.Text hex tx)
    (h : fundRawTransaction callMethod fees hex = some funded) :
    ∃ tx' change, M.Text funded.hex tx' ∧ (M.outputs tx').Perm (Option.toList change ++ M.outputs tx) ∧
      ∀ c ∈ change, changeScript (TxOut.scriptPubkey c) := by
  obtain ⟨rate, -, h⟩ := Option.bind_eq_some_iff.mp h
  obtain ⟨response, hcall, h⟩ := Option.bind_eq_some_iff.mp h
  obtain ⟨hex', tx', change, hhex, htext', hperm, hchange⟩ := hb.fund hex tx _ response htext hcall
  obtain ⟨changepos, -, h⟩ := Option.bind_eq_some_iff.mp h
  obtain ⟨hex'', hstr, h⟩ := Option.bind_eq_some_iff.mp h
  rw [hhex] at hstr
  cases hstr
  cases h
  exact ⟨tx', change, htext', hperm, hchange⟩

theorem signRawTransaction_text (hb : Funds callMethod M address changeScript) {hex : String}
    {tx : Tx} {signed : SignedTx} (htext : M.Text hex tx)
    (h : signRawTransactionWithWallet callMethod hex = some signed) :
    ∃ tx', M.Text signed.hex tx' ∧ M.outputs tx' = M.outputs tx ∧
      (signed.complete = true → M.signed tx') := by
  obtain ⟨response, hcall, h⟩ := Option.bind_eq_some_iff.mp h
  obtain ⟨hex', tx', complete, hhex, hcomplete, htext', hout, hsigned⟩ :=
    hb.sign hex tx response htext hcall
  rw [signedTx_eq hhex hcomplete] at h
  cases h
  exact ⟨tx', htext', hout, hsigned⟩

/-- **A channel is funded exactly**: where the handler does not panic, LDK is given a signed
transaction with one output of the channel's value and script, under the ids of the event. -/
theorem funding_exact (M : TxModel Tx) (toAddress : ToAddress) (fees : FeeTable) (network : Network)
    (event : FundingGenerationReady) (call : FundingCall Tx)
    (hb : Funds callMethod M (fun script => toAddress script (bech32Network network)) changeScript)
    (hv : event.channelValueSatoshis ≤ 2100000000000000) (hscript : ¬ changeScript event.outputScript)
    (h : handleFundingGenerationReady callMethod M.consensus toAddress fees network event =
      some call) :
    call.temporaryChannelId = event.temporaryChannelId ∧
    call.counterpartyNodeId = event.counterpartyNodeId ∧ M.signed call.finalTx ∧
    (M.outputs call.finalTx).filter (fun o => o.scriptPubkey = event.outputScript) =
      [⟨event.channelValueSatoshis, event.outputScript⟩] ∧
    (M.outputs call.finalTx).length ≤ 2 := by
  obtain ⟨addr, haddr, h⟩ := Option.bind_eq_some_iff.mp h
  obtain ⟨rawTx, hraw, h⟩ := Option.bind_eq_some_iff.mp h
  obtain ⟨funded, hfunded, h⟩ := Option.bind_eq_some_iff.mp h
  obtain ⟨signedTx, hsigned, h⟩ := Option.bind_eq_some_iff.mp h
  obtain ⟨tx₁, htext₁, hout₁⟩ := createRawTransaction_text hb haddr hv hraw
  obtain ⟨tx₂, change, htext₂, hperm, hchange⟩ := fundRawTransaction_text hb htext₁ hfunded
  obtain ⟨tx₃, htext₃, hout₃, hcomplete⟩ := signRawTransaction_text hb htext₂ hsigned
  split at h
  · next hc =>
    obtain ⟨bytes, hbytes, h⟩ := Option.bind_eq_some_iff.mp h
    obtain ⟨finalTx, hfinal, h⟩ := Option.bind_eq_some_iff.mp h
    cases h
    rw [Cli.hexToVec_of_hexOf htext₃] at hbytes
    cases hbytes
    rw [hb.read] at hfinal
    cases hfinal
    rw [← hout₃, hout₁] at hperm
    refine ⟨rfl, rfl, hcomplete hc, ?_, ?_⟩
    · refine List.perm_singleton.mp ((hperm.filter _).trans (List.Perm.of_eq ?_))
      cases change with
      | none => simp
      | some c =>
        have hne : c.scriptPubkey ≠ event.outputScript := fun heq => hscript (heq ▸ hchange c rfl)
        simp [hne]
    · rw [hperm.length_eq]
      cases change with
      | none => simp
      | some c => simp
  · cases h

section Examples

def channelScript : Bytes := [0, 32] ++ List.replicate 32 7

def changeOut : TxOut := ⟨5000, [0, 20] ++ List.replicate 20 9⟩

/-- A transaction is a list of marks: 1 is the channel's output, 2 a change output, 3 the signatures. -/
def marks : TxModel Bytes where
  consensus := rawBytes
  outputs tx := (if tx.head? = some 1 then [⟨100000000, channelScript⟩] else []) ++
    List.replicate (tx.count 2) changeOut
  signed tx := 3 ∈ tx

def markAddress (script : Bytes) (_ : Bech32Network) : Option String :=
  if script = channelScript then some "bcrt1" else none

/-- A wallet that pays one bitcoin, takes change and signs. -/
def markWallet : CallMethod
  | "createrawtransaction", [_, .array [.object [(_, .number (.float amount))]]] =>
    if amount = 1 then some (.string (hexStr [1])) else none
  | "fundrawtransaction", [.string hex, _] =>
    (hexToVec hex).map fun tx => .object
      [("changepos", .number (.posInt 1)), ("hex", .string (hexStr (tx ++ [2])))]
  | "signrawtransactionwithwallet", [.string hex] =>
    (hexToVec hex).map fun tx => .object
      [("complete", .bool true), ("hex", .string (hexStr (tx ++ [3])))]
  | _, _ => none

theorem marks_text {hex : String} {tx : Bytes} (h : marks.Text hex tx) : hexToVec hex = some tx :=
  Cli.hexToVec_of_hexOf h

theorem text_marks (tx : Bytes) : marks.Text (hexStr tx) tx := Cli.hexOf_hexStr tx

theorem outputs_append (tx : Bytes) (b : UInt8) (hb : b ≠ 1) : marks.outputs (tx ++ [b]) =
    (if tx.head? = some 1 then [⟨100000000, channelScript⟩] else []) ++
      List.replicate ((tx ++ [b]).count 2) changeOut := by
  show (if (tx ++ [b]).head? = some 1 then _ else _) ++ _ = _
  cases tx with
  | nil => simp [hb]
  | cons a tx => rfl

theorem channelAmount_one : channelAmount 100000000 = 1 := by
  rw [channelAmount_eq (by decide), ten_zpow_neg_eight]
  exact (congrArg f64.fl (by decide +kernel)).trans (f64.fix ⟨1, 0, by norm_num, by norm_num⟩)

theorem markWallet_funds : Funds markWallet marks (fun script => markAddress script .regtest)
    (· = changeOut.scriptPubkey) where
  create script addr amount d sat response haddr hd hval hcall := by
    have hscript : script = channelScript := by
      by_contra hne
      rw [show markAddress script .regtest = none from if_neg hne] at haddr
      cases haddr
    obtain ⟨hamount, hresponse⟩ := Option.ite_none_right_eq_some.mp hcall
    -- the decimal printed of one bitcoin is exact
    rw [hamount, ← channelAmount_one] at hd
    have hexact := channelAmount_printed (by decide) hd
    have hsat : sat = 100000000 := by
      rw [hval, div_left_inj' (by norm_num)] at hexact
      exact UInt64.toNat_inj.mp (by exact_mod_cast hexact)
    cases hresponse
    exact ⟨_, [1], rfl, text_marks [1], by rw [hsat, hscript]; rfl⟩
  fund hex tx options response htext hcall := by
    have hanswer : markWallet "fundrawtransaction" [.string hex, options] = some (.object
        [("changepos", .number (.posInt 1)), ("hex", .string (hexStr (tx ++ [2])))]) := by
      show (hexToVec hex).map _ = _
      rw [marks_text htext]
      rfl
    rw [hanswer] at hcall
    cases hcall
    refine ⟨_, tx ++ [2], some changeOut, rfl, text_marks _, ?_, fun c hc => ?_⟩
    · rw [outputs_append tx 2 (by decide), List.count_append, List.count_singleton_self,
        List.replicate_succ]
      exact List.perm_middle
    · cases hc
      rfl
  sign hex tx response htext hcall := by
    have hanswer : markWallet "signrawtransactionwithwallet" [.string hex] = some (.object
        [("complete", .bool true), ("hex", .string (hexStr (tx ++ [3])))]) := by
      show (hexToVec hex).map _ = _
      rw [marks_text htext]
      rfl
    rw [hanswer] at hcall
    cases hcall
    refine ⟨_, tx ++ [3], true, rfl, rfl, text_marks _, ?_, fun _ => ?_⟩
    · rw [outputs_append tx 3 (by decide), List.count_append]
      rfl
    · exact List.mem_append_right _ List.mem_cons_self
  read _ := rfl

def oneBitcoin : FundingGenerationReady where
  temporaryChannelId := Vector.replicate 32 1
  counterpartyNodeId := Cli.samplePeer
  channelValueSatoshis := 100000000
  outputScript := channelScript

end Examples

/-- One bitcoin on a test network, with change. -/
theorem funding_exact_run : ∃ call,
    handleFundingGenerationReady markWallet marks.consensus markAddress initialFees .regtest
      oneBitcoin = some call ∧
    (marks.outputs call.finalTx).filter (fun o => o.scriptPubkey = channelScript) =
      [⟨100000000, channelScript⟩] := by
  have hcreate : createRawTransaction markWallet
      [[("bcrt1", channelAmount oneBitcoin.channelValueSatoshis)]] = some (hexStr [1]) := by
    rw [show channelAmount oneBitcoin.channelValueSatoshis = 1 from channelAmount_one]
    rfl
  have h : handleFundingGenerationReady markWallet marks.consensus markAddress initialFees .regtest
      oneBitcoin = some ⟨Vector.replicate 32 1, Cli.samplePeer, [1, 2, 3]⟩ := by
    show (createRawTransaction markWallet
      [[("bcrt1", channelAmount oneBitcoin.channelValueSatoshis)]]).bind _ = _
    rw [hcreate]
    rfl
  exact ⟨_, h, (funding_exact marks markAddress initialFees .regtest oneBitcoin _ markWallet_funds
    (by decide) (by decide) h).2.2.2.1⟩

/-! ## The fee rate -/

/-- **The fee rate asked for** is printed with three places, and pays at least the least rate that is
relayed, whenever in the life of the poller it is read. -/
theorem fee_rate_asked (rounds : List Answers) (fees : FeeTable)
    (hl : Crash.Leaves (pollForFeeEstimates rounds) initialFees fees) :
    ∃ rate, getEstSatPer1000Weight fees .nonAnchorChannelFee = some rate ∧
      ∀ d, Shortest f64.fl (feeRate rate) d →
        d.value * 1000 = (4 * rate.toNat : ℕ) ∧ 1012 / 1000 ≤ d.value := by
  obtain ⟨rate, hrate, hle⟩ := (poll_bounded rounds).leaves initialFees_bounded hl .nonAnchorChannelFee
  refine ⟨rate, hrate, fun d hd => ?_⟩
  have hmin : (253 : ℚ) ≤ rate.toNat := by exact_mod_cast UInt32.le_iff_toNat_le.mp hle
  rw [feeRate_printed rate hd]
  push_cast
  constructor
  · ring
  · linarith

/-- After a round at 6000 satoshis for a thousand virtual bytes. -/
theorem fee_rate_asked_steady : ∃ fees,
    Crash.Leaves (pollForFeeEstimates [steadyAnswers]) initialFees fees ∧
      ∀ d, Shortest f64.fl (feeRate 1500) d → d.value * 1000 = (6000 : ℕ) := by
  have hgood : steadyAnswers.Good := ⟨by decide, rfl, rfl, rfl, rfl⟩
  obtain ⟨fees, hfees, -⟩ := pollRound_returns hgood initialFees_bounded
  have hleaves : Crash.Leaves (pollForFeeEstimates [steadyAnswers]) initialFees fees :=
    .inr (.inr ⟨(), (Crash.exec_bind_some hfees).trans rfl⟩)
  obtain ⟨rate, hrate, hasked⟩ := fee_rate_asked [steadyAnswers] fees hleaves
  have hnormal : steadyAnswers.value .nonAnchorChannelFee = 1500 := by decide +kernel
  have heq : rate = 1500 := by
    have hstored := pollRound_stores hfees .nonAnchorChannelFee
    rw [hrate, hnormal] at hstored
    exact Option.some_inj.mp hstored
  subst heq
  exact ⟨fees, hleaves, fun d hd => (hasked d hd).1⟩

end Bitcoind

end LdkSample
