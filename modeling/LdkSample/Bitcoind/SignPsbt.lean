import LdkSample.Bitcoind.Json
import LdkSample.Cli.Hex
import LdkSample.Cli.Poll

/-!
# Transactions in hexadecimal

`sign_psbt` (`bitcoind_client.rs`) sends a transaction to bitcoind as a hexadecimal text and reads
one back. What `hex_str` writes, in either letter case, `to_vec` reads as the same bytes, so the
transaction that comes back is the one that bitcoind has signed (`hex_read_back`).
-/

namespace LdkSample

namespace Bitcoind

open Cli (HexOf UpperSome hexStr hexToVec toCompressedPubkey)
open Node (PublicKey)

/-! ## Signing -/

variable {Tx : Type}

structure Psbt (Tx : Type) where
  unsignedTx : Tx

/-- `consensus_encode` and `consensus_decode` of a transaction. -/
structure Consensus (Tx : Type) where
  encode : Tx → Bytes
  decode : Bytes → Option Tx

structure SignedTx where
  complete : Bool
  hex : String

/-- `none` is a panic. -/
def signedTx (response : Json) : Option SignedTx := do
  let hex ← (response.index "hex").asStr
  let complete ← (response.index "complete").asBool
  pure { complete, hex }

/-- A method and its parameters; `none` is an error. -/
abbrev CallMethod := String → List Json → Option Json

/-- `none` is a panic. -/
def signRawTransactionWithWallet (callMethod : CallMethod) (txHex : String) : Option SignedTx := do
  let txHexJson := Json.string txHex
  let response ← callMethod "signrawtransactionwithwallet" [txHexJson]
  signedTx response

/-- `none` is a panic. -/
def signPsbt (callMethod : CallMethod) (C : Consensus Tx) (tx : Psbt Tx) :
    Option (Except Unit Tx) := do
  let txBytes := C.encode tx.unsignedTx
  let txHex := hexStr txBytes
  let signedTx ← signRawTransactionWithWallet callMethod txHex
  match hexToVec signedTx.hex with
  | none => pure (.error ())
  | some signedTxBytes =>
    match C.decode signedTxBytes with
    | none => pure (.error ())
    | some signed => pure (.ok signed)

/-! ## What bitcoind answers -/

/-- Of a text of `txBytes`, bitcoind makes a text of `signedTxBytes`. -/
def Signs (callMethod : CallMethod) (txBytes signedTxBytes : Bytes) : Prop :=
  ∀ txHex : String, HexOf txHex.toList txBytes → ∃ response hex complete,
    callMethod "signrawtransactionwithwallet" [.string txHex] = some response ∧
    response.index "hex" = .string hex ∧ response.index "complete" = .bool complete ∧
    HexOf hex.toList signedTxBytes

/-- The bytes are read back as they are written. -/
structure ReadsBack (v : Bytes) : Prop where
  plain : hexToVec (hexStr v) = some v
  upper : ∀ s, UpperSome (hexStr v) s → hexToVec s = some v
  pubkey : ∀ (fromSlice : Bytes → Option PublicKey) (key : PublicKey), v.length = 33 →
    fromSlice v = some key → toCompressedPubkey fromSlice (hexStr v) = some key

theorem readsBack (v : Bytes) : ReadsBack v where
  plain := Cli.hexToVec_of_hexOf (Cli.hexOf_hexStr v)
  upper _ h := Cli.hexToVec_of_hexOf h.hexOf
  pubkey fromSlice key hlen hkey := by
    have hof := Cli.hexOf_hexStr v
    rw [← String.ofList_toList (s := hexStr v), Cli.toCompressedPubkey_eq_some]
    refine ⟨?_, v, hof, hkey⟩
    rw [hof.length_eq, hlen]

theorem signedTx_eq {response : Json} {hex : String} {complete : Bool}
    (hhex : response.index "hex" = .string hex)
    (hcomplete : response.index "complete" = .bool complete) :
    signedTx response = some { complete, hex } := by
  unfold signedTx
  rw [hhex, hcomplete]
  rfl

theorem signPsbt_eq {callMethod : CallMethod} {C : Consensus Tx} {tx : Psbt Tx}
    {signedTxBytes : Bytes} (h : Signs callMethod (C.encode tx.unsignedTx) signedTxBytes) :
    signPsbt callMethod C tx = some ((C.decode signedTxBytes).elim (.error ()) .ok) := by
  obtain ⟨response, hex, complete, hcall, hhex, hcomplete, hof⟩ := h _ (Cli.hexOf_hexStr _)
  have hsigned : signRawTransactionWithWallet callMethod (hexStr (C.encode tx.unsignedTx)) =
      some { complete, hex } := by
    unfold signRawTransactionWithWallet
    dsimp only
    rw [hcall]
    exact signedTx_eq hhex hcomplete
  unfold signPsbt
  dsimp only
  rw [hsigned, Option.bind_eq_bind, Option.bind_some, Cli.hexToVec_of_hexOf hof]
  dsimp only
  cases C.decode signedTxBytes <;> rfl

/-- **Encoding is undone by decoding**, in either letter case and for keys, and so a transaction
that is sent to bitcoind comes back as bitcoind has signed it. -/
theorem hex_read_back : (∀ v, ReadsBack v) ∧
    ∀ {Tx : Type} (callMethod : CallMethod) (C : Consensus Tx) (tx : Psbt Tx) (signedTxBytes : Bytes),
      Signs callMethod (C.encode tx.unsignedTx) signedTxBytes →
      signPsbt callMethod C tx = some ((C.decode signedTxBytes).elim (.error ()) .ok) :=
  ⟨readsBack, fun _ _ _ _ h => signPsbt_eq h⟩

section Examples

/-- One input, of a coin that is not the wallet's, and one output. -/
def foreignTx : Bytes :=
  [2, 0, 0, 0, 1] ++ List.replicate 32 0x11 ++ [0, 0, 0, 0, 0, 0xfd, 0xff, 0xff, 0xff, 1, 0x10, 0x27] ++
    List.replicate 11 0

/-- A transaction is its bytes. -/
def rawBytes : Consensus Bytes := ⟨id, some⟩

/-- A wallet that has nothing to sign gives the text back. -/
def unsigned : CallMethod
  | _, [.string txHex] => some (.object [("hex", .string txHex), ("complete", .bool false)])
  | _, _ => none

end Examples

theorem hex_read_back_foreignTx : hexToVec "0aFf" = some [0x0a, 0xff] ∧
    toCompressedPubkey Cli.sampleCrates.publicKeyFromSlice (hexStr Cli.samplePeer.bytes.toList) =
      some Cli.samplePeer ∧
    signPsbt unsigned rawBytes ⟨foreignTx⟩ = some (.ok foreignTx) := by
  obtain ⟨hbytes, hsigned⟩ := hex_read_back
  refine ⟨(hbytes [0x0a, 0xff]).upper "0aFf" ?_,
    (hbytes _).pubkey _ _ Vector.length_toList (by decide),
    hsigned unsigned rawBytes ⟨foreignTx⟩ foreignTx fun txHex hof => ?_⟩
  · unfold UpperSome
    decide
  · exact ⟨_, txHex, false, rfl, rfl, rfl, hof⟩

end Bitcoind

end LdkSample
