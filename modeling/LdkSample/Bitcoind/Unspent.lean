import LdkSample.Bitcoind.Json
import LdkSample.Wire

/-!
# The coins for fee bumping

`list_confirmed_utxos` (`bitcoind_client.rs`) over what bitcoind answers to `listunspent`
(`convert.rs`). The decoder unwraps the address of every entry, so the listing is complete exactly
where every entry of the answer has one (`listed_iff`).
-/

namespace LdkSample

namespace Bitcoind

/-! ## Addresses -/

/-- `bitcoin::WitnessProgram`. -/
structure WitnessProgram where
  version : Fin 17
  program : Bytes
  length_le : 2 ≤ program.length ∧ program.length ≤ 40
  v0_length : version = 0 → program.length = 20 ∨ program.length = 32

def WitnessProgram.isP2wpkh (prog : WitnessProgram) : Bool :=
  prog.version == 0 && prog.program.length == 20

def WitnessProgram.isP2tr (prog : WitnessProgram) : Bool :=
  prog.version == 1 && prog.program.length == 32

/-- `bitcoin::Address`, of any network. -/
inductive Address where
  | p2pkh (pubkeyHash : Vector UInt8 20)
  | p2sh (scriptHash : Vector UInt8 20)
  | segwit (program : WitnessProgram)

namespace Address

def witnessProgram : Address → Option WitnessProgram
  | .segwit program => some program
  | _ => none

def scriptPubkey : Address → Bytes
  | .p2pkh pubkeyHash => [0x76, 0xa9, 0x14] ++ pubkeyHash.toList ++ [0x88, 0xac]
  | .p2sh scriptHash => [0xa9, 0x14] ++ scriptHash.toList ++ [0x87]
  | .segwit prog =>
    let version := if prog.version = 0 then 0 else 0x50 + UInt8.ofNat prog.version.val
    [version, UInt8.ofNat prog.program.length] ++ prog.program

end Address

/-! ## Coins -/

structure Txid where
  bytes : Vector UInt8 32
  deriving DecidableEq

structure OutPoint where
  txid : Txid
  vout : UInt32
  deriving DecidableEq

structure TxOut where
  value : UInt64
  scriptPubkey : Bytes
  deriving DecidableEq

/-- `lightning::events::bump_transaction::Utxo`. -/
structure Utxo where
  outpoint : OutPoint
  output : TxOut
  satisfactionWeight : UInt64
  deriving DecidableEq

/-- The script of a version 0 key hash. -/
def p2wpkhScript (wpkh : Vector UInt8 20) : Bytes := [0, 0x14] ++ wpkh.toList

/-- What the listing calls. -/
structure Crates where
  txidFromStr : String → Option Txid
  /-- In satoshis, from bitcoins. -/
  amountFromBtc : ℚ → Option UInt64
  addressFromStr : String → Option Address
  /-- Whether `XOnlyPublicKey::from_slice` takes the bytes. -/
  xOnlyFromSlice : Bytes → Bool
  newV0P2wpkh : OutPoint → UInt64 → Vector UInt8 20 → Utxo
  newV0P2wpkh_spec : ∀ outpoint value wpkh, (newV0P2wpkh outpoint value wpkh).outpoint = outpoint ∧
    (newV0P2wpkh outpoint value wpkh).output = ⟨value, p2wpkhScript wpkh⟩

structure ListUnspentUtxo where
  txid : Txid
  vout : UInt32
  amount : UInt64
  address : Address

section Listing

variable (C : Crates)

/-- One entry; `none` is a panic. -/
def listUnspentUtxo (utxo : Json) : Option ListUnspentUtxo := do
  let txid ← C.txidFromStr (← (utxo.index "txid").asStr)
  let vout ← (utxo.index "vout").asU64
  let amount ← C.amountFromBtc (← (utxo.index "amount").asF64)
  let address ← C.addressFromStr (← (utxo.index "address").asStr)
  pure { txid, vout := vout.toUInt32, amount, address }

def listUnspentResponse (response : Json) : Option (List ListUnspentUtxo) := do
  let entries ← response.asArray
  entries.mapM (listUnspentUtxo C)

/-- `WPubkeyHash::from_slice`. -/
def wPubkeyHashFromSlice (bytes : Bytes) : Option (Vector UInt8 20) :=
  if h : bytes.length = 20 then some ⟨bytes.toArray, h⟩ else none

def witnessScaleFactor : UInt64 := 4

/-- The closure of the `filter_map`. -/
def confirmedUtxo (utxo : ListUnspentUtxo) : Option Utxo :=
  let outpoint : OutPoint := ⟨utxo.txid, utxo.vout⟩
  let value := utxo.amount
  match utxo.address.witnessProgram with
  | some prog =>
    if prog.isP2wpkh then
      (wPubkeyHashFromSlice prog.program).map fun wpkh => C.newV0P2wpkh outpoint value wpkh
    else if prog.isP2tr then
      if C.xOnlyFromSlice prog.program then
        some {
          outpoint
          output := ⟨value, utxo.address.scriptPubkey⟩
          -- an empty script, the count of the witness items, and one signature with its length
          satisfactionWeight := 1 * witnessScaleFactor + 1 + 1 + 64 }
      else none
    else none
  | none => none

/-- `none` is a panic. -/
def listConfirmedUtxos (response : Json) : Option (List Utxo) := do
  let utxos ← listUnspentResponse C response
  pure (utxos.filterMap (confirmedUtxo C))

end Listing

/-! ## What bitcoind lists -/

/-- A coin of the wallet. Some scripts have no address. -/
structure Entry where
  txid : Txid
  vout : UInt32
  amount : UInt64
  inMoneyRange : amount ≤ 2100000000000000
  address : Option Address

/-- How bitcoind writes, and which double a decimal is parsed to. -/
structure Writer where
  txid : Txid → String
  address : Address → String
  double : ℚ → ℚ

variable {C : Crates} {W : Writer} {e : Entry} {json : Json} {a : Address}

/-- The object of a coin, whatever other fields it has. -/
structure EntryJson (W : Writer) (e : Entry) (json : Json) : Prop where
  txid : json.index "txid" = .string (W.txid e.txid)
  vout : json.index "vout" = .number (.posInt e.vout.toUInt64)
  amount : json.index "amount" = .number (.float (W.double (e.amount.toNat / 100000000)))
  address : json.index "address" = (e.address.map fun a => Json.string (W.address a)).getD .null

/-- The crates read what bitcoind writes of a coin. -/
structure Reads (C : Crates) (W : Writer) (e : Entry) : Prop where
  txid : C.txidFromStr (W.txid e.txid) = some e.txid
  amount : C.amountFromBtc (W.double (e.amount.toNat / 100000000)) = some e.amount
  address : ∀ a, e.address = some a → C.addressFromStr (W.address a) = some a

def Address.spendable (C : Crates) : Address → Bool
  | .segwit prog => prog.isP2wpkh || prog.isP2tr && C.xOnlyFromSlice prog.program
  | _ => false

/-- The address is P2WPKH, or P2TR with a valid key. -/
def Entry.spendable (C : Crates) (e : Entry) : Bool := e.address.any (Address.spendable C)

/-- The coin of an entry. -/
structure CoinOf (e : Entry) (utxo : Utxo) : Prop where
  outpoint : utxo.outpoint = ⟨e.txid, e.vout⟩
  value : utxo.output.value = e.amount
  script : e.address.map Address.scriptPubkey = some utxo.output.scriptPubkey

/-! ## One entry -/

theorem listUnspentUtxo_eq (hjson : EntryJson W e json) (hreads : Reads C W e) :
    listUnspentUtxo C json =
      e.address.map fun a => { txid := e.txid, vout := e.vout, amount := e.amount, address := a } := by
  unfold listUnspentUtxo
  rw [hjson.txid, hjson.vout, hjson.amount, hjson.address]
  cases haddr : e.address with
  | none => simp [Json.asStr]
  | some a =>
    simp [Json.asStr, Json.asU64, Json.asF64, hreads.txid, hreads.amount, hreads.address a haddr]

theorem wPubkeyHashFromSlice_eq_some {bytes : Bytes} (h : bytes.length = 20) :
    ∃ wpkh, wPubkeyHashFromSlice bytes = some wpkh ∧ wpkh.toList = bytes := by
  unfold wPubkeyHashFromSlice
  exact ⟨_, dif_pos h, by simp [Vector.toList]⟩

theorem isP2wpkh_iff {prog : WitnessProgram} :
    prog.isP2wpkh = true ↔ prog.version = 0 ∧ prog.program.length = 20 := by
  unfold WitnessProgram.isP2wpkh
  rw [Bool.and_eq_true, beq_iff_eq, beq_iff_eq]

/-- A version 0 key hash has its script from its address. -/
theorem scriptPubkey_of_isP2wpkh {prog : WitnessProgram} (h : prog.isP2wpkh = true) :
    (Address.segwit prog).scriptPubkey = [0, 0x14] ++ prog.program := by
  obtain ⟨hversion, hlength⟩ := isP2wpkh_iff.mp h
  unfold Address.scriptPubkey
  dsimp only
  rw [if_pos hversion, hlength]
  rfl

theorem confirmedUtxo_of_spendable (haddr : e.address = some a) (h : a.spendable C = true) :
    ∃ utxo, confirmedUtxo C { txid := e.txid, vout := e.vout, amount := e.amount, address := a } =
      some utxo ∧ CoinOf e utxo := by
  cases a with
  | p2pkh => cases h
  | p2sh => cases h
  | segwit prog =>
    unfold confirmedUtxo Address.witnessProgram
    dsimp only
    by_cases hwpkh : prog.isP2wpkh = true
    · obtain ⟨wpkh, hslice, hbytes⟩ := wPubkeyHashFromSlice_eq_some (isP2wpkh_iff.mp hwpkh).2
      obtain ⟨houtpoint, houtput⟩ := C.newV0P2wpkh_spec ⟨e.txid, e.vout⟩ e.amount wpkh
      rw [if_pos hwpkh, hslice]
      refine ⟨_, rfl, houtpoint, congrArg TxOut.value houtput, ?_⟩
      rw [houtput, haddr, Option.map_some, scriptPubkey_of_isP2wpkh hwpkh, ← hbytes]
      rfl
    · have htr : prog.isP2tr = true ∧ C.xOnlyFromSlice prog.program = true := by
        simpa [Address.spendable, hwpkh] using h
      rw [if_neg hwpkh, if_pos htr.1, if_pos htr.2]
      exact ⟨_, rfl, rfl, rfl, by rw [haddr]; rfl⟩

theorem confirmedUtxo_of_not_spendable {utxo : ListUnspentUtxo}
    (h : utxo.address.spendable C = false) : confirmedUtxo C utxo = none := by
  unfold confirmedUtxo
  cases haddr : utxo.address with
  | p2pkh => rfl
  | p2sh => rfl
  | segwit prog =>
    rw [haddr] at h
    unfold Address.spendable at h
    rw [Bool.or_eq_false_iff, Bool.and_eq_false_iff] at h
    obtain ⟨hwpkh, htr⟩ := h
    unfold Address.witnessProgram
    dsimp only
    rw [hwpkh, if_neg Bool.false_ne_true]
    rcases htr with htr | hkey
    · rw [htr, if_neg Bool.false_ne_true]
    · rw [hkey, if_neg Bool.false_ne_true, ite_self]

/-! ## The whole answer -/

/-- The coins that are to be listed, in the order of the entries. -/
def Listed (C : Crates) (entries : List Entry) (utxos : List Utxo) : Prop :=
  List.Forall₂ CoinOf (entries.filter (Entry.spendable C)) utxos

theorem mapM_of_addresses {entries : List Entry} {jsons : List Json}
    (hjson : List.Forall₂ (EntryJson W) entries jsons) (hreads : ∀ e ∈ entries, Reads C W e)
    (haddr : ∀ e ∈ entries, e.address.isSome) :
    ∃ utxos, jsons.mapM (listUnspentUtxo C) = some utxos ∧
      Listed C entries (utxos.filterMap (confirmedUtxo C)) := by
  induction hjson with
  | nil => exact ⟨[], rfl, .nil⟩
  | @cons e json entries jsons he _ ih =>
    rw [List.forall_mem_cons] at hreads haddr
    obtain ⟨utxos, hmap, hlisted⟩ := ih hreads.2 haddr.2
    obtain ⟨a, ha⟩ := Option.isSome_iff_exists.mp haddr.1
    have hutxo := listUnspentUtxo_eq he hreads.1
    rw [ha, Option.map_some] at hutxo
    refine ⟨_ :: utxos, by rw [List.mapM_cons, hutxo, hmap]; rfl, ?_⟩
    have hspendable : e.spendable C = a.spendable C := by
      unfold Entry.spendable
      rw [ha]
      rfl
    unfold Listed
    cases h : a.spendable C with
    | true =>
      obtain ⟨utxo, hconfirmed, hcoin⟩ := confirmedUtxo_of_spendable ha h
      rw [List.filter_cons_of_pos (hspendable.trans h), List.filterMap_cons_some hconfirmed]
      exact .cons hcoin hlisted
    | false =>
      rw [List.filter_cons_of_neg (by rw [hspendable, h]; exact Bool.false_ne_true),
        List.filterMap_cons_none (confirmedUtxo_of_not_spendable h)]
      exact hlisted

/-- An entry without an address is fatal. -/
theorem mapM_of_no_address {entries : List Entry} {jsons : List Json}
    (hjson : List.Forall₂ (EntryJson W) entries jsons) (hreads : ∀ e ∈ entries, Reads C W e)
    (haddr : ∃ e ∈ entries, e.address = none) : jsons.mapM (listUnspentUtxo C) = none := by
  induction hjson with
  | nil =>
    obtain ⟨e, he, -⟩ := haddr
    cases he
  | @cons e json entries jsons he _ ih =>
    rw [List.forall_mem_cons] at hreads
    have hutxo := listUnspentUtxo_eq he hreads.1
    rw [List.mapM_cons, hutxo]
    cases ha : e.address with
    | none => rfl
    | some a =>
      have hrest : ∃ e ∈ entries, e.address = none := by
        obtain ⟨e', he', hno⟩ := haddr
        rcases List.mem_cons.mp he' with rfl | hin
        · rw [ha] at hno
          cases hno
        · exact ⟨e', hin, hno⟩
      rw [ih hreads.2 hrest]
      rfl

theorem listConfirmedUtxos_array (jsons : List Json) : listConfirmedUtxos C (.array jsons) =
    (jsons.mapM (listUnspentUtxo C)).map fun utxos => utxos.filterMap (confirmedUtxo C) := by
  unfold listConfirmedUtxos listUnspentResponse Json.asArray
  cases h : jsons.mapM (listUnspentUtxo C) <;> simp [h]

/-- **The listing is complete exactly where every entry has an address.** -/
theorem listed_iff {entries : List Entry} {jsons : List Json}
    (hjson : List.Forall₂ (EntryJson W) entries jsons) (hreads : ∀ e ∈ entries, Reads C W e) :
    (∃ utxos, listConfirmedUtxos C (.array jsons) = some utxos ∧ Listed C entries utxos) ↔
      ∀ e ∈ entries, e.address.isSome := by
  constructor
  · rintro ⟨utxos, hlist, -⟩ e he
    by_contra hno
    rw [Option.not_isSome_iff_eq_none] at hno
    rw [listConfirmedUtxos_array, mapM_of_no_address hjson hreads ⟨e, he, hno⟩] at hlist
    cases hlist
  · intro haddr
    obtain ⟨utxos, hmap, hlisted⟩ := mapM_of_addresses hjson hreads haddr
    exact ⟨_, by rw [listConfirmedUtxos_array, hmap]; rfl, hlisted⟩

section Examples

def sampleTxid : Txid where
  bytes := Vector.replicate 32 0x11

def sampleAddress : Address :=
  .segwit {
    version := 0
    program := [0x75, 0x1e, 0x76, 0xe8, 0x19, 0x91, 0x96, 0xd4, 0x54, 0x94, 0x1c, 0x45, 0xd1, 0xb3,
      0xa3, 0x23, 0xf1, 0x43, 0x3b, 0xd6]
    length_le := by decide
    v0_length := by decide }

/-- One transaction and one address, and exact decimals. -/
def sampleWriter : Writer where
  txid _ := "1111111111111111111111111111111111111111111111111111111111111111"
  address _ := "bcrt1qw508d6qejxtdg4y5r3zarvary0c5xw7kygt080"
  double := id

def sampleCrates : Crates where
  txidFromStr s := if s = sampleWriter.txid sampleTxid then some sampleTxid else none
  amountFromBtc btc :=
    if 0 ≤ btc ∧ (btc * 100000000).den = 1 then some (UInt64.ofNat (btc * 100000000).num.toNat)
    else none
  addressFromStr s := if s = sampleWriter.address sampleAddress then some sampleAddress else none
  xOnlyFromSlice bytes := bytes.length = 32
  newV0P2wpkh outpoint value wpkh := ⟨outpoint, ⟨value, p2wpkhScript wpkh⟩, 112⟩
  newV0P2wpkh_spec _ _ _ := ⟨rfl, rfl⟩

/-- An output of 1.5 bitcoins. -/
def sampleEntry (address : Option Address) : Entry where
  txid := sampleTxid
  vout := 1
  amount := 150000000
  inMoneyRange := by decide
  address

def sampleJson (address : Option String) : Json :=
  .object ([("txid", .string (sampleWriter.txid sampleTxid)), ("vout", .number (.posInt 1)),
    ("amount", .number (.float (15 / 10)))] ++ address.toList.map fun s => ("address", .string s))

theorem sampleEntry_json (address : Option Address) :
    EntryJson sampleWriter (sampleEntry address) (sampleJson (address.map sampleWriter.address)) where
  txid := by cases address <;> rfl
  vout := by cases address <;> rfl
  amount := by
    have h : (15 / 10 : ℚ) = ((150000000 : Nat) : ℚ) / 100000000 := by norm_num
    have hindex : (sampleJson (address.map sampleWriter.address)).index "amount" =
        .number (.float (15 / 10)) := by cases address <;> rfl
    rw [hindex, h]
    rfl
  address := by cases address <;> rfl

theorem sampleEntry_reads {address : Option Address} (h : ∀ a ∈ address, a = sampleAddress) :
    Reads sampleCrates sampleWriter (sampleEntry address) where
  txid := rfl
  amount := by
    show sampleCrates.amountFromBtc ((150000000 : Nat) / 100000000) = some 150000000
    decide +kernel
  address a ha := by
    rw [h a ha]
    rfl

end Examples

theorem listed_iff_sample :
    (∃ utxos, listConfirmedUtxos sampleCrates
        (.array [sampleJson (some (sampleWriter.address sampleAddress))]) = some utxos ∧
      Listed sampleCrates [sampleEntry (some sampleAddress)] utxos) ↔
      ∀ e ∈ [sampleEntry (some sampleAddress)], e.address.isSome := by
  refine listed_iff (.cons (sampleEntry_json (some sampleAddress)) .nil) ?_
  refine List.forall_mem_singleton.mpr (sampleEntry_reads fun a ha => ?_)
  exact (Option.some_inj.mp ha).symm

/-- A bare multisig output makes the call panic. -/
theorem not_listed_without_address :
    EntryJson sampleWriter (sampleEntry none) (sampleJson none) ∧
      Reads sampleCrates sampleWriter (sampleEntry none) ∧
      listConfirmedUtxos sampleCrates (.array [sampleJson none]) = none ∧
      ¬ ∃ utxos, listConfirmedUtxos sampleCrates (.array [sampleJson none]) = some utxos ∧
        Listed sampleCrates [sampleEntry none] utxos := by
  have hreads : Reads sampleCrates sampleWriter (sampleEntry none) :=
    sampleEntry_reads fun _ ha => nomatch ha
  have hmap := mapM_of_no_address (.cons (sampleEntry_json none) .nil)
    (List.forall_mem_singleton.mpr hreads) ⟨_, List.mem_cons_self, rfl⟩
  have hnone : listConfirmedUtxos sampleCrates (.array [sampleJson none]) = none := by
    rw [listConfirmedUtxos_array]
    exact congrArg (Option.map _) hmap
  refine ⟨sampleEntry_json none, hreads, hnone, ?_⟩
  rintro ⟨utxos, hsome, -⟩
  rw [hnone] at hsome
  cases hsome

end Bitcoind

end LdkSample
