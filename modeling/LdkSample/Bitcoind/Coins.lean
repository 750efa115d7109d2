import LdkSample.Bitcoind.Amounts
import LdkSample.Bitcoind.Unspent

/-!
# Coins through doubles

bitcoind writes an amount with eight places, `serde_json` reads it as the nearest double, and
`Amount::from_btc` prints the double and reads what it has printed. The listing of the coins has
the amounts of the wallet all the same (`coins_exact`).
-/

namespace LdkSample

namespace Bitcoind

open Numeric (Decimal Shortest)

/-- `Amount::from_btc` reads the decimal that is printed of the double, if it is in whole satoshis
and at most all the money there is. -/
def ReadsPrinted (amountFromBtc : ℚ → Option UInt64) : Prop :=
  ∀ btc (d : Decimal) (sat : UInt64), Shortest f64.fl btc d → d.value = sat.toNat / 100000000 →
    sat ≤ 2100000000000000 → amountFromBtc btc = some sat

/-- The nearest double of the decimal that is written. -/
def Writer.Nearest (W : Writer) : Prop := ∀ q, W.double q = f64.fl q

variable {C : Crates} {W : Writer}

theorem amount_read (hW : W.Nearest) (hbtc : ReadsPrinted C.amountFromBtc) (e : Entry) :
    C.amountFromBtc (W.double (e.amount.toNat / 100000000)) = some e.amount := by
  have hle : e.amount.toNat ≤ 2100000000000000 := UInt64.le_iff_toNat_le.mp e.inMoneyRange
  have hdouble : W.double (e.amount.toNat / 100000000) = channelAmount e.amount := by
    rw [hW, channelAmount_eq (by omega), ten_zpow_neg_eight, mul_one_div]
  obtain ⟨d, hd⟩ : ∃ d, Shortest f64.fl (channelAmount e.amount) d := by
    rw [channelAmount_eq (by omega)]
    exact Numeric.exists_shortest ⟨e.amount.toNat, -8⟩
  rw [hdouble]
  exact hbtc _ d _ hd (channelAmount_printed e.inMoneyRange hd) e.inMoneyRange

/-- The texts of the ids and of the addresses are read as they are written. -/
structure ReadsTexts (C : Crates) (W : Writer) (e : Entry) : Prop where
  txid : C.txidFromStr (W.txid e.txid) = some e.txid
  address : ∀ a, e.address = some a → C.addressFromStr (W.address a) = some a

theorem sum_of_coins {entries : List Entry} {utxos : List Utxo}
    (h : List.Forall₂ CoinOf entries utxos) :
    (utxos.map fun u => u.output.value.toNat).sum = (entries.map fun e => e.amount.toNat).sum := by
  induction h with
  | nil => rfl
  | cons hcoin _ ih => rw [List.map_cons, List.map_cons, List.sum_cons, List.sum_cons, hcoin.value, ih]

/-- **The listed coins have the amounts of the wallet**, to the satoshi. -/
theorem coins_exact (hW : W.Nearest) (hbtc : ReadsPrinted C.amountFromBtc) (entries : List Entry)
    (jsons : List Json) (hjson : List.Forall₂ (EntryJson W) entries jsons)
    (hreads : ∀ e ∈ entries, ReadsTexts C W e) (haddr : ∀ e ∈ entries, e.address.isSome) :
    ∃ utxos, listConfirmedUtxos C (.array jsons) = some utxos ∧ Listed C entries utxos ∧
      (utxos.map fun u => u.output.value.toNat).sum =
        ((entries.filter (Entry.spendable C)).map fun e => e.amount.toNat).sum := by
  obtain ⟨utxos, hmap, hlisted⟩ := mapM_of_addresses (C := C) hjson
    (fun e he => ⟨(hreads e he).txid, amount_read hW hbtc e, (hreads e he).address⟩) haddr
  exact ⟨_, by rw [listConfirmedUtxos_array, hmap]; rfl, hlisted, sum_of_coins hlisted⟩

/-! ## A reader of what is printed -/

/-- The nearest number of satoshis, where the double is the one next to it. -/
def nearestSat (btc : ℚ) : Option UInt64 :=
  let sat := ⌊btc * 100000000 + 1 / 2⌋.toNat
  if f64.fl (sat / 100000000) = btc then some (UInt64.ofNat sat) else none

theorem floor_of_near {n : ℕ} {x : ℚ} (h : |x - n| < 1 / 2) : ⌊x + 1 / 2⌋ = n := by
  obtain ⟨hlo, hhi⟩ := abs_lt.mp h
  rw [Int.floor_eq_iff]
  push_cast
  constructor <;> linarith

theorem nearestSat_reads : ReadsPrinted nearestSat := by
  intro btc d sat hd hval hle
  have hbtc : f64.fl (sat.toNat / 100000000) = btc := by rw [← hval, hd.rounds]
  have hsat : (sat.toNat : ℚ) ≤ 2100000000000000 := by
    exact_mod_cast UInt64.le_iff_toNat_le.mp hle
  have herror := f64.error (by norm_num) (x := (sat.toNat : ℚ) / 100000000) (by positivity)
  rw [hbtc] at herror
  have hnear : |btc * 100000000 - sat.toNat| < 1 / 2 := by
    have heq : btc * 100000000 - sat.toNat = (btc - sat.toNat / 100000000) * 100000000 := by ring
    rw [heq, abs_mul, abs_of_pos (by norm_num : (0 : ℚ) < 100000000)]
    linarith
  have hfloor : ⌊btc * 100000000 + 1 / 2⌋.toNat = sat.toNat := by
    rw [floor_of_near hnear, Int.toNat_natCast]
  unfold nearestSat
  dsimp only
  rw [hfloor, if_pos hbtc, UInt64.ofNat_toNat]

section Examples

def nearestWriter : Writer := { sampleWriter with double := f64.fl }

def nearestCrates : Crates := { sampleCrates with amountFromBtc := nearestSat }

/-- A tenth of a bitcoin, which no double is. -/
def tenth : Entry where
  txid := sampleTxid
  vout := 0
  amount := 10000000
  inMoneyRange := by decide
  address := some sampleAddress

def tenthJson : Json :=
  .object [("txid", .string (sampleWriter.txid sampleTxid)), ("vout", .number (.posInt 0)),
    ("amount", .number (.float (f64.fl (tenth.amount.toNat / 100000000)))),
    ("address", .string (sampleWriter.address sampleAddress))]

theorem tenth_json : EntryJson nearestWriter tenth tenthJson := ⟨rfl, rfl, rfl, rfl⟩

end Examples

/-- Two coins of a tenth of a bitcoin. -/
theorem coins_exact_tenths : ∃ utxos,
    listConfirmedUtxos nearestCrates (.array [tenthJson, tenthJson]) = some utxos ∧
      Listed nearestCrates [tenth, tenth] utxos ∧
      (utxos.map fun u => u.output.value.toNat).sum = 20000000 := by
  have htexts : ReadsTexts nearestCrates nearestWriter tenth :=
    ⟨rfl, fun a ha => by cases ha; rfl⟩
  obtain ⟨utxos, hlist, hlisted, hsum⟩ := coins_exact (C := nearestCrates) (W := nearestWriter)
    (fun _ => rfl) nearestSat_reads [tenth, tenth] [tenthJson, tenthJson]
    (.cons tenth_json (.cons tenth_json .nil))
    (List.forall_mem_cons.mpr ⟨htexts, List.forall_mem_singleton.mpr htexts⟩) (by decide)
  exact ⟨utxos, hlist, hlisted, hsum.trans (by decide)⟩

end Bitcoind

end LdkSample
