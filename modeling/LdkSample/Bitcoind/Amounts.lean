import LdkSample.Bitcoind.Doubles
import LdkSample.Numeric.Decimal

/-!
# Amounts that go out

The doubles that are sent to bitcoind: the value of a channel in bitcoins (`main.rs`) and a fee rate
in satoshis for a virtual byte (`bitcoind_client.rs`). What is printed of a double is the shortest
decimal that reads back, and it is the amount that is meant.
-/

namespace LdkSample

namespace Bitcoind

open Numeric

/-- `channel_value_satoshis as f64 / 100_000_000.0`. -/
def channelAmount (channelValueSatoshis : UInt64) : ℚ :=
  divF64 (natAsF64 channelValueSatoshis.toNat) 100000000

/-- `get_est_sat_per_1000_weight(..) as f64 / 250.0`. -/
def feeRate (satPer1000Weight : UInt32) : ℚ := divF64 (natAsF64 satPer1000Weight.toNat) 250

theorem ten_zpow_neg_eight : (10 : ℚ) ^ (-8 : ℤ) = 1 / 100000000 := by norm_num

theorem ten_zpow_neg_three : (10 : ℚ) ^ (-3 : ℤ) = 1 / 1000 := by norm_num

theorem channelAmount_eq {v : UInt64} (h : v.toNat < 2 ^ 53) :
    channelAmount v = f64.fl (v.toNat * 10 ^ (-8 : ℤ)) := by
  unfold channelAmount
  rw [natAsF64_eq h, divF64_nonneg (by positivity) (by norm_num), ten_zpow_neg_eight, mul_one_div]

theorem feeRate_eq (n : UInt32) : feeRate n = f64.fl ((4 * n.toNat : ℕ) * 10 ^ (-3 : ℤ)) := by
  have hlt := n.toNat_lt
  unfold feeRate
  rw [natAsF64_eq (by omega), divF64_nonneg (by positivity) (by norm_num), ten_zpow_neg_three]
  push_cast
  congr 1
  ring

/-- **A channel value is printed exactly**, in bitcoins. -/
theorem channelAmount_printed {v : UInt64} (h : v ≤ 2100000000000000) {d : Decimal}
    (hd : Shortest f64.fl (channelAmount v) d) : d.value = v.toNat / 100000000 := by
  have hv : v.toNat ≤ 2100000000000000 := UInt64.le_iff_toNat_le.mp h
  rw [channelAmount_eq (by omega)] at hd
  rw [f64.shortest_multiple (by norm_num) (by omega) hd, ten_zpow_neg_eight, mul_one_div]

/-- **A fee rate is printed exactly**, with three places. -/
theorem feeRate_printed (n : UInt32) {d : Decimal} (hd : Shortest f64.fl (feeRate n) d) :
    d.value = n.toNat / 250 := by
  have hlt := n.toNat_lt
  rw [feeRate_eq] at hd
  rw [f64.shortest_multiple (by norm_num) (by omega) hd, ten_zpow_neg_three]
  push_cast
  ring

end Bitcoind

end LdkSample
