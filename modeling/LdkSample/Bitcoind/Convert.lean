import LdkSample.Bitcoind.Json
import LdkSample.Payment.Store

/-!
# Fee rates and the chain

The conversions of the answers of bitcoind (`convert.rs`). That from BTC/kvB to sat/kW multiplies
and divides doubles, so that the product is only near to the number of satoshis (`mulF64_near`), and
a quarter of them that is half-way between two whole numbers may come in one lower
(`satPerKw_near`).
-/

namespace LdkSample

namespace Bitcoind

/-- `(feerate_btc_per_kvbyte * 100_000_000.0 / 4.0).round() as u32`. -/
def satPerKw (feerateBtcPerKvbyte : ℚ) : UInt32 :=
  asU32 (round (divF64 (mulF64 feerateBtcPerKvbyte 100000000) 4))

/-- What is meant: the same of rational numbers. -/
def satPerKwExact (feerateBtcPerKvbyte : ℚ) : UInt32 :=
  asU32 (round (feerateBtcPerKvbyte * 100000000 / 4))

structure FeeResponse where
  feerateSatPerKw : Option UInt32
  errored : Bool

def feeResponse (value : Json) : FeeResponse where
  errored := !(value.index "errors").isNull
  feerateSatPerKw := (value.index "feerate").asF64.map satPerKw

structure MempoolMinFeeResponse where
  feerateSatPerKw : Option UInt32
  errored : Bool

/-- `none` where the assertion on `maxmempool` fails. -/
def mempoolMinFeeResponse (value : Json) : Option MempoolMinFeeResponse :=
  if (value.index "maxmempool").asU64 = some 300000000 then
    some {
      errored := !(value.index "errors").isNull
      feerateSatPerKw := (value.index "mempoolminfee").asF64.map satPerKw }
  else none

structure BlockchainInfo where
  latestHeight : UInt64
  latestBlockhash : Bytes32
  chain : String

/-- `none` is a panic. -/
def blockchainInfo (blockHashFromStr : String → Option Bytes32) (response : Json) :
    Option BlockchainInfo := do
  let blocks ← (response.index "blocks").asU64
  let latestBlockhash ← blockHashFromStr (← (response.index "bestblockhash").asStr)
  let chain ← (response.index "chain").asStr
  pure { latestHeight := blocks, latestBlockhash, chain }

theorem satPerKw_mono {p q : ℚ} (h : p ≤ q) : satPerKw p ≤ satPerKw q := by
  have hmul : mulF64 p 100000000 ≤ mulF64 q 100000000 := f64.signed_mono (by linarith)
  exact asU32_round_mono (f64.signed_mono (by linarith))

theorem satPerKw_eq {q : ℚ} (h : 0 ≤ q) :
    satPerKw q = asU32 ⌊mulF64 q 100000000 / 4 + 1 / 2⌋ := by
  have hin : 0 ≤ q * 100000000 := mul_nonneg h (by norm_num)
  have hrep : Numeric.Rep 53 (mulF64 q 100000000) := by
    rw [mulF64_nonneg h (by norm_num)]
    exact f64.rep _ hin
  have hpos := hrep.nonneg
  unfold satPerKw round
  rw [divF64_four hrep, if_pos (by positivity)]

/-! ## Errors -/

/-- The product with the double that is read: it is rounded twice. -/
theorem mulF64_near {n : ℚ} (h : 0 ≤ n) :
    |mulF64 (f64.fl (n / 100000000)) 100000000 - n| * 2 ^ 51 ≤ n := by
  have hin : 0 ≤ n / 100000000 := by positivity
  have hout : 0 ≤ f64.fl (n / 100000000) * 100000000 := mul_nonneg (f64.nonneg hin) (by norm_num)
  have h₁ := f64.error (by norm_num) hin
  have h₂ := f64.error (by norm_num) hout
  rw [mulF64_nonneg (f64.nonneg hin) (by norm_num)]
  generalize f64.fl (n / 100000000) = q at h₁ h₂ ⊢
  generalize f64.fl (q * 100000000) = y at h₂ ⊢
  have hq : |q * 100000000 - n| * 2 ^ 53 ≤ n := by
    have heq : q * 100000000 - n = (q - n / 100000000) * 100000000 := by ring
    rw [heq, abs_mul, abs_of_pos (by norm_num : (0 : ℚ) < 100000000)]
    linarith
  have htri : |y - n| ≤ |y - q * 100000000| + |q * 100000000 - n| := abs_sub_le _ _ _
  have hle := le_abs_self (q * 100000000 - n)
  linarith

/-- The whole part of a quarter and a half. -/
theorem floor_quarter (n : ℕ) : ⌊(n : ℚ) / 4 + 1 / 2⌋ = ((n + 2) / 4 : ℕ) := by
  have hdiv : (4 * ((n + 2) / 4) : ℕ) ≤ n + 2 ∧ n + 2 < 4 * ((n + 2) / 4) + 4 := by omega
  generalize (n + 2) / 4 = k at hdiv ⊢
  obtain ⟨hlo, hhi⟩ := hdiv
  have hlo' : (4 * k : ℚ) ≤ n + 2 := by exact_mod_cast hlo
  have hhi' : (n + 2 : ℚ) < 4 * k + 4 := by exact_mod_cast hhi
  rw [Int.floor_eq_iff]
  push_cast
  constructor <;> linarith

/-- The same a little off: only from half-way it can come out one lower. -/
theorem floor_quarter_near {n : ℕ} {y : ℚ} (h : |y - n| < 1 / 8) :
    ⌊y / 4 + 1 / 2⌋ = ((n + 2) / 4 : ℕ) ∨
      n % 4 = 2 ∧ ⌊y / 4 + 1 / 2⌋ + 1 = ((n + 2) / 4 : ℕ) := by
  obtain ⟨hlo, hhi⟩ := abs_lt.mp h
  have hdiv : n + 2 = 4 * ((n + 2) / 4) + (n + 2) % 4 := by omega
  have hmod : (n + 2) % 4 < 4 := by omega
  have htie : (n + 2) % 4 = 0 → n % 4 = 2 := by omega
  generalize (n + 2) / 4 = k at hdiv ⊢
  generalize (n + 2) % 4 = r at hdiv hmod htie
  have hdiv' : (n + 2 : ℚ) = 4 * k + r := by exact_mod_cast hdiv
  have hr : (r : ℚ) ≤ 3 := by exact_mod_cast Nat.le_of_lt_succ hmod
  by_cases hk : (k : ℚ) ≤ y / 4 + 1 / 2
  · left
    rw [Int.floor_eq_iff]
    push_cast
    exact ⟨hk, by linarith⟩
  · rw [not_le] at hk
    have hr0 : r = 0 := by
      by_contra hne
      have h1 : (1 : ℚ) ≤ r := by exact_mod_cast Nat.one_le_iff_ne_zero.mpr hne
      linarith
    right
    refine ⟨htie hr0, ?_⟩
    have hfloor : ⌊y / 4 + 1 / 2⌋ = (k : ℤ) - 1 := by
      rw [Int.floor_eq_iff]
      push_cast
      have h0 : (0 : ℚ) ≤ r := by positivity
      constructor <;> linarith
    omega

/-- A quarter of `n` as it comes in: that of a number next to `n`, rounded half up. Of a whole number
it is the quarter, or from half-way one less. -/
structure QuarterOf (n : ℚ) (quarter : ℤ) : Prop where
  near : ∃ y, |y - n| * 2 ^ 51 ≤ n ∧ quarter = ⌊y / 4 + 1 / 2⌋
  whole : ∀ k : ℕ, n = k →
    quarter = ⌊n / 4 + 1 / 2⌋ ∨ k % 4 = 2 ∧ quarter + 1 = ⌊n / 4 + 1 / 2⌋

theorem quarterOf {n y : ℚ} (hlt : n < 2 ^ 48) (h : |y - n| * 2 ^ 51 ≤ n) :
    QuarterOf n ⌊y / 4 + 1 / 2⌋ where
  near := ⟨y, h, rfl⟩
  whole k hk := by
    subst hk
    rw [floor_quarter]
    exact floor_quarter_near (by linarith)

theorem satPerKw_quarter {n : ℚ} (h : 0 ≤ n) (hlt : n < 2 ^ 48) :
    ∃ quarter, satPerKw (f64.fl (n / 100000000)) = asU32 quarter ∧ QuarterOf n quarter :=
  ⟨_, satPerKw_eq (f64.nonneg (by positivity)), quarterOf hlt (mulF64_near h)⟩

theorem satPerKwExact_eq {n : ℚ} (h : 0 ≤ n) :
    satPerKwExact (n / 100000000) = asU32 ⌊n / 4 + 1 / 2⌋ := by
  unfold satPerKwExact round
  rw [div_mul_cancel₀ _ (by norm_num), if_pos (by positivity)]

/-- **A fee rate comes in with an error of at most one**, and only where its quarter is half-way
between two whole numbers. -/
theorem satPerKw_near {n : ℕ} (h : n < 2 ^ 48) :
    satPerKw (f64.fl (n / 100000000)) = satPerKwExact (n / 100000000) ∨
      n % 4 = 2 ∧ satPerKw (f64.fl (n / 100000000)) + 1 = satPerKwExact (n / 100000000) := by
  have hlt : (n : ℚ) < 2 ^ 48 := by exact_mod_cast h
  obtain ⟨quarter, hread, hquarter⟩ := satPerKw_quarter (n := n) (by positivity) hlt
  rw [hread, satPerKwExact_eq (by positivity)]
  rcases hquarter.whole n rfl with heq | ⟨htie, heq⟩
  · exact .inl (congrArg asU32 heq)
  · rw [← heq]
    exact (asU32_succ quarter).imp_right fun hone => ⟨htie, hone⟩

/-- Six satoshis for a thousand virtual bytes come in as one for a thousand weight units, not two. -/
theorem satPerKw_near_six :
    satPerKw (f64.fl ((6 : ℕ) / 100000000)) + 1 = satPerKwExact ((6 : ℕ) / 100000000) := by
  have hlower : satPerKw (f64.fl ((6 : ℕ) / 100000000)) ≠ satPerKwExact ((6 : ℕ) / 100000000) := by
    decide +kernel
  exact ((satPerKw_near (n := 6) (by decide)).resolve_left hlower).2

end Bitcoind

end LdkSample
