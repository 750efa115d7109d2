import LdkSample.Numeric.Binary

/-!
# Doubles

The arithmetic of Rust on `f64`, each operation rounded to nearest, ties to even. A double is a
number of 53 bits with any exponent here: no result is near the ends of the exponent range but those
that the cast to `u32` takes to the same number without them.
-/

namespace LdkSample

namespace Bitcoind

open Numeric

def f64 : Rounding 53 := nearestEven 53 (by decide)

/-- `n as f64`. -/
def natAsF64 (n : ℕ) : ℚ := f64.fl n

def intAsF64 (z : ℤ) : ℚ := f64.signed z

def divF64 (a b : ℚ) : ℚ := f64.signed (a / b)

def mulF64 (a b : ℚ) : ℚ := f64.signed (a * b)

/-- `f64::round`: half-way cases go away from zero. -/
def round (q : ℚ) : ℤ := if 0 ≤ q then ⌊q + 1 / 2⌋ else ⌈q - 1 / 2⌉

/-- `as u32` of a whole double, which saturates. -/
def asU32 (z : ℤ) : UInt32 := UInt32.ofNat (min z.toNat (2 ^ 32 - 1))

theorem natAsF64_eq {n : ℕ} (h : n < 2 ^ 53) : natAsF64 n = n := f64.fix (rep_natCast h)

theorem divF64_nonneg {a b : ℚ} (ha : 0 ≤ a) (hb : 0 ≤ b) : divF64 a b = f64.fl (a / b) :=
  f64.signed_of_nonneg (div_nonneg ha hb)

theorem mulF64_nonneg {a b : ℚ} (ha : 0 ≤ a) (hb : 0 ≤ b) : mulF64 a b = f64.fl (a * b) :=
  f64.signed_of_nonneg (mul_nonneg ha hb)

/-- Division by four changes the exponent only. -/
theorem divF64_four {x : ℚ} (h : Rep 53 x) : divF64 x 4 = x / 4 := by
  have hscale := h.scale (-2)
  rw [show (2 : ℚ) ^ (-2 : ℤ) = 1 / 4 by norm_num, mul_one_div] at hscale
  rw [divF64_nonneg h.nonneg (by norm_num)]
  exact f64.fix hscale

theorem toNat_round (q : ℚ) : (round q).toNat = ⌊q + 1 / 2⌋.toNat := by
  unfold round
  split
  · rfl
  · next h =>
    rw [not_le] at h
    have hceil : ⌈q - 1 / 2⌉ ≤ 0 := Int.ceil_le.mpr (by push_cast; linarith)
    have hfloor : ⌊q + 1 / 2⌋ < 1 := Int.floor_lt.mpr (by push_cast; linarith)
    rw [Int.toNat_of_nonpos hceil, Int.toNat_of_nonpos (Int.lt_add_one_iff.mp hfloor)]

theorem toNat_asU32 (z : ℤ) : (asU32 z).toNat = min z.toNat (2 ^ 32 - 1) :=
  UInt32.toNat_ofNat_of_lt' (by simp only [UInt32.size]; omega)

theorem asU32_round_mono {p q : ℚ} (h : p ≤ q) : asU32 (round p) ≤ asU32 (round q) := by
  have hfloor : ⌊p + 1 / 2⌋ ≤ ⌊q + 1 / 2⌋ := Int.floor_mono (by linarith)
  rw [UInt32.le_iff_toNat_le, toNat_asU32, toNat_asU32, toNat_round, toNat_round]
  omega

theorem asU32_succ (z : ℤ) : asU32 z = asU32 (z + 1) ∨ asU32 z + 1 = asU32 (z + 1) := by
  have h₁ := toNat_asU32 z
  have h₂ := toNat_asU32 (z + 1)
  by_cases hz : z.toNat = (z + 1).toNat ∨ 2 ^ 32 - 1 ≤ z.toNat
  · left
    apply UInt32.toNat_inj.mp
    omega
  · right
    apply UInt32.toNat_inj.mp
    rw [UInt32.toNat_add, h₁, h₂, UInt32.toNat_one]
    omega

end Bitcoind

end LdkSample
