import Mathlib.Algebra.Order.Field.Power
import Mathlib.Algebra.Order.Round
import Mathlib.Data.Int.Log
import Mathlib.Data.Rat.Floor
import Mathlib.Tactic.Linarith
import Mathlib.Tactic.Positivity
import Mathlib.Tactic.Ring

/-!
# Binary numbers of a fixed precision

The magnitudes `m * 2 ^ e` with a significand of `p` bits and any exponent, and the roundings of
the non-negative rationals to a nearest one, however ties are broken; `signed` takes a rounding to
the negative ones. A rounding is monotone, it moves a number by at most one part in `2 ^ p`, and two
numbers that round to the same are that close to each other (`close_of_eq`). `nearestEven` breaks
ties to the even significand.
-/

namespace LdkSample

namespace Numeric

/-- `x` has a significand of `p` bits. -/
def Rep (p : ℕ) (x : ℚ) : Prop := ∃ (m : ℕ) (e : ℤ), m < 2 ^ p ∧ x = m * 2 ^ e

/-- A rounding to nearest. -/
structure Rounding (p : ℕ) where
  fl : ℚ → ℚ
  rep : ∀ x, 0 ≤ x → Rep p (fl x)
  nearest : ∀ x y, 0 ≤ x → Rep p y → |fl x - x| ≤ |y - x|

variable {p : ℕ} {x y a b : ℚ}

theorem rep_natCast {n : ℕ} (h : n < 2 ^ p) : Rep p n := ⟨n, 0, h, by simp⟩

theorem rep_zero : Rep p 0 := ⟨0, 0, by positivity, by simp⟩

theorem Rep.nonneg (h : Rep p x) : 0 ≤ x := by
  obtain ⟨m, e, -, rfl⟩ := h
  positivity

/-- Scaling by a power of two changes the exponent only. -/
theorem Rep.scale (h : Rep p x) (k : ℤ) : Rep p (x * 2 ^ k) := by
  obtain ⟨m, e, hm, rfl⟩ := h
  refine ⟨m, e + k, hm, ?_⟩
  rw [zpow_add₀ two_ne_zero, mul_assoc]

namespace Rounding

variable (R : Rounding p)

theorem fix (h : Rep p x) : R.fl x = x := by
  have h' := R.nearest x x h.nonneg h
  rw [sub_self, abs_zero] at h'
  linarith [abs_nonpos_iff.mp h']

theorem nonneg (h : 0 ≤ x) : 0 ≤ R.fl x := (R.rep x h).nonneg

theorem mono (ha : 0 ≤ a) (h : a ≤ b) : R.fl a ≤ R.fl b := by
  rcases h.eq_or_lt with rfl | h
  · exact le_refl _
  have hb : 0 ≤ b := ha.trans h.le
  have h₁ := R.nearest a _ ha (R.rep b hb)
  have h₂ := R.nearest b _ hb (R.rep a ha)
  by_contra hlt
  rw [not_le] at hlt
  -- otherwise each of the two is nearer to the other's argument
  have h₃ : R.fl a + R.fl b ≤ 2 * a := by
    rcases le_total a (R.fl b) with hle | hle
    · rw [abs_of_nonneg (sub_nonneg.mpr hle)] at h₁
      linarith [le_abs_self (R.fl a - a)]
    · rw [abs_of_nonpos (sub_nonpos.mpr hle)] at h₁
      linarith [le_abs_self (R.fl a - a)]
  have h₄ : 2 * b ≤ R.fl a + R.fl b := by
    rcases le_total (R.fl a) b with hle | hle
    · rw [abs_of_nonpos (sub_nonpos.mpr hle)] at h₂
      linarith [neg_abs_le (R.fl b - b)]
    · rw [abs_of_nonneg (sub_nonneg.mpr hle)] at h₂
      linarith [neg_abs_le (R.fl b - b)]
  linarith

/-- Any rational, the negative ones like their magnitudes. -/
def signed (x : ℚ) : ℚ := if x < 0 then -R.fl (-x) else R.fl x

theorem signed_of_nonneg (h : 0 ≤ x) : R.signed x = R.fl x := if_neg (not_lt.mpr h)

theorem signed_mono (h : a ≤ b) : R.signed a ≤ R.signed b := by
  unfold signed
  by_cases ha : a < 0
  · rw [if_pos ha]
    by_cases hb : b < 0
    · rw [if_pos hb]
      exact neg_le_neg (R.mono (neg_nonneg.mpr hb.le) (neg_le_neg h))
    · rw [if_neg hb]
      exact (neg_nonpos.mpr (R.nonneg (neg_nonneg.mpr ha.le))).trans (R.nonneg (not_lt.mp hb))
  · have ha' := not_lt.mp ha
    rw [if_neg ha, if_neg (not_lt.mpr (ha'.trans h))]
    exact R.mono ha' h

/-- Between two numbers that round to the same, all do. -/
theorem eq_of_between {c : ℚ} (ha : 0 ≤ a) (hac : a ≤ c) (hcb : c ≤ b) (h : R.fl a = R.fl b) :
    R.fl c = R.fl b :=
  le_antisymm (R.mono (ha.trans hac) hcb) (h ▸ R.mono ha hac)

end Rounding

/-! ## Ties to even -/

/-- The nearest integer, the even one of two. -/
def roundEven (q : ℚ) : ℤ :=
  if q - ⌊q⌋ = 1 / 2 then if ⌊q⌋ % 2 = 0 then ⌊q⌋ else ⌊q⌋ + 1 else round q

theorem roundEven_le (q : ℚ) (z : ℤ) : |(roundEven q : ℚ) - q| ≤ |(z : ℚ) - q| := by
  have hround : |q - round q| ≤ |q - z| := round_le q z
  rw [abs_sub_comm (z : ℚ) q]
  unfold roundEven
  split
  · next htie =>
    have hmin : |q - round q| = 1 / 2 := by
      rw [abs_sub_round_eq_min, ← Int.self_sub_floor, htie]
      norm_num
    rw [hmin] at hround
    refine le_trans (le_of_eq ?_) hround
    split
    · rw [abs_sub_comm, htie]
      norm_num
    · push_cast
      rw [show (⌊q⌋ : ℚ) + 1 - q = 1 / 2 by linarith]
      norm_num
  · rw [abs_sub_comm]
    exact hround

theorem roundEven_nonneg {q : ℚ} (h : 0 ≤ q) : 0 ≤ roundEven q := by
  by_contra hlt
  rw [not_le] at hlt
  have hle := roundEven_le q 0
  have hneg : (roundEven q : ℚ) < 0 := by exact_mod_cast hlt
  rw [abs_of_neg (by linarith), Int.cast_zero, zero_sub, abs_neg, abs_of_nonneg h] at hle
  linarith

theorem roundEven_le_of_lt {q : ℚ} {n : ℤ} (h : q < n) : roundEven q ≤ n := by
  by_contra hlt
  rw [not_le] at hlt
  have hle := roundEven_le q n
  have hgt : (n : ℚ) < roundEven q := by exact_mod_cast hlt
  rw [abs_of_pos (by linarith), abs_of_pos (by linarith)] at hle
  linarith

/-- The exponent of the last bit of `x`. -/
def ulpExp (p : ℕ) (x : ℚ) : ℤ := Int.log 2 x - (p - 1)

def flEven (p : ℕ) (x : ℚ) : ℚ := if x = 0 then 0 else roundEven (x / 2 ^ ulpExp p x) * 2 ^ ulpExp p x

/-- The significand of `x` before it is rounded. -/
theorem significand_bounds (hx : 0 < x) :
    2 ^ ((p : ℤ) - 1) ≤ x / 2 ^ ulpExp p x ∧ x / 2 ^ ulpExp p x < 2 ^ (p : ℤ) := by
  have hpos : (0 : ℚ) < 2 ^ ulpExp p x := by positivity
  have hlo : (2 : ℚ) ^ Int.log 2 x ≤ x := by
    exact_mod_cast Int.zpow_log_le_self (b := 2) (by norm_num) hx
  have hhi : x < (2 : ℚ) ^ (Int.log 2 x + 1) := by
    exact_mod_cast Int.lt_zpow_succ_log_self (b := 2) (by norm_num) x
  constructor
  · rw [le_div_iff₀ hpos, ← zpow_add₀ two_ne_zero]
    refine le_trans (le_of_eq ?_) hlo
    congr 1
    unfold ulpExp
    ring
  · rw [div_lt_iff₀ hpos, ← zpow_add₀ two_ne_zero]
    refine lt_of_lt_of_eq hhi ?_
    congr 1
    unfold ulpExp
    ring

theorem rep_flEven (hp : 0 < p) (hx : 0 ≤ x) : Rep p (flEven p x) := by
  unfold flEven
  split
  · exact rep_zero
  · next hne =>
    have hpos : 0 < x := lt_of_le_of_ne hx (Ne.symm hne)
    have hnonneg : 0 ≤ roundEven (x / 2 ^ ulpExp p x) := roundEven_nonneg (by positivity)
    have hle : roundEven (x / 2 ^ ulpExp p x) ≤ (2 ^ p : ℤ) := by
      refine roundEven_le_of_lt ?_
      push_cast
      exact_mod_cast (significand_bounds hpos).2
    obtain ⟨m, hm⟩ := Int.eq_ofNat_of_zero_le hnonneg
    rw [hm] at hle ⊢
    have hmle : m ≤ 2 ^ p := by exact_mod_cast hle
    rcases hmle.lt_or_eq with hlt | heq
    · exact ⟨m, ulpExp p x, hlt, by push_cast; rfl⟩
    · refine ⟨1, p + ulpExp p x, Nat.one_lt_two_pow hp.ne', ?_⟩
      rw [heq, zpow_add₀ two_ne_zero]
      push_cast
      rw [one_mul, zpow_natCast]

/-- A number of the precision is a multiple of the last bit of `x`, or below the first bit. -/
theorem Rep.cases (h : Rep p y) (x : ℚ) :
    (∃ z : ℤ, y = z * 2 ^ ulpExp p x) ∨ y ≤ 2 ^ ((p : ℤ) - 1) * 2 ^ ulpExp p x := by
  obtain ⟨m, e, hm, rfl⟩ := h
  rcases le_or_gt (ulpExp p x) e with he | he
  · left
    obtain ⟨k, hk⟩ := Int.eq_ofNat_of_zero_le (sub_nonneg.mpr he)
    refine ⟨m * 2 ^ k, ?_⟩
    have hexp : e = k + ulpExp p x := by
      rw [show (k : ℤ) = e - ulpExp p x from hk.symm]
      ring
    rw [hexp, zpow_add₀ two_ne_zero]
    push_cast
    rw [zpow_natCast]
    ring
  · right
    have hm' : (m : ℚ) ≤ 2 ^ (p : ℤ) := by
      rw [zpow_natCast]
      exact_mod_cast hm.le
    calc (m : ℚ) * 2 ^ e ≤ 2 ^ (p : ℤ) * 2 ^ e := by gcongr
      _ = 2 ^ ((p : ℤ) + e) := by rw [zpow_add₀ two_ne_zero]
      _ ≤ 2 ^ ((p : ℤ) - 1 + ulpExp p x) := zpow_le_zpow_right₀ (by norm_num) (by omega)
      _ = _ := by rw [zpow_add₀ two_ne_zero]

/-- No multiple of the last bit is nearer. -/
theorem flEven_le_multiple (hx : 0 < x) (z : ℤ) :
    |flEven p x - x| ≤ |(z : ℚ) * 2 ^ ulpExp p x - x| := by
  have hpos : (0 : ℚ) < 2 ^ ulpExp p x := by positivity
  have hscale (w : ℤ) : |(w : ℚ) * 2 ^ ulpExp p x - x| =
      |(w : ℚ) - x / 2 ^ ulpExp p x| * 2 ^ ulpExp p x := by
    rw [← abs_of_pos hpos, ← abs_mul, abs_of_pos hpos, sub_mul, div_mul_cancel₀ _ hpos.ne']
  unfold flEven
  rw [if_neg hx.ne', hscale, hscale]
  exact mul_le_mul_of_nonneg_right (roundEven_le _ z) hpos.le

theorem nearest_flEven (hp : 0 < p) (hx : 0 ≤ x) (hy : Rep p y) : |flEven p x - x| ≤ |y - x| := by
  rcases hx.eq_or_lt with rfl | hx
  · unfold flEven
    rw [if_pos rfl, sub_self, abs_zero]
    exact abs_nonneg _
  rcases hy.cases x with ⟨z, rfl⟩ | hle
  · exact flEven_le_multiple hx z
  · -- the first bit alone is nearer than anything below it
    obtain ⟨q, rfl⟩ : ∃ q, p = q + 1 := ⟨p - 1, by omega⟩
    have hlo := (significand_bounds (p := q + 1) hx).1
    rw [le_div_iff₀ (by positivity)] at hlo
    have hz := flEven_le_multiple (p := q + 1) hx (2 ^ q)
    have hcast : (((2 : ℤ) ^ q : ℤ) : ℚ) = 2 ^ (((q + 1 : ℕ) : ℤ) - 1) := by
      push_cast
      rw [add_sub_cancel_right, zpow_natCast]
    rw [hcast] at hz
    refine hz.trans ?_
    rw [abs_of_nonpos (sub_nonpos.mpr hlo), abs_of_nonpos (by linarith)]
    linarith

/-- Rounding to nearest, ties to even. -/
def nearestEven (p : ℕ) (hp : 0 < p) : Rounding p where
  fl := flEven p
  rep _ hx := rep_flEven hp hx
  nearest _ _ hx hy := nearest_flEven hp hx hy

/-! ## Errors -/

/-- There is a number of the precision within one part in `2 ^ p`. -/
theorem exists_near (hp : 0 < p) (hx : 0 ≤ x) : ∃ y, Rep p y ∧ |y - x| * 2 ^ p ≤ x := by
  rcases hx.eq_or_lt with rfl | hx
  · exact ⟨0, rep_zero, by simp⟩
  refine ⟨flEven p x, rep_flEven hp hx.le, ?_⟩
  have hpos : (0 : ℚ) < 2 ^ ulpExp p x := by positivity
  have hhalf : |flEven p x - x| ≤ 1 / 2 * 2 ^ ulpExp p x := by
    refine (flEven_le_multiple hx (round (x / 2 ^ ulpExp p x))).trans ?_
    have h := abs_sub_round (x / 2 ^ ulpExp p x)
    rw [abs_sub_comm] at h
    have heq : (round (x / 2 ^ ulpExp p x) : ℚ) * 2 ^ ulpExp p x - x =
        ((round (x / 2 ^ ulpExp p x) : ℚ) - x / 2 ^ ulpExp p x) * 2 ^ ulpExp p x := by
      rw [sub_mul, div_mul_cancel₀ _ hpos.ne']
    rw [heq, abs_mul, abs_of_pos hpos]
    exact mul_le_mul_of_nonneg_right h hpos.le
  have hlo := (significand_bounds (p := p) hx).1
  rw [le_div_iff₀ hpos] at hlo
  calc |flEven p x - x| * 2 ^ p ≤ 1 / 2 * 2 ^ ulpExp p x * 2 ^ p := by gcongr
    _ = 2 ^ ((p : ℤ) - 1) * 2 ^ ulpExp p x := by
      rw [zpow_sub₀ two_ne_zero, zpow_natCast]
      ring
    _ ≤ x := hlo

namespace Rounding

variable (R : Rounding p)

theorem error (hp : 0 < p) (hx : 0 ≤ x) : |R.fl x - x| * 2 ^ p ≤ x := by
  obtain ⟨y, hy, hle⟩ := exists_near hp hx
  exact (mul_le_mul_of_nonneg_right (R.nearest x y hx hy) (by positivity)).trans hle

/-- Two numbers that round to the same are close. -/
theorem close_of_eq (hp : 0 < p) (ha : 0 ≤ a) (hab : a ≤ b) (h : R.fl a = R.fl b) :
    (b - a) * 2 ^ p ≤ 2 * b := by
  have hea := R.error hp ha
  have heb := R.error hp (ha.trans hab)
  have hsum : b - a ≤ |R.fl a - a| + |R.fl b - b| := by
    rw [h]
    linarith [le_abs_self (R.fl b - a), neg_abs_le (R.fl b - b)]
  have hmul : (b - a) * 2 ^ p ≤ (|R.fl a - a| + |R.fl b - b|) * 2 ^ p :=
    mul_le_mul_of_nonneg_right hsum (by positivity)
  linarith

end Rounding

end Numeric

end LdkSample
