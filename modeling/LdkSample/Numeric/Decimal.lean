import LdkSample.Numeric.Binary
import Mathlib.Data.Nat.Digits.Lemmas

/-!
# Shortest decimals

A binary number is printed as a decimal with as few digits as can be that rounds back to it
(`Shortest`). Where it is the rounding of a multiple `n` of a power of ten, and `n` is well within
the precision, that decimal is the multiple itself (`shortest_multiple`): nothing is lost when
amounts with a fixed number of places go through binary numbers.
-/

namespace LdkSample

namespace Numeric

/-- `digits * 10 ^ exp`. -/
structure Decimal where
  digits : ℕ
  exp : ℤ
  deriving DecidableEq, Repr

namespace Decimal

def value (d : Decimal) : ℚ := d.digits * 10 ^ d.exp

/-- The number of digits. -/
def length (d : Decimal) : ℕ := (Nat.digits 10 d.digits).length

theorem value_nonneg (d : Decimal) : 0 ≤ d.value := by
  unfold value
  positivity

theorem digits_lt (d : Decimal) : d.digits < 10 ^ d.length := Nat.lt_base_pow_length_digits (by decide)

theorem length_pos {d : Decimal} (h : d.digits ≠ 0) : 0 < d.length :=
  List.length_pos_iff.mpr (Nat.digits_ne_nil_iff_ne_zero.mpr h)

theorem pow_length_le {d : Decimal} (h : d.digits ≠ 0) : 10 ^ (d.length - 1) ≤ d.digits := by
  have hle : 10 ^ d.length ≤ 10 * d.digits := Nat.base_pow_length_digits_le' 8 d.digits h
  obtain ⟨k, hk⟩ : ∃ k, d.length = k + 1 := ⟨d.length - 1, by have := length_pos h; omega⟩
  rw [hk, Nat.pow_succ] at hle
  rw [hk, Nat.add_sub_cancel]
  omega

end Decimal

variable {p : ℕ} {fl : ℚ → ℚ} {x : ℚ} {d : Decimal}

/-- `d` rounds to `x`, and no decimal with fewer digits does. -/
structure Shortest (fl : ℚ → ℚ) (x : ℚ) (d : Decimal) : Prop where
  rounds : fl d.value = x
  least : ∀ d' : Decimal, fl d'.value = x → d.length ≤ d'.length

/-- What some decimal rounds to has a shortest one. -/
theorem exists_shortest (d : Decimal) : ∃ d', Shortest fl (fl d.value) d' := by
  classical
  have hex : ∃ k, ∃ d' : Decimal, fl d'.value = fl d.value ∧ d'.length = k := ⟨_, d, rfl, rfl⟩
  obtain ⟨d', hd', hlen⟩ := Nat.find_spec hex
  refine ⟨d', hd', fun d'' h => ?_⟩
  rw [hlen]
  exact Nat.find_min' hex ⟨d'', h, rfl⟩

section Multiples

variable (R : Rounding p) {n : ℕ} {u : ℤ}

/-- Different multiples of a unit round differently, within the precision. -/
theorem Rounding.multiple_inj (hp : 0 < p) {t : ℚ} (ht : 0 < t) {a b : ℕ}
    (ha : 2 * (a + 1) < 2 ^ p) (h : R.fl (a * t) = R.fl (b * t)) : a = b := by
  have close : ∀ c d : ℕ, c < d → R.fl (c * t) = R.fl (d * t) → (d - c) * 2 ^ p ≤ 2 * d := by
    intro c d hlt heq
    have hcd : (c : ℚ) < d := by exact_mod_cast hlt
    have hclose := R.close_of_eq hp (by positivity) (mul_le_mul_of_nonneg_right hcd.le ht.le) heq
    have hfactor : ((d : ℚ) - c) * 2 ^ p * t ≤ 2 * d * t := by linarith
    have hq : ((d : ℚ) - c) * 2 ^ p ≤ 2 * d := le_of_mul_le_mul_right hfactor ht
    have hq' : (((d - c) * 2 ^ p : ℕ) : ℚ) ≤ (2 * d : ℕ) := by
      push_cast [Nat.cast_sub hlt.le]
      exact hq
    exact_mod_cast hq'
  rcases lt_trichotomy a b with hlt | heq | hgt
  · obtain ⟨k, rfl⟩ : ∃ k, b = a + k := ⟨b - a, by omega⟩
    have hle := close a (a + k) hlt h
    rw [Nat.add_sub_cancel_left] at hle
    have hk : 0 < k := by omega
    have hmul : k * (2 * (a + 1) + 1) ≤ k * 2 ^ p := Nat.mul_le_mul_left k ha
    have hka : a ≤ k * a := Nat.le_mul_of_pos_left a hk
    nlinarith
  · exact heq
  · have hle := close b a hgt h.symm
    have hmul : 1 * 2 ^ p ≤ (a - b) * 2 ^ p := Nat.mul_le_mul_right _ (by omega)
    omega

theorem two_pow_ge (hp : 5 ≤ p) : (32 : ℚ) ≤ 2 ^ p := by
  calc (32 : ℚ) = 2 ^ 5 := by norm_num
    _ ≤ 2 ^ p := pow_le_pow_right₀ (by norm_num) hp

/-- A shortest decimal with places below the unit would be a single digit, and too small. -/
theorem Rounding.not_below (hp : 5 ≤ p) (hn : n ≠ 0)
    (h : Shortest R.fl (R.fl (n * 10 ^ u)) d) : u ≤ d.exp := by
  by_contra hlt
  rw [not_le] at hlt
  have hlen : d.length ≤ (Decimal.mk n u).length := h.least ⟨n, u⟩ rfl
  have hpow := Decimal.pow_length_le (d := ⟨n, u⟩) hn
  have hpos := Decimal.length_pos (d := ⟨n, u⟩) hn
  generalize (Decimal.mk n u).length = D at hlen hpow hpos
  obtain ⟨k, rfl⟩ : ∃ k, D = k + 1 := ⟨D - 1, by omega⟩
  rw [Nat.add_sub_cancel] at hpow
  -- the first digit of the multiple, alone
  have hc : ((Decimal.mk 1 (k + u)).value : ℚ) = 10 ^ k * 10 ^ u := by
    unfold Decimal.value
    rw [zpow_add₀ (by norm_num), zpow_natCast]
    push_cast
    ring
  have hcn : (10 : ℚ) ^ k * 10 ^ u ≤ n * 10 ^ u := by
    have hq : ((10 ^ k : ℕ) : ℚ) ≤ n := by exact_mod_cast hpow
    push_cast at hq
    gcongr
  have hexp : (10 : ℚ) ^ d.exp ≤ 10 ^ (u - 1) := zpow_le_zpow_right₀ (by norm_num) (by omega)
  have hten : (10 : ℚ) ^ (u - 1) * 10 = 10 ^ u := by
    rw [zpow_sub₀ (by norm_num)]
    norm_num
  have hval (L : ℕ) (hL : d.length ≤ L + 1) : d.value ≤ 10 ^ L * 10 ^ u := by
    have hdig : (d.digits : ℚ) ≤ 10 ^ (L + 1) := by
      have hlt := d.digits_lt.le.trans (Nat.pow_le_pow_right (by decide) hL)
      exact_mod_cast hlt
    calc d.value = d.digits * 10 ^ d.exp := rfl
      _ ≤ 10 ^ (L + 1) * 10 ^ (u - 1) := by gcongr
      _ = 10 ^ L * 10 ^ u := by rw [← hten]; ring
  have hround : R.fl (10 ^ k * 10 ^ u) = R.fl (n * 10 ^ u) :=
    R.eq_of_between d.value_nonneg (hval k hlen) hcn h.rounds
  have hone : d.length ≤ 1 := by
    have hle := h.least ⟨1, k + u⟩ (by rw [hc]; exact hround)
    have h1 : (Decimal.mk 1 (k + u)).length = 1 := by simp [Decimal.length]
    omega
  have hnine : d.value ≤ 9 * 10 ^ (u - 1) := by
    have hdig : d.digits ≤ 9 := by
      have hlt := d.digits_lt.trans_le (Nat.pow_le_pow_right (by decide) hone)
      omega
    have hq : (d.digits : ℚ) ≤ 9 := by exact_mod_cast hdig
    calc d.value = d.digits * 10 ^ d.exp := rfl
      _ ≤ 9 * 10 ^ (u - 1) := by gcongr
  have hunit : (0 : ℚ) < 10 ^ u := by positivity
  have hfirst : (10 : ℚ) ^ u ≤ 10 ^ k * 10 ^ u :=
    le_mul_of_one_le_left hunit.le (one_le_pow₀ (by norm_num))
  have htenth : 1 / 10 * (10 ^ k * 10 ^ u) ≤ 10 ^ k * 10 ^ u - d.value := by linarith
  have hclose := R.close_of_eq (by omega) d.value_nonneg (by linarith : d.value ≤ 10 ^ k * 10 ^ u)
    (h.rounds.trans hround.symm)
  have hgap : 1 / 10 * (10 ^ k * 10 ^ u) * 32 ≤ (10 ^ k * 10 ^ u - d.value) * 2 ^ p :=
    mul_le_mul htenth (two_pow_ge hp) (by norm_num) (by linarith)
  linarith

/-- **The shortest decimal of a rounded multiple is the multiple.** -/
theorem Rounding.shortest_multiple (hp : 5 ≤ p) (hn : 2 * (n + 1) < 2 ^ p)
    (h : Shortest R.fl (R.fl (n * 10 ^ u)) d) : d.value = n * 10 ^ u := by
  have hunit : (0 : ℚ) < 10 ^ u := by positivity
  rcases Nat.eq_zero_or_pos n with rfl | hpos
  · have hclose := R.close_of_eq (a := 0) (by omega) (le_refl _) d.value_nonneg
      (by rw [h.rounds]; simp)
    have hgap : d.value * 32 ≤ d.value * 2 ^ p :=
      mul_le_mul_of_nonneg_left (two_pow_ge hp) d.value_nonneg
    rw [Nat.cast_zero, zero_mul]
    linarith [d.value_nonneg]
  · obtain ⟨k, hk⟩ := Int.eq_ofNat_of_zero_le (sub_nonneg.mpr (R.not_below hp hpos.ne' h))
    have hval : d.value = (d.digits * 10 ^ k : ℕ) * 10 ^ u := by
      unfold Decimal.value
      rw [show d.exp = k + u by omega, zpow_add₀ (by norm_num), zpow_natCast]
      push_cast
      ring
    have hround := h.rounds
    rw [hval] at hround ⊢
    rw [R.multiple_inj (by omega) hunit hn hround.symm]

end Multiples

end Numeric

end LdkSample
