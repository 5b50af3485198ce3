import Mathlib.Algebra.Order.Floor.Ring
import Mathlib.Data.Int.Log
import Mathlib.Data.Rat.Floor
import Mathlib.Tactic.NormNum
import Mathlib.Tactic.Positivity
import Mathlib.Tactic.Ring

namespace Numerals

-- A value of the IEEE 754 format binary64, but for NaN and the sign of zero.
inductive Double where
  | finite (q : ℚ)
  | infinite (negative : Bool)
  deriving DecidableEq, Repr

def roundHalfEven (q : ℚ) : Int :=
  let below := ⌊q⌋
  if q - below < 1 / 2 ∨ (q - below = 1 / 2 ∧ below % 2 = 0) then below else below + 1

-- The exponent of the last bit of the significand, which has 53 bits unless `q` is subnormal.
def ulpExponent (q : ℚ) : Int := max (Int.log 2 |q| - 52) (-1074)

def binary64 (q : ℚ) : Double :=
  let ulp : ℚ := 2 ^ ulpExponent q
  let nearest := roundHalfEven (q / ulp) * ulp
  if 2 ^ 1024 ≤ |nearest| then .infinite (q < 0) else .finite nearest

theorem roundHalfEven_int (n : Int) : roundHalfEven n = n := by
  simp [roundHalfEven]

theorem ulpExponent_nonpos {q : ℚ} (h : |q| < 2 ^ 53) : ulpExponent q ≤ 0 := by
  rcases eq_or_ne q 0 with rfl | hq
  · simp [ulpExponent]
  have hlog : Int.log 2 |q| < 53 := (Int.lt_zpow_iff_log_lt (by decide) (abs_pos.mpr hq)).mp h
  rw [ulpExponent]
  omega

theorem binary64_int {n : Int} (h : |n| < 2 ^ 53) : binary64 n = .finite n := by
  have hq : |(n : ℚ)| < 2 ^ 53 := by exact_mod_cast h
  obtain ⟨k, hk⟩ := Int.eq_ofNat_of_zero_le (Int.neg_nonneg_of_nonpos (ulpExponent_nonpos hq))
  have hulp : (2 : ℚ) ^ ulpExponent n = (2 ^ k)⁻¹ := by
    rw [← neg_neg (ulpExponent n), hk, zpow_neg]
    rfl
  have hround : roundHalfEven ((n : ℚ) / 2 ^ ulpExponent n) = n * 2 ^ k := by
    rw [hulp, div_inv_eq_mul]
    exact_mod_cast roundHalfEven_int (n * 2 ^ k)
  have hback : (roundHalfEven ((n : ℚ) / 2 ^ ulpExponent n) : ℚ) * 2 ^ ulpExponent n = n := by
    rw [hround, hulp]
    push_cast
    exact mul_inv_cancel_right₀ (by positivity) _
  rw [binary64, hback, if_neg]
  exact not_le.mpr (hq.trans (pow_lt_pow_right₀ (by norm_num) (by norm_num)))

end Numerals
