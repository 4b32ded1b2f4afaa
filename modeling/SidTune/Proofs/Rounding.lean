import Mathlib.Algebra.Order.Round
import Mathlib.Data.Finite.Prod
import Mathlib.Data.Int.Interval
import Mathlib.Data.Rat.Floor
import Mathlib.Data.Set.Finite.Lemmas
import Mathlib.Tactic.FieldSimp
import Mathlib.Tactic.Linarith
import Mathlib.Tactic.NormNum
import Mathlib.Tactic.Positivity
import SidTune.Basic

/-!
# Rounding twice

A quotient that is computed in binary64 is rounded to a nearest double before it is rounded to a
whole number. For quotients with small divisors the first rounding does no harm: rounding to a
nearest double keeps the order, the halves are doubles, and between a quotient below a half and
that half there is room for another double.

## Main definitions

* `SidTune.IsDouble`: the finite numbers of binary64.
* `SidTune.IsNearestDouble`: what an exact number becomes in binary64.

## Main results

* `SidTune.exists_isNearestDouble`: every number has a nearest double.
* `SidTune.round_div`, `SidTune.abs_roundedQuotient_sub_le`: a rounded quotient is the exact one
  rounded, and off by a half at most.
* `SidTune.round_of_isNearestDouble`: rounding a nearest double of a quotient gives the rounded
  quotient.
-/

namespace SidTune

/-! ### Nearest doubles -/

/-- A finite number of binary64: a significand of 53 bits and a sign, times a power of two. -/
def IsDouble (x : ℚ) : Prop :=
  ∃ significand exponent : ℤ, |significand| < 2 ^ 53 ∧ -1074 ≤ exponent ∧ exponent ≤ 971 ∧
    x = significand * 2 ^ exponent

/-- What an exact number becomes in binary64: no double is nearer to it. Which of two doubles that
are as near is taken is left open. -/
structure IsNearestDouble (x d : ℚ) : Prop where
  isDouble : IsDouble d
  nearest : ∀ d', IsDouble d' → |x - d| ≤ |x - d'|

private theorem finite_isDouble : {x | IsDouble x}.Finite := by
  refine ((Set.finite_Icc (-2 ^ 53 : ℤ) (2 ^ 53)).image2 (fun m e : ℤ => (m : ℚ) * 2 ^ e)
    (Set.finite_Icc (-1074 : ℤ) 971)).subset ?_
  rintro x ⟨m, e, hsmall, hlow, hhigh, rfl⟩
  obtain ⟨hlower, hupper⟩ := abs_lt.1 hsmall
  exact ⟨m, ⟨hlower.le, hupper.le⟩, e, ⟨hlow, hhigh⟩, rfl⟩

/-- Every number has a nearest double. -/
theorem exists_isNearestDouble (x : ℚ) : ∃ d, IsNearestDouble x d := by
  have hzero : IsDouble 0 := ⟨0, 0, by simp⟩
  obtain ⟨d, hisDouble, hnearest⟩ := Set.exists_min_image _ (|x - ·|) finite_isDouble ⟨0, hzero⟩
  exact ⟨d, hisDouble, hnearest⟩

namespace IsNearestDouble

variable {x d y : ℚ}

theorem le (h : IsNearestDouble x d) (hy : IsDouble y) (hbelow : y ≤ x) : y ≤ d := by
  by_contra! hless
  have hnear := h.nearest y hy
  rw [abs_of_nonneg (by linarith), abs_of_nonneg (by linarith)] at hnear
  linarith

theorem ge (h : IsNearestDouble x d) (hy : IsDouble y) (habove : x ≤ y) : d ≤ y := by
  by_contra! hmore
  have hnear := h.nearest y hy
  rw [abs_of_nonpos (by linarith), abs_of_nonpos (by linarith)] at hnear
  linarith

end IsNearestDouble

/-! ### Quotients -/

section Quotients

variable {dividend divisor : ℕ}

/-- A quotient is at least half below its rounding, and less than half above by so much that there
is room for half the reciprocal of the divisor. -/
theorem roundedQuotient_bounds (dividend : ℕ) (hpos : 0 < divisor) :
    (roundedQuotient dividend divisor : ℚ) - 1 / 2 ≤ dividend / divisor ∧
      (dividend / divisor : ℚ) ≤ roundedQuotient dividend divisor + 1 / 2 - 1 / (2 * divisor) := by
  have hpos' : (0 : ℚ) < divisor := by exact_mod_cast hpos
  have hlow : 2 * divisor * roundedQuotient dividend divisor ≤ 2 * dividend + divisor :=
    Nat.mul_div_le ..
  have hhigh : 2 * dividend + 1 ≤ (2 * roundedQuotient dividend divisor + 1) * divisor :=
    (roundedQuotient_le_iff hpos).1 le_rfl
  have hlow : (2 * divisor * roundedQuotient dividend divisor : ℚ) ≤ 2 * dividend + divisor := by
    exact_mod_cast hlow
  have hhigh : (2 * dividend + 1 : ℚ) ≤ (2 * roundedQuotient dividend divisor + 1) * divisor := by
    exact_mod_cast hhigh
  constructor
  · rw [le_div_iff₀ hpos']
    linarith
  · rw [div_le_iff₀ hpos']
    have hcancel : 1 / (2 * (divisor : ℚ)) * divisor = 1 / 2 := by
      field_simp
    linarith

/-- The rounded quotient is the exact quotient rounded, a half upwards. -/
theorem round_div (dividend : ℕ) (hpos : 0 < divisor) :
    round (dividend / divisor : ℚ) = roundedQuotient dividend divisor := by
  obtain ⟨hlow, hhigh⟩ := roundedQuotient_bounds dividend hpos
  have hroom : (0 : ℚ) < 1 / (2 * divisor) := by positivity
  rw [round_eq, Int.floor_eq_iff]
  push_cast
  constructor <;> linarith

/-- A rounded quotient is off by a half at most. -/
theorem abs_roundedQuotient_sub_le (dividend : ℕ) (hpos : 0 < divisor) :
    |(roundedQuotient dividend divisor - dividend / divisor : ℚ)| ≤ 1 / 2 := by
  have hnear := abs_sub_round (dividend / divisor : ℚ)
  rwa [round_div dividend hpos, Int.cast_natCast, abs_sub_comm] at hnear

/-- Rounding a nearest double of a quotient gives the rounded quotient. -/
theorem round_of_isNearestDouble (hpos : 0 < divisor) (hsmall : divisor ≤ 2 ^ 16)
    (hfits : dividend < 2 ^ 32) {d : ℚ} (h : IsNearestDouble (dividend / divisor) d) :
    round d = roundedQuotient dividend divisor := by
  obtain ⟨hlow, hhigh⟩ := roundedQuotient_bounds dividend hpos
  have hbound : roundedQuotient dividend divisor ≤ dividend :=
    (roundedQuotient_le_iff hpos).2 (Nat.lt_of_lt_of_le (Nat.lt_succ_self _)
      (Nat.le_mul_of_pos_right _ hpos))
  generalize roundedQuotient dividend divisor = n at hlow hhigh hbound
  have hroom : (1 / 2 ^ 17 : ℚ) ≤ 1 / (2 * divisor) := by
    have hsmall : (divisor : ℚ) ≤ 2 ^ 16 := by exact_mod_cast hsmall
    have hpos : (0 : ℚ) < divisor := by exact_mod_cast hpos
    exact one_div_le_one_div_of_le (by positivity) (by linarith)
  -- The half below is a double, and so is a number between the quotient and the half above.
  have hhalf : IsDouble (n - 1 / 2) := by
    refine ⟨2 * n - 1, -1, ?_, by norm_num, by norm_num, ?_⟩
    · rw [abs_lt]
      omega
    · push_cast
      ring
  have hunder : IsDouble (n + 1 / 2 - 1 / 2 ^ 17) := by
    refine ⟨(2 * n + 1) * 2 ^ 16 - 1, -17, ?_, by norm_num, by norm_num, ?_⟩
    · rw [abs_lt]
      omega
    · push_cast
      ring
  have hleast : (n - 1 / 2 : ℚ) ≤ d := h.le hhalf hlow
  have hmost : d ≤ n + 1 / 2 - 1 / 2 ^ 17 := h.ge hunder (by linarith)
  rw [round_eq, Int.floor_eq_iff]
  push_cast
  constructor <;> linarith

end Quotients

end SidTune
