import Mathlib.Algebra.Order.Floor.Ring
import Mathlib.Data.Rat.Floor
import Mathlib.Tactic.Linarith
import Mathlib.Tactic.Positivity

/-!
# Rounding

Rounding of a rational to a number of decimal digits, ties to the even neighbour. What was rounded
is left as it is, and the unit interval is kept.
-/

namespace Codey

/-- The nearest integer, the even one of two. -/
def roundHalfEven (q : ℚ) : ℤ :=
  if Int.fract q < 1 / 2 then ⌊q⌋
  else if 1 / 2 < Int.fract q then ⌊q⌋ + 1
  else if ⌊q⌋ % 2 = 0 then ⌊q⌋
  else ⌊q⌋ + 1

/-- `round(q, digits)` -/
def roundTo (digits : ℕ) (q : ℚ) : ℚ := roundHalfEven (q * 10 ^ digits) / 10 ^ digits

variable {digits : ℕ} {q : ℚ}

lemma roundHalfEven_intCast (n : ℤ) : roundHalfEven n = n := by
  rw [roundHalfEven, Int.fract_intCast, if_pos (by norm_num), Int.floor_intCast]

lemma floor_le_roundHalfEven (q : ℚ) : ⌊q⌋ ≤ roundHalfEven q := by
  unfold roundHalfEven
  split_ifs <;> omega

lemma roundHalfEven_le_ceil (q : ℚ) : roundHalfEven q ≤ ⌈q⌉ := by
  have hfloor : ⌊q⌋ ≤ ⌈q⌉ := Int.floor_le_ceil q
  by_cases hfract : Int.fract q < 1 / 2
  · rw [roundHalfEven, if_pos hfract]
    exact hfloor
  · have hlt : ⌊q⌋ < ⌈q⌉ := by
      rw [Int.lt_ceil]
      have := Int.floor_add_fract q
      linarith
    unfold roundHalfEven
    split_ifs <;> omega

lemma roundTo_roundTo (digits : ℕ) (q : ℚ) :
    roundTo digits (roundTo digits q) = roundTo digits q := by
  have hpow : (10 : ℚ) ^ digits ≠ 0 := by positivity
  rw [roundTo, roundTo, div_mul_cancel₀ _ hpow, roundHalfEven_intCast]

lemma roundTo_nonneg (hq : 0 ≤ q) : 0 ≤ roundTo digits q := by
  have hfloor : 0 ≤ ⌊q * 10 ^ digits⌋ := Int.floor_nonneg.mpr (by positivity)
  have hround : (0 : ℚ) ≤ roundHalfEven (q * 10 ^ digits) := by
    exact_mod_cast hfloor.trans (floor_le_roundHalfEven _)
  rw [roundTo]
  positivity

lemma roundTo_le_one (hq : q ≤ 1) : roundTo digits q ≤ 1 := by
  have hpow : (0 : ℚ) < 10 ^ digits := by positivity
  have hceil : ⌈q * 10 ^ digits⌉ ≤ (10 ^ digits : ℤ) := by
    rw [Int.ceil_le]
    push_cast
    nlinarith
  rw [roundTo, div_le_one hpow]
  exact_mod_cast (roundHalfEven_le_ceil _).trans hceil

end Codey
