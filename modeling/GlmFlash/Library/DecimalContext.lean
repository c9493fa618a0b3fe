import Mathlib.Algebra.Order.Floor.Ring
import Mathlib.Data.Int.Log
import Mathlib.Data.Rat.Floor

/-!
# Decimal arithmetic in a context

A result is rounded to the digits of the context, half to even, where numbers
below the least exponent keep fewer digits.  A result beyond the largest
exponent is an overflow.
-/

namespace GlmFlash.Library

structure DecimalContext where
  prec : ℕ
  emin : ℤ
  emax : ℤ

/-- The nearest integer, the even one of two. -/
def roundHalfEven (value : ℚ) : ℤ :=
  let below := ⌊value⌋
  let rest := value - below
  if rest < 1 / 2 then below
  else if 1 / 2 < rest then below + 1
  else if below % 2 = 0 then below
  else below + 1

namespace DecimalContext

variable (context : DecimalContext)

/-- The exponent of the last digit that is kept. -/
def lastExponent (value : ℚ) : ℤ :=
  max (Int.log 10 |value|) context.emin - (context.prec - 1)

/-- The rounded value, or none on an overflow. -/
def fix (value : ℚ) : Option ℚ :=
  let quantum := (10 : ℚ) ^ context.lastExponent value
  let rounded := roundHalfEven (value / quantum) * quantum
  if |rounded| < (10 : ℚ) ^ (context.emax + 1) then some rounded else none

end DecimalContext

theorem roundHalfEven_intCast (value : ℤ) : roundHalfEven value = value := by
  rw [roundHalfEven]
  simp

namespace DecimalContext

variable {context : DecimalContext}

theorem fix_zero : context.fix 0 = some 0 := by
  have hround : roundHalfEven 0 = 0 := roundHalfEven_intCast 0
  rw [fix, zero_div, hround, Int.cast_zero, zero_mul, abs_zero,
    if_pos (zpow_pos (by norm_num) _)]

/-- A power of ten is kept as it is, up to the largest exponent. -/
theorem fix_pow {exponent : ℤ} (hmin : context.emin ≤ exponent)
    (hprec : 1 ≤ context.prec) :
    context.fix ((10 : ℚ) ^ exponent) =
      if exponent ≤ context.emax then some ((10 : ℚ) ^ exponent) else none := by
  have hpos : (0 : ℚ) < 10 ^ exponent := zpow_pos (by norm_num) exponent
  have hlast : context.lastExponent ((10 : ℚ) ^ exponent) =
      exponent - (context.prec - 1 : ℕ) := by
    rw [lastExponent, abs_of_pos hpos]
    have hlog : Int.log 10 ((10 : ℚ) ^ exponent) = exponent := by
      exact_mod_cast Int.log_zpow (R := ℚ) (by norm_num : 1 < 10) exponent
    rw [hlog, max_eq_left hmin, Nat.cast_sub hprec, Nat.cast_one]
  have hscaled : (10 : ℚ) ^ exponent / 10 ^ (exponent - (context.prec - 1 : ℕ)) =
      ((10 ^ (context.prec - 1) : ℤ) : ℚ) := by
    rw [← zpow_sub₀ (by norm_num), sub_sub_cancel, zpow_natCast]
    norm_cast
  have hback : ((10 ^ (context.prec - 1) : ℤ) : ℚ) *
      10 ^ (exponent - (context.prec - 1 : ℕ)) = 10 ^ exponent := by
    rw [← hscaled, div_mul_cancel₀ _ (zpow_ne_zero _ (by norm_num))]
  rw [fix, hlast, hscaled, roundHalfEven_intCast, hback, abs_of_pos hpos]
  apply if_congr _ rfl rfl
  rw [zpow_lt_zpow_iff_right₀ (by norm_num), Int.lt_add_one_iff]

-- The powers of ten are not to be computed.
attribute [irreducible] fix

end DecimalContext

end GlmFlash.Library
