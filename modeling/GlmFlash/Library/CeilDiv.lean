import Mathlib.Algebra.Order.Floor.Div
import Mathlib.Tactic.Linarith

/-!
# Ceiling division

Page and block arithmetic counts how many units of a fixed size cover an
amount.  The lemmas are the Galois connection with multiplication and its
consequences for remainders.
-/

namespace GlmFlash.Library

/-- The number of units of size `unit` that cover `amount`. -/
def cdiv (amount unit : ℕ) : ℕ :=
  amount ⌈/⌉ unit

variable {amount amount' unit count : ℕ}

theorem cdiv_le_iff (hunit : 0 < unit) :
    cdiv amount unit ≤ count ↔ amount ≤ unit * count :=
  ceilDiv_le_iff_le_mul hunit

theorem lt_cdiv_iff (hunit : 0 < unit) :
    count < cdiv amount unit ↔ unit * count < amount := by
  rw [← not_le, cdiv_le_iff hunit, not_le]

theorem cdiv_mono (hunit : 0 < unit) (hle : amount ≤ amount') :
    cdiv amount unit ≤ cdiv amount' unit := by
  rw [cdiv_le_iff hunit]
  exact hle.trans ((cdiv_le_iff hunit).mp le_rfl)

@[simp]
theorem cdiv_zero (unit : ℕ) : cdiv 0 unit = 0 := by
  simp [cdiv]

theorem cdiv_pos (hunit : 0 < unit) (hamount : 0 < amount) :
    0 < cdiv amount unit := by
  rw [lt_cdiv_iff hunit]
  simpa using hamount

/-- The unit that holds the last item has index `(amount - 1) / unit`. -/
theorem cdiv_eq_pred_div_succ (hunit : 0 < unit) (hamount : 0 < amount) :
    cdiv amount unit = (amount - 1) / unit + 1 := by
  apply le_antisymm
  · rw [cdiv_le_iff hunit]
    have hlt := Nat.lt_mul_div_succ (amount - 1) hunit
    omega
  · rw [Nat.succ_le_iff, lt_cdiv_iff hunit]
    have hle := Nat.mul_div_le (amount - 1) unit
    omega

theorem cdiv_mul (hunit : 0 < unit) : cdiv (count * unit) unit = count := by
  apply le_antisymm
  · rw [cdiv_le_iff hunit, Nat.mul_comm]
  · have hle := (cdiv_le_iff hunit).mp (le_refl (cdiv (count * unit) unit))
    rw [Nat.mul_comm count unit] at hle ⊢
    exact Nat.le_of_mul_le_mul_left hle hunit

/-- An amount that ends inside a unit. -/
theorem cdiv_eq_succ (hunit : 0 < unit) (hlow : count * unit < amount)
    (hhigh : amount ≤ (count + 1) * unit) : cdiv amount unit = count + 1 := by
  apply le_antisymm
  · rw [cdiv_le_iff hunit, Nat.mul_comm]
    exact hhigh
  · rw [Nat.succ_le_iff, lt_cdiv_iff hunit, Nat.mul_comm]
    exact hlow

/-- Fewer units cover an amount when each is several times as large. -/
theorem cdiv_mul_lt {scale : ℕ} (hunit : 0 < unit) (hscale : 2 ≤ scale)
    (hamount : unit * scale < amount) :
    cdiv amount (unit * scale) < cdiv amount unit := by
  have hlarge : 0 < unit * scale := Nat.mul_pos hunit (by omega)
  have hmany : 1 < cdiv amount (unit * scale) := by
    rw [lt_cdiv_iff hlarge, Nat.mul_one]
    exact hamount
  cases hcount : cdiv amount (unit * scale) with
  | zero => omega
  | succ rest =>
      have hrest : unit * scale * rest < amount := by
        rw [← lt_cdiv_iff hlarge, hcount]
        exact Nat.lt_succ_self rest
      have hfar : scale * rest < cdiv amount unit := by
        rw [lt_cdiv_iff hunit, ← Nat.mul_assoc]
        exact hrest
      have hdouble : 2 * rest ≤ scale * rest := Nat.mul_le_mul_right _ hscale
      omega

/-- An amount that does not fill its last unit needs one more than it
fills. -/
theorem cdiv_of_mod_ne_zero (hunit : 0 < unit)
    (hmod : amount % unit ≠ 0) : cdiv amount unit = amount / unit + 1 := by
  have hsplit := Nat.div_add_mod amount unit
  have hlt := Nat.mod_lt amount hunit
  apply le_antisymm
  · rw [cdiv_le_iff hunit, Nat.mul_succ]
    omega
  · rw [Nat.succ_le_iff, lt_cdiv_iff hunit]
    omega

end GlmFlash.Library
