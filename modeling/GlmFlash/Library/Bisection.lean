import Mathlib.Order.Bounds.Basic
import Mathlib.Tactic.Linarith

/-!
# Doubling and bisection

The largest number within a budget, when smaller numbers are within it as
well: a bound is found by doubling, then the gap below it is halved.  Both
loops take the number of rounds that they may run.
-/

namespace GlmFlash.Library

variable (within : ℕ → Prop) [DecidablePred within]

/-- `while within(high): high *= 2` -/
def doubling : ℕ → ℕ → Option ℕ
  | 0, _ => none
  | rounds + 1, high =>
      if within high then doubling rounds (high * 2) else some high

/-- `while low + 1 < high`, with the half above or below the middle kept -/
def bisect : ℕ → ℕ → ℕ → Option ℕ
  | 0, _, _ => none
  | rounds + 1, low, high =>
      if low + 1 < high then
        if within ((low + high) / 2) then bisect rounds ((low + high) / 2) high
        else bisect rounds low ((low + high) / 2)
      else some low

variable {within}

theorem doubling_spec {bound rounds high : ℕ} (hbound : ∀ number ≥ bound, ¬within number)
    (hhigh : 0 < high) (hrounds : bound ≤ high + rounds) :
    ∃ stop, 0 < stop ∧ ¬within stop ∧
      ∀ more > rounds, doubling within more high = some stop := by
  induction rounds generalizing high with
  | zero =>
      have hout : ¬within high := hbound high hrounds
      refine ⟨high, hhigh, hout, ?_⟩
      intro more hmore
      cases more with
      | zero => exact absurd hmore (Nat.lt_irrefl 0)
      | succ more => rw [doubling, if_neg hout]
  | succ rounds ih =>
      by_cases hin : within high
      · obtain ⟨stop, hpos, hout, hall⟩ := ih (Nat.mul_pos hhigh Nat.two_pos) (by omega)
        refine ⟨stop, hpos, hout, ?_⟩
        intro more hmore
        cases more with
        | zero => exact absurd hmore (Nat.not_lt_zero _)
        | succ more =>
            rw [doubling, if_pos hin]
            exact hall more (Nat.lt_of_succ_lt_succ hmore)
      · refine ⟨high, hhigh, hin, ?_⟩
        intro more hmore
        cases more with
        | zero => exact absurd hmore (Nat.not_lt_zero _)
        | succ more => rw [doubling, if_neg hin]

theorem bisect_spec {rounds low high : ℕ} (hlow : within low) (hhigh : ¬within high)
    (hlt : low < high) (hrounds : high ≤ low + rounds) :
    ∃ largest, within largest ∧ ¬within (largest + 1) ∧
      ∀ more ≥ rounds, bisect within more low high = some largest := by
  induction rounds generalizing low high with
  | zero => exact absurd hlt (Nat.not_lt.mpr hrounds)
  | succ rounds ih =>
      by_cases hgap : low + 1 < high
      · by_cases hmiddle : within ((low + high) / 2)
        · obtain ⟨largest, hin, hout, hall⟩ :=
            ih hmiddle hhigh (by omega) (by omega)
          refine ⟨largest, hin, hout, ?_⟩
          intro more hmore
          cases more with
          | zero => exact absurd hmore (Nat.not_succ_le_zero _)
          | succ more =>
              rw [bisect, if_pos hgap, if_pos hmiddle]
              exact hall more (Nat.le_of_succ_le_succ hmore)
        · obtain ⟨largest, hin, hout, hall⟩ :=
            ih hlow hmiddle (by omega) (by omega)
          refine ⟨largest, hin, hout, ?_⟩
          intro more hmore
          cases more with
          | zero => exact absurd hmore (Nat.not_succ_le_zero _)
          | succ more =>
              rw [bisect, if_pos hgap, if_neg hmiddle]
              exact hall more (Nat.le_of_succ_le_succ hmore)
      · have heq : high = low + 1 := by omega
        refine ⟨low, hlow, heq ▸ hhigh, ?_⟩
        intro more hmore
        cases more with
        | zero => exact absurd hmore (Nat.not_succ_le_zero _)
        | succ more => rw [bisect, if_neg hgap]

omit [DecidablePred within] in
/-- Rounded down to a multiple: the largest multiple of the quantum that is within. -/
theorem isGreatest_multiple {largest quantum : ℕ}
    (hdown : ∀ number number', number ≤ number' → within number' → within number)
    (hin : within largest) (hout : ¬within (largest + 1)) :
    IsGreatest {number | quantum ∣ number ∧ within number}
      (largest / quantum * quantum) := by
  constructor
  · exact ⟨Nat.dvd_mul_left quantum _, hdown _ _ (Nat.div_mul_le_self _ _) hin⟩
  · rintro number ⟨⟨count, rfl⟩, hnumber⟩
    have hle : quantum * count ≤ largest := by
      by_contra hlt
      exact hout (hdown _ _ (Nat.lt_of_not_le hlt) hnumber)
    rw [Nat.mul_comm quantum count] at hle ⊢
    cases Nat.eq_zero_or_pos quantum with
    | inl hzero => rw [hzero, Nat.mul_zero]; exact Nat.zero_le _
    | inr hpos =>
        exact Nat.mul_le_mul_right quantum ((Nat.le_div_iff_mul_le hpos).mpr hle)

end GlmFlash.Library
