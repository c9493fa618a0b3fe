import GlmFlash.Library.MultipleChoice
import Mathlib.Algebra.Order.BigOperators.Ring.List
import Mathlib.Algebra.Order.Field.Basic
import Mathlib.Tactic.FieldSimp
import Mathlib.Tactic.Ring

/-!
# Weighted means

Sums of weighted values and the means that go with them.  The mean of two
batches comes from the means of both by one correction, and a batch without
weight changes nothing.
-/

namespace GlmFlash.Library

variable {A K : Type*} [Field K]

/-- The sum of some values, each times its weight. -/
def weightedSum (weight value : A → K) (items : List A) : K :=
  total (fun item => weight item * value item) items

def weightedMean (weight value : A → K) (items : List A) : K :=
  weightedSum weight value items / total weight items

section Sums

variable {weight value : A → K} {left right : List A}

theorem weightedSum_append : weightedSum weight value (left ++ right) =
    weightedSum weight value left + weightedSum weight value right :=
  total_append _ left right

theorem weightedSum_perm (hperm : left.Perm right) :
    weightedSum weight value left = weightedSum weight value right :=
  total_perm hperm

theorem weightedMean_perm (hperm : left.Perm right) :
    weightedMean weight value left = weightedMean weight value right := by
  rw [weightedMean, weightedMean, weightedSum_perm hperm, total_perm hperm]

theorem weightedMean_nil : weightedMean weight value [] = 0 := by
  rw [weightedMean, total_nil, div_zero]

/-- Items of no weight add nothing to any weighted sum. -/
theorem weightedSum_eq_zero (hzero : ∀ item ∈ left, weight item = 0) :
    weightedSum weight value left = 0 := by
  apply List.sum_eq_zero
  intro amount hamount
  obtain ⟨item, hitem, rfl⟩ := List.mem_map.mp hamount
  rw [hzero item hitem, zero_mul]

theorem weightedMean_append_left (hzero : ∀ item ∈ left, weight item = 0) :
    weightedMean weight value (left ++ right) = weightedMean weight value right := by
  have hweight : total weight left = 0 := List.sum_eq_zero fun amount hamount => by
    obtain ⟨item, hitem, rfl⟩ := List.mem_map.mp hamount
    exact hzero item hitem
  rw [weightedMean, weightedMean, weightedSum_append, total_append,
    weightedSum_eq_zero hzero, hweight, zero_add, zero_add]

theorem weightedMean_append_right (hzero : ∀ item ∈ right, weight item = 0) :
    weightedMean weight value (left ++ right) = weightedMean weight value left := by
  rw [weightedMean_perm List.perm_append_comm, weightedMean_append_left hzero]

end Sums

section Order

variable [LinearOrder K] [IsStrictOrderedRing K] {weight value : A → K}
  {items left right : List A}

theorem weight_eq_zero (hnonneg : ∀ item ∈ items, 0 ≤ weight item)
    (hzero : total weight items = 0) : ∀ item ∈ items, weight item = 0 := by
  have hall : ∀ amount ∈ items.map weight, 0 ≤ amount := by
    intro amount hamount
    obtain ⟨item, hitem, rfl⟩ := List.mem_map.mp hamount
    exact hnonneg item hitem
  intro item hitem
  exact List.all_zero_of_le_zero_le_of_sum_eq_zero hall hzero (List.mem_map_of_mem hitem)

theorem weightedSum_filter_pos (hnonneg : ∀ item ∈ items, 0 ≤ weight item) :
    weightedSum weight value (items.filter fun item => 0 < weight item) =
      weightedSum weight value items := by
  have hperm := List.filter_append_perm (fun item => decide (0 < weight item)) items
  rw [← weightedSum_perm hperm, weightedSum_append]
  apply (add_eq_left.mpr _).symm
  apply weightedSum_eq_zero
  intro item hitem
  obtain ⟨hmem, hnot⟩ := List.mem_filter.mp hitem
  have hle : ¬0 < weight item := by simpa using hnot
  exact le_antisymm (not_lt.mp hle) (hnonneg item hmem)

/-- The mean of both batches is the mean of the first, moved towards the mean of
the second by the share that the second has in the weight. -/
theorem weightedMean_append (hleft : 0 < total weight left)
    (hright : 0 < total weight right) :
    weightedMean weight value (left ++ right) =
      weightedMean weight value left +
        (weightedMean weight value right - weightedMean weight value left) *
          (total weight right / (total weight left + total weight right)) := by
  have hsum : total weight left + total weight right ≠ 0 := (add_pos hleft hright).ne'
  rw [weightedMean, weightedMean, weightedMean, weightedSum_append, total_append]
  have hleft' := hleft.ne'
  have hright' := hright.ne'
  field_simp
  ring

end Order

end GlmFlash.Library
