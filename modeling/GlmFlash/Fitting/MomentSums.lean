import GlmFlash.Fitting.Moments

/-!
# Moments are direct sums

Whatever order samples are added in, and whether they are added in batches or
taken over from other moments, the moments are the sums over all samples.
-/

namespace GlmFlash.Fitting

open GlmFlash.Library

/-- The moments of some samples, summed up directly. -/
def directMoments (geometry : Geometry) (samples : List Sample) : WeightedMoments where
  geometry := geometry
  count := samples.length
  weightSum := total Sample.weight samples
  weightSquareSum := total (fun sample => sample.weight * sample.weight) samples
  mean := (List.range geometry.dimension).map fun index =>
    weightedMean Sample.weight (Sample.value · index) samples
  rawSecondNumerator :=
    if geometry.retainCovariance then some (weightedOuter geometry samples) else none
  documentIds := (samples.map Sample.documentId).toFinset
  sampleKeys := (samples.map Sample.key).toFinset

variable {geometry : Geometry} {samples left right : List Sample}

theorem length_coordinates (geometry : Geometry) :
    (coordinates geometry).length = (covarianceShape geometry).prod := by
  rw [coordinates, covarianceShape]
  cases geometry.covarianceMode with
  | full => simp [List.length_flatMap]
  | blockDiagonal => simp [List.length_flatMap]
  | diagonal => simp

theorem directMoments_nil (geometry : Geometry) :
    directMoments geometry [] = .init geometry := by
  have hmean : (List.range geometry.dimension).map (fun index =>
      weightedMean Sample.weight (Sample.value · index) []) =
        List.replicate geometry.dimension 0 := by
    calc (List.range geometry.dimension).map _
        = (List.range geometry.dimension).map fun _ => (0 : ℚ) :=
          List.map_congr_left fun _ _ => weightedMean_nil
      _ = List.replicate geometry.dimension 0 := by
          rw [List.map_const', List.length_range]
  have houter : weightedOuter geometry [] =
      List.replicate (covarianceShape geometry).prod 0 := by
    rw [← length_coordinates]
    exact List.map_const' ..
  rw [directMoments, hmean, houter]
  rfl

theorem weightedOuter_perm (hperm : left.Perm right) :
    weightedOuter geometry left = weightedOuter geometry right := by
  apply List.map_congr_left
  intro entry _
  exact weightedSum_perm hperm

theorem directMoments_perm (hperm : left.Perm right) :
    directMoments geometry left = directMoments geometry right := by
  have hmean : (List.range geometry.dimension).map (fun index =>
      weightedMean Sample.weight (Sample.value · index) left) =
        (List.range geometry.dimension).map fun index =>
          weightedMean Sample.weight (Sample.value · index) right :=
    List.map_congr_left fun _ _ => weightedMean_perm hperm
  rw [directMoments, hmean, hperm.length_eq, total_perm hperm, total_perm hperm,
    weightedOuter_perm hperm, List.toFinset_eq_of_perm _ _ (hperm.map Sample.documentId),
    List.toFinset_eq_of_perm _ _ (hperm.map Sample.key)]
  rfl

/-- An accumulator with the sums of all samples and the documents and keys of those before. -/
def blended (geometry : Geometry) (left right : List Sample) : WeightedMoments :=
  { directMoments geometry (left ++ right) with
    documentIds := (left.map Sample.documentId).toFinset
    sampleKeys := (left.map Sample.key).toFinset }

theorem record_blended : (blended geometry left right).record
    (right.map Sample.documentId).toFinset (right.map Sample.key).toFinset true =
      directMoments geometry (left ++ right) := by
  rw [WeightedMoments.record, blended, if_pos rfl, ← List.toFinset_append,
    ← List.toFinset_append, ← List.map_append, ← List.map_append]
  rfl

theorem zipWith_weightedOuter :
    List.zipWith (· + ·) (weightedOuter geometry left) (weightedOuter geometry right) =
      weightedOuter geometry (left ++ right) := by
  rw [weightedOuter, weightedOuter, List.zipWith_map, List.zipWith_self]
  apply List.map_congr_left
  intro entry _
  exact weightedSum_append.symm

section Weightless

variable {weightless : List Sample} (hzero : ∀ sample ∈ weightless, sample.weight = 0)

include hzero

theorem total_weightless : total Sample.weight weightless = 0 := by
  apply List.sum_eq_zero
  intro amount hamount
  obtain ⟨sample, hsample, rfl⟩ := List.mem_map.mp hamount
  exact hzero sample hsample

theorem total_square_weightless :
    total (fun sample : Sample => sample.weight * sample.weight) weightless = 0 :=
  weightedSum_eq_zero hzero

theorem weightedOuter_append_weightless (samples : List Sample) :
    weightedOuter geometry (samples ++ weightless) = weightedOuter geometry samples := by
  apply List.map_congr_left
  intro entry _
  rw [weightedSum_append, weightedSum_eq_zero hzero, add_zero]

/-- Samples without weight are counted and change nothing else. -/
theorem blended_weightless (samples : List Sample) :
    blended geometry samples weightless = { directMoments geometry samples with
      count := samples.length + weightless.length } := by
  have hmean : (List.range geometry.dimension).map (fun index =>
      weightedMean Sample.weight (Sample.value · index) (samples ++ weightless)) =
        (List.range geometry.dimension).map fun index =>
          weightedMean Sample.weight (Sample.value · index) samples :=
    List.map_congr_left fun _ _ => weightedMean_append_right hzero
  rw [blended, directMoments, directMoments, hmean, List.length_append, total_append,
    total_append, total_weightless hzero, total_square_weightless hzero, add_zero, add_zero,
    weightedOuter_append_weightless hzero]

/-- The first samples with weight replace all sums. -/
theorem blended_after_weightless (samples : List Sample) :
    blended geometry weightless samples = { directMoments geometry samples with
      count := weightless.length + samples.length
      documentIds := (weightless.map Sample.documentId).toFinset
      sampleKeys := (weightless.map Sample.key).toFinset } := by
  have hmean : (List.range geometry.dimension).map (fun index =>
      weightedMean Sample.weight (Sample.value · index) (weightless ++ samples)) =
        (List.range geometry.dimension).map fun index =>
          weightedMean Sample.weight (Sample.value · index) samples :=
    List.map_congr_left fun _ _ => weightedMean_append_left hzero
  have houter : weightedOuter geometry (weightless ++ samples) =
      weightedOuter geometry samples := by
    rw [weightedOuter_perm List.perm_append_comm, weightedOuter_append_weightless hzero]
  rw [blended, directMoments, directMoments, hmean, houter, List.length_append, total_append,
    total_append, total_weightless hzero, total_square_weightless hzero, zero_add, zero_add]

end Weightless

/-! ## One merge of sums -/

section Branches

variable {self : WeightedMoments} {count : ℕ} {weightSum weightSquareSum : ℚ}
  {mean : List ℚ} {rawSecondNumerator : Option (List ℚ)}

theorem mergeNumeric_light (hlight : weightSum ≤ 0) :
    self.mergeNumeric count weightSum weightSquareSum mean rawSecondNumerator =
      ({ self with count := self.count + count }, .ok ()) := by
  rw [WeightedMoments.mergeNumeric, if_pos hlight]

variable (hheavy : 0 < weightSum)
  (hretained : self.rawSecondNumerator.isSome = self.geometry.retainCovariance)
  (hretained' : rawSecondNumerator.isSome = self.geometry.retainCovariance)

include hheavy hretained hretained'

theorem mergeNumeric_fresh (hfresh : self.weightSum = 0) :
    self.mergeNumeric count weightSum weightSquareSum mean rawSecondNumerator =
      ({ self with
        count := self.count + count
        weightSum := weightSum
        weightSquareSum := weightSquareSum
        mean := mean
        rawSecondNumerator := rawSecondNumerator }, .ok ()) := by
  rw [WeightedMoments.mergeNumeric, if_neg (not_le.mpr hheavy), if_pos hfresh]
  by_cases hretain : self.geometry.retainCovariance = true
  · rw [hretain] at hretained hretained'
    rw [if_pos hretain, if_pos ⟨hretained, hretained'⟩]
  · rw [Bool.not_eq_true] at hretain
    rw [hretain, Option.isSome_eq_false_iff, Option.isNone_iff_eq_none] at hretained hretained'
    rw [if_neg (ne_true_of_eq_false hretain), hretained, hretained']

theorem mergeNumeric_settled (hsettled : self.weightSum ≠ 0) :
    self.mergeNumeric count weightSum weightSquareSum mean rawSecondNumerator =
      ({ self with
        count := self.count + count
        weightSum := self.weightSum + weightSum
        weightSquareSum := self.weightSquareSum + weightSquareSum
        mean := List.zipWith (fun own other =>
          own + (other - own) * (weightSum / (self.weightSum + weightSum))) self.mean mean
        rawSecondNumerator := WeightedMoments.addNumerators self.rawSecondNumerator
          rawSecondNumerator }, .ok ()) := by
  rw [WeightedMoments.mergeNumeric, if_neg (not_le.mpr hheavy), if_neg hsettled]
  by_cases hretain : self.geometry.retainCovariance = true
  · rw [hretain] at hretained hretained'
    rw [if_pos hretain, if_pos ⟨hretained, hretained'⟩]
  · rw [Bool.not_eq_true] at hretain
    rw [hretain, Option.isSome_eq_false_iff, Option.isNone_iff_eq_none] at hretained hretained'
    rw [if_neg (ne_true_of_eq_false hretain), hretained, hretained']
    rfl

end Branches

theorem isSome_rawSecondNumerator (geometry : Geometry) (samples : List Sample) :
    (directMoments geometry samples).rawSecondNumerator.isSome =
      geometry.retainCovariance := by
  rw [directMoments]
  cases geometry.retainCovariance <;> rfl

theorem addNumerators_direct :
    WeightedMoments.addNumerators (directMoments geometry left).rawSecondNumerator
        (directMoments geometry right).rawSecondNumerator =
      (directMoments geometry (left ++ right)).rawSecondNumerator := by
  rw [directMoments, directMoments, directMoments]
  cases geometry.retainCovariance with
  | false => rfl
  | true => exact congrArg some zipWith_weightedOuter

/-- Merging in the sums of some samples gives the sums of all of them. -/
theorem mergeNumeric_direct (hleft : ∀ sample ∈ left, 0 ≤ sample.weight)
    (hright : ∀ sample ∈ right, 0 ≤ sample.weight) :
    (directMoments geometry left).mergeNumeric right.length (total Sample.weight right)
        (total (fun sample => sample.weight * sample.weight) right)
        (directMoments geometry right).mean (directMoments geometry right).rawSecondNumerator =
      (blended geometry left right, .ok ()) := by
  have hown := isSome_rawSecondNumerator geometry left
  have hother := isSome_rawSecondNumerator geometry right
  by_cases hlight : total Sample.weight right ≤ 0
  · have hzero : ∀ sample ∈ right, sample.weight = 0 :=
      weight_eq_zero hright (le_antisymm hlight (total_nonneg hright))
    rw [mergeNumeric_light hlight, blended_weightless hzero]
    rfl
  have hheavy : 0 < total Sample.weight right := not_le.mp hlight
  by_cases hfresh : total Sample.weight left = 0
  · have hzero : ∀ sample ∈ left, sample.weight = 0 := weight_eq_zero hleft hfresh
    rw [mergeNumeric_fresh hheavy hown hother hfresh, blended_after_weightless hzero]
    rfl
  · have hsettled : 0 < total Sample.weight left :=
      lt_of_le_of_ne (total_nonneg hleft) (Ne.symm hfresh)
    have hmean : List.zipWith (fun own other => own + (other - own) *
        (total Sample.weight right / (total Sample.weight left + total Sample.weight right)))
          (directMoments geometry left).mean (directMoments geometry right).mean =
        (directMoments geometry (left ++ right)).mean := by
      rw [directMoments, directMoments, directMoments, List.zipWith_map, List.zipWith_self]
      apply List.map_congr_left
      intro index _
      exact (weightedMean_append hsettled hheavy).symm
    rw [mergeNumeric_settled hheavy hown hother hfresh, addNumerators_direct]
    dsimp only [directMoments] at hmean ⊢
    rw [hmean, blended, directMoments, List.length_append, total_append, total_append]

/-! ## Updates and merges -/

section Active

variable (hnonneg : ∀ sample ∈ samples, 0 ≤ sample.weight)

include hnonneg

/-- The samples that are left out of the mean have no weight. -/
theorem batchMean_active : batchMean geometry
    (samples.filter fun sample => 0 < sample.weight) (total Sample.weight samples) =
      (directMoments geometry samples).mean := by
  apply List.map_congr_left
  intro index _
  rw [weightedSum_filter_pos hnonneg]
  rfl

theorem weightedOuter_active : weightedOuter geometry
    (samples.filter fun sample => 0 < sample.weight) = weightedOuter geometry samples := by
  apply List.map_congr_left
  intro entry _
  exact weightedSum_filter_pos hnonneg

end Active

/-- An update adds the sums of its samples. -/
theorem update_direct (hleft : ∀ sample ∈ left, 0 ≤ sample.weight)
    (hright : ∀ sample ∈ right, 0 ≤ sample.weight) :
    (directMoments geometry left).update right true =
      (directMoments geometry (left ++ right), .ok ()) := by
  rw [WeightedMoments.update]
  by_cases hempty : right.length = 0
  · rw [if_pos hempty, List.length_eq_zero_iff.mp hempty, List.append_nil]
  have hmerged : (if 0 < total Sample.weight right then
      (directMoments geometry left).mergeNumeric right.length (total Sample.weight right)
        (total (fun sample => sample.weight * sample.weight) right)
        (batchMean (directMoments geometry left).geometry
          (right.filter fun sample => 0 < sample.weight) (total Sample.weight right))
        (if (directMoments geometry left).geometry.retainCovariance then
          some (weightedOuter (directMoments geometry left).geometry
            (right.filter fun sample => 0 < sample.weight))
        else none)
      else ({ directMoments geometry left with
        count := (directMoments geometry left).count + right.length }, .ok ())) =
      (blended geometry left right, .ok ()) := by
    by_cases hheavy : 0 < total Sample.weight right
    · rw [if_pos hheavy, batchMean_active hright, weightedOuter_active hright]
      exact mergeNumeric_direct hleft hright
    · have hzero : ∀ sample ∈ right, sample.weight = 0 :=
        weight_eq_zero hright (le_antisymm (not_lt.mp hheavy) (total_nonneg hright))
      rw [if_neg hheavy, blended_weightless hzero]
      rfl
  rw [if_neg hempty]
  dsimp only
  rw [hmerged]
  dsimp only
  rw [record_blended]

theorem merge_direct (hleft : ∀ sample ∈ left, 0 ≤ sample.weight)
    (hright : ∀ sample ∈ right, 0 ≤ sample.weight)
    (hdisjoint : ∀ sample ∈ left, ∀ other ∈ right, sample.key ≠ other.key) :
    (directMoments geometry left).merge (directMoments geometry right) true =
      (directMoments geometry (left ++ right), .ok ()) := by
  have hoverlap : ¬((directMoments geometry left).sampleKeys ∩
      (directMoments geometry right).sampleKeys).Nonempty := by
    rintro ⟨key, hkey⟩
    obtain ⟨hown, hother⟩ := Finset.mem_inter.mp hkey
    obtain ⟨sample, hsample, rfl⟩ := List.mem_map.mp (List.mem_toFinset.mp hown)
    obtain ⟨other, hmem, heq⟩ := List.mem_map.mp (List.mem_toFinset.mp hother)
    exact hdisjoint sample hsample other hmem heq.symm
  have hsame : ¬(directMoments geometry left).geometry ≠
      (directMoments geometry right).geometry :=
    fun hne => hne rfl
  let other := directMoments geometry right
  have hmerged : (directMoments geometry left).mergeNumeric other.count other.weightSum
      other.weightSquareSum other.mean other.rawSecondNumerator =
        (blended geometry left right, .ok ()) :=
    mergeNumeric_direct hleft hright
  rw [WeightedMoments.merge, if_neg hsame, if_pos rfl]
  dsimp only
  rw [if_neg hoverlap, hmerged]
  dsimp only
  exact congrArg (·, Except.ok ()) record_blended

end GlmFlash.Fitting
