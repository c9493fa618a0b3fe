import GlmFlash.Fitting.Fitter
import GlmFlash.Fitting.MomentSums
import Mathlib.Data.List.GetD

/-!
# Ledgers of an expert

The twelve accumulators of an expert are the direct sums over its rows, each
over the rows and with the weights of its account.
-/

namespace GlmFlash.Fitting

open GlmFlash.Library

/-- Which rows an account is about. -/
def Accounting.covers (kind : Accounting) (row : Row) : Bool :=
  match kind with
  | .natural => row.origin = .natural
  | .supplementalRaw => row.origin = .supplemental
  | .supplementalCorrected => row.origin = .supplemental
  | .combined => true

/-- The weight of a row in an account: the power of its route weight, corrected by
the inclusion probability where the account corrects it. -/
def accountedWeight (place : Place) (row : Row) : ℚ :=
  match place.1, row.origin with
  | .supplementalCorrected, _ => row.routeWeight ^ place.2.val / row.inclusion
  | .combined, .supplemental => row.routeWeight ^ place.2.val / row.inclusion
  | _, _ => row.routeWeight ^ place.2.val

def accounted (place : Place) (rows : List Row) : List Sample :=
  (rows.filter place.1.covers).map fun row => row.sample (accountedWeight place row)

/-- The accumulators of an expert, summed up directly from its rows. -/
def directLedger (identity : Identity) (rows : List Row) : Ledger := fun place =>
  directMoments (identity.geometry place) (accounted place rows)

/-- The weights of a row are not negative. -/
def Row.Weighted (row : Row) : Prop := 0 ≤ row.routeWeight ∧ 0 < row.inclusion

variable {identity : Identity} {rows left right : List Row} {place : Place}

theorem accountedWeight_nonneg {row : Row} (hweighted : row.Weighted) (place : Place) :
    0 ≤ accountedWeight place row := by
  have hpower : 0 ≤ row.routeWeight ^ place.2.val := pow_nonneg hweighted.1 _
  have hcorrected : 0 ≤ row.routeWeight ^ place.2.val / row.inclusion :=
    div_nonneg hpower hweighted.2.le
  rw [accountedWeight]
  split
  · exact hcorrected
  · exact hcorrected
  · exact hpower

theorem accounted_nonneg (hweighted : ∀ row ∈ rows, row.Weighted) :
    ∀ sample ∈ accounted place rows, 0 ≤ sample.weight := by
  intro sample hsample
  obtain ⟨row, hrow, rfl⟩ := List.mem_map.mp hsample
  exact accountedWeight_nonneg (hweighted row (List.mem_filter.mp hrow).1) place

theorem accounted_append : accounted place (left ++ right) =
    accounted place left ++ accounted place right := by
  rw [accounted, List.filter_append, List.map_append]
  rfl

theorem directLedger_nil (identity : Identity) : directLedger identity [] = newExpert identity := by
  funext place
  exact directMoments_nil (identity.geometry place)

theorem directLedger_perm (hperm : left.Perm right) :
    directLedger identity left = directLedger identity right := by
  funext place
  exact directMoments_perm ((hperm.filter _).map _)

/-! ## Absorbing rows -/

/-- The samples that the rows of an origin bring to an accumulator. -/
def brought (rows : List Row) (origin : Origin) (place : Place) : List Sample :=
  if place.1 ∈ targets origin then
    (rows.filter fun row => row.origin = origin).map fun row =>
      row.sample (accountedWeight place row)
  else []

theorem sampleWeight_eq {origin : Origin} {row : Row} (horigin : row.origin = origin)
    (htarget : place.1 ∈ targets origin) :
    sampleWeight origin place row = accountedWeight place row := by
  obtain ⟨kind, power⟩ := place
  cases origin with
  | natural =>
      have hkind : kind = .natural ∨ kind = .combined := by
        simpa [targets] using htarget
      rcases hkind with rfl | rfl
      · simp only [sampleWeight, accountedWeight]
      · simp only [sampleWeight, accountedWeight, horigin]
  | supplemental =>
      have hkind : kind = .supplementalRaw ∨ kind = .supplementalCorrected ∨
          kind = .combined := by
        simpa [targets] using htarget
      rcases hkind with rfl | rfl | rfl
      · simp only [sampleWeight, accountedWeight]
      · simp only [sampleWeight, accountedWeight]
      · simp only [sampleWeight, accountedWeight, horigin]

theorem mem_places {origin : Origin} : place ∈ places origin ↔ place.1 ∈ targets origin := by
  have hpowers : ∀ power : Fin 3, power ∈ routeWeightPowers := by decide
  rw [places, List.mem_flatMap]
  constructor
  · rintro ⟨power, -, hplace⟩
    obtain ⟨kind, hkind, rfl⟩ := List.mem_map.mp hplace
    exact hkind
  · exact fun hkind => ⟨place.2, hpowers place.2, List.mem_map.mpr ⟨place.1, hkind, rfl⟩⟩

theorem nodup_places (origin : Origin) : (places origin).Nodup := by
  cases origin <;> decide

theorem brought_of_empty {origin : Origin}
    (hempty : (rows.filter fun row => row.origin = origin) = []) (place : Place) :
    brought rows origin place = [] := by
  rw [brought, hempty, List.map_nil, ite_self]

theorem brought_nonneg {origin : Origin} (hweighted : ∀ row ∈ rows, row.Weighted) :
    ∀ sample ∈ brought rows origin place, 0 ≤ sample.weight := by
  intro sample hsample
  rw [brought] at hsample
  split at hsample
  · obtain ⟨row, hrow, rfl⟩ := List.mem_map.mp hsample
    exact accountedWeight_nonneg (hweighted row (List.mem_filter.mp hrow).1) place
  · cases hsample

/-- The rows of one origin are added to all accumulators that they belong to. -/
theorem absorbOrigin_direct (hweighted : ∀ row ∈ rows, row.Weighted)
    {samples : Place → List Sample}
    (hsamples : ∀ place, ∀ sample ∈ samples place, 0 ≤ sample.weight) (origin : Origin) :
    absorbOrigin rows (fun place => directMoments (identity.geometry place) (samples place))
        origin =
      (fun place => directMoments (identity.geometry place)
        (samples place ++ brought rows origin place), .ok ()) := by
  rw [absorbOrigin]
  by_cases hempty : (rows.filter fun row => row.origin = origin) = []
  · rw [if_pos hempty, Prod.mk.injEq]
    refine ⟨?_, rfl⟩
    funext place
    rw [brought_of_empty hempty, List.append_nil]
  · have hround : ∀ place ∈ places origin,
        (directMoments (identity.geometry place) (samples place)).update
            ((rows.filter fun row => row.origin = origin).map fun row =>
              row.sample (sampleWeight origin place row)) true =
          (directMoments (identity.geometry place)
            (samples place ++ brought rows origin place), .ok ()) := by
      intro place hplace
      have htarget := mem_places.mp hplace
      have hbrought : ((rows.filter fun row => row.origin = origin).map fun row =>
          row.sample (sampleWeight origin place row)) = brought rows origin place := by
        rw [brought, if_pos htarget]
        apply List.map_congr_left
        intro row hrow
        rw [sampleWeight_eq (of_decide_eq_true (List.mem_filter.mp hrow).2) htarget]
      rw [hbrought]
      exact update_direct (hsamples place) (brought_nonneg hweighted)
    rw [if_neg hempty, runAll_modifyCell (nodup_places origin) hround, Prod.mk.injEq]
    refine ⟨?_, rfl⟩
    funext place
    by_cases hplace : place ∈ places origin
    · rw [if_pos hplace]
    · rw [if_neg hplace, brought, if_neg fun htarget => hplace (mem_places.mpr htarget),
        List.append_nil]

theorem map_filter_origin (origin : Origin) (place : Place)
    (hcovers : ∀ row : Row, place.1.covers row = decide (row.origin = origin)) :
    accounted place rows = (rows.filter fun row => row.origin = origin).map fun row =>
      row.sample (accountedWeight place row) := by
  rw [accounted, List.filter_congr fun row _ => hcovers row]

/-- Natural and supplemental rows together bring what the account is about. -/
theorem brought_perm (rows : List Row) (place : Place) :
    (brought rows .natural place ++ brought rows .supplemental place).Perm
      (accounted place rows) := by
  obtain ⟨kind, power⟩ := place
  cases kind with
  | natural =>
      rw [map_filter_origin .natural (.natural, power) fun _ => rfl]
      exact List.Perm.of_eq (List.append_nil _)
  | supplementalRaw =>
      rw [map_filter_origin .supplemental (.supplementalRaw, power) fun _ => rfl]
      exact List.Perm.of_eq (List.nil_append _)
  | supplementalCorrected =>
      rw [map_filter_origin .supplemental (.supplementalCorrected, power) fun _ => rfl]
      exact List.Perm.of_eq (List.nil_append _)
  | combined =>
      have hother : ∀ row : Row, (!decide (row.origin = .natural)) =
          decide (row.origin = .supplemental) := by
        intro row
        cases row.origin <;> rfl
      have hperm := List.filter_append_perm (fun row : Row => decide (row.origin = .natural))
        rows
      rw [List.filter_congr fun row _ => hother row] at hperm
      have hall : rows.filter (Accounting.covers .combined) = rows :=
        List.filter_eq_self.mpr fun _ _ => rfl
      have hsamples := hperm.map fun row => row.sample (accountedWeight (.combined, power) row)
      rw [List.map_append] at hsamples
      rw [accounted, hall]
      exact hsamples

theorem absorbLedger_direct (hleft : ∀ row ∈ left, row.Weighted)
    (hrows : ∀ row ∈ rows, row.Weighted) :
    absorbLedger rows (directLedger identity left) =
      (directLedger identity (left ++ rows), .ok ()) := by
  have hsamples : ∀ place, ∀ sample ∈ accounted place left, 0 ≤ sample.weight :=
    fun _ => accounted_nonneg hleft
  have hnatural : absorbOrigin rows (directLedger identity left) .natural = _ :=
    absorbOrigin_direct hrows hsamples .natural
  have hboth : ∀ place, ∀ sample ∈ accounted place left ++ brought rows .natural place,
      0 ≤ sample.weight := by
    intro place sample hsample
    rcases List.mem_append.mp hsample with hold | hnew
    · exact hsamples place sample hold
    · exact brought_nonneg hrows sample hnew
  rw [absorbLedger, runAll_cons hnatural,
    runAll_cons (absorbOrigin_direct hrows hboth .supplemental), runAll_nil, Prod.mk.injEq]
  refine ⟨?_, rfl⟩
  funext place
  apply directMoments_perm
  rw [accounted_append, List.append_assoc]
  exact (brought_perm rows place).append_left _

/-! ## Merging -/

theorem mem_allPlaces (place : Place) : place ∈ CalibrationFitter.allPlaces := by
  obtain ⟨kind, power⟩ := place
  cases kind <;> revert power <;> decide

theorem nodup_allPlaces : CalibrationFitter.allPlaces.Nodup := by
  decide

theorem key_of_mem_accounted {sample : Sample} (hsample : sample ∈ accounted place rows) :
    sample.key ∈ rows.map Row.key := by
  obtain ⟨row, hrow, rfl⟩ := List.mem_map.mp hsample
  exact List.mem_map_of_mem (List.mem_filter.mp hrow).1

theorem mergeLedger_direct (hleft : ∀ row ∈ left, row.Weighted)
    (hright : ∀ row ∈ right, row.Weighted)
    (hdisjoint : (left.map Row.key).Disjoint (right.map Row.key)) :
    runAll (modifyCell fun place moments =>
        moments.merge (directLedger identity right place) true) (directLedger identity left)
          CalibrationFitter.allPlaces =
      (directLedger identity (left ++ right), .ok ()) := by
  have hround : ∀ place ∈ CalibrationFitter.allPlaces,
      (directLedger identity left place).merge (directLedger identity right place) true =
        (directLedger identity (left ++ right) place, .ok ()) := by
    intro place _
    rw [directLedger, directLedger, directLedger, accounted_append]
    apply merge_direct (accounted_nonneg hleft) (accounted_nonneg hright)
    intro sample hsample other hother heq
    exact hdisjoint (key_of_mem_accounted hsample) (heq ▸ key_of_mem_accounted hother)
  rw [runAll_modifyCell nodup_allPlaces hround, Prod.mk.injEq]
  refine ⟨?_, rfl⟩
  funext place
  exact if_pos (mem_allPlaces place)

/-! ## The combined account -/

/-- The sums of one accumulator are those of two others together. -/
structure SumOf (combined first second : WeightedMoments) : Prop where
  count : combined.count = first.count + second.count
  weightSum : combined.weightSum = first.weightSum + second.weightSum
  weightSquareSum : combined.weightSquareSum = first.weightSquareSum + second.weightSquareSum
  mean : ∀ index, combined.weightSum * combined.mean.getD index 0 =
    first.weightSum * first.mean.getD index 0 + second.weightSum * second.mean.getD index 0
  rawSecondNumerator : ∀ own other sum, first.rawSecondNumerator = some own →
    second.rawSecondNumerator = some other → combined.rawSecondNumerator = some sum →
      sum = List.zipWith (· + ·) own other
  documentIds : combined.documentIds = first.documentIds ∪ second.documentIds
  sampleKeys : combined.sampleKeys = first.sampleKeys ∪ second.sampleKeys

theorem getD_directMean {geometry : Geometry} {samples : List Sample}
    (hnonneg : ∀ sample ∈ samples, 0 ≤ sample.weight) {index : ℕ}
    (hindex : index < geometry.dimension) :
    (directMoments geometry samples).weightSum *
        (directMoments geometry samples).mean.getD index 0 =
      weightedSum Sample.weight (Sample.value · index) samples := by
  have hget : (directMoments geometry samples).mean.getD index 0 =
      weightedMean Sample.weight (Sample.value · index) samples := by
    rw [directMoments, List.getD_eq_getElem?_getD, List.getElem?_map,
      List.getElem?_range hindex]
    rfl
  rw [hget, directMoments, weightedMean]
  by_cases hzero : total Sample.weight samples = 0
  · rw [hzero, zero_mul, weightedSum_eq_zero (weight_eq_zero hnonneg hzero)]
  · exact mul_div_cancel₀ _ hzero

theorem getD_directMean_outside {geometry : Geometry} {samples : List Sample} {index : ℕ}
    (hindex : ¬index < geometry.dimension) :
    (directMoments geometry samples).mean.getD index 0 = 0 := by
  rw [directMoments]
  apply List.getD_eq_default
  rw [List.length_map, List.length_range]
  exact not_lt.mp hindex

theorem numerator_of_eq_some {geometry : Geometry} {samples : List Sample} {array : List ℚ}
    (hsome : (directMoments geometry samples).rawSecondNumerator = some array) :
    array = weightedOuter geometry samples := by
  rw [directMoments] at hsome
  split at hsome
  · exact (Option.some.inj hsome).symm
  · cases hsome

theorem sumOf_append {geometry own other : Geometry} {first second : List Sample}
    (hown : own.dimension = geometry.dimension ∧ coordinates own = coordinates geometry)
    (hother : other.dimension = geometry.dimension ∧ coordinates other = coordinates geometry)
    (hfirst : ∀ sample ∈ first, 0 ≤ sample.weight)
    (hsecond : ∀ sample ∈ second, 0 ≤ sample.weight) :
    SumOf (directMoments geometry (first ++ second)) (directMoments own first)
      (directMoments other second) where
  count := List.length_append
  weightSum := total_append ..
  weightSquareSum := total_append ..
  mean index := by
    have hboth : ∀ sample ∈ first ++ second, 0 ≤ sample.weight := by
      intro sample hsample
      exact (List.mem_append.mp hsample).elim (hfirst sample) (hsecond sample)
    by_cases hindex : index < geometry.dimension
    · have howns : index < own.dimension := hown.1.symm ▸ hindex
      have hothers : index < other.dimension := hother.1.symm ▸ hindex
      rw [getD_directMean hboth hindex, getD_directMean hfirst howns,
        getD_directMean hsecond hothers, weightedSum_append]
    · have howns : ¬index < own.dimension := hown.1.symm ▸ hindex
      have hothers : ¬index < other.dimension := hother.1.symm ▸ hindex
      rw [getD_directMean_outside hindex, getD_directMean_outside howns,
        getD_directMean_outside hothers, mul_zero, mul_zero, mul_zero, add_zero]
  rawSecondNumerator left right sum hleft hright hsum := by
    rw [numerator_of_eq_some hleft, numerator_of_eq_some hright, numerator_of_eq_some hsum,
      weightedOuter, weightedOuter, weightedOuter, hown.2, hother.2]
    exact zipWith_weightedOuter.symm
  documentIds := by
    change ((first ++ second).map Sample.documentId).toFinset = _
    rw [List.map_append, List.toFinset_append]
    rfl
  sampleKeys := by
    change ((first ++ second).map Sample.key).toFinset = _
    rw [List.map_append, List.toFinset_append]
    rfl

/-- The combined account is the natural one and the corrected supplemental one. -/
theorem directLedger_combined (hweighted : ∀ row ∈ rows, row.Weighted) (power : Fin 3) :
    SumOf (directLedger identity rows (.combined, power))
      (directLedger identity rows (.natural, power))
      (directLedger identity rows (.supplementalCorrected, power)) := by
  have hperm : (accounted (.natural, power) rows ++
      accounted (.supplementalCorrected, power) rows).Perm
        (accounted (.combined, power) rows) := by
    have hnatural : accounted (.natural, power) rows =
        brought rows .natural (.combined, power) := by
      rw [map_filter_origin .natural (.natural, power) fun _ => rfl]
      apply List.map_congr_left
      intro row hrow
      have horigin : row.origin = .natural := of_decide_eq_true (List.mem_filter.mp hrow).2
      simp only [accountedWeight, horigin]
    have hcorrected : accounted (.supplementalCorrected, power) rows =
        brought rows .supplemental (.combined, power) := by
      rw [map_filter_origin .supplemental (.supplementalCorrected, power) fun _ => rfl]
      apply List.map_congr_left
      intro row hrow
      have horigin : row.origin = .supplemental :=
        of_decide_eq_true (List.mem_filter.mp hrow).2
      simp only [accountedWeight, horigin]
    rw [hnatural, hcorrected]
    exact brought_perm rows (.combined, power)
  rw [directLedger, directLedger, directLedger, ← directMoments_perm hperm]
  exact sumOf_append ⟨rfl, rfl⟩ ⟨rfl, rfl⟩ (accounted_nonneg hweighted)
    (accounted_nonneg hweighted)

end GlmFlash.Fitting
