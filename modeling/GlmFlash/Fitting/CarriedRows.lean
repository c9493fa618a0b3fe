import GlmFlash.Fitting.FitterSums

/-!
# Rows in batches

A batch holds its rows column by column and in several spellings.  Whatever the
spelling, a fitter of the right identity reads the rows that the batch carries.
-/

namespace GlmFlash.Fitting

open GlmFlash.Library

/-- A calibration row that a batch can be made of. -/
structure Row.Valid (row : Row) : Prop where
  document : isCanonical row.documentId = true
  offset : 0 ≤ row.tokenOffset ∧ row.tokenOffset < 2 ^ 63
  weight : 0 < row.routeWeight ∧ row.routeWeight ≤ 1
  inclusion : 0 < row.inclusion ∧ row.inclusion ≤ 1
  natural : row.origin = .natural → row.inclusion = 1

def originName : Origin → String
  | .natural => "natural"
  | .supplemental => "supplemental"

/-- The origins of the rows, one by one or once for all. -/
inductive NamesOrigins (rows : List Row) : RawOrigins → Prop
  | scalar (origin : Origin) (hall : ∀ row ∈ rows, row.origin = origin) :
      NamesOrigins rows (.scalar (originName origin))
  | perRow : NamesOrigins rows (.perRow (rows.map fun row => originName row.origin))

/-- The inclusion probabilities, which natural rows can do without. -/
inductive GivesInclusion (rows : List Row) : Option (List ℚ) → Prop
  | absent (hall : ∀ row ∈ rows, row.origin = .natural) : GivesInclusion rows none
  | present : GivesInclusion rows (some (rows.map Row.inclusion))

/-- The batch holds these rows in this order, for fitters of this identity. -/
structure Carries (identity : Identity) (batch : CalibrationBatch) (rows : List Row) :
    Prop where
  layerId : batch.layerId = identity.layerId
  projection : batch.projection = identity.projection
  predecessor : batch.predecessorCheckpointHash = identity.predecessorCheckpointHash
  columns : batch.expertInputs.columns = identity.hiddenSize
  values : batch.expertInputs.rows = rows.map Row.values
  experts : List.Forall₂ (fun expertId (row : Row) =>
    normaliseExpertId expertId = .ok row.expert) batch.expertIds rows
  weights : batch.routeWeights = rows.map Row.routeWeight
  documents : batch.documentIds = rows.map Row.documentId
  offsets : batch.tokenOffsets = rows.map Row.tokenOffset
  origins : NamesOrigins rows batch.origins
  inclusion : GivesInclusion rows batch.inclusionProbabilities

variable {identity : Identity} {batch : CalibrationBatch} {rows : List Row}

theorem toInt64_of_lt {value : ℤ} (hnonneg : 0 ≤ value) (hlt : value < 2 ^ 63) :
    toInt64 value = value := by
  apply Int.bmod_eq_of_le
  · omega
  · omega

theorem readOrigin_originName (origin : Origin) :
    readOrigin (originName origin) = some origin := by
  cases origin <;> rfl

theorem mapM_readOrigin (rows : List Row) :
    (rows.map fun row => originName row.origin).mapM readOrigin =
      some (rows.map Row.origin) := by
  induction rows with
  | nil => rfl
  | cons row rows ih =>
      rw [List.map_cons, List.mapM_cons, readOrigin_originName, ih]
      rfl

theorem mapM_experts {expertIds : List RawExpertId}
    (hexperts : List.Forall₂ (fun expertId (row : Row) =>
      normaliseExpertId expertId = .ok row.expert) expertIds rows) :
    expertIds.mapM normaliseExpertId = .ok (rows.map Row.expert) := by
  induction hexperts with
  | nil => rfl
  | cons hfirst _ ih =>
      rw [List.mapM_cons, hfirst, ok_bind, ih]
      rfl

theorem checkOrigins_names {origins : RawOrigins} (hnames : NamesOrigins rows origins) :
    checkOrigins origins rows.length = .ok (rows.map Row.origin) := by
  have hread : ∀ raw, raw = rows.map (fun row => originName row.origin) →
      checkOrigins (.perRow raw) rows.length = .ok (rows.map Row.origin) := by
    rintro _ rfl
    rw [checkOrigins, require, if_pos (List.length_map _), ok_bind, mapM_readOrigin]
  cases hnames with
  | perRow => exact hread _ rfl
  | scalar origin hall =>
      apply hread
      symm
      apply List.eq_replicate_iff.mpr
      refine ⟨List.length_map _, ?_⟩
      intro name hname
      obtain ⟨row, hrow, rfl⟩ := List.mem_map.mp hname
      rw [hall row hrow]

theorem checkInclusion_gives {inclusion : Option (List ℚ)}
    (hvalid : ∀ row ∈ rows, row.Valid) (hgives : GivesInclusion rows inclusion) :
    checkInclusion inclusion (rows.map Row.origin) = .ok (rows.map Row.inclusion) := by
  cases hgives with
  | absent hall =>
      simp only [checkInclusion, bind_eq_ok, require_eq_ok, pure_eq_ok]
      refine ⟨(), ?_, ?_⟩
      · intro hmem
        obtain ⟨row, hrow, hsupplemental⟩ := List.mem_map.mp hmem
        rw [hall row hrow] at hsupplemental
        cases hsupplemental
      · symm
        apply List.eq_replicate_iff.mpr
        refine ⟨by rw [List.length_map, List.length_map], ?_⟩
        intro value hvalue
        obtain ⟨row, hrow, rfl⟩ := List.mem_map.mp hvalue
        exact (hvalid row hrow).natural (hall row hrow)
  | present =>
      simp only [checkInclusion, bind_eq_ok, require_eq_ok, pure_eq_ok]
      refine ⟨(), by rw [List.length_map, List.length_map], (), ?_, (), ?_, trivial⟩
      · rw [List.all_map, List.all_eq_true]
        intro row hrow
        have hinclusion := (hvalid row hrow).inclusion
        simp [hinclusion.1, hinclusion.2]
      · rw [List.zip_map', List.all_map, List.all_eq_true]
        intro row hrow
        have hnatural := (hvalid row hrow).natural
        simpa [imp_iff_not_or] using hnatural

/-- The columns of the rows, put together again. -/
theorem range_map_rows (rows : List Row) :
    ((List.range rows.length).map fun index => ({
      expert := (rows.map Row.expert).getD index ""
      documentId := (rows.map Row.documentId).getD index ""
      tokenOffset := (rows.map Row.tokenOffset).getD index 0
      origin := (rows.map Row.origin).getD index .natural
      routeWeight := (rows.map Row.routeWeight).getD index 0
      inclusion := (rows.map Row.inclusion).getD index 1
      values := (rows.map Row.values).getD index [] } : Row)) = rows := by
  apply List.ext_getElem
  · rw [List.length_map, List.length_range]
  · intro index _ hindex
    simp [List.getD_eq_getElem?_getD, hindex]

theorem Carries.readBatch (hcarries : Carries identity batch rows)
    (hvalid : ∀ row ∈ rows, row.Valid) : readBatch identity batch = .ok rows := by
  have hoffsets : batch.tokenOffsets.map toInt64 = rows.map Row.tokenOffset := by
    rw [hcarries.offsets, List.map_map]
    apply List.map_congr_left
    intro row hrow
    exact toInt64_of_lt (hvalid row hrow).offset.1 (hvalid row hrow).offset.2
  have hlength : batch.expertInputs.rows.length = rows.length := by
    rw [hcarries.values, List.length_map]
  have hweights : batch.routeWeights.all (fun weight => 0 ≤ weight && weight ≤ 1) = true := by
    rw [hcarries.weights, List.all_map, List.all_eq_true]
    intro row hrow
    have hweight := (hvalid row hrow).weight
    simp [hweight.1.le, hweight.2]
  have hdocuments : batch.documentIds.all (fun item => isCanonical item) = true := by
    rw [hcarries.documents, List.all_map, List.all_eq_true]
    exact fun row hrow => (hvalid row hrow).document
  have hnonneg : (rows.map Row.tokenOffset).all (fun offset => 0 ≤ offset) = true := by
    rw [List.all_map, List.all_eq_true]
    exact fun row hrow => decide_eq_true (hvalid row hrow).offset.1
  simp only [Fitting.readBatch, bind_eq_ok, require_eq_ok, pure_eq_ok]
  rw [hoffsets, hlength]
  refine ⟨(), ⟨hcarries.layerId, hcarries.projection⟩, (), hcarries.predecessor, (),
    hcarries.columns, (), hcarries.experts.length_eq, _, mapM_experts hcarries.experts, (),
    ?_, (), hweights, (), ⟨?_, hdocuments⟩, (), ?_, (), hnonneg, _,
    checkOrigins_names hcarries.origins, _, checkInclusion_gives hvalid hcarries.inclusion, ?_⟩
  · rw [hcarries.weights, List.length_map]
  · rw [hcarries.documents, List.length_map]
  · rw [hcarries.offsets, List.length_map]
  · rw [hcarries.documents, hcarries.weights, hcarries.values]
    exact range_map_rows rows

/-! ## Every row can be carried -/

/-- The values of the rows have the width of the fitter, and their experts are called
as the fitter calls them. -/
def Row.Fits (identity : Identity) (row : Row) : Prop :=
  row.values.length = identity.hiddenSize ∧
    normaliseExpertId (.text row.expert) = .ok row.expert

def batchOf (identity : Identity) (rows : List Row)
    (hfits : ∀ row ∈ rows, row.Fits identity) : CalibrationBatch where
  expertInputs := {
    columns := identity.hiddenSize
    rows := rows.map Row.values
    rectangular := List.forall_mem_map.mpr fun row hrow => (hfits row hrow).1 }
  expertIds := rows.map fun row => .text row.expert
  routeWeights := rows.map Row.routeWeight
  documentIds := rows.map Row.documentId
  tokenOffsets := rows.map Row.tokenOffset
  layerId := identity.layerId
  predecessorCheckpointHash := identity.predecessorCheckpointHash
  projection := identity.projection
  origins := .perRow (rows.map fun row => originName row.origin)
  inclusionProbabilities := some (rows.map Row.inclusion)

theorem carries_batchOf (hfits : ∀ row ∈ rows, row.Fits identity) :
    Carries identity (batchOf identity rows hfits) rows where
  layerId := rfl
  projection := rfl
  predecessor := rfl
  columns := rfl
  values := rfl
  experts := by
    apply List.forall₂_map_left_iff.mpr
    apply List.forall₂_same.mpr
    exact fun row hrow => (hfits row hrow).2
  weights := rfl
  documents := rfl
  offsets := rfl
  origins := .perRow
  inclusion := .present

end GlmFlash.Fitting
