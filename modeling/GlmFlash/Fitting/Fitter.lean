import GlmFlash.Fitting.Identity

/-!
# The calibration fitter

`CalibrationFitter.update` checks a batch and adds it to twelve accumulators of
each expert, and `CalibrationFitter.merge` takes in the accumulators of another
fitter.  A call that raises returns what it has changed by then.
-/

namespace GlmFlash.Fitting

open GlmFlash.Library

/-- A row of a batch after the checks. -/
structure Row where
  expert : String
  documentId : String
  tokenOffset : ℤ
  origin : Origin
  routeWeight : ℚ
  inclusion : ℚ
  values : List ℚ
  deriving DecidableEq

def Row.key (row : Row) : SampleKey := toLex (row.documentId, row.tokenOffset)

/-! ## Batches -/

/-- An array of two dimensions. -/
structure Inputs where
  columns : ℕ
  rows : List (List ℚ)
  rectangular : ∀ row ∈ rows, row.length = columns

/-- One origin for all rows, or one for each. -/
inductive RawOrigins where
  | scalar (origin : String)
  | perRow (origins : List String)

structure CalibrationBatch where
  expertInputs : Inputs
  expertIds : List RawExpertId
  routeWeights : List ℚ
  documentIds : List String
  tokenOffsets : List ℤ
  layerId : ℤ
  predecessorCheckpointHash : String
  projection : String
  origins : RawOrigins
  inclusionProbabilities : Option (List ℚ)

/-- `astype(np.int64)` -/
def toInt64 (value : ℤ) : ℤ := value.bmod (2 ^ 64)

def readOrigin : String → Option Origin
  | "natural" => some .natural
  | "supplemental" => some .supplemental
  | _ => none

def checkOrigins (origins : RawOrigins) (rows : ℕ) : Except Failure (List Origin) := do
  let raw := match origins with
    | .scalar origin => List.replicate rows origin
    | .perRow origins => origins
  require (raw.length = rows)
    (.valueError "origins must be scalar or contain one value per row")
  match raw.mapM readOrigin with
  | none => .error (.valueError "origins must contain only 'natural' or 'supplemental'")
  | some origins => .ok origins

def checkInclusion (inclusion : Option (List ℚ)) (origins : List Origin) :
    Except Failure (List ℚ) :=
  match inclusion with
  | none => do
      require (.supplemental ∉ origins)
        (.valueError "supplemental rows require inclusion_probabilities")
      return List.replicate origins.length 1
  | some inclusion => do
      require (inclusion.length = origins.length)
        (.valueError "inclusion_probabilities must contain one value per row")
      require (inclusion.all (fun value => 0 < value && value ≤ 1) = true)
        (.valueError "inclusion_probabilities must lie in (0, 1]")
      require ((origins.zip inclusion).all (fun row => row.1 ≠ .natural || row.2 = 1) = true)
        (.valueError "natural rows must have inclusion probability exactly one")
      return inclusion

/-- Every check that only looks at the batch and at who the fitter is. -/
def readBatch (identity : Identity) (batch : CalibrationBatch) :
    Except Failure (List Row) := do
  require (batch.layerId = identity.layerId ∧ batch.projection = identity.projection)
    (.valueError "batch layer/projection identity drift")
  require (batch.predecessorCheckpointHash = identity.predecessorCheckpointHash)
    (.valueError "batch predecessor checkpoint identity drift")
  require (batch.expertInputs.columns = identity.hiddenSize)
    (.valueError s!"expert_inputs must have shape [rows, {identity.hiddenSize}]")
  let values := batch.expertInputs.rows
  require (batch.expertIds.length = values.length)
    (.valueError "expert_ids must be one-dimensional with one value per row")
  let expertIds ← batch.expertIds.mapM normaliseExpertId
  require (batch.routeWeights.length = values.length)
    (.valueError "route_weights must be one-dimensional with one value per row")
  require (batch.routeWeights.all (fun weight => 0 ≤ weight && weight ≤ 1) = true)
    (.valueError "route_weights must lie in [0, 1]")
  require (batch.documentIds.length = values.length ∧
      batch.documentIds.all (fun item => isCanonical item) = true)
    (.valueError "document_ids must contain one non-empty canonical string per row")
  require (batch.tokenOffsets.length = values.length) (.valueError
    "token_offsets must be a one-dimensional integer array with one value per row")
  let tokenOffsets := batch.tokenOffsets.map toInt64
  require (tokenOffsets.all (fun offset => 0 ≤ offset) = true)
    (.valueError "token_offsets must be non-negative")
  let origins ← checkOrigins batch.origins values.length
  let inclusion ← checkInclusion batch.inclusionProbabilities origins
  return (List.range values.length).map fun index => {
    expert := expertIds.getD index ""
    documentId := batch.documentIds.getD index ""
    tokenOffset := tokenOffsets.getD index 0
    origin := origins.getD index .natural
    routeWeight := batch.routeWeights.getD index 0
    inclusion := inclusion.getD index 1
    values := values.getD index [] }

abbrev Incoming := Dict String (Finset SampleKey)

def addIncoming (incoming : Incoming) (row : Row) : Except Failure Incoming := do
  let keys := (incoming.get? row.expert).getD ∅
  require (row.key ∉ keys) (.valueError
    (s!"duplicate calibration sample in batch: expert='{row.expert}', " ++
      s!"sample={showKey row.key}"))
  return incoming.set row.expert (insert row.key keys)

/-! ## Accumulators -/

abbrev Ledger := Place → WeightedMoments

def newExpert (identity : Identity) : Ledger := fun place => .init (identity.geometry place)

/-- The accumulators that rows of an origin go to. -/
def targets : Origin → List Accounting
  | .natural => [.natural, .combined]
  | .supplemental => [.supplementalRaw, .supplementalCorrected, .combined]

def places (origin : Origin) : List Place :=
  routeWeightPowers.flatMap fun power => (targets origin).map fun kind => (kind, power)

def sampleWeight (origin : Origin) (place : Place) (row : Row) : ℚ :=
  let rawWeight := row.routeWeight ^ place.2.val
  match origin, place.1 with
  | .natural, _ => rawWeight
  | .supplemental, .supplementalRaw => rawWeight
  | .supplemental, _ => rawWeight / row.inclusion

def Row.sample (row : Row) (weight : ℚ) : Sample where
  weight := weight
  values := row.values
  documentId := row.documentId
  tokenOffset := row.tokenOffset

/-- The loop over the powers for the rows of an origin. -/
def absorbOrigin (rows : List Row) (ledger : Ledger) (origin : Origin) :
    Ledger × Except Failure Unit :=
  let selected := rows.filter fun row => row.origin = origin
  if selected = [] then (ledger, .ok ())
  else
    runAll (modifyCell fun place moments => moments.update
      (selected.map fun row => row.sample (sampleWeight origin place row)) true)
      ledger (places origin)

def absorbLedger (rows : List Row) (ledger : Ledger) : Ledger × Except Failure Unit :=
  runAll (absorbOrigin rows) ledger [.natural, .supplemental]

/-! ## Fitters -/

structure CalibrationFitter where
  /-- Which object it is. -/
  address : ℕ
  identity : Identity
  experts : Dict String Ledger

namespace CalibrationFitter

def new (address : ℕ) (identity : Identity) : CalibrationFitter := ⟨address, identity, []⟩

def checkExisting (self : CalibrationFitter) (entry : String × Finset SampleKey) :
    Except Failure Unit :=
  match self.experts.get? entry.1 with
  | none => .ok ()
  | some existing => do
      let overlap := (existing sampleAccount).sampleKeys ∩ entry.2
      require (¬overlap.Nonempty) (.valueError
        (s!"duplicate calibration sample across updates: expert='{entry.1}', " ++
          s!"sample={showLeast overlap}"))

/-- All checks of a batch: its rows, and the keys that it brings to each expert. -/
def validate (self : CalibrationFitter) (batch : CalibrationBatch) :
    Except Failure (List Row × Incoming) := do
  let rows ← readBatch self.identity batch
  let incoming ← rows.foldlM addIncoming []
  incoming.forM self.checkExisting
  require (rows.all (fun row => 0 < row.routeWeight) = true) (.valueError
    ("routed calibration rows must have strictly positive route_weights; " ++
      "filter unrouted/padded rows with the capture routed mask"))
  return (rows, incoming)

/-- `state = self._experts.setdefault(expert_id, ...)`, and its accumulators after. -/
def modifyExpert (self : CalibrationFitter) (expert : String)
    (round : Ledger → Ledger × Except Failure Unit) :
    CalibrationFitter × Except Failure Unit :=
  let changed := round ((self.experts.get? expert).getD (newExpert self.identity))
  ({ self with experts := self.experts.set expert changed.1 }, changed.2)

def absorbExpert (rows : List Row) (self : CalibrationFitter) (expert : String) :
    CalibrationFitter × Except Failure Unit :=
  self.modifyExpert expert (absorbLedger (rows.filter fun row => row.expert = expert))

def update (self : CalibrationFitter) (batch : CalibrationBatch) :
    CalibrationFitter × Except Failure Unit :=
  match self.validate batch with
  | .error failure => (self, .error failure)
  | .ok (rows, incoming) =>
      runAll (absorbExpert rows) self (sortExperts (Dict.keys incoming))

/-! ## Merging -/

def checkOverlap (self other : CalibrationFitter) (expert : String) : Except Failure Unit :=
  match self.experts.get? expert, other.experts.get? expert with
  | some own, some theirs => do
      let overlap := (own sampleAccount).sampleKeys ∩ (theirs sampleAccount).sampleKeys
      require (¬overlap.Nonempty) (.valueError
        (s!"duplicate calibration sample during merge: expert='{expert}', " ++
          s!"sample={showLeast overlap}"))
  | _, _ => .ok ()

def allPlaces : List Place :=
  accountingKinds.flatMap fun kind => routeWeightPowers.map fun power => (kind, power)

def mergeExpert (other self : CalibrationFitter) (expert : String) :
    CalibrationFitter × Except Failure Unit :=
  match other.experts.get? expert with
  | none => (self, .error (.keyError expert))
  | some theirs => self.modifyExpert expert fun own =>
      runAll (modifyCell fun place moments => moments.merge (theirs place) true) own allPlaces

/-- Both fitters after the call. -/
def merge (self other : CalibrationFitter) :
    (CalibrationFitter × CalibrationFitter) × Except Failure Unit :=
  if other.address = self.address then
    ((self, other), .error (.valueError "cannot merge a fitter with itself"))
  else if self.identity ≠ other.identity then
    ((self, other), .error (.valueError "cannot merge fitters with different identities"))
  else
    match (Dict.keys self.experts).forM (self.checkOverlap other) with
    | .error failure => ((self, other), .error failure)
    | .ok _ =>
        let merged := runAll (mergeExpert other) self (sortExperts (Dict.keys other.experts))
        ((merged.1, other), merged.2)

end CalibrationFitter

end GlmFlash.Fitting
