import GlmFlash.Encoder.SequentialAllocation

/-!
# The exact allocator

`allocation.py`: every tensor of a layer takes three, four or five bits, and the
upgrades above the floor spend the budget exactly.  The gains are computed in a
decimal context, costs are kept as 16-bit integers and bits as bytes.
-/

namespace GlmFlash.Encoder

open GlmFlash.Library

/-- `SensitivityCurve.gain`, in the context of its caller -/
def SensitivityCurve.gain (curve : SensitivityCurve) (bits : ℕ) : Except Failure ℚ := do
  let loss ← decimal (curve.lossByBits floorBits - curve.lossByBits bits)
  decimal (curve.mass * loss)

def gainInteger (curve : SensitivityCurve) (bits : ℕ) : Except Failure ℤ := do
  let gain ← curve.gain bits
  let scaled ← decimal (gain * scoreScale)
  return roundHalfEven scaled

/-! ## The dynamic program -/

/-- The three stores of a better candidate, into an `array("h")` and a `bytearray`. -/
def storeChoice (row : List Cell) (newCost : ℕ) (candidate : ℤ) (priorCost bits : ℕ) :
    Except Failure (List Cell) := do
  require (priorCost < 2 ^ 15) .overflow
  require (bits < 2 ^ 8) .valueError
  return row.set newCost ⟨some candidate, (priorCost, bits)⟩

/-- The body of the loop over the bits. -/
def addUpgrade (curve : SensitivityCurve) (priorCost : ℕ) (priorScore : ℤ)
    (row : List Cell) (bits : ℕ) : Except Failure (List Cell) :=
  let extra := bits - floorBits
  let newCost := priorCost + extra
  if upgradeUnitsPerLayer < newCost then return row
  else do
    let gain ← gainInteger curve bits
    let candidate := priorScore + gain
    match (row.getD newCost ⟨none, (-1, 0)⟩).best with
    | none => storeChoice row newCost candidate priorCost bits
    | some incumbent =>
        if incumbent < candidate then storeChoice row newCost candidate priorCost bits
        else return row

def nextExactRow (curve : SensitivityCurve) (scores : List (Option ℤ)) :
    Except Failure (List Cell) :=
  scores.zipIdx.foldlM (fun row entry =>
    match entry.1 with
    | none => return row
    | some priorScore => allowedBits.foldlM (addUpgrade curve entry.2 priorScore) row)
    blankRow

/-- The body of the loop over the curves, of which there are `count`. -/
def addExactRow (count : ℕ) (state : List (Option ℤ) × List (List Cell))
    (curve : SensitivityCurve) :
    Except Failure (List (Option ℤ) × List (List Cell)) := do
  let row ← nextExactRow curve state.1
  let nextScores := row.map Slot.best
  require (¬(nextScores.getD upgradeUnitsPerLayer none = none ∧
    state.2.length = count - 1)) .assertionError
  return (nextScores, state.2 ++ [row])

def fillExactRows (ordered : List SensitivityCurve) :
    Except Failure (List (Option ℤ) × List (List Cell)) :=
  ordered.foldlM (addExactRow ordered.length) (initialScores, [])

/-! ## The allocation -/

/-- The curves in the order of the tensors. -/
def orderExactCurves (layer : ℕ) (curves : List SensitivityCurve) :
    Except Failure (List SensitivityCurve) := do
  let expected ← allLayerTensorIds layer
  let byId := Dict.ofItems (curves.map fun curve => (curve.tensorId, curve))
  require (byId.length = expected.length ∧ (∀ tensor ∈ byId.keys, tensor ∈ expected) ∧
    ∀ tensor ∈ expected, tensor ∈ byId.keys) .valueError
  return expected.filterMap fun tensor => byId.get? tensor

def solveExactAllocation (layer : ℕ) (curves : List SensitivityCurve)
    (fixedPointIteration : ℕ) (probeSha256 : String) :
    Except Failure LayerAllocation := do
  let ordered ← orderExactCurves layer curves
  let (scores, rows) ← fillExactRows ordered
  match scores.getD upgradeUnitsPerLayer none with
  | none => .error .assertionError
  | some finalScore => do
      let selected ← walkBack rows
      let bits := Dict.ofItems
        ((ordered.map fun curve => curve.tensorId.key).zip selected)
      auditAllocation bits
      return {
        layer := layer
        bits := bits
        masses := (everyThird ordered).map SensitivityCurve.mass
        scoreInteger := finalScore
        scoreScale := scoreScale
        upgradeUnits := upgradeUnitsPerLayer
        fixedPointIteration := fixedPointIteration
        probeSha256 := probeSha256 }

end GlmFlash.Encoder
