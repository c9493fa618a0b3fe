import GlmFlash.Library.BestSlots
import GlmFlash.Library.DecimalContext
import GlmFlash.Library.Dict
import GlmFlash.Library.Outcome
import GlmFlash.Library.Text

/-!
# The sequential allocator

`r10_allocation.py`: every tensor of a layer starts at three bits, and exactly
384 units of one bit are spent.  A second unit is only given to a tensor whose
first one helps.  Losses and masses are decimals, of which the scores are
computed in a context of fifty digits.
-/

namespace GlmFlash.Encoder

open GlmFlash.Library

inductive Failure where
  | valueError
  | runtimeError
  | assertionError
  | overflow
  deriving DecidableEq, Repr

/-! ## Constants -/

def numExperts : ℕ := 256

/-- `MOE_LAYERS` -/
def moeLayers : List ℕ := List.range' 3 75

inductive Projection where
  | gateProj
  | upProj
  | downProj
  deriving DecidableEq, Repr

def projections : List Projection := [.gateProj, .upProj, .downProj]

def Projection.name : Projection → String
  | gateProj => "gate_proj"
  | upProj => "up_proj"
  | downProj => "down_proj"

def allowedBits : List ℕ := [3, 4, 5]

def floorBits : ℕ := 3

def tensorsPerLayer : ℕ := numExperts * projections.length

def targetBitUnitsPerLayer : ℕ := tensorsPerLayer * 7 / 2

def upgradeUnitsPerLayer : ℕ :=
  targetBitUnitsPerLayer - tensorsPerLayer * floorBits

def scoreScale : ℕ := 10 ^ 15

/-! ## Tensors and curves -/

structure TensorId where
  layer : ℕ
  expert : ℕ
  projection : Projection
  deriving DecidableEq, Repr

/-- `TensorId.key` -/
def TensorId.key (tensor : TensorId) : String :=
  String.ofList ('L' :: (paddedNumeral 2 tensor.layer ++
    ('/' :: 'E' :: (paddedNumeral 3 tensor.expert ++
      ('/' :: tensor.projection.name.toList)))))

def layerTensors (layer : ℕ) : List TensorId :=
  (List.range numExperts).flatMap fun expert =>
    projections.map fun projection => ⟨layer, expert, projection⟩

/-- `all_layer_tensor_ids`, where a `TensorId` checks its layer. -/
def allLayerTensorIds (layer : ℕ) : Except Failure (List TensorId) := do
  require (layer ∈ moeLayers) .valueError
  return layerTensors layer

/-- A curve has a loss for each number of bits. -/
structure SensitivityCurve where
  tensorId : TensorId
  mass : ℚ
  lossByBits : ℕ → ℚ

/-- The default context with fifty digits. -/
def scoreContext : DecimalContext := ⟨50, -999999, 999999⟩

/-- The result of an operation in the context, whose overflow is trapped. -/
def decimal (value : ℚ) : Except Failure ℚ :=
  match scoreContext.fix value with
  | some rounded => .ok rounded
  | none => .error .overflow

/-- `_score` -/
def score (curve : SensitivityCurve) (bits : ℕ) : Except Failure ℤ := do
  let loss ← decimal (curve.lossByBits floorBits - curve.lossByBits bits)
  let value ← decimal (curve.mass * loss)
  let scaled ← decimal (value * scoreScale)
  return roundHalfEven scaled

/-- `_choices` -/
def choices (curve : SensitivityCurve) : List ℕ :=
  if curve.lossByBits 4 < curve.lossByBits 3 then
    if curve.lossByBits 5 < curve.lossByBits 4 then [3, 4, 5] else [3, 4]
  else [3]

/-! ## The dynamic program -/

/-- A place of `next_scores`, `costs` and `bits_at`. -/
abbrev Cell := Slot ℤ (ℤ × ℕ)

def blankRow : List Cell :=
  List.replicate (upgradeUnitsPerLayer + 1) ⟨none, (-1, 0)⟩

/-- The body of the loop over the choices of a curve. -/
def addChoice (curve : SensitivityCurve) (priorCost : ℕ) (priorScore : ℤ)
    (row : List Cell) (bits : ℕ) : Except Failure (List Cell) :=
  let cost := priorCost + bits - floorBits
  if upgradeUnitsPerLayer < cost then return row
  else do
    let gain ← score curve bits
    return offer row (cost, priorScore + gain, (priorCost, bits))

/-- The body of the loop over the curves. -/
def nextRow (curve : SensitivityCurve) (scores : List (Option ℤ)) :
    Except Failure (List Cell) :=
  scores.zipIdx.foldlM (fun row entry =>
    match entry.1 with
    | none => return row
    | some priorScore =>
        (choices curve).foldlM (addChoice curve entry.2 priorScore) row) blankRow

def initialScores : List (Option ℤ) :=
  some 0 :: List.replicate upgradeUnitsPerLayer none

/-- The loop over the curves: the last scores, and all rows. -/
def fillRows (ordered : List SensitivityCurve) :
    Except Failure (List (Option ℤ) × List (List Cell)) :=
  ordered.foldlM (fun state curve => do
    let row ← nextRow curve state.1
    return (row.map Slot.best, state.2 ++ [row])) (initialScores, [])

/-- One step along the back pointers. -/
def stepBack (state : ℤ × List ℕ) (row : List Cell) :
    Except Failure (ℤ × List ℕ) := do
  let cell := row.getD state.1.toNat ⟨none, (-1, 0)⟩
  require (cell.parent.2 ∈ [3, 4, 5] ∧ 0 ≤ cell.parent.1) .assertionError
  return (cell.parent.1, state.2 ++ [cell.parent.2])

/-- The selected bits, from the last row back to the first. -/
def walkBack (rows : List (List Cell)) : Except Failure (List ℕ) := do
  let (cost, selectedReversed) ←
    rows.reverse.foldlM stepBack ((upgradeUnitsPerLayer : ℤ), [])
  require (cost = 0) .assertionError
  return selectedReversed.reverse

/-! ## The allocation -/

/-- `audit_allocation` -/
def auditAllocation (bitsByTensor : Dict String ℕ) : Except Failure Unit := do
  require (bitsByTensor.length = tensorsPerLayer) .valueError
  let values := bitsByTensor.map Prod.snd
  require (∀ bits ∈ values, bits ∈ allowedBits) .valueError
  require (∀ bits ∈ values, floorBits ≤ bits) .assertionError
  require (values.sum = targetBitUnitsPerLayer) .valueError
  require ((values.map fun bits => bits - floorBits).sum =
    upgradeUnitsPerLayer) .assertionError

structure LayerAllocation where
  layer : ℕ
  bits : Dict String ℕ
  masses : List ℚ
  scoreInteger : ℤ
  scoreScale : ℕ
  upgradeUnits : ℕ
  fixedPointIteration : ℕ
  probeSha256 : String

/-- `ordered[::3]` -/
def everyThird (ordered : List SensitivityCurve) : List SensitivityCurve :=
  (ordered.zipIdx.filter fun entry => entry.2 % projections.length = 0).map
    Prod.fst

/-- The curves in the order of the tensors. -/
def orderCurves (layer : ℕ) (curves : List SensitivityCurve) :
    Except Failure (List SensitivityCurve) := do
  let expected ← allLayerTensorIds layer
  let byId := Dict.ofItems (curves.map fun curve => (curve.tensorId, curve))
  require ((∀ tensor ∈ byId.keys, tensor ∈ expected) ∧
    ∀ tensor ∈ expected, tensor ∈ byId.keys) .valueError
  return expected.filterMap fun tensor => byId.get? tensor

def solveSequentialAllocation (layer : ℕ) (curves : List SensitivityCurve)
    (probeSha256 : String) : Except Failure LayerAllocation := do
  let ordered ← orderCurves layer curves
  let (scores, rows) ← fillRows ordered
  match scores.getD upgradeUnitsPerLayer none with
  | none => .error .runtimeError
  | some scoreInteger => do
      let selected ← walkBack rows
      let bits := Dict.ofItems
        ((ordered.map fun curve => curve.tensorId.key).zip selected)
      auditAllocation bits
      return {
        layer := layer
        bits := bits
        masses := (everyThird ordered).map SensitivityCurve.mass
        scoreInteger := scoreInteger
        scoreScale := scoreScale
        upgradeUnits := upgradeUnitsPerLayer
        fixedPointIteration := 0
        probeSha256 := probeSha256 }

end GlmFlash.Encoder
