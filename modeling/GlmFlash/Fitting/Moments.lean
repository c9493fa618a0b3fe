import GlmFlash.Library.InPlace
import GlmFlash.Library.WeightedMean
import Mathlib.Algebra.Order.Field.Rat
import Mathlib.Data.Finset.Max
import Mathlib.Data.Finset.Union
import Mathlib.Data.Prod.Lex
import Mathlib.Data.String.Basic

/-!
# Weighted moments

`_WeightedMoments` of `fitter.py`: sums and a mean that batches are added to and
that take in other sums and means.  Numbers are exact here.
-/

namespace GlmFlash.Fitting

open GlmFlash.Library

inductive Failure where
  | valueError (message : String)
  | assertionError
  | keyError (message : String)
  deriving DecidableEq, Repr

inductive CovarianceMode where
  | full
  | blockDiagonal
  | diagonal
  deriving DecidableEq, Repr

/-- What the constructor of the moments is given. -/
structure Geometry where
  dimension : ℕ
  covarianceMode : CovarianceMode
  blockSize : ℕ
  retainCovariance : Bool
  deriving DecidableEq

def covarianceShape (geometry : Geometry) : List ℕ :=
  match geometry.covarianceMode with
  | .full => [geometry.dimension, geometry.dimension]
  | .blockDiagonal =>
      [geometry.dimension / geometry.blockSize, geometry.blockSize, geometry.blockSize]
  | .diagonal => [geometry.dimension]

/-- The two coordinates that each entry of a covariance array is about, in the
order of the array. -/
def coordinates (geometry : Geometry) : List (ℕ × ℕ) :=
  match geometry.covarianceMode with
  | .full => (List.range geometry.dimension).flatMap fun row =>
      (List.range geometry.dimension).map fun column => (row, column)
  | .blockDiagonal =>
      (List.range (geometry.dimension / geometry.blockSize)).flatMap fun block =>
        (List.range geometry.blockSize).flatMap fun row =>
          (List.range geometry.blockSize).map fun column =>
            (block * geometry.blockSize + row, block * geometry.blockSize + column)
  | .diagonal => (List.range geometry.dimension).map fun index => (index, index)

/-- A document and an offset in it. -/
abbrev SampleKey := String ×ₗ ℤ

/-- A row of a batch with the weight that one accumulator gives it. -/
structure Sample where
  weight : ℚ
  values : List ℚ
  documentId : String
  tokenOffset : ℤ

def Sample.value (sample : Sample) (index : ℕ) : ℚ := sample.values.getD index 0

def Sample.key (sample : Sample) : SampleKey := toLex (sample.documentId, sample.tokenOffset)

/-- `einsum("n,nd->d", weights, values) / weight` -/
def batchMean (geometry : Geometry) (samples : List Sample) (weight : ℚ) : List ℚ :=
  (List.range geometry.dimension).map fun index =>
    weightedSum Sample.weight (Sample.value · index) samples / weight

def weightedOuter (geometry : Geometry) (samples : List Sample) : List ℚ :=
  (coordinates geometry).map fun entry =>
    weightedSum Sample.weight (fun sample => sample.value entry.1 * sample.value entry.2)
      samples

/-- Arrays are lists of their entries. -/
structure WeightedMoments where
  geometry : Geometry
  count : ℕ
  weightSum : ℚ
  weightSquareSum : ℚ
  mean : List ℚ
  rawSecondNumerator : Option (List ℚ)
  documentIds : Finset String
  sampleKeys : Finset SampleKey
  deriving DecidableEq

def showKey (key : SampleKey) : String :=
  s!"('{(ofLex key).1}', {(ofLex key).2})"

/-- `min(overlap)` as it is printed. -/
def showLeast (overlap : Finset SampleKey) : String :=
  match overlap.min with
  | none => ""
  | some key => showKey key

namespace WeightedMoments

def init (geometry : Geometry) : WeightedMoments where
  geometry := geometry
  count := 0
  weightSum := 0
  weightSquareSum := 0
  mean := List.replicate geometry.dimension 0
  rawSecondNumerator :=
    if geometry.retainCovariance then some (List.replicate (covarianceShape geometry).prod 0)
    else none
  documentIds := ∅
  sampleKeys := ∅

/-- Two numerators, both of which are asserted to be there. -/
def addNumerators (own other : Option (List ℚ)) : Option (List ℚ) :=
  match own, other with
  | some own, some other => some (List.zipWith (· + ·) own other)
  | _, _ => none

def mergeNumeric (self : WeightedMoments) (count : ℕ) (weightSum weightSquareSum : ℚ)
    (mean : List ℚ) (rawSecondNumerator : Option (List ℚ)) :
    WeightedMoments × Except Failure Unit :=
  if weightSum ≤ 0 then ({ self with count := self.count + count }, .ok ())
  else if self.weightSum = 0 then
    let filled : WeightedMoments := { self with
      count := self.count + count
      weightSum := weightSum
      weightSquareSum := weightSquareSum
      mean := mean }
    if self.geometry.retainCovariance then
      if self.rawSecondNumerator.isSome ∧ rawSecondNumerator.isSome then
        ({ filled with rawSecondNumerator := rawSecondNumerator }, .ok ())
      else (filled, .error .assertionError)
    else (filled, .ok ())
  else
    let total := self.weightSum + weightSum
    let blended : WeightedMoments := { self with
      count := self.count + count
      weightSum := total
      weightSquareSum := self.weightSquareSum + weightSquareSum
      mean := List.zipWith (fun own other => own + (other - own) * (weightSum / total))
        self.mean mean }
    if self.geometry.retainCovariance then
      if self.rawSecondNumerator.isSome ∧ rawSecondNumerator.isSome then
        ({ blended with
          rawSecondNumerator := addNumerators self.rawSecondNumerator rawSecondNumerator },
          .ok ())
      else (self, .error .assertionError)
    else (blended, .ok ())

/-- The documents and, if they are recorded, the keys are added last. -/
def record (self : WeightedMoments) (documentIds : Finset String)
    (sampleKeys : Finset SampleKey) (recordSamples : Bool) : WeightedMoments :=
  { self with
    documentIds := self.documentIds ∪ documentIds
    sampleKeys := if recordSamples then self.sampleKeys ∪ sampleKeys else self.sampleKeys }

def update (self : WeightedMoments) (samples : List Sample) (recordSamples : Bool) :
    WeightedMoments × Except Failure Unit :=
  if samples.length = 0 then (self, .ok ())
  else
    let positive := samples.filter fun sample => 0 < sample.weight
    let batchWeight := total Sample.weight samples
    let batchWeightSquare := total (fun sample => sample.weight * sample.weight) samples
    let merged :=
      if 0 < batchWeight then
        self.mergeNumeric samples.length batchWeight batchWeightSquare
          (batchMean self.geometry positive batchWeight)
          (if self.geometry.retainCovariance then some (weightedOuter self.geometry positive)
          else none)
      else ({ self with count := self.count + samples.length }, .ok ())
    match merged with
    | (next, .error failure) => (next, .error failure)
    | (next, .ok _) =>
        (next.record (samples.map Sample.documentId).toFinset
          (samples.map Sample.key).toFinset recordSamples, .ok ())

def merge (self other : WeightedMoments) (recordSamples : Bool) :
    WeightedMoments × Except Failure Unit :=
  if self.geometry ≠ other.geometry then
    (self, .error (.valueError
      "cannot merge moment accumulators with different dimensions or geometry"))
  else
    let overlap := if recordSamples then self.sampleKeys ∩ other.sampleKeys else ∅
    if overlap.Nonempty then
      (self, .error (.valueError
        s!"duplicate calibration sample during merge: {showLeast overlap}"))
    else
      match self.mergeNumeric other.count other.weightSum other.weightSquareSum other.mean
          other.rawSecondNumerator with
      | (next, .error failure) => (next, .error failure)
      | (next, .ok _) =>
          (next.record other.documentIds other.sampleKeys recordSamples, .ok ())

end WeightedMoments

end GlmFlash.Fitting
