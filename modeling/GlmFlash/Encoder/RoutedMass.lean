import GlmFlash.Encoder.SequentialAllocation
import Mathlib.Data.BitVec

/-!
# Routed mass

The mass that a router gives to each expert, added up over batches of rows in
units of the smallest float32, and the audit that is read from the totals.
-/

namespace GlmFlash.Encoder.RoutedMass

open GlmFlash.Library

inductive Failure where
  | valueError (message : String)
  | assertionError (message : String)
  | overflowError (message : String)
  deriving DecidableEq, Repr

def topK : ℕ := 8

def massUnitPower : ℤ := -149

/-! ## Weights -/

namespace Float32

/-- The eight bits of the exponent. -/
def exponent (weight : BitVec 32) : ℕ := (weight.extractLsb' 23 8).toNat

def fraction (weight : BitVec 32) : ℕ := (weight.extractLsb' 0 23).toNat

/-- The number that a finite float32 stands for. -/
def value (weight : BitVec 32) : ℚ :=
  (if weight.msb then -1 else 1) *
    if exponent weight = 0 then fraction weight / 2 ^ 23 * (2 : ℚ) ^ (-126 : ℤ)
    else (1 + fraction weight / 2 ^ 23) * (2 : ℚ) ^ ((exponent weight : ℤ) - 127)

def isFinite (weight : BitVec 32) : Bool := exponent weight ≠ 0xFF

/-- `weight < 0`, which a negative zero is not. -/
def isNegative (weight : BitVec 32) : Bool :=
  weight.msb && decide (weight.extractLsb' 0 31 ≠ 0)

end Float32

def float32BitsToUnits (bits : ℕ) : Except Failure ℕ := do
  let sign := (bits >>> 31) &&& 1
  let exponent := (bits >>> 23) &&& 0xFF
  let fraction := bits &&& 0x7FFFFF
  require (sign = 0) (.valueError "router weights must be nonnegative")
  require (exponent ≠ 0xFF) (.valueError "router weights must be finite")
  if exponent = 0 then return fraction
  else return ((1 <<< 23) ||| fraction) <<< (exponent - 1)

/-! ## Doubles -/

/-- What is used of float64 numbers and of torch. -/
structure Doubles (D : Type) where
  zero : D
  /-- `1e-7` -/
  tenMillionth : D
  isFinite : D → Bool
  mul : D → D → D
  sub : D → D → D
  abs : D → D
  /-- `float` of an integer, `none` where it overflows -/
  ofNat : ℕ → Option D
  ldexp : D → ℤ → D
  /-- `format` with a number of significant digits -/
  format : ℕ → D → String
  /-- `weights.to(torch.float64).sum(dim=1)` -/
  rowSums : List (List (BitVec 32)) → List D

/-! ## Decimals -/

/-- `context.prec` -/
def decimalPrec : ℕ := 200

/-- The leading digits of a coefficient, rounded half to even, and the number of digits
that were cut off. -/
def contextDigits (coefficient : ℕ) : ℕ × ℕ :=
  let cut := (numeral coefficient).length - decimalPrec
  let below := coefficient / 10 ^ cut
  let rest := coefficient % 10 ^ cut
  if 2 * rest < 10 ^ cut ∨ 2 * rest = 10 ^ cut ∧ below % 2 = 0 then (below, cut)
  -- Rounding up can give one digit more, which is then cut off as well.
  else if below + 1 = 10 ^ decimalPrec then (10 ^ (decimalPrec - 1), cut + 1)
  else (below + 1, cut)

/-- `format(value, "f")` -/
def fixedPoint (coefficient : ℕ) (exponent : ℤ) : String :=
  if 0 ≤ exponent then String.ofList (numeral (coefficient * 10 ^ exponent.toNat))
  else
    let places := (-exponent).toNat
    String.ofList (numeral (coefficient / 10 ^ places) ++
      ('.' :: paddedNumeral places (coefficient % 10 ^ places)))

/-- `_units_to_decimal`, where the power of two is written with a power of ten. -/
def unitsToDecimal (units : ℕ) : String :=
  let digits := contextDigits (units * 5 ^ massUnitPower.natAbs)
  fixedPoint digits.1 (massUnitPower + digits.2)

/-! ## Accumulation -/

structure Row where
  ids : List ℤ
  weights : List (BitVec 32)

structure MassAudit where
  layer : ℤ
  tokens : ℕ
  assignments : ℕ
  expectedTotalMass : String
  observedTotalMass : String
  massByExpert : List String
  massUnitsByExpert : List String
  countByExpert : List ℕ
  maxRowMassError : String
  routeWeightDtype : String
  massUnitPower : ℤ
  deriving DecidableEq

structure RoutedMassAccumulator (D : Type) where
  layer : ℤ
  rowTolerance : D
  tokens : ℕ
  assignments : ℕ
  expectedMassPerToken : Option D
  massUnits : List ℕ
  counts : List ℕ
  maxRowMassError : D

variable {D : Type} [LinearOrder D] (ops : Doubles D)

def RoutedMassAccumulator.init (layer : ℤ) (rowTolerance : D) :
    RoutedMassAccumulator D where
  layer := layer
  rowTolerance := rowTolerance
  tokens := 0
  assignments := 0
  expectedMassPerToken := none
  massUnits := List.replicate numExperts 0
  counts := List.replicate numExperts 0
  maxRowMassError := ops.zero

/-- An expert id that stands next to itself in the sorted row. -/
def hasDuplicate (ids : List ℤ) : Bool :=
  let sorted := ids.insertionSort fun left right => left ≤ right
  (sorted.tail.zip sorted).any fun pair => pair.1 = pair.2

/-- The errors of the rows, `(sum - expected).abs()`. -/
def rowErrors (rows : List Row) (expected : D) : List D :=
  (ops.rowSums (rows.map Row.weights)).map fun sum => ops.abs (ops.sub sum expected)

/-- `row_error.max()`, and zero without rows -/
def maximum : List D → D
  | [] => ops.zero
  | first :: rest => rest.foldl max first

/-- The inner loop: the units and counts after one assignment. -/
def assign (totals : List ℕ × List ℕ) (expert : ℤ) (weight : BitVec 32) :
    Except Failure (List ℕ × List ℕ) := do
  let unsigned := (weight.toInt % 2 ^ 32).toNat
  let units ← float32BitsToUnits unsigned
  return (totals.1.modify expert.toNat (· + units), totals.2.modify expert.toNat (· + 1))

def assignAll (totals : List ℕ × List ℕ) :
    List (ℤ × BitVec 32) → Except Failure (List ℕ × List ℕ)
  | [] => .ok totals
  | (expert, weight) :: rest => do
      let totals ← assign totals expert weight
      assignAll totals rest

/-- The assignments of the rows, in token and slot order. -/
def routed (rows : List Row) : List (ℤ × BitVec 32) :=
  rows.flatMap fun row => row.ids.zip row.weights

namespace RoutedMassAccumulator

/-- The checks of `add` on what it is given, before it looks at the sums. -/
def checkBatch (rows : List Row) (expected : D) : Except Failure Unit := do
  require (∀ row ∈ rows, row.ids.length = topK ∧ row.weights.length = topK)
    (.valueError "routing must be [tokens,8] IDs+weights")
  require (∀ row ∈ rows, ∀ id ∈ row.ids, 0 ≤ id ∧ id < numExperts)
    (.valueError "routing contains out-of-range expert ID")
  require (∀ row ∈ rows, (row.weights.all fun weight =>
      Float32.isFinite weight && !Float32.isNegative weight) = true)
    (.valueError "routing weights must be finite and nonnegative")
  require (ops.isFinite expected = true ∧ ops.zero < expected)
    (.valueError "expected routed mass per token must be finite and positive")

def add (state : RoutedMassAccumulator D) (rows : List Row) (expected : D) :
    Except Failure (RoutedMassAccumulator D) := do
  checkBatch ops rows expected
  require (state.expectedMassPerToken = none ∨ state.expectedMassPerToken = some expected)
    (.valueError "expected routed mass per token changed between batches")
  require (∀ row ∈ rows, hasDuplicate row.ids = false)
    (.valueError "routing contains a duplicate expert ID within one top-k row")
  let maximum := maximum ops (rowErrors ops rows expected)
  require (¬state.rowTolerance < maximum)
    (.valueError ("router mass normalization drift at layer " ++ toString state.layer ++
      ": max row error " ++ ops.format 9 maximum ++ " > " ++
      ops.format 9 state.rowTolerance))
  let (massUnits, counts) ← assignAll (state.massUnits, state.counts) (routed rows)
  return { state with
    tokens := state.tokens + rows.length
    assignments := state.assignments + (rows.flatMap Row.ids).length
    expectedMassPerToken := some expected
    massUnits := massUnits
    counts := counts
    maxRowMassError := max state.maxRowMassError maximum }

/-- `float(number)` -/
def toFloat (number : ℕ) : Except Failure D :=
  match ops.ofNat number with
  | none => .error (.overflowError "int too large to convert to float")
  | some value => .ok value

def finish (state : RoutedMassAccumulator D) : Except Failure MassAudit := do
  require (0 < state.tokens)
    (.valueError ("layer " ++ toString state.layer ++ " has no routed tokens"))
  require (state.assignments = state.tokens * topK)
    (.assertionError "routing assignment accounting drift")
  match state.expectedMassPerToken with
  | none => .error (.assertionError "routing expected-mass contract was not initialized")
  | some expected =>
      let tokens ← toFloat ops state.tokens
      let expectedTotalMass := ops.mul tokens expected
      let observedUnits := state.massUnits.sum
      let observed := ops.ldexp (← toFloat ops observedUnits) massUnitPower
      let tolerance := max (ops.mul ops.tenMillionth expectedTotalMass)
        (ops.mul state.rowTolerance tokens)
      require (¬tolerance < ops.abs (ops.sub observed expectedTotalMass))
        (.valueError ("layer " ++ toString state.layer ++
          " total routed mass mismatch: observed=" ++ ops.format 17 observed ++
          " expected=" ++ ops.format 17 expectedTotalMass))
      return {
        layer := state.layer
        tokens := state.tokens
        assignments := state.assignments
        expectedTotalMass := ops.format 17 expectedTotalMass
        observedTotalMass := unitsToDecimal observedUnits
        massByExpert := state.massUnits.map unitsToDecimal
        massUnitsByExpert := state.massUnits.map toString
        countByExpert := state.counts
        maxRowMassError := ops.format 17 state.maxRowMassError
        routeWeightDtype := "float32"
        massUnitPower := RoutedMass.massUnitPower }

/-- The batches in turn, each with the same expected mass. -/
def addAll (expected : D) (state : RoutedMassAccumulator D) :
    List (List Row) → Except Failure (RoutedMassAccumulator D)
  | [] => .ok state
  | rows :: batches => do
      let state ← add ops state rows expected
      addAll expected state batches

end RoutedMassAccumulator

/-- A whole accumulation, from an empty accumulator to its audit. -/
def accumulate (layer : ℤ) (rowTolerance expected : D) (batches : List (List Row)) :
    Except Failure MassAudit := do
  let state ← RoutedMassAccumulator.addAll ops expected (.init ops layer rowTolerance)
    batches
  RoutedMassAccumulator.finish ops state

end GlmFlash.Encoder.RoutedMass
