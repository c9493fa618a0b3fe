import GlmFlash.Library.Frontier
import GlmFlash.Library.MultipleChoice
import GlmFlash.Library.Outcome
import Mathlib.Data.List.MinMax
import Mathlib.Data.Prod.Lex
import Mathlib.Data.Rat.Defs
import Mathlib.Algebra.Order.Ring.Rat
import Mathlib.Data.String.Basic
import Mathlib.Data.List.Dedup

/-!
# The global allocator

`global_dp.py`: an exact multiple-choice knapsack over stored bytes.  The
choices of a unit are thinned to their frontier, the states of the dynamic
program to those that improve on all cheaper ones.  Damages are exact
rationals.
-/

namespace GlmFlash.Alloc

open GlmFlash.Library

inductive Failure where
  | valueError
  | runtimeError
  deriving DecidableEq, Repr

structure Candidate (M : Type) where
  unitId : String
  choiceId : String
  storedBytes : ℤ
  predictedDamage : ℚ
  metadata : Option M

structure Allocation (M : Type) where
  choices : List (Candidate M)
  storedBytes : ℤ
  predictedDamage : ℚ

variable {M : Type}

/-- The order of `pareto_frontier`. -/
def Candidate.frontierKey (candidate : Candidate M) : ℤ ×ₗ (ℚ ×ₗ String) :=
  toLex (candidate.storedBytes,
    toLex (candidate.predictedDamage, candidate.choiceId))

def paretoFrontier (candidates : List (Candidate M)) : List (Candidate M) :=
  improving Candidate.predictedDamage ⊤
    (sortBy Candidate.frontierKey candidates)

/-- `used`, with the damage and the selection it stands for. -/
abbrev States (M : Type) := Dict ℤ (ℚ × List (Candidate M))

/-- `sorted(grouped)` -/
def unitIds (candidates : List (Candidate M)) : List String :=
  sortBy id (candidates.map Candidate.unitId).dedup

/-- `grouped[unit_id]` -/
def ofUnit (candidates : List (Candidate M)) (unitId : String) :
    List (Candidate M) :=
  candidates.filter fun candidate => decide (candidate.unitId = unitId)

/-- The states that the two inner loops propose, in their order. -/
def extensions (cost : Candidate M → ℤ) (admitted : ℤ → Bool)
    (states : States M) (choices : List (Candidate M)) :
    List (ℤ × (ℚ × List (Candidate M))) :=
  states.flatMap fun state =>
    (choices.filter fun choice => admitted (state.1 + cost choice)).map
      fun choice => (state.1 + cost choice,
        (state.2.1 + choice.predictedDamage, state.2.2 ++ [choice]))

/-- The states whose damage improves on all cheaper ones. -/
def pruneStates (states : States M) : States M :=
  improving (fun state => state.2.1) ⊤ (sortBy Prod.fst states)

/-- The body of the loop over the units. -/
def allocateUnit (candidates : List (Candidate M)) (budget quantum : ℤ)
    (states : States M) (unitId : String) : Except Failure (States M) := do
  let newStates := keepAllBest Prod.fst []
    (extensions (fun choice => choice.storedBytes / quantum)
      (fun used => decide (used ≤ budget)) states
      (paretoFrontier (ofUnit candidates unitId)))
  require (newStates ≠ []) .valueError
  return pruneStates newStates

/-- The checks of the first loop. -/
def Candidate.WellFormed (candidate : Candidate M) : Prop :=
  candidate.unitId ≠ "" ∧ candidate.choiceId ≠ "" ∧ 0 ≤ candidate.storedBytes

instance (candidate : Candidate M) : Decidable candidate.WellFormed :=
  inferInstanceAs (Decidable (_ ∧ _ ∧ _))

/-- The order of quanta, by its computable instance. -/
local instance quantaOrder : Preorder ℤ := Int.instLinearOrder.toPreorder

def allocate (candidates : List (Candidate M)) (byteBudget quantum : ℤ) :
    Except Failure (Allocation M) := do
  require (0 ≤ byteBudget ∧ 1 ≤ quantum) .valueError
  require (∀ candidate ∈ candidates, candidate.WellFormed) .valueError
  if candidates = [] then
    return { choices := [], storedBytes := 0, predictedDamage := 0 }
  else do
    require (byteBudget % quantum = 0 ∧
      ∀ candidate ∈ candidates, candidate.storedBytes % quantum = 0) .valueError
    let states ← (unitIds candidates).foldlM
      (allocateUnit candidates (byteBudget / quantum) quantum)
      [(0, (0, []))]
    match states.argmin fun state => toLex (state.2.1, state.1) with
    | none => .error .valueError
    | some state => return {
        choices := state.2.2
        storedBytes := total Candidate.storedBytes state.2.2
        predictedDamage := state.2.1 }

end GlmFlash.Alloc
