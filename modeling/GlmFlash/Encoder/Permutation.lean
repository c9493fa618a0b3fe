import GlmFlash.Library.Outcome
import Mathlib.Data.List.MinMax
import Mathlib.Data.List.Sort
import Mathlib.Data.Prod.Lex
import Mathlib.Algebra.BigOperators.Intervals
import Mathlib.Algebra.Order.Ring.Rat

/-!
# Permutations of intermediate channels

Channels are ordered by the energy of their covariance diagonal, or spread over
blocks of equal size and about equal energy.  A permutation of the channels is
applied to the three weights of an expert.  Energies are exact numbers.
-/

namespace GlmFlash.Encoder.Permutation

open GlmFlash.Library

inductive Failure where
  | valueError (message : String)
  | zeroDivisionError
  deriving DecidableEq, Repr

def validatePermutation (permutation : List ℕ) (size : ℕ) : Except Failure (List ℕ) := do
  require (permutation.length = size ∧
      permutation.insertionSort (fun left right => left ≤ right) = List.range size)
    (.valueError ("permutation must be a bijection over [0," ++ toString size ++ ")"))
  return permutation

/-! ## Orders of energy -/

/-- The order of the keys `(-values[index], index)`. -/
def Precedes (values : List ℚ) (index index' : ℕ) : Prop :=
  toLex (-values.getD index 0, index) ≤ toLex (-values.getD index' 0, index')

instance (values : List ℚ) : DecidableRel (Precedes values) :=
  fun _ _ => inferInstanceAs (Decidable (toLex _ ≤ toLex _))

/-- `sorted(…, key=lambda index: (-values[index], index))` -/
def descending (values : List ℚ) (indices : List ℕ) : List ℕ :=
  indices.insertionSort (Precedes values)

/-- The bottom-up walk over the stored channels. -/
def ldlqVisitOldIndices (permutation : List ℕ) : Except Failure (List ℕ) := do
  let permutation ← validatePermutation permutation permutation.length
  return permutation.reverse

def assertLdlqVisitDescending (permutation : List ℕ) (diagonal : List ℚ) :
    Except Failure Unit := do
  let visit ← ldlqVisitOldIndices permutation
  let energies := visit.map fun index => diagonal.getD index 0
  require (((energies.zip energies.tail).any fun pair => pair.1 < pair.2) = false)
    (.valueError "LDLQ visit order is not descending by covariance diagonal")

def descendingDiagPermutation (diagonal : List ℚ) : Except Failure (List ℕ) := do
  let ranked := descending diagonal (List.range diagonal.length)
  let stored := ranked.reverse
  assertLdlqVisitDescending stored diagonal
  return stored

/-! ## Balanced blocks -/

structure Filling where
  buckets : List (List ℕ)
  totals : List ℚ

/-- The body of the loop over the ranked channels. -/
def placeIndex (values : List ℚ) (block nblocks : ℕ) (filling : Filling) (index : ℕ) :
    Except Failure Filling :=
  let eligible := (List.range nblocks).filter fun bucket =>
    (filling.buckets.getD bucket []).length < block
  let destination := eligible.argmin fun bucket =>
    toLex (filling.totals.getD bucket 0, bucket)
  match destination with
  | none => .error (.valueError "min() arg is an empty sequence")
  | some destination => .ok {
      buckets := filling.buckets.modify destination (· ++ [index])
      totals := filling.totals.modify destination (· + values.getD index 0) }

def fillBuckets (values : List ℚ) (block : ℕ) : Except Failure Filling :=
  let nblocks := values.length / block
  (descending values (List.range values.length)).foldlM (placeIndex values block nblocks)
    ⟨List.replicate nblocks [], List.replicate nblocks 0⟩

/-- The body of the loop over the buckets: sorted again, every other one reversed. -/
def arrangeBucket (values : List ℚ) (serpentine : Bool) (bucket : ℕ) (indices : List ℕ) :
    List ℕ :=
  let sorted := descending values indices
  if serpentine = true ∧ bucket % 2 ≠ 0 then sorted.reverse else sorted

/-- The channels of all buckets in turn. -/
def arrangedIndices (values : List ℚ) (block : ℕ) (serpentine : Bool) :
    Except Failure (List ℕ) := do
  let filling ← fillBuckets values block
  return (filling.buckets.zipIdx.map fun entry =>
    arrangeBucket values serpentine entry.2 entry.1).flatten

def energyBalancedPermutation (diagonal : List ℚ) (block : ℕ) (serpentine : Bool) :
    Except Failure (List ℕ) := do
  require (diagonal ≠ [])
    (.valueError "diagonal length must be a positive multiple of block")
  require (block ≠ 0) .zeroDivisionError
  require (diagonal.length % block = 0)
    (.valueError "diagonal length must be a positive multiple of block")
  let indices ← arrangedIndices diagonal block serpentine
  validatePermutation indices diagonal.length

/-! ## Experts -/

/-- `inverse[old] = new` for each entry of the permutation. -/
def inversePermutation (permutation : List ℕ) : Except Failure (List ℕ) := do
  let permutation ← validatePermutation permutation permutation.length
  return permutation.zipIdx.foldl (fun inverse entry => inverse.set entry.1 entry.2)
    (List.replicate permutation.length 0)

/-- A matrix, whose entries count up to its shape. -/
structure Tensor (R : Type) where
  rows : ℕ
  cols : ℕ
  entry : ℕ → ℕ → R

namespace Tensor

variable {R : Type}

/-- `index_select(0, index)` -/
def selectRows (tensor : Tensor R) (index : List ℕ) : Tensor R where
  rows := index.length
  cols := tensor.cols
  entry := fun row col => tensor.entry (index.getD row 0) col

/-- `index_select(1, index)` -/
def selectCols (tensor : Tensor R) (index : List ℕ) : Tensor R where
  rows := tensor.rows
  cols := index.length
  entry := fun row col => tensor.entry row (index.getD col 0)

/-- `torch.equal` -/
structure Equal (left right : Tensor R) : Prop where
  rows : left.rows = right.rows
  cols : left.cols = right.cols
  entry : ∀ row < right.rows, ∀ col < right.cols, left.entry row col = right.entry row col

end Tensor

/-- The gate, up and down weights of an expert. -/
structure Expert (R : Type) where
  gate : Tensor R
  up : Tensor R
  down : Tensor R

def permuteExpertHf {R : Type} (expert : Expert R) (permutation : List ℕ) :
    Except Failure (Expert R) := do
  let permutation ← validatePermutation permutation expert.gate.rows
  require (expert.gate.rows = expert.up.rows ∧ expert.gate.cols = expert.up.cols)
    (.valueError "gate and up shapes differ")
  require (expert.down.cols = expert.gate.rows)
    (.valueError "down input does not match intermediate size")
  return {
    gate := expert.gate.selectRows permutation
    up := expert.up.selectRows permutation
    down := expert.down.selectCols permutation }

/-- `(act(x @ gate.T) * (x @ up.T)) @ down.T` -/
def Expert.forward {R : Type} [NonUnitalNonAssocSemiring R] (act : R → R)
    (expert : Expert R) (input : ℕ → R) (output : ℕ) : R :=
  ∑ channel ∈ Finset.range expert.gate.rows,
    act (∑ place ∈ Finset.range expert.gate.cols, input place * expert.gate.entry channel place) *
      (∑ place ∈ Finset.range expert.up.cols, input place * expert.up.entry channel place) *
        expert.down.entry output channel

end GlmFlash.Encoder.Permutation
