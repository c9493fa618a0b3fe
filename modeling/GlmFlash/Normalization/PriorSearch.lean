import GlmFlash.Encoder.Permutation

/-!
# The ported search controls

`prior_search.py`: the balanced permutation with its own checks, which refuse a
diagonal that has a negative entry.
-/

namespace GlmFlash.Normalization

open GlmFlash.Library
open GlmFlash.Encoder.Permutation (Failure arrangedIndices)

def validatePermutation (permutation : List ℕ) (size : Option ℕ) :
    Except Failure (List ℕ) := do
  let expected := size.getD permutation.length
  require (1 ≤ expected ∧ permutation.length = expected ∧
      permutation.insertionSort (fun left right => left ≤ right) = List.range expected)
    (.valueError ("permutation must be a bijection over [0," ++ toString expected ++ ")"))
  return permutation

def energyBalancedPermutation (diagonal : List ℚ) (block : ℕ) (serpentine : Bool) :
    Except Failure (List ℕ) := do
  require (diagonal ≠ [] ∧ 1 ≤ block ∧ diagonal.length % block = 0 ∧
      ∀ value ∈ diagonal, 0 ≤ value)
    (.valueError "diagonal must be finite, nonnegative, and a positive multiple of block")
  let indices ← arrangedIndices diagonal block serpentine
  validatePermutation indices (some diagonal.length)

end GlmFlash.Normalization
