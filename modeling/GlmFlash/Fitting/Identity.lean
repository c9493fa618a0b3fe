import GlmFlash.Fitting.Moments
import GlmFlash.Library.Dict
import GlmFlash.Library.Outcome
import Mathlib.Data.List.Sort

/-!
# Identity of a fitter

The names of experts and what the constructor of `CalibrationFitter` checks.
-/

namespace GlmFlash.Fitting

open GlmFlash.Library

/-! ## Texts -/

/-- Where the ten decimal digits of each script start. -/
def decimalZeros : List ℕ := [0x30, 0x660, 0x6f0, 0x7c0, 0x966, 0x9e6, 0xa66, 0xae6, 0xb66,
  0xbe6, 0xc66, 0xce6, 0xd66, 0xde6, 0xe50, 0xed0, 0xf20, 0x1040, 0x1090, 0x17e0, 0x1810,
  0x1946, 0x19d0, 0x1a80, 0x1a90, 0x1b50, 0x1bb0, 0x1c40, 0x1c50, 0xa620, 0xa8d0, 0xa900,
  0xa9d0, 0xa9f0, 0xaa50, 0xabf0, 0xff10, 0x104a0, 0x10d30, 0x11066, 0x110f0, 0x11136,
  0x111d0, 0x112f0, 0x11450, 0x114d0, 0x11650, 0x116c0, 0x11730, 0x118e0, 0x11950, 0x11c50,
  0x11d50, 0x11da0, 0x11f50, 0x16a60, 0x16ac0, 0x16b50, 0x1d7ce, 0x1d7d8, 0x1d7e2, 0x1d7ec,
  0x1d7f6, 0x1e140, 0x1e2f0, 0x1e4f0, 0x1e950, 0x1fbf0]

def decimalDigit (char : Char) : Option ℕ :=
  (decimalZeros.find? fun start => start ≤ char.toNat ∧ char.toNat < start + 10).map
    (char.toNat - ·)

/-- `int(text)` of a text for which `text.isdecimal()` holds. -/
def decimalNumber (text : String) : Option ℕ :=
  if text = "" then none
  else text.toList.foldlM (fun number char =>
    (decimalDigit char).map fun digit => 10 * number + digit) 0

def isSpace (char : Char) : Bool :=
  [0x20, 0x85, 0xa0, 0x1680, 0x2028, 0x2029, 0x202f, 0x205f, 0x3000].contains char.toNat ||
    (0x9 ≤ char.toNat && char.toNat ≤ 0xd) || (0x1c ≤ char.toNat && char.toNat ≤ 0x1f) ||
    (0x2000 ≤ char.toNat && char.toNat ≤ 0x200a)

/-- `text and text.strip() == text` -/
def isCanonical (text : String) : Bool :=
  text ≠ "" && text.toList.head?.all (fun char => !isSpace char) &&
    text.toList.getLast?.all (fun char => !isSpace char)

/-! ## Experts -/

inductive RawExpertId where
  | int (value : ℤ)
  | text (value : String)
  | other
  deriving DecidableEq, Repr

/-- Numbers of more digits are not converted to texts or from them. -/
def maxStrDigits : ℕ := 4300

def badExpertId : Failure :=
  .valueError "expert IDs must be non-negative integers or non-empty strings"

def tooManyDigits : Failure :=
  .valueError "Exceeds the limit (4300 digits) for integer string conversion"

def normaliseExpertId : RawExpertId → Except Failure String
  | .int value => do
      require (0 ≤ value) badExpertId
      require ((toString value).length ≤ maxStrDigits) tooManyDigits
      return toString value
  | .text value => do
      require (isCanonical value = true) badExpertId
      match decimalNumber value with
      | none => return value
      | some number =>
          require (value.length ≤ maxStrDigits) tooManyDigits
          return toString number
  | .other => .error badExpertId

/-- The order of `_expert_sort_key`: numbers first, then texts. -/
def expertBefore (left right : String) : Bool :=
  match decimalNumber left, decimalNumber right with
  | some left, some right => left ≤ right
  | some _, none => true
  | none, some _ => false
  | none, none => left ≤ right

def sortExperts (experts : List String) : List String :=
  experts.insertionSort fun left right => expertBefore left right = true

/-! ## Accounts -/

inductive Origin where
  | natural
  | supplemental
  deriving DecidableEq, Repr

inductive Accounting where
  | natural
  | supplementalRaw
  | supplementalCorrected
  | combined
  deriving DecidableEq, Repr

def accountingKinds : List Accounting :=
  [.natural, .supplementalRaw, .supplementalCorrected, .combined]

def routeWeightPowers : List (Fin 3) := [0, 1, 2]

/-- An accumulator of an expert: its accounting and the power of its weights. -/
abbrev Place := Accounting × Fin 3

/-- The accumulator that tells which samples an expert has. -/
abbrev sampleAccount : Place := (.combined, 0)

inductive ArtifactDtype where
  | float32
  | float64
  deriving DecidableEq, Repr

/-! ## The constructor -/

structure Arguments where
  layerId : ℤ
  projection : String
  hiddenSize : ℤ
  predecessorCheckpointHash : String
  sourceIdentities : Dict String String
  regularizationFloor : ℚ
  retainedAccounting : List Accounting
  retainedPowers : List ℤ
  covarianceMode : CovarianceMode
  blockSize : ℤ
  artifactDtype : ArtifactDtype

structure Identity where
  layerId : ℤ
  projection : String
  hiddenSize : ℕ
  predecessorCheckpointHash : String
  sourceIdentities : Dict String String
  regularizationFloor : ℚ
  retainedAccounting : List Accounting
  retainedPowers : List ℤ
  covarianceMode : CovarianceMode
  blockSize : ℕ
  artifactDtype : ArtifactDtype
  hiddenSize_pos : 0 < hiddenSize
  blocks : covarianceMode = .blockDiagonal → blockSize ∣ hiddenSize
  deriving DecidableEq

/-- `[0-9a-f]{64}` -/
def isHash (text : String) : Bool :=
  text.length = 64 && text.toList.all fun char =>
    ('0' ≤ char && char ≤ '9') || ('a' ≤ char && char ≤ 'f')

def validateSourceIdentities (identities : Dict String String) :
    Except Failure (Dict String String) := do
  require (identities ≠ []) (.valueError "source_identities must be a non-empty mapping")
  require (identities.all (fun entry => isCanonical entry.1 && isCanonical entry.2) = true)
    (.valueError "source identity keys and values must be non-empty canonical strings")
  return identities.insertionSort fun left right => left.1 ≤ right.1

def Identity.init (arguments : Arguments) : Except Failure Identity := do
  require (0 ≤ arguments.layerId) (.valueError "layer_id must be a non-negative integer")
  require (isCanonical arguments.projection = true)
    (.valueError "projection must be a non-empty canonical string")
  if hsize : 1 ≤ arguments.hiddenSize then do
    require (isHash arguments.predecessorCheckpointHash = true)
      (.valueError "predecessor_checkpoint_hash must be a lowercase 64-hex SHA256")
    require (0 < arguments.regularizationFloor)
      (.valueError "regularization_floor must be finite and positive")
    require (arguments.retainedAccounting ≠ [] ∧ arguments.retainedAccounting.Nodup)
      (.valueError ("retained_accounting must be unique members of ('natural', " ++
        "'supplemental_raw', 'supplemental_corrected', 'combined')"))
    require (arguments.retainedPowers ≠ [] ∧ arguments.retainedPowers.Nodup ∧
        arguments.retainedPowers.all (fun power => 0 ≤ power && power ≤ 2) = true)
      (.valueError "retained_powers must be unique members of (0, 1, 2)")
    require (1 ≤ arguments.blockSize) (.valueError "block_size must be a positive integer")
    if hblocks : arguments.covarianceMode = .blockDiagonal →
        arguments.blockSize.toNat ∣ arguments.hiddenSize.toNat then do
      let sourceIdentities ← validateSourceIdentities arguments.sourceIdentities
      return {
        layerId := arguments.layerId
        projection := arguments.projection
        hiddenSize := arguments.hiddenSize.toNat
        predecessorCheckpointHash := arguments.predecessorCheckpointHash
        sourceIdentities := sourceIdentities
        regularizationFloor := arguments.regularizationFloor
        retainedAccounting := arguments.retainedAccounting
        retainedPowers := arguments.retainedPowers
        covarianceMode := arguments.covarianceMode
        blockSize := arguments.blockSize.toNat
        artifactDtype := arguments.artifactDtype
        hiddenSize_pos := Int.pos_iff_toNat_pos.mp hsize
        blocks := hblocks }
    else .error (.valueError
      "block-diagonal covariance requires hidden_size divisible by block_size")
  else .error (.valueError "hidden_size must be a positive integer")

def Identity.geometry (identity : Identity) (place : Place) : Geometry where
  dimension := identity.hiddenSize
  covarianceMode := identity.covarianceMode
  blockSize := identity.blockSize
  retainCovariance := place.1 ∈ identity.retainedAccounting ∧
    (place.2.val : ℤ) ∈ identity.retainedPowers

end GlmFlash.Fitting
