import GlmFlash.Checkpoint.InstalledLayer
import GlmFlash.Library.PackedRows
import GlmFlash.Library.Text

/-!
# What the B12X container can hold

`btx_compatibility_report` of `official_btx.py`: the container stores a dense inventory
of experts with three projections each, one geometry, one rate for gate and up, and
either one rate throughout or rates of three and four bits by expert.
-/

namespace GlmFlash.Checkpoint.Btx

open GlmFlash.Library

inductive BtxFailure where
  | installed (failure : Failure)
  | indexError
  | keyError
  | valueError (message : String)
  | runtimeError
  | zeroDivisionError
  | assertionError
  deriving DecidableEq, Repr

/-- An error of the installed layer or its store passes through. -/
def fromStore {A : Type} : Except Failure A → Except BtxFailure A
  | .ok value => .ok value
  | .error failure => .error (.installed failure)

@[simp]
theorem fromStore_eq_ok {A : Type} {result : Except Failure A} {value : A} :
    fromStore result = .ok value ↔ result = .ok value := by
  cases result with
  | ok found => simp [fromStore]
  | error failure => simp [fromStore]

def upstreamCommit : String := "36bce2c1552ba2d47dc09f20a6f64fbfc8ec4ff8"

def upstreamClosureSha256 : Dict String String := [
  ("docs/btx-checkpoint-format.md",
    "62ed1996ba54d4f2ab63ccb14ba9dc7e22e15d4443bec330226696600368aebd"),
  ("b12x/moe/_shared/btx_schema.py",
    "282190602b38c70a2085b40a9a2ef895ba6925c38725671cc99b0204d8d1bbdd"),
  ("b12x/moe/_shared/kernels/w4a16/btx.py",
    "d6b241b59b29265235914e1be955607b3e9b0cd83a40f72a40350455adf927bd"),
  ("b12x/moe/_shared/kernels/w4a16/btx_synth.py",
    "f94b5e50c02551a041660d194266849f656e8a08da179d1e36fa64119d04f54e")]

def schema : String := "btx-atoms-v1"

def mcgMultiplier : ℕ := 0xCBAC1FED

def atomChannels : ℕ := 32

def atomsPerPair : ℕ := 8

def pairCodes : Dict String ℕ := [
  ("P22", 0x22), ("P33", 0x33), ("P24", 0x24), ("P43", 0x43), ("P44", 0x44)]

def codeKinds : Dict ℕ String :=
  pairCodes.map Prod.swap

/-- `_bits`: the rates of the low and the high plane. -/
def bits (code : ℕ) : ℕ × ℕ :=
  ((code >>> 4) &&& 0xF, code &&& 0xF)

/-- `_matrix_atom_bytes` -/
def matrixAtomBytes (hidden low high : ℕ) : ℕ :=
  hidden / 16 * 32 * (low + high)

def projections : List Projection := [.gateProj, .upProj, .downProj]

/-- The choices of a layer by expert and projection. -/
abbrev Choices := Dict (ℕ × Projection) Choice

variable (hashing : LayerHashing)

/-- `_layer_choices`; all choices of a layer live in its store. -/
def layerChoices (root : InstalledRoot) : Except BtxFailure (Manifest × Choices) := do
  let manifest ← fromStore (verifyInstalledLayer hashing root)
  return (manifest,
    Dict.ofItems (manifest.choices.map fun choice => (choiceKey choice, choice)))

/-- `choices[(expert, projection)]` -/
def Choices.find (choices : Choices) (expert : ℕ) (projection : Projection) :
    Except BtxFailure Choice :=
  match choices.get? (expert, projection) with
  | some choice => .ok choice
  | none => .error .keyError

/-- `sorted({key[0] for key in choices})` -/
def Choices.experts (choices : Choices) : List ℕ :=
  ((Dict.keys choices).map Prod.fst).dedup.insertionSort (· ≤ ·)

/-- The keys that a dense inventory has. -/
def expectedKeys (experts : List ℕ) : List (ℕ × Projection) :=
  experts.flatMap fun expert => projections.map fun projection => (expert, projection)

def Choices.Dense (choices : Choices) : Prop :=
  (∀ key ∈ Dict.keys choices, key ∈ expectedKeys choices.experts) ∧
    (∀ key ∈ expectedKeys choices.experts, key ∈ Dict.keys choices) ∧
    choices.experts = List.range choices.experts.length

instance (choices : Choices) : Decidable choices.Dense :=
  inferInstanceAs (Decidable (_ ∧ _ ∧ _))

def dimension (shape : List ℕ) (axis : ℕ) : Except BtxFailure ℕ :=
  match shape[axis]? with
  | some size => .ok size
  | none => .error .indexError

structure Geometry where
  numExperts : ℕ
  hiddenSize : ℕ
  intermediateSize : ℕ
  deriving DecidableEq, Repr

inductive RateStructure where
  | uniform
  | perExpertPair
  deriving DecidableEq, Repr

/-! ## The survey of the layers -/

/-- What the loop over the layers has gathered; sets are lists without repetition. -/
structure Survey where
  failures : List String
  layers : List ℕ
  geometry : Option Geometry
  structures : List RateStructure
  observedBits : List ℤ
  observedRatePairs : List (ℤ × ℤ)

def emptySurvey : Survey where
  failures := []
  layers := []
  geometry := none
  structures := []
  observedBits := []
  observedRatePairs := []

/-- What the loop over the experts of a layer has gathered beside it. -/
structure LayerSurvey where
  survey : Survey
  layerRates : List (ℤ × ℤ)
  layerGeometry : Option Geometry

def Survey.fail (survey : Survey) (condition : Prop) [Decidable condition]
    (message : String) : Survey :=
  if condition then { survey with failures := survey.failures ++ [message] } else survey

def expertLabel (layer expert : ℕ) : String :=
  "layer " ++ toString layer ++ " expert " ++ toString expert

/-- One expert; its hidden and intermediate sizes are those of its gate. -/
def surveyExpert (store : PayloadStore) (layer numExperts : ℕ) (choices : Choices)
    (state : LayerSurvey) (expert : ℕ) : Except BtxFailure LayerSurvey := do
  let gate ← choices.find expert .gateProj
  let up ← choices.find expert .upProj
  let down ← choices.find expert .downProj
  let gateShape ← fromStore (loadTensor hashing.toHashing store gate.objects.reconstruction)
  let upShape ← fromStore (loadTensor hashing.toHashing store up.objects.reconstruction)
  let downShape ← fromStore (loadTensor hashing.toHashing store down.objects.reconstruction)
  let hidden ← dimension gateShape.shape 1
  let intermediate ← dimension gateShape.shape 0
  let survey := state.survey.fail
    (upShape.shape ≠ [intermediate, hidden] ∨ downShape.shape ≠ [hidden, intermediate])
    (expertLabel layer expert ++ ": Qwen projection geometry mismatch")
  let survey := survey.fail (gate.bits ≠ up.bits)
    (expertLabel layer expert ++ ": BTX fc1 shares one pair rate for gate/up; independent K" ++
      toString gate.bits ++ "/K" ++ toString up.bits ++ " is unexpressible on master")
  return {
    survey := { survey with
      observedBits :=
        ((survey.observedBits.insert gate.bits).insert up.bits).insert down.bits
      observedRatePairs := survey.observedRatePairs.insert (gate.bits, down.bits) }
    layerRates := state.layerRates ++ [(gate.bits, down.bits)]
    layerGeometry := some ⟨numExperts, hidden, intermediate⟩ }

/-- `{bit for pair in layer_rates for bit in pair}` -/
def allBits (layerRates : List (ℤ × ℤ)) : List ℤ :=
  (layerRates.flatMap fun pair => [pair.1, pair.2]).dedup

def rateStructure (layerRates : List (ℤ × ℤ)) : RateStructure :=
  if (allBits layerRates).length = 1 then .uniform else .perExpertPair

/-- The sizes do not fill whole tiles of rows and pairs of atoms. -/
def Geometry.Ragged (geometry : Geometry) : Prop :=
  geometry.hiddenSize % 16 ≠ 0 ∨ geometry.intermediateSize % 256 ≠ 0

instance (geometry : Geometry) : Decidable geometry.Ragged :=
  inferInstanceAs (Decidable (_ ∨ _))

/-- What is checked of a layer after its experts. -/
def closeLayer (layer : ℕ) (state : LayerSurvey) : Survey :=
  let survey := state.survey.fail (∃ geometry ∈ state.layerGeometry, geometry.Ragged)
    ("layer " ++ toString layer ++
      ": hidden must divide 16 and intermediate must divide 256")
  let survey := survey.fail
    (survey.geometry ≠ none ∧ survey.geometry ≠ state.layerGeometry)
    "installed layers disagree on Qwen geometry"
  { survey with
    geometry := survey.geometry.or state.layerGeometry
    structures := survey.structures.insert (rateStructure state.layerRates)
    layers := survey.layers ++ [layer] }

/-- One layer; one without a dense inventory is not looked at further. -/
def surveyLayer (survey : Survey) (root : InstalledRoot) : Except BtxFailure Survey := do
  let found ← layerChoices hashing root
  let layer := found.1.layer
  if found.2.Dense then do
    let state ← found.2.experts.foldlM
      (surveyExpert hashing root.store layer found.2.experts.length found.2)
      ⟨survey, [], none⟩
    return closeLayer layer state
  else
    return survey.fail True
      ("layer " ++ toString layer ++
        ": choices are not a dense expert x 3 projection inventory")

/-! ## The report -/

structure TpRow where
  legal : Bool
  slotsPerRank : Option ℕ
  reason : Option String
  deriving DecidableEq

structure ReportBody where
  schema : String
  upstreamCommit : String
  upstreamClosureSha256 : Dict String String
  compatible : Bool
  requireFused : Bool
  rateStructure : Option RateStructure
  uniformBits : Option ℤ
  pairKinds : List String
  geometry : Option Geometry
  layers : List ℕ
  failures : List String
  warnings : List String
  targetTpDegrees : List ℤ
  tpCompatibility : Dict String TpRow

structure Report extends ReportBody where
  reportSha256 : String

/-- The kinds of the rates of three and four bits. -/
def observedPairKinds (ratePairs : List (ℤ × ℤ)) : List String :=
  (ratePairs.flatMap fun pair => [pair.1, pair.2].filterMap fun rate =>
    if rate = 3 ∨ rate = 4 then some ("P" ++ toString rate ++ toString rate) else none).dedup

/-- `sorted(names)` of a set. -/
def sortedNames (names : List String) : List String :=
  names.insertionSort (· ≤ ·)

/-- How Python prints a list of texts without quotes in them. -/
def printNames (names : List String) : String :=
  "[" ++ ", ".intercalate (names.map fun name => "'" ++ name ++ "'") ++ "]"

def printBits : Option ℤ → String
  | some rate => toString rate
  | none => "None"

def extentAlignment : Option RateStructure → ℕ
  | some .perExpertPair => atomsPerPair
  | _ => 1

/-- One target degree of tensor parallelism. -/
def tpRow (slots alignment : ℕ) (tp : ℤ) : TpRow :=
  let legal := 0 < tp ∧ slots % tp.toNat = 0 ∧ slots / tp.toNat % alignment = 0
  { legal := decide legal
    slotsPerRank :=
      if 0 < tp ∧ slots % tp.toNat = 0 then some (slots / tp.toNat) else none
    reason :=
      if legal then none
      else some (toString slots ++ " slots / TP" ++ toString tp ++ " does not produce " ++
        toString alignment ++ "-slot-aligned contiguous rank extents") }

/-- The rows of the target degrees, and a failure for each that is not legal. -/
def tpCompatibility (slots alignment : ℕ) (degrees : List ℤ) :
    Dict String TpRow × List String :=
  (Dict.ofItems (degrees.map fun tp => (toString tp, tpRow slots alignment tp)),
    degrees.filterMap fun tp => (tpRow slots alignment tp).reason.map fun reason =>
      "TP" ++ toString tp ++ ": " ++ reason)

structure BtxFormat extends LayerHashing where
  /-- canonical JSON of a report before its hash is added -/
  reportJson : ReportBody → Bytes

/-- What is checked after the loop over the layers. -/
def closeSurvey (survey : Survey) (requireFused : Bool) (targetTpDegrees : List ℤ) :
    ReportBody :=
  let rateStructure := survey.structures.head?
  let uniformBits :=
    if rateStructure = some .uniform ∧ survey.observedBits.length = 1 then
      survey.observedBits.head?
    else none
  let pairKinds :=
    if rateStructure = some .perExpertPair then observedPairKinds survey.observedRatePairs
    else []
  let survey := survey.fail (1 < survey.structures.length)
    ("BTX declares one model-level rate structure; layers cannot mix uniform and " ++
      "per_expert_pair")
  let survey := survey.fail
    (rateStructure = some .perExpertPair ∧ ∃ rate ∈ survey.observedBits, rate ≠ 3 ∧ rate ≠ 4)
    "master per_expert_pair has no K5/K6 pair kind"
  let survey := survey.fail
    (rateStructure = some .uniform ∧ uniformBits ∉ [some 3, some 4, some 5, some 6])
    ("master uniform rate does not support K" ++ printBits uniformBits)
  let survey := survey.fail ("P44" ∈ pairKinds ∧ requireFused = true)
    "P44 requires the unfused/two-launch path; production fused emission was requested"
  let survey := survey.fail
    (sortedNames pairKinds ∉ [["P33"], ["P33", "P44"], ["P44"], []])
    ("allocation requires unsupported master pair kinds: " ++
      printNames (sortedNames pairKinds))
  let tp := match survey.geometry with
    | none => ([], [])
    | some geometry => tpCompatibility (geometry.intermediateSize / atomChannels)
        (extentAlignment rateStructure) targetTpDegrees
  let failures := survey.failures ++ tp.2
  { schema := "quant-pipeline.btx-master-compatibility.v1"
    upstreamCommit := upstreamCommit
    upstreamClosureSha256 := upstreamClosureSha256
    compatible := failures.isEmpty
    requireFused := requireFused
    rateStructure := rateStructure
    uniformBits := uniformBits
    pairKinds := sortedNames pairKinds
    geometry := survey.geometry
    layers := survey.layers.insertionSort (· ≤ ·)
    failures := failures
    warnings :=
      if "P44" ∈ pairKinds then ["P44 is schema-declared but unfused on upstream master"]
      else []
    targetTpDegrees := targetTpDegrees
    tpCompatibility := tp.1 }

def btxCompatibilityReport (format : BtxFormat) (installedLayers : List InstalledRoot)
    (requireFused : Bool) (targetTpDegrees : List ℤ) : Except BtxFailure Report := do
  let survey ← installedLayers.foldlM (surveyLayer format.toLayerHashing) emptySurvey
  let body := closeSurvey survey requireFused targetTpDegrees
  return { body with reportSha256 := format.sha256 (format.reportJson body) }

end GlmFlash.Checkpoint.Btx
