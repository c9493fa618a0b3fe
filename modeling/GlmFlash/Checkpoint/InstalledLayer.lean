import GlmFlash.Checkpoint.PayloadStore
import Mathlib.Data.List.Dedup
import Mathlib.Data.List.Sort

/-!
# Installed layers

A layer is installed as a sealed manifest beside a payload store.  Its cost is
derived from the choices: a private object is charged for each slot that holds
it, a shared one once for its group.
-/

namespace GlmFlash.Checkpoint

open GlmFlash.Library

def installedSchema : String := "quant-pipeline.qwen-installed-layer.v3"

/-! ## Cost -/

inductive SharedGroup where
  | downSvh
  | gateUpSuh
  deriving DecidableEq, Repr

def SharedGroup.name : SharedGroup → String
  | downSvh => "down.svh"
  | gateUpSuh => "gate_up.suh"

/-- `_shared_group`, over `_LEGAL_SHARED_GROUPS`. -/
def sharedGroup : Projection → Role → Except Failure SharedGroup
  | .gateProj, .suh => .ok .gateUpSuh
  | .upProj, .suh => .ok .gateUpSuh
  | .downProj, .svh => .ok .downSvh
  | _, _ => .error .valueError

structure PrivateSlot where
  expert : ℕ
  projection : Projection
  role : Role
  sha256 : String
  bytes : ℤ
  deriving DecidableEq

@[ext]
structure SharedObject where
  sharedGroup : SharedGroup
  sha256 : String
  bytes : ℤ
  deriving DecidableEq

/-- A cost before `cost_breakdown_sha256` is added. -/
structure CostBody where
  codecReportedLogicalBytes : ℤ
  semanticExpertPrivateSlots : List PrivateSlot
  semanticExpertPrivateBytes : ℤ
  semanticLayerSharedObjects : List SharedObject
  semanticLayerSharedBytes : ℤ
  allocatedPayloadBytes : ℤ
  physicalDeploymentObjectSha256 : List String
  physicalDeploymentBytes : ℤ
  deriving DecidableEq

structure CostBreakdown extends CostBody where
  costBreakdownSha256 : String
  deriving DecidableEq

/-- What the loop over the choices has gathered. -/
structure Charges where
  logical : ℤ
  privateSlots : List PrivateSlot
  sharedObjects : Dict SharedGroup SharedObject
  deploymentObjects : Dict String ObjectRef

def chargeRole (choice : Choice) (charges : Charges) (role : Role) :
    Except Failure Charges := do
  let ref := choice.objects.ref role
  let deployment := charges.deploymentObjects.set ref.sha256 ref
  match choice.vectorTopology.scope role with
  | .expertPrivate =>
      return { charges with
        deploymentObjects := deployment
        privateSlots := charges.privateSlots ++ [{
          expert := choice.expert
          projection := choice.projection
          role := role
          sha256 := ref.sha256
          bytes := ref.bytes }] }
  | .layerShared =>
      let group ← sharedGroup choice.projection role
      let shared := charges.sharedObjects.setDefault group {
        sharedGroup := group
        sha256 := ref.sha256
        bytes := ref.bytes }
      require (∀ object ∈ shared.get? group,
        object.bytes = ref.bytes ∧ object.sha256 = ref.sha256) .valueError
      return { charges with
        deploymentObjects := deployment
        sharedObjects := shared }

/-- The bytes of a choice's trellis and vectors. -/
def ChoiceObjects.logicalBytes (objects : ChoiceObjects) : ℤ :=
  (payloadRoles.map fun role => (objects.ref role).bytes).sum

def chargeChoice (charges : Charges) (choice : Choice) :
    Except Failure Charges := do
  let derived := choice.objects.logicalBytes
  require (choice.logicalPayloadBytes = derived) .valueError
  payloadRoles.foldlM (chargeRole choice)
    { charges with logical := charges.logical + derived }

def Charges.costBody (charges : Charges) : CostBody :=
  let privateBytes := (charges.privateSlots.map (·.bytes)).sum
  let sharedBytes := (charges.sharedObjects.map (·.2.bytes)).sum
  { codecReportedLogicalBytes := charges.logical
    semanticExpertPrivateSlots := charges.privateSlots
    semanticExpertPrivateBytes := privateBytes
    semanticLayerSharedObjects :=
      (charges.sharedObjects.map Prod.snd).insertionSort fun left right =>
        left.sharedGroup.name ≤ right.sharedGroup.name
    semanticLayerSharedBytes := sharedBytes
    allocatedPayloadBytes := privateBytes + sharedBytes
    physicalDeploymentObjectSha256 :=
      (Dict.keys charges.deploymentObjects).insertionSort (· ≤ ·)
    physicalDeploymentBytes :=
      (charges.deploymentObjects.map (·.2.bytes)).sum }

/-! ## Manifests -/

/-- A manifest before `installed_checkpoint_sha256` is added. -/
structure ManifestBody where
  schema : String
  layer : ℕ
  predecessorStateHash : String
  sourceCheckpointSha256 : String
  fitSha256 : String
  candidateLedgerSha256 : String
  choices : List Choice
  logicalPayloadBytes : ℤ
  allocatedPayloadBytes : ℤ
  costBreakdown : CostBreakdown
  physicalDeploymentObjectBytes : ℤ
  physicalObjectBytes : ℤ
  sharedObjectSha256 : List String
  choiceSha256 : List String
  deriving DecidableEq

structure Manifest extends ManifestBody where
  installedCheckpointSha256 : String
  deriving DecidableEq

/-- A directory with an installed layer. -/
structure InstalledRoot where
  manifest : Option Manifest
  store : PayloadStore

structure LayerHashing extends Hashing where
  costJson : CostBody → Bytes
  manifestJson : ManifestBody → Bytes

variable (hashing : LayerHashing)

def installedCostBreakdown (choices : List Choice) :
    Except Failure CostBreakdown := do
  let charges ← choices.foldlM chargeChoice
    { logical := 0, privateSlots := [], sharedObjects := [],
      deploymentObjects := [] }
  let body := charges.costBody
  return { body with costBreakdownSha256 := hashing.sha256 (hashing.costJson body) }

/-- The shared vectors, each with its projection and role. -/
def sharedHashes (choices : List Choice) :
    List ((Projection × Role) × String) :=
  choices.flatMap fun choice =>
    [Role.suh, Role.svh].filterMap fun role =>
      if choice.vectorTopology.scope role = .layerShared then
        some ((choice.projection, role), (choice.objects.ref role).sha256)
      else none

/-- The bytes of the distinct objects, of all four roles. -/
def physicalBytes (choices : List Choice) : ℤ :=
  let objects := Dict.ofItems (choices.flatMap fun choice =>
    choice.objects.values.map fun ref => (ref.sha256, ref.bytes))
  (objects.map Prod.snd).sum

/-- `key=lambda row: (int(row["expert"]), row["projection"])` -/
def choiceKey (choice : Choice) : ℕ × Projection :=
  (choice.expert, choice.projection)

/-- The order of the keys; projections compare by their names. -/
def keyLe (left right : Choice) : Prop :=
  left.expert < right.expert ∨
    left.expert = right.expert ∧
      left.projection.name ≤ right.projection.name

instance : DecidableRel keyLe := fun _ _ =>
  inferInstanceAs (Decidable (_ ∨ _))

def verifyInstalledLayer (root : InstalledRoot) : Except Failure Manifest :=
  match root.manifest with
  | none => .error .fileNotFound
  | some manifest => do
      require (manifest.schema = installedSchema) .valueError
      require (isHash manifest.installedCheckpointSha256) .valueError
      require (hashing.sha256 (hashing.manifestJson manifest.toManifestBody) =
        manifest.installedCheckpointSha256) .valueError
      require (isHash manifest.predecessorStateHash ∧
        isHash manifest.sourceCheckpointSha256 ∧ isHash manifest.fitSha256 ∧
        isHash manifest.candidateLedgerSha256) .valueError
      require (manifest.choices ≠ []) .valueError
      let choices ← manifest.choices.mapM
        (verifyChoice hashing.toHashing root.store)
      require (∀ choice ∈ choices, choice.layer = manifest.layer ∧
        choice.predecessorStateHash = manifest.predecessorStateHash)
        .valueError
      require (choices.map choiceKey).Nodup .valueError
      require (choices = choices.insertionSort keyLe) .valueError
      require (choices.map (·.choiceSha256) = manifest.choiceSha256)
        .valueError
      let shared := sharedHashes choices
      require (∀ item ∈ shared, (sharedGroup item.1.1 item.1.2).isOk)
        .valueError
      require (shared.Pairwise fun left right =>
        left.1 = right.1 → left.2 = right.2) .valueError
      require (manifest.sharedObjectSha256 =
        (shared.map Prod.snd).dedup.insertionSort (· ≤ ·)) .valueError
      require (physicalBytes choices = manifest.physicalObjectBytes)
        .valueError
      let cost ← installedCostBreakdown hashing choices
      require (manifest.costBreakdown = cost ∧
        manifest.logicalPayloadBytes = cost.codecReportedLogicalBytes ∧
        manifest.allocatedPayloadBytes = cost.allocatedPayloadBytes ∧
        manifest.physicalDeploymentObjectBytes =
          cost.physicalDeploymentBytes) .valueError
      return manifest

end GlmFlash.Checkpoint
