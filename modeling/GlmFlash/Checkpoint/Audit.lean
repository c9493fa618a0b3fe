import GlmFlash.Checkpoint.Emit

/-!
# The checkpoint's audit

`audit_internal_qwen_checkpoint` reads an assembled checkpoint back: the seals
and the file rows, every tensor of the files that the index names, and the byte
totals from the units up.
-/

namespace GlmFlash.Checkpoint

open GlmFlash.Library

/-- An entry of `failures`. -/
inductive Finding where
  | schema
  | manifestSeal
  | manifestFileSeal
  | fileSet
  | file (relative : String)
  | duplicateTensor (name : String)
  | tensor (name : String)
  | indexBijection
  | allocatedPayloadParity
  | unitAccounting (unit : String) (error : Failure)
  | logicalPayloadParity
  | emittedAllocatorParity
  | runtimeReaderUnavailable
  | runtimeLoad
  deriving DecidableEq

structure AuditReport where
  ok : Bool
  failures : List Finding
  unitCount : ℕ
  logicalPayloadBytes : ℤ
  allocatedPayloadBytes : ℤ
  manifestSha256 : String

def findingIf (condition : Prop) [Decidable condition] (finding : Finding) :
    List Finding :=
  if condition then [finding] else []

@[simp]
theorem findingIf_eq_nil {condition : Prop} [Decidable condition]
    {finding : Finding} : findingIf condition finding = [] ↔ ¬condition := by
  rw [findingIf]
  split <;> simp_all

variable (format : CheckpointFormat)

/-! ## Files -/

def declaredFiles (manifest : CheckpointManifest) : List String :=
  Dict.keys manifest.files ++ ["BTX_MANIFEST.json", "BTX_MANIFEST.sha256"]

/-- The seals, the file set and the file rows. -/
def auditFiles (root : Directory) (manifest : CheckpointManifest)
    (stored : File) (sealed : String) : List Finding :=
  findingIf (manifest.schema ≠ internalCheckpointSchema) .schema ++
  findingIf (format.sha256
    (format.checkpointJson manifest.toCheckpointBody.sortKeys) ≠
      manifest.manifestSha256) .manifestSeal ++
  findingIf (sealed ≠ (fileRow format stored).sha256) .manifestFileSeal ++
  findingIf (¬((∀ name ∈ declaredFiles manifest, name ∈ Dict.keys root) ∧
    ∀ name ∈ Dict.keys root, name ∈ declaredFiles manifest)) .fileSet ++
  manifest.files.flatMap fun item =>
    findingIf ((root.get? item.1).map (fileRow format) ≠ some item.2)
      (.file item.1)

/-! ## Tensors -/

structure Scan where
  failures : List Finding
  observed : Dict String String
  tensorNbytes : Dict String ℕ

def scanTensor (manifest : CheckpointManifest) (shard : String) (scan : Scan)
    (item : String × Tensor) : Except Failure Scan := do
  let digest ← tensorSha256 format item.2
  return {
    failures := scan.failures ++
      findingIf (item.1 ∈ Dict.keys scan.observed) (.duplicateTensor item.1) ++
      findingIf (manifest.tensorPayloadSha256.get? item.1 ≠ some digest)
        (.tensor item.1)
    observed := scan.observed.set item.1 shard
    tensorNbytes := scan.tensorNbytes.set item.1 item.2.nbytes }

def openTensors (root : Directory) (name : String) :
    Except Failure TensorFile :=
  match root.get? name with
  | none => .error .fileNotFound
  | some (.tensors file) => .ok file
  | some _ => .error .safetensorError

def scanShard (root : Directory) (manifest : CheckpointManifest) (scan : Scan)
    (shard : String) : Except Failure Scan := do
  let file ← openTensors root shard
  file.tensors.foldlM (scanTensor format manifest shard) scan

/-- The two dictionaries are equal, whatever the order of their items. -/
def SameItems (left right : Dict String String) : Prop :=
  (∀ item ∈ left, right.get? item.1 = some item.2) ∧
    ∀ item ∈ right, left.get? item.1 = some item.2

instance (left right : Dict String String) : Decidable (SameItems left right) :=
  inferInstanceAs (Decidable (_ ∧ _))

/-! ## Byte totals -/

structure Totals where
  logical : ℤ
  privateBytes : ℤ
  shared : Dict (ℕ × SharedGroup) (String × ℕ)

/-- The key and the size of each role of a unit. -/
def unitObject (tensorNbytes : Dict String ℕ) (row : UnitRecord) (role : Role) :
    Except Failure (String × ℕ) :=
  match row.payloadKeys.get? role with
  | none => .error .keyError
  | some key =>
      match tensorNbytes.get? key with
      | none => .error .keyError
      | some size => .ok (key, size)

/-- One vector of a unit.  What was added before an error stays added. -/
def chargeVector (row : UnitRecord) (role : Role) (object : String × ℕ)
    (totals : Totals) : Totals × Option Failure :=
  match row.vectorTopology.scope role with
  | .expertPrivate =>
      ({ totals with privateBytes := totals.privateBytes + object.2 }, none)
  | .layerShared =>
      match sharedGroup row.projection role with
      | .error failure => (totals, some failure)
      | .ok group =>
          let shared := totals.shared.setDefault (row.layer, group) object
          ({ totals with shared := shared },
            if shared.get? (row.layer, group) = some object then none
            else some .valueError)

def chargeVectors (row : UnitRecord) (suh svh : String × ℕ) (totals : Totals) :
    Totals × Option Failure :=
  match chargeVector row .suh suh totals with
  | (totals, some failure) => (totals, some failure)
  | (totals, none) => chargeVector row .svh svh totals

def chargeUnit (tensorNbytes : Dict String ℕ) (row : UnitRecord)
    (totals : Totals) : Totals × Option Failure :=
  match unitObject tensorNbytes row .trellis, unitObject tensorNbytes row .suh,
    unitObject tensorNbytes row .svh with
  | .ok trellis, .ok suh, .ok svh =>
      let logical : ℤ := trellis.2 + suh.2 + svh.2
      if logical ≠ row.logicalPayloadBytes then (totals, some .valueError)
      else chargeVectors row suh svh { totals with
        logical := totals.logical + logical
        privateBytes := totals.privateBytes + trellis.2 }
  | .error failure, _, _ => (totals, some failure)
  | _, .error failure, _ => (totals, some failure)
  | _, _, .error failure => (totals, some failure)

def auditUnit (tensorNbytes : Dict String ℕ) (state : Totals × List Finding)
    (unit : String × UnitRecord) : Totals × List Finding :=
  let outcome := chargeUnit tensorNbytes unit.2 state.1
  (outcome.1, state.2 ++ outcome.2.toList.map fun failure =>
    .unitAccounting unit.1 failure)

def auditUnits (tensorNbytes : Dict String ℕ) (units : Dict String UnitRecord) :
    Totals × List Finding :=
  units.foldl (auditUnit tensorNbytes)
    ({ logical := 0, privateBytes := 0, shared := [] }, [])

def Totals.allocated (totals : Totals) : ℤ :=
  totals.privateBytes + (totals.shared.map fun item => (item.2.2 : ℤ)).sum

/-! ## The audit -/

def readManifest (root : Directory) : Except Failure CheckpointManifest :=
  match root.get? "BTX_MANIFEST.json" with
  | none => .error .fileNotFound
  | some (.manifest manifest) => .ok manifest
  | some _ => .error .valueError

def readSealLine (root : Directory) : Except Failure String :=
  match root.get? "BTX_MANIFEST.sha256" with
  | none => .error .fileNotFound
  | some (.sealLine sealed) => .ok sealed
  | some _ => .error .valueError

def readIndex (root : Directory) : Except Failure Index :=
  match root.get? indexName with
  | none => .error .fileNotFound
  | some (.index index) => .ok index
  | some _ => .error .valueError

def auditRuntime (root : Directory)
    (runtimeReader : Option (Directory → Except Failure Bool))
    (requireRuntimeReader : Bool) : Except Failure (List Finding) :=
  match runtimeReader with
  | none => .ok (findingIf requireRuntimeReader .runtimeReaderUnavailable)
  | some reader => do
      let ok ← reader root
      return findingIf (¬ok) .runtimeLoad

def auditInternalQwenCheckpoint (root : Directory)
    (runtimeReader : Option (Directory → Except Failure Bool))
    (requireRuntimeReader : Bool) : Except Failure AuditReport := do
  let manifest ← readManifest root
  let sealed ← readSealLine root
  let files := auditFiles format root manifest (.manifest manifest) sealed
  let index ← readIndex root
  let scan ← (sortedSet (index.weightMap.map Prod.snd)).foldlM
    (scanShard format root manifest)
    { failures := [], observed := [], tensorNbytes := [] }
  let declared := (manifest.layers.map fun item =>
    item.2.allocatedPayloadBytes).sum
  let (totals, units) := auditUnits scan.tensorNbytes manifest.units
  let runtime ← auditRuntime root runtimeReader requireRuntimeReader
  let failures := files ++ scan.failures ++
    findingIf (¬SameItems scan.observed index.weightMap) .indexBijection ++
    findingIf (manifest.allocatedPayloadBytes ≠ declared)
      .allocatedPayloadParity ++
    units ++
    findingIf (manifest.logicalPayloadBytes ≠ totals.logical)
      .logicalPayloadParity ++
    findingIf (manifest.allocatedPayloadBytes ≠ totals.allocated)
      .emittedAllocatorParity ++
    runtime
  return {
    ok := failures.isEmpty
    failures := failures
    unitCount := manifest.units.length
    logicalPayloadBytes := manifest.logicalPayloadBytes
    allocatedPayloadBytes := manifest.allocatedPayloadBytes
    manifestSha256 := manifest.manifestSha256 }

end GlmFlash.Checkpoint
