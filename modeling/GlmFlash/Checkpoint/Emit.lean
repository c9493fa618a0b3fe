import GlmFlash.Checkpoint.InstalledLayer
import GlmFlash.Checkpoint.Names

/-!
# Checkpoint assembly

`emit_internal_qwen_checkpoint` of `btx_qwen.py`: source tensors are carried
over except the stacked expert tensors of installed layers, the selected codec
objects are written layer by layer, other source files are copied, and an index
and a sealed manifest are put beside them.
-/

namespace GlmFlash.Checkpoint

open GlmFlash.Library

def internalCheckpointSchema : String := "quant-pipeline.qwen-exl3-mcg-carrier.v1"

def internalIndexSchema : String :=
  "quant-pipeline.qwen-exl3-mcg-carrier-index.v1"

def byteSemantics : String :=
  "codec-payload-including-codec-vectors-excluding-container"

/-! ## Files -/

/-- A safetensors file: its names are distinct. -/
structure TensorFile where
  metadata : Dict String String
  tensors : Dict String Tensor
  nodup : (Dict.keys tensors).Nodup

/-- `save_file(dict(tensors), path, metadata)` -/
def saveFile (metadata : Dict String String) (tensors : Dict String Tensor) :
    TensorFile where
  metadata := metadata
  tensors := Dict.ofItems tensors
  nodup := Dict.nodup_keys_ofItems

structure Index where
  schema : String
  totalSize : ℕ
  weightMap : Dict String String

structure UnitRecord where
  layer : ℕ
  expert : ℕ
  projection : Projection
  bits : ℤ
  logicalPayloadBytes : ℤ
  packedSha256 : String
  reconstructionSha256 : String
  payloadKeys : Dict Role String
  vectorTopology : VectorTopology
  choiceSha256 : String
  predecessorStateHash : String
  provenance : Dict String ProvenanceValue

structure LayerRecord where
  file : String
  bytes : ℕ
  sha256 : String
  installedCheckpointSha256 : String
  predecessorStateHash : String
  fitSha256 : String
  candidateLedgerSha256 : String
  allocatedPayloadBytes : ℤ
  costBreakdownSha256 : String

structure FileRow where
  bytes : ℕ
  sha256 : String
  deriving DecidableEq

structure SourceRecord where
  configSha256 : String
  indexSha256 : Option String
  shards : Dict String String
  declaredIdentity : Option String

/-- A checkpoint manifest before `manifest_sha256` is added. -/
structure CheckpointBody where
  schema : String
  formatVersion : String
  byteSemantics : String
  source : SourceRecord
  layers : Dict String LayerRecord
  units : Dict String UnitRecord
  choiceSha256 : List String
  logicalPayloadBytes : ℤ
  allocatedPayloadBytes : ℤ
  tensorPayloadSha256 : Dict String String
  files : Dict String FileRow

structure CheckpointManifest extends CheckpointBody where
  manifestSha256 : String

/-- A field of a configuration. -/
inductive ConfigValue where
  | text (value : String)
  | object (fields : Dict String String)
  | other (json : Bytes)

inductive File where
  | raw (bytes : Bytes)
  | tensors (file : TensorFile)
  | config (fields : Dict String ConfigValue)
  | index (index : Index)
  | manifest (manifest : CheckpointManifest)
  | sealLine (sha256 : String)

/-- The files under a directory by their relative path. -/
abbrev Directory := Dict String File

/-- An entry of the source directory. -/
inductive Entry where
  | file (file : File)
  | directory (files : Directory)

structure SourceCheckpoint where
  entries : Dict String Entry
  nodup : (Dict.keys entries).Nodup

/-- Canonical JSON, SHA-256 and the bytes of a file. -/
structure CheckpointFormat extends LayerHashing where
  contents : File → Bytes
  checkpointJson : CheckpointBody → Bytes

/-- `sort_keys=True` -/
def sortKeys {V : Type} (dict : Dict String V) : Dict String V :=
  dict.insertionSort fun left right => left.1 ≤ right.1

def CheckpointBody.sortKeys (body : CheckpointBody) : CheckpointBody :=
  { body with
    source := { body.source with
      shards := Checkpoint.sortKeys body.source.shards }
    layers := Checkpoint.sortKeys body.layers
    units := Checkpoint.sortKeys body.units
    tensorPayloadSha256 := Checkpoint.sortKeys body.tensorPayloadSha256
    files := Checkpoint.sortKeys body.files }

/-- `sorted(set(names))` -/
def sortedSet (names : List String) : List String :=
  names.dedup.insertionSort (· ≤ ·)

/-! ## The source -/

/-- Opening `source / name`, where the name may lead into a directory. -/
def SourceCheckpoint.read (source : SourceCheckpoint) (name : String) :
    Option File :=
  match source.entries.get? name with
  | some (.file file) => some file
  | _ => source.entries.findSome? fun entry =>
      match entry.2 with
      | .file _ => none
      | .directory files =>
          (files.find? fun item => entry.1 ++ "/" ++ item.1 = name).map Prod.snd

def SourceCheckpoint.safeOpen (source : SourceCheckpoint) (name : String) :
    Except Failure TensorFile :=
  match source.read name with
  | none => .error .fileNotFound
  | some (.tensors file) => .ok file
  | some _ => .error .safetensorError

def indexName : String := "model.safetensors.index.json"

/-- `_source_index` -/
def sourceIndex (source : SourceCheckpoint) :
    Except Failure (Dict String String × List String) :=
  match source.entries.get? indexName with
  | some (.file (.index index)) =>
      .ok (index.weightMap, sortedSet (index.weightMap.map Prod.snd))
  | some (.file _) => .error .valueError
  | _ => do
      let single := "model.safetensors"
      match source.entries.get? single with
      | some (.file _) =>
          let file ← source.safeOpen single
          return ((Dict.keys file.tensors).map fun key => (key, single), [single])
      | _ => .error .fileNotFound

variable (format : CheckpointFormat)

def fileRow (file : File) : FileRow where
  bytes := (format.contents file).length
  sha256 := format.sha256 (format.contents file)

/-! ## Carriers -/

def tensorSha256 (tensor : Tensor) : Except Failure String := do
  let bytes ← tensorBytes tensor
  return format.sha256 bytes

def hashTensors (hashes : Dict String String) (tensors : Dict String Tensor) :
    Except Failure (Dict String String) :=
  tensors.foldlM (fun hashes item => do
    let digest ← tensorSha256 format item.2
    return hashes.set item.1 digest) hashes

/-- The tensor is replaced by the choices of an installed layer. -/
def dropped (layers : List ℕ) (name : String) : Bool :=
  (stackedExpert name).any fun found => found.1 ∈ layers

def keptTensors (layers : List ℕ) (tensors : Dict String Tensor) :
    Dict String Tensor :=
  tensors.filter fun item => !dropped layers item.1

structure Emission where
  directory : Directory
  weightMap : Dict String String
  tensorHashes : Dict String String
  layers : Dict String LayerRecord
  units : Dict String UnitRecord
  logicalPayloadBytes : ℤ
  choiceHashes : List String

def emptyEmission : Emission where
  directory := []
  weightMap := []
  tensorHashes := []
  layers := []
  units := []
  logicalPayloadBytes := 0
  choiceHashes := []

def emitCarrier (source : SourceCheckpoint) (layers : List ℕ)
    (emission : Emission) (shard : String × ℕ) : Except Failure Emission := do
  let file ← source.safeOpen shard.1
  let kept := keptTensors layers file.tensors
  let hashes ← hashTensors format emission.tensorHashes kept
  if kept.isEmpty then return { emission with tensorHashes := hashes }
  else
    let outputName := carrierName shard.2
    let saved := saveFile
      [("schema", internalCheckpointSchema), ("role", "bf16-carrier")] kept
    return { emission with
      directory := emission.directory.set outputName (.tensors saved)
      weightMap :=
        emission.weightMap.update (kept.map fun item => (item.1, outputName))
      tensorHashes := hashes }

/-! ## Layers -/

/-- One role of a choice: its tensor goes under its key unless the key is
taken, and then the bytes agree. -/
def placeRole (store : PayloadStore) (layer : ℕ) (choice : Choice)
    (placed : Dict String Tensor × Dict Role String) (role : Role) :
    Except Failure (Dict String Tensor × Dict Role String) := do
  let key := payloadKey layer choice.expert choice.projection role
    (choice.vectorTopology.scope role)
  let value ← loadTensor format.toHashing store (choice.objects.ref role)
  match placed.1.get? key with
  | none => return (placed.1.setDefault key value, placed.2.set role key)
  | some incumbent =>
      let held ← tensorSha256 format incumbent
      let digest ← tensorSha256 format value
      require (held = digest) .valueError
      return (placed.1.setDefault key value, placed.2.set role key)

def unitRecord (layer : ℕ) (choice : Choice) (payloadKeys : Dict Role String) :
    UnitRecord where
  layer := layer
  expert := choice.expert
  projection := choice.projection
  bits := choice.bits
  logicalPayloadBytes := choice.logicalPayloadBytes
  packedSha256 := choice.packedSha256
  reconstructionSha256 := choice.reconstructionSha256
  payloadKeys := payloadKeys
  vectorTopology := choice.vectorTopology
  choiceSha256 := choice.choiceSha256
  predecessorStateHash := choice.predecessorStateHash
  provenance := choice.provenance

def placeChoice (store : PayloadStore) (layer : ℕ)
    (state : Dict String Tensor × Emission) (choice : Choice) :
    Except Failure (Dict String Tensor × Emission) := do
  let (tensors, payloadKeys) ←
    payloadRoles.foldlM (placeRole format store layer choice) (state.1, [])
  let unit := unitName layer choice.expert choice.projection
  return (tensors, { state.2 with
    logicalPayloadBytes :=
      state.2.logicalPayloadBytes + choice.logicalPayloadBytes
    choiceHashes := state.2.choiceHashes ++ [choice.choiceSha256]
    units := state.2.units.set unit (unitRecord layer choice payloadKeys) })

def layerRecord (manifest : Manifest) (file : File) : LayerRecord where
  file := layerFileName manifest.layer
  bytes := (fileRow format file).bytes
  sha256 := (fileRow format file).sha256
  installedCheckpointSha256 := manifest.installedCheckpointSha256
  predecessorStateHash := manifest.predecessorStateHash
  fitSha256 := manifest.fitSha256
  candidateLedgerSha256 := manifest.candidateLedgerSha256
  allocatedPayloadBytes := manifest.allocatedPayloadBytes
  costBreakdownSha256 := manifest.costBreakdown.costBreakdownSha256

def emitLayer (emission : Emission) (installed : InstalledRoot × Manifest) :
    Except Failure Emission := do
  let (root, manifest) := installed
  let (tensors, emission) ← manifest.choices.foldlM
    (placeChoice format root.store manifest.layer) ([], emission)
  let outputName := layerFileName manifest.layer
  let saved := saveFile [("schema", internalCheckpointSchema),
    ("layer", toString manifest.layer)] tensors
  let hashes ← hashTensors format emission.tensorHashes saved.tensors
  return { emission with
    directory := emission.directory.set outputName (.tensors saved)
    weightMap := emission.weightMap.update
      (saved.tensors.map fun item => (item.1, outputName))
    tensorHashes := hashes
    layers := emission.layers.set (toString manifest.layer)
      (layerRecord format manifest (.tensors saved)) }

/-! ## Other files -/

/-- Names that are not copied, beside those of the shards. -/
def generatedNames : List String := [indexName, "config.json",
  "quantization_config.json", "BTX_MANIFEST.json", "BTX_MANIFEST.sha256"]

/-- The entries to copy, in the order of their names. -/
def assets (source : SourceCheckpoint) (shards : List String) :
    Dict String Entry :=
  sortKeys (source.entries.filter fun entry =>
    entry.1 ∉ shards ++ generatedNames)

def copyAsset (directory : Directory) (entry : String × Entry) :
    Except Failure Directory :=
  match entry.2 with
  | .file file => .ok (directory.set entry.1 file)
  | .directory files =>
      if entry.1 ∈ Dict.keys directory then .error .fileExists
      else .ok (directory.update
        (files.map fun item => (entry.1 ++ "/" ++ item.1, item.2)))

def quantization (formatVersion : String) : Dict String String := [
  ("quant_method", "exl3"), ("format", "btx-qwen-exl3-mcg"),
  ("format_version", formatVersion), ("byte_semantics", byteSemantics),
  ("bits", "mixed_tensor"), ("requires_loader_feature", "btx-qwen-exl3-mcg-v1")]

/-- The configurations and the index. -/
def writeIndex (fields : Dict String ConfigValue) (formatVersion : String)
    (weightMap : Dict String String) (directory : Directory) : Directory :=
  let config := fields.set "quantization_config"
    (.object (quantization formatVersion))
  let directory := directory.set "config.json" (.config config)
  let directory := directory.set "quantization_config.json" (.config
    ((quantization formatVersion).map fun item => (item.1, .text item.2)))
  let totalSize := ((weightMap.map Prod.snd).dedup.map fun name =>
    ((directory.get? name).map fun file => (fileRow format file).bytes).getD 0).sum
  directory.set indexName (.index {
    schema := internalIndexSchema
    totalSize := totalSize
    weightMap := sortKeys weightMap })

def sealBody (body : CheckpointBody) : CheckpointManifest :=
  { body with
    manifestSha256 := format.sha256 (format.checkpointJson body.sortKeys) }

/-- `write_json` of the manifest, and its hash beside it. -/
def writeManifest (manifest : CheckpointManifest) (directory : Directory) :
    Directory :=
  let file := File.manifest
    { manifest with toCheckpointBody := manifest.toCheckpointBody.sortKeys }
  (directory.set "BTX_MANIFEST.json" file).set "BTX_MANIFEST.sha256"
    (.sealLine (fileRow format file).sha256)

def sourceRecord (source : SourceCheckpoint) (shards : List String)
    (config : File) (sourceHashes : List String) : SourceRecord where
  configSha256 := (fileRow format config).sha256
  indexSha256 := match source.entries.get? indexName with
    | some (.file file) => some (fileRow format file).sha256
    | _ => none
  shards := shards.filterMap fun name =>
    (source.read name).map fun file => (name, (fileRow format file).sha256)
  declaredIdentity := sourceHashes.head?

/-! ## The checkpoint -/

def verifyInstalledLayers (roots : List InstalledRoot) :
    Except Failure (List (InstalledRoot × Manifest)) :=
  roots.mapM fun root => do
    let manifest ← verifyInstalledLayer format.toLayerHashing root
    return (root, manifest)

/-- `emit_internal_qwen_checkpoint`, into the files of the destination: what it
has written and the manifest it returns. -/
def emitInternalQwenCheckpoint (source : SourceCheckpoint)
    (roots : List InstalledRoot) (destination : Directory)
    (formatVersion : String) (expectedAllocatedPayloadBytes : Option ℤ) :
    Except Failure (Directory × CheckpointManifest) := do
  let installed ← verifyInstalledLayers format roots
  let layers := installed.map fun item => item.2.layer
  require (layers = layers.dedup.insertionSort (· ≤ ·)) .valueError
  let sourceHashes :=
    (installed.map fun item => item.2.sourceCheckpointSha256).dedup
  require (sourceHashes.length ≤ 1) .valueError
  let allocated := (installed.map fun item => item.2.allocatedPayloadBytes).sum
  require (∀ expected ∈ expectedAllocatedPayloadBytes, allocated = expected)
    .valueError
  require (destination.isEmpty) .fileExists
  let (_, shards) ← sourceIndex source
  let emission ← (shards.zipIdx 1).foldlM
    (emitCarrier format source layers) emptyEmission
  let emission ← installed.foldlM (emitLayer format) emission
  let directory ← (assets source shards).foldlM copyAsset emission.directory
  match source.read "config.json" with
  | some (.config fields) =>
      let directory := writeIndex format fields formatVersion
        emission.weightMap directory
      let manifest := sealBody format {
        schema := internalCheckpointSchema
        formatVersion := formatVersion
        byteSemantics := byteSemantics
        source := sourceRecord format source shards (.config fields) sourceHashes
        layers := emission.layers
        units := emission.units
        choiceSha256 := emission.choiceHashes.insertionSort (· ≤ ·)
        logicalPayloadBytes := emission.logicalPayloadBytes
        allocatedPayloadBytes := allocated
        tensorPayloadSha256 := sortKeys emission.tensorHashes
        files := directory.map fun item => (item.1, fileRow format item.2) }
      return (writeManifest format manifest directory, manifest)
  | some _ => .error .valueError
  | none => .error .fileNotFound

end GlmFlash.Checkpoint
