import GlmFlash.Checkpoint.Audit
import GlmFlash.Checkpoint.LayerAccounts
import GlmFlash.Library.Overlay

/-!
# What an assembled checkpoint is to hold

The files that the assembly writes, as tables from tensor names to bytes, and
the promise that no weight is lost.
-/

namespace GlmFlash.Checkpoint

open GlmFlash.Library

/-- An installed layer's directory with its manifest. -/
abbrev Installed := InstalledRoot × Manifest

abbrev Table := Dict String Bytes

/-! ## The files that are written -/

def SourceCheckpoint.tensorsOf (source : SourceCheckpoint) (shard : String) :
    Dict String Tensor :=
  match source.safeOpen shard with
  | .ok file => file.tensors
  | .error _ => []

def tableOf (tensors : Dict String Tensor) : Table :=
  tensors.mapValues Tensor.data

def carrierTables (source : SourceCheckpoint) (layers : List ℕ)
    (shard : String × ℕ) : List (String × Table) :=
  let kept := keptTensors layers (source.tensorsOf shard.1)
  if kept.isEmpty then [] else [(carrierName shard.2, tableOf kept)]

def Slot.key (slot : Slot) (layer : ℕ) : String :=
  payloadKey layer slot.1.expert slot.1.projection slot.2 slot.scope

/-- The bytes of the object in a slot. -/
def Slot.bytes (slot : Slot) (store : PayloadStore) : Bytes :=
  (store.get? (objectPath slot.ref.sha256)).getD []

/-- The first object under each key. -/
def layerTable (store : PayloadStore) (layer : ℕ) (slots : List Slot) : Table :=
  slots.foldl (fun table slot =>
    table.setDefault (slot.key layer) (slot.bytes store)) []

def installedTable (item : Installed) : String × Table :=
  (layerFileName item.2.layer,
    layerTable item.1.store item.2.layer (layerSlots item.2.choices))

def installedLayers (installed : List Installed) : List ℕ :=
  installed.map fun item => item.2.layer

/-- Carriers, then layers, in the order of writing. -/
def emittedFiles (source : SourceCheckpoint) (shards : List String)
    (installed : List Installed) : List (String × Table) :=
  (shards.zipIdx 1).flatMap
      (carrierTables source (installedLayers installed)) ++
    installed.map installedTable

/-- The file under a name, if the entry is a file. -/
def entryFile (entries : Dict String Entry) (name : String) : Option File :=
  match entries.get? name with
  | some (.file file) => some file
  | _ => none

/-- The file that is copied from the source under this name. -/
def copiedFile (source : SourceCheckpoint) (shards : List String)
    (name : String) : Option File :=
  if name ∈ shards ++ generatedNames then none
  else entryFile source.entries name

/-! ## No weight is lost -/

/-- The checkpoint holds these bytes under this name, where its index says. -/
def Present (directory : Directory) (name : String) (bytes : Bytes) : Prop :=
  ∃ index file held tensor, readIndex directory = .ok index ∧
    index.weightMap.get? name = some file ∧
    openTensors directory file = .ok held ∧
    held.tensors.get? name = some tensor ∧ tensorBytes tensor = .ok bytes

/-- The choices cover every expert slice of a stacked tensor of this shape, in
every projection it stacks. -/
def Covers (choices : List Choice) (family : StackedFamily) (shape : List ℕ) :
    Prop :=
  ∃ experts rest, shape = experts :: rest ∧
    ∀ expert < experts, ∀ projection ∈ family.projections,
      (expert, projection) ∈ choices.map choiceKey

/-- The tensor is a stacked expert tensor of an installed layer that covers
it. -/
def Replaced (installed : List Installed) (name : String) (tensor : Tensor) :
    Prop :=
  ∃ layer family, stackedExpert name = some (layer, family) ∧
    ∃ item ∈ installed, item.2.layer = layer ∧
      Covers item.2.choices family tensor.shape

/-- No weight is lost in the checkpoint assembled from these shards and
installed layers. -/
structure NoWeightLost (format : CheckpointFormat) (source : SourceCheckpoint)
    (shards : List String) (installed : List Installed)
    (directory : Directory) (manifest : CheckpointManifest) : Prop where
  carried : ∀ shard ∈ shards, ∀ name tensor,
    (source.tensorsOf shard).get? name = some tensor →
      Present directory name tensor.data ∨ Replaced installed name tensor
  choices : ∀ item ∈ installed, ∀ choice ∈ item.2.choices, ∃ unit,
    manifest.units.get?
        (unitName item.2.layer choice.expert choice.projection) = some unit ∧
      ∀ role ∈ payloadRoles, ∃ key raw,
        unit.payloadKeys.get? role = some key ∧
        item.1.store.get? (choice.objects.ref role).path = some raw ∧
        Present directory key raw
  index : ∃ index, readIndex directory = .ok index ∧
    ∀ file, file ∈ index.weightMap.map Prod.snd ∨
        file ∈ (emittedFiles source shards installed).map Prod.fst →
      ∃ held, openTensors directory file = .ok held ∧
        ∀ name, name ∈ Dict.keys held.tensors ↔
          index.weightMap.get? name = some file
  audit : ∃ report,
    auditInternalQwenCheckpoint format directory none false = .ok report ∧
      report.ok = true ∧
      report.logicalPayloadBytes = manifest.logicalPayloadBytes ∧
      report.allocatedPayloadBytes = manifest.allocatedPayloadBytes

/-! ## When nothing is lost -/

/-- The shard holds these bytes under the name, and the name is not dropped. -/
def Carries (source : SourceCheckpoint) (installed : List Installed)
    (shard name : String) (bytes : Bytes) : Prop :=
  dropped (installedLayers installed) name = false ∧
    ∃ tensor, (source.tensorsOf shard).get? name = some tensor ∧
      tensor.data = bytes

/-- The layer has a choice with these bytes for the object of the key. -/
def Supplies (item : Installed) (name : String) (bytes : Bytes) : Prop :=
  ∃ choice ∈ item.2.choices, ∃ role ∈ payloadRoles,
    payloadKey item.2.layer choice.expert choice.projection role
        (choice.vectorTopology.scope role) = name ∧
      item.1.store.get? (choice.objects.ref role).path = some bytes

/-- No shard after the one of this number carries the name, and no layer has it
for a key. -/
def LastCarried (source : SourceCheckpoint) (shards : List String)
    (installed : List Installed) (index : ℕ) (name : String) : Prop :=
  (∀ shard later, (shard, later) ∈ shards.zipIdx 1 → index < later →
      ∀ bytes, ¬Carries source installed shard name bytes) ∧
    ∀ item ∈ installed, ∀ bytes, ¬Supplies item name bytes

/-- The file holds just these tensors. -/
def Replica (file : File) (tensors : String → Bytes → Prop) : Prop :=
  ∃ held, file = .tensors held ∧
    (∀ name tensor, held.tensors.get? name = some tensor →
      ∃ bytes, tensors name bytes ∧ tensorBytes tensor = .ok bytes) ∧
    ∀ name bytes, tensors name bytes →
      ∃ tensor, held.tensors.get? name = some tensor ∧
        tensorBytes tensor = .ok bytes

/-- Every stacked tensor that is dropped is covered, and tensors of one name
have the same bytes.  A tensor is carried from one shard only, and not under a
key of a layer.  No other file of the source has the name of a carrier or of a
layer's file, unless it holds just the tensors that belong there. -/
structure Complete (source : SourceCheckpoint) (shards : List String)
    (installed : List Installed) : Prop where
  covered : ∀ shard ∈ shards, ∀ name tensor,
    (source.tensorsOf shard).get? name = some tensor →
      dropped (installedLayers installed) name = true →
        Replaced installed name tensor
  agree : ∀ name bytes bytes',
    ((∃ shard ∈ shards, Carries source installed shard name bytes) ∨
      ∃ item ∈ installed, Supplies item name bytes) →
    ((∃ shard ∈ shards, Carries source installed shard name bytes') ∨
      ∃ item ∈ installed, Supplies item name bytes') →
    bytes = bytes'
  once : ∀ shard index, (shard, index) ∈ shards.zipIdx 1 →
    copiedFile source shards (carrierName index) = none →
      ∀ name bytes, Carries source installed shard name bytes →
        LastCarried source shards installed index name
  carriers : ∀ shard index file, (shard, index) ∈ shards.zipIdx 1 →
    (∃ name bytes, Carries source installed shard name bytes) →
      copiedFile source shards (carrierName index) = some file →
        Replica file fun name bytes =>
          Carries source installed shard name bytes ∧
            LastCarried source shards installed index name
  layers : ∀ item ∈ installed, ∀ file,
    copiedFile source shards (layerFileName item.2.layer) = some file →
      Replica file (Supplies item)

end GlmFlash.Checkpoint
