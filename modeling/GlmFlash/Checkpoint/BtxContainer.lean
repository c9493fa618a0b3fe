import GlmFlash.Checkpoint.BtxReport
import GlmFlash.Checkpoint.Emit

/-!
# The B12X container

`_assemble_layer` and `emit_official_btx_checkpoint` of `official_btx.py`.  A layer is
sliced into slots of 32 intermediate channels.  The row of a slot holds, expert by
expert, the low and the high trellis plane of the gate, up and down projection, and is
padded with zeros to a common stride.
-/

namespace GlmFlash.Checkpoint.Btx

open GlmFlash.Library

/-! ## Tensors -/

/-- A tensor whose shape accounts for its bytes. -/
def tensorOf (dtype : String) (itemSize : ℕ) (shape : List ℕ) (data : Bytes) :
    Except BtxFailure Tensor :=
  if hlength : data.length = shape.prod * itemSize then
    .ok { dtype := dtype, itemSize := itemSize, shape := shape, data := data,
          length_data := hlength }
  else .error .runtimeError

/-- `tensor[:, index, :].contiguous()` of a tensor with three axes -/
def middleSlice (tensor : Tensor) (index : ℕ) : Except BtxFailure Tensor :=
  match tensor.shape with
  | [first, middle, last] =>
      if index < middle then
        tensorOf tensor.dtype tensor.itemSize [first, last]
          ((List.range first).flatMap fun row =>
            portion tensor.data ((row * middle + index) * (last * tensor.itemSize))
              (last * tensor.itemSize))
      else .error .indexError
  | _ => .error .indexError

/-- `tensor[index, :, :].contiguous()` of a tensor with three axes -/
def firstSlice (tensor : Tensor) (index : ℕ) : Except BtxFailure Tensor :=
  match tensor.shape with
  | [first, middle, last] =>
      if index < first then
        tensorOf tensor.dtype tensor.itemSize [middle, last]
          (portion tensor.data (index * (middle * (last * tensor.itemSize)))
            (middle * (last * tensor.itemSize)))
      else .error .indexError
  | _ => .error .indexError

/-- The bytes of the half-precision numbers in order, low byte first. -/
def halves : Bytes → List (UInt8 × UInt8)
  | low :: high :: later => (low, high) :: halves later
  | _ => []

/-- The exponent is not the one of infinities and NaN. -/
def isFinite (number : UInt8 × UInt8) : Bool :=
  number.2 &&& 0x7C != 0x7C

def isNaN (number : UInt8 × UInt8) : Bool :=
  number.2 &&& 0x7C == 0x7C && !(number.1 == 0 && number.2 &&& 0x03 == 0)

def isZero (number : UInt8 × UInt8) : Bool :=
  number.1 == 0 && number.2 &&& 0x7F == 0

/-- The equality of two numbers: zeros are equal whatever their sign. -/
def sameNumber (left right : UInt8 × UInt8) : Bool :=
  !isNaN left && !isNaN right && (left == right || isZero left && isZero right)

/-- `torch.equal` of half-precision tensors of one shape -/
def sameNumbers (left right : Bytes) : Bool :=
  (halves left).length == (halves right).length &&
    ((halves left).zip (halves right)).all fun pair => sameNumber pair.1 pair.2

/-- `torch.isfinite(tensor).all()` of a half-precision tensor -/
def allFinite (data : Bytes) : Bool :=
  (halves data).all isFinite

/-! ## Planes -/

/-- How Python prints the tuple of a shape. -/
def printTuple (sizes : List ℤ) : String :=
  match sizes with
  | [size] => "(" ++ toString size ++ ",)"
  | _ => "(" ++ ", ".intercalate (sizes.map toString) ++ ")"

/-- The shape that a trellis has for its rate. -/
def expectedShape (projection : Projection) (hidden intermediate : ℕ) (rate : ℤ) : List ℤ :=
  match projection with
  | .downProj => [(intermediate / 16 : ℕ), (hidden / 16 : ℕ), 16 * rate]
  | _ => [(hidden / 16 : ℕ), (intermediate / 16 : ℕ), 16 * rate]

variable (format : BtxFormat)

/-- `_trellis_planes`: the low and the high plane of a slot. -/
def trellisPlanes (store : PayloadStore) (choice : Choice) (projection : Projection)
    (slot hidden intermediate : ℕ) : Except BtxFailure (Tensor × Tensor) := do
  let trellis ← fromStore (loadTensor format.toHashing store choice.objects.trellis)
  let expected := expectedShape projection hidden intermediate choice.bits
  let shape : List ℤ := trellis.shape.map Int.ofNat
  if shape ≠ expected then
    throw (.valueError (projection.name ++ " trellis shape " ++ printTuple shape ++ " != " ++
      printTuple expected))
  match projection with
  | .downProj => do
      let low ← firstSlice trellis (2 * slot)
      let high ← firstSlice trellis (2 * slot + 1)
      return (low, high)
  | _ => do
      let low ← middleSlice trellis (2 * slot)
      let high ← middleSlice trellis (2 * slot + 1)
      return (low, high)

/-! ## Assembly of a layer -/

/-- `(bits << 4) | bits`, which a table of bytes holds only below 256. -/
def rateCode (rate : ℤ) : Except BtxFailure ℕ := do
  require (0 ≤ rate) .runtimeError
  let code := rate.toNat <<< 4 ||| rate.toNat
  require (code < 256) .runtimeError
  return code

/-- The rate codes of an expert, and the kinds that the container names for them. -/
structure ExpertRates where
  fc1 : ℕ
  fc2 : ℕ
  deriving DecidableEq, Repr

def codeKind (code : ℕ) : Except BtxFailure String :=
  match codeKinds.get? code with
  | some kind => .ok kind
  | none => .error .keyError

/-- One round of the loop that fills the rate tables. -/
def rateExpert (choices : Choices) (declared : RateStructure)
    (state : List ExpertRates × List String) (expert : ℕ) :
    Except BtxFailure (List ExpertRates × List String) := do
  let gate ← choices.find expert .gateProj
  let down ← choices.find expert .downProj
  let fc1 ← rateCode gate.bits
  let fc2 ← rateCode down.bits
  match declared with
  | .uniform => return (state.1 ++ [⟨fc1, fc2⟩], state.2)
  | .perExpertPair => do
      let kind1 ← codeKind fc1
      let kind2 ← codeKind fc2
      return (state.1 ++ [⟨fc1, fc2⟩], (state.2.insert kind1).insert kind2)

/-- The bytes of an expert in a row: gate and up at one rate, down at its own. -/
def ExpertRates.bytes (rates : ExpertRates) (hidden : ℕ) : ℕ :=
  2 * matrixAtomBytes hidden (bits rates.fc1).1 (bits rates.fc1).2 +
    matrixAtomBytes hidden (bits rates.fc2).1 (bits rates.fc2).2

/-- `max(row_sizes)` rounded up to the alignment. -/
def rowStride (rowSizes : List ℕ) (rowAlignment : ℕ) : Except BtxFailure ℕ := do
  require (rowSizes ≠ []) (.valueError "max() arg is an empty sequence")
  require (rowAlignment ≠ 0) .zeroDivisionError
  return (rowSizes.foldl max 0 + rowAlignment - 1) / rowAlignment * rowAlignment

/-- One projection of an expert in the loop over a row. -/
def packProjection (store : PayloadStore) (choices : Choices) (slot hidden intermediate : ℕ)
    (packing : Packing UInt8) (key : ℕ × Projection) :
    Except BtxFailure (Packing UInt8) := do
  let choice ← choices.find key.1 key.2
  let planes ← trellisPlanes format store choice key.2 slot hidden intermediate
  let packing ← packing.put .runtimeError planes.1.data
  packing.put .runtimeError planes.2.data

/-- The row of one slot. -/
def packRow (store : PayloadStore) (choices : Choices) (experts : List ℕ)
    (hidden intermediate stride rowSize slot : ℕ) : Except BtxFailure Bytes := do
  let packing ← (expectedKeys experts).foldlM
    (packProjection format store choices slot hidden intermediate) (packed stride 0 [])
  require (packing.cursor = rowSize ∧ (packing.row.drop packing.cursor).all (· = 0))
    .assertionError
  return packing.row

/-- `.half()`: numbers of other types are converted. -/
structure HalfConversion where
  convert : Tensor → Tensor

def half (conversion : HalfConversion) (tensor : Tensor) : Tensor :=
  if tensor.dtype = "float16" then tensor else conversion.convert tensor

/-- The vectors of an expert: hidden ones first, then the three along the slots. -/
structure ExpertVectors where
  gateHidden : Tensor
  upHidden : Tensor
  downHidden : Tensor
  rotations : List Tensor

variable (conversion : HalfConversion)

def loadHalf (store : PayloadStore) (ref : ObjectRef) : Except BtxFailure Tensor := do
  let tensor ← fromStore (loadTensor format.toHashing store ref)
  return half conversion tensor

/-- One round of the loop over the vectors; `reshape` takes as many numbers as there are
channels. -/
def loadVectors (store : PayloadStore) (choices : Choices) (slots expert : ℕ) :
    Except BtxFailure ExpertVectors := do
  let gate ← choices.find expert .gateProj
  let up ← choices.find expert .upProj
  let down ← choices.find expert .downProj
  let gateHidden ← loadHalf format conversion store gate.objects.suh
  let upHidden ← loadHalf format conversion store up.objects.suh
  let downHidden ← loadHalf format conversion store down.objects.svh
  let rotations ← [gate.objects.svh, up.objects.svh, down.objects.suh].mapM fun ref => do
    let vector ← loadHalf format conversion store ref
    require (vector.shape.prod = slots * atomChannels) .runtimeError
    return vector
  return ⟨gateHidden, upHidden, downHidden, rotations⟩

/-- The part of a vector that belongs to a slot. -/
def slotPart (vector : Tensor) (slot : ℕ) : Bytes :=
  portion vector.data (slot * (atomChannels * 2)) (atomChannels * 2)

def rotationsTensor (slots : ℕ) (vectors : List ExpertVectors) : Except BtxFailure Tensor :=
  tensorOf "float16" 2 [slots, vectors.length, 3, atomChannels]
    ((List.range slots).flatMap fun slot => vectors.flatMap fun expert =>
      expert.rotations.flatMap fun vector => slotPart vector slot)

/-- `torch.stack(rows)` -/
def stack (rows : List Tensor) : Except BtxFailure Tensor :=
  match rows with
  | [] => .error .runtimeError
  | first :: later => do
      require (∀ row ∈ later, row.shape = first.shape) .runtimeError
      tensorOf first.dtype first.itemSize (rows.length :: first.shape)
        (rows.flatMap (·.data))

/-- All rows have the numbers of the first. -/
def sameRows (rows : List Tensor) : Bool :=
  match rows with
  | [] => true
  | first :: _ => rows.all fun row => sameNumbers row.data first.data

/-- The hidden tables: one vector each when all experts agree in all three. -/
def hiddenTables (vectors : List ExpertVectors) : Except BtxFailure (List Tensor) := do
  let tables := [vectors.map (·.gateHidden), vectors.map (·.upHidden),
    vectors.map (·.downHidden)]
  let stacked ← tables.mapM stack
  if tables.all sameRows then return tables.filterMap (·.head?)
  else return stacked

/-- A table with one row of codes for each pair of atoms. -/
def rateTable (pairs : ℕ) (codes : List ℕ) : Except BtxFailure Tensor :=
  tensorOf "uint8" 1 [pairs, codes.length]
    ((List.range pairs).flatMap fun _ => codes.map UInt8.ofNat)

/-- The size of the row of a slot; there is a row of rates for each pair. -/
def rowSize (hidden pairs : ℕ) (rates : List ExpertRates) (slot : ℕ) :
    Except BtxFailure ℕ := do
  require (slot / atomsPerPair < pairs) .indexError
  return (rates.map (·.bytes hidden)).sum

/-- `_assemble_layer`: the tensors of the layer and the kinds of its rates.  The columns
of the rate tables are numbered like the experts. -/
def assembleLayer (store : PayloadStore) (choices : Choices) (declared : RateStructure)
    (rowAlignment : ℕ) : Except BtxFailure (Dict String Tensor × List String) := do
  let experts := choices.experts
  require (experts ≠ []) .indexError
  let first ← choices.find (experts.headD 0) .gateProj
  let reconstruction ← fromStore
    (loadTensor format.toHashing store first.objects.reconstruction)
  require (2 ≤ reconstruction.shape.length)
    (.valueError ("not enough values to unpack (expected 2, got " ++
      toString reconstruction.shape.length ++ ")"))
  require (reconstruction.shape.length ≤ 2)
    (.valueError "too many values to unpack (expected 2)")
  let intermediate ← dimension reconstruction.shape 0
  let hidden ← dimension reconstruction.shape 1
  let slots := intermediate / atomChannels
  let pairs := intermediate / 256
  require (experts = List.range experts.length) .indexError
  let rated ← experts.foldlM (rateExpert choices declared) ([], [])
  let rowSizes ← (List.range slots).mapM (rowSize hidden pairs rated.1)
  let stride ← rowStride rowSizes rowAlignment
  let vectors ← experts.mapM (loadVectors format conversion store choices slots)
  let rotations ← rotationsTensor slots vectors
  let tables ← hiddenTables vectors
  let rows ← (List.range slots).mapM fun slot =>
    packRow format store choices experts hidden intermediate stride (rowSizes.getD slot 0) slot
  let atoms ← tensorOf "uint8" 1 [slots, stride] rows.flatten
  let tensors := ("atoms", atoms) :: ("rotations", rotations) ::
    ["gate_suh", "up_suh", "down_svh"].zip tables
  match declared with
  | .uniform => return (tensors, rated.2)
  | .perExpertPair => do
      let fc1 ← rateTable pairs (rated.1.map (·.fc1))
      let fc2 ← rateTable pairs (rated.1.map (·.fc2))
      return (tensors ++ [("rates_fc1", fc1), ("rates_fc2", fc2)], rated.2)

/-! ## The container -/

inductive Rates where
  | uniform (rate : ℤ)
  | perExpertPair (pairKinds : List String)
  deriving DecidableEq

structure ContainerGeometry extends Geometry where
  atomChannels : ℕ
  atomSlots : ℕ
  moeLayerIndices : List ℕ
  deriving DecidableEq

structure Layout where
  atomRowAlignment : ℕ
  extentAlignmentSlots : ℕ
  extentBarriers : List ℕ
  deriving DecidableEq

structure LayerRef where
  file : String
  sha256 : String
  deriving DecidableEq

/-- The hadamard section: `coupled`, and whether the hidden vectors are per expert. -/
structure Hadamard where
  coupled : Bool
  perExpertInputRotations : Bool
  deriving DecidableEq

structure BtxManifest where
  kind : String
  schema : String
  codebook : String
  codebookSeed : ℕ
  geometry : ContainerGeometry
  rates : Rates
  hadamard : Hadamard
  layout : Layout
  layers : Dict String LayerRef
  deriving DecidableEq

/-- An accounting before `accounting_sha256` is added. -/
structure AccountingBody where
  schema : String
  byteSemantics : String
  installedCheckpointSha256 : List String
  sourceCodecLogicalBytes : ℤ
  sourceSemanticAllocatedPayloadBytes : ℤ
  officialEmittedTensorPayloadBytes : ℕ
  officialEmittedLayerContainerBytes : ℕ
  officialManifestSha256 : String

structure Accounting extends AccountingBody where
  accountingSha256 : String

inductive BtxFile where
  | container (file : TensorFile)
  | manifest (manifest : BtxManifest)
  | accounting (accounting : Accounting)

/-- The files of a container by their name. -/
abbrev BtxDirectory := Dict String BtxFile

/-- The bytes of a file, and the canonical JSON of an accounting. -/
structure ContainerFormat extends BtxFormat, HalfConversion where
  contents : BtxFile → Bytes
  accountingJson : AccountingBody → Bytes

def manifestName : String := "btx-manifest.json"

def accountingName : String := "btx-accounting.json"

def btxLayerFileName (layer : ℕ) : String :=
  String.ofList ("btx-layer-".toList ++ (paddedNumeral 5 layer ++ ".safetensors".toList))

def layerMetadata (geometry : Geometry) (layer : String) : Dict String String := [
  ("schema", schema), ("codebook", "mcg"), ("layer", layer),
  ("num_experts", toString geometry.numExperts),
  ("hidden_size", toString geometry.hiddenSize),
  ("intermediate_size", toString geometry.intermediateSize),
  ("atom_channels", toString atomChannels)]

def tensorBytesTotal (tensors : Dict String Tensor) : ℕ :=
  (tensors.map (·.2.nbytes)).sum

/-- What the loop over the installed layers has written and counted. -/
structure BtxEmission where
  files : BtxDirectory
  layers : Dict ℕ LayerRef
  observedKinds : List String
  perExpertHidden : Option Bool
  tensorPayloadBytes : ℕ
  containerBytes : ℕ

def emptyBtxEmission : BtxEmission := ⟨[], [], [], none, 0, 0⟩

def topologyMessage : String :=
  "BTX model-level hidden rotation topology differs across layers"

section Emission

variable (format : ContainerFormat)

/-- One installed layer: its tensors go to a file of its own. -/
def emitBtxLayer (geometry : Geometry) (declared : RateStructure) (rowAlignment : ℕ)
    (emission : BtxEmission) (root : InstalledRoot) : Except BtxFailure BtxEmission := do
  let found ← layerChoices format.toLayerHashing root
  let layer := found.1.layer
  let assembled ← assembleLayer format.toBtxFormat format.toHalfConversion root.store found.2
    declared rowAlignment
  let gate ← match assembled.1.get? "gate_suh" with
    | some tensor => pure tensor
    | none => throw .keyError
  let perExpert := decide (gate.shape.length = 2)
  require (emission.perExpertHidden.getD perExpert = perExpert) (.valueError topologyMessage)
  let name := btxLayerFileName layer
  let file := BtxFile.container
    (saveFile (layerMetadata geometry (toString layer)) assembled.1)
  let contents := format.contents file
  return {
    files := emission.files.set name file
    layers := emission.layers.set layer ⟨name, format.sha256 contents⟩
    observedKinds := assembled.2.foldl (fun kinds kind => kinds.insert kind)
      emission.observedKinds
    perExpertHidden := some perExpert
    tensorPayloadBytes := emission.tensorPayloadBytes + tensorBytesTotal assembled.1
    containerBytes := emission.containerBytes + contents.length }

def btxManifest (geometry : Geometry) (declared : RateStructure) (uniformBits : Option ℤ)
    (rowAlignment : ℕ) (emission : BtxEmission) : BtxManifest where
  kind := "btx-manifest"
  schema := schema
  codebook := "mcg"
  codebookSeed := mcgMultiplier
  geometry := {
    geometry with
    atomChannels := atomChannels
    atomSlots := geometry.intermediateSize / atomChannels
    moeLayerIndices := (Dict.keys emission.layers).insertionSort (· ≤ ·) }
  rates := match declared with
    | .uniform => .uniform (uniformBits.getD 0)
    | .perExpertPair => .perExpertPair (sortedNames emission.observedKinds)
  hadamard := ⟨false, emission.perExpertHidden.getD false⟩
  layout := ⟨rowAlignment, extentAlignment (some declared), []⟩
  layers := sortKeys (emission.layers.map fun entry => (toString entry.1, entry.2))

def accountingBody (verified : List Manifest) (allocated : ℤ) (emission : BtxEmission)
    (manifestSha256 : String) : AccountingBody where
  schema := "quant-pipeline.official-btx-accounting.v1"
  byteSemantics := "source-codec-payload-excludes-container-and-btx-padding"
  installedCheckpointSha256 := (verified.map (·.installedCheckpointSha256)).insertionSort (· ≤ ·)
  sourceCodecLogicalBytes := (verified.map (·.logicalPayloadBytes)).sum
  sourceSemanticAllocatedPayloadBytes := allocated
  officialEmittedTensorPayloadBytes := emission.tensorPayloadBytes
  officialEmittedLayerContainerBytes := emission.containerBytes
  officialManifestSha256 := manifestSha256

/-- `emit_official_btx_checkpoint` into an empty directory. -/
def emitOfficialBtxCheckpoint (installedLayers : List InstalledRoot) (requireFused : Bool)
    (rowAlignment : ℕ) (targetTpDegrees : List ℤ) (expectedAllocated : Option ℤ) :
    Except BtxFailure (BtxManifest × BtxDirectory) := do
  let report ← btxCompatibilityReport format.toBtxFormat installedLayers requireFused
    targetTpDegrees
  require (report.compatible = true)
    (.valueError ("allocation is not representable by upstream BTX master: " ++
      "; ".intercalate report.failures))
  let verified ← installedLayers.mapM fun root =>
    fromStore (verifyInstalledLayer format.toLayerHashing root)
  let allocated := (verified.map (·.allocatedPayloadBytes)).sum
  require (∀ expected ∈ expectedAllocated, allocated = expected)
    (.valueError "allocator cost differs from official BTX source payload cost")
  match report.geometry, report.rateStructure with
  | some geometry, some declared => do
      let emission ← installedLayers.foldlM
        (emitBtxLayer format geometry declared rowAlignment) emptyBtxEmission
      let manifest := btxManifest geometry declared report.uniformBits rowAlignment emission
      let manifestSha256 := format.sha256 (format.contents (.manifest manifest))
      let body := accountingBody verified allocated emission manifestSha256
      let accounting : Accounting :=
        { body with accountingSha256 := format.sha256 (format.accountingJson body) }
      return (manifest, (emission.files.set manifestName (.manifest manifest)).set
        accountingName (.accounting accounting))
  | _, _ => throw .assertionError

end Emission

end GlmFlash.Checkpoint.Btx
