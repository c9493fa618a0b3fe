import GlmFlash.Checkpoint.BtxContainer
import GlmFlash.Checkpoint.Audit

/-!
# Reading the B12X container

`audit_official_btx_checkpoint` and `unpack_official_btx_plane` of `official_btx.py`.
The audit derives the used part of every row from the rate tables; the unpacker derives
the address of a plane from them.
-/

namespace GlmFlash.Checkpoint.Btx

open GlmFlash.Library

/-- `_strict_manifest`; the keys of the sections are those of the types. -/
def strictManifest (manifest : BtxManifest) : Except BtxFailure Unit := do
  require (manifest.kind = "btx-manifest" ∧ manifest.schema = schema ∧
    manifest.codebook = "mcg" ∧ manifest.codebookSeed = mcgMultiplier)
    (.valueError "BTX manifest top-level contract mismatch")
  require (manifest.geometry.atomChannels = 32 ∧
    manifest.geometry.atomSlots * 32 = manifest.geometry.intermediateSize ∧
    manifest.geometry.hiddenSize % 16 = 0)
    (.valueError "BTX geometry arithmetic mismatch")
  match manifest.rates with
  | .uniform rate =>
      require (rate = 3 ∨ rate = 4 ∨ rate = 5 ∨ rate = 6)
        (.valueError "BTX uniform rates mismatch")
  | .perExpertPair kinds =>
      require (∀ kind ∈ kinds, kind ∈ Dict.keys pairCodes)
        (.valueError "BTX pair-rate vocabulary mismatch")
  let declared := manifest.geometry.moeLayerIndices.map fun layer => toString layer
  require ((∀ layer ∈ Dict.keys manifest.layers, layer ∈ declared) ∧
    ∀ layer ∈ declared, layer ∈ Dict.keys manifest.layers)
    (.valueError "BTX layer coverage mismatch")

inductive BtxFinding where
  | manifest (reason : BtxFailure)
  | fileSet
  | layerSha (layer : String)
  | metadata (layer : String)
  | tensorSet (layer : String)
  | atoms (layer : String)
  | rotations (layer : String)
  | hiddenVector (layer name : String)
  | rateTable (layer : String)
  | atomPadding (layer : String) (slot : ℕ)
  | accounting (reason : String)
  | runtimeReaderUnavailable
  | runtimeLoad
  deriving DecidableEq

/-- A finding when a check fails. -/
def findingUnless (condition : Prop) [Decidable condition] (finding : BtxFinding) :
    List BtxFinding :=
  if condition then [] else [finding]

/-- The rate codes of the experts by pair. -/
abbrev RateCodes := List (List ℕ)

/-- The table that a uniform rate stands for. -/
def fullTable (pairs experts code : ℕ) : RateCodes :=
  List.replicate pairs (List.replicate experts code)

/-- The entries of a table of bytes with two axes. -/
def tableCodes (table : Tensor) : RateCodes :=
  match table.shape with
  | [pairs, experts] => (List.range pairs).map fun pair =>
      (portion table.data (pair * experts) experts).map UInt8.toNat
  | _ => []

def readTensor (tensors : Dict String Tensor) (name : String) : Except BtxFailure Tensor :=
  match tensors.get? name with
  | some tensor => .ok tensor
  | none => .error .keyError

/-- `(rate << 4) | rate` of a checked rate. -/
def uniformCode (rate : ℤ) : ℕ :=
  rate.toNat <<< 4 ||| rate.toNat

/-- The rate tables of a layer, which a uniform container does not store. -/
def layerRateCodes (manifest : BtxManifest) (tensors : Dict String Tensor) :
    Except BtxFailure (RateCodes × RateCodes) :=
  match manifest.rates with
  | .uniform rate =>
      let table := fullTable (manifest.geometry.atomSlots / 8) manifest.geometry.numExperts
        (uniformCode rate)
      .ok (table, table)
  | .perExpertPair _ => do
      let fc1 ← readTensor tensors "rates_fc1"
      let fc2 ← readTensor tensors "rates_fc2"
      return (tableCodes fc1, tableCodes fc2)

def codeAt (table : RateCodes) (pair expert : ℕ) : Except BtxFailure ℕ :=
  match table[pair]?.bind (·[expert]?) with
  | some code => .ok code
  | none => .error .indexError

/-- The bytes of an expert in the rows of a pair. -/
def expertBytes (hidden : ℕ) (tables : RateCodes × RateCodes) (pair expert : ℕ) :
    Except BtxFailure ℕ := do
  let fc1 ← codeAt tables.1 pair expert
  let fc2 ← codeAt tables.2 pair expert
  return 2 * matrixAtomBytes hidden (bits fc1).1 (bits fc1).2 +
    matrixAtomBytes hidden (bits fc2).1 (bits fc2).2

/-- The bytes of the experts before one. -/
def precedingBytes (hidden : ℕ) (tables : RateCodes × RateCodes) (pair count : ℕ) :
    Except BtxFailure ℕ :=
  (List.range count).foldlM (fun used expert => do
    let size ← expertBytes hidden tables pair expert
    return used + size) 0

/-! ## The audit -/

/-- The rate tables are as large as the geometry says and have known codes only. -/
def TableFits (manifest : BtxManifest) (table : Tensor) : Prop :=
  table.dtype = "uint8" ∧
    table.shape = [manifest.geometry.atomSlots / 8, manifest.geometry.numExperts] ∧
    table.data.all fun code => (Dict.keys codeKinds).contains code.toNat

instance (manifest : BtxManifest) (table : Tensor) : Decidable (TableFits manifest table) :=
  inferInstanceAs (Decidable (_ ∧ _ ∧ _))

/-- One row: its used part fits and what is behind it is zero.  The loop ends with the
first finding. -/
def auditRow (manifest : BtxManifest) (layer : String) (atoms : Tensor) (rows width : ℕ)
    (tables : RateCodes × RateCodes) (found : List BtxFinding) (slot : ℕ) :
    Except BtxFailure (List BtxFinding) :=
  if found ≠ [] then .ok found
  else do
    let used ← precedingBytes manifest.geometry.hiddenSize tables (slot / 8)
      manifest.geometry.numExperts
    if width < used then return [.atomPadding layer slot]
    require (slot < rows) .indexError
    let padding := portion atoms.data (slot * width + used) (width - used)
    return findingUnless (padding.all (· == 0)) (.atomPadding layer slot)

/-- What the loop over the layers has found and counted. -/
structure AuditState where
  findings : List BtxFinding
  tensorPayloadBytes : ℕ
  containerBytes : ℕ

def hiddenShape (manifest : BtxManifest) : List ℕ :=
  if manifest.hadamard.perExpertInputRotations then
    [manifest.geometry.numExperts, manifest.geometry.hiddenSize]
  else [manifest.geometry.hiddenSize]

def requiredTensors (rates : Rates) : List String :=
  ["atoms", "rotations", "gate_suh", "up_suh", "down_svh"] ++
    match rates with
    | .uniform _ => []
    | .perExpertPair _ => ["rates_fc1", "rates_fc2"]

/-- Two lists of names as sets. -/
def SameNames (left right : List String) : Prop :=
  (∀ name ∈ left, name ∈ right) ∧ ∀ name ∈ right, name ∈ left

instance (left right : List String) : Decidable (SameNames left right) :=
  inferInstanceAs (Decidable (_ ∧ _))

def auditVector (manifest : BtxManifest) (layer : String) (tensors : Dict String Tensor)
    (name : String) : Except BtxFailure (List BtxFinding) := do
  let vector ← readTensor tensors name
  return findingUnless (vector.dtype = "float16" ∧ vector.shape = hiddenShape manifest ∧
    allFinite vector.data = true) (.hiddenVector layer name)

def auditRateTable (manifest : BtxManifest) (layer : String) (tensors : Dict String Tensor)
    (name : String) : Except BtxFailure (List BtxFinding) := do
  let table ← readTensor tensors name
  return findingUnless (TableFits manifest table) (.rateTable layer)

def auditRateTables (manifest : BtxManifest) (layer : String) (tensors : Dict String Tensor) :
    Except BtxFailure (List (List BtxFinding)) :=
  match manifest.rates with
  | .uniform _ => .ok []
  | .perExpertPair _ =>
      ["rates_fc1", "rates_fc2"].mapM (auditRateTable manifest layer tensors)

/-- The findings about the tensors of a layer whose names are the required ones. -/
def auditTensors (manifest : BtxManifest) (layer : String) (tensors : Dict String Tensor) :
    Except BtxFailure (List BtxFinding) := do
  let geometry := manifest.geometry
  let atoms ← readTensor tensors "atoms"
  let rotations ← readTensor tensors "rotations"
  let rows ← dimension atoms.shape 0
  let width ← dimension atoms.shape 1
  require (manifest.layout.atomRowAlignment ≠ 0) .zeroDivisionError
  let vectors ← ["gate_suh", "up_suh", "down_svh"].mapM (auditVector manifest layer tensors)
  let fits ← auditRateTables manifest layer tensors
  let tables ← layerRateCodes manifest tensors
  let padding ← (List.range geometry.atomSlots).foldlM
    (auditRow manifest layer atoms rows width tables) []
  return findingUnless (atoms.dtype = "uint8" ∧ rows = geometry.atomSlots ∧
      width % manifest.layout.atomRowAlignment = 0) (.atoms layer) ++
    findingUnless (rotations.dtype = "float16" ∧
      rotations.shape = [geometry.atomSlots, geometry.numExperts, 3, 32] ∧
      allFinite rotations.data = true) (.rotations layer) ++
    vectors.flatten ++ fits.flatten ++ padding

section Audit

variable (format : ContainerFormat)

/-- One layer of the manifest. -/
def auditBtxLayer (root : BtxDirectory) (manifest : BtxManifest) (state : AuditState)
    (entry : String × LayerRef) : Except BtxFailure AuditState :=
  let broken : AuditState :=
    { state with findings := state.findings ++ [.layerSha entry.1] }
  match root.get? entry.2.file with
  | none => .ok broken
  | some file => do
      let contents := format.contents file
      if format.sha256 contents ≠ entry.2.sha256 then return broken
      match file with
      | .container stored => do
          let state := { state with containerBytes := state.containerBytes + contents.length }
          let metadata := findingUnless (SameItems stored.metadata
            (layerMetadata manifest.geometry.toGeometry entry.1)) (.metadata entry.1)
          if SameNames (Dict.keys stored.tensors) (requiredTensors manifest.rates) then do
            let findings ← auditTensors manifest entry.1 stored.tensors
            return { state with
              findings := state.findings ++ metadata ++ findings
              tensorPayloadBytes :=
                state.tensorPayloadBytes + tensorBytesTotal stored.tensors }
          else
            return { state with
              findings := state.findings ++ metadata ++ [.tensorSet entry.1] }
      | _ => throw .runtimeError

/-- The first check that the accounting fails, with its reason. -/
def auditAccounting (root : BtxDirectory) (manifestSha256 : String) (state : AuditState) :
    List BtxFinding :=
  match root.get? accountingName with
  | some (.accounting accounting) =>
      if accounting.schema ≠ "quant-pipeline.official-btx-accounting.v1" then
        [.accounting "schema"]
      else if format.sha256 (format.accountingJson accounting.toAccountingBody) ≠
          accounting.accountingSha256 then [.accounting "seal"]
      else if accounting.officialManifestSha256 ≠ manifestSha256 then
        [.accounting "manifest"]
      else if accounting.officialEmittedTensorPayloadBytes ≠ state.tensorPayloadBytes then
        [.accounting "tensor-bytes"]
      else if accounting.officialEmittedLayerContainerBytes ≠ state.containerBytes then
        [.accounting "container-bytes"]
      else []
  | _ => [.accounting "unreadable"]

/-- `(root / MANIFEST).read_text()`, parsed and checked. -/
def readBtxManifest (root : BtxDirectory) : Except BtxFailure BtxManifest :=
  match root.get? manifestName with
  | some (.manifest manifest) => do
      strictManifest manifest
      return manifest
  | _ => .error (.installed .fileNotFound)

/-- What the runtime reader answers. -/
def auditRuntime (root : BtxDirectory) (runtimeReader : Option (BtxDirectory → Bool))
    (requireRuntimeReader : Bool) : List BtxFinding :=
  match runtimeReader with
  | none => if requireRuntimeReader then [.runtimeReaderUnavailable] else []
  | some reader => if reader root then [] else [.runtimeLoad]

structure BtxAudit where
  ok : Bool
  failures : List BtxFinding
  manifestSha256 : Option String
  deriving DecidableEq

/-- `audit_official_btx_checkpoint`.  The runtime reader answers whether it loaded the
container. -/
def auditOfficialBtxCheckpoint (root : BtxDirectory)
    (runtimeReader : Option (BtxDirectory → Bool)) (requireRuntimeReader : Bool) :
    Except BtxFailure BtxAudit :=
  match readBtxManifest root with
  | .error reason => .ok ⟨false, [.manifest reason], none⟩
  | .ok manifest => do
      let expected := manifestName :: accountingName :: manifest.layers.map (·.2.file)
      let files := findingUnless (SameNames (Dict.keys root) expected) .fileSet
      let state ← manifest.layers.foldlM (auditBtxLayer format root manifest) ⟨files, 0, 0⟩
      let manifestSha256 := format.sha256 (format.contents (.manifest manifest))
      let accounting := auditAccounting format root manifestSha256 state
      let failures := state.findings ++ accounting ++
        auditRuntime root runtimeReader requireRuntimeReader
      return ⟨failures.isEmpty, failures, some manifestSha256⟩

end Audit

/-! ## Unpacking -/

inductive Plane where
  | low
  | high
  deriving DecidableEq, Repr

/-- `raw.view(torch.int16).reshape(rows, columns)` of a part of a row.  The part keeps its
place in the storage of the atoms, which has to be even. -/
def viewInt16 (atoms : Tensor) (start count rows columns : ℕ) : Except BtxFailure Tensor := do
  let raw := portion atoms.data start count
  require (raw.length % 2 = 0 ∧ start % 2 = 0) .runtimeError
  tensorOf "int16" 2 [rows, columns] raw

/-- The plane at the address that the rate tables give. -/
def unpackPlane (manifest : BtxManifest) (tensors : Dict String Tensor) (slot expert : ℕ)
    (projection : Projection) (plane : Plane) : Except BtxFailure Tensor := do
  let atoms ← readTensor tensors "atoms"
  let tables ← layerRateCodes manifest tensors
  let hidden := manifest.geometry.hiddenSize
  let before ← precedingBytes hidden tables (slot / 8) expert
  let fc1 ← codeAt tables.1 (slot / 8) expert
  let fc2 ← codeAt tables.2 (slot / 8) expert
  let fc1Bytes := matrixAtomBytes hidden (bits fc1).1 (bits fc1).2
  let matrices := match projection with
    | .gateProj => 0
    | .upProj => fc1Bytes
    | .downProj => fc1Bytes + fc1Bytes
  let rates := match projection with
    | .downProj => bits fc2
    | _ => bits fc1
  let lowBytes := hidden / 16 * 16 * rates.1 * 2
  let rate := match plane with
    | .low => rates.1
    | .high => rates.2
  let skipped := match plane with
    | .low => 0
    | .high => lowBytes
  let rows ← dimension atoms.shape 0
  let width ← dimension atoms.shape 1
  require (slot < rows) .indexError
  let cursor := before + matrices + skipped
  let count := min (hidden / 16 * 16 * rate * 2) (width - cursor)
  viewInt16 atoms (slot * width + cursor) count (hidden / 16) (16 * rate)

/-- `unpack_official_btx_plane` -/
def unpackOfficialBtxPlane (root : BtxDirectory) (layer slot expert : ℕ)
    (projection : Projection) (plane : Plane) : Except BtxFailure Tensor := do
  let manifest ← readBtxManifest root
  let ref ← match manifest.layers.get? (toString layer) with
    | some ref => pure ref
    | none => throw .keyError
  let tensors ← match root.get? ref.file with
    | some (.container stored) => pure stored.tensors
    | _ => throw (.installed .fileNotFound)
  unpackPlane manifest tensors slot expert projection plane

end GlmFlash.Checkpoint.Btx
