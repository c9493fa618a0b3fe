import GlmFlash.Library.Dict
import GlmFlash.Library.Outcome
import Mathlib.Data.String.Basic

/-!
# Exact codec payloads

The content-addressed store of `exact_payload.py`: packed trellis, transform
vectors and reconstruction of each choice are objects named by their hash, and
a choice is a sealed record that refers to them.
-/

namespace GlmFlash.Checkpoint

open GlmFlash.Library

inductive Failure where
  | valueError
  | runtimeError
  | keyError
  | fileNotFound
  | fileExists
  | safetensorError
  deriving DecidableEq, Repr

abbrev Bytes := List UInt8

/-! ## Tensors -/

/-- A contiguous tensor and its bytes. -/
structure Tensor where
  dtype : String
  itemSize : ℕ
  shape : List ℕ
  data : Bytes
  length_data : data.length = shape.prod * itemSize
  deriving DecidableEq

/-- `tensor.numel() * tensor.element_size()` -/
def Tensor.nbytes (tensor : Tensor) : ℕ :=
  tensor.shape.prod * tensor.itemSize

theorem Tensor.nbytes_eq (tensor : Tensor) :
    tensor.nbytes = tensor.data.length :=
  tensor.length_data.symm

/-- `tensor_bytes`: a tensor without dimensions has no view as bytes, unless
its items are bytes. -/
def tensorBytes (tensor : Tensor) : Except Failure Bytes := do
  require (tensor.shape ≠ [] ∨ tensor.itemSize = 1) .runtimeError
  return tensor.data

theorem tensorBytes_eq_ok {tensor : Tensor} {bytes : Bytes}
    (hbytes : tensorBytes tensor = .ok bytes) : bytes = tensor.data := by
  simp only [tensorBytes, bind_eq_ok, pure_eq_ok] at hbytes
  obtain ⟨-, -, rfl⟩ := hbytes
  rfl

/-! ## Choices -/

inductive Projection where
  | gateProj
  | upProj
  | downProj
  deriving DecidableEq, Repr

def Projection.name : Projection → String
  | gateProj => "gate_proj"
  | upProj => "up_proj"
  | downProj => "down_proj"

theorem Projection.name_injective : Function.Injective Projection.name := by
  intro left right heq
  cases left <;> cases right <;> first | rfl | exact absurd heq (by decide)

inductive Role where
  | trellis
  | suh
  | svh
  | reconstruction
  deriving DecidableEq, Repr

def Role.name : Role → String
  | trellis => "trellis"
  | suh => "suh"
  | svh => "svh"
  | reconstruction => "reconstruction"

/-- The roles that are deployed; the reconstruction is an oracle only. -/
def payloadRoles : List Role := [.trellis, .suh, .svh]

inductive Scope where
  | expertPrivate
  | layerShared
  deriving DecidableEq, Repr

structure ObjectRef where
  sha256 : String
  bytes : ℤ
  dtype : String
  shape : List ℕ
  path : String
  deriving DecidableEq

structure ChoiceObjects where
  trellis : ObjectRef
  suh : ObjectRef
  svh : ObjectRef
  reconstruction : ObjectRef
  deriving DecidableEq

def ChoiceObjects.ref (objects : ChoiceObjects) : Role → ObjectRef
  | .trellis => objects.trellis
  | .suh => objects.suh
  | .svh => objects.svh
  | .reconstruction => objects.reconstruction

/-- `objects.values()` -/
def ChoiceObjects.values (objects : ChoiceObjects) : List ObjectRef :=
  [objects.trellis, objects.suh, objects.svh, objects.reconstruction]

theorem ChoiceObjects.ref_mem_values (objects : ChoiceObjects) (role : Role) :
    objects.ref role ∈ objects.values := by
  cases role <;> simp [ref, values]

/-- `vector_topology`: the scopes of `suh` and `svh`. -/
structure VectorTopology where
  suh : Scope
  svh : Scope
  deriving DecidableEq, Repr

/-- The scope of a role; a trellis is always private. -/
def VectorTopology.scope (topology : VectorTopology) : Role → Scope
  | .suh => topology.suh
  | .svh => topology.svh
  | _ => .expertPrivate

/-- A value of a choice's provenance. -/
inductive ProvenanceValue where
  | null
  | text (value : String)
  | other (json : Bytes)
  deriving DecidableEq

/-- A choice before `choice_sha256` is added. -/
structure ChoiceBody where
  schema : String
  layer : ℕ
  expert : ℕ
  projection : Projection
  choiceId : String
  bits : ℤ
  predecessorStateHash : String
  objects : ChoiceObjects
  packedHashSchema : String
  packedSha256 : String
  reconstructionSha256 : String
  logicalPayloadBytes : ℤ
  vectorTopology : VectorTopology
  provenance : Dict String ProvenanceValue
  deriving DecidableEq

structure Choice extends ChoiceBody where
  choiceSha256 : String
  deriving DecidableEq

def choiceSchema : String := "quant-pipeline.exact-codec-choice.v2"

def packedHashSchema : String :=
  "quant-pipeline.packed-payload-length-framed.v1"

/-! ## Hashes -/

/-- SHA-256 in lowercase hexadecimal, and the canonical JSON of a choice. -/
structure Hashing where
  sha256 : Bytes → String
  choiceJson : ChoiceBody → Bytes

/-- `_HASH.fullmatch` -/
def isHash (text : String) : Bool :=
  text.length = 64 ∧ text.toList.all fun char =>
    char.isDigit || ('a' ≤ char && char ≤ 'f')

/-- `number.to_bytes(width, "big")` -/
def toBytes (width number : ℕ) : Bytes :=
  (List.range width).reverse.map fun index =>
    UInt8.ofNat (number / 256 ^ index)

def ascii (text : String) : Bytes :=
  text.toList.map fun char => UInt8.ofNat char.toNat

def frame (role : Role) (raw : Bytes) : Bytes :=
  toBytes 2 role.name.length ++ ascii role.name ++ toBytes 8 raw.length ++ raw

/-- `packed_payload_sha256`, of the bytes of the three roles. -/
def packedPayloadSha256 (hashing : Hashing) (raw : Role → Bytes) : String :=
  hashing.sha256 (ascii packedHashSchema ++ toBytes 2 payloadRoles.length ++
    payloadRoles.flatMap fun role => frame role (raw role))

/-! ## The store -/

/-- The objects of a store by their path. -/
abbrev PayloadStore := Dict String Bytes

/-- `_DTYPE_FROM_NAME`, with the size of an item. -/
def itemSizes : Dict String ℕ := [
  ("bool", 1), ("uint8", 1), ("int8", 1), ("int16", 2), ("int32", 4),
  ("int64", 8), ("float16", 2), ("bfloat16", 2), ("float32", 4),
  ("float64", 8)]

def objectPath (sha256 : String) : String :=
  "objects/" ++ String.ofList (sha256.toList.take 2) ++ "/" ++ sha256 ++ ".bin"

variable (hashing : Hashing)

/-- `verify`, which gives the bytes of the object it found. -/
def verify (store : PayloadStore) (ref : ObjectRef) :
    Except Failure Bytes := do
  require (isHash ref.sha256) .valueError
  require (ref.path = objectPath ref.sha256 ∧
    ref.dtype ∈ Dict.keys itemSizes ∧ 0 ≤ ref.bytes) .valueError
  match store.get? ref.path with
  | none => .error .valueError
  | some raw =>
      require (raw.length = ref.bytes ∧ hashing.sha256 raw = ref.sha256)
        .valueError
      return raw

/-- `load_tensor`.  `torch.frombuffer` takes no empty buffer and only whole
items. -/
def loadTensor (store : PayloadStore) (ref : ObjectRef) :
    Except Failure Tensor := do
  let raw ← verify hashing store ref
  require (raw ≠ []) .valueError
  match itemSizes.get? ref.dtype with
  | none => .error .keyError
  | some itemSize =>
      if hlength : raw.length = ref.shape.prod * itemSize then
        return {
          dtype := ref.dtype
          itemSize := itemSize
          shape := ref.shape
          data := raw
          length_data := hlength }
      else .error .valueError

def verifyChoice (store : PayloadStore) (choice : Choice) :
    Except Failure Choice := do
  require (choice.schema = choiceSchema) .valueError
  require (choice.packedHashSchema = packedHashSchema) .valueError
  require (isHash choice.choiceSha256) .valueError
  require (hashing.sha256 (hashing.choiceJson choice.toChoiceBody) =
    choice.choiceSha256) .valueError
  let _ ← choice.objects.values.mapM (verify hashing store)
  let raw := fun role => (store.get? (choice.objects.ref role).path).getD []
  require (packedPayloadSha256 hashing raw = choice.packedSha256 ∧
    choice.objects.reconstruction.sha256 = choice.reconstructionSha256)
    .valueError
  return choice

variable {hashing} {store : PayloadStore} {ref : ObjectRef}

theorem verify_eq_ok {raw : Bytes}
    (hverify : verify hashing store ref = .ok raw) :
    ref.path = objectPath ref.sha256 ∧
      store.get? (objectPath ref.sha256) = some raw ∧
      raw.length = ref.bytes ∧ hashing.sha256 raw = ref.sha256 := by
  simp only [verify, bind_eq_ok, require_eq_ok] at hverify
  obtain ⟨-, -, -, ⟨hpath, -⟩, hfound⟩ := hverify
  refine ⟨hpath, ?_⟩
  rw [hpath] at hfound
  cases hget : store.get? (objectPath ref.sha256) with
  | none => simp [hget] at hfound
  | some found =>
      simp only [hget, bind_eq_ok, require_eq_ok, pure_eq_ok] at hfound
      obtain ⟨-, ⟨hlength, hsha⟩, rfl⟩ := hfound
      exact ⟨rfl, hlength, hsha⟩

theorem loadTensor_eq_ok {tensor : Tensor}
    (hload : loadTensor hashing store ref = .ok tensor) :
    verify hashing store ref = .ok tensor.data := by
  simp only [loadTensor, bind_eq_ok, require_eq_ok] at hload
  obtain ⟨raw, hverify, -, -, hfound⟩ := hload
  cases hsize : itemSizes.get? ref.dtype with
  | none => simp [hsize] at hfound
  | some itemSize =>
      simp only [hsize] at hfound
      split at hfound
      · rw [pure_eq_ok] at hfound
        rw [hverify, ← hfound]
      · cases hfound

theorem verifyChoice_eq_ok {choice verified : Choice}
    (hverify : verifyChoice hashing store choice = .ok verified) :
    verified = choice ∧ ∀ role, ∃ raw,
      verify hashing store (choice.objects.ref role) = .ok raw := by
  simp only [verifyChoice, bind_eq_ok, require_eq_ok, pure_eq_ok] at hverify
  obtain ⟨-, -, -, -, -, -, -, -, raws, hobjects, -, -, rfl⟩ := hverify
  refine ⟨rfl, fun role => ?_⟩
  obtain ⟨raw, -, hraw⟩ := forall₂_mem_left (forall₂_of_mapM hobjects)
    (choice.objects.ref_mem_values role)
  exact ⟨raw, hraw⟩

end GlmFlash.Checkpoint
