import GlmFlash.Library.Dict
import GlmFlash.Library.Json
import GlmFlash.Library.Outcome
import GlmFlash.Library.Tiling
import Mathlib.Data.List.Sort

/-!
# Reading safetensors files

`SafeTensorReader` of `safetensors_io.py` accepts a file when its JSON header
describes tensors whose ranges form one dense buffer behind the header.
-/

namespace GlmFlash.Safetensors

open GlmFlash.Library

inductive Failure where
  | valueError
  | keyError
  | typeError
  | overflowError
  | ioError
  deriving DecidableEq, Repr

abbrev Bytes := List UInt8

/-- `DTYPE_BYTES` -/
def dtypeBytes : Dict String ℕ := [
  ("BOOL", 1), ("U8", 1), ("I8", 1), ("I16", 2), ("U16", 2), ("F16", 2),
  ("BF16", 2), ("I32", 4), ("U32", 4), ("F32", 4), ("I64", 8), ("U64", 8),
  ("F64", 8)]

def tensorNbytes (dtype : String) (shape : List ℤ) : Except Failure ℤ :=
  match dtypeBytes.get? dtype with
  | none => .error .valueError
  | some size => shape.foldlM (fun size dimension => do
      require (0 ≤ dimension) .valueError
      return size * dimension) (size : ℤ)

/-- A tensor and its bytes in the file. -/
structure TensorInfo where
  name : String
  dtype : String
  shape : List ℤ
  range : Range
  deriving DecidableEq, Repr

/-- JSON, SHA-256 and what `int` makes of strings and of floats. -/
structure Runtime where
  loads : Bytes → Option Json
  sha256 : Bytes → String
  intOfText : String → Except Failure ℤ
  intOfReal : List Char → Except Failure ℤ

variable (runtime : Runtime)

/-! ## Values of the header -/

/-- `int(value)` -/
def intOf : Json → Except Failure ℤ
  | .int value => .ok value
  | .bool value => .ok (if value then 1 else 0)
  | .real written => runtime.intOfReal written
  | .text value => runtime.intOfText value
  | _ => .error .typeError

/-- `for item in value` -/
def iterate : Json → Except Failure (List Json)
  | .array items => .ok items
  | .object fields => .ok (fields.map fun field => .text field.1)
  | .text value => .ok (value.toList.map fun char => .text (String.ofList [char]))
  | _ => .error .typeError

def ints (value : Json) : Except Failure (List ℤ) := do
  let items ← iterate value
  items.mapM (intOf runtime)

/-- `str(value)`, which is a dtype's name for a string only. -/
def dtypeName : Json → Except Failure String
  | .text value => .ok value
  | _ => .error .valueError

/-- `raw[key]` -/
def item (raw : Dict String Json) (key : String) : Except Failure Json :=
  match raw.get? key with
  | some value => .ok value
  | none => .error .keyError

def metadataKey : String := "__metadata__"

/-- The checks of `raw_metadata`. -/
def metadataOf : Json → Except Failure (Dict String String)
  | .object fields => fields.mapM fun field =>
      match field.2 with
      | .text value => .ok (field.1, value)
      | _ => .error .valueError
  | _ => .error .valueError

/-! ## Tensors -/

/-- A record of the header: the tensor and its range relative to the data. -/
def readTensor (dataStart fileSize : ℤ) (name : String) :
    Json → Except Failure (TensorInfo × Range)
  | .object raw => do
      let dtypeValue ← item raw "dtype"
      let dtype ← dtypeName dtypeValue
      let shapeValue ← item raw "shape"
      let shape ← ints runtime shapeValue
      let offsetsValue ← item raw "data_offsets"
      let offsets ← ints runtime offsetsValue
      match offsets with
      | [start, stop] => do
          let expected ← tensorNbytes dtype shape
          require (0 ≤ start ∧ start ≤ stop ∧ stop - start = expected) .valueError
          require (dataStart + stop ≤ fileSize) .valueError
          return ({
            name := name
            dtype := dtype
            shape := shape
            range := ⟨dataStart + start, dataStart + stop⟩ }, ⟨start, stop⟩)
      | _ => .error .valueError
  | _ => .error .valueError

/-- One round of the loop over the header. -/
def addTensor (dataStart fileSize : ℤ) (tensors : List (TensorInfo × Range))
    (field : String × Json) : Except Failure (List (TensorInfo × Range)) :=
  if field.1 = metadataKey then return tensors
  else do
    let tensor ← readTensor runtime dataStart fileSize field.1 field.2
    require (field.1 ∉ tensors.map fun tensor => tensor.1.name) .valueError
    return tensors ++ [tensor]

/-- The order of `(start, end, name)`. -/
def rangeLe (left right : TensorInfo × Range) : Prop :=
  left.2.start < right.2.start ∨ left.2.start = right.2.start ∧
    (left.2.stop < right.2.stop ∨ left.2.stop = right.2.stop ∧
      left.1.name ≤ right.1.name)

instance : DecidableRel rangeLe := fun _ _ =>
  inferInstanceAs (Decidable (_ ∨ _))

/-- The loop over the sorted ranges, with its cursor. -/
def checkDense (cursor : ℤ) (tensor : TensorInfo × Range) : Except Failure ℤ := do
  require (tensor.2.start = cursor) .valueError
  return tensor.2.stop

/-! ## Files -/

/-- `struct.unpack("<Q", bytes)` -/
def unpackLength (bytes : Bytes) : ℕ :=
  bytes.foldr (fun byte rest => byte.toNat + 256 * rest) 0

/-- The lowest bytes of a number, the lowest first. -/
def packBytes : ℕ → ℕ → Bytes
  | 0, _ => []
  | count + 1, value => UInt8.ofNat value :: packBytes count (value / 256)

/-- `struct.pack("<Q", length)` -/
def packLength (length : ℕ) : Bytes := packBytes 8 length

theorem unpackLength_packBytes (count value : ℕ) :
    unpackLength (packBytes count value) = value % 256 ^ count := by
  induction count generalizing value with
  | zero => rw [Nat.pow_zero, Nat.mod_one]; rfl
  | succ count ih =>
      change (UInt8.ofNat value).toNat +
        256 * unpackLength (packBytes count (value / 256)) = _
      rw [ih, UInt8.toNat_ofNat', ← Nat.mod_mul]
      exact congrArg (value % ·) Nat.pow_succ'.symm

theorem unpackLength_packLength {length : ℕ} (hsize : length < 256 ^ 8) :
    unpackLength (packLength length) = length :=
  (unpackLength_packBytes 8 length).trans (Nat.mod_eq_of_lt hsize)

structure SafeTensorReader where
  metadata : Dict String String
  headerSha256 : String
  headerLength : ℕ
  dataStart : ℕ
  fileSize : ℕ
  tensors : List TensorInfo

/-- `SafeTensorReader(path)`, on the contents of the file. -/
def openReader (file : Bytes) : Except Failure SafeTensorReader := do
  let lengthBytes := file.take 8
  require (lengthBytes.length = 8) .valueError
  let headerLength := unpackLength lengthBytes
  require (headerLength ≤ 1 <<< 30) .valueError
  let rawHeader := (file.drop 8).take headerLength
  require (rawHeader.length = headerLength) .valueError
  match runtime.loads rawHeader with
  | some (.object header) => do
      require ((Json.object header).uniqueKeys) .valueError
      let metadata ← metadataOf ((Dict.get? header metadataKey).getD (.object []))
      let dataStart := 8 + headerLength
      let tensors ← header.foldlM
        (addTensor runtime dataStart file.length) []
      let cursor ← (tensors.insertionSort rangeLe).foldlM checkDense 0
      require (dataStart + cursor = file.length) .valueError
      return {
        metadata := metadata
        headerSha256 := runtime.sha256 rawHeader
        headerLength := headerLength
        dataStart := dataStart
        fileSize := file.length
        tensors := tensors.map Prod.fst }
  | _ => .error .valueError

end GlmFlash.Safetensors
