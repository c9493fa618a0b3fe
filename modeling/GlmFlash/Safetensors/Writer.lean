import GlmFlash.Safetensors.Reader

/-!
# Writing safetensors files

`write_safetensors_atomic` of `safetensors_io.py`: the header comes from the
entries' dtypes and shapes, their payloads follow in the order of the entries,
and the temporary file replaces the destination once everything is written.
-/

namespace GlmFlash.Safetensors

open GlmFlash.Library

/-- `CHUNK_BYTES` -/
def chunkBytes : ℕ := 32 <<< 20

/-! ## Payloads -/

/-- Bytes in memory (a memoryview has bytes as its items), or a `TensorRange` of a
file with the given contents. -/
inductive PayloadValue where
  | bytes (raw : Bytes)
  | range (source : Bytes) (start stop : ℤ)
  deriving DecidableEq, Repr

/-- A payload, or the factory that is called for it. -/
inductive Payload where
  | value (value : PayloadValue)
  | factory (call : Except Failure PayloadValue)

structure TensorEntry where
  name : String
  dtype : String
  shape : List ℤ
  payload : Payload

def TensorEntry.nbytes (entry : TensorEntry) : Except Failure ℤ :=
  tensorNbytes entry.dtype entry.shape

/-- The slices of bytes in memory. -/
def rawChunks (raw : Bytes) : List Bytes :=
  (List.range ((raw.length + (chunkBytes - 1)) / chunkBytes)).map fun index =>
    (raw.drop (index * chunkBytes)).take chunkBytes

/-- The loop of `TensorRange.chunks`, from a position of the file. -/
def readChunks (source : Bytes) : ℕ → ℕ → ℕ → Except Failure (List Bytes)
  | 0, _, _ => .ok []
  | fuel + 1, position, remaining =>
      if remaining = 0 then .ok []
      else do
        let payload := (source.drop position).take (min chunkBytes remaining)
        require (payload ≠ []) .ioError
        let payloads ← readChunks source fuel (position + payload.length)
          (remaining - payload.length)
        return payload :: payloads

/-- `TensorRange.chunks`, for a range that is not reversed. -/
def rangeChunks (source : Bytes) (start stop : ℤ) :
    Except Failure (List Bytes) := do
  require (0 ≤ start) .ioError
  readChunks source (stop - start).toNat start.toNat (stop - start).toNat

/-- `_payload_chunks`: what the iterator gives, and the size. -/
def payloadChunks (payload : Payload) :
    Except Failure (Except Failure (List Bytes) × ℤ) := do
  let value ← match payload with
    | .value value => Except.ok value
    | .factory call => call
  match value with
  | .bytes raw => return (.ok (rawChunks raw), raw.length)
  | .range source start stop =>
      return (rangeChunks source start stop, stop - start)

/-! ## Header -/

def entryRecord (dtype : String) (shape : List ℤ) (offset size : ℤ) :
    Dict String Json := [
  ("dtype", .text dtype), ("shape", .array (shape.map .int)),
  ("data_offsets", .array [.int offset, .int (offset + size)])]

/-- The dictionary that the metadata puts into the header. -/
def metadataHeader (metadata : Option (Dict String String)) : Dict String Json :=
  match metadata with
  | none => []
  | some items => [(metadataKey, .object
      ((items.insertionSort fun left right => left.1 ≤ right.1).map
        fun item => (item.1, .text item.2)))]

/-- One round of the loop that fills the header. -/
def addEntry (state : Dict String Json × ℤ) (entry : TensorEntry) :
    Except Failure (Dict String Json × ℤ) := do
  let size ← entry.nbytes
  let record := entryRecord entry.dtype entry.shape state.2 size
  return (state.1.set entry.name (.object record), state.2 + size)

def headerOf (entries : List TensorEntry)
    (metadata : Option (Dict String String)) :
    Except Failure (Dict String Json) := do
  let (header, _) ← entries.foldlM addEntry (metadataHeader metadata, 0)
  return header

/-- The header with its keys in order and blanks up to a multiple of eight. -/
def rawHeader (header : Dict String Json) : Bytes :=
  let raw := (Json.object header).sortKeys.dumps
  raw ++ List.replicate ((8 - raw.length % 8) % 8) 0x20

/-! ## Files -/

variable (sha256 : Bytes → String)

/-- One round of the loop that writes the payloads: what is in the temporary
file, and the digests. -/
def writeEntry (state : Bytes × Dict String String) (entry : TensorEntry) :
    Except Failure (Bytes × Dict String String) := do
  let (chunks, actualSize) ← payloadChunks entry.payload
  let nbytes ← entry.nbytes
  require (actualSize = nbytes) .valueError
  let chunks ← chunks
  require ((chunks.map List.length).sum = nbytes) .ioError
  return (state.1 ++ chunks.flatten,
    state.2.set entry.name (sha256 chunks.flatten))

/-- The temporary file, and the digests of the payloads. -/
def writeTemporary (entries : List TensorEntry)
    (metadata : Option (Dict String String)) :
    Except Failure (Bytes × Dict String String) := do
  require (entries.map TensorEntry.name).Nodup .valueError
  let header ← headerOf entries metadata
  let raw := rawHeader header
  entries.foldlM (writeEntry sha256) (packLength raw.length ++ raw, [])

/-- `write_safetensors_atomic`: the destination afterwards, and the outcome. -/
def writeSafetensorsAtomic (destination : Option Bytes)
    (entries : List TensorEntry) (metadata : Option (Dict String String)) :
    Option Bytes × Except Failure (Dict String String × String) :=
  match writeTemporary sha256 entries metadata with
  | .ok (file, digests) => (some file, .ok (digests, sha256 file))
  | .error failure => (destination, .error failure)

end GlmFlash.Safetensors
