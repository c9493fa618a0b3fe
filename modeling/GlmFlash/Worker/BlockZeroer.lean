import GlmFlash.Worker.CacheViews
import GlmFlash.Library.Fills
import Mathlib.Data.Nat.Size

/-!
# Kernel blocks of the builders and the zeroer

`AttentionGroup.create_metadata_builders` and `KVBlockZeroer` pick the kernel
block of a compressed cache by `compressed_kernel_block_size`.  The zeroer
turns the bound views of all attention layers into a table of segments, and
its kernel clears one block of each segment in words of four bytes.
-/

namespace GlmFlash.Worker

open GlmFlash.Library

/-- In storage entries, as `PAGED_MQA_PAGE_SIZES` is. -/
def compressedKernelBlockSize (spec : KVCacheSpec) : ℕ :=
  let storage := spec.storageBlockSize.getD spec.blockSize
  let maxPage := 64
  let minPage := 32
  if storage ≤ maxPage then storage
  else if storage % maxPage = 0 then maxPage
  else minPage

structure AttentionGroup where
  layerNames : List String
  kvCacheSpec : KVCacheSpec
  kvCacheGroupId : ℕ

namespace AttentionGroup

/-- The block size of the spec that the metadata builders get. -/
def builderBlockSize (group : AttentionGroup)
    (kernelBlockSize : Option ℕ) : ℕ :=
  match kernelBlockSize with
  | none => group.kvCacheSpec.blockSize
  | some kernelBlockSize =>
      match group.kvCacheSpec.storageBlockSize with
      | none => kernelBlockSize
      | some storage =>
          if group.kvCacheSpec.isAttentionSpec ∧
              storage ≠ group.kvCacheSpec.blockSize then
            compressedKernelBlockSize group.kvCacheSpec *
              (group.kvCacheSpec.blockSize / storage)
          else kernelBlockSize

end AttentionGroup

/-- What a layer of the forward context has as its `kv_cache`. -/
inductive BoundCache where
  | tensor (view : CacheView)
  | other

/-- One contiguous region of each block: its address for block 0 and, in
words, the distance of two blocks and its size. -/
structure Segment where
  groupId : ℕ
  addr : ℕ
  blockStride : ℕ
  pageSize : ℤ

namespace CacheView

def byteStride (view : CacheView) (dim : Dim) : ℕ :=
  view.stride dim * view.elementSize

def outerDims (view : CacheView) : List Dim :=
  [Dim.head, .state, .content].filter fun dim =>
    decide (view.byteStride .block < view.byteStride dim)

def innerDims (view : CacheView) : List Dim :=
  [Dim.head, .state, .content].filter fun dim =>
    !decide (view.byteStride .block < view.byteStride dim)

def kernelPageBytes (view : CacheView) : ℤ :=
  view.elementSize + (view.innerDims.map fun dim =>
    ((view.shape dim : ℤ) - 1) * view.byteStride dim).sum

/-- The offsets of all indices along some axes. -/
def offsets (view : CacheView) : List Dim → List ℕ
  | [] => [0]
  | dim :: dims =>
      (List.range (view.shape dim)).flatMap fun index =>
        (view.offsets dims).map fun offset =>
          index * view.byteStride dim + offset

/-- The addresses of the segments of a layer whose blocks are `ratio` kernel
blocks each. -/
def segmentAddrs (view : CacheView) (ratio : ℕ) : List ℕ :=
  (view.offsets view.outerDims).flatMap fun offset =>
    (List.range ratio).map fun virtualIndex =>
      view.dataPtr + offset + virtualIndex * view.byteStride .block

end CacheView

/-- Segments of a group at one address are one, as wide as the widest. -/
def addSegment : List Segment → Segment → Except Failure (List Segment)
  | [], segment => .ok [segment]
  | seen :: rest, segment =>
      if seen.groupId = segment.groupId ∧ seen.addr = segment.addr then do
        require (seen.blockStride = segment.blockStride) .assertionError
        return { seen with pageSize := max seen.pageSize segment.pageSize } ::
          rest
      else do
        let rest ← addSegment rest segment
        return seen :: rest

namespace KVBlockZeroer

/-- The kernel block of a layer in tokens. -/
def layerKernelBlockSize (spec : KVCacheSpec) (kernelBlockSize : ℕ) : ℕ :=
  match spec.compression, spec.storageBlockSize with
  | some tokens, some _ => compressedKernelBlockSize spec * tokens
  | _, _ => kernelBlockSize

/-- The kernel blocks of a block, or nothing for a layer that is skipped. -/
def layerRatio (bound : BoundCache) (layerRatio groupRatio : ℕ) :
    Except Failure (Option (CacheView × ℕ)) :=
  match bound with
  | .other =>
      if groupRatio ≠ 0 then .error .attributeError else .ok none
  | .tensor view => do
      require (layerRatio ≠ 0) .zeroDivisionError
      return if view.shape .block % layerRatio = 0 then
          some (view, layerRatio)
        else if groupRatio ≠ 0 ∧ view.shape .block % groupRatio = 0 then
          some (view, groupRatio)
        else none

def segmentAt (groupId : ℕ) (view : CacheView) (ratio addr : ℕ) :
    Segment where
  groupId := groupId
  addr := addr
  blockStride := view.byteStride .block * ratio / 4
  pageSize := view.kernelPageBytes / 4

/-- The segments of one layer. -/
def layerSegments (groupId : ℕ) (view : CacheView) (ratio : ℕ) :
    Except Failure (List Segment) := do
  require (view.byteStride .block % 4 = 0) .assertionError
  require (view.kernelPageBytes % 4 = 0) .assertionError
  require (∀ offset ∈ view.offsets view.outerDims,
    (view.dataPtr + offset) % 4 = 0) .assertionError
  return (view.segmentAddrs ratio).map (segmentAt groupId view ratio)

structure Context where
  kernelBlockSizes : List ℕ
  staticForwardContext : String → Option BoundCache
  runnerOnlyAttnLayers : List String

/-- The body of the loop over the layers of a group. -/
def addLayer (context : Context) (groupId kernelBs : ℕ)
    (spec : KVCacheSpec) (table : List Segment) (layerName : String) :
    Except Failure (List Segment) := do
  require (layerKernelBlockSize spec kernelBs ≠ 0) .zeroDivisionError
  require (spec.blockSize % layerKernelBlockSize spec kernelBs = 0)
    .assertionError
  match context.staticForwardContext layerName with
  | none => return table
  | some bound => do
      let resolved ← layerRatio bound
        (spec.blockSize / layerKernelBlockSize spec kernelBs)
        (spec.blockSize / kernelBs)
      match resolved with
      | none => return table
      | some (view, ratio) =>
          if layerName ∈ context.runnerOnlyAttnLayers then return table
          else do
            let segments ← layerSegments groupId view ratio
            segments.foldlM addSegment table

/-- The body of the loop over the attention groups. -/
def addGroup (context : Context) (table : List Segment)
    (group : AttentionGroup) : Except Failure (List Segment) :=
  if group.kvCacheSpec.isAttentionSpec = false then .ok table
  else
    match context.kernelBlockSizes[group.kvCacheGroupId]? with
    | none => .ok table
    | some kernelBs => do
        require (kernelBs ≠ 0) .zeroDivisionError
        require (group.kvCacheSpec.blockSize % kernelBs = 0) .assertionError
        group.layerNames.foldlM
          (addLayer context group.kvCacheGroupId kernelBs group.kvCacheSpec)
          table

/-- The table that the constructor precomputes. -/
def init (context : Context) (attnGroups : List AttentionGroup) :
    Except Failure (List Segment) :=
  attnGroups.foldlM (addGroup context) []

/-! ## The kernel -/

/-- The number of words that one program clears. -/
def blkSize (maxPageSize : ℤ) : ℕ :=
  min (2 ^ (maxPageSize - 1).natAbs.size) 1024

/-- The words that a program of the grid stores zeros to. -/
def programWords (segment : Segment) (blockId chunkIndex blkSize : ℕ) :
    List ℕ :=
  let chunkOffset := chunkIndex * blkSize
  if segment.pageSize ≤ chunkOffset then []
  else
    ((List.range blkSize).filter fun col =>
        decide (((chunkOffset + col : ℕ) : ℤ) < segment.pageSize)).map
      fun col => segment.addr +
        4 * (blockId * segment.blockStride + (chunkOffset + col))

/-- Every program of the grid, one after the other. -/
def launch (table : List Segment) (blockIds : List ℕ)
    (maxChunks blkSize : ℕ) (memory : ℕ → ℕ) : ℕ → ℕ :=
  fillWords (blockIds.flatMap fun blockId =>
    table.flatMap fun segment =>
      (List.range maxChunks).flatMap fun chunkIndex =>
        programWords segment blockId chunkIndex blkSize) memory

def zeroBlockIds (table : List Segment) (blockIds : List ℕ)
    (memory : ℕ → ℕ) : ℕ → ℕ :=
  if blockIds = [] then memory
  else
    match (table.map Segment.pageSize).max? with
    | none => memory
    | some maxPageSize =>
        let blkSize := blkSize maxPageSize
        let maxChunks := ((maxPageSize + blkSize - 1) / blkSize).toNat
        launch table blockIds maxChunks blkSize memory

end KVBlockZeroer

end GlmFlash.Worker
