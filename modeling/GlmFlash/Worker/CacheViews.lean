import GlmFlash.Library.Outcome
import Mathlib.Data.Rat.Floor

/-!
# Cache specs and the views of their layers

A cache spec fixes the page of a block; the resolved layout fixes the order of
the axes in memory.  A `KVCacheTensor` places a set of layers in the backing
allocation, and `create_kv_cache_views` gives each of them a strided view with
kernel blocks in dimension 0.  Sizes and strides are functions of the axis.
-/

namespace GlmFlash.Worker

open GlmFlash.Library

inductive Failure where
  | assertionError
  | valueError
  | runtimeError
  | zeroDivisionError
  | attributeError
  deriving DecidableEq, Repr

/-! ## Specs -/

inductive SpecKind where
  | attention
  | mla
  | kpoolTail
  | mamba
  deriving DecidableEq

/-- An int above 1 compresses tokens into one state, a fraction below 1 stores
several states per token. -/
inductive TokensPerState where
  | int (tokens : ℤ)
  | fraction (tokens : ℚ)
  deriving DecidableEq

namespace TokensPerState

def Positive : TokensPerState → Prop
  | .int tokens => 0 < tokens
  | .fraction tokens => 0 < tokens

instance : DecidablePred Positive
  | .int tokens => inferInstanceAs (Decidable (0 < tokens))
  | .fraction tokens => inferInstanceAs (Decidable (0 < tokens))

/-- `size // tokens_per_state` -/
def floorDiv (size : ℕ) : TokensPerState → ℕ
  | .int tokens => size / tokens.toNat
  | .fraction tokens => ⌊(size : ℚ) / tokens⌋₊

end TokensPerState

structure KVCacheSpec where
  kind : SpecKind
  blockSize : ℕ
  numHeads : ℕ
  tokensPerState : TokensPerState
  stateContentSizeBytes : ℕ
  pageSizePadded : Option ℕ
  pageTailBytesPerToken : ℕ
  dtypeSize : Option ℕ
  deriving DecidableEq

namespace KVCacheSpec

variable (spec : KVCacheSpec)

def isAttentionSpec : Bool :=
  spec.kind ≠ .mamba

def getNumKernelStates (kernelBlockSize : ℕ) : ℕ :=
  if spec.tokensPerState.Positive then
    spec.tokensPerState.floorDiv kernelBlockSize
  else 1

def numStates : ℕ :=
  spec.getNumKernelStates spec.blockSize

/-- Only an MLA spec has the property. -/
def storageBlockSize : Option ℕ :=
  if spec.kind = .mla then
    some (if spec.tokensPerState.Positive then
      spec.tokensPerState.floorDiv spec.blockSize
    else spec.blockSize)
  else none

def unpaddedPageSizeBytes : ℕ :=
  spec.numHeads * spec.numStates * spec.stateContentSizeBytes

def pageSizeBytes : Except Failure ℕ := do
  match spec.pageSizePadded with
  | none =>
      return spec.unpaddedPageSizeBytes +
        spec.blockSize * spec.pageTailBytesPerToken
  | some padded =>
      require (spec.unpaddedPageSizeBytes ≤ padded) .assertionError
      return padded + spec.blockSize * spec.pageTailBytesPerToken

/-- The tokens that one state compresses, when they are several. -/
def compression : Option ℕ :=
  match spec.tokensPerState with
  | .int tokens => if 1 < tokens then some tokens.toNat else none
  | .fraction _ => none

end KVCacheSpec

/-! ## Layouts -/

inductive Dim where
  | layer
  | block
  | head
  | state
  | content
  deriving DecidableEq

inductive KVCacheLayout where
  | LBHNC
  | LBNHC
  | LHBNC
  | BLHNC
  | BLNHC
  | BHLNC
  deriving DecidableEq

namespace KVCacheLayout

def strideOrder : KVCacheLayout → List Dim
  | .LBHNC => [.layer, .block, .head, .state, .content]
  | .LBNHC => [.layer, .block, .state, .head, .content]
  | .LHBNC => [.layer, .head, .block, .state, .content]
  | .BLHNC => [.block, .layer, .head, .state, .content]
  | .BLNHC => [.block, .layer, .state, .head, .content]
  | .BHLNC => [.block, .head, .layer, .state, .content]

def isBlockOutermost (layout : KVCacheLayout) : Bool :=
  layout.strideOrder.head? = some .block

end KVCacheLayout

/-- The shape of the views of some layers, in bytes along the content. -/
structure ShapeBytes where
  blocks : ℕ
  heads : ℕ
  states : ℕ
  content : ℕ

def ShapeBytes.dims (shape : ShapeBytes) (numLayers : ℕ) : Dim → ℕ
  | .layer => numLayers
  | .block => shape.blocks
  | .head => shape.heads
  | .state => shape.states
  | .content => shape.content

def computeLayerKvCacheShapeBytes (spec : KVCacheSpec) (numBlocks : ℕ)
    (kernelBlockSize : Option ℕ) : Except Failure ShapeBytes := do
  let bs := kernelBlockSize.getD spec.blockSize
  require (bs ≠ 0) .zeroDivisionError
  require (spec.blockSize % bs = 0) .assertionError
  return {
    blocks := numBlocks * (spec.blockSize / bs)
    heads := spec.numHeads
    states := spec.getNumKernelStates bs
    content := spec.stateContentSizeBytes }

/-- The stride reached at the last axis of the page grid is padded. -/
def padStride (padded : Option (ℕ × Dim)) (dim : Dim) (currentStride : ℕ) :
    Except Failure ℕ :=
  match padded with
  | none => .ok currentStride
  | some (paddedPageSize, last) =>
      if dim = last then do
        let currentStride := max currentStride paddedPageSize
        require (paddedPageSize ≠ 0) .zeroDivisionError
        require (currentStride % paddedPageSize = 0) .assertionError
        return currentStride
      else .ok currentStride

/-- The loop over the axes from the innermost to the outermost. -/
def strideLoop (shape : Dim → ℕ) (fixedStrides : Dim → Option ℕ)
    (padded : Option (ℕ × Dim)) :
    List Dim → ℕ → (Dim → ℕ) → Except Failure (Dim → ℕ)
  | [], _, strides => .ok strides
  | dim :: rest, currentStride, strides => do
      let currentStride ← padStride padded dim currentStride
      let stride := (fixedStrides dim).getD currentStride
      strideLoop shape fixedStrides padded rest (stride * shape dim)
        (Function.update strides dim stride)

/-- The axes from the outermost to the later one of layer and block. -/
def pageGrid (order : List Dim) : List Dim :=
  order.take (max (order.idxOf .layer) (order.idxOf .block) + 1)

def paddedPageSize (spec : KVCacheSpec) : Except Failure (Option ℕ) :=
  if spec.pageTailBytesPerToken ≠ 0 then do
    let page ← spec.pageSizeBytes
    return some page
  else .ok spec.pageSizePadded

/-- The strides that are not fixed follow from the order of the axes. -/
def computeLayoutStrides (spec : KVCacheSpec) (numBlocks numLayers : ℕ)
    (layout : KVCacheLayout) (kernelBlockSize : Option ℕ)
    (fixedStrides : Dim → Option ℕ) : Except Failure (Dim → ℕ) := do
  require (∀ dim ∈ layout.strideOrder, ∀ stride ∈ fixedStrides dim,
    0 < stride) .assertionError
  let shapeBytes ←
    computeLayerKvCacheShapeBytes spec numBlocks kernelBlockSize
  let shape := shapeBytes.dims numLayers
  let order := layout.strideOrder
  let padded ← paddedPageSize spec
  require (padded = none ∨ kernelBlockSize = none ∨
    kernelBlockSize = some spec.blockSize) .assertionError
  require (padded = none ∨
    ((pageGrid order).map shape).prod = numLayers * numBlocks) .assertionError
  let last := (pageGrid order).getLastD .layer
  strideLoop shape fixedStrides (padded.map fun page => (page, last))
    order.reverse 1 fun _ => 0

/-! ## Views -/

structure KVCacheTensor where
  size : ℕ
  layers : List String
  layerStride : ℕ
  blockStride : ℕ
  offset : ℕ

/-- A flat int8 tensor over a storage. -/
structure RawBuffer where
  storagePtr : ℕ
  storageOffset : ℕ
  storageSize : ℕ

/-- A strided tensor: sizes and strides count elements. -/
structure CacheView where
  storagePtr : ℕ
  storageOffset : ℕ
  elementSize : ℕ
  shape : Dim → ℕ
  stride : Dim → ℕ

namespace CacheView

def dataPtr (view : CacheView) : ℕ :=
  view.storagePtr + view.storageOffset * view.elementSize

/-- `Tensor.view(dtype)` on a byte view. -/
def viewDtype (view : CacheView) (dtypeSize : ℕ) :
    Except Failure CacheView :=
  if dtypeSize = 1 then .ok view
  else do
    require (dtypeSize ≠ 0) .runtimeError
    require (view.stride .content = 1) .runtimeError
    require (view.shape .content % dtypeSize = 0) .runtimeError
    require (view.storageOffset % dtypeSize = 0) .runtimeError
    require (∀ dim ∈ [Dim.block, .head, .state],
      view.stride dim % dtypeSize = 0) .runtimeError
    return { view with
      storageOffset := view.storageOffset / dtypeSize
      elementSize := dtypeSize
      shape := Function.update view.shape .content
        (view.shape .content / dtypeSize)
      stride := fun dim =>
        if dim = .content then 1 else view.stride dim / dtypeSize }

end CacheView

/-- The kernel block that a view is split at: a compressed cache is split into
64 or 32 rows when these tile its rows. -/
def viewKernelBlockSize (spec : KVCacheSpec) (kernelBlockSize : ℕ) : ℕ :=
  match spec.compression with
  | none => kernelBlockSize
  | some tokens =>
      match [64, 32].find? fun cand =>
          decide (spec.blockSize / tokens % cand = 0) with
      | some cand => cand * tokens
      | none => kernelBlockSize

/-- The block stride of a view with `ratio` kernel blocks to a block. -/
def splitBlockStride (spec : KVCacheSpec) (numBlocks ratio layerStride
    blockStride : ℕ) : Except Failure ℕ :=
  if 1 < ratio then do
    let page ← computeLayerKvCacheShapeBytes spec 1 none
    let densePageSize := page.heads * page.states * page.content
    require (blockStride = densePageSize) .valueError
    require (densePageSize % ratio = 0) .assertionError
    require (numBlocks * densePageSize ≤ layerStride) .assertionError
    return densePageSize / ratio
  else .ok blockStride

/-- The byte past the last one that the strided sizes reach. -/
def storageEnd (storageOffset : ℕ) (shape stride : Dim → ℕ)
    (dims : List Dim) : ℕ :=
  if ∃ dim ∈ dims, shape dim = 0 then 0
  else storageOffset + 1 +
    (dims.map fun dim => (shape dim - 1) * stride dim).sum

def fixedStrides (layerStride blockStride : ℕ) : Dim → Option ℕ
  | .layer => some layerStride
  | .block => some blockStride
  | _ => none

def layerView (raw : RawBuffer) (tensor : KVCacheTensor)
    (shape strides : Dim → ℕ) (layerIdx : ℕ) : CacheView where
  storagePtr := raw.storagePtr
  storageOffset := raw.storageOffset + tensor.offset +
    layerIdx * strides .layer
  elementSize := 1
  shape := shape
  stride := strides

def castView (spec : KVCacheSpec) (view : CacheView) :
    Except Failure CacheView :=
  match spec.dtypeSize with
  | none => .ok view
  | some dtypeSize => view.viewDtype dtypeSize

/-- View a flat int8 buffer as one view of kernel blocks per layer. -/
def createKvCacheViews (raw : RawBuffer) (spec : KVCacheSpec)
    (numBlocks : ℕ) (layout : KVCacheLayout) (tensor : KVCacheTensor)
    (kernelBlockSize : Option ℕ) : Except Failure (List CacheView) := do
  let numLayers := tensor.layers.length
  let kernelBlockSize := kernelBlockSize.map (viewKernelBlockSize spec)
  let shapeBytes ←
    computeLayerKvCacheShapeBytes spec numBlocks kernelBlockSize
  require (numBlocks ≠ 0) .zeroDivisionError
  let ratio := shapeBytes.blocks / numBlocks
  let blockStride ← splitBlockStride spec numBlocks ratio tensor.layerStride
    tensor.blockStride
  let strides ← computeLayoutStrides spec numBlocks numLayers layout
    kernelBlockSize (fixedStrides tensor.layerStride blockStride)
  let shape := shapeBytes.dims numLayers
  require (storageEnd (raw.storageOffset + tensor.offset) shape strides
    layout.strideOrder ≤ raw.storageSize) .runtimeError
  (List.range numLayers).mapM fun layerIdx =>
    castView spec (layerView raw tensor shape strides layerIdx)

/-! ## Placement -/

def interleavedStrides (interleavedBlockStride : Option ℕ) :
    Dim → Option ℕ
  | .block => interleavedBlockStride
  | _ => none

/-- One bucket of a group in `get_kv_cache_config_from_groups`, after the
tensors that were placed before it. -/
def placeBucket (tensors : List KVCacheTensor) (spec : KVCacheSpec)
    (layerNames : List String) (numBlocks size byteOffset : ℕ)
    (layout : KVCacheLayout) (perBucketLayout : Bool)
    (interleavedBlockStride : Option ℕ) : Except Failure KVCacheTensor := do
  let page ← spec.pageSizeBytes
  let host := tensors.find? fun tensor =>
    decide (tensor.blockStride = page ∧ tensor.layerStride = numBlocks * page)
  match if spec.kind = .mamba ∨ spec.kind = .kpoolTail then host else none with
  | some host => do
      require (layerNames.length ≤ host.layers.length) .valueError
      return { host with size := size, layers := layerNames }
  | none =>
      if perBucketLayout then
        return {
          size := size
          layers := layerNames
          layerStride := numBlocks * page
          blockStride := page
          offset := byteOffset * numBlocks }
      else do
        let strides ← computeLayoutStrides spec numBlocks layerNames.length
          layout none (interleavedStrides interleavedBlockStride)
        return {
          size := size
          layers := layerNames
          layerStride := strides .layer
          blockStride := strides .block
          offset := byteOffset * max (strides .layer) page / page }

end GlmFlash.Worker
