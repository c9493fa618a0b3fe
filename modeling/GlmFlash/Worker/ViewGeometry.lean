import GlmFlash.Worker.KernelBlocks

/-!
# Where the kernel blocks of a view lie

With the layer and block strides fixed, the layout determines the other
strides.  For tensors placed as the cache config places them, the kernel blocks
of different manager blocks do not meet: what lies inside the block axis fits
in one kernel block, and what lies outside of it is a whole run of blocks
apart.
-/

namespace GlmFlash.Worker

open GlmFlash.Library

/-! ## Strides of a layout -/

def stateStride (layout : KVCacheLayout) (shape : ShapeBytes) : ℕ :=
  match layout with
  | .LBNHC | .BLNHC => shape.heads * shape.content
  | _ => shape.content

def headStride (layout : KVCacheLayout) (shape : ShapeBytes)
    (numLayers layerStride blockStride : ℕ) : ℕ :=
  match layout with
  | .LBHNC | .BLHNC => shape.states * shape.content
  | .LBNHC | .BLNHC => shape.content
  | .LHBNC => blockStride * shape.blocks
  | .BHLNC => layerStride * numLayers

structure HasStrides (layout : KVCacheLayout) (shape : ShapeBytes)
    (numLayers layerStride blockStride : ℕ) (strides : Dim → ℕ) : Prop where
  block : strides .block = blockStride
  layer : strides .layer = layerStride
  content : strides .content = 1
  state : strides .state = stateStride layout shape
  head : strides .head =
    headStride layout shape numLayers layerStride blockStride

/-- Padding moves only the stride of the last axis of the page grid. -/
theorem strideLoop_unpadded {shape strides result : Dim → ℕ}
    {fixed : Dim → Option ℕ} {page : ℕ} {last : Dim}
    (hlast : fixed last ≠ none) {dims : List Dim} {currentStride : ℕ}
    (hrun : strideLoop shape fixed (some (page, last)) dims currentStride
      strides = .ok result) :
    strideLoop shape fixed none dims currentStride strides = .ok result := by
  induction dims generalizing currentStride strides with
  | nil => exact hrun
  | cons dim rest ih =>
      simp only [strideLoop, bind_eq_ok] at hrun
      obtain ⟨padded, hpad, hrest⟩ := hrun
      have hstride : (fixed dim).getD padded =
          (fixed dim).getD currentStride := by
        by_cases hdim : dim = last
        · obtain ⟨stride, hstride⟩ := Option.ne_none_iff_exists'.mp hlast
          rw [hdim, hstride]
          rfl
        · rw [padStride, if_neg hdim] at hpad
          rw [Except.ok.inj hpad]
      rw [hstride] at hrest
      exact ih hrest

theorem getLastD_pageGrid (layout : KVCacheLayout) :
    (pageGrid layout.strideOrder).getLastD .layer =
      if layout.isBlockOutermost then .layer else .block := by
  cases layout <;> decide

theorem hasStrides_of_loop {layout : KVCacheLayout} {shape : ShapeBytes}
    {numLayers layerStride blockStride : ℕ} {strides : Dim → ℕ}
    (hrun : strideLoop (shape.dims numLayers)
      (fixedStrides layerStride blockStride) none layout.strideOrder.reverse 1
      (fun _ => 0) = .ok strides) :
    HasStrides layout shape numLayers layerStride blockStride strides := by
  cases layout
  all_goals
    simp only [KVCacheLayout.strideOrder, List.reverse_cons,
      List.reverse_nil, List.nil_append, List.cons_append, strideLoop,
      padStride, bind_eq_ok, Except.ok.injEq, exists_eq_left', fixedStrides,
      Option.getD_some, Option.getD_none, ShapeBytes.dims, one_mul] at hrun
    rw [← hrun]
    constructor
  all_goals
    simp [stateStride, headStride, mul_comm]

structure LaidOut (spec : KVCacheSpec) (layout : KVCacheLayout)
    (numBlocks numLayers layerStride blockStride : ℕ) (shape : ShapeBytes)
    (kernelBlockSize : Option ℕ) (strides : Dim → ℕ) : Prop where
  strides_eq :
    HasStrides layout shape numLayers layerStride blockStride strides
  layer_pos : 0 < layerStride
  block_pos : 0 < blockStride
  unsplit : ∀ page, paddedPageSize spec = .ok (some page) →
    (kernelBlockSize = none ∨ kernelBlockSize = some spec.blockSize) ∧
      ((pageGrid layout.strideOrder).map (shape.dims numLayers)).prod =
        numLayers * numBlocks

theorem computeLayoutStrides_ok {spec : KVCacheSpec}
    {layout : KVCacheLayout}
    {numBlocks numLayers layerStride blockStride : ℕ} {shape : ShapeBytes}
    {kernelBlockSize : Option ℕ} {strides : Dim → ℕ}
    (hshape : computeLayerKvCacheShapeBytes spec numBlocks kernelBlockSize =
      .ok shape)
    (hrun : computeLayoutStrides spec numBlocks numLayers layout
      kernelBlockSize (fixedStrides layerStride blockStride) = .ok strides) :
    LaidOut spec layout numBlocks numLayers layerStride blockStride shape
      kernelBlockSize strides := by
  simp only [computeLayoutStrides, bind_eq_ok, hshape, Except.ok.injEq,
    exists_eq_left', require_eq_ok] at hrun
  obtain ⟨-, hpos, padded, hpadded, -, hunsplit, -, hgrid, hloop⟩ := hrun
  have hmem : ∀ dim, dim ∈ layout.strideOrder := by
    intro dim
    cases layout <;> cases dim <;> decide
  refine ⟨?_, hpos _ (hmem .layer) _ rfl, hpos _ (hmem .block) _ rfl, ?_⟩
  · cases padded with
    | none => exact hasStrides_of_loop hloop
    | some page =>
        refine hasStrides_of_loop (strideLoop_unpadded ?_ hloop)
        rw [getLastD_pageGrid]
        split <;> exact Option.some_ne_none _
  · intro page hpage
    cases Except.ok.inj (hpage.symm.trans hpadded)
    exact ⟨hunsplit.resolve_left (Option.some_ne_none _),
      hgrid.resolve_left (Option.some_ne_none _)⟩

/-! ## A made view, in bytes -/

structure ViewBytes (view : CacheView) (shape : ShapeBytes)
    (blockStride headStride stateStride : ℕ) : Prop where
  element_pos : 0 < view.elementSize
  block_shape : view.shape .block = shape.blocks
  head_shape : view.shape .head = shape.heads
  state_shape : view.shape .state = shape.states
  content_shape : view.shape .content * view.elementSize = shape.content
  block_stride : view.byteStride .block = blockStride
  head_stride : view.byteStride .head = headStride
  state_stride : view.byteStride .state = stateStride
  content_stride : view.byteStride .content = view.elementSize

theorem viewBytes_castView {spec : KVCacheSpec} {raw : RawBuffer}
    {tensor : KVCacheTensor} {layout : KVCacheLayout} {shape : ShapeBytes}
    {numLayers layerStride blockStride layerIdx : ℕ} {strides : Dim → ℕ}
    {view : CacheView}
    (hstrides :
      HasStrides layout shape numLayers layerStride blockStride strides)
    (hrun : castView spec (layerView raw tensor (shape.dims numLayers) strides
      layerIdx) = .ok view) :
    ViewBytes view shape blockStride
      (headStride layout shape numLayers layerStride blockStride)
      (stateStride layout shape) := by
  have hbytes : ViewBytes (layerView raw tensor (shape.dims numLayers)
      strides layerIdx) shape blockStride
      (headStride layout shape numLayers layerStride blockStride)
      (stateStride layout shape) := by
    constructor
    all_goals
      simp [layerView, CacheView.byteStride, ShapeBytes.dims, hstrides.block,
        hstrides.content, hstrides.state, hstrides.head]
  rw [castView] at hrun
  split at hrun
  · exact Except.ok.inj hrun ▸ hbytes
  · rename_i dtypeSize hdtype
    rw [CacheView.viewDtype] at hrun
    split at hrun
    · exact Except.ok.inj hrun ▸ hbytes
    · simp only [bind_eq_ok, require_eq_ok, pure_eq_ok, List.forall_mem_cons,
        List.not_mem_nil, false_implies, implies_true, and_true] at hrun
      obtain ⟨-, hnonzero, -, hone, -, hcontent, -, -, -, ⟨hblock, hhead,
        hstate⟩, rfl⟩ := hrun
      have hcast : ∀ {size : ℕ}, size % dtypeSize = 0 →
          size / dtypeSize * dtypeSize = size := fun hdvd =>
        Nat.div_mul_cancel (Nat.dvd_of_mod_eq_zero hdvd)
      refine ⟨Nat.pos_of_ne_zero hnonzero, hbytes.block_shape,
        hbytes.head_shape, hbytes.state_shape, ?_, ?_, ?_, ?_, ?_⟩
      · exact (hcast hcontent).trans
          ((Nat.mul_one _).symm.trans hbytes.content_shape)
      · exact (hcast hblock).trans
          ((Nat.mul_one _).symm.trans hbytes.block_stride)
      · exact (hcast hhead).trans
          ((Nat.mul_one _).symm.trans hbytes.head_stride)
      · exact (hcast hstate).trans
          ((Nat.mul_one _).symm.trans hbytes.state_stride)
      · exact one_mul dtypeSize

/-- What is known of a view that `create_kv_cache_views` returned. -/
structure ViewMade (spec : KVCacheSpec) (numBlocks : ℕ)
    (layout : KVCacheLayout) (tensor : KVCacheTensor)
    (kernelBlockSize : ℕ) (view : CacheView) (shape : ShapeBytes)
    (blockStride : ℕ) : Prop where
  kernel_pos : 0 < kernelBlockSize
  kernel_dvd : kernelBlockSize ∣ spec.blockSize
  blocks_pos : 0 < numBlocks
  layers_pos : 0 < tensor.layers.length
  shape_eq : shape = {
    blocks := numBlocks * (spec.blockSize / kernelBlockSize)
    heads := spec.numHeads
    states := spec.getNumKernelStates kernelBlockSize
    content := spec.stateContentSizeBytes }
  split_eq : splitBlockStride spec numBlocks
    (spec.blockSize / kernelBlockSize) tensor.layerStride tensor.blockStride =
      .ok blockStride
  laidOut : ∃ strides, LaidOut spec layout numBlocks tensor.layers.length
    tensor.layerStride blockStride shape (some kernelBlockSize) strides
  bytes : ViewBytes view shape blockStride
    (headStride layout shape tensor.layers.length tensor.layerStride
      blockStride)
    (stateStride layout shape)

theorem createKvCacheViews_ok {raw : RawBuffer} {spec : KVCacheSpec}
    {numBlocks : ℕ} {layout : KVCacheLayout} {tensor : KVCacheTensor}
    {kernelBlockSize : ℕ} {views : List CacheView} {view : CacheView}
    (hrun : createKvCacheViews raw spec numBlocks layout tensor
      (some kernelBlockSize) = .ok views) (hmem : view ∈ views) :
    ∃ shape blockStride, ViewMade spec numBlocks layout tensor
      (viewKernelBlockSize spec kernelBlockSize) view shape blockStride := by
  simp only [createKvCacheViews, Option.map_some, bind_eq_ok,
    require_eq_ok] at hrun
  obtain ⟨shape, hshape, -, hblocks, blockStride, hsplit, strides, hstrides,
    -, -, hviews⟩ := hrun
  have hlaid := computeLayoutStrides_ok hshape hstrides
  simp only [computeLayerKvCacheShapeBytes, Option.getD_some, bind_eq_ok,
    require_eq_ok, pure_eq_ok] at hshape
  obtain ⟨-, hkernel, -, hdvd, hshape⟩ := hshape
  obtain ⟨layerIdx, hlayer, hcast⟩ := mem_mapM_ok hviews hmem
  refine ⟨shape, blockStride, Nat.pos_of_ne_zero hkernel,
    Nat.dvd_of_mod_eq_zero hdvd, Nat.pos_of_ne_zero hblocks,
    Nat.zero_lt_of_lt (List.mem_range.mp hlayer), hshape.symm, ?_,
    ⟨strides, hlaid⟩, viewBytes_castView hlaid.strides_eq hcast⟩
  rw [← hshape, Nat.mul_div_cancel_left _ (Nat.pos_of_ne_zero hblocks)]
    at hsplit
  exact hsplit

/-! ## Placement -/

/-- A tensor as the cache config places it: every layer has a region of dense
pages, or the strides follow from the layout, with blocks of all layers when
the block axis is outermost. -/
inductive KVCacheTensor.Placed (spec : KVCacheSpec) (numBlocks : ℕ)
    (layout : KVCacheLayout) (tensor : KVCacheTensor) : Prop
  | region (page : ℕ) (hpage : spec.pageSizeBytes = .ok page)
      (hblock : tensor.blockStride = page)
      (hlayer : tensor.layerStride = numBlocks * page)
  | strided (page : ℕ) (hpage : spec.pageSizeBytes = .ok page)
      (interleaved : Option ℕ)
      (houter : interleaved.isSome = layout.isBlockOutermost)
      (hfits : ∀ stride ∈ interleaved, tensor.layers.length * page ≤ stride)
      (strides : Dim → ℕ)
      (hstrides : computeLayoutStrides spec numBlocks tensor.layers.length
        layout none (interleavedStrides interleaved) = .ok strides)
      (hblock : tensor.blockStride = strides .block)
      (hlayer : tensor.layerStride = strides .layer)

theorem placeBucket_placed {tensors : List KVCacheTensor}
    {spec : KVCacheSpec} {layerNames : List String}
    {numBlocks size byteOffset : ℕ} {layout : KVCacheLayout}
    {perBucketLayout : Bool} {interleaved : Option ℕ}
    {tensor : KVCacheTensor} {page : ℕ}
    (hpage : spec.pageSizeBytes = .ok page)
    (houter : interleaved.isSome = layout.isBlockOutermost)
    (hfits : ∀ stride ∈ interleaved, layerNames.length * page ≤ stride)
    (hrun : placeBucket tensors spec layerNames numBlocks size byteOffset
      layout perBucketLayout interleaved = .ok tensor) :
    tensor.Placed spec numBlocks layout := by
  simp only [placeBucket, bind_eq_ok, hpage, Except.ok.injEq,
    exists_eq_left'] at hrun
  split at hrun
  · rename_i host hhost
    simp only [bind_eq_ok, pure_eq_ok] at hrun
    obtain ⟨-, -, rfl⟩ := hrun
    split at hhost
    · have hfound := List.find?_some hhost
      simp only [decide_eq_true_eq] at hfound
      exact .region page hpage hfound.1 hfound.2
    · cases hhost
  · split at hrun
    · cases hrun
      exact .region page hpage rfl rfl
    · simp only [bind_eq_ok, pure_eq_ok] at hrun
      obtain ⟨strides, hstrides, rfl⟩ := hrun
      exact .strided page hpage interleaved houter hfits strides hstrides rfl
        rfl

/-! ## Distances -/

structure CacheView.Spaced (view : CacheView) : Prop where
  span_le : view.kernelPageBytes ≤ view.byteStride .block
  outer_far : ∀ dim ∈ view.outerDims, dim = .head ∧
    view.shape .block * view.byteStride .block ≤ view.byteStride .head

section Spacing

variable {view : CacheView} {shape : ShapeBytes}
  {blockStride headStride stateStride : ℕ}

theorem content_cast (hbytes : ViewBytes view shape blockStride headStride
    stateStride) :
    ((view.shape .content : ℤ) - 1) * view.byteStride .content +
      view.elementSize = shape.content := by
  rw [hbytes.content_stride, ← hbytes.content_shape]
  push_cast
  ring

theorem elementSize_le (hbytes : ViewBytes view shape blockStride headStride
    stateStride) (hcontent : 0 < shape.content) :
    view.elementSize ≤ shape.content := by
  rw [← hbytes.content_shape] at hcontent ⊢
  exact Nat.le_mul_of_pos_left _ (Nat.pos_of_mul_pos_right hcontent)

/-- All axes lie inside the block axis. -/
theorem spaced_inner (hbytes : ViewBytes view shape blockStride headStride
    stateStride) (hcontent : 0 < shape.content)
    (hfits : shape.content ≤ blockStride) (hstate : stateStride ≤ blockStride)
    (hhead : headStride ≤ blockStride)
    (hspan : ((shape.heads : ℤ) - 1) * headStride +
      (((shape.states : ℤ) - 1) * stateStride + shape.content) ≤
        blockStride) : view.Spaced := by
  have helement := elementSize_le hbytes hcontent
  have hinner : view.innerDims = [.head, .state, .content] := by
    simp only [CacheView.innerDims, hbytes.block_stride, List.filter_cons,
      hbytes.head_stride, hbytes.state_stride, hbytes.content_stride]
    simp [hhead, hstate, helement.trans hfits]
  have houter : view.outerDims = [] := by
    simp only [CacheView.outerDims, hbytes.block_stride, List.filter_cons,
      hbytes.head_stride, hbytes.state_stride, hbytes.content_stride]
    simp [hhead.not_gt, hstate.not_gt, (helement.trans hfits).not_gt]
  constructor
  · rw [hbytes.block_stride]
    have hcast := content_cast hbytes
    rw [CacheView.kernelPageBytes, hinner]
    simp only [List.map_cons, List.map_nil, List.sum_cons, List.sum_nil,
      hbytes.head_stride, hbytes.state_stride, hbytes.head_shape,
      hbytes.state_shape]
    linarith
  · rw [houter]
    intro dim hmem
    cases hmem

/-- The heads lie outside of the block axis. -/
theorem spaced_outer (hbytes : ViewBytes view shape blockStride headStride
    stateStride) (hcontent : 0 < shape.content)
    (hfits : shape.content ≤ blockStride) (hstate : stateStride ≤ blockStride)
    (hhead : blockStride < headStride)
    (hfar : shape.blocks * blockStride ≤ headStride)
    (hspan : ((shape.states : ℤ) - 1) * stateStride + shape.content ≤
      blockStride) : view.Spaced := by
  have helement := elementSize_le hbytes hcontent
  have hinner : view.innerDims = [.state, .content] := by
    simp only [CacheView.innerDims, hbytes.block_stride, List.filter_cons,
      hbytes.head_stride, hbytes.state_stride, hbytes.content_stride]
    simp [hhead, hstate, helement.trans hfits]
  have houter : view.outerDims = [.head] := by
    simp only [CacheView.outerDims, hbytes.block_stride, List.filter_cons,
      hbytes.head_stride, hbytes.state_stride, hbytes.content_stride]
    simp [hhead, hstate.not_gt, (helement.trans hfits).not_gt]
  constructor
  · rw [hbytes.block_stride]
    have hcast := content_cast hbytes
    rw [CacheView.kernelPageBytes, hinner]
    simp only [List.map_cons, List.map_nil, List.sum_cons, List.sum_nil,
      hbytes.state_stride, hbytes.state_shape]
    linarith
  · rw [houter, hbytes.block_shape, hbytes.block_stride, hbytes.head_stride]
    intro dim hmem
    exact ⟨List.mem_singleton.mp hmem, hfar⟩

end Spacing

/-- What lies inside the block axis fits in the distance of two kernel
blocks. -/
def Fits (layout : KVCacheLayout) (shape : ShapeBytes)
    (numLayers layerStride blockStride : ℕ) : Prop :=
  match layout with
  | .LBHNC | .LBNHC | .BLHNC | .BLNHC =>
      shape.heads * shape.states * shape.content ≤ blockStride
  | .LHBNC => shape.states * shape.content ≤ blockStride
  | .BHLNC =>
      layerStride * numLayers ≤ blockStride ∧
          (shape.heads - 1) * (layerStride * numLayers) +
            shape.states * shape.content ≤ blockStride ∨
        shape.states * shape.content ≤ blockStride ∧
          shape.blocks * blockStride ≤ layerStride * numLayers

section Layouts

variable {view : CacheView} {layout : KVCacheLayout} {shape : ShapeBytes}
  {numLayers layerStride blockStride : ℕ}

/-- The heads of a dense kernel block, one after the other. -/
theorem spaced_headMajor (hbytes : ViewBytes view shape blockStride
      (shape.states * shape.content) shape.content)
    (hheads : 0 < shape.heads) (hstates : 0 < shape.states)
    (hcontent : 0 < shape.content)
    (hfits : shape.heads * shape.states * shape.content ≤ blockStride) :
    view.Spaced := by
  have hrow : shape.states * shape.content ≤ blockStride := by
    refine le_trans ?_ hfits
    rw [mul_assoc]
    exact Nat.le_mul_of_pos_left _ hheads
  have hcell : shape.content ≤ blockStride :=
    (Nat.le_mul_of_pos_left _ hstates).trans hrow
  apply spaced_inner hbytes hcontent hcell hcell hrow
  zify at hfits
  push_cast
  linarith

/-- The states of a dense kernel block, one after the other. -/
theorem spaced_stateMajor (hbytes : ViewBytes view shape blockStride
      shape.content (shape.heads * shape.content))
    (hheads : 0 < shape.heads) (hstates : 0 < shape.states)
    (hcontent : 0 < shape.content)
    (hfits : shape.heads * shape.states * shape.content ≤ blockStride) :
    view.Spaced := by
  have hrow : shape.heads * shape.content ≤ blockStride := by
    refine le_trans ?_ hfits
    rw [mul_right_comm]
    exact Nat.le_mul_of_pos_right _ hstates
  have hcell : shape.content ≤ blockStride :=
    (Nat.le_mul_of_pos_left _ hheads).trans hrow
  apply spaced_inner hbytes hcontent hcell hrow hcell
  zify at hfits
  push_cast
  linarith

theorem spaced_headOuter (hbytes : ViewBytes view shape blockStride
      (headStride layout shape numLayers layerStride blockStride)
      shape.content)
    (hstates : 0 < shape.states) (hcontent : 0 < shape.content)
    (hblock : 0 < blockStride) (hblocks : 2 ≤ shape.blocks)
    (hrow : shape.states * shape.content ≤ blockStride)
    (hfar : shape.blocks * blockStride ≤
      headStride layout shape numLayers layerStride blockStride) :
    view.Spaced := by
  have hcell : shape.content ≤ blockStride :=
    (Nat.le_mul_of_pos_left _ hstates).trans hrow
  have hhead : blockStride <
      headStride layout shape numLayers layerStride blockStride := by
    refine lt_of_lt_of_le ?_ hfar
    exact (Nat.lt_mul_iff_one_lt_left hblock).mpr hblocks
  apply spaced_outer hbytes hcontent hcell hcell hhead hfar
  zify at hrow
  linarith

theorem spaced_of_fits (hbytes : ViewBytes view shape blockStride
      (headStride layout shape numLayers layerStride blockStride)
      (stateStride layout shape))
    (hheads : 0 < shape.heads) (hstates : 0 < shape.states)
    (hcontent : 0 < shape.content) (hblock : 0 < blockStride)
    (hblocks : 2 ≤ shape.blocks)
    (hfits : Fits layout shape numLayers layerStride blockStride) :
    view.Spaced := by
  cases layout with
  | LBHNC => exact spaced_headMajor hbytes hheads hstates hcontent hfits
  | BLHNC => exact spaced_headMajor hbytes hheads hstates hcontent hfits
  | LBNHC => exact spaced_stateMajor hbytes hheads hstates hcontent hfits
  | BLNHC => exact spaced_stateMajor hbytes hheads hstates hcontent hfits
  | LHBNC =>
      exact spaced_headOuter hbytes hstates hcontent hblock hblocks hfits
        (Nat.mul_comm _ _).le
  | BHLNC =>
      rcases hfits with ⟨hhead, hspan⟩ | ⟨hrow, hfar⟩
      · have hrow : shape.states * shape.content ≤ blockStride :=
          (Nat.le_add_left _ _).trans hspan
        have hcell : shape.content ≤ blockStride :=
          (Nat.le_mul_of_pos_left _ hstates).trans hrow
        apply spaced_inner hbytes hcontent hcell hcell hhead
        zify [hheads] at hspan
        change ((shape.heads : ℤ) - 1) * ((layerStride * numLayers : ℕ) : ℤ) +
          (((shape.states : ℤ) - 1) * shape.content + shape.content) ≤
            blockStride
        push_cast
        linarith
      · exact spaced_headOuter hbytes hstates hcontent hblock hblocks hrow
          hfar

end Layouts

/-! ## Strides that follow from the layout -/

theorem padStride_none {dim : Dim} {currentStride padded : ℕ}
    (hrun : padStride none dim currentStride = .ok padded) :
    padded = currentStride :=
  (Except.ok.inj hrun).symm

theorem padStride_ne {padding : Option (ℕ × Dim)} {dim : Dim}
    {currentStride padded : ℕ} (hne : ∀ page ∈ padding, dim ≠ page.2)
    (hrun : padStride padding dim currentStride = .ok padded) :
    padded = currentStride := by
  cases padding with
  | none => exact padStride_none hrun
  | some page =>
      rw [padStride, if_neg (hne page rfl)] at hrun
      exact (Except.ok.inj hrun).symm

theorem padStride_eq {page currentStride padded : ℕ} {dim : Dim}
    (hrun : padStride (some (page, dim)) dim currentStride = .ok padded) :
    padded = max currentStride page := by
  rw [padStride, if_pos rfl] at hrun
  simp only [bind_eq_ok, pure_eq_ok] at hrun
  obtain ⟨-, -, -, -, rfl⟩ := hrun
  rfl

theorem le_padStride {padding : Option (ℕ × Dim)} {dim : Dim}
    {currentStride padded : ℕ}
    (hrun : padStride padding dim currentStride = .ok padded) :
    currentStride ≤ padded := by
  cases padding with
  | none => exact (padStride_none hrun).ge
  | some page =>
      by_cases hdim : dim = page.2
      · rw [hdim] at hrun
        rw [padStride_eq hrun]
        exact le_max_left _ _
      · refine (padStride_ne ?_ hrun).ge
        intro other hother
        cases hother
        exact hdim

/-- The strides of the loop, where nothing but the block may be fixed. -/
structure NaturalStrides (layout : KVCacheLayout) (shape : ShapeBytes)
    (interleaved : Option ℕ) (padding : Option (ℕ × Dim))
    (strides : Dim → ℕ) : Prop where
  blockOuter : ∀ stride ∈ interleaved, strides .block = stride
  layerInner : layout = .BHLNC →
    padStride padding .layer (shape.states * shape.content) =
      .ok (strides .layer)
  blockInner : interleaved = none →
    (if layout = .LHBNC then shape.states * shape.content
      else shape.heads * shape.states * shape.content) ≤ strides .block

theorem naturalStrides_of_loop {layout : KVCacheLayout} {shape : ShapeBytes}
    {numLayers : ℕ} {interleaved : Option ℕ}
    {padding : Option (ℕ × Dim)} {strides : Dim → ℕ}
    (houter : interleaved.isSome = layout.isBlockOutermost)
    (hlast : ∀ page ∈ padding,
      page.2 = if layout.isBlockOutermost then .layer else .block)
    (hrun : strideLoop (shape.dims numLayers)
      (interleavedStrides interleaved) padding layout.strideOrder.reverse 1
      (fun _ => 0) = .ok strides) :
    NaturalStrides layout shape interleaved padding strides := by
  have hinside : ∀ {dim currentStride padded},
      dim = .head ∨ dim = .state ∨ dim = .content →
      padStride padding dim currentStride = .ok padded →
      padded = currentStride := by
    intro dim currentStride padded hdim hpad
    refine padStride_ne ?_ hpad
    intro page hpage
    rw [hlast page hpage]
    rcases hdim with rfl | rfl | rfl <;> split <;> decide
  have hfixed : ∀ stride padded, stride ∈ interleaved →
      interleaved.getD padded = stride := by
    intro stride padded hstride
    rw [hstride]
    rfl
  cases layout
  all_goals
    simp only [KVCacheLayout.strideOrder, List.reverse_cons,
      List.reverse_nil, List.nil_append, List.cons_append, strideLoop,
      bind_eq_ok, Except.ok.injEq, interleavedStrides, Option.getD_none,
      ShapeBytes.dims] at hrun
  case LBHNC =>
    obtain ⟨cell, hcell, state, hstate, head, hhead, block, hblock, layer, -,
      rfl⟩ := hrun
    cases hinside (.inr (.inr rfl)) hcell
    cases hinside (.inr (.inl rfl)) hstate
    cases hinside (.inl rfl) hhead
    refine ⟨fun stride hstride => hfixed stride block hstride, nofun,
      fun hnone => ?_⟩
    rw [hnone]
    refine le_trans (le_of_eq ?_) (le_padStride hblock)
    simp only [reduceCtorEq, if_false]
    ring
  case LBNHC =>
    obtain ⟨cell, hcell, head, hhead, state, hstate, block, hblock, layer, -,
      rfl⟩ := hrun
    cases hinside (.inr (.inr rfl)) hcell
    cases hinside (.inl rfl) hhead
    cases hinside (.inr (.inl rfl)) hstate
    refine ⟨fun stride hstride => hfixed stride block hstride, nofun,
      fun hnone => ?_⟩
    rw [hnone]
    refine le_trans (le_of_eq ?_) (le_padStride hblock)
    simp only [reduceCtorEq, if_false]
    ring
  case LHBNC =>
    obtain ⟨cell, hcell, state, hstate, block, hblock, head, -, layer, -,
      rfl⟩ := hrun
    cases hinside (.inr (.inr rfl)) hcell
    cases hinside (.inr (.inl rfl)) hstate
    refine ⟨fun stride hstride => hfixed stride block hstride, nofun,
      fun hnone => ?_⟩
    rw [hnone]
    refine le_trans (le_of_eq ?_) (le_padStride hblock)
    simp only [if_true]
    ring
  case BHLNC =>
    obtain ⟨cell, hcell, state, hstate, layer, hlayer, head, -, block, -,
      rfl⟩ := hrun
    cases hinside (.inr (.inr rfl)) hcell
    cases hinside (.inr (.inl rfl)) hstate
    refine ⟨fun stride hstride => hfixed stride block hstride, fun _ => ?_,
      fun hnone => ?_⟩
    · rw [← one_mul shape.content, mul_comm shape.states]
      exact hlayer
    · rw [hnone] at houter
      cases houter
  all_goals
    obtain ⟨_, -, _, -, _, -, _, -, block, -, rfl⟩ := hrun
    refine ⟨fun stride hstride => hfixed stride block hstride, nofun,
      fun hnone => ?_⟩
    rw [hnone] at houter
    cases houter

/-! ## Views of placed tensors -/

/-- An int of at least 1 that divides the block, or a fraction below 1. -/
def TokensPerState.Divides (blockSize : ℕ) : TokensPerState → Prop
  | .int tokens => 0 < tokens ∧ tokens.toNat ∣ blockSize
  | .fraction tokens => 0 < tokens ∧ tokens < 1

structure KVCacheSpec.WellFormed (spec : KVCacheSpec) : Prop where
  block_pos : 0 < spec.blockSize
  heads_pos : 0 < spec.numHeads
  content_pos : 0 < spec.stateContentSizeBytes
  tokens_divide : spec.tokensPerState.Divides spec.blockSize

section Placed

variable {spec : KVCacheSpec} {page : ℕ}

theorem unpadded_le_page (hpage : spec.pageSizeBytes = .ok page) :
    spec.unpaddedPageSizeBytes ≤ page := by
  rw [KVCacheSpec.pageSizeBytes] at hpage
  split at hpage
  · rw [pure_eq_ok] at hpage
    omega
  · simp only [bind_eq_ok, require_eq_ok, pure_eq_ok] at hpage
    obtain ⟨-, hle, hpage⟩ := hpage
    omega

theorem page_of_padding {padding : Option ℕ}
    (hpage : spec.pageSizeBytes = .ok page)
    (hpadding : paddedPageSize spec = .ok padding) :
    page = padding.getD spec.unpaddedPageSizeBytes := by
  rw [paddedPageSize] at hpadding
  split at hpadding
  · simp only [hpage, bind_eq_ok, Except.ok.injEq, exists_eq_left',
      pure_eq_ok] at hpadding
    rw [← hpadding]
    rfl
  · rename_i htail
    rw [not_not] at htail
    rw [KVCacheSpec.pageSizeBytes, htail] at hpage
    rw [← Except.ok.inj hpadding]
    split at hpage
    · rename_i hnone
      rw [pure_eq_ok] at hpage
      rw [hnone]
      exact hpage.symm
    · rename_i padded hsome
      simp only [bind_eq_ok, pure_eq_ok] at hpage
      obtain ⟨-, -, hpage⟩ := hpage
      rw [hsome]
      exact hpage.symm

theorem TokensPerState.Divides.positive {tokens : TokensPerState}
    {blockSize : ℕ}
    (hdivides : tokens.Divides blockSize) : tokens.Positive := by
  cases tokens with
  | int tokens => exact hdivides.1
  | fraction tokens => exact hdivides.1

/-- Kernel blocks hold no more states than the block they split. -/
theorem kernelStates_mul_le (hpositive : spec.tokensPerState.Positive)
    {kernelBlockSize : ℕ} (hdvd : kernelBlockSize ∣ spec.blockSize) :
    spec.getNumKernelStates kernelBlockSize *
      (spec.blockSize / kernelBlockSize) ≤ spec.numStates := by
  obtain ⟨ratio, hratio⟩ := hdvd
  rcases Nat.eq_zero_or_pos kernelBlockSize with hzero | hpos
  · rw [hzero, Nat.div_zero, Nat.mul_zero]
    exact Nat.zero_le _
  have hquotient : spec.blockSize / kernelBlockSize = ratio := by
    rw [hratio, Nat.mul_div_cancel_left _ hpos]
  rw [KVCacheSpec.numStates, KVCacheSpec.getNumKernelStates,
    KVCacheSpec.getNumKernelStates, if_pos hpositive, if_pos hpositive,
    hquotient, hratio]
  cases htokens : spec.tokensPerState with
  | int tokens =>
      rw [htokens] at hpositive
      have htokensPos : 0 < tokens.toNat := by
        have : (0 : ℤ) < tokens := hpositive
        omega
      apply (Nat.le_div_iff_mul_le htokensPos).mpr
      calc kernelBlockSize / tokens.toNat * ratio * tokens.toNat
          = kernelBlockSize / tokens.toNat * tokens.toNat * ratio := by ring
        _ ≤ kernelBlockSize * ratio :=
            Nat.mul_le_mul_right _ (Nat.div_mul_le_self _ _)
  | fraction tokens =>
      rw [htokens] at hpositive
      have htokensPos : (0 : ℚ) < tokens := hpositive
      apply Nat.le_floor
      have hfloor : (⌊(kernelBlockSize : ℚ) / tokens⌋₊ : ℚ) ≤
          kernelBlockSize / tokens :=
        Nat.floor_le (div_nonneg (Nat.cast_nonneg _) htokensPos.le)
      calc ((⌊(kernelBlockSize : ℚ) / tokens⌋₊ * ratio : ℕ) : ℚ)
          = ⌊(kernelBlockSize : ℚ) / tokens⌋₊ * ratio := by push_cast; rfl
        _ ≤ kernelBlockSize / tokens * ratio :=
            mul_le_mul_of_nonneg_right hfloor (Nat.cast_nonneg _)
        _ = ((kernelBlockSize * ratio : ℕ) : ℚ) / tokens := by
            push_cast
            ring

variable {layout : KVCacheLayout} {shape : ShapeBytes}
  {numBlocks ratio numLayers layerStride tensorStride blockStride : ℕ}

theorem fits_split (hratio : 1 < ratio) (hlayers : 0 < numLayers)
    (hheads : 0 < shape.heads)
    (hblocks : shape.blocks = numBlocks * ratio)
    (hheadsEq : shape.heads = spec.numHeads)
    (hcontentEq : shape.content = spec.stateContentSizeBytes)
    (hstates : shape.states * ratio ≤ spec.numStates)
    (hsplit : splitBlockStride spec numBlocks ratio layerStride tensorStride =
      .ok blockStride) :
    Fits layout shape numLayers layerStride blockStride := by
  rw [splitBlockStride, if_pos hratio] at hsplit
  simp only [computeLayerKvCacheShapeBytes, Option.getD_none, bind_eq_ok,
    require_eq_ok, pure_eq_ok] at hsplit
  obtain ⟨page, ⟨-, -, -, -, rfl⟩, -, -, -, hdvd, -, hregion, rfl⟩ := hsplit
  dsimp only at hdvd hregion ⊢
  have hdense : shape.heads * shape.states * shape.content ≤
      spec.numHeads * spec.getNumKernelStates spec.blockSize *
        spec.stateContentSizeBytes / ratio := by
    apply (Nat.le_div_iff_mul_le (by omega)).mpr
    rw [hheadsEq, hcontentEq]
    calc spec.numHeads * shape.states * spec.stateContentSizeBytes * ratio
        = spec.numHeads * (shape.states * ratio) *
            spec.stateContentSizeBytes := by ring
      _ ≤ spec.numHeads * spec.numStates * spec.stateContentSizeBytes :=
          Nat.mul_le_mul_right _ (Nat.mul_le_mul_left _ hstates)
  have hrow : shape.states * shape.content ≤
      spec.numHeads * spec.getNumKernelStates spec.blockSize *
        spec.stateContentSizeBytes / ratio := by
    refine le_trans ?_ hdense
    rw [mul_assoc]
    exact Nat.le_mul_of_pos_left _ hheads
  have hfar : shape.blocks *
      (spec.numHeads * spec.getNumKernelStates spec.blockSize *
        spec.stateContentSizeBytes / ratio) ≤ layerStride * numLayers := by
    rw [hblocks, mul_assoc,
      Nat.mul_div_cancel' (Nat.dvd_of_mod_eq_zero hdvd)]
    exact hregion.trans (Nat.le_mul_of_pos_right _ hlayers)
  cases layout with
  | LHBNC => exact hrow
  | BHLNC => exact .inr ⟨hrow, hfar⟩
  | _ => exact hdense

theorem fits_region (hlayers : 0 < numLayers) (hheads : 0 < shape.heads)
    (hblocks : shape.blocks = numBlocks)
    (hdense : shape.heads * shape.states * shape.content ≤ page) :
    Fits layout shape numLayers (numBlocks * page) page := by
  have hrow : shape.states * shape.content ≤ page := by
    refine le_trans ?_ hdense
    rw [mul_assoc]
    exact Nat.le_mul_of_pos_left _ hheads
  cases layout with
  | LHBNC => exact hrow
  | BHLNC =>
      refine .inr ⟨hrow, ?_⟩
      rw [hblocks]
      exact Nat.le_mul_of_pos_right _ hlayers
  | _ => exact hdense

/-- Heads around the layers of a block, in a block of all layers. -/
theorem fits_headOuter {stride : ℕ} (hlayers : 0 < numLayers)
    (hheads : 0 < shape.heads)
    (hfits : numLayers * (shape.heads * layerStride) ≤ stride)
    (hrow : shape.states * shape.content ≤ layerStride) :
    layerStride * numLayers ≤ stride ∧
      (shape.heads - 1) * (layerStride * numLayers) +
        shape.states * shape.content ≤ stride := by
  obtain ⟨heads, hheadsEq⟩ := Nat.exists_eq_succ_of_ne_zero hheads.ne'
  rw [hheadsEq] at hfits ⊢
  have hone : layerStride ≤ layerStride * numLayers :=
    Nat.le_mul_of_pos_right _ hlayers
  have hall : numLayers * (heads.succ * layerStride) =
      heads * (layerStride * numLayers) + layerStride * numLayers := by
    rw [Nat.succ_eq_add_one]
    ring
  rw [hall] at hfits
  rw [Nat.succ_sub_one]
  constructor
  · exact (Nat.le_add_left _ _).trans hfits
  · exact (Nat.add_le_add_left (hrow.trans hone) _).trans hfits

theorem fits_strided {interleaved : Option ℕ} {strides : Dim → ℕ}
    (hpage : spec.pageSizeBytes = .ok page)
    (hlayers : 0 < numLayers) (hblocks : 0 < numBlocks)
    (hheads : 0 < spec.numHeads) (hblock : 0 < spec.blockSize)
    (hshape : computeLayerKvCacheShapeBytes spec numBlocks none = .ok shape)
    (houter : interleaved.isSome = layout.isBlockOutermost)
    (hfits : ∀ stride ∈ interleaved, numLayers * page ≤ stride)
    (hstrides : computeLayoutStrides spec numBlocks numLayers layout none
      (interleavedStrides interleaved) = .ok strides) :
    Fits layout shape numLayers (strides .layer) (strides .block) := by
  simp only [computeLayoutStrides, hshape, bind_eq_ok, Except.ok.injEq,
    exists_eq_left', require_eq_ok] at hstrides
  obtain ⟨-, -, padding, hpadding, -, -, -, hgrid, hloop⟩ := hstrides
  have hpageEq := page_of_padding hpage hpadding
  have hunpadded := unpadded_le_page hpage
  have hnatural := naturalStrides_of_loop houter (by
    intro padded hpadded
    rw [← getLastD_pageGrid]
    obtain ⟨size, -, rfl⟩ := Option.mem_map.mp hpadded
    rfl) hloop
  simp only [computeLayerKvCacheShapeBytes, Option.getD_none, bind_eq_ok,
    require_eq_ok, pure_eq_ok] at hshape
  obtain ⟨-, -, -, -, rfl⟩ := hshape
  have hdense : ∀ stride ∈ interleaved,
      spec.numHeads * spec.getNumKernelStates spec.blockSize *
        spec.stateContentSizeBytes ≤ strides .block := by
    intro stride hstride
    rw [hnatural.blockOuter stride hstride]
    exact (hunpadded.trans (Nat.le_mul_of_pos_left _ hlayers)).trans
      (hfits stride hstride)
  cases layout with
  | LBHNC => exact hnatural.blockInner (Option.not_isSome_iff_eq_none.mp
      (by rw [houter]; decide))
  | LBNHC => exact hnatural.blockInner (Option.not_isSome_iff_eq_none.mp
      (by rw [houter]; decide))
  | LHBNC => exact hnatural.blockInner (Option.not_isSome_iff_eq_none.mp
      (by rw [houter]; decide))
  | BLHNC =>
      obtain ⟨stride, hstride⟩ := Option.isSome_iff_exists.mp houter
      exact hdense stride hstride
  | BLNHC =>
      obtain ⟨stride, hstride⟩ := Option.isSome_iff_exists.mp houter
      exact hdense stride hstride
  | BHLNC =>
      obtain ⟨stride, hstride⟩ := Option.isSome_iff_exists.mp houter
      refine .inl ?_
      have hlayer := hnatural.layerInner rfl
      have hall := hfits stride hstride
      rw [hnatural.blockOuter stride hstride]
      cases padding with
      | none =>
          have hlayerEq := padStride_none hlayer
          apply fits_headOuter hlayers hheads
          · rw [hlayerEq]
            rw [hpageEq] at hall
            calc _ = numLayers * (spec.numHeads * spec.numStates *
                  spec.stateContentSizeBytes) := by
                  rw [← Nat.mul_assoc spec.numHeads]
                  rfl
              _ ≤ stride := hall
          · exact hlayerEq.ge
      | some padded =>
          have hone : spec.numHeads = 1 := by
            have hprod := hgrid.resolve_left (Option.some_ne_none _)
            have hgridEq : pageGrid KVCacheLayout.BHLNC.strideOrder =
                [.block, .head, .layer] := by decide
            rw [hgridEq] at hprod
            simp only [List.map_cons, List.map_nil, List.prod_cons,
              List.prod_nil, ShapeBytes.dims, mul_one,
              Nat.div_self hblock] at hprod
            have hpos : 0 < numBlocks * numLayers :=
              Nat.mul_pos hblocks hlayers
            apply Nat.eq_of_mul_eq_mul_right hpos
            linarith
          rw [Option.map_some] at hlayer
          have hlayerEq := padStride_eq hlayer
          rw [Option.getD_some] at hpageEq
          have hrow : spec.getNumKernelStates spec.blockSize *
              spec.stateContentSizeBytes ≤ page := by
            refine le_trans (le_of_eq ?_) hunpadded
            rw [KVCacheSpec.unpaddedPageSizeBytes, hone, one_mul]
            rfl
          rw [← hpageEq] at hlayerEq
          dsimp only at hlayerEq
          rw [max_eq_right hrow] at hlayerEq
          apply fits_headOuter hlayers hheads
          · rw [hlayerEq]
            dsimp only
            rw [hone, one_mul]
            exact hall
          · rw [hlayerEq]
            exact hrow

/-- A view of a placed tensor keeps its blocks apart. -/
theorem ViewMade.spaced {tensor : KVCacheTensor} {kernelBlockSize : ℕ}
    {view : CacheView}
    (hmade : ViewMade spec numBlocks layout tensor kernelBlockSize view shape
      blockStride)
    (hwell : spec.WellFormed) (hplaced : tensor.Placed spec numBlocks layout)
    (hstates : 0 < spec.getNumKernelStates kernelBlockSize)
    (htwo : 2 ≤ numBlocks) : view.Spaced := by
  obtain ⟨strides, hlaid⟩ := hmade.laidOut
  have hshape := hmade.shape_eq
  have hratio : 0 < spec.blockSize / kernelBlockSize :=
    Nat.div_pos (Nat.le_of_dvd hwell.block_pos hmade.kernel_dvd)
      hmade.kernel_pos
  have hblocks : 2 ≤ shape.blocks := by
    rw [hshape]
    exact htwo.trans (Nat.le_mul_of_pos_right _ hratio)
  have hheads : 0 < shape.heads := by
    rw [hshape]
    exact hwell.heads_pos
  apply spaced_of_fits hmade.bytes hheads (by rw [hshape]; exact hstates)
    (by rw [hshape]; exact hwell.content_pos) hlaid.block_pos hblocks
  by_cases hsplit : 1 < spec.blockSize / kernelBlockSize
  · apply fits_split hsplit hmade.layers_pos hheads
      (by rw [hshape]) (by rw [hshape]) (by rw [hshape]) _ hmade.split_eq
    rw [hshape]
    exact kernelStates_mul_le hwell.tokens_divide.positive hmade.kernel_dvd
  · have hone : spec.blockSize / kernelBlockSize = 1 := by omega
    have hkernel : kernelBlockSize = spec.blockSize := by
      rw [← Nat.div_mul_cancel hmade.kernel_dvd, hone, one_mul]
    have hstride : tensor.blockStride = blockStride := by
      have hunsplit := hmade.split_eq
      rw [splitBlockStride, if_neg hsplit] at hunsplit
      exact Except.ok.inj hunsplit
    have hwhole : computeLayerKvCacheShapeBytes spec numBlocks none =
        .ok shape := by
      simp only [computeLayerKvCacheShapeBytes, Option.getD_none, bind_eq_ok,
        require_eq_ok, pure_eq_ok]
      refine ⟨(), hwell.block_pos.ne', (), Nat.mod_self _, ?_⟩
      rw [hshape, hkernel]
    cases hplaced with
    | region page hpage hblock hlayer =>
        rw [← hstride, hblock, hlayer]
        apply fits_region hmade.layers_pos hheads
        · rw [hshape, hone, mul_one]
        · refine le_trans (le_of_eq ?_) (unpadded_le_page hpage)
          rw [hshape, hkernel]
          rfl
    | strided page hpage interleaved houter hfits strides' hstrides hblock
        hlayer =>
        rw [← hstride, hblock, hlayer]
        exact fits_strided hpage hmade.layers_pos hmade.blocks_pos
          hwell.heads_pos hwell.block_pos hwhole houter hfits hstrides

end Placed

end GlmFlash.Worker
