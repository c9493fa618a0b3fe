import GlmFlash.Worker.ZeroedPages

/-!
# Split and zeroed consistently

A mix of plain and compressed layers is split by one kernel block and zeroed
page by page exactly when every compressed layer of it satisfies the condition
on its rows.
-/

namespace GlmFlash.Worker

open GlmFlash.Library

namespace CacheView

/-- The byte belongs to the view of the block: to one of the kernel blocks that
it has when the view has `numBlocks` blocks. -/
def PageByte (view : CacheView) (numBlocks blockId addr : ℕ) : Prop :=
  ∃ (kernelBlock : ℕ) (index : Dim → ℕ) (rest : ℕ),
    kernelBlock < view.shape .block ∧
      kernelBlock / (view.shape .block / numBlocks) = blockId ∧
      (∀ dim ∈ [Dim.head, .state, .content], index dim < view.shape dim) ∧
      rest < view.elementSize ∧
      addr = view.dataPtr + kernelBlock * view.byteStride .block +
        (([Dim.head, .state, .content].map fun dim =>
          index dim * view.byteStride dim).sum + rest)

variable {view : CacheView}

/-! ## Offsets of the axes -/

theorem mem_offsets {dims : List Dim} {index : Dim → ℕ}
    (hindex : ∀ dim ∈ dims, index dim < view.shape dim) :
    (dims.map fun dim => index dim * view.byteStride dim).sum ∈
      view.offsets dims := by
  induction dims with
  | nil => exact List.mem_singleton_self 0
  | cons dim dims ih =>
      obtain ⟨hfirst, hrest⟩ := List.forall_mem_cons.mp hindex
      simp only [offsets, List.map_cons, List.sum_cons, List.mem_flatMap,
        List.mem_range, List.mem_map]
      exact ⟨index dim, hfirst, _, ih hrest, rfl⟩

theorem sum_filter_add {dims : List Dim} (outer : Dim → Bool)
    (offset : Dim → ℕ) :
    (dims.map offset).sum =
      ((dims.filter outer).map offset).sum +
        ((dims.filter fun dim => !outer dim).map offset).sum := by
  induction dims with
  | nil => rfl
  | cons dim dims ih =>
      by_cases houter : outer dim = true
      · simp [houter, ih]
        ring
      · simp [houter, ih]
        ring

theorem inner_lt {dims : List Dim} {index : Dim → ℕ} {rest : ℕ}
    (hindex : ∀ dim ∈ dims, index dim < view.shape dim)
    (hrest : rest < view.elementSize) :
    (((dims.map fun dim => index dim * view.byteStride dim).sum + rest : ℕ) :
        ℤ) <
      view.elementSize + (dims.map fun dim =>
        ((view.shape dim : ℤ) - 1) * view.byteStride dim).sum := by
  induction dims with
  | nil => simpa using hrest
  | cons dim dims ih =>
      obtain ⟨hfirst, hlater⟩ := List.forall_mem_cons.mp hindex
      have hdim : (index dim : ℤ) * view.byteStride dim ≤
          ((view.shape dim : ℤ) - 1) * view.byteStride dim :=
        mul_le_mul_of_nonneg_right (by omega) (Int.natCast_nonneg _)
      have hih := ih hlater
      simp only [List.map_cons, List.sum_cons]
      push_cast at hih ⊢
      linarith

/-- Where a byte of a page lies. -/
theorem PageByte.split {numBlocks blockId addr : ℕ}
    (hbyte : view.PageByte numBlocks blockId addr) :
    ∃ kernelBlock outer inner : ℕ, kernelBlock < view.shape .block ∧
      kernelBlock / (view.shape .block / numBlocks) = blockId ∧
      outer ∈ view.offsets view.outerDims ∧
      (inner : ℤ) < view.kernelPageBytes ∧
      addr = view.dataPtr + outer + kernelBlock * view.byteStride .block +
        inner := by
  obtain ⟨kernelBlock, index, rest, hlt, hblock, hindex, hrest, haddr⟩ := hbyte
  have houter : ∀ dim ∈ view.outerDims, index dim < view.shape dim :=
    fun dim hdim => hindex dim (List.mem_of_mem_filter hdim)
  have hinner : ∀ dim ∈ view.innerDims, index dim < view.shape dim :=
    fun dim hdim => hindex dim (List.mem_of_mem_filter hdim)
  refine ⟨kernelBlock, _, _, hlt, hblock, mem_offsets houter,
    inner_lt hinner hrest, ?_⟩
  · rw [haddr, sum_filter_add (fun dim =>
      decide (view.byteStride .block < view.byteStride dim))]
    simp only [outerDims, innerDims]
    ring

/-! ## Segments of a view -/

section Segments

variable {groupId ratio blockId addr : ℕ} {segments : List Segment}

/-- The span of a segment: from the kernel block it stands for in a block. -/
theorem segmentAt_writes {outer virtualIndex : ℕ}
    (hstride : view.byteStride .block % 4 = 0)
    (hpage : view.kernelPageBytes % 4 = 0) :
    (KVBlockZeroer.segmentAt groupId view ratio (view.dataPtr + outer +
        virtualIndex * view.byteStride .block)).Writes blockId addr ↔
      ∃ inner : ℕ, (inner : ℤ) < view.kernelPageBytes ∧
        addr = view.dataPtr + outer +
          (virtualIndex + blockId * ratio) * view.byteStride .block +
          inner := by
  have hwords : 4 * (blockId * (view.byteStride .block * ratio / 4)) =
      blockId * ratio * view.byteStride .block := by
    obtain ⟨words, hwords⟩ := Nat.dvd_of_mod_eq_zero hstride
    rw [hwords, Nat.mul_assoc, Nat.mul_div_cancel_left _ (by decide)]
    ring
  have hbytes : 4 * (view.kernelPageBytes / 4) = view.kernelPageBytes := by
    omega
  have hstart : view.dataPtr + outer + virtualIndex * view.byteStride .block +
        4 * (blockId * (view.byteStride .block * ratio / 4)) =
      view.dataPtr + outer +
        (virtualIndex + blockId * ratio) * view.byteStride .block := by
    rw [hwords]
    ring
  rw [Segment.Writes]
  dsimp only [KVBlockZeroer.segmentAt]
  rw [hbytes, hstart, ← hstart]
  constructor
  · rintro ⟨hlow, hhigh⟩
    obtain ⟨inner, rfl⟩ := Nat.exists_eq_add_of_le hlow
    refine ⟨inner, ?_, rfl⟩
    push_cast at hhigh
    linarith
  · rintro ⟨inner, hinner, rfl⟩
    refine ⟨Nat.le_add_right _ _, ?_⟩
    push_cast
    linarith

theorem layerSegments_ok
    (hrun : KVBlockZeroer.layerSegments groupId view ratio = .ok segments) :
    view.byteStride .block % 4 = 0 ∧ view.kernelPageBytes % 4 = 0 ∧
      segments = (view.segmentAddrs ratio).map
        (KVBlockZeroer.segmentAt groupId view ratio) := by
  simp only [KVBlockZeroer.layerSegments, bind_eq_ok, require_eq_ok,
    pure_eq_ok] at hrun
  obtain ⟨-, hstride, -, hpage, -, -, hsegments⟩ := hrun
  exact ⟨hstride, hpage, hsegments.symm⟩

/-- What the segments of a view cover for a block. -/
theorem segments_write
    (hrun : KVBlockZeroer.layerSegments groupId view ratio = .ok segments) :
    (∃ segment ∈ segments, segment.Writes blockId addr) ↔
      ∃ outer ∈ view.offsets view.outerDims, ∃ virtualIndex < ratio,
        ∃ inner : ℕ, (inner : ℤ) < view.kernelPageBytes ∧
          addr = view.dataPtr + outer +
            (virtualIndex + blockId * ratio) * view.byteStride .block +
            inner := by
  obtain ⟨hstride, hpage, rfl⟩ := layerSegments_ok hrun
  simp only [List.mem_map, segmentAddrs, List.mem_flatMap, List.mem_range]
  constructor
  · rintro ⟨_, ⟨_, ⟨outer, houter, virtualIndex, hvirtual, rfl⟩, rfl⟩, hwrites⟩
    exact ⟨outer, houter, virtualIndex, hvirtual,
      (segmentAt_writes hstride hpage).mp hwrites⟩
  · rintro ⟨outer, houter, virtualIndex, hvirtual, hinner⟩
    exact ⟨_, ⟨_, ⟨outer, houter, virtualIndex, hvirtual, rfl⟩, rfl⟩,
      (segmentAt_writes hstride hpage).mpr hinner⟩

/-- A quotient and a remainder. -/
theorem mul_add_inj {size first second rest rest' : ℕ} (hrest : rest < size)
    (hrest' : rest' < size)
    (hsame : first * size + rest = second * size + rest') :
    first = second ∧ rest = rest' := by
  have hpos : 0 < size := Nat.zero_lt_of_lt hrest
  have hfirst : first = second := by
    calc first = (rest + first * size) / size := by
          rw [Nat.add_mul_div_right _ _ hpos, Nat.div_eq_of_lt hrest, zero_add]
      _ = (rest' + second * size) / size := by
          rw [Nat.add_comm rest, hsame, Nat.add_comm]
      _ = second := by
          rw [Nat.add_mul_div_right _ _ hpos, Nat.div_eq_of_lt hrest',
            zero_add]
  rw [hfirst] at hsame
  exact ⟨hfirst, Nat.add_left_cancel hsame⟩

/-- What lies outside the block axis is whole runs of blocks apart. -/
theorem Spaced.outer_dvd (hspaced : view.Spaced) :
    ∃ run, view.shape .block * view.byteStride .block ≤ run ∧
      ∀ outer ∈ view.offsets view.outerDims, run ∣ outer := by
  cases hdims : view.outerDims with
  | nil =>
      refine ⟨_, le_rfl, fun outer houter => ?_⟩
      rw [List.mem_singleton.mp houter]
      exact dvd_zero _
  | cons first rest =>
      have hhead := hspaced.outer_far
      rw [hdims] at hhead
      obtain ⟨⟨rfl, hfar⟩, hrest⟩ := List.forall_mem_cons.mp hhead
      refine ⟨_, hfar, ?_⟩
      have hall : ∀ dims : List Dim, (∀ dim ∈ dims, dim = .head) →
          ∀ outer ∈ view.offsets dims, view.byteStride .head ∣ outer := by
        intro dims hdims
        induction dims with
        | nil =>
            intro outer houter
            rw [List.mem_singleton.mp houter]
            exact dvd_zero _
        | cons dim dims ih =>
            obtain ⟨rfl, hlater⟩ := List.forall_mem_cons.mp hdims
            intro outer houter
            simp only [offsets, List.mem_flatMap, List.mem_map] at houter
            obtain ⟨index, -, offset, hoffset, rfl⟩ := houter
            exact dvd_add (dvd_mul_left _ _) (ih hlater offset hoffset)
      apply hall
      exact List.forall_mem_cons.mpr
        ⟨rfl, fun dim hdim => (hrest dim hdim).1⟩

section Pages

variable {numBlocks : ℕ} (hblocks : 0 < numBlocks) (hratio : 0 < ratio)
  (hshape : view.shape .block = numBlocks * ratio)
  (hrun : KVBlockZeroer.layerSegments groupId view ratio = .ok segments)

include hblocks hratio hshape hrun

/-- The segments of a view taken apart at its kernel block cover its pages. -/
theorem PageByte.covered (hbyte : view.PageByte numBlocks blockId addr) :
    ∃ segment ∈ segments, segment.Writes blockId addr := by
  obtain ⟨kernelBlock, outer, inner, -, hblock, houter, hinner, haddr⟩ :=
    hbyte.split
  rw [hshape, Nat.mul_div_cancel_left _ hblocks] at hblock
  apply (segments_write hrun).mpr
  refine ⟨outer, houter, kernelBlock % ratio, Nat.mod_lt _ hratio, inner,
    hinner, ?_⟩
  rw [← hblock, Nat.mod_add_div']
  exact haddr

/-- The segments of a view stay out of the pages of other blocks. -/
theorem PageByte.confined {other : ℕ} (hspaced : 2 ≤ numBlocks → view.Spaced)
    (hblock : blockId < numBlocks)
    (hwrites : ∃ segment ∈ segments, segment.Writes blockId addr)
    (hbyte : view.PageByte numBlocks other addr) : blockId = other := by
  obtain ⟨kernelBlock, outer', inner', hlt', hother, houter', hinner',
    haddr'⟩ := hbyte.split
  rw [hshape, Nat.mul_div_cancel_left _ hblocks] at hother
  rw [hshape, Nat.mul_comm] at hlt'
  have hotherLt : other < numBlocks := by
    rw [← hother]
    exact Nat.div_lt_of_lt_mul hlt'
  by_cases htwo : 2 ≤ numBlocks
  · obtain ⟨outer, houter, virtualIndex, hvirtual, inner, hinner, haddr⟩ :=
      (segments_write hrun).mp hwrites
    have hspan := (hspaced htwo).span_le
    obtain ⟨run, hrun, hdvd⟩ := (hspaced htwo).outer_dvd
    obtain ⟨first, rfl⟩ := hdvd outer houter
    obtain ⟨second, rfl⟩ := hdvd outer' houter'
    have hkernel : virtualIndex + blockId * ratio < numBlocks * ratio := by
      calc virtualIndex + blockId * ratio < ratio + blockId * ratio :=
            Nat.add_lt_add_right hvirtual _
        _ = (blockId + 1) * ratio := by ring
        _ ≤ numBlocks * ratio := Nat.mul_le_mul_right _ hblock
    have hinside : ∀ {position offset : ℕ}, position < numBlocks * ratio →
        (offset : ℤ) < view.kernelPageBytes →
        offset < view.byteStride .block ∧
          position * view.byteStride .block + offset < run := by
      intro position offset hposition hoffset
      have hoffsetLt : offset < view.byteStride .block := by omega
      refine ⟨hoffsetLt, lt_of_lt_of_le ?_ hrun⟩
      rw [hshape]
      calc position * view.byteStride .block + offset
          < position * view.byteStride .block + view.byteStride .block :=
            Nat.add_lt_add_left hoffsetLt _
        _ = (position + 1) * view.byteStride .block := by ring
        _ ≤ numBlocks * ratio * view.byteStride .block :=
            Nat.mul_le_mul_right _ hposition
    obtain ⟨hoffset, hposition⟩ := hinside hkernel hinner
    obtain ⟨hoffset', hposition'⟩ := hinside (Nat.mul_comm _ _ ▸ hlt') hinner'
    have hsame : first * run +
        ((virtualIndex + blockId * ratio) * view.byteStride .block + inner) =
        second * run + (kernelBlock * view.byteStride .block + inner') := by
      rw [haddr] at haddr'
      linarith
    obtain ⟨-, hsame⟩ := mul_add_inj hposition hposition' hsame
    obtain ⟨hkernelEq, -⟩ := mul_add_inj hoffset hoffset' hsame
    rw [← hother, ← hkernelEq, Nat.add_mul_div_right _ _ hratio,
      Nat.div_eq_of_lt hvirtual, zero_add]
  · omega

end Pages

end Segments

end CacheView

namespace KVBlockZeroer

/-! ## A mix of layers -/

/-- The views of the layers were made by `create_kv_cache_views`, for placed
tensors and at the kernel block sizes of their groups. -/
def ViewsMade (raw : RawBuffer) (numBlocks : ℕ) (layout : KVCacheLayout)
    (context : Context) (attnGroups : List AttentionGroup) : Prop :=
  ∀ group kernelBs layerName view,
    IsZeroedLayer context attnGroups group kernelBs layerName view →
      group.kvCacheSpec.WellFormed ∧ kernelBs ∣ group.kvCacheSpec.blockSize ∧
        ∃ tensor views, tensor.Placed group.kvCacheSpec numBlocks layout ∧
          createKvCacheViews raw group.kvCacheSpec numBlocks layout tensor
            (some kernelBs) = .ok views ∧
          view ∈ views

/-- The bytes that the zeroer covers for a block on behalf of a layer. -/
def LayerWrites (group : AttentionGroup) (kernelBs : ℕ) (view : CacheView)
    (blockId addr : ℕ) : Prop :=
  ∃ segments, resolvedSegments group.kvCacheSpec group.kvCacheGroupId kernelBs
      view = .ok segments ∧
    ∃ segment ∈ segments, segment.Writes blockId addr

/-- The pages of the listed blocks are cleared in every layer, every byte that
changes is covered for some layer and listed block, and what is covered for a
layer and a block lies in no page of another block of the layer. -/
structure ZeroesPages (numBlocks : ℕ) (context : Context)
    (attnGroups : List AttentionGroup) (table : List Segment) : Prop where
  zeroed : ∀ group kernelBs layerName view,
    IsZeroedLayer context attnGroups group kernelBs layerName view →
      ∀ blockIds memory, ∀ blockId ∈ blockIds, ∀ addr,
        view.PageByte numBlocks blockId addr →
          zeroBlockIds table blockIds memory addr = 0
  written : ∀ blockIds memory addr,
    zeroBlockIds table blockIds memory addr ≠ memory addr →
      ∃ group kernelBs layerName view,
        IsZeroedLayer context attnGroups group kernelBs layerName view ∧
          ∃ blockId ∈ blockIds, LayerWrites group kernelBs view blockId addr
  confined : ∀ group kernelBs layerName view,
    IsZeroedLayer context attnGroups group kernelBs layerName view →
      ∀ blockId < numBlocks, ∀ other, other ≠ blockId → ∀ addr,
        LayerWrites group kernelBs view blockId addr →
          ¬view.PageByte numBlocks other addr

/-- One kernel block for the views, the builders and the zeroer of every
compressed layer, and pages zeroed exactly. -/
def SplitAndZeroed (numBlocks : ℕ) (context : Context)
    (attnGroups : List AttentionGroup) : Prop :=
  (∀ group kernelBs layerName view,
    IsZeroedLayer context attnGroups group kernelBs layerName view →
      ∀ tokens, group.kvCacheSpec.compression = some tokens →
        group.kvCacheSpec.SameKernelBlock tokens kernelBs) ∧
    ∀ table, init context attnGroups = .ok table →
      ZeroesPages numBlocks context attnGroups table

/-- Every compressed layer splits. -/
def AllSplit (context : Context) (attnGroups : List AttentionGroup) : Prop :=
  ∀ group kernelBs layerName view,
    IsZeroedLayer context attnGroups group kernelBs layerName view →
      ∀ tokens, group.kvCacheSpec.compression = some tokens →
        group.kvCacheSpec.Splits tokens kernelBs

section Mix

variable {raw : RawBuffer} {numBlocks kernelBs : ℕ} {layout : KVCacheLayout}
  {context : Context} {attnGroups : List AttentionGroup}
  {group : AttentionGroup} {layerName : String} {view : CacheView}
  {spec : KVCacheSpec} {tokens : ℕ}

theorem compression_divides (hwell : spec.WellFormed)
    (htokens : spec.compression = some tokens) : tokens ∣ spec.blockSize := by
  have hdivides := hwell.tokens_divide
  rw [(KVCacheSpec.compression_eq_some htokens).1] at hdivides
  exact hdivides.2

/-- The view and the zeroer take a layer apart alike. -/
theorem kernelBlock_eq (hsame : ∀ tokens, spec.compression = some tokens →
      spec.SameKernelBlock tokens kernelBs) :
    layerKernelBlockSize spec kernelBs = viewKernelBlockSize spec kernelBs := by
  cases htokens : spec.compression with
  | none =>
      rw [layerKernelBlockSize, viewKernelBlockSize, htokens]
  | some tokens =>
      obtain ⟨rows, -, hview, -, hzeroer⟩ := hsame tokens htokens
      rw [hview, hzeroer]

theorem kernelStates_pos (hwell : spec.WellFormed)
    (hsame : ∀ tokens, spec.compression = some tokens →
      spec.SameKernelBlock tokens kernelBs)
    (hpos : 0 < viewKernelBlockSize spec kernelBs) :
    0 < spec.getNumKernelStates (viewKernelBlockSize spec kernelBs) := by
  have hdivides := hwell.tokens_divide
  rw [KVCacheSpec.getNumKernelStates, if_pos hdivides.positive]
  cases hcompression : spec.compression with
  | some tokens =>
      obtain ⟨rows, -, hview, -, -⟩ := hsame tokens hcompression
      obtain ⟨hstate, hone⟩ := KVCacheSpec.compression_eq_some hcompression
      rw [hview] at hpos ⊢
      rw [hstate, TokensPerState.floorDiv, Int.toNat_natCast,
        Nat.mul_div_cancel _ (by omega)]
      exact Nat.pos_of_mul_pos_right hpos
  | none =>
      cases hstate : spec.tokensPerState with
      | int count =>
          rw [hstate] at hdivides
          rw [KVCacheSpec.compression, hstate] at hcompression
          have hone : count = 1 := by
            have hnot : ¬1 < count := fun hlt => by
              simp [hlt] at hcompression
            have hcount : 0 < count := hdivides.1
            omega
          rw [hone, TokensPerState.floorDiv]
          simpa using hpos
      | fraction share =>
          rw [hstate] at hdivides
          obtain ⟨hshare, hbelow⟩ := hdivides
          rw [TokensPerState.floorDiv, Nat.floor_pos]
          apply (one_le_div hshare).mpr
          exact hbelow.le.trans (Nat.one_le_cast.mpr hpos)

/-- A layer whose kernel blocks agree is made of the segments of its view. -/
theorem resolvedSegments_eq {shape : ShapeBytes} {tensor : KVCacheTensor}
    {blockStride : ℕ}
    (hmade : ViewMade spec numBlocks layout tensor
      (viewKernelBlockSize spec kernelBs) view shape blockStride)
    (hblock : 0 < spec.blockSize)
    (hsame : layerKernelBlockSize spec kernelBs =
      viewKernelBlockSize spec kernelBs) (groupId : ℕ) :
    0 < spec.blockSize / viewKernelBlockSize spec kernelBs ∧
      view.shape .block = numBlocks *
        (spec.blockSize / viewKernelBlockSize spec kernelBs) ∧
      resolvedSegments spec groupId kernelBs view =
        layerSegments groupId view
          (spec.blockSize / viewKernelBlockSize spec kernelBs) := by
  have hratio : 0 < spec.blockSize / viewKernelBlockSize spec kernelBs :=
    Nat.div_pos (Nat.le_of_dvd hblock hmade.kernel_dvd) hmade.kernel_pos
  have hshape : view.shape .block = numBlocks *
      (spec.blockSize / viewKernelBlockSize spec kernelBs) := by
    rw [hmade.bytes.block_shape, hmade.shape_eq]
  refine ⟨hratio, hshape, ?_⟩
  have hresolved : layerRatio (.tensor view)
      (spec.blockSize / viewKernelBlockSize spec kernelBs)
      (spec.blockSize / kernelBs) = .ok (some (view,
        spec.blockSize / viewKernelBlockSize spec kernelBs)) := by
    simp only [layerRatio, bind_eq_ok, require_eq_ok, pure_eq_ok]
    refine ⟨(), hratio.ne', if_pos ?_⟩
    rw [hshape, Nat.mul_mod_left]
  rw [resolvedSegments, hsame, hresolved]
  rfl

/-- What is known of a layer of the mix. -/
structure LayerFacts (numBlocks : ℕ) (group : AttentionGroup) (kernelBs : ℕ)
    (view : CacheView) (ratio : ℕ) : Prop where
  blocks_pos : 0 < numBlocks
  ratio_pos : 0 < ratio
  shape_eq : view.shape .block = numBlocks * ratio
  spaced : 2 ≤ numBlocks → view.Spaced
  segments_eq : resolvedSegments group.kvCacheSpec group.kvCacheGroupId
    kernelBs view = layerSegments group.kvCacheGroupId view ratio

theorem layerFacts
    (hmade : ViewsMade raw numBlocks layout context attnGroups)
    (hlayer : IsZeroedLayer context attnGroups group kernelBs layerName view)
    (hsame : ∀ tokens, group.kvCacheSpec.compression = some tokens →
      group.kvCacheSpec.SameKernelBlock tokens kernelBs) :
    ∃ ratio, LayerFacts numBlocks group kernelBs view ratio := by
  obtain ⟨hwell, -, tensor, views, hplaced, hviews, hmem⟩ :=
    hmade _ _ _ _ hlayer
  obtain ⟨shape, blockStride, hview⟩ := createKvCacheViews_ok hviews hmem
  obtain ⟨hratio, hshape, hsegments⟩ := resolvedSegments_eq hview
    hwell.block_pos (kernelBlock_eq hsame) group.kvCacheGroupId
  exact ⟨_, hview.blocks_pos, hratio, hshape, hview.spaced hwell hplaced
    (kernelStates_pos hwell hsame hview.kernel_pos), hsegments⟩

theorem zeroesPages_of_same
    (hmade : ViewsMade raw numBlocks layout context attnGroups)
    (hsame : ∀ group kernelBs layerName view,
      IsZeroedLayer context attnGroups group kernelBs layerName view →
        ∀ tokens, group.kvCacheSpec.compression = some tokens →
          group.kvCacheSpec.SameKernelBlock tokens kernelBs)
    {table : List Segment} (hinit : init context attnGroups = .ok table) :
    ZeroesPages numBlocks context attnGroups table := by
  constructor
  · intro group kernelBs layerName view hlayer blockIds memory blockId hblock
      addr hbyte
    obtain ⟨ratio, hfacts⟩ :=
      layerFacts hmade hlayer (hsame _ _ _ _ hlayer)
    obtain ⟨segments, hsegments⟩ := init_resolves hlayer hinit
    have hrun := hfacts.segments_eq.symm.trans hsegments
    obtain ⟨segment, hmem, hwrites⟩ := hbyte.covered hfacts.blocks_pos
      hfacts.ratio_pos hfacts.shape_eq hrun
    obtain ⟨seen, hseen, hcovers⟩ :=
      (init_registers hlayer hsegments hmem hinit).writes hwrites
    exact zeroBlockIds_writes hseen hblock hcovers
  · intro blockIds memory addr hchanged
    by_contra hnone
    apply hchanged
    apply zeroBlockIds_kept
    intro segment hsegment blockId hblock hwrites
    obtain ⟨group, kernelBs, layerName, view, segments, hlayer, hsegments,
      hmem⟩ := init_fromLayers hinit segment hsegment
    exact hnone ⟨group, kernelBs, layerName, view, hlayer, blockId, hblock,
      segments, hsegments, segment, hmem, hwrites⟩
  · intro group kernelBs layerName view hlayer blockId hblock other hother addr
      hwrites hbyte
    obtain ⟨ratio, hfacts⟩ :=
      layerFacts hmade hlayer (hsame _ _ _ _ hlayer)
    obtain ⟨segments, hsegments, hwrites⟩ := hwrites
    rw [hfacts.segments_eq] at hsegments
    exact hother (hbyte.confined hfacts.blocks_pos hfacts.ratio_pos
      hfacts.shape_eq hsegments hfacts.spaced hblock hwrites).symm

/-- Caches whose views were made by `create_kv_cache_views` are split and
zeroed consistently exactly when every compressed layer splits. -/
theorem splitAndZeroed_iff
    (hmade : ViewsMade raw numBlocks layout context attnGroups) :
    SplitAndZeroed numBlocks context attnGroups ↔
      AllSplit context attnGroups := by
  have hsplit : ∀ group kernelBs layerName view,
      IsZeroedLayer context attnGroups group kernelBs layerName view →
        ∀ tokens, group.kvCacheSpec.compression = some tokens →
          (group.kvCacheSpec.SameKernelBlock tokens kernelBs ↔
            group.kvCacheSpec.Splits tokens kernelBs) := by
    intro group kernelBs layerName view hlayer tokens htokens
    obtain ⟨hwell, hkernel, -⟩ := hmade _ _ _ _ hlayer
    exact KVCacheSpec.sameKernelBlock_iff htokens
      (compression_divides hwell htokens) hwell.block_pos hkernel
  constructor
  · rintro ⟨hsame, -⟩ group kernelBs layerName view hlayer tokens htokens
    exact (hsplit _ _ _ _ hlayer tokens htokens).mp
      (hsame _ _ _ _ hlayer tokens htokens)
  · intro hall
    have hsame : ∀ group kernelBs layerName view,
        IsZeroedLayer context attnGroups group kernelBs layerName view →
          ∀ tokens, group.kvCacheSpec.compression = some tokens →
            group.kvCacheSpec.SameKernelBlock tokens kernelBs :=
      fun _ _ _ _ hlayer tokens htokens =>
        (hsplit _ _ _ _ hlayer tokens htokens).mpr
          (hall _ _ _ _ hlayer tokens htokens)
    exact ⟨hsame, fun _ hinit => zeroesPages_of_same hmade hsame hinit⟩

end Mix

/-! ## A kpool indexer beside a plain MLA layer -/

def mlaSpec (blockSize content tokens : ℕ) : KVCacheSpec where
  kind := .mla
  blockSize := blockSize
  numHeads := 1
  tokensPerState := .int tokens
  stateContentSizeBytes := content
  pageSizePadded := none
  pageTailBytesPerToken := 0
  dtypeSize := some 1

/-- The region of one layer over `numBlocks` blocks. -/
def layerRegion (spec : KVCacheSpec) (numBlocks : ℕ) (layerName : String)
    (offset size : ℕ) : KVCacheTensor where
  size := size
  layers := [layerName]
  layerStride := numBlocks * spec.unpaddedPageSizeBytes
  blockStride := spec.unpaddedPageSizeBytes
  offset := offset

def boundView (raw : RawBuffer) (spec : KVCacheSpec) (numBlocks : ℕ)
    (tensor : KVCacheTensor) (kernelBs : ℕ) : CacheView :=
  match createKvCacheViews raw spec numBlocks .BLHNC tensor
      (some kernelBs) with
  | .ok [view] => view
  | _ => ⟨0, 0, 0, fun _ => 0, fun _ => 0⟩

def poolBuffer : RawBuffer := ⟨4096, 0, 1000000⟩

def latentTensor : KVCacheTensor :=
  layerRegion (mlaSpec 512 288 1) 3 "attn" 0 1000000

def indexerTensor : KVCacheTensor :=
  layerRegion (mlaSpec 512 132 4) 3 "indexer" 442368 1000000

def mixContext : Context where
  kernelBlockSizes := [64]
  staticForwardContext := fun layerName =>
    if layerName = "attn" then
      some (.tensor (boundView poolBuffer (mlaSpec 512 288 1) 3 latentTensor
        64))
    else if layerName = "indexer" then
      some (.tensor (boundView poolBuffer (mlaSpec 512 132 4) 3 indexerTensor
        64))
    else none
  runnerOnlyAttnLayers := []

def mixGroups : List AttentionGroup :=
  [⟨["attn"], mlaSpec 512 288 1, 0⟩, ⟨["indexer"], mlaSpec 512 132 4, 0⟩]

theorem layerRegion_placed {spec : KVCacheSpec} {numBlocks offset size : ℕ}
    {layerName : String} {layout : KVCacheLayout}
    (hpage : spec.pageSizeBytes = .ok spec.unpaddedPageSizeBytes) :
    (layerRegion spec numBlocks layerName offset size).Placed spec numBlocks
      layout :=
  .region _ hpage rfl rfl

theorem mlaSpec_wellFormed {blockSize content tokens : ℕ}
    (hblock : 0 < blockSize) (hcontent : 0 < content) (htokens : 0 < tokens)
    (hdvd : tokens ∣ blockSize) :
    (mlaSpec blockSize content tokens).WellFormed :=
  ⟨hblock, Nat.one_pos, hcontent, Int.natCast_pos.mpr htokens, hdvd⟩

theorem mix_viewsMade :
    ViewsMade poolBuffer 3 .BLHNC mixContext mixGroups := by
  intro group kernelBs layerName view hlayer
  obtain ⟨hgroup, -, hkernel, hname, -, hbound⟩ := hlayer
  rcases List.mem_cons.mp hgroup with rfl | hgroup
  · cases hkernel
    rw [List.mem_singleton.mp hname] at hbound
    cases hbound
    exact ⟨mlaSpec_wellFormed (by decide) (by decide) (by decide)
      (by decide), by decide, latentTensor, _, layerRegion_placed rfl, rfl,
      List.mem_singleton_self _⟩
  · rw [List.mem_singleton] at hgroup
    rw [hgroup] at hkernel hname ⊢
    cases hkernel
    rw [List.mem_singleton.mp hname] at hbound
    cases hbound
    exact ⟨mlaSpec_wellFormed (by decide) (by decide) (by decide)
      (by decide), by decide, indexerTensor, _, layerRegion_placed rfl, rfl,
      List.mem_singleton_self _⟩

theorem splitAndZeroed_mix :
    SplitAndZeroed 3 mixContext mixGroups ∧
      ∃ table, init mixContext mixGroups = .ok table ∧ table.length = 10 := by
  refine ⟨(splitAndZeroed_iff mix_viewsMade).mpr ?_, _, rfl, rfl⟩
  intro group kernelBs layerName view hlayer tokens htokens
  obtain ⟨hgroup, -, hkernel, -, -, -⟩ := hlayer
  rcases List.mem_cons.mp hgroup with rfl | hgroup
  · cases htokens
  · rw [List.mem_singleton] at hgroup
    rw [hgroup] at hkernel htokens ⊢
    cases hkernel
    cases htokens
    decide

/-! ## Sixteen rows a block -/

def narrowTensor : KVCacheTensor :=
  layerRegion (mlaSpec 256 132 16) 2 "indexer" 0 1000000

def narrowView : CacheView :=
  boundView poolBuffer (mlaSpec 256 132 16) 2 narrowTensor 64

def narrowContext : Context where
  kernelBlockSizes := [64]
  staticForwardContext := fun layerName =>
    if layerName = "indexer" then some (.tensor narrowView) else none
  runnerOnlyAttnLayers := []

def narrowGroups : List AttentionGroup :=
  [⟨["indexer"], mlaSpec 256 132 16, 0⟩]

theorem narrow_viewsMade :
    ViewsMade poolBuffer 2 .BLHNC narrowContext narrowGroups := by
  intro group kernelBs layerName view hlayer
  obtain ⟨hgroup, -, hkernel, hname, -, hbound⟩ := hlayer
  rw [List.mem_singleton.mp hgroup] at hkernel hname ⊢
  cases hkernel
  rw [List.mem_singleton.mp hname] at hbound
  cases hbound
  exact ⟨mlaSpec_wellFormed (by decide) (by decide) (by decide) (by decide),
    by decide, narrowTensor, _, layerRegion_placed rfl, rfl,
    List.mem_singleton_self _⟩

theorem narrow_layer : IsZeroedLayer narrowContext narrowGroups
    ⟨["indexer"], mlaSpec 256 132 16, 0⟩ 64 "indexer" narrowView :=
  ⟨List.mem_singleton_self _, rfl, rfl, List.mem_singleton_self _,
    List.not_mem_nil, rfl⟩

/-- The view has pages of 4 rows, the builder and the zeroer take 16: block 1
stays as it was, and a part of block 0 is cleared in its place. -/
theorem not_splitAndZeroed_narrow :
    ViewsMade poolBuffer 2 .BLHNC narrowContext narrowGroups ∧
      viewKernelBlockSize (mlaSpec 256 132 16) 64 = 4 * 16 ∧
      (AttentionGroup.mk ["indexer"] (mlaSpec 256 132 16) 0).builderBlockSize
        (some 64) = 16 * 16 ∧
      layerKernelBlockSize (mlaSpec 256 132 16) 64 = 16 * 16 ∧
      (∃ table, init narrowContext narrowGroups = .ok table ∧
        narrowView.PageByte 2 1 6208 ∧
        zeroBlockIds table [1] (fun _ => 1) 6208 = 1 ∧
        narrowView.PageByte 2 0 4624 ∧
        zeroBlockIds table [1] (fun _ => 1) 4624 = 0) ∧
      ¬SplitAndZeroed 2 narrowContext narrowGroups := by
  have hinit : init narrowContext narrowGroups =
      .ok [⟨0, 4096, 132, 132⟩] := rfl
  have hstale : narrowView.PageByte 2 1 6208 :=
    ⟨4, fun _ => 0, 0, by decide, rfl, by decide, by decide, rfl⟩
  have hkept : zeroBlockIds [⟨0, 4096, 132, 132⟩] [1] (fun _ => 1) 6208 =
      1 := by
    apply zeroBlockIds_kept
    intro segment hsegment blockId hblock hwrites
    rw [List.mem_singleton.mp hsegment, List.mem_singleton.mp hblock]
      at hwrites
    exact absurd hwrites.2 (by decide)
  have hcleared : zeroBlockIds [⟨0, 4096, 132, 132⟩] [1] (fun _ => 1) 4624 =
      0 :=
    zeroBlockIds_writes (List.mem_singleton_self _)
      (List.mem_singleton_self _) ⟨by decide, by decide⟩
  refine ⟨narrow_viewsMade, rfl, rfl, rfl, ⟨_, hinit, hstale, hkept, ?_,
    hcleared⟩, ?_⟩
  · exact ⟨1, fun _ => 0, 0, by decide, rfl, by decide, by decide, rfl⟩
  · rintro ⟨-, hpages⟩
    have hzeroed := (hpages _ hinit).zeroed _ _ _ _ narrow_layer [1]
      (fun _ => 1) 1 (List.mem_singleton_self _) 6208 hstale
    exact absurd (hkept.symm.trans hzeroed) (by decide)

end KVBlockZeroer

end GlmFlash.Worker
