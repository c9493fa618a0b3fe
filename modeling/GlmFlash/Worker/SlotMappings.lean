import GlmFlash.Library.BlockCyclic
import GlmFlash.Worker.BlockTableSteps
import Mathlib.Tactic.Ring

/-!
# What the kernels read off the block tables

Behind a step two kernels read the tables.  One copies the rows of a batch, so that row
`b` of the input holds the kernel blocks of request `b` and zeros behind them.  The other
gives every token the slot at which its rank stores it: the position inside the block that
the request holds there, whatever the size of the kernel blocks.
-/

namespace GlmFlash.Worker.BlockTable

open GlmFlash.Library

/-! ## Launches over the groups -/

/-- What each program establishes on the tensor of its group holds after the launch. -/
theorem Schedule.launchGroups_establishes (schedule : Schedule) (kernel : BlockKernel)
    {groups size : ℕ} {program : ℕ → ℕ → Tensor → Tensor} {done : ℕ → ℕ → Tensor → Prop}
    (hown : ∀ group < groups, ∀ index < size, ∀ tensor,
      done group index (program group index tensor))
    (hother : ∀ group < groups, ∀ index < size, ∀ other < size, other ≠ index → ∀ tensor,
      done group other tensor → done group other (program group index tensor))
    (tensors : ℕ → Tensor) {group index : ℕ} (hgroup : group < groups) (hindex : index < size) :
    done group index (schedule.launchGroups kernel groups size program tensors group) := by
  have hsize : 0 < size := Nat.zero_lt_of_lt hindex
  have hpid : ∀ pid < groups * size, pid / size < groups ∧ pid % size < size := fun pid hlt =>
    ⟨Nat.div_lt_of_lt_mul (by rwa [Nat.mul_comm]), Nat.mod_lt pid hsize⟩
  have hcell : group * size + index < groups * size := by
    calc group * size + index < (group + 1) * size := by
          rw [Nat.succ_mul]
          exact Nat.add_lt_add_left hindex _
      _ ≤ groups * size := Nat.mul_le_mul_right size hgroup
  have hdone := @Schedule.launch_establishes schedule kernel (groups * size)
    (group * size + index) (ℕ → Tensor)
    (fun pid tensors => Function.update tensors (pid / size)
      (program (pid / size) (pid % size) (tensors (pid / size))))
    (fun _ _ => True) (fun pid tensors => done (pid / size) (pid % size) (tensors (pid / size)))
    tensors (fun _ _ _ _ _ _ _ => trivial) ?_ ?_ (fun _ _ => trivial) hcell
  · rwa [BlockCyclic.div_of_digits hindex, BlockCyclic.mod_of_digits hindex] at hdone
  · intro pid hlt other hlt' hne state hstate
    by_cases hsame : other / size = pid / size
    · rw [hsame, Function.update_self]
      rw [hsame] at hstate
      refine hother _ (hpid pid hlt).1 _ (hpid pid hlt).2 _ (hpid other hlt').2 ?_ _ hstate
      intro hmod
      apply hne
      rw [← Nat.div_add_mod other size, ← Nat.div_add_mod pid size, hsame, hmod]
    · rw [Function.update_of_ne hsame]
      exact hstate
  · intro pid hlt state _
    rw [Function.update_self]
    exact hown _ (hpid pid hlt).1 _ (hpid pid hlt).2 _

/-! ## Gathered rows -/

section Gather

variable {idxMapping : List ℕ} {numReqs stride : ℕ} {numBlocks : ℕ → ℕ} {source : Tensor}

/-- A row of the batch: the blocks of its request and zeros behind them. -/
def gatheredRow (idxMapping : List ℕ) (numReqs stride : ℕ) (numBlocks : ℕ → ℕ)
    (source : Tensor) (batchIdx col : ℕ) : ℤ :=
  if batchIdx < numReqs ∧ col < numBlocks (idxMapping.getD batchIdx 0) then
    rowOf source stride (idxMapping.getD batchIdx 0) col
  else 0

theorem rowOf_gatherBlockTablesKernel {batchIdx row col : ℕ} (tensor : Tensor)
    (hbound : batchIdx < numReqs → numBlocks (idxMapping.getD batchIdx 0) ≤ stride)
    (hcol : col < stride) :
    rowOf (gatherBlockTablesKernel idxMapping numReqs stride numBlocks source batchIdx tensor)
        stride row col =
      if row = batchIdx then gatheredRow idxMapping numReqs stride numBlocks source batchIdx col
      else rowOf tensor stride row col := by
  have hrow : ∀ {offset : ℕ}, batchIdx * stride ≤ row * stride + col →
      row * stride + col < batchIdx * stride + offset → offset ≤ stride → row = batchIdx := by
    intro offset hle hlt hoffset
    obtain ⟨lane, hlane⟩ := Nat.exists_eq_add_of_le hle
    exact (row_eq_of_cell hcol (by omega) hlane).1
  rw [rowOf, gatherBlockTablesKernel]
  by_cases hpadded : numReqs ≤ batchIdx
  · have hzero : gatheredRow idxMapping numReqs stride numBlocks source batchIdx col = 0 :=
      if_neg fun hlive => Nat.not_lt.mpr hpadded hlive.1
    rw [if_pos hpadded, storeLanes_segment (Nat.succ_pos _), hzero]
    by_cases hsame : row = batchIdx
    · subst hsame
      rw [if_pos rfl, if_pos ⟨Nat.le_add_right _ _, Nat.add_lt_add_left hcol _⟩]
    · rw [if_neg hsame, if_neg fun hcell => hsame (hrow hcell.1 hcell.2 le_rfl), rowOf]
  · rw [Nat.not_le] at hpadded
    have hblocks := hbound hpadded
    have haddr : (fun offset => ((batchIdx * stride +
        (numBlocks (idxMapping.getD batchIdx 0) + offset) : ℕ) : ℤ)) = fun offset =>
          ((batchIdx * stride + numBlocks (idxMapping.getD batchIdx 0) + offset : ℕ) : ℤ) := by
      funext offset
      rw [Nat.add_assoc]
    rw [if_neg (Nat.not_le.mpr hpadded), haddr, storeLanes_segment (Nat.succ_pos _),
      storeLanes_segment (Nat.succ_pos _), gatheredRow]
    generalize numBlocks (idxMapping.getD batchIdx 0) = blocks at *
    by_cases hsame : row = batchIdx
    · subst hsame
      rw [if_pos rfl, Nat.add_sub_cancel_left]
      by_cases hlive : col < blocks
      · rw [if_neg (by omega), if_pos (by omega), if_pos ⟨hpadded, hlive⟩, rowOf]
      · rw [if_pos (by omega), if_neg fun hboth => hlive hboth.2]
    · rw [if_neg hsame, if_neg fun hcell => hsame (hrow (by omega) (by omega) le_rfl),
        if_neg fun hcell => hsame (hrow hcell.1 hcell.2 hblocks), rowOf]

end Gather

theorem gatherBlockTables_rows (schedule : Schedule) {tables : BlockTables}
    {idxMapping : List ℕ} {numReqsPadded : ℕ}
    (hbound : ∀ group < tables.numKvCacheGroups, ∀ batchIdx < idxMapping.length,
      tables.numBlocksGpu group (idxMapping.getD batchIdx 0) ≤ tables.width group)
    {group batchIdx col : ℕ} (hgroup : group < tables.numKvCacheGroups)
    (hbatch : batchIdx < numReqsPadded) (hcol : col < tables.width group) :
    rowOf ((tables.gatherBlockTables schedule idxMapping numReqsPadded).inputBlockTables group)
        (tables.width group) batchIdx col =
      gatheredRow idxMapping idxMapping.length (tables.width group) (tables.numBlocksGpu group)
        (gpuOf tables.blockTables group) batchIdx col := by
  have hlaunch := @Schedule.launchGroups_establishes schedule .gatherBlockTables
    tables.numKvCacheGroups numReqsPadded
    (fun group => gatherBlockTablesKernel idxMapping idxMapping.length (tables.width group)
      (tables.numBlocksGpu group) (gpuOf tables.blockTables group))
    (fun group batchIdx tensor => ∀ col < tables.width group,
      rowOf tensor (tables.width group) batchIdx col =
        gatheredRow idxMapping idxMapping.length (tables.width group)
          (tables.numBlocksGpu group) (gpuOf tables.blockTables group) batchIdx col)
    ?_ ?_ tables.inputBlockTables group batchIdx hgroup hbatch
  · exact hlaunch col hcol
  · intro group hgroup batchIdx _ tensor col hcol
    rw [rowOf_gatherBlockTablesKernel tensor (hbound group hgroup batchIdx) hcol, if_pos rfl]
  · intro group hgroup batchIdx _ other _ hne tensor hother col hcol
    rw [rowOf_gatherBlockTablesKernel tensor (hbound group hgroup batchIdx) hcol, if_neg hne,
      hother col hcol]

/-! ## Slots -/

section Slots

variable {sizes : SlotSizes} {numReqs maxNumTokens stride : ℕ}
  {idxMapping queryStartLoc pos : List ℕ} {numBlocks : ℕ → ℕ} {table : Tensor}

/-- Where the tokens of a program end; the last program fills the buffer. -/
def segmentStop (numReqs maxNumTokens : ℕ) (queryStartLoc : List ℕ) (batchIdx : ℕ) : ℕ :=
  if batchIdx = numReqs then maxNumTokens else queryStartLoc.getD (batchIdx + 1) 0

/-- What a program stores for a token. -/
def storedSlot (sizes : SlotSizes) (numReqs stride : ℕ) (idxMapping pos : List ℕ)
    (numBlocks : ℕ → ℕ) (table : Tensor) (batchIdx token : ℕ) : ℤ :=
  if batchIdx = numReqs then padSlotId
  else
    sizes.slotId (numBlocks (idxMapping.getD batchIdx 0))
      (rowOf table stride (idxMapping.getD batchIdx 0)) (pos.getD token 0)

theorem computeSlotMappingsKernel_apply (batchIdx token : ℕ) (slots : Tensor) :
    computeSlotMappingsKernel sizes numReqs maxNumTokens idxMapping queryStartLoc pos stride
        numBlocks table batchIdx slots token =
      if queryStartLoc.getD batchIdx 0 ≤ token ∧
          token < segmentStop numReqs maxNumTokens queryStartLoc batchIdx then
        storedSlot sizes numReqs stride idxMapping pos numBlocks table batchIdx token
      else slots token := by
  have hsegment : ∀ start stop : ℕ,
      (start ≤ token ∧ token < start + (stop - start)) ↔ start ≤ token ∧ token < stop := by
    intro start stop
    omega
  rw [computeSlotMappingsKernel, segmentStop, storedSlot]
  by_cases hlast : batchIdx = numReqs
  · rw [if_pos hlast, if_pos hlast, if_pos hlast, storeLanes_segment (Nat.succ_pos _)]
    simp only [hsegment]
  · rw [if_neg hlast, if_neg hlast, if_neg hlast, storeLanes_segment (Nat.succ_pos _)]
    simp only [hsegment]
    by_cases htoken : queryStartLoc.getD batchIdx 0 ≤ token ∧
        token < queryStartLoc.getD (batchIdx + 1) 0
    · rw [if_pos htoken, if_pos htoken, Nat.add_sub_cancel' htoken.1]
      rfl
    · rw [if_neg htoken, if_neg htoken]

end Slots

section Launch

variable {tables : BlockTables} {idxMapping queryStartLoc positions : List ℕ}
  (hsorted : ∀ earlier later, earlier ≤ later → later ≤ idxMapping.length →
    queryStartLoc.getD earlier 0 ≤ queryStartLoc.getD later 0)
include hsorted

/-- A token belongs to one program. -/
theorem eq_of_segment {maxNumTokens batchIdx other token : ℕ}
    (hbatch : batchIdx ≤ idxMapping.length) (hother : other ≤ idxMapping.length)
    (htoken : queryStartLoc.getD batchIdx 0 ≤ token ∧
      token < segmentStop idxMapping.length maxNumTokens queryStartLoc batchIdx)
    (htoken' : queryStartLoc.getD other 0 ≤ token ∧
      token < segmentStop idxMapping.length maxNumTokens queryStartLoc other) :
    other = batchIdx := by
  have hbelow : ∀ {first second}, first < second → second ≤ idxMapping.length →
      segmentStop idxMapping.length maxNumTokens queryStartLoc first ≤
        queryStartLoc.getD second 0 := by
    intro first second hlt hle
    rw [segmentStop, if_neg (hlt.trans_le hle).ne]
    exact hsorted (first + 1) second hlt hle
  rcases Nat.lt_trichotomy other batchIdx with hlt | heq | hgt
  · exact absurd (htoken'.2.trans_le (hbelow hlt hbatch)) (Nat.not_lt.mpr htoken.1)
  · exact heq
  · exact absurd (htoken.2.trans_le (hbelow hgt hother)) (Nat.not_lt.mpr htoken'.1)

theorem computeSlotMappings_slots (schedule : Schedule) {group batchIdx token : ℕ}
    (hgroup : group < tables.numKvCacheGroups) (hbatch : batchIdx ≤ idxMapping.length)
    (htoken : queryStartLoc.getD batchIdx 0 ≤ token ∧
      token < segmentStop idxMapping.length tables.maxNumBatchedTokens queryStartLoc batchIdx) :
    (tables.computeSlotMappings schedule idxMapping queryStartLoc positions).slotMappings group
        token =
      storedSlot (tables.slotSizes group) idxMapping.length (tables.width group) idxMapping
        positions (tables.numBlocksGpu group) (gpuOf tables.blockTables group) batchIdx
        token := by
  have hlaunch := @Schedule.launchGroups_establishes schedule .computeSlotMappings
    tables.numKvCacheGroups (idxMapping.length + 1)
    (fun group => computeSlotMappingsKernel (tables.slotSizes group) idxMapping.length
      tables.maxNumBatchedTokens idxMapping queryStartLoc positions (tables.width group)
      (tables.numBlocksGpu group) (gpuOf tables.blockTables group))
    (fun group batchIdx slots => ∀ token : ℕ, (queryStartLoc.getD batchIdx 0 ≤ token ∧
      token < segmentStop idxMapping.length tables.maxNumBatchedTokens queryStartLoc batchIdx) →
        slots token = storedSlot (tables.slotSizes group) idxMapping.length (tables.width group)
          idxMapping positions (tables.numBlocksGpu group) (gpuOf tables.blockTables group)
          batchIdx token)
    ?_ ?_ tables.slotMappings group batchIdx hgroup (Nat.lt_succ_of_le hbatch)
  · exact hlaunch token htoken
  · intro group _ batchIdx _ slots token htoken
    rw [computeSlotMappingsKernel_apply, if_pos htoken]
  · intro group _ batchIdx hbatch other hother hne slots hslots token htoken
    rw [computeSlotMappingsKernel_apply, if_neg fun hboth => hne (eq_of_segment hsorted
      (Nat.le_of_lt_succ hbatch) (Nat.le_of_lt_succ hother) hboth htoken), hslots token htoken]

end Launch

/-! ## Blocks behind kernel blocks -/

/-- The kernel blocks of one block. -/
def kernelParts (blocksPerKvBlock : ℕ) (block : ℤ) : List ℤ :=
  (List.range blocksPerKvBlock).map fun part : ℕ => block * blocksPerKvBlock + part

theorem length_kernelParts (ratio : ℕ) (block : ℤ) : (kernelParts ratio block).length = ratio := by
  rw [kernelParts, List.length_map, List.length_range]

section KernelIds

variable {ratio : ℕ} (hratio : 0 < ratio) (ids : List ℤ)
include hratio

theorem kernelIds_eq_flatMap : kernelIds ratio ids = ids.flatMap (kernelParts ratio) := by
  rw [kernelIds]
  split
  · rfl
  · have hone : ratio = 1 := by omega
    subst hone
    induction ids with
    | nil => rfl
    | cons block ids ih =>
        rw [List.flatMap_cons, ← ih]
        simp [kernelParts]

theorem length_kernelIds : (kernelIds ratio ids).length = ids.length * ratio := by
  rw [kernelIds_eq_flatMap hratio, length_flatMap_pieces (length_kernelParts ratio)]

theorem getD_kernelIds {index : ℕ} (hindex : index / ratio < ids.length) :
    (kernelIds ratio ids).getD index 0 =
      ids.getD (index / ratio) 0 * ratio + (index % ratio : ℕ) := by
  rw [kernelIds_eq_flatMap hratio,
    getD_flatMap_pieces (length_kernelParts ratio) _ _ _ hratio,
    List.getElem?_eq_getElem hindex, Option.map_some, Option.getD_some,
    List.getD_eq_getElem _ _ hindex, kernelParts,
    List.getD_eq_getElem _ _ (by simpa using Nat.mod_lt index hratio), List.getElem_map,
    List.getElem_range]

end KernelIds

/-! ## Products of 32 bits -/

theorem int32Product_eq {left right : ℤ} (hlow : 0 ≤ left * right)
    (hhigh : left * right < 2 ^ 31) : int32Product left right = left * right :=
  Int.bmod_eq_of_le (by omega) (by omega)

/-- The ids of the blocks and the slots in them have 32 bits. -/
def SlotSizes.Fits (sizes : SlotSizes) (blocks : List ℤ) : Prop :=
  ∀ block ∈ blocks, 0 ≤ block ∧ (block + 1) * sizes.kvBlockSize ≤ 2 ^ 31

/-- The ids of a row and the slots in its kernel blocks have 32 bits. -/
def SlotSizes.RowFits (sizes : SlotSizes) (numBlocks : ℕ) (row : ℕ → ℤ) : Prop :=
  ∀ col < numBlocks, 0 ≤ row col ∧ row col * sizes.kernelBlockSize < 2 ^ 31

namespace SlotSizes

variable {sizes : SlotSizes} {numBlocks : ℕ} {row : ℕ → ℤ}

theorem int32Product_row (hfits : sizes.RowFits numBlocks row) {col : ℕ}
    (hcol : col < numBlocks) :
    int32Product (row col) sizes.kernelBlockSize = row col * sizes.kernelBlockSize :=
  int32Product_eq (Int.mul_nonneg (hfits col hcol).1 (Int.natCast_nonneg _)) (hfits col hcol).2

/-- Kernel blocks of blocks that fit. -/
theorem Fits.rowFits {ratio : ℕ} (hratio : 0 < ratio)
    (hsizes : sizes.kvBlockSize = sizes.kernelBlockSize * ratio) {blocks : List ℤ}
    (hfits : sizes.Fits blocks) (hkernel : 0 < sizes.kernelBlockSize)
    (hnumBlocks : numBlocks = (kernelIds ratio blocks).length)
    (hrow : ∀ col < numBlocks, row col = (kernelIds ratio blocks).getD col 0) :
    sizes.RowFits numBlocks row := by
  intro col hcol
  have hheld : col / ratio < blocks.length := by
    rwa [hnumBlocks, length_kernelIds hratio, ← Nat.div_lt_iff_lt_mul hratio] at hcol
  obtain ⟨hblock, hroom⟩ := hfits _ (List.getElem_mem hheld)
  have hpart : ((col % ratio : ℕ) : ℤ) + 1 ≤ ratio :=
    Int.ofNat_le.mpr (Nat.mod_lt col hratio)
  have hkernel' : (0 : ℤ) < sizes.kernelBlockSize := Int.natCast_pos.mpr hkernel
  rw [hrow col hcol, getD_kernelIds hratio blocks hheld, List.getD_eq_getElem _ _ hheld]
  refine ⟨Int.add_nonneg (Int.mul_nonneg hblock (Int.natCast_nonneg _))
    (Int.natCast_nonneg _), ?_⟩
  calc (blocks[col / ratio] * ratio + (col % ratio : ℕ)) * sizes.kernelBlockSize
      < (blocks[col / ratio] * ratio + ratio) * sizes.kernelBlockSize :=
        mul_lt_mul_of_pos_right (by omega) hkernel'
    _ = (blocks[col / ratio] + 1) * sizes.kvBlockSize := by
        rw [hsizes]
        push_cast
        ring
    _ ≤ 2 ^ 31 := hroom

/-- A slot depends on the kernel blocks that are held. -/
theorem slotId_congr {row' : ℕ → ℤ} (hrow : ∀ col < numBlocks, row col = row' col)
    (position : ℕ) :
    sizes.slotId numBlocks row position = sizes.slotId numBlocks row' position := by
  rw [slotId, slotId]
  by_cases hvalid : sizes.localPosition position / sizes.kernelBlockSize < numBlocks
  · rw [hrow _ hvalid]
  · rw [if_neg hvalid, if_neg hvalid]

end SlotSizes

/-- The slot of a position in the blocks of its request. -/
def SlotSizes.tokenSlot (sizes : SlotSizes) (blocks : List ℤ) (position : ℕ) : ℤ :=
  let localPosition := sizes.localPosition position
  if sizes.IsLocal position ∧ localPosition / sizes.kvBlockSize < blocks.length then
    blocks.getD (localPosition / sizes.kvBlockSize) 0 * sizes.kvBlockSize +
      (localPosition % sizes.kvBlockSize : ℕ)
  else padSlotId

/-- Kernel blocks leave the slots where the blocks put them. -/
theorem slotId_eq_tokenSlot {sizes : SlotSizes} {ratio : ℕ} (hratio : 0 < ratio)
    (hkernel : 0 < sizes.kernelBlockSize)
    (hsizes : sizes.kvBlockSize = sizes.kernelBlockSize * ratio) {blocks : List ℤ}
    (hfits : sizes.Fits blocks) {numBlocks : ℕ}
    (hnumBlocks : numBlocks = (kernelIds ratio blocks).length)
    {row : ℕ → ℤ} (hrow : ∀ col < numBlocks, row col = (kernelIds ratio blocks).getD col 0)
    (position : ℕ) :
    sizes.slotId numBlocks row position = sizes.tokenSlot blocks position := by
  have hproduct := @SlotSizes.int32Product_row sizes numBlocks row
    (hfits.rowFits hratio hsizes hkernel hnumBlocks hrow)
  rw [SlotSizes.slotId, SlotSizes.tokenSlot]
  generalize sizes.localPosition position = index
  have hdiv : index / sizes.kernelBlockSize / ratio = index / sizes.kvBlockSize := by
    rw [Nat.div_div_eq_div_mul, hsizes]
  have hblock : index / sizes.kernelBlockSize < numBlocks ↔
      index / sizes.kvBlockSize < blocks.length := by
    rw [hnumBlocks, length_kernelIds hratio, ← hdiv, Nat.div_lt_iff_lt_mul hratio]
  by_cases hvalid : index / sizes.kernelBlockSize < numBlocks
  · by_cases hlocal : sizes.IsLocal position
    · have hheld := hblock.mp hvalid
      rw [if_pos hvalid, if_pos hlocal, if_pos ⟨hlocal, hvalid⟩, if_pos ⟨hlocal, hheld⟩,
        hproduct hvalid, hrow _ hvalid, getD_kernelIds hratio blocks (hdiv ▸ hheld), hdiv, hsizes,
        Nat.mod_mul]
      push_cast
      ring
    · rw [if_pos hvalid, if_neg hlocal, if_neg fun hboth => hlocal hboth.1]
  · rw [if_neg hvalid, if_neg fun hboth => hvalid (hblock.mpr hboth.2)]

end GlmFlash.Worker.BlockTable
