import GlmFlash.Worker.SlotMappings

/-!
# Context parallelism

The ranks of a context parallel group share the tokens of a request: virtual blocks are
dealt to them in interleaved chunks.  Each rank writes its own tokens through its slot
mapping and reads as many cells as its local sequence length says.  Writer and reader agree:
the slots of the local tokens of a prefix are, in order, the first cells of the blocks.
-/

namespace GlmFlash.Worker.BlockTable

open GlmFlash.Library

/-- `get_dcp_local_seq_lens` for one rank; the subtraction clips at zero. -/
def getDcpLocalSeqLens (seqLen dcpSize dcpRank cpKvCacheInterleaveSize : ℕ) : ℕ :=
  let base := seqLen / cpKvCacheInterleaveSize / dcpSize * cpKvCacheInterleaveSize
  let remainder := seqLen - base * dcpSize
  base + min (remainder - dcpRank * cpKvCacheInterleaveSize) cpKvCacheInterleaveSize

theorem getDcpLocalSeqLens_eq (seqLen dcpSize dcpRank interleave : ℕ) :
    getDcpLocalSeqLens seqLen dcpSize dcpRank interleave =
      BlockCyclic.count interleave dcpSize dcpRank seqLen :=
  rfl

namespace SlotSizes

variable {sizes : SlotSizes}

/-- Chunks that fill blocks are dealt as if there were no virtual blocks. -/
theorem isLocal_iff (hshared : sizes.Shared) (hdvd : sizes.cpInterleave ∣ sizes.kvBlockSize)
    (position : ℕ) :
    sizes.IsLocal position ↔
      BlockCyclic.owner sizes.cpInterleave sizes.cpSize position = sizes.cpRank := by
  obtain ⟨chunks, hchunks⟩ := hdvd
  have howner : position % (sizes.kvBlockSize * sizes.cpSize) / sizes.cpInterleave %
      sizes.cpSize = position / sizes.cpInterleave % sizes.cpSize := by
    rw [hchunks, Nat.mul_assoc, Nat.mod_mul_right_div_self, Nat.mod_mul_left_mod]
  rw [IsLocal, imp_iff_right hshared, howner, BlockCyclic.owner]

theorem localPosition_eq (hshared : sizes.Shared)
    (hdvd : sizes.cpInterleave ∣ sizes.kvBlockSize) (position : ℕ) :
    sizes.localPosition position =
      BlockCyclic.place sizes.cpInterleave sizes.cpSize position := by
  obtain ⟨chunks, hchunks⟩ := hdvd
  have hvirtual : sizes.kvBlockSize * sizes.cpSize =
      sizes.cpInterleave * sizes.cpSize * chunks := by
    rw [hchunks, Nat.mul_right_comm]
  have hchunk : sizes.cpInterleave ∣ sizes.cpInterleave * sizes.cpSize * chunks := by
    rw [Nat.mul_assoc]
    exact Nat.dvd_mul_right _ _
  rw [localPosition, if_pos hshared, BlockCyclic.place]
  dsimp only
  rw [hvirtual, Nat.mod_mod_of_dvd _ hchunk, Nat.mod_mul_right_div_self,
    ← Nat.div_div_eq_div_mul position (sizes.cpInterleave * sizes.cpSize) chunks, hchunks,
    ← Nat.add_assoc, Nat.mul_comm sizes.cpInterleave chunks, ← Nat.mul_assoc, ← Nat.add_mul,
    Nat.div_add_mod']

/-- The cell of a block list that a rank reads for one of its tokens. -/
def cell (sizes : SlotSizes) (blocks : List ℤ) (index : ℕ) : ℤ :=
  blocks.getD (index / sizes.kvBlockSize) 0 * sizes.kvBlockSize +
    (index % sizes.kvBlockSize : ℕ)

/-- The slots that a rank writes for the tokens of a prefix, by the kernel blocks of its
request. -/
def writtenSlots (sizes : SlotSizes) (ratio : ℕ) (blocks : List ℤ) (seqLen : ℕ) : List ℤ :=
  ((List.range seqLen).filter fun position => decide (sizes.IsLocal position)).map
    (sizes.slotId (kernelIds ratio blocks).length fun col => (kernelIds ratio blocks).getD col 0)

section Prefixes

variable (hshared : sizes.Shared) (hinterleave : 0 < sizes.cpInterleave)
  (hblock : 0 < sizes.kvBlockSize) (hdvd : sizes.cpInterleave ∣ sizes.kvBlockSize)
  (hrank : sizes.cpRank < sizes.cpSize)
include hshared hinterleave hblock hdvd hrank

/-- A token of the prefix is written to the next cell of its rank. -/
theorem tokenSlot_eq_cell {blocks : List ℤ} {position : ℕ}
    (howner : BlockCyclic.owner sizes.cpInterleave sizes.cpSize position = sizes.cpRank)
    (hroom : BlockCyclic.count sizes.cpInterleave sizes.cpSize sizes.cpRank position <
      blocks.length * sizes.kvBlockSize) :
    sizes.tokenSlot blocks position =
      sizes.cell blocks
        (BlockCyclic.count sizes.cpInterleave sizes.cpSize sizes.cpRank position) := by
  have hsize : 0 < sizes.cpSize := Nat.zero_lt_of_lt hrank
  have hlocal := (isLocal_iff hshared hdvd position).mpr howner
  have hplace : sizes.localPosition position =
      BlockCyclic.count sizes.cpInterleave sizes.cpSize sizes.cpRank position := by
    rw [localPosition_eq hshared hdvd, ← howner,
      BlockCyclic.count_owner hinterleave hsize]
  rw [tokenSlot, hplace, if_pos ⟨hlocal, (Nat.div_lt_iff_lt_mul hblock).mpr hroom⟩, cell]

theorem tokenSlots_eq (blocks : List ℤ) {seqLen : ℕ}
    (hroom : getDcpLocalSeqLens seqLen sizes.cpSize sizes.cpRank sizes.cpInterleave ≤
      blocks.length * sizes.kvBlockSize) :
    ((List.range seqLen).filter fun position => decide (sizes.IsLocal position)).map
        (sizes.tokenSlot blocks) =
      (List.range (getDcpLocalSeqLens seqLen sizes.cpSize sizes.cpRank
        sizes.cpInterleave)).map (sizes.cell blocks) := by
  rw [getDcpLocalSeqLens_eq] at hroom ⊢
  induction seqLen with
  | zero => simp [BlockCyclic.count]
  | succ seqLen ih =>
      rw [BlockCyclic.count_succ hinterleave hrank] at hroom ⊢
      have hbefore := ih ((Nat.le_add_right _ _).trans hroom)
      rw [List.range_succ, List.filter_append, List.map_append, hbefore]
      by_cases howner :
          BlockCyclic.owner sizes.cpInterleave sizes.cpSize seqLen = sizes.cpRank
      · have hlocal := (isLocal_iff hshared hdvd seqLen).mpr howner
        rw [if_pos howner] at hroom ⊢
        rw [List.filter_singleton, decide_eq_true hlocal, List.range_succ, List.map_append,
          cond_true, List.map_singleton, List.map_singleton,
          tokenSlot_eq_cell hshared hinterleave hblock hdvd hrank howner hroom]
      · have hremote : ¬ sizes.IsLocal seqLen := fun hlocal =>
          howner ((isLocal_iff hshared hdvd seqLen).mp hlocal)
        rw [if_neg howner, List.filter_singleton, decide_eq_false hremote, cond_false,
          List.map_nil, List.append_nil, Nat.add_zero]

theorem writtenSlots_eq {ratio : ℕ} (hsizes : sizes.kvBlockSize = sizes.kernelBlockSize * ratio)
    {blocks : List ℤ} (hfits : sizes.Fits blocks) {seqLen : ℕ}
    (hroom : getDcpLocalSeqLens seqLen sizes.cpSize sizes.cpRank sizes.cpInterleave ≤
      blocks.length * sizes.kvBlockSize) :
    sizes.writtenSlots ratio blocks seqLen =
      (List.range (getDcpLocalSeqLens seqLen sizes.cpSize sizes.cpRank
        sizes.cpInterleave)).map (sizes.cell blocks) := by
  have hproduct : 0 < sizes.kernelBlockSize * ratio := hsizes ▸ hblock
  rw [← tokenSlots_eq hshared hinterleave hblock hdvd hrank blocks hroom, writtenSlots]
  refine List.map_congr_left fun position _ => ?_
  exact slotId_eq_tokenSlot (Nat.pos_of_mul_pos_left hproduct)
    (Nat.pos_of_mul_pos_right hproduct) hsizes hfits rfl (fun _ _ => rfl) position

end Prefixes

end SlotSizes

/-- What the ranks write is what they read.  Every position lies on exactly one rank, the
local lengths of a prefix add up to it, and the slots that the kernel of a rank writes for a
prefix are the cells that its local length tells it to read, in the same order. -/
theorem context_parallel_exact {sizes : SlotSizes} {ratio : ℕ} (hshared : sizes.Shared)
    (hinterleave : 0 < sizes.cpInterleave) (hblock : 0 < sizes.kvBlockSize)
    (hsizes : sizes.kvBlockSize = sizes.kernelBlockSize * ratio)
    (hdvd : sizes.cpInterleave ∣ sizes.kvBlockSize) (hrank : sizes.cpRank < sizes.cpSize) :
    (∀ position, ∃! rank, rank < sizes.cpSize ∧
      ({ sizes with cpRank := rank } : SlotSizes).IsLocal position) ∧
    (∀ seqLen, ∑ rank ∈ Finset.range sizes.cpSize,
      getDcpLocalSeqLens seqLen sizes.cpSize rank sizes.cpInterleave = seqLen) ∧
    ∀ (blocks : List ℤ) (seqLen : ℕ), sizes.Fits blocks →
      getDcpLocalSeqLens seqLen sizes.cpSize sizes.cpRank sizes.cpInterleave ≤
          blocks.length * sizes.kvBlockSize →
        sizes.writtenSlots ratio blocks seqLen =
          (List.range (getDcpLocalSeqLens seqLen sizes.cpSize sizes.cpRank
            sizes.cpInterleave)).map (sizes.cell blocks) := by
  have hsize : 0 < sizes.cpSize := Nat.zero_lt_of_lt hrank
  refine ⟨fun position => ?_, fun seqLen => ?_, fun blocks seqLen hfits hroom => ?_⟩
  · refine ⟨BlockCyclic.owner sizes.cpInterleave sizes.cpSize position,
      ⟨BlockCyclic.owner_lt hsize position, ?_⟩, ?_⟩
    · exact (@SlotSizes.isLocal_iff
        { sizes with cpRank := BlockCyclic.owner sizes.cpInterleave sizes.cpSize position }
        hshared hdvd position).mpr rfl
    · rintro rank ⟨-, hlocal⟩
      exact ((@SlotSizes.isLocal_iff { sizes with cpRank := rank } hshared hdvd
        position).mp hlocal).symm
  · exact BlockCyclic.sum_count hinterleave hsize seqLen
  · exact SlotSizes.writtenSlots_eq hshared hinterleave hblock hdvd hrank hsizes hfits hroom

/-- Two ranks, blocks of four tokens and chunks of two. -/
def secondOfTwo : SlotSizes where
  kvBlockSize := 4
  kernelBlockSize := 2
  groupCpSize := 2
  cpSize := 2
  cpRank := 1
  cpInterleave := 2

theorem context_parallel_exact_two :
    (∀ position, ∃! rank, rank < 2 ∧
      ({ secondOfTwo with cpRank := rank } : SlotSizes).IsLocal position) ∧
    (∀ seqLen, ∑ rank ∈ Finset.range 2, getDcpLocalSeqLens seqLen 2 rank 2 = seqLen) ∧
    secondOfTwo.writtenSlots 2 [7, 3] 13 = (List.range 6).map (secondOfTwo.cell [7, 3]) := by
  have hfits : secondOfTwo.Fits [7, 3] := by
    rw [SlotSizes.Fits]
    decide
  have hexact := @context_parallel_exact secondOfTwo 2 (by decide) (by decide) (by decide) rfl
    (by decide) (by decide)
  exact ⟨hexact.1, hexact.2.1, hexact.2.2 [7, 3] 13 hfits (by decide)⟩

/-! ## The other slot kernels -/

namespace SlotSizes

/-- `ComputeSlotMappingKernel.kernel` for one token: the kernel of the other runner, which
does not look at the number of blocks. -/
def hybridSlot (sizes : SlotSizes) (blocksPerKvBlock : ℕ) (row : ℕ → ℤ) (pos : ℕ) : ℤ :=
  let virtualBlockSize := sizes.kvBlockSize * sizes.cpSize
  let virtualBlockIndices := pos / virtualBlockSize
  let virtualBlockOffsets := pos - virtualBlockIndices * virtualBlockSize
  let isLocal := decide
    (virtualBlockOffsets / sizes.cpInterleave % sizes.cpSize = sizes.cpRank)
  let localBlockOffsets :=
    virtualBlockOffsets / (sizes.cpSize * sizes.cpInterleave) * sizes.cpInterleave +
      virtualBlockOffsets % sizes.cpInterleave
  let blockIndices :=
    virtualBlockIndices * blocksPerKvBlock + localBlockOffsets / sizes.kernelBlockSize
  let blockNumbers := if isLocal then row blockIndices else 0
  let slotOffsets := localBlockOffsets % sizes.kernelBlockSize
  let slotIds := blockNumbers * sizes.kernelBlockSize + slotOffsets
  if isLocal then slotIds else padSlotId

/-- `_compressed_slot_mapping_kernel` for one token: only the last token of each group of
`compressRatio` has a slot, and its table is not cut into kernel blocks. -/
def compressedSlot (sizes : SlotSizes) (compressRatio : ℕ) (row : ℕ → ℤ) (pos : ℕ) : ℤ :=
  let isValid := decide ((pos + 1) % compressRatio = 0)
  let posAfterCompress := pos / compressRatio
  if sizes.cpSize = 1 then
    let blockIds := posAfterCompress / sizes.kvBlockSize
    let blockOffsets := posAfterCompress % sizes.kvBlockSize
    if isValid then row blockIds * sizes.kvBlockSize + blockOffsets else padSlotId
  else
    let virtualBlockSize := sizes.kvBlockSize * sizes.cpSize
    let blockIds := posAfterCompress / virtualBlockSize
    let virtualBlockOffsets := posAfterCompress - blockIds * virtualBlockSize
    let isLocal := decide
      (virtualBlockOffsets / sizes.cpInterleave % sizes.cpSize = sizes.cpRank)
    let blockOffsets :=
      virtualBlockOffsets / (sizes.cpSize * sizes.cpInterleave) * sizes.cpInterleave +
        virtualBlockOffsets % sizes.cpInterleave
    if isValid && isLocal then row blockIds * sizes.kvBlockSize + blockOffsets else padSlotId

variable {sizes : SlotSizes}

theorem shared_iff (hgroup : sizes.groupCpSize = sizes.cpSize) :
    sizes.Shared ↔ sizes.cpSize ≠ 1 := by
  rw [Shared, hgroup, or_self_iff]

theorem offset_eq (pos size : ℕ) : pos - pos / size * size = pos % size := by
  have hsplit := Nat.div_add_mod' pos size
  omega

/-- The offset of a token in the virtual block, among those of its rank. -/
def localOffset (sizes : SlotSizes) (position : ℕ) : ℕ :=
  position % (sizes.kvBlockSize * sizes.cpSize) / (sizes.cpSize * sizes.cpInterleave) *
      sizes.cpInterleave +
    position % (sizes.kvBlockSize * sizes.cpSize) % sizes.cpInterleave

/-- Without sharing, the formulas for sharing among one rank hold. -/
theorem localPosition_eq_offset (hgroup : sizes.groupCpSize = sizes.cpSize) (position : ℕ) :
    sizes.localPosition position =
      position / (sizes.kvBlockSize * sizes.cpSize) * sizes.kvBlockSize +
        sizes.localOffset position := by
  rw [localPosition, localOffset]
  by_cases hone : sizes.cpSize = 1
  · rw [if_neg fun hshared => (shared_iff hgroup).mp hshared hone, hone, Nat.mul_one, Nat.one_mul,
      Nat.div_add_mod', Nat.div_add_mod']
  · rw [if_pos ((shared_iff hgroup).mpr hone), Nat.mul_comm sizes.cpInterleave]

theorem isLocal_iff_offset (hgroup : sizes.groupCpSize = sizes.cpSize)
    (hrank : sizes.cpRank < sizes.cpSize) (position : ℕ) :
    sizes.IsLocal position ↔
      position % (sizes.kvBlockSize * sizes.cpSize) / sizes.cpInterleave % sizes.cpSize =
        sizes.cpRank := by
  rw [IsLocal]
  by_cases hone : sizes.cpSize = 1
  · refine iff_of_true (fun hshared => absurd hone ((shared_iff hgroup).mp hshared)) ?_
    rw [hone, Nat.mod_one]
    omega
  · exact imp_iff_right ((shared_iff hgroup).mpr hone)

/-- The kernel of the other runner gives a token of a held block the same slot. -/
theorem hybridSlot_eq_slotId {ratio : ℕ} (hkernel : 0 < sizes.kernelBlockSize)
    (hsizes : sizes.kvBlockSize = sizes.kernelBlockSize * ratio)
    (hgroup : sizes.groupCpSize = sizes.cpSize) (hrank : sizes.cpRank < sizes.cpSize)
    {numBlocks position : ℕ}
    (hheld : sizes.localPosition position / sizes.kernelBlockSize < numBlocks) {row : ℕ → ℤ}
    (hfits : sizes.RowFits numBlocks row) :
    sizes.hybridSlot ratio row position = sizes.slotId numBlocks row position := by
  have hlocal := isLocal_iff_offset hgroup hrank position
  have hposition := localPosition_eq_offset hgroup position
  have hindex : sizes.localPosition position / sizes.kernelBlockSize =
      position / (sizes.kvBlockSize * sizes.cpSize) * ratio +
        sizes.localOffset position / sizes.kernelBlockSize := by
    rw [hposition, hsizes, Nat.mul_left_comm, Nat.mul_add_div hkernel]
  have hoffset : sizes.localPosition position % sizes.kernelBlockSize =
      sizes.localOffset position % sizes.kernelBlockSize := by
    rw [hposition, hsizes, Nat.mul_left_comm, Nat.mul_add_mod]
  rw [slotId, if_pos hheld, hybridSlot, offset_eq]
  by_cases hhere : sizes.IsLocal position
  · rw [decide_eq_true (hlocal.mp hhere), if_pos rfl, if_pos rfl, if_pos hhere,
      if_pos ⟨hhere, hheld⟩, int32Product_row hfits hheld, hindex, hoffset]
    rfl
  · rw [decide_eq_false (hlocal.not.mp hhere), if_neg Bool.false_ne_true, if_neg hhere]

theorem localOffset_lt (hinterleave : 0 < sizes.cpInterleave) (hblock : 0 < sizes.kvBlockSize)
    (hsize : 0 < sizes.cpSize) (hdvd : sizes.cpInterleave ∣ sizes.kvBlockSize)
    (position : ℕ) : sizes.localOffset position < sizes.kvBlockSize := by
  obtain ⟨chunks, hchunks⟩ := hdvd
  have hbound : position % (sizes.kvBlockSize * sizes.cpSize) /
      (sizes.cpSize * sizes.cpInterleave) < chunks := by
    rw [Nat.div_lt_iff_lt_mul (Nat.mul_pos hsize hinterleave)]
    calc position % (sizes.kvBlockSize * sizes.cpSize)
        < sizes.kvBlockSize * sizes.cpSize := Nat.mod_lt _ (Nat.mul_pos hblock hsize)
      _ = chunks * (sizes.cpSize * sizes.cpInterleave) := by rw [hchunks]; ring
  have hlow := Nat.mod_lt (position % (sizes.kvBlockSize * sizes.cpSize)) hinterleave
  calc sizes.localOffset position
      < chunks * sizes.cpInterleave + 0 :=
        (BlockCyclic.digits_lt_digits hlow hinterleave).mpr (Or.inl hbound)
    _ = sizes.kvBlockSize := by rw [Nat.add_zero, hchunks, Nat.mul_comm]

/-- The compressed kernel gives a group of tokens the slot of its place in the cache. -/
theorem compressedSlot_eq_slotId (hinterleave : 0 < sizes.cpInterleave)
    (hblock : 0 < sizes.kvBlockSize) (hdvd : sizes.cpInterleave ∣ sizes.kvBlockSize)
    (hwhole : sizes.kernelBlockSize = sizes.kvBlockSize)
    (hgroup : sizes.groupCpSize = sizes.cpSize) (hrank : sizes.cpRank < sizes.cpSize)
    {compressRatio numBlocks position : ℕ} (hlast : (position + 1) % compressRatio = 0)
    (hheld : sizes.localPosition (position / compressRatio) / sizes.kvBlockSize < numBlocks)
    {row : ℕ → ℤ} (hfits : sizes.RowFits numBlocks row) :
    sizes.compressedSlot compressRatio row position =
      sizes.slotId numBlocks row (position / compressRatio) := by
  have hsize : 0 < sizes.cpSize := Nat.zero_lt_of_lt hrank
  have hproduct := int32Product_row hfits hheld
  rw [hwhole] at hproduct
  rw [compressedSlot, slotId, hwhole, if_pos hheld, decide_eq_true hlast]
  generalize position / compressRatio = place at hheld hproduct ⊢
  have hlocal := isLocal_iff_offset hgroup hrank place
  have hlow := localOffset_lt hinterleave hblock hsize hdvd place
  have hposition := localPosition_eq_offset hgroup place
  by_cases hone : sizes.cpSize = 1
  · have hplain : sizes.localPosition place = place :=
      if_neg fun hshared => (shared_iff hgroup).mp hshared hone
    have hhere : sizes.IsLocal place := fun hshared =>
      absurd hone ((shared_iff hgroup).mp hshared)
    rw [hplain] at hheld hproduct ⊢
    rw [if_pos hone, if_pos rfl, if_pos hhere, if_pos ⟨hhere, hheld⟩, hproduct]
  · rw [if_neg hone]
    dsimp only
    rw [offset_eq]
    by_cases hhere : sizes.IsLocal place
    · rw [decide_eq_true (hlocal.mp hhere), Bool.and_self, if_pos rfl, if_pos hhere,
        if_pos ⟨hhere, hheld⟩, hproduct, hposition, BlockCyclic.div_of_digits hlow,
        BlockCyclic.mod_of_digits hlow]
      rfl
    · rw [decide_eq_false (hlocal.not.mp hhere), Bool.and_false, if_neg Bool.false_ne_true,
        if_neg hhere]

end SlotSizes

/-- The kernel of the other runner and the compressed kernel give every token of a held
block the slot that the kernel of this runner gives it, where the group is shared among all
ranks and its slots have 32 bits. -/
theorem slot_kernels_agree {sizes : SlotSizes} {ratio : ℕ}
    (hsizes : sizes.kvBlockSize = sizes.kernelBlockSize * ratio)
    (hblock : 0 < sizes.kvBlockSize) (hinterleave : 0 < sizes.cpInterleave)
    (hdvd : sizes.cpInterleave ∣ sizes.kvBlockSize)
    (hgroup : sizes.groupCpSize = sizes.cpSize) (hrank : sizes.cpRank < sizes.cpSize)
    (row : ℕ → ℤ) (numBlocks position : ℕ) :
    (sizes.RowFits numBlocks row →
      sizes.localPosition position / sizes.kernelBlockSize < numBlocks →
        sizes.hybridSlot ratio row position = sizes.slotId numBlocks row position) ∧
    ∀ compressRatio,
      ((position + 1) % compressRatio ≠ 0 →
        sizes.compressedSlot compressRatio row position = padSlotId) ∧
      ((position + 1) % compressRatio = 0 →
        ({ sizes with kernelBlockSize := sizes.kvBlockSize } : SlotSizes).RowFits numBlocks row →
        sizes.localPosition (position / compressRatio) / sizes.kvBlockSize < numBlocks →
          sizes.compressedSlot compressRatio row position =
            ({ sizes with kernelBlockSize := sizes.kvBlockSize } : SlotSizes).slotId numBlocks
              row (position / compressRatio)) := by
  have hkernel : 0 < sizes.kernelBlockSize := by
    rw [hsizes] at hblock
    exact Nat.pos_of_mul_pos_right hblock
  refine ⟨fun hfits hheld => SlotSizes.hybridSlot_eq_slotId hkernel hsizes hgroup hrank hheld hfits,
    fun compressRatio => ⟨fun hinner => ?_, fun hlast hfits hheld => ?_⟩⟩
  · rw [SlotSizes.compressedSlot, decide_eq_false hinner]
    split <;> rfl
  · exact @SlotSizes.compressedSlot_eq_slotId
      { sizes with kernelBlockSize := sizes.kvBlockSize } hinterleave hblock hdvd rfl hgroup
      hrank _ _ _ hlast hheld row hfits

/-- Position 14 is a token of the second rank in the fourth kernel block of its row. -/
theorem slot_kernels_agree_two :
    secondOfTwo.hybridSlot 2 (fun col => col + 5) 14 =
        secondOfTwo.slotId 4 (fun col => col + 5) 14 ∧
      secondOfTwo.compressedSlot 3 (fun col => col + 5) 13 = padSlotId ∧
      secondOfTwo.compressedSlot 3 (fun col => col + 5) 8 =
        ({ secondOfTwo with kernelBlockSize := 4 } : SlotSizes).slotId 4
          (fun col => col + 5) 2 := by
  have hfits : ∀ kernelBlockSize : ℕ, kernelBlockSize ≤ 4 → ∀ col : ℕ, col < 4 →
      (0 : ℤ) ≤ col + 5 ∧ ((col : ℤ) + 5) * (kernelBlockSize : ℤ) < 2 ^ 31 := by decide
  have hlast := @slot_kernels_agree secondOfTwo 2 rfl (by decide) (by decide) (by decide) rfl
    (by decide) (fun col => col + 5) 4
  exact ⟨(hlast 14).1 (hfits 2 (by decide)) (by decide), ((hlast 13).2 3).1 (by decide),
    ((hlast 8).2 3).2 (by decide) (hfits 4 le_rfl) (by decide)⟩

end GlmFlash.Worker.BlockTable
