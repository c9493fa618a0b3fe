import GlmFlash.Worker.ViewGeometry

/-!
# What the zeroer clears

The kernel clears exactly what the segments of its table cover for the listed
blocks, and the table covers what the segments of the layers cover.  When a
layer is taken apart at the kernel block of its view, its segments cover the
page of each listed block and stay out of the pages of other blocks.
-/

namespace GlmFlash.Worker

open GlmFlash.Library

/-! ## The kernel -/

/-- The byte is one that the segment covers for the block. -/
def Segment.Writes (segment : Segment) (blockId addr : ℕ) : Prop :=
  segment.addr + 4 * (blockId * segment.blockStride) ≤ addr ∧
    (addr : ℤ) < segment.addr + 4 * (blockId * segment.blockStride : ℕ) +
      4 * segment.pageSize

namespace KVBlockZeroer

theorem blkSize_pos (maxPageSize : ℤ) : 0 < blkSize maxPageSize := by
  rw [blkSize, lt_min_iff]
  exact ⟨Nat.two_pow_pos _, by decide⟩

/-- A program stores within its segment. -/
theorem writes_of_programWords {segment : Segment}
    {blockId chunkIndex blkSize addr : ℕ}
    (hin : InWords (programWords segment blockId chunkIndex blkSize) addr) :
    segment.Writes blockId addr := by
  obtain ⟨word, hword, hlow, hhigh⟩ := hin
  simp only [programWords] at hword
  split at hword
  · cases hword
  · simp only [List.mem_map, List.mem_filter, List.mem_range,
      decide_eq_true_eq] at hword
    obtain ⟨col, ⟨-, hcol⟩, rfl⟩ := hword
    constructor
    · omega
    · push_cast at hcol ⊢
      omega

/-- The programs of a segment cover it. -/
theorem programWords_of_writes {segment : Segment}
    {blockId maxChunks blkSize addr : ℕ} (hblk : 0 < blkSize)
    (hchunks : segment.pageSize ≤ (maxChunks * blkSize : ℕ))
    (hwrites : segment.Writes blockId addr) :
    ∃ chunkIndex < maxChunks,
      InWords (programWords segment blockId chunkIndex blkSize) addr := by
  obtain ⟨hlow, hhigh⟩ := hwrites
  have hsplit : ∃ index rest,
      addr = segment.addr + 4 * (blockId * segment.blockStride) +
        (4 * index + rest) ∧ rest < 4 := by
    refine ⟨(addr - (segment.addr + 4 * (blockId * segment.blockStride))) / 4,
      (addr - (segment.addr + 4 * (blockId * segment.blockStride))) % 4, ?_,
      Nat.mod_lt _ (by decide)⟩
    omega
  obtain ⟨index, rest, haddr, hrest⟩ := hsplit
  have hindex : (index : ℤ) < segment.pageSize := by
    rw [haddr] at hhigh
    push_cast at hhigh
    omega
  have hdecompose : index / blkSize * blkSize + index % blkSize = index :=
    Nat.div_add_mod' index blkSize
  refine ⟨index / blkSize, ?_, ?_⟩
  · apply (Nat.div_lt_iff_lt_mul hblk).mpr
    omega
  · refine ⟨segment.addr + 4 * (blockId * segment.blockStride + index), ?_,
      by omega, by omega⟩
    simp only [programWords]
    rw [if_neg (by omega)]
    simp only [List.mem_map, List.mem_filter, List.mem_range,
      decide_eq_true_eq]
    refine ⟨index % blkSize, ⟨Nat.mod_lt _ hblk, ?_⟩, ?_⟩
    · rw [hdecompose]
      exact hindex
    · rw [hdecompose]

variable {table : List Segment} {blockIds : List ℕ} {memory : ℕ → ℕ}
  {addr : ℕ}

theorem max_covered {maxPageSize : ℤ}
    (hmax : (table.map Segment.pageSize).max? = some maxPageSize)
    {segment : Segment} (hmem : segment ∈ table) :
    segment.pageSize ≤
      ((((maxPageSize + blkSize maxPageSize - 1) /
        blkSize maxPageSize).toNat * blkSize maxPageSize : ℕ) : ℤ) := by
  have hle : segment.pageSize ≤ maxPageSize :=
    (List.max?_eq_some_iff.mp hmax).2 _ (List.mem_map_of_mem hmem)
  have hblk : (0 : ℤ) < blkSize maxPageSize :=
    Int.natCast_pos.mpr (blkSize_pos maxPageSize)
  have hdiv := Int.lt_ediv_add_one_mul_self
    (maxPageSize + blkSize maxPageSize - 1) hblk
  have hnat := Int.self_le_toNat
    ((maxPageSize + blkSize maxPageSize - 1) / blkSize maxPageSize)
  have hmul := mul_le_mul_of_nonneg_right hnat hblk.le
  push_cast
  linarith

/-- A byte that a segment covers for a listed block is cleared. -/
theorem zeroBlockIds_writes {segment : Segment} {blockId : ℕ}
    (hmem : segment ∈ table) (hblock : blockId ∈ blockIds)
    (hwrites : segment.Writes blockId addr) :
    zeroBlockIds table blockIds memory addr = 0 := by
  rw [zeroBlockIds, if_neg (List.ne_nil_of_mem hblock)]
  cases hmax : (table.map Segment.pageSize).max? with
  | none =>
      rw [List.max?_eq_none_iff, List.map_eq_nil_iff] at hmax
      rw [hmax] at hmem
      cases hmem
  | some maxPageSize =>
      obtain ⟨chunkIndex, hchunk, word, hword, hbyte⟩ :=
        programWords_of_writes (blkSize_pos maxPageSize)
          (max_covered hmax hmem) hwrites
      apply fillWords_inWords
      refine ⟨word, ?_, hbyte⟩
      simp only [List.mem_flatMap, List.mem_range]
      exact ⟨blockId, hblock, segment, hmem, chunkIndex, hchunk, hword⟩

/-- Every other byte is kept. -/
theorem zeroBlockIds_kept
    (hkept : ∀ segment ∈ table, ∀ blockId ∈ blockIds,
      ¬segment.Writes blockId addr) :
    zeroBlockIds table blockIds memory addr = memory addr := by
  rw [zeroBlockIds]
  split
  · rfl
  · cases (table.map Segment.pageSize).max? with
    | none => rfl
    | some maxPageSize =>
        apply fillWords_of_not_inWords
        rintro ⟨word, hword, hbyte⟩
        simp only [List.mem_flatMap, List.mem_range] at hword
        obtain ⟨blockId, hblock, segment, hmem, chunkIndex, -, hword⟩ := hword
        exact hkept segment hmem blockId hblock
          (writes_of_programWords ⟨word, hword, hbyte⟩)

/-! ## The table -/

/-- An entry of the table covers the segment. -/
def Registered (segment : Segment) (table : List Segment) : Prop :=
  ∃ seen ∈ table, seen.addr = segment.addr ∧ seen.groupId = segment.groupId ∧
    seen.blockStride = segment.blockStride ∧ segment.pageSize ≤ seen.pageSize

theorem Registered.writes {segment : Segment} {blockId : ℕ}
    (hregistered : Registered segment table)
    (hwrites : segment.Writes blockId addr) :
    ∃ seen ∈ table, seen.Writes blockId addr := by
  obtain ⟨seen, hmem, haddr, -, hstride, hpage⟩ := hregistered
  refine ⟨seen, hmem, ?_⟩
  rw [Segment.Writes, haddr, hstride]
  exact ⟨hwrites.1, by linarith [hwrites.2]⟩

section Additions

variable {table' : List Segment} {segment : Segment}

theorem addSegment_registers
    (hrun : addSegment table segment = .ok table') :
    Registered segment table' := by
  induction table generalizing table' with
  | nil =>
      cases hrun
      exact ⟨segment, List.mem_singleton_self _, rfl, rfl, rfl, le_rfl⟩
  | cons seen rest ih =>
      rw [addSegment] at hrun
      split at hrun
      · rename_i hsame
        simp only [bind_eq_ok, require_eq_ok, pure_eq_ok] at hrun
        obtain ⟨-, hstride, rfl⟩ := hrun
        exact ⟨_, List.mem_cons_self, hsame.2, hsame.1, hstride,
          le_max_right _ _⟩
      · simp only [bind_eq_ok, pure_eq_ok] at hrun
        obtain ⟨rest', hrest, rfl⟩ := hrun
        obtain ⟨entry, hmem, hcovers⟩ := ih hrest
        exact ⟨entry, List.mem_cons_of_mem seen hmem, hcovers⟩

theorem addSegment_keeps {other : Segment}
    (hrun : addSegment table segment = .ok table')
    (hregistered : Registered other table) : Registered other table' := by
  induction table generalizing table' with
  | nil =>
      obtain ⟨seen, hmem, -⟩ := hregistered
      cases hmem
  | cons seen rest ih =>
      obtain ⟨entry, hmem, haddr, hgroup, hstride, hpage⟩ := hregistered
      rw [addSegment] at hrun
      split at hrun
      · simp only [bind_eq_ok, pure_eq_ok] at hrun
        obtain ⟨-, -, rfl⟩ := hrun
        rcases List.mem_cons.mp hmem with rfl | hlater
        · exact ⟨_, List.mem_cons_self, haddr, hgroup, hstride,
            hpage.trans (le_max_left _ _)⟩
        · exact ⟨entry, List.mem_cons_of_mem _ hlater, haddr, hgroup, hstride,
            hpage⟩
      · simp only [bind_eq_ok, pure_eq_ok] at hrun
        obtain ⟨rest', hrest, rfl⟩ := hrun
        rcases List.mem_cons.mp hmem with rfl | hlater
        · exact ⟨entry, List.mem_cons_self, haddr, hgroup, hstride, hpage⟩
        · obtain ⟨entry', hmem', hcovers⟩ :=
            ih hrest ⟨entry, hlater, haddr, hgroup, hstride, hpage⟩
          exact ⟨entry', List.mem_cons_of_mem seen hmem', hcovers⟩

/-- A widened entry is the old one or the new segment. -/
theorem addSegment_forall {source : Segment → Prop}
    (hrun : addSegment table segment = .ok table')
    (htable : ∀ seen ∈ table, source seen) (hsegment : source segment) :
    ∀ seen ∈ table', source seen := by
  induction table generalizing table' with
  | nil =>
      cases hrun
      intro seen hmem
      exact List.mem_singleton.mp hmem ▸ hsegment
  | cons first rest ih =>
      obtain ⟨hfirst, hrest⟩ := List.forall_mem_cons.mp htable
      rw [addSegment] at hrun
      split at hrun
      · rename_i hsame
        simp only [bind_eq_ok, require_eq_ok, pure_eq_ok] at hrun
        obtain ⟨-, hstride, rfl⟩ := hrun
        refine List.forall_mem_cons.mpr ⟨?_, hrest⟩
        rcases le_total first.pageSize segment.pageSize with hle | hle
        · rw [max_eq_right hle, hsame.1, hsame.2, hstride]
          exact hsegment
        · rw [max_eq_left hle]
          exact hfirst
      · simp only [bind_eq_ok, pure_eq_ok] at hrun
        obtain ⟨rest', hlater, rfl⟩ := hrun
        exact List.forall_mem_cons.mpr ⟨hfirst, ih hlater hrest⟩

end Additions

/-! ## The layers of the table -/

/-- The segments of a layer with a bound view; none if it is skipped. -/
def resolvedSegments (spec : KVCacheSpec) (groupId kernelBs : ℕ)
    (view : CacheView) : Except Failure (List Segment) := do
  let resolved ← layerRatio (.tensor view)
    (spec.blockSize / layerKernelBlockSize spec kernelBs)
    (spec.blockSize / kernelBs)
  match resolved with
  | none => return []
  | some (view, ratio) => layerSegments groupId view ratio

/-- A layer that the constructor turns into segments. -/
structure IsZeroedLayer (context : Context)
    (attnGroups : List AttentionGroup) (group : AttentionGroup)
    (kernelBs : ℕ) (layerName : String) (view : CacheView) : Prop where
  group_mem : group ∈ attnGroups
  attention : group.kvCacheSpec.isAttentionSpec = true
  kernel_eq : context.kernelBlockSizes[group.kvCacheGroupId]? = some kernelBs
  layer_mem : layerName ∈ group.layerNames
  kept : layerName ∉ context.runnerOnlyAttnLayers
  bound : context.staticForwardContext layerName = some (.tensor view)

section Layers

variable {context : Context} {attnGroups : List AttentionGroup}
  {group : AttentionGroup} {groupId kernelBs : ℕ} {spec : KVCacheSpec}
  {layerName : String} {view : CacheView} {table' : List Segment}

/-- A layer either leaves the table or adds the segments of its view. -/
theorem addLayer_cases
    (hrun : addLayer context groupId kernelBs spec table layerName =
      .ok table') :
    (table' = table ∧ ∀ view,
        context.staticForwardContext layerName = some (.tensor view) →
          layerName ∈ context.runnerOnlyAttnLayers ∨
            resolvedSegments spec groupId kernelBs view = .ok []) ∨
      ∃ view segments,
        context.staticForwardContext layerName = some (.tensor view) ∧
        layerName ∉ context.runnerOnlyAttnLayers ∧
        resolvedSegments spec groupId kernelBs view = .ok segments ∧
        segments.foldlM addSegment table = .ok table' := by
  simp only [addLayer, bind_eq_ok] at hrun
  obtain ⟨-, -, -, -, hrun⟩ := hrun
  split at hrun
  · rename_i hunbound
    rw [pure_eq_ok] at hrun
    refine .inl ⟨hrun.symm, fun view hview => ?_⟩
    rw [hunbound] at hview
    cases hview
  · rename_i bound hbound
    rw [bind_eq_ok] at hrun
    obtain ⟨resolved, hresolved, hrun⟩ := hrun
    split at hrun
    · rw [pure_eq_ok] at hrun
      refine .inl ⟨hrun.symm, fun view hview => .inr ?_⟩
      rw [hbound] at hview
      cases hview
      rw [resolvedSegments, hresolved]
      rfl
    · rename_i view ratio
      split at hrun
      · rename_i hrunner
        rw [pure_eq_ok] at hrun
        exact .inl ⟨hrun.symm, fun _ _ => .inl hrunner⟩
      · rename_i hkept
        rw [bind_eq_ok] at hrun
        obtain ⟨segments, hsegments, hfold⟩ := hrun
        cases bound with
        | other =>
            rw [layerRatio] at hresolved
            split at hresolved <;> cases hresolved
        | tensor source =>
            refine .inr ⟨source, segments, hbound, hkept, ?_, hfold⟩
            rw [resolvedSegments, hresolved]
            exact hsegments

theorem addLayer_keeps {other : Segment}
    (hrun : addLayer context groupId kernelBs spec table layerName =
      .ok table')
    (hregistered : Registered other table) : Registered other table' := by
  rcases addLayer_cases hrun with ⟨rfl, -⟩ | ⟨_, segments, -, -, -, hfold⟩
  · exact hregistered
  · exact foldlM_invariant
      (fun _ _ _ _ hstep hbefore => addSegment_keeps hstep hbefore) hfold
      hregistered

theorem addLayer_registers {segments : List Segment} {segment : Segment}
    (hbound : context.staticForwardContext layerName = some (.tensor view))
    (hkept : layerName ∉ context.runnerOnlyAttnLayers)
    (hsegments : resolvedSegments spec groupId kernelBs view = .ok segments)
    (hmem : segment ∈ segments)
    (hrun : addLayer context groupId kernelBs spec table layerName =
      .ok table') : Registered segment table' := by
  rcases addLayer_cases hrun with ⟨-, hskipped⟩ |
    ⟨source, others, hsource, -, hothers, hfold⟩
  · have hempty := (hskipped view hbound).resolve_left hkept
    rw [Except.ok.inj (hsegments.symm.trans hempty)] at hmem
    cases hmem
  · rw [hbound] at hsource
    cases hsource
    cases Except.ok.inj (hsegments.symm.trans hothers)
    exact foldlM_establishes hmem
      (fun _ _ hstep => addSegment_registers hstep)
      (fun _ _ _ _ hstep hbefore => addSegment_keeps hstep hbefore) hfold

theorem addGroup_keeps {other : Segment}
    (hrun : addGroup context table group = .ok table')
    (hregistered : Registered other table) : Registered other table' := by
  rw [addGroup] at hrun
  split at hrun
  · exact Except.ok.inj hrun ▸ hregistered
  · split at hrun
    · exact Except.ok.inj hrun ▸ hregistered
    · simp only [bind_eq_ok] at hrun
      obtain ⟨-, -, -, -, hfold⟩ := hrun
      exact foldlM_invariant
        (fun _ _ _ _ hstep hbefore => addLayer_keeps hstep hbefore) hfold
        hregistered

section Registered

variable {segments : List Segment} {segment : Segment}
  (hlayer : IsZeroedLayer context attnGroups group kernelBs layerName view)
  (hsegments : resolvedSegments group.kvCacheSpec group.kvCacheGroupId
    kernelBs view = .ok segments)
  (hmem : segment ∈ segments)
include hlayer hsegments hmem

theorem addGroup_registers (hrun : addGroup context table group = .ok table') :
    Registered segment table' := by
  rw [addGroup, if_neg (by rw [hlayer.attention]; decide),
    hlayer.kernel_eq] at hrun
  simp only [bind_eq_ok] at hrun
  obtain ⟨-, -, -, -, hfold⟩ := hrun
  exact foldlM_establishes hlayer.layer_mem
    (fun _ _ hstep => addLayer_registers hlayer.bound hlayer.kept hsegments
      hmem hstep)
    (fun _ _ _ _ hstep hbefore => addLayer_keeps hstep hbefore) hfold

/-- The table covers the segments of every layer. -/
theorem init_registers (hrun : init context attnGroups = .ok table) :
    Registered segment table :=
  foldlM_establishes hlayer.group_mem
    (fun _ _ hstep => addGroup_registers hlayer hsegments hmem hstep)
    (fun _ _ _ _ hstep hbefore => addGroup_keeps hstep hbefore) hrun

end Registered

theorem addLayer_resolves
    (hbound : context.staticForwardContext layerName = some (.tensor view))
    (hkept : layerName ∉ context.runnerOnlyAttnLayers)
    (hrun : addLayer context groupId kernelBs spec table layerName =
      .ok table') :
    ∃ segments, resolvedSegments spec groupId kernelBs view =
      .ok segments := by
  rcases addLayer_cases hrun with ⟨-, hskipped⟩ |
    ⟨source, segments, hsource, -, hsegments, -⟩
  · exact ⟨[], (hskipped view hbound).resolve_left hkept⟩
  · rw [hbound] at hsource
    cases hsource
    exact ⟨segments, hsegments⟩

/-- A table exists only if every layer has its segments. -/
theorem init_resolves
    (hlayer : IsZeroedLayer context attnGroups group kernelBs layerName view)
    (hrun : init context attnGroups = .ok table) :
    ∃ segments, resolvedSegments group.kvCacheSpec group.kvCacheGroupId
      kernelBs view = .ok segments := by
  have hgroup : ∀ before after, addGroup context before group = .ok after →
      ∃ segments, resolvedSegments group.kvCacheSpec group.kvCacheGroupId
        kernelBs view = .ok segments := by
    intro before after hstep
    rw [addGroup, if_neg (by rw [hlayer.attention]; decide),
      hlayer.kernel_eq] at hstep
    simp only [bind_eq_ok] at hstep
    obtain ⟨-, -, -, -, hfold⟩ := hstep
    exact @foldlM_establishes _ _ _ _ (fun _ => _) _ _ hlayer.layer_mem
      (fun _ _ hadd => addLayer_resolves hlayer.bound hlayer.kept hadd)
      (fun _ _ _ _ _ hresolved => hresolved) _ _ hfold
  exact @foldlM_establishes _ _ _ _ (fun _ => _) _ _ hlayer.group_mem hgroup
    (fun _ _ _ _ _ hresolved => hresolved) _ _ hrun

/-- Some layer has the segment. -/
def FromLayer (context : Context) (attnGroups : List AttentionGroup)
    (segment : Segment) : Prop :=
  ∃ group kernelBs layerName view segments,
    IsZeroedLayer context attnGroups group kernelBs layerName view ∧
      resolvedSegments group.kvCacheSpec group.kvCacheGroupId kernelBs view =
        .ok segments ∧ segment ∈ segments

def AllFromLayers (context : Context) (attnGroups : List AttentionGroup)
    (table : List Segment) : Prop :=
  ∀ segment ∈ table, FromLayer context attnGroups segment

theorem addLayer_fromLayers
    (hsource : ∀ view segments, layerName ∉ context.runnerOnlyAttnLayers →
      context.staticForwardContext layerName = some (.tensor view) →
      resolvedSegments spec groupId kernelBs view = .ok segments →
      ∀ segment ∈ segments, FromLayer context attnGroups segment)
    (hrun : addLayer context groupId kernelBs spec table layerName =
      .ok table')
    (htable : AllFromLayers context attnGroups table) :
    AllFromLayers context attnGroups table' := by
  rcases addLayer_cases hrun with ⟨rfl, -⟩ |
    ⟨view, segments, hbound, hkept, hsegments, hfold⟩
  · exact htable
  · refine foldlM_invariant ?_ hfold htable
    intro segment hsegment before after hstep hbefore
    exact addSegment_forall hstep hbefore
      (hsource view segments hkept hbound hsegments segment hsegment)

theorem addGroup_fromLayers (hgroup : group ∈ attnGroups)
    (hrun : addGroup context table group = .ok table')
    (htable : AllFromLayers context attnGroups table) :
    AllFromLayers context attnGroups table' := by
  rw [addGroup] at hrun
  split at hrun
  · exact Except.ok.inj hrun ▸ htable
  · rename_i hattention
    split at hrun
    · exact Except.ok.inj hrun ▸ htable
    · rename_i kernelBs hkernel
      simp only [bind_eq_ok] at hrun
      obtain ⟨-, -, -, -, hfold⟩ := hrun
      refine foldlM_invariant ?_ hfold htable
      intro layerName hlayer before after hstep hbefore
      refine addLayer_fromLayers ?_ hstep hbefore
      intro view segments hkept hbound hsegments segment hmem
      exact ⟨group, kernelBs, layerName, view, segments,
        ⟨hgroup, Bool.eq_true_of_not_eq_false hattention, hkernel, hlayer,
          hkept, hbound⟩, hsegments, hmem⟩

/-- Every entry of the table is a segment of some layer. -/
theorem init_fromLayers (hrun : init context attnGroups = .ok table) :
    AllFromLayers context attnGroups table := by
  have hstart : AllFromLayers context attnGroups [] := nofun
  exact foldlM_invariant
    (fun _ hgroup _ _ hstep hbefore =>
      addGroup_fromLayers hgroup hstep hbefore) hrun hstart

end Layers

end KVBlockZeroer

end GlmFlash.Worker
