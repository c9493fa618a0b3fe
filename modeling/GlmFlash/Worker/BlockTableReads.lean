import GlmFlash.Worker.SlotMappings

/-!
# Tables as they are built

The tables are built empty, for groups whose blocks are cut into kernel blocks.  A call
that returns has its exact effect on each group once its writes have landed, whatever its
lists are.
-/

namespace GlmFlash.Worker.BlockTable

open GlmFlash.Library

/-! ## The tables as they are built -/

section Built

variable {blockSizes maxNumBlocksPerGroup kernelBlockSizes : List ℕ}
  {maxNumReqs maxNumBatchedTokens cpSize cpRank cpInterleave : ℕ}
  {groupCpSizes : Option (List ℕ)} {tables : BlockTables}
  (hinit : BlockTables.init blockSizes maxNumReqs maxNumBatchedTokens maxNumBlocksPerGroup
    kernelBlockSizes cpSize cpRank cpInterleave groupCpSizes = .ok tables)
include hinit

theorem init_eq_ok :
    (blockSizes.zip kernelBlockSizes).mapM kernelBlocks = .ok tables.blocksPerKvBlock ∧
      (List.range blockSizes.length).mapM
        (emptyTable maxNumReqs maxNumBlocksPerGroup tables.blocksPerKvBlock) =
          .ok tables.blockTables ∧
      tables.blockSizes = blockSizes ∧ tables.kernelBlockSizes = kernelBlockSizes ∧
      tables.maxNumReqs = maxNumReqs ∧ tables.poolNumBlocks = none ∧
      tables.numBlocksNp = (fun _ _ => 0) ∧ tables.numBlocksGpu = tables.numBlocksNp := by
  rw [BlockTables.init, bind_eq_ok] at hinit
  obtain ⟨_, -, hinit⟩ := hinit
  rw [bind_eq_ok] at hinit
  obtain ⟨_, -, hinit⟩ := hinit
  rw [bind_eq_ok] at hinit
  obtain ⟨_, -, hinit⟩ := hinit
  rw [bind_eq_ok] at hinit
  obtain ⟨ratios, hratios, hinit⟩ := hinit
  rw [bind_eq_ok] at hinit
  obtain ⟨blockTables, htables, hinit⟩ := hinit
  rw [pure_eq_ok] at hinit
  subst hinit
  exact ⟨hratios, htables, rfl, rfl, rfl, rfl, rfl, rfl⟩

theorem init_table {group : ℕ} (hgroup : group < blockSizes.length) :
    ∃ ratio maxNumBlocks, tables.blocksPerKvBlock[group]? = some ratio ∧
      maxNumBlocksPerGroup[group]? = some maxNumBlocks ∧
      tables.blockTables[group]? = some {
        numRows := maxNumReqs
        numCols := maxNumBlocks * ratio
        gpu := fun _ => 0
        staged := noWrites } := by
  obtain ⟨-, htables, -⟩ := init_eq_ok hinit
  have hforall := forall₂_of_mapM htables
  have hrange : group < (List.range blockSizes.length).length := by rwa [List.length_range]
  have hbound : group < tables.blockTables.length := by rwa [← hforall.length_eq]
  have htable := hforall.get hrange hbound
  rw [List.get_eq_getElem, List.get_eq_getElem, List.getElem_range, emptyTable,
    bind_eq_ok] at htable
  obtain ⟨maxNumBlocks, hmax, htable⟩ := htable
  rw [bind_eq_ok] at htable
  obtain ⟨ratio, hratio, htable⟩ := htable
  rw [pure_eq_ok] at htable
  exact ⟨ratio, maxNumBlocks, item_eq_ok.mp hratio, item_eq_ok.mp hmax,
    by rw [List.getElem?_eq_getElem hbound, htable]⟩

theorem init_counts :
    tables.numBlocksNp = (fun _ _ => 0) ∧ tables.numBlocksGpu = tables.numBlocksNp := by
  obtain ⟨-, -, -, -, -, -, hcounts⟩ := init_eq_ok hinit
  exact hcounts

theorem length_blockTables : tables.blockTables.length = blockSizes.length := by
  obtain ⟨-, htables, -⟩ := init_eq_ok hinit
  rw [← (forall₂_of_mapM htables).length_eq, List.length_range]

theorem init_wellFormed : tables.WellFormed := by
  obtain ⟨hratios, -, hblocks, -, hreqs, hpools, -⟩ := init_eq_ok hinit
  have hgroups : tables.numKvCacheGroups = blockSizes.length := by
    rw [BlockTables.numKvCacheGroups, hblocks]
  have hlength := length_blockTables hinit
  refine ⟨hlength.trans hgroups.symm, ?_, ?_, ?_⟩
  · rw [hgroups]
    refine le_antisymm ?_ (Nat.not_lt.mp fun hlt => ?_)
    · rw [← (forall₂_of_mapM hratios).length_eq, List.length_zip]
      exact Nat.min_le_left _ _
    · obtain ⟨ratio, -, hratio, -⟩ := init_table hinit hlt
      rw [List.getElem?_eq_none le_rfl] at hratio
      cases hratio
  · intro table hmem
    obtain ⟨group, hgroup, rfl⟩ := List.getElem_of_mem hmem
    obtain ⟨ratio, maxNumBlocks, -, -, htable⟩ := init_table hinit (hlength ▸ hgroup)
    rw [List.getElem?_eq_getElem hgroup, Option.some_inj] at htable
    rw [htable, hreqs]
  · intro sizes hsizes
    rw [hpools] at hsizes
    cases hsizes

/-- Nothing is staged, and every cell is zero. -/
theorem init_pending : tables.Pending (fun _ => []) fun _ _ _ => 0 := by
  intro group table htable
  have hgroup : group < blockSizes.length := by
    rw [← length_blockTables hinit]
    exact (List.getElem?_eq_some_iff.mp htable).1
  obtain ⟨ratio, maxNumBlocks, -, -, hempty⟩ := init_table hinit hgroup
  rw [htable, Option.some_inj] at hempty
  subst hempty
  exact ⟨[], ⟨noWrites_holds, List.nodup_nil, fun _ hmem => (List.not_mem_nil hmem).elim⟩,
    fun _ hmem => (List.not_mem_nil hmem).elim, fun _ _ _ => rfl⟩

end Built

/-- Attaching the pools changes nothing else. -/
theorem attachPools_eq (tables : BlockTables) (pending : List (Option ℕ)) :
    tables.attachPools pending = { tables with poolNumBlocks := some pending } ∨
      tables.attachPools pending = tables := by
  rw [BlockTables.attachPools]
  split
  · exact Or.inl rfl
  · exact Or.inr rfl

theorem BlockTables.WellFormed.attachPools {tables : BlockTables} (hwell : tables.WellFormed)
    {pending : List (Option ℕ)} (hpending : pending.length = tables.numKvCacheGroups) :
    (tables.attachPools pending).WellFormed := by
  rcases attachPools_eq tables pending with heq | heq
  · rw [heq]
    refine ⟨hwell.tableCount, hwell.ratioCount, hwell.rows, ?_⟩
    rintro _ ⟨⟩
    exact hpending
  · rw [heq]
    exact hwell

theorem BlockTables.Pending.attachPools {tables : BlockTables} {touched : ℕ → List ℕ}
    {rows : ℕ → ℕ → ℕ → ℤ} (hpending : tables.Pending touched rows)
    (pools : List (Option ℕ)) : (tables.attachPools pools).Pending touched rows := by
  rcases attachPools_eq tables pools with heq | heq
  · rw [heq]
    exact hpending
  · rwa [heq]

/-! ## A call and its writes -/

/-- Whatever lists a call is given, if it returns then its writes land, and each group has
had its exact effect.  A rewrite outside the pool of its group leaves that group and every
later one as it was.  A delta outside the pool is lost, and so are those of all later
groups. -/
theorem append_block_ids_exact (schedule : Schedule) {call : Call} {before after : BlockTables}
    {rows : ℕ → ℕ → ℕ → ℤ} (hwell : before.WellFormed)
    (hclean : before.Pending (fun _ => []) rows) (hslot : call.reqIndex < before.maxNumReqs)
    (hcall : before.appendBlockIds call.reqIndex call.newBlockIds call.overwrite
      call.rewriteIds = .ok after) :
    ∃ landed rows', after.applyStagedWrites schedule = .ok landed ∧
      landed.numBlocksNp = after.numBlocksNp ∧
      (0 < before.numKvCacheGroups → landed.numBlocksGpu = after.numBlocksNp) ∧
      (∀ group < before.numKvCacheGroups, ∀ slot, ∀ col < before.width group,
        rowOf (gpuOf landed.blockTables group) (before.width group) slot col =
          rows' group slot col) ∧
      Called call before after rows rows' := by
  obtain ⟨rows', hpending, hcalled⟩ := appendBlockIds_called hclean
    (fun _ => List.not_mem_nil) (fun table htable => by rwa [hwell.rows table htable]) hcall
  have hafter := hcalled.shape.wellFormed hwell
  obtain ⟨landed, hlanded, hshape, hcount, hdevice, hrows⟩ :=
    applyStagedWrites_returns schedule hafter hpending
  refine ⟨landed, rows', hlanded, hcount, fun hgroups => hdevice ?_, ?_, hcalled⟩
  · rwa [hcalled.shape.numKvCacheGroups]
  · intro group hgroup slot col hcol
    have hwhole := hcalled.shape.trans hshape
    rw [← hwhole.width] at hcol ⊢
    refine hrows.device ?_ hcol
    rwa [(hshape.wellFormed hafter).tableCount, hwhole.numKvCacheGroups]

/-- The programs of a launch one after the other. -/
def inOrder : Schedule where
  order := fun _ count => List.range count
  order_perm := fun _ count => List.Perm.refl (List.range count)

/-- A call for two groups; with pools of four blocks the first delta lies outside its pool. -/
def strayCall : Call where
  reqIndex := 0
  newBlockIds := some [[9], [1]]
  overwrite := true
  rewriteIds := none

/-- The tables of two groups as they are built. -/
def strayTables : BlockTables where
  blockSizes := [2, 2]
  kernelBlockSizes := [1, 1]
  groupCpSizes := [1, 1]
  maxNumReqs := 2
  maxNumBatchedTokens := 4
  cpSize := 1
  cpRank := 0
  cpInterleave := 1
  blocksPerKvBlock := [2, 2]
  blockTables := List.replicate 2 {
    numRows := 2
    numCols := 4
    gpu := fun _ => 0
    staged := noWrites }
  numBlocksNp := fun _ _ => 0
  numBlocksGpu := fun _ _ => 0
  poolNumBlocks := none
  inputBlockTables := fun _ _ => 0
  slotMappings := fun _ _ => 0

theorem init_strayTables :
    BlockTables.init [2, 2] 2 4 [2, 2] [1, 1] 1 0 1 none = .ok strayTables :=
  rfl

theorem append_block_ids_exact_stray :
    ∃ after, (strayTables.attachPools [some 4, some 4]).appendBlockIds 0 (some [[9], [1]]) true
        none = .ok after ∧
      ∃ landed rows', after.applyStagedWrites inOrder = .ok landed ∧
        landed.numBlocksNp = after.numBlocksNp ∧
        (0 < 2 → landed.numBlocksGpu = after.numBlocksNp) ∧
        (∀ group < 2, ∀ slot, ∀ col < (strayTables.attachPools [some 4, some 4]).width group,
          rowOf (gpuOf landed.blockTables group)
              ((strayTables.attachPools [some 4, some 4]).width group) slot col =
            rows' group slot col) ∧
        Called strayCall (strayTables.attachPools [some 4, some 4]) after (fun _ _ _ => 0)
          rows' := by
  have hwell : (strayTables.attachPools [some 4, some 4]).WellFormed :=
    (init_wellFormed init_strayTables).attachPools rfl
  have hclean := (init_pending init_strayTables).attachPools [some 4, some 4]
  exact ⟨_, rfl, @append_block_ids_exact inOrder strayCall
    (strayTables.attachPools [some 4, some 4]) _ _ hwell hclean Nat.two_pos rfl⟩

end GlmFlash.Worker.BlockTable
