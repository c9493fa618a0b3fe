import GlmFlash.Worker.ShippedBlocks

/-!
# The kernel behind the calls

The writes that the calls of a step have staged go to different rows of each table, so
the kernel that applies them never runs out of staging rows, and behind it the device
holds the rows and their counts.
-/

namespace GlmFlash.Worker.BlockTable

open GlmFlash.Library

/-- What the constructor and the attachment of the pools leave. -/
structure BlockTables.WellFormed (tables : BlockTables) : Prop where
  tableCount : tables.blockTables.length = tables.numKvCacheGroups
  ratioCount : tables.blocksPerKvBlock.length = tables.numKvCacheGroups
  rows : ∀ table ∈ tables.blockTables, table.numRows = tables.maxNumReqs
  pools : ∀ sizes, tables.poolNumBlocks = some sizes →
    sizes.length = tables.numKvCacheGroups

theorem SameShape.wellFormed {before after : BlockTables} (hshape : SameShape before after)
    (hwell : before.WellFormed) : after.WellFormed where
  tableCount := by
    rw [← List.length_map (f := (·.numCols)), hshape.numCols, List.length_map,
      hwell.tableCount, hshape.numKvCacheGroups]
  ratioCount := by
    rw [hshape.blocksPerKvBlock, hwell.ratioCount, hshape.numKvCacheGroups]
  rows := fun table htable => by
    have hrows : table.numRows ∈ before.blockTables.map (·.numRows) := by
      rw [← hshape.numRows]
      exact List.mem_map_of_mem htable
    obtain ⟨found, hfound, hsame⟩ := List.mem_map.mp hrows
    rw [← hsame, hwell.rows found hfound, hshape.maxNumReqs]
  pools := fun sizes hsizes => by
    rw [hshape.poolNumBlocks] at hsizes
    rw [hwell.pools sizes hsizes, hshape.numKvCacheGroups]

theorem length_groupWrites_le {staged : ℕ → List Write} {bound : ℕ} (count : ℕ)
    (hbound : ∀ group < count, (staged group).length ≤ bound) :
    (groupWrites staged 0 count).length ≤ count * bound := by
  have hsum : ∀ groups : List ℕ, (∀ group ∈ groups, (staged group).length ≤ bound) →
      (groups.flatMap fun group => (staged group).map (group, ·)).length ≤
        groups.length * bound := by
    intro groups hgroups
    induction groups with
    | nil => exact Nat.zero_le _
    | cons group groups ih =>
        rw [List.flatMap_cons, List.length_append, List.length_map, List.length_cons,
          Nat.succ_mul, Nat.add_comm]
        exact Nat.add_le_add (ih fun other hother => hgroups other (List.mem_cons_of_mem _ hother))
          (hgroups group List.mem_cons_self)
  have hrange := hsum (List.range' 0 count) fun group hgroup =>
    hbound group ((List.mem_range'_1.mp hgroup).2.trans_eq (Nat.zero_add count))
  rwa [List.length_range'] at hrange

/-- One table or several: every table is written. -/
theorem writtenTables_wrote (schedule : Schedule) {tables : BlockTables}
    (hwell : tables.WellFormed) {staged : ℕ → List Write}
    (hstages : ∀ group (hgroup : group < tables.blockTables.length),
      tables.blockTables[group].Stages (staged group)) :
    ∃ after, tables.writtenTables schedule = .ok after ∧
      after.length = tables.blockTables.length ∧
      ∀ group (hgroup : group < tables.blockTables.length) (hafter : group < after.length),
        Wrote (staged group) tables.blockTables[group] after[group] := by
  rw [BlockTables.writtenTables]
  by_cases hone : tables.numKvCacheGroups = 1
  · rw [if_pos hone]
    obtain ⟨table, htable⟩ := List.length_eq_one_iff.mp (hwell.tableCount.trans hone)
    simp only [htable] at hstages ⊢
    obtain ⟨after, hafter, hwrote⟩ := applyWrite_wrote schedule (hstages 0 (Nat.succ_pos 0))
    refine ⟨[after], ?_, rfl, ?_⟩
    · rw [List.mapM_cons, show table.applyWrite schedule = .ok after from hafter, ok_bind,
        List.mapM_nil]
      rfl
    · intro group hgroup hgroup'
      cases group with
      | zero => exact hwrote
      | succ group => exact absurd hgroup (by simp)
  · rw [if_neg hone]
    refine fusedApply_wrote schedule hstages ?_
    rw [hwell.tableCount]
    refine length_groupWrites_le _ fun group hgroup => ?_
    rw [← hwell.tableCount] at hgroup
    have hle := (hstages group hgroup).length_le
    rwa [hwell.rows _ (List.getElem_mem hgroup)] at hle

/-- The staged writes land, and the counts go to the device with them. -/
theorem applyStagedWrites_returns (schedule : Schedule) {tables : BlockTables}
    (hwell : tables.WellFormed) {touched : ℕ → List ℕ} {rows : ℕ → ℕ → ℕ → ℤ}
    (hpending : tables.Pending touched rows) :
    ∃ after, tables.applyStagedWrites schedule = .ok after ∧ SameShape tables after ∧
      after.numBlocksNp = tables.numBlocksNp ∧
      (0 < tables.numKvCacheGroups → after.numBlocksGpu = tables.numBlocksNp) ∧
      after.Pending (fun _ => []) rows := by
  rw [BlockTables.applyStagedWrites]
  by_cases hnone : tables.numKvCacheGroups = 0
  · rw [if_pos hnone]
    refine ⟨tables, rfl, .rfl', rfl, fun hpos => absurd hnone hpos.ne', ?_⟩
    intro group table htable
    rw [List.length_eq_zero_iff.mp (hwell.tableCount.trans hnone)] at htable
    cases htable
  · have hwrites : ∀ group, ∃ writes, ∀ table, tables.blockTables[group]? = some table →
        table.Stages writes ∧ ∀ slot, ∀ col < table.numCols,
          landed writes (rowOf table.gpu table.numCols) slot col = rows group slot col := by
      intro group
      cases htable : tables.blockTables[group]? with
      | none => exact ⟨[], by rintro _ ⟨⟩⟩
      | some table =>
          obtain ⟨writes, hstages, -, hrows⟩ := hpending group table htable
          refine ⟨writes, fun other hother => ?_⟩
          rw [← Option.some_inj.mp hother]
          exact ⟨hstages, hrows⟩
    choose staged hstaged using hwrites
    obtain ⟨written, hwritten, hlength, hwrote⟩ := writtenTables_wrote schedule hwell
      fun group hgroup => (hstaged group _ (List.getElem?_eq_getElem hgroup)).1
    rw [if_neg hnone, hwritten, ok_bind]
    have hsame : ∀ view : StagedWriteTensor → ℕ,
        (∀ group (hgroup : group < tables.blockTables.length) (hafter : group < written.length),
          view written[group] = view tables.blockTables[group]) →
        written.map view = tables.blockTables.map view := by
      intro view hview
      apply List.ext_getElem
      · rw [List.length_map, List.length_map, hlength]
      · intro group hleft hright
        rw [List.length_map] at hleft hright
        rw [List.getElem_map, List.getElem_map, hview group hright hleft]
    refine ⟨_, rfl, ⟨rfl, rfl, rfl, rfl, rfl, rfl, rfl, rfl, rfl,
      hsame _ fun group hgroup hafter => (hwrote group hgroup hafter).numRows,
      hsame _ fun group hgroup hafter => (hwrote group hgroup hafter).numCols, rfl⟩, rfl,
      fun _ => rfl, ?_⟩
    intro group table htable
    obtain ⟨hafter, rfl⟩ := List.getElem?_eq_some_iff.mp htable
    have hgroup : group < tables.blockTables.length := by rwa [← hlength]
    have hone := hwrote group hgroup hafter
    refine ⟨[], ⟨?_, List.nodup_nil, fun _ hmem => (List.not_mem_nil hmem).elim⟩,
      fun _ hmem => (List.not_mem_nil hmem).elim, ?_⟩
    · rw [hone.staged]
      exact noWrites_holds
    · intro slot col hcol
      rw [hone.numCols] at hcol ⊢
      have hlanded := (hstaged group _ (List.getElem?_eq_getElem hgroup)).2 slot col hcol
      exact (hone.rows slot col hcol).trans hlanded

/-- Without staged writes the device holds the rows. -/
theorem BlockTables.Pending.device {tables : BlockTables} {rows : ℕ → ℕ → ℕ → ℤ}
    (hpending : tables.Pending (fun _ => []) rows) {group slot col : ℕ}
    (hgroup : group < tables.blockTables.length) (hcol : col < tables.width group) :
    rowOf (gpuOf tables.blockTables group) (tables.width group) slot col =
      rows group slot col := by
  have htable := List.getElem?_eq_getElem hgroup
  obtain ⟨writes, -, hnone, hrows⟩ := hpending group _ htable
  have hwrites : writes = [] := List.eq_nil_iff_forall_not_mem.mpr fun write hmem =>
    List.not_mem_nil (hnone write hmem)
  rw [width_eq htable] at hcol ⊢
  rw [gpuOf, htable, ← hrows slot col hcol, hwrites]
  rfl

end GlmFlash.Worker.BlockTable
