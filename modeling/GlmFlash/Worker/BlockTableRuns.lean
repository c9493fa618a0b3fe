import GlmFlash.Library.Runs
import GlmFlash.Worker.BlockTableReads

/-!
# Block tables over a run

A step calls `append_block_ids` for some requests, applies the staged writes and lets the
kernels read the tables for its batch.  Over every run the batch sees what the calls have
left, whatever the input tables and the slot mappings held before.
-/

namespace GlmFlash.Worker.BlockTable

open GlmFlash.Library

/-! ## Between the steps -/

/-- Nothing is staged, the device holds the rows and their counts, and no count exceeds
the width of its row. -/
structure BlockTables.Holds (tables : BlockTables) (rows : ℕ → ℕ → ℕ → ℤ) : Prop where
  wellFormed : tables.WellFormed
  clean : tables.Pending (fun _ => []) rows
  count_le : ∀ group < tables.numKvCacheGroups, ∀ slot,
    tables.numBlocksNp group slot ≤ tables.width group
  device : ∀ group < tables.numKvCacheGroups,
    tables.numBlocksGpu group = tables.numBlocksNp group

/-- What the batch of a step sees of a group: the held blocks of its requests with zeros
behind them, zeros in the padded rows, a slot for every token and the pad slot behind the
last one. -/
structure BlockTables.Sees (tables : BlockTables) (batch : Batch) (rows : ℕ → ℕ → ℕ → ℤ)
    (group : ℕ) : Prop where
  blocks : ∀ index < batch.numReqsPadded, ∀ col < tables.width group,
    rowOf (tables.inputBlockTables group) (tables.width group) index col =
      if index < batch.idxMapping.length ∧
          col < tables.numBlocksNp group (batch.idxMapping.getD index 0) then
        rows group (batch.idxMapping.getD index 0) col
      else 0
  slots : ∀ index < batch.idxMapping.length, ∀ token : ℕ,
    batch.queryStartLoc.getD index 0 ≤ token →
      token < batch.queryStartLoc.getD (index + 1) 0 →
        tables.slotMappings group token =
          (tables.slotSizes group).slotId
            (tables.numBlocksNp group (batch.idxMapping.getD index 0))
            (rows group (batch.idxMapping.getD index 0)) (batch.positions.getD token 0)
  padding : ∀ token : ℕ, batch.queryStartLoc.getD batch.idxMapping.length 0 ≤ token →
    token < tables.maxNumBatchedTokens → tables.slotMappings group token = padSlotId

theorem Batch.ends_le (batch : Batch) (earlier later : ℕ) (hle : earlier ≤ later)
    (hlater : later ≤ batch.idxMapping.length) :
    batch.queryStartLoc.getD earlier 0 ≤ batch.queryStartLoc.getD later 0 :=
  batch.sorted later hlater earlier hle

theorem prepareAttn_sameShape (gatherSchedule slotSchedule : Schedule) (tables : BlockTables)
    (batch : Batch) : SameShape tables (tables.prepareAttn gatherSchedule slotSchedule batch) :=
  ⟨rfl, rfl, rfl, rfl, rfl, rfl, rfl, rfl, rfl, rfl, rfl, rfl⟩

section Reading

variable {tables : BlockTables} {rows : ℕ → ℕ → ℕ → ℤ} (hholds : tables.Holds rows)
  (gatherSchedule slotSchedule : Schedule) (batch : Batch)
include hholds

theorem BlockTables.Holds.row {group slot col : ℕ} (hgroup : group < tables.numKvCacheGroups)
    (hcol : col < tables.width group) :
    rowOf (gpuOf tables.blockTables group) (tables.width group) slot col =
      rows group slot col :=
  hholds.clean.device (hgroup.trans_eq hholds.wellFormed.tableCount.symm) hcol

theorem prepareAttn_holds :
    (tables.prepareAttn gatherSchedule slotSchedule batch).Holds rows where
  wellFormed :=
    (prepareAttn_sameShape gatherSchedule slotSchedule tables batch).wellFormed hholds.wellFormed
  clean := hholds.clean
  count_le := hholds.count_le
  device := hholds.device

/-- Old contents of the input tables and the slot mappings do not show. -/
theorem prepareAttn_sees {group : ℕ} (hgroup : group < tables.numKvCacheGroups) :
    (tables.prepareAttn gatherSchedule slotSchedule batch).Sees batch rows group where
  blocks := fun index hindex col hcol => by
    have hbound : ∀ group < tables.numKvCacheGroups, ∀ index < batch.idxMapping.length,
        tables.numBlocksGpu group (batch.idxMapping.getD index 0) ≤ tables.width group := by
      intro group hgroup index _
      rw [hholds.device group hgroup]
      exact hholds.count_le group hgroup _
    have hgathered := gatherBlockTables_rows gatherSchedule hbound hgroup hindex hcol
    rw [gatheredRow, hholds.device group hgroup, hholds.row hgroup hcol] at hgathered
    exact hgathered
  slots := fun index hindex token hstart hstop => by
    have hstored := @computeSlotMappings_slots
      (tables.gatherBlockTables gatherSchedule batch.idxMapping batch.numReqsPadded)
      batch.idxMapping batch.queryStartLoc batch.positions batch.ends_le slotSchedule group
      index token hgroup hindex.le ⟨hstart, by rwa [segmentStop, if_neg hindex.ne]⟩
    rw [storedSlot, if_neg hindex.ne] at hstored
    refine hstored.trans ?_
    change (tables.slotSizes group).slotId (tables.numBlocksGpu group _)
      (rowOf (gpuOf tables.blockTables group) (tables.width group) _) _ = _
    rw [hholds.device group hgroup]
    exact SlotSizes.slotId_congr (fun col hcol =>
      hholds.row hgroup (hcol.trans_le (hholds.count_le group hgroup _))) _
  padding := fun token hstart hstop => by
    have hstored := @computeSlotMappings_slots
      (tables.gatherBlockTables gatherSchedule batch.idxMapping batch.numReqsPadded)
      batch.idxMapping batch.queryStartLoc batch.positions batch.ends_le slotSchedule group
      batch.idxMapping.length token hgroup le_rfl
      ⟨hstart, by rwa [segmentStop, if_pos rfl]⟩
    rwa [storedSlot, if_pos rfl] at hstored

end Reading

/-! ## The calls of a step -/

/-- The slots that a step calls for exist, and none is called for twice. -/
structure Step.Legal (step : Step) (maxNumReqs : ℕ) : Prop where
  slots : ∀ call ∈ step.calls, call.reqIndex < maxNumReqs
  nodup : (step.calls.map (·.reqIndex)).Nodup

/-- The calls have had their effects, one after the other. -/
inductive CallsLeave : List Call → BlockTables → BlockTables → (ℕ → ℕ → ℕ → ℤ) →
    (ℕ → ℕ → ℕ → ℤ) → Prop where
  | nil {tables : BlockTables} {rows : ℕ → ℕ → ℕ → ℤ} : CallsLeave [] tables tables rows rows
  | cons {call : Call} {calls : List Call} {before middle after : BlockTables}
      {rows rows' rows'' : ℕ → ℕ → ℕ → ℤ} (called : Called call before middle rows rows')
      (rest : CallsLeave calls middle after rows' rows'') :
      CallsLeave (call :: calls) before after rows rows''

theorem Called.count_le {call : Call} {before after : BlockTables}
    {rows rows' : ℕ → ℕ → ℕ → ℤ} (hcalled : Called call before after rows rows')
    (hcount : ∀ group < before.numKvCacheGroups, ∀ slot,
      before.numBlocksNp group slot ≤ before.width group)
    {group : ℕ} (hgroup : group < after.numKvCacheGroups) (slot : ℕ) :
    after.numBlocksNp group slot ≤ after.width group := by
  rw [hcalled.shape.numKvCacheGroups] at hgroup
  rw [hcalled.shape.width]
  have hbefore := hcount group hgroup
  by_cases hslot : slot = call.reqIndex
  · rw [hslot]
    have heffect := hcalled.effects group hgroup
    by_cases hstopped : call.Stopped before group
    · rw [(heffect.stopped hstopped).1]
      exact hbefore _
    · cases hrewrite : call.rewrite group with
      | some ids =>
          rw [(heffect.rewritten hstopped ids hrewrite).1, BlockTables.kept, List.length_take]
          exact Nat.min_le_left _ _
      | none =>
          by_cases hdropped : call.Dropped before group
          · rw [(heffect.dropped hstopped hrewrite hdropped).1]
            have hnone : kernelIds (before.ratio group) [] = [] := by
              rw [kernelIds, List.flatMap_nil, ite_self]
            rw [Write.stop, BlockTables.extension, hnone]
            cases call.overwrite
            · exact hbefore _
            · exact Nat.zero_le _
          · obtain ⟨hroom, hmade⟩ := heffect.extended hstopped hrewrite hdropped
            rw [hmade.1]
            exact hroom
  · rw [(hcalled.others group slot hslot).1]
    exact hbefore slot

theorem CallsLeave.shape {calls : List Call} {before after : BlockTables}
    {rows rows' : ℕ → ℕ → ℕ → ℤ} (hleave : CallsLeave calls before after rows rows') :
    SameShape before after := by
  induction hleave with
  | nil => exact .rfl'
  | cons called _ ih => exact called.shape.trans ih

theorem CallsLeave.count_le {calls : List Call} {before after : BlockTables}
    {rows rows' : ℕ → ℕ → ℕ → ℤ} (hleave : CallsLeave calls before after rows rows')
    (hcount : ∀ group < before.numKvCacheGroups, ∀ slot,
      before.numBlocksNp group slot ≤ before.width group) :
    ∀ group < after.numKvCacheGroups, ∀ slot,
      after.numBlocksNp group slot ≤ after.width group := by
  induction hleave with
  | nil => exact hcount
  | cons called _ ih => exact ih fun group hgroup => called.count_le hcount hgroup

theorem appendAll_leaves {calls : List Call} {before after : BlockTables}
    {touched : ℕ → List ℕ} {rows : ℕ → ℕ → ℕ → ℤ} (hwell : before.WellFormed)
    (hpending : before.Pending touched rows)
    (hslots : ∀ call ∈ calls, call.reqIndex < before.maxNumReqs)
    (hnodup : (calls.map (·.reqIndex)).Nodup)
    (hfree : ∀ call ∈ calls, ∀ group, call.reqIndex ∉ touched group)
    (hcalls : before.appendAll calls = .ok after) :
    ∃ touched' rows', after.Pending touched' rows' ∧
      CallsLeave calls before after rows rows' := by
  induction calls generalizing before touched rows with
  | nil =>
      rw [BlockTables.appendAll, List.foldlM_nil, pure_eq_ok] at hcalls
      subst hcalls
      exact ⟨touched, rows, hpending, .nil⟩
  | cons call calls ih =>
      rw [BlockTables.appendAll, List.foldlM_cons, bind_eq_ok] at hcalls
      obtain ⟨middle, hcall, hrest⟩ := hcalls
      rw [List.map_cons, List.nodup_cons] at hnodup
      have hslot := hslots call List.mem_cons_self
      obtain ⟨rows', hpending', hcalled⟩ := appendBlockIds_called hpending
        (hfree call List.mem_cons_self)
        (fun table htable => by rwa [hwell.rows table htable]) hcall
      have hlater : ∀ other ∈ calls, ∀ group,
          other.reqIndex ∉ call.reqIndex :: touched group := by
        intro other hother group hmem
        rcases List.mem_cons.mp hmem with hsame | hold
        · exact hnodup.1 (hsame ▸ List.mem_map_of_mem hother)
        · exact hfree other (List.mem_cons_of_mem call hother) group hold
      obtain ⟨touched', rows'', hafter, hleave⟩ := ih (hcalled.shape.wellFormed hwell) hpending'
        (fun other hother => by
          rw [hcalled.shape.maxNumReqs]
          exact hslots other (List.mem_cons_of_mem call hother)) hnodup.2 hlater hrest
      exact ⟨touched', rows'', hafter, .cons hcalled hleave⟩

/-! ## Steps -/

/-- When its calls return a step does, and its batch sees what they have left. -/
theorem executeModel_exact {step : Step} {before staged : BlockTables}
    {rows : ℕ → ℕ → ℕ → ℤ} (hholds : before.Holds rows) (hlegal : step.Legal before.maxNumReqs)
    (hcalls : before.appendAll step.calls = .ok staged) :
    ∃ rows' after, executeModel before step = .ok after ∧
      CallsLeave step.calls before staged rows rows' ∧
      after.numBlocksNp = staged.numBlocksNp ∧ SameShape before after ∧ after.Holds rows' ∧
      ∀ group < before.numKvCacheGroups, after.Sees step.batch rows' group := by
  obtain ⟨touched, rows', hpending, hleave⟩ := appendAll_leaves hholds.wellFormed hholds.clean
    hlegal.slots hlegal.nodup (fun _ _ _ => List.not_mem_nil) hcalls
  have hwell := hleave.shape.wellFormed hholds.wellFormed
  obtain ⟨written, hwritten, hshape, hcount, hdevice, hclean⟩ :=
    applyStagedWrites_returns step.writeSchedule hwell hpending
  have hafter : written.Holds rows' := by
    refine ⟨hshape.wellFormed hwell, hclean, fun group hgroup slot => ?_, fun group hgroup => ?_⟩
    · rw [hcount, hshape.width]
      rw [hshape.numKvCacheGroups] at hgroup
      exact hleave.count_le hholds.count_le group hgroup slot
    · rw [hshape.numKvCacheGroups] at hgroup
      rw [hdevice (Nat.zero_lt_of_lt hgroup), hcount]
  have hwhole := hleave.shape.trans hshape
  have hread := prepareAttn_sameShape step.gatherSchedule step.slotSchedule written step.batch
  refine ⟨rows', written.prepareAttn step.gatherSchedule step.slotSchedule step.batch, ?_, hleave,
    hcount, hwhole.trans hread, prepareAttn_holds hafter _ _ _, fun group hgroup => ?_⟩
  · rw [executeModel, hcalls, ok_bind, hwritten, ok_bind]
    rfl
  · apply prepareAttn_sees hafter
    rwa [hwhole.numKvCacheGroups]

theorem run_holds {tables before : BlockTables} {rows : ℕ → ℕ → ℕ → ℤ}
    (hholds : tables.Holds rows) {steps : List Step}
    (hlegal : ∀ step ∈ steps, step.Legal tables.maxNumReqs)
    (hrun : runSteps executeModel tables steps = .ok before) :
    SameShape tables before ∧ ∃ rows', before.Holds rows' := by
  induction steps generalizing tables rows with
  | nil =>
      rw [runSteps, Except.ok.injEq] at hrun
      subst hrun
      exact ⟨.rfl', rows, hholds⟩
  | cons step steps ih =>
      obtain ⟨next, hnext, hrest⟩ := runSteps_cons_eq_ok.mp hrun
      obtain ⟨staged, hcalls, -⟩ := bind_eq_ok.mp hnext
      obtain ⟨rows', after, hafter, -, -, hshape, hkept, -⟩ :=
        executeModel_exact hholds (hlegal step List.mem_cons_self) hcalls
      rw [hnext, Except.ok.injEq] at hafter
      subst hafter
      obtain ⟨hlater, hlast⟩ := ih hkept (fun other hother => by
        rw [hshape.maxNumReqs]
        exact hlegal other (List.mem_cons_of_mem step hother)) hrest
      exact ⟨hshape.trans hlater, hlast⟩

/-! ## Runs -/

section Built

variable {blockSizes maxNumBlocksPerGroup kernelBlockSizes : List ℕ}
  {maxNumReqs maxNumBatchedTokens cpSize cpRank cpInterleave : ℕ}
  {groupCpSizes : Option (List ℕ)} {tables : BlockTables}
  (hinit : BlockTables.init blockSizes maxNumReqs maxNumBatchedTokens maxNumBlocksPerGroup
    kernelBlockSizes cpSize cpRank cpInterleave groupCpSizes = .ok tables)
include hinit

theorem init_holds {pools : List (Option ℕ)} (hpools : pools.length = tables.numKvCacheGroups) :
    (tables.attachPools pools).Holds fun _ _ _ => 0 := by
  have hcounts : tables.numBlocksNp = (fun _ _ => 0) ∧
      tables.numBlocksGpu = tables.numBlocksNp := init_counts hinit
  refine ⟨(init_wellFormed hinit).attachPools hpools, (init_pending hinit).attachPools pools,
    ?_, ?_⟩ <;> rcases attachPools_eq tables pools with heq | heq <;> rw [heq]
  · intro group _ slot
    rw [hcounts.1]
    exact Nat.zero_le _
  · intro group _ slot
    rw [hcounts.1]
    exact Nat.zero_le _
  · exact fun group _ => congrFun hcounts.2 group
  · exact fun group _ => congrFun hcounts.2 group

/-- From the tables as they are built, over any run of steps: when the calls of the next
step return so does the step, each call has had its exact effect on the rows that the
device held, and the batch sees these rows. -/
theorem block_tables_exact {pools : List (Option ℕ)}
    (hpools : pools.length = tables.numKvCacheGroups) {steps : List Step}
    (hlegal : ∀ step ∈ steps, step.Legal tables.maxNumReqs) {before : BlockTables}
    (hrun : runSteps executeModel (tables.attachPools pools) steps = .ok before)
    {step : Step} (hstep : step.Legal tables.maxNumReqs) {staged : BlockTables}
    (hcalls : before.appendAll step.calls = .ok staged) :
    ∃ rows rows' after, before.Holds rows ∧ executeModel before step = .ok after ∧
      CallsLeave step.calls before staged rows rows' ∧
      after.numBlocksNp = staged.numBlocksNp ∧ after.Holds rows' ∧
      ∀ group < tables.numKvCacheGroups, after.Sees step.batch rows' group := by
  have hattached : (tables.attachPools pools).maxNumReqs = tables.maxNumReqs ∧
      (tables.attachPools pools).numKvCacheGroups = tables.numKvCacheGroups := by
    rcases attachPools_eq tables pools with heq | heq <;> rw [heq] <;> exact ⟨rfl, rfl⟩
  obtain ⟨hshape, rows, hholds⟩ := run_holds (init_holds hinit hpools) (by
    rw [hattached.1]
    exact hlegal) hrun
  rw [← hattached.1, ← hshape.maxNumReqs] at hstep
  obtain ⟨rows', after, hafter, hleave, hcount, -, hkept, hsees⟩ :=
    executeModel_exact hholds hstep hcalls
  refine ⟨rows, rows', after, hholds, hafter, hleave, hcount, hkept, ?_⟩
  rwa [hshape.numKvCacheGroups, hattached.2] at hsees

end Built

/-- Two requests get their first blocks. -/
def admissionStep : Step where
  calls := [⟨0, some [[1], [3]], true, none⟩, ⟨1, some [[2, 3], [0]], true, none⟩]
  batch := {
    idxMapping := [1, 0]
    numReqsPadded := 2
    queryStartLoc := [0, 2, 4]
    positions := [0, 1, 0, 1]
    sorted := by decide }
  writeSchedule := inOrder
  gatherSchedule := inOrder
  slotSchedule := inOrder

/-- One of them gets another block and runs alone, in a batch padded to two. -/
def decodeStep : Step where
  calls := [⟨0, some [[3], [2]], false, none⟩]
  batch := {
    idxMapping := [0]
    numReqsPadded := 2
    queryStartLoc := [0, 1]
    positions := [2]
    sorted := by decide }
  writeSchedule := inOrder
  gatherSchedule := inOrder
  slotSchedule := inOrder

theorem block_tables_exact_two :
    ∃ before staged, runSteps executeModel (strayTables.attachPools [some 4, some 5])
        [admissionStep] = .ok before ∧ before.appendAll decodeStep.calls = .ok staged ∧
      ∃ rows rows' after, before.Holds rows ∧ executeModel before decodeStep = .ok after ∧
        CallsLeave decodeStep.calls before staged rows rows' ∧
        after.numBlocksNp = staged.numBlocksNp ∧ after.Holds rows' ∧
        ∀ group < 2, after.Sees decodeStep.batch rows' group := by
  have hreturns : ∃ before staged,
      runSteps executeModel (strayTables.attachPools [some 4, some 5]) [admissionStep] =
        .ok before ∧ before.appendAll decodeStep.calls = .ok staged := ⟨_, _, rfl, rfl⟩
  obtain ⟨before, staged, hrun, hcalls⟩ := hreturns
  have hadmission : ∀ step ∈ [admissionStep], step.Legal 2 :=
    List.forall_mem_singleton.mpr ⟨by decide, by decide⟩
  exact ⟨before, staged, hrun, hcalls, block_tables_exact init_strayTables rfl hadmission hrun
    ⟨by decide, by decide⟩ hcalls⟩

end GlmFlash.Worker.BlockTable
