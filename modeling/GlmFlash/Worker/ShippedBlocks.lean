import GlmFlash.Worker.BlockTableRows

/-!
# What a call of `append_block_ids` leaves

A call goes through the groups in order.  A rewritten group holds the kernel blocks of
the list shipped for it, cut at the width of its row.  Any other group keeps its row and
puts the kernel blocks of its delta behind it.  A list outside the pool has an effect
beyond its group: a rewrite ends the call, and a delta is lost together with the deltas
of all later groups.
-/

namespace GlmFlash.Worker.BlockTable

open GlmFlash.Library

/-! ## The shape of the tables -/

/-- Kernel blocks in a block of a group. -/
def BlockTables.ratio (tables : BlockTables) (group : ℕ) : ℕ :=
  tables.blocksPerKvBlock.getD group 0

/-- The width of the rows of a group. -/
def BlockTables.width (tables : BlockTables) (group : ℕ) : ℕ :=
  (tables.blockTables.map (·.numCols)).getD group 0

/-- What no call changes. -/
structure SameShape (before after : BlockTables) : Prop where
  blockSizes : after.blockSizes = before.blockSizes
  kernelBlockSizes : after.kernelBlockSizes = before.kernelBlockSizes
  groupCpSizes : after.groupCpSizes = before.groupCpSizes
  maxNumReqs : after.maxNumReqs = before.maxNumReqs
  maxNumBatchedTokens : after.maxNumBatchedTokens = before.maxNumBatchedTokens
  cpSize : after.cpSize = before.cpSize
  cpRank : after.cpRank = before.cpRank
  cpInterleave : after.cpInterleave = before.cpInterleave
  blocksPerKvBlock : after.blocksPerKvBlock = before.blocksPerKvBlock
  numRows : after.blockTables.map (·.numRows) = before.blockTables.map (·.numRows)
  numCols : after.blockTables.map (·.numCols) = before.blockTables.map (·.numCols)
  poolNumBlocks : after.poolNumBlocks = before.poolNumBlocks

namespace SameShape

variable {before middle after : BlockTables}

theorem rfl' : SameShape before before :=
  ⟨rfl, rfl, rfl, rfl, rfl, rfl, rfl, rfl, rfl, rfl, rfl, rfl⟩

theorem trans (hfirst : SameShape before middle) (hsecond : SameShape middle after) :
    SameShape before after where
  blockSizes := hsecond.blockSizes.trans hfirst.blockSizes
  kernelBlockSizes := hsecond.kernelBlockSizes.trans hfirst.kernelBlockSizes
  groupCpSizes := hsecond.groupCpSizes.trans hfirst.groupCpSizes
  maxNumReqs := hsecond.maxNumReqs.trans hfirst.maxNumReqs
  maxNumBatchedTokens := hsecond.maxNumBatchedTokens.trans hfirst.maxNumBatchedTokens
  cpSize := hsecond.cpSize.trans hfirst.cpSize
  cpRank := hsecond.cpRank.trans hfirst.cpRank
  cpInterleave := hsecond.cpInterleave.trans hfirst.cpInterleave
  blocksPerKvBlock := hsecond.blocksPerKvBlock.trans hfirst.blocksPerKvBlock
  numRows := hsecond.numRows.trans hfirst.numRows
  numCols := hsecond.numCols.trans hfirst.numCols
  poolNumBlocks := hsecond.poolNumBlocks.trans hfirst.poolNumBlocks

theorem ratio (hshape : SameShape before after) (group : ℕ) :
    after.ratio group = before.ratio group := by
  rw [BlockTables.ratio, hshape.blocksPerKvBlock, BlockTables.ratio]

theorem width (hshape : SameShape before after) (group : ℕ) :
    after.width group = before.width group := by
  rw [BlockTables.width, hshape.numCols, BlockTables.width]

theorem numKvCacheGroups (hshape : SameShape before after) :
    after.numKvCacheGroups = before.numKvCacheGroups := by
  rw [BlockTables.numKvCacheGroups, hshape.blockSizes, BlockTables.numKvCacheGroups]

end SameShape

theorem width_eq {tables : BlockTables} {group : ℕ} {table : StagedWriteTensor}
    (htable : tables.blockTables[group]? = some table) :
    tables.width group = table.numCols := by
  rw [BlockTables.width, List.getD_eq_getElem?_getD, List.getElem?_map, htable]
  rfl

/-! ## Rows with their staged writes -/

/-- The rows once the staged writes have landed.  In each group the writes go to
different slots, all of them among `touched`. -/
def BlockTables.Pending (tables : BlockTables) (touched : ℕ → List ℕ)
    (rows : ℕ → ℕ → ℕ → ℤ) : Prop :=
  ∀ group table, tables.blockTables[group]? = some table →
    ∃ writes, table.Stages writes ∧ (∀ write ∈ writes, write.row ∈ touched group) ∧
      ∀ slot, ∀ col < table.numCols,
        landed writes (rowOf table.gpu table.numCols) slot col = rows group slot col

/-- A write for a slot of its own joins the staged ones. -/
theorem StagedWriteTensor.Stages.stageWrite {tensor : StagedWriteTensor} {writes : List Write}
    (hstages : tensor.Stages writes) {write : Write} (hids : write.ids ≠ [])
    (hrow : write.row < tensor.numRows) (hfree : ∀ other ∈ writes, other.row ≠ write.row) :
    (tensor.stageWrite write.row write.start write.ids).Stages (writes ++ [write]) := by
  rw [StagedWriteTensor.stageWrite, if_neg hids]
  have holds := hstages.holds
  refine ⟨⟨?_, ?_, ?_, ?_⟩, ?_, ?_⟩
  · rw [holds.indices, List.map_append, List.map_singleton]
  · rw [holds.starts, List.map_append, List.map_singleton]
  · rw [holds.contents, List.map_append, List.flatten_append, List.map_singleton,
      List.flatten_singleton]
  · rw [holds.cuLens, holds.contents, List.map_append, segmentEnds_append, List.map_singleton,
      segmentEnds, segmentEnds, Nat.zero_add, List.length_append]
  · rw [List.map_append, List.map_singleton, List.nodup_append]
    refine ⟨hstages.nodup, List.nodup_singleton _, ?_⟩
    intro row hmem other hother
    obtain ⟨earlier, hearlier, rfl⟩ := List.mem_map.mp hmem
    rw [List.mem_singleton.mp hother]
    exact hfree earlier hearlier
  · intro other hother
    rcases List.mem_append.mp hother with hearlier | hlast
    · exact hstages.rows other hearlier
    · rwa [List.mem_singleton.mp hlast]

/-- What the rows hold after a write to one slot of one group. -/
def written (group : ℕ) (write : Write) (rows : ℕ → ℕ → ℕ → ℤ) (other slot col : ℕ) : ℤ :=
  if other = group ∧ slot = write.row then write.put col (rows other slot col)
  else rows other slot col

/-- Staging a write and setting the count of its row. -/
def BlockTables.put (tables : BlockTables) (group : ℕ) (write : Write) (count : ℕ) :
    BlockTables :=
  { tables.stage group write.row write.start write.ids with
    numBlocksNp := Function.update tables.numBlocksNp group
      (Function.update (tables.numBlocksNp group) write.row count) }

theorem stage_setNumBlocks_eq_ok {tables after : BlockTables} {group : ℕ} {write : Write}
    {count : ℕ} :
    (tables.stage group write.row write.start write.ids).setNumBlocks group write.row count =
        .ok after ↔
      write.row < tables.maxNumReqs ∧ after = tables.put group write count := by
  rw [BlockTables.setNumBlocks, bind_eq_ok]
  constructor
  · rintro ⟨token, hrow, hafter⟩
    rw [pure_eq_ok] at hafter
    exact ⟨require_eq_ok.mp hrow, hafter.symm⟩
  · rintro ⟨hrow, rfl⟩
    exact ⟨(), require_eq_ok.mpr hrow, rfl⟩

theorem getElem?_put {tables : BlockTables} {group count : ℕ} {write : Write} (other : ℕ) :
    (tables.put group write count).blockTables[other]? =
      if group = other then
        tables.blockTables[other]?.map (·.stageWrite write.row write.start write.ids)
      else tables.blockTables[other]? := by
  change (tables.blockTables.modify group _)[other]? = _
  rw [List.getElem?_modify]
  by_cases heq : group = other
  · simp [heq]
  · simp [heq]

theorem numRows_stageWrite (tensor : StagedWriteTensor) (index start : ℕ) (x : List ℤ) :
    (tensor.stageWrite index start x).numRows = tensor.numRows := by
  rw [StagedWriteTensor.stageWrite]
  split <;> rfl

theorem numCols_stageWrite (tensor : StagedWriteTensor) (index start : ℕ) (x : List ℤ) :
    (tensor.stageWrite index start x).numCols = tensor.numCols := by
  rw [StagedWriteTensor.stageWrite]
  split <;> rfl

theorem gpu_stageWrite (tensor : StagedWriteTensor) (index start : ℕ) (x : List ℤ) :
    (tensor.stageWrite index start x).gpu = tensor.gpu := by
  rw [StagedWriteTensor.stageWrite]
  split <;> rfl

theorem map_modify_eq {A B : Type*} {view : A → B} {change : A → A}
    (hsame : ∀ value, view (change value) = view value) (items : List A) (index : ℕ) :
    (items.modify index change).map view = items.map view := by
  apply List.ext_getElem?
  intro other
  rw [List.getElem?_map, List.getElem?_map, List.getElem?_modify, Option.map_eq_map,
    Option.map_map]
  congr 1
  funext value
  by_cases heq : index = other
  · simpa [heq] using hsame value
  · simp [heq]

theorem put_sameShape {tables : BlockTables} {group count : ℕ} {write : Write} :
    SameShape tables (tables.put group write count) where
  blockSizes := rfl
  kernelBlockSizes := rfl
  groupCpSizes := rfl
  maxNumReqs := rfl
  maxNumBatchedTokens := rfl
  cpSize := rfl
  cpRank := rfl
  cpInterleave := rfl
  blocksPerKvBlock := rfl
  numRows := map_modify_eq (fun _ => numRows_stageWrite _ _ _ _) _ _
  numCols := map_modify_eq (fun _ => numCols_stageWrite _ _ _ _) _ _
  poolNumBlocks := rfl

theorem landed_append {writes : List Write} {write : Write}
    (hfree : ∀ other ∈ writes, other.row ≠ write.row) (before : ℕ → ℕ → ℤ) (slot col : ℕ) :
    landed (writes ++ [write]) before slot col =
      if slot = write.row then write.put col (landed writes before slot col)
      else landed writes before slot col := by
  by_cases hslot : slot = write.row
  · subst hslot
    have hnone : writes.find? (·.row = write.row) = none :=
      List.find?_eq_none.mpr fun other hmem => by simpa using hfree other hmem
    rw [if_pos rfl, landed_of_notMem hfree, landed, List.find?_append, hnone]
    simp
  · have hlast : [write].find? (·.row = slot) = none := by
      simpa using fun heq => hslot heq.symm
    rw [if_neg hslot, landed, landed, List.find?_append, hlast, Option.or_none]

/-- A write to a slot that the call has not touched. -/
theorem BlockTables.Pending.put {tables : BlockTables} {touched : ℕ → List ℕ}
    {rows : ℕ → ℕ → ℕ → ℤ} (hpending : tables.Pending touched rows) {group count : ℕ}
    {write : Write} (hfree : write.row ∉ touched group)
    (hrow : ∀ table, tables.blockTables[group]? = some table → write.row < table.numRows) :
    (tables.put group write count).Pending
      (Function.update touched group (write.row :: touched group))
      (written group write rows) := by
  intro other table htable
  rw [getElem?_put] at htable
  by_cases hother : group = other
  · subst hother
    rw [if_pos rfl, Option.map_eq_some_iff] at htable
    obtain ⟨before, hbefore, rfl⟩ := htable
    obtain ⟨writes, hstages, htouched, hrows⟩ := hpending group before hbefore
    have hfresh : ∀ other ∈ writes, other.row ≠ write.row := fun other hmem heq =>
      hfree (heq ▸ htouched other hmem)
    rw [numCols_stageWrite, gpu_stageWrite, Function.update_self]
    by_cases hids : write.ids = []
    · refine ⟨writes, ?_, fun other hmem => List.mem_cons_of_mem _ (htouched other hmem), ?_⟩
      · rw [StagedWriteTensor.stageWrite, if_pos hids]
        exact hstages
      · intro slot col hcol
        rw [hrows slot col hcol, written, Write.put, hids]
        by_cases hslot : group = group ∧ slot = write.row
        · rw [if_pos hslot, if_neg (by simp)]
        · rw [if_neg hslot]
    · refine ⟨writes ++ [write], hstages.stageWrite hids (hrow before hbefore) hfresh, ?_, ?_⟩
      · intro other hmem
        rcases List.mem_append.mp hmem with hearlier | hlast
        · exact List.mem_cons_of_mem _ (htouched other hearlier)
        · rw [List.mem_singleton.mp hlast]
          exact List.mem_cons_self
      · intro slot col hcol
        rw [landed_append hfresh, hrows slot col hcol, written]
        by_cases hslot : slot = write.row
        · rw [if_pos hslot, if_pos ⟨rfl, hslot⟩]
        · rw [if_neg hslot, if_neg fun heq => hslot heq.2]
  · rw [if_neg hother] at htable
    obtain ⟨writes, hstages, htouched, hrows⟩ := hpending other table htable
    rw [Function.update_of_ne (Ne.symm hother)]
    refine ⟨writes, hstages, htouched, fun slot col hcol => ?_⟩
    rw [hrows slot col hcol, written, if_neg fun heq => hother heq.1.symm]

/-! ## One group -/

/-- The list that rewrites a group, if there is one. -/
def Call.rewrite (call : Call) (group : ℕ) : Option (List ℤ) :=
  (call.rewriteIds.getD []).getD group none

/-- The delta of a group. -/
def Call.delta (call : Call) (group : ℕ) : List ℤ :=
  (call.newBlockIds.getD []).getD group []

/-- The ids lie in the pool of the group, as far as its size is known. -/
def InPool (pools : Option (List (Option ℕ))) (group : ℕ) (ids : List ℤ) : Prop :=
  ∀ size, (pools.getD []).getD group none = some size → ∀ id ∈ ids, 0 ≤ id ∧ id < size

theorem item_eq_ok {A : Type} {items : List A} {index : ℕ} {value : A} :
    item items index = .ok value ↔ items[index]? = some value := by
  rw [item]
  cases items[index]? with
  | none => simp
  | some found => simp

theorem getD_of_item {A : Type} {items : List A} {index : ℕ} {value default : A}
    (hitem : item items index = .ok value) : items.getD index default = value := by
  rw [List.getD_eq_getElem?_getD, item_eq_ok.mp hitem, Option.getD_some]

theorem inPool_of_outOfPool {pools : Option (List (Option ℕ))} {group : ℕ} {ids : List ℤ}
    {rejected : Bool} (hcheck : outOfPool pools group ids = .ok rejected) :
    InPool pools group ids ↔ rejected = false := by
  cases pools with
  | none =>
      rw [outOfPool, pure_eq_ok] at hcheck
      subst hcheck
      exact iff_of_true (fun size hsize => by simp at hsize) rfl
  | some sizes =>
      rw [outOfPool] at hcheck
      by_cases hids : ids = []
      · rw [if_pos hids, pure_eq_ok] at hcheck
        subst hcheck hids
        exact iff_of_true (fun _ _ id hid => (List.not_mem_nil hid).elim) rfl
      · rw [if_neg hids, bind_eq_ok] at hcheck
        obtain ⟨size, hsize, hcheck⟩ := hcheck
        cases size with
        | none => cases hcheck
        | some size =>
            rw [pure_eq_ok] at hcheck
            subst hcheck
            have hfound : (sizes.getD group none) = some size := getD_of_item hsize
            rw [InPool, Option.getD_some, hfound]
            simp only [Option.some.injEq, forall_eq', List.any_eq_false, decide_eq_true_eq]
            refine forall₂_congr fun id _ => ?_
            omega

/-- What is left of a list in a row of some width. -/
def BlockTables.kept (tables : BlockTables) (group : ℕ) (ids : List ℤ) : List ℤ :=
  (kernelIds (tables.ratio group) ids).take (tables.width group)

/-- The write that replaces a row. -/
def BlockTables.replacement (tables : BlockTables) (group slot : ℕ) (ids : List ℤ) : Write where
  row := slot
  start := 0
  ids := tables.kept group ids ++
    List.replicate (tables.width group - (tables.kept group ids).length) 0

/-- The write that extends a row. -/
def BlockTables.extension (tables : BlockTables) (group slot : ℕ) (overwrite : Bool)
    (ids : List ℤ) : Write where
  row := slot
  start := if overwrite then 0 else tables.numBlocksNp group slot
  ids := kernelIds (tables.ratio group) ids

/-- The count of the row after an extension. -/
def Write.stop (write : Write) : ℕ :=
  write.start + write.ids.length

theorem rewriteGroup_eq_ok {slot group : ℕ} {ids : List ℤ} {state next : Appending}
    (hrewrite : rewriteGroup slot group ids state = .ok next) :
    (¬ InPool state.tables.poolNumBlocks group (kernelIds (state.tables.ratio group) ids) ∧
      next = { state with returned := true }) ∨
    (InPool state.tables.poolNumBlocks group (kernelIds (state.tables.ratio group) ids) ∧
      slot < state.tables.maxNumReqs ∧
      next = { state with
        tables := state.tables.put group (state.tables.replacement group slot ids)
          (state.tables.kept group ids).length }) := by
  rw [rewriteGroup, bind_eq_ok] at hrewrite
  obtain ⟨ratio, hratio, hrewrite⟩ := hrewrite
  rw [bind_eq_ok] at hrewrite
  obtain ⟨table, htable, hrewrite⟩ := hrewrite
  rw [bind_eq_ok] at hrewrite
  obtain ⟨rejected, hcheck, hrewrite⟩ := hrewrite
  have hratio' : state.tables.ratio group = ratio := getD_of_item hratio
  have hwidth : state.tables.width group = table.numCols := width_eq (item_eq_ok.mp htable)
  subst hratio'
  cases rejected with
  | true =>
      rw [if_pos rfl, pure_eq_ok] at hrewrite
      exact Or.inl ⟨fun hpool => Bool.noConfusion ((inPool_of_outOfPool hcheck).mp hpool),
        hrewrite.symm⟩
  | false =>
      rw [if_neg Bool.false_ne_true, bind_eq_ok] at hrewrite
      obtain ⟨tables, hset, hrewrite⟩ := hrewrite
      rw [pure_eq_ok] at hrewrite
      rw [← hwidth] at hset
      obtain ⟨hslot, htables⟩ := (@stage_setNumBlocks_eq_ok state.tables tables group
        (state.tables.replacement group slot ids) (state.tables.kept group ids).length).mp hset
      exact Or.inr ⟨(inPool_of_outOfPool hcheck).mpr rfl, hslot, by rw [← hrewrite, htables]⟩

theorem deltaOf_eq_ok {newBlockIds : Option (List (List ℤ))} {group : ℕ} {ids : List ℤ}
    (hdelta : deltaOf newBlockIds group = .ok ids) :
    (newBlockIds.getD []).getD group [] = ids := by
  cases newBlockIds with
  | none =>
      rw [deltaOf, pure_eq_ok] at hdelta
      subst hdelta
      rfl
  | some lists =>
      cases lists with
      | nil =>
          rw [deltaOf, pure_eq_ok] at hdelta
          subst hdelta
          rfl
      | cons head lists => exact getD_of_item hdelta

theorem extendGroup_eq_ok {slot group : ℕ} {overwrite : Bool} {state next : Appending}
    (hextend : extendGroup slot group overwrite state = .ok next) :
    let delta := (state.newBlockIds.getD []).getD group []
    slot < state.tables.maxNumReqs ∧
    ((InPool state.tables.poolNumBlocks group delta ∧
      (state.tables.extension group slot overwrite delta).stop ≤ state.tables.width group ∧
      next = { state with
        tables := state.tables.put group (state.tables.extension group slot overwrite delta)
          (state.tables.extension group slot overwrite delta).stop }) ∨
    (¬ InPool state.tables.poolNumBlocks group delta ∧
      next = { state with
        tables := state.tables.put group (state.tables.extension group slot overwrite [])
          (state.tables.extension group slot overwrite []).stop
        newBlockIds := none })) := by
  intro delta
  rw [extendGroup, bind_eq_ok] at hextend
  obtain ⟨ratio, hratio, hextend⟩ := hextend
  rw [bind_eq_ok] at hextend
  obtain ⟨_, -, hextend⟩ := hextend
  dsimp only at hextend
  rw [bind_eq_ok] at hextend
  obtain ⟨ids, hdelta, hextend⟩ := hextend
  rw [bind_eq_ok] at hextend
  obtain ⟨rejected, hcheck, hextend⟩ := hextend
  rw [bind_eq_ok] at hextend
  obtain ⟨table, htable, hextend⟩ := hextend
  rw [bind_eq_ok] at hextend
  obtain ⟨_, hroom, hextend⟩ := hextend
  have hroom := require_eq_ok.mp hroom
  rw [bind_eq_ok] at hextend
  obtain ⟨tables, hset, hextend⟩ := hextend
  rw [pure_eq_ok] at hextend
  have hratio' : state.tables.ratio group = ratio := getD_of_item hratio
  have hwidth : state.tables.width group = table.numCols := width_eq (item_eq_ok.mp htable)
  have hids : delta = ids := deltaOf_eq_ok hdelta
  subst hratio'
  rw [← hids] at hcheck hroom hset
  rw [← hwidth] at hroom
  cases rejected with
  | true =>
      rw [if_pos rfl] at hset hextend
      have hnone : (state.tables.extension group slot overwrite []).ids = [] := by
        rw [BlockTables.extension, kernelIds, List.flatMap_nil, ite_self]
      have hset : (state.tables.stage group slot
          (state.tables.extension group slot overwrite []).start
          (state.tables.extension group slot overwrite []).ids).setNumBlocks group slot
            (state.tables.extension group slot overwrite []).stop = .ok tables := by
        rw [Write.stop, hnone]
        exact hset
      obtain ⟨hslot, htables⟩ := (@stage_setNumBlocks_eq_ok state.tables tables group
        (state.tables.extension group slot overwrite []) _).mp hset
      refine ⟨hslot, Or.inr ⟨fun hpool =>
        Bool.noConfusion ((inPool_of_outOfPool hcheck).mp hpool), ?_⟩⟩
      rw [← hextend, htables]
  | false =>
      rw [if_neg Bool.false_ne_true] at hset hextend hroom
      obtain ⟨hslot, htables⟩ := (@stage_setNumBlocks_eq_ok state.tables tables group
        (state.tables.extension group slot overwrite delta) _).mp hset
      refine ⟨hslot, Or.inl ⟨(inPool_of_outOfPool hcheck).mpr rfl, hroom, ?_⟩⟩
      rw [← hextend, htables]
      rfl

/-! ## A call -/

/-- The rewrite of a group lies outside its pool. -/
def Call.Ends (call : Call) (tables : BlockTables) (group : ℕ) : Prop :=
  ∃ ids, call.rewrite group = some ids ∧
    ¬ InPool tables.poolNumBlocks group (kernelIds (tables.ratio group) ids)

/-- The delta of a group lies outside its pool. -/
def Call.Drops (call : Call) (tables : BlockTables) (group : ℕ) : Prop :=
  call.rewrite group = none ∧ ¬ InPool tables.poolNumBlocks group (call.delta group)

/-- The call does not reach the row of a group. -/
def Call.Stopped (call : Call) (tables : BlockTables) (group : ℕ) : Prop :=
  ∃ earlier ≤ group, call.Ends tables earlier

/-- The delta of a group is lost. -/
def Call.Dropped (call : Call) (tables : BlockTables) (group : ℕ) : Prop :=
  ∃ earlier ≤ group, call.Drops tables earlier

/-- A write has been made to the row of the call in a group. -/
def Made (call : Call) (group : ℕ) (write : Write) (count : ℕ)
    (after : BlockTables) (rows rows' : ℕ → ℕ → ℕ → ℤ) : Prop :=
  after.numBlocksNp group call.reqIndex = count ∧
    ∀ col, rows' group call.reqIndex col = write.put col (rows group call.reqIndex col)

/-- What a call leaves in the row of one group. -/
structure Effect (call : Call) (before after : BlockTables) (rows rows' : ℕ → ℕ → ℕ → ℤ)
    (group : ℕ) : Prop where
  stopped : call.Stopped before group →
    after.numBlocksNp group call.reqIndex = before.numBlocksNp group call.reqIndex ∧
      ∀ col, rows' group call.reqIndex col = rows group call.reqIndex col
  rewritten : ¬ call.Stopped before group → ∀ ids, call.rewrite group = some ids →
    Made call group (before.replacement group call.reqIndex ids)
      (before.kept group ids).length after rows rows'
  extended : ¬ call.Stopped before group → call.rewrite group = none →
    ¬ call.Dropped before group →
      (before.extension group call.reqIndex call.overwrite (call.delta group)).stop ≤
        before.width group ∧
      Made call group
        (before.extension group call.reqIndex call.overwrite (call.delta group))
        (before.extension group call.reqIndex call.overwrite (call.delta group)).stop
        after rows rows'
  dropped : ¬ call.Stopped before group → call.rewrite group = none →
    call.Dropped before group →
      Made call group (before.extension group call.reqIndex call.overwrite [])
        (before.extension group call.reqIndex call.overwrite []).stop after rows rows'

/-- The tables after the first groups. -/
structure Reached (call : Call) (before : BlockTables) (touched : ℕ → List ℕ)
    (rows : ℕ → ℕ → ℕ → ℤ) (count : ℕ) (state : Appending) (rows' : ℕ → ℕ → ℕ → ℤ) :
    Prop where
  shape : SameShape before state.tables
  pending : state.tables.Pending
    (fun group => if group < count then call.reqIndex :: touched group else touched group) rows'
  others : ∀ group slot, slot ≠ call.reqIndex ∨ count ≤ group →
    state.tables.numBlocksNp group slot = before.numBlocksNp group slot ∧
      ∀ col, rows' group slot col = rows group slot col
  effects : ∀ group < count, Effect call before state.tables rows rows' group
  returned : state.returned = true ↔ ∃ earlier < count, call.Ends before earlier
  lost : (∃ earlier < count, call.Drops before earlier) → state.returned = false →
    state.newBlockIds = none
  whole : (¬ ∃ earlier < count, call.Drops before earlier) → state.returned = false →
    state.newBlockIds = call.newBlockIds

theorem BlockTables.Pending.mono {tables : BlockTables} {touched touched' : ℕ → List ℕ}
    {rows : ℕ → ℕ → ℕ → ℤ} (hpending : tables.Pending touched rows)
    (hsubset : ∀ group, touched group ⊆ touched' group) : tables.Pending touched' rows := by
  intro group table htable
  obtain ⟨writes, hstages, htouched, hrows⟩ := hpending group table htable
  exact ⟨writes, hstages, fun write hmem => hsubset group (htouched write hmem), hrows⟩

theorem exists_lt_succ {count : ℕ} {condition : ℕ → Prop} :
    (∃ earlier < count + 1, condition earlier) ↔
      (∃ earlier < count, condition earlier) ∨ condition count := by
  constructor
  · rintro ⟨earlier, hlt, hcondition⟩
    rcases Nat.lt_succ_iff_lt_or_eq.mp hlt with hbefore | rfl
    · exact Or.inl ⟨earlier, hbefore, hcondition⟩
    · exact Or.inr hcondition
  · rintro (⟨earlier, hlt, hcondition⟩ | hcondition)
    · exact ⟨earlier, Nat.lt_succ_of_lt hlt, hcondition⟩
    · exact ⟨count, Nat.lt_succ_self count, hcondition⟩

theorem Made.congr {call : Call} {group count : ℕ} {write : Write}
    {after after' : BlockTables} {rows rows' rows'' : ℕ → ℕ → ℕ → ℤ}
    (hmade : Made call group write count after rows rows')
    (hcount : after'.numBlocksNp group call.reqIndex = after.numBlocksNp group call.reqIndex)
    (hrows : ∀ col, rows'' group call.reqIndex col = rows' group call.reqIndex col) :
    Made call group write count after' rows rows'' :=
  ⟨hcount.trans hmade.1, fun col => (hrows col).trans (hmade.2 col)⟩

/-- The effect on a group is read off its own row. -/
theorem Effect.congr {call : Call} {group : ℕ} {before after after' : BlockTables}
    {rows rows' rows'' : ℕ → ℕ → ℕ → ℤ} (heffect : Effect call before after rows rows' group)
    (hcount : after'.numBlocksNp group call.reqIndex = after.numBlocksNp group call.reqIndex)
    (hrows : ∀ col, rows'' group call.reqIndex col = rows' group call.reqIndex col) :
    Effect call before after' rows rows'' group where
  stopped := fun hstopped =>
    ⟨hcount.trans (heffect.stopped hstopped).1,
      fun col => (hrows col).trans ((heffect.stopped hstopped).2 col)⟩
  rewritten := fun hrunning ids hids =>
    (heffect.rewritten hrunning ids hids).congr hcount hrows
  extended := fun hrunning hnone hwhole =>
    ⟨(heffect.extended hrunning hnone hwhole).1,
      (heffect.extended hrunning hnone hwhole).2.congr hcount hrows⟩
  dropped := fun hrunning hnone hdropped =>
    (heffect.dropped hrunning hnone hdropped).congr hcount hrows

section Steps

variable {call : Call} {before : BlockTables} {touched : ℕ → List ℕ}
  {rows rows' : ℕ → ℕ → ℕ → ℤ} {count : ℕ} {state : Appending}

/-- The call has been left already. -/
theorem Reached.skip (hreached : Reached call before touched rows count state rows')
    (hreturned : state.returned = true) :
    Reached call before touched rows (count + 1) state rows' where
  shape := hreached.shape
  pending := hreached.pending.mono fun group => by
    by_cases hlt : group < count
    · rw [if_pos hlt, if_pos (Nat.lt_succ_of_lt hlt)]
      exact List.Subset.refl _
    · rw [if_neg hlt]
      split
      · exact List.subset_cons_self _ _
      · exact List.Subset.refl _
  others := fun group slot hother =>
    hreached.others group slot (hother.imp_right Nat.le_of_succ_le)
  effects := fun group hgroup => by
    rcases Nat.lt_succ_iff_lt_or_eq.mp hgroup with hlt | rfl
    · exact hreached.effects group hlt
    · obtain ⟨earlier, hearlier, hends⟩ := hreached.returned.mp hreturned
      have hstopped : call.Stopped before group := ⟨earlier, hearlier.le, hends⟩
      exact {
        stopped := fun _ => hreached.others group call.reqIndex (Or.inr le_rfl)
        rewritten := fun hrunning => absurd hstopped hrunning
        extended := fun hrunning => absurd hstopped hrunning
        dropped := fun hrunning => absurd hstopped hrunning }
  returned := iff_of_true hreturned
    (exists_lt_succ.mpr (Or.inl (hreached.returned.mp hreturned)))
  lost := fun _ hrunning => absurd hreturned (by rw [hrunning]; exact Bool.false_ne_true)
  whole := fun _ hrunning => absurd hreturned (by rw [hrunning]; exact Bool.false_ne_true)

/-- A rewrite outside the pool leaves the call. -/
theorem Reached.leave (hreached : Reached call before touched rows count state rows')
    (hends : call.Ends before count) :
    Reached call before touched rows (count + 1) { state with returned := true } rows' := by
  have hreturned : ∃ earlier < count + 1, call.Ends before earlier :=
    ⟨count, Nat.lt_succ_self count, hends⟩
  have hstopped : call.Stopped before count := ⟨count, le_rfl, hends⟩
  refine ⟨hreached.shape, hreached.pending.mono fun group => ?_, fun group slot hother =>
    hreached.others group slot (hother.imp_right Nat.le_of_succ_le), fun group hgroup => ?_,
    iff_of_true rfl hreturned, fun _ hrunning => Bool.noConfusion hrunning,
    fun _ hrunning => Bool.noConfusion hrunning⟩
  · by_cases hlt : group < count
    · rw [if_pos hlt, if_pos (Nat.lt_succ_of_lt hlt)]
      exact List.Subset.refl _
    · rw [if_neg hlt]
      split
      · exact List.subset_cons_self _ _
      · exact List.Subset.refl _
  · rcases Nat.lt_succ_iff_lt_or_eq.mp hgroup with hlt | rfl
    · exact hreached.effects group hlt
    · exact {
        stopped := fun _ => hreached.others group call.reqIndex (Or.inr le_rfl)
        rewritten := fun hrunning => absurd hstopped hrunning
        extended := fun hrunning => absurd hstopped hrunning
        dropped := fun hrunning => absurd hstopped hrunning }

/-- A group whose row is written. -/
theorem Reached.write (hreached : Reached call before touched rows count state rows')
    (hrunning : state.returned = false) (hstays : ¬ call.Ends before count)
    (hfree : call.reqIndex ∉ touched count)
    (hrow : ∀ table, before.blockTables[count]? = some table → call.reqIndex < table.numRows)
    {write : Write} {stop : ℕ} {newBlockIds : Option (List (List ℤ))}
    (hwrite : write.row = call.reqIndex)
    (heffect : ∀ after rows'', Made call count write stop after rows rows'' →
      Effect call before after rows rows'' count)
    (hlost : call.Drops before count ∨ state.newBlockIds = none → newBlockIds = none)
    (hwhole : ¬ call.Drops before count → newBlockIds = state.newBlockIds) :
    Reached call before touched rows (count + 1)
      { tables := state.tables.put count write stop
        newBlockIds := newBlockIds
        returned := state.returned }
      (written count write rows') := by
  have hnone : ¬ ∃ earlier < count + 1, call.Ends before earlier := by
    rw [exists_lt_succ, not_or]
    exact ⟨fun hends => Bool.noConfusion ((hreached.returned.mpr hends).symm.trans hrunning),
      hstays⟩
  have htouched : ∀ group,
      (Function.update
        (fun group => if group < count then call.reqIndex :: touched group else touched group)
        count (write.row ::
          if count < count then call.reqIndex :: touched count else touched count)) group =
        if group < count + 1 then call.reqIndex :: touched group else touched group := by
    intro group
    by_cases hgroup : group = count
    · subst hgroup
      rw [Function.update_self, if_neg (Nat.lt_irrefl _), if_pos (Nat.lt_succ_self _), hwrite]
    · rw [Function.update_of_ne hgroup]
      by_cases hlt : group < count
      · rw [if_pos hlt, if_pos (Nat.lt_succ_of_lt hlt)]
      · rw [if_neg hlt, if_neg fun hle => hlt (by omega)]
  have hapart : ∀ group slot, group ≠ count ∨ slot ≠ call.reqIndex →
      (state.tables.put count write stop).numBlocksNp group slot =
          state.tables.numBlocksNp group slot ∧
        ∀ col, written count write rows' group slot col = rows' group slot col := by
    intro group slot hother
    refine ⟨?_, fun col => ?_⟩
    · change Function.update state.tables.numBlocksNp count _ group slot = _
      by_cases hgroup : group = count
      · subst hgroup
        rw [Function.update_self, Function.update_of_ne]
        rw [hwrite]
        exact hother.resolve_left fun hne => hne rfl
      · rw [Function.update_of_ne hgroup]
    · rw [written, if_neg]
      rintro ⟨hgroup, hslot⟩
      exact hother.elim (fun hne => hne hgroup) fun hne => hne (hslot.trans hwrite)
  refine ⟨hreached.shape.trans put_sameShape, ?_, ?_, ?_,
    iff_of_false (by rw [hrunning]; exact Bool.false_ne_true) hnone, ?_, ?_⟩
  · refine (hreached.pending.put ?_ ?_).mono fun group => by
      rw [htouched group]
      exact List.Subset.refl _
    · rw [if_neg (Nat.lt_irrefl _), hwrite]
      exact hfree
    · intro table htable
      rw [hwrite]
      have hrows : (before.blockTables.map (·.numRows))[count]? = some table.numRows := by
        rw [← hreached.shape.numRows, List.getElem?_map, htable]
        rfl
      rw [List.getElem?_map, Option.map_eq_some_iff] at hrows
      obtain ⟨found, hfound, hsame⟩ := hrows
      rw [← hsame]
      exact hrow found hfound
  · intro group slot hother
    have hbefore := hreached.others group slot (hother.imp_right Nat.le_of_succ_le)
    have hsame := hapart group slot (hother.symm.imp (fun hle => by omega) id)
    exact ⟨hsame.1.trans hbefore.1, fun col => (hsame.2 col).trans (hbefore.2 col)⟩
  · intro group hgroup
    rcases Nat.lt_succ_iff_lt_or_eq.mp hgroup with hlt | rfl
    · have hsame := hapart group call.reqIndex (Or.inl hlt.ne)
      exact (hreached.effects group hlt).congr hsame.1 hsame.2
    · refine heffect _ _ ⟨?_, fun col => ?_⟩
      · change Function.update state.tables.numBlocksNp group _ group call.reqIndex = _
        rw [Function.update_self, hwrite, Function.update_self]
      · rw [written, if_pos ⟨rfl, hwrite.symm⟩,
          (hreached.others group call.reqIndex (Or.inr le_rfl)).2]
  · intro hdropped _
    rcases exists_lt_succ.mp hdropped with hearlier | hnow
    · exact hlost (Or.inr (hreached.lost hearlier hrunning))
    · exact hlost (Or.inl hnow)
  · intro hkept _
    rw [exists_lt_succ, not_or] at hkept
    exact (hwhole hkept.2).trans (hreached.whole hkept.1 hrunning)

theorem SameShape.kept {after : BlockTables} (hshape : SameShape before after) (group : ℕ)
    (ids : List ℤ) : after.kept group ids = before.kept group ids := by
  rw [BlockTables.kept, hshape.ratio, hshape.width, BlockTables.kept]

theorem SameShape.replacement {after : BlockTables} (hshape : SameShape before after)
    (group slot : ℕ) (ids : List ℤ) :
    after.replacement group slot ids = before.replacement group slot ids := by
  rw [BlockTables.replacement, hshape.kept, hshape.width, BlockTables.replacement]

theorem SameShape.extension {after : BlockTables} (hshape : SameShape before after)
    {group slot : ℕ} (hcount : after.numBlocksNp group slot = before.numBlocksNp group slot)
    (overwrite : Bool) (ids : List ℤ) :
    after.extension group slot overwrite ids = before.extension group slot overwrite ids := by
  rw [BlockTables.extension, hshape.ratio, hcount, BlockTables.extension]

theorem rewriteOf_eq_ok {found : Option (List ℤ)}
    (hrewrite : rewriteOf call.rewriteIds count = .ok found) : call.rewrite count = found := by
  rw [Call.rewrite]
  generalize call.rewriteIds = rewriteIds at hrewrite ⊢
  cases rewriteIds with
  | none =>
      rw [rewriteOf, pure_eq_ok] at hrewrite
      subst hrewrite
      rfl
  | some lists => exact getD_of_item hrewrite

/-- One round of the loop over the groups. -/
theorem Reached.step (hreached : Reached call before touched rows count state rows')
    (hfree : call.reqIndex ∉ touched count)
    (hrow : ∀ table, before.blockTables[count]? = some table → call.reqIndex < table.numRows)
    {next : Appending}
    (hstep : appendGroup call.reqIndex call.overwrite call.rewriteIds state count = .ok next) :
    ∃ rows'', Reached call before touched rows (count + 1) next rows'' := by
  rw [appendGroup] at hstep
  cases hrunning : state.returned with
  | true =>
      rw [if_pos hrunning, pure_eq_ok] at hstep
      subst hstep
      exact ⟨rows', hreached.skip hrunning⟩
  | false =>
      rw [if_neg (by rw [hrunning]; exact Bool.false_ne_true), bind_eq_ok] at hstep
      obtain ⟨found, hfound, hstep⟩ := hstep
      have hrewrite : call.rewrite count = found := rewriteOf_eq_ok hfound
      have hcount := (hreached.others count call.reqIndex (Or.inr le_rfl)).1
      have hearlier : ¬ ∃ earlier < count, call.Ends before earlier := fun hends =>
        Bool.noConfusion ((hreached.returned.mpr hends).symm.trans hrunning)
      cases found with
      | some ids =>
          have hkept : ¬ call.Drops before count := fun hdrops => by
            rw [hdrops.1] at hrewrite
            cases hrewrite
          rcases rewriteGroup_eq_ok hstep with ⟨hout, rfl⟩ | ⟨hpool, _, rfl⟩
          · rw [hreached.shape.poolNumBlocks, hreached.shape.ratio] at hout
            exact ⟨rows', hreached.leave ⟨ids, hrewrite, hout⟩⟩
          · rw [hreached.shape.poolNumBlocks, hreached.shape.ratio] at hpool
            have hstays : ¬ call.Ends before count := by
              rintro ⟨other, hother, hout⟩
              rw [hrewrite, Option.some_inj] at hother
              subst hother
              exact hout hpool
            rw [hreached.shape.replacement, hreached.shape.kept]
            refine ⟨_, hreached.write hrunning hstays hfree hrow rfl ?_
              (fun hlost => hlost.elim (fun hdrops => absurd hdrops hkept) id) fun _ => rfl⟩
            intro after rows'' hmade
            have hreaches : ¬ call.Stopped before count := by
              rintro ⟨earlier, hle, hends⟩
              rcases Nat.lt_or_eq_of_le hle with hlt | rfl
              · exact hearlier ⟨earlier, hlt, hends⟩
              · exact hstays hends
            exact {
              stopped := fun hstopped => absurd hstopped hreaches
              rewritten := fun _ other hother => by
                rw [hrewrite, Option.some_inj] at hother
                subst hother
                exact hmade
              extended := fun _ hnone => by
                rw [hrewrite] at hnone
                cases hnone
              dropped := fun _ hnone => by
                rw [hrewrite] at hnone
                cases hnone }
      | none =>
          have hstays : ¬ call.Ends before count := by
            rintro ⟨other, hother, -⟩
            rw [hrewrite] at hother
            cases hother
          have hreaches : ¬ call.Stopped before count := by
            rintro ⟨earlier, hle, hends⟩
            rcases Nat.lt_or_eq_of_le hle with hlt | rfl
            · exact hearlier ⟨earlier, hlt, hends⟩
            · exact hstays hends
          obtain ⟨-, hcases⟩ := extendGroup_eq_ok hstep
          have hpoolIff : ∀ ids, InPool state.tables.poolNumBlocks count ids ↔
              InPool before.poolNumBlocks count ids := by
            intro ids
            rw [hreached.shape.poolNumBlocks]
          by_cases hlost : ∃ earlier < count, call.Drops before earlier
          · -- The delta has been lost before: nothing is left to append.
            have hdelta : (state.newBlockIds.getD []).getD count [] = [] := by
              rw [hreached.lost hlost hrunning]
              rfl
            have hdropped : call.Dropped before count := by
              obtain ⟨earlier, hlt, hdrops⟩ := hlost
              exact ⟨earlier, hlt.le, hdrops⟩
            rw [hdelta] at hcases
            rcases hcases with ⟨_, _, rfl⟩ | ⟨hout, _⟩
            · rw [hreached.shape.extension hcount]
              refine ⟨_, hreached.write hrunning hstays hfree hrow rfl ?_
                (fun _ => hreached.lost hlost hrunning) fun _ => rfl⟩
              intro after rows'' hmade
              exact {
                stopped := fun hstopped => absurd hstopped hreaches
                rewritten := fun _ other hother => by
                  rw [hrewrite] at hother
                  cases hother
                extended := fun _ _ hwhole => absurd hdropped hwhole
                dropped := fun _ _ _ => hmade }
            · exact absurd (fun _ _ id hid => (List.not_mem_nil hid).elim) hout
          · have hdelta : (state.newBlockIds.getD []).getD count [] = call.delta count := by
              rw [hreached.whole hlost hrunning, Call.delta]
            rw [hdelta, hpoolIff, hreached.shape.width, hreached.shape.extension hcount,
              hreached.shape.extension hcount] at hcases
            rcases hcases with ⟨hpool, hroom, rfl⟩ | ⟨hout, rfl⟩
            · have hkept : ¬ call.Drops before count := fun hdrops => hdrops.2 hpool
              have hwhole : ¬ call.Dropped before count := by
                rintro ⟨earlier, hle, hdrops⟩
                rcases Nat.lt_or_eq_of_le hle with hlt | rfl
                · exact hlost ⟨earlier, hlt, hdrops⟩
                · exact hkept hdrops
              refine ⟨_, hreached.write hrunning hstays hfree hrow rfl ?_
                (fun hgone => hgone.elim (fun hdrops => absurd hdrops hkept) id) fun _ => rfl⟩
              intro after rows'' hmade
              exact {
                stopped := fun hstopped => absurd hstopped hreaches
                rewritten := fun _ other hother => by
                  rw [hrewrite] at hother
                  cases hother
                extended := fun _ _ _ => ⟨hroom, hmade⟩
                dropped := fun _ _ hdropped => absurd hdropped hwhole }
            · have hdrops : call.Drops before count := ⟨hrewrite, hout⟩
              have hdropped : call.Dropped before count := ⟨count, le_rfl, hdrops⟩
              refine ⟨_, hreached.write hrunning hstays hfree hrow rfl ?_ (fun _ => rfl)
                fun hkept => absurd hdrops hkept⟩
              intro after rows'' hmade
              exact {
                stopped := fun hstopped => absurd hstopped hreaches
                rewritten := fun _ other hother => by
                  rw [hrewrite] at hother
                  cases hother
                extended := fun _ _ hwhole => absurd hdropped hwhole
                dropped := fun _ _ _ => hmade }

theorem Reached.start (hpending : before.Pending touched rows) :
    Reached call before touched rows 0
      { tables := before, newBlockIds := call.newBlockIds, returned := false } rows where
  shape := .rfl'
  pending := hpending.mono fun group => by
    rw [if_neg (Nat.not_lt_zero group)]
    exact List.Subset.refl _
  others := fun _ _ _ => ⟨rfl, fun _ => rfl⟩
  effects := fun _ hlt => absurd hlt (Nat.not_lt_zero _)
  returned := iff_of_false Bool.false_ne_true fun ⟨_, hlt, _⟩ => Nat.not_lt_zero _ hlt
  lost := fun ⟨_, hlt, _⟩ => absurd hlt (Nat.not_lt_zero _)
  whole := fun _ _ => rfl

theorem Reached.loop (hpending : before.Pending touched rows)
    (hfree : ∀ group, call.reqIndex ∉ touched group)
    (hrow : ∀ table ∈ before.blockTables, call.reqIndex < table.numRows)
    (hloop : (List.range count).foldlM
      (appendGroup call.reqIndex call.overwrite call.rewriteIds)
      { tables := before, newBlockIds := call.newBlockIds, returned := false } = .ok state) :
    ∃ rows', Reached call before touched rows count state rows' := by
  induction count generalizing state with
  | zero =>
      rw [List.range_zero, List.foldlM_nil, pure_eq_ok] at hloop
      subst hloop
      exact ⟨rows, Reached.start hpending⟩
  | succ count ih =>
      rw [List.range_succ, List.foldlM_append, bind_eq_ok] at hloop
      obtain ⟨middle, hmiddle, hlast⟩ := hloop
      obtain ⟨rows', hreached⟩ := ih hmiddle
      rw [List.foldlM_cons, bind_eq_ok] at hlast
      obtain ⟨next, hnext, hlast⟩ := hlast
      rw [List.foldlM_nil, pure_eq_ok] at hlast
      subst hlast
      exact hreached.step (hfree count)
        (fun table htable => hrow table (List.mem_of_getElem? htable)) hnext

end Steps

/-- What a call leaves: the effect on each row of its slot, and nothing elsewhere. -/
structure Called (call : Call) (before after : BlockTables) (rows rows' : ℕ → ℕ → ℕ → ℤ) :
    Prop where
  shape : SameShape before after
  others : ∀ group slot, slot ≠ call.reqIndex →
    after.numBlocksNp group slot = before.numBlocksNp group slot ∧
      ∀ col, rows' group slot col = rows group slot col
  effects : ∀ group < before.numKvCacheGroups, Effect call before after rows rows' group

/-- Whatever a call is given, if it returns then every group has had its effect. -/
theorem appendBlockIds_called {call : Call} {before after : BlockTables}
    {touched : ℕ → List ℕ} {rows : ℕ → ℕ → ℕ → ℤ} (hpending : before.Pending touched rows)
    (hfree : ∀ group, call.reqIndex ∉ touched group)
    (hrow : ∀ table ∈ before.blockTables, call.reqIndex < table.numRows)
    (hcall : before.appendBlockIds call.reqIndex call.newBlockIds call.overwrite
      call.rewriteIds = .ok after) :
    ∃ rows', after.Pending (fun group => call.reqIndex :: touched group) rows' ∧
      Called call before after rows rows' := by
  rw [BlockTables.appendBlockIds, bind_eq_ok] at hcall
  obtain ⟨state, hloop, hafter⟩ := hcall
  rw [pure_eq_ok] at hafter
  subst hafter
  obtain ⟨rows', hreached⟩ := Reached.loop hpending hfree hrow hloop
  refine ⟨rows', hreached.pending.mono fun group => ?_, hreached.shape,
    fun group slot hslot => hreached.others group slot (Or.inl hslot), hreached.effects⟩
  split
  · exact List.Subset.refl _
  · exact List.subset_cons_self _ _

end GlmFlash.Worker.BlockTable
