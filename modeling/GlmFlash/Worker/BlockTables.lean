import GlmFlash.Library.Outcome
import GlmFlash.Library.Segments
import GlmFlash.Worker.InputBatch

/-!
# The block tables of the worker

`block_table.py` and the tensors with staged writes of `buffer_utils.py`.  Each cache
group has a table with a row for every request slot.  A step stages the block ids that
the scheduler ships, one kernel writes them all, and two more kernels read the tables:
one gathers the rows of the batch, the other turns token positions into cache slots.
-/

namespace GlmFlash.Worker.BlockTable

open GlmFlash.Library

inductive Failure where
  | assertionError
  | typeError
  | keyError
  | indexError
  | valueError
  | zeroDivisionError
  | runtimeError (text : String)
  deriving DecidableEq, Repr

/-- `items[index]` -/
def item {A : Type} (items : List A) (index : ℕ) : Except Failure A :=
  match items[index]? with
  | some value => .ok value
  | none => .error .indexError

/-! ## Launches -/

inductive BlockKernel where
  | applyWrite
  | gatherBlockTables
  | computeSlotMappings
  deriving DecidableEq, Repr

/-- The order in which the programs of a launch run. -/
structure Schedule where
  order : BlockKernel → ℕ → List ℕ
  order_perm : ∀ kernel count, (order kernel count).Perm (List.range count)

def Schedule.launch {S : Type*} (schedule : Schedule) (kernel : BlockKernel) (count : ℕ)
    (program : ℕ → S → S) (state : S) : S :=
  Library.launch (schedule.order kernel count) program state

/-- A grid of programs over the groups: each works on the tensor of its group. -/
def Schedule.launchGroups (schedule : Schedule) (kernel : BlockKernel) (groups size : ℕ)
    (program : ℕ → ℕ → Tensor → Tensor) (tensors : ℕ → Tensor) : ℕ → Tensor :=
  schedule.launch kernel (groups * size)
    (fun pid tensors => Function.update tensors (pid / size)
      (program (pid / size) (pid % size) (tensors (pid / size)))) tensors

/-! ## Tensors with staged writes -/

structure StagedWrites where
  indices : List ℕ
  starts : List ℕ
  contents : List ℤ
  cuLens : List ℕ

def noWrites : StagedWrites :=
  { indices := [], starts := [], contents := [], cuLens := [] }

structure StagedWriteTensor where
  numRows : ℕ
  numCols : ℕ
  gpu : Tensor
  staged : StagedWrites

/-- `StagedWriteTensor.stage_write`: an empty list is not staged. -/
def StagedWriteTensor.stageWrite (tensor : StagedWriteTensor) (index start : ℕ)
    (x : List ℤ) : StagedWriteTensor :=
  if x = [] then tensor
  else
    { tensor with
      staged :=
        { indices := tensor.staged.indices ++ [index]
          starts := tensor.staged.starts ++ [start]
          contents := tensor.staged.contents ++ x
          cuLens := tensor.staged.cuLens ++ [(tensor.staged.contents ++ x).length] } }

/-- `_apply_write_kernel`: lanes outside the tensor are dropped. -/
def applyWriteKernel (writes : StagedWrites) (numRows numCols pid : ℕ)
    (tensor : Tensor) : Tensor :=
  let rowIdx := writes.indices.getD pid 0
  let startIdx := writes.starts.getD pid 0
  let cuStart := segmentStart writes.cuLens pid
  let contentLen := writes.cuLens.getD pid 0 - cuStart
  storeLanes tensor
    ((blockLanes contentLen 1024).filter fun lane =>
      decide (startIdx + lane < numCols ∧ rowIdx < numRows))
    (fun lane => (rowIdx * numCols + startIdx + lane : ℕ))
    fun lane => writes.contents.getD (cuStart + lane) 0

/-- `StagedWriteTensor.apply_write`; the staging buffers hold one write for each row. -/
def StagedWriteTensor.applyWrite (schedule : Schedule) (tensor : StagedWriteTensor) :
    Except Failure StagedWriteTensor :=
  if tensor.staged.indices = [] then return tensor
  else do
    require (tensor.staged.indices.length ≤ tensor.numRows) .valueError
    return { tensor with
      gpu := schedule.launch .applyWrite tensor.staged.indices.length
        (applyWriteKernel tensor.staged tensor.numRows tensor.numCols) tensor.gpu
      staged := noWrites }

/-- The writes of several tensors in one list. -/
structure FusedWrites where
  groupIds : List ℕ
  writes : StagedWrites

def addTensor (fused : FusedWrites) (group : StagedWriteTensor × ℕ) : FusedWrites :=
  if group.1.staged.indices = [] then fused
  else
    { groupIds := fused.groupIds ++
        List.replicate group.1.staged.indices.length group.2
      writes :=
        { indices := fused.writes.indices ++ group.1.staged.indices
          starts := fused.writes.starts ++ group.1.staged.starts
          contents := fused.writes.contents ++ group.1.staged.contents
          cuLens := fused.writes.cuLens ++
            group.1.staged.cuLens.map (fused.writes.contents.length + ·) } }

def fuse (tensors : List StagedWriteTensor) : FusedWrites :=
  tensors.zipIdx.foldl addTensor { groupIds := [], writes := noWrites }

/-- The rows or columns of each tensor, zero where nothing is staged. -/
def stagedSizes (size : StagedWriteTensor → ℕ) (tensors : List StagedWriteTensor) : List ℕ :=
  tensors.map fun tensor => if tensor.staged.indices = [] then 0 else size tensor

/-- The kernel over several tensors: a program finds the tensor of its write. -/
def fusedWriteKernel (fused : FusedWrites) (numRows numCols : List ℕ) (pid : ℕ)
    (tensors : ℕ → Tensor) : ℕ → Tensor :=
  let groupId := fused.groupIds.getD pid 0
  Function.update tensors groupId
    (applyWriteKernel fused.writes (numRows.getD groupId 0) (numCols.getD groupId 0) pid
      (tensors groupId))

def gpuOf (tensors : List StagedWriteTensor) (group : ℕ) : Tensor :=
  match tensors[group]? with
  | some tensor => tensor.gpu
  | none => fun _ => 0

/-- `FusedStagedWriter.apply` -/
def fusedApply (schedule : Schedule) (maxWrites : ℕ) (tensors : List StagedWriteTensor) :
    Except Failure (List StagedWriteTensor) := do
  let fused := fuse tensors
  if fused.groupIds = [] then return tensors
  else do
    require (fused.groupIds.length ≤ maxWrites) .valueError
    let written := schedule.launch .applyWrite fused.groupIds.length
      (fusedWriteKernel fused (stagedSizes (·.numRows) tensors)
        (stagedSizes (·.numCols) tensors)) (gpuOf tensors)
    return tensors.zipIdx.map fun group =>
      { group.1 with gpu := written group.2, staged := noWrites }

/-! ## The tables -/

structure BlockTables where
  blockSizes : List ℕ
  kernelBlockSizes : List ℕ
  groupCpSizes : List ℕ
  maxNumReqs : ℕ
  maxNumBatchedTokens : ℕ
  cpSize : ℕ
  cpRank : ℕ
  cpInterleave : ℕ
  blocksPerKvBlock : List ℕ
  blockTables : List StagedWriteTensor
  numBlocksNp : ℕ → ℕ → ℕ
  numBlocksGpu : ℕ → ℕ → ℕ
  poolNumBlocks : Option (List (Option ℕ))
  inputBlockTables : ℕ → Tensor
  slotMappings : ℕ → Tensor

def BlockTables.numKvCacheGroups (tables : BlockTables) : ℕ :=
  tables.blockSizes.length

/-- `bs // kbs` -/
def kernelBlocks (sizes : ℕ × ℕ) : Except Failure ℕ := do
  require (sizes.2 ≠ 0) .zeroDivisionError
  return sizes.1 / sizes.2

/-- The empty table of a group. -/
def emptyTable (maxNumReqs : ℕ) (maxNumBlocksPerGroup blocksPerKvBlock : List ℕ)
    (group : ℕ) : Except Failure StagedWriteTensor := do
  let maxNumBlocks ← item maxNumBlocksPerGroup group
  let blocks ← item blocksPerKvBlock group
  return {
    numRows := maxNumReqs
    numCols := maxNumBlocks * blocks
    gpu := fun _ => 0
    staged := noWrites }

/-- `BlockTables.__init__` -/
def BlockTables.init (blockSizes : List ℕ) (maxNumReqs maxNumBatchedTokens : ℕ)
    (maxNumBlocksPerGroup kernelBlockSizes : List ℕ) (cpSize cpRank cpInterleave : ℕ)
    (groupCpSizes : Option (List ℕ)) : Except Failure BlockTables := do
  let sizes := groupCpSizes.getD (List.replicate blockSizes.length cpSize)
  require (sizes.length = blockSizes.length) .assertionError
  require (sizes.all fun size => decide (size = 1 ∨ size = cpSize)) .assertionError
  require (maxNumBlocksPerGroup.length = blockSizes.length) .assertionError
  let blocksPerKvBlock ← (blockSizes.zip kernelBlockSizes).mapM kernelBlocks
  let blockTables ← (List.range blockSizes.length).mapM
    (emptyTable maxNumReqs maxNumBlocksPerGroup blocksPerKvBlock)
  return {
    blockSizes := blockSizes
    kernelBlockSizes := kernelBlockSizes
    groupCpSizes := sizes
    maxNumReqs := maxNumReqs
    maxNumBatchedTokens := maxNumBatchedTokens
    cpSize := cpSize
    cpRank := cpRank
    cpInterleave := cpInterleave
    blocksPerKvBlock := blocksPerKvBlock
    blockTables := blockTables
    numBlocksNp := fun _ _ => 0
    numBlocksGpu := fun _ _ => 0
    poolNumBlocks := none
    inputBlockTables := fun _ _ => 0
    slotMappings := fun _ _ => 0 }

/-- A derived pool size is kept only if every pool covers a row of its group. -/
def BlockTables.attachPools (tables : BlockTables) (pending : List (Option ℕ)) :
    BlockTables :=
  if (pending.zip tables.blockTables).all fun group =>
      group.1.all fun pool => decide (group.2.numCols ≤ pool) then
    { tables with poolNumBlocks := some pending }
  else tables

/-! ## Staging the block ids of a request -/

/-- The kernel blocks of some blocks. -/
def kernelIds (blocksPerKvBlock : ℕ) (blockIds : List ℤ) : List ℤ :=
  if 1 < blocksPerKvBlock then
    blockIds.flatMap fun block =>
      (List.range blocksPerKvBlock).map fun part : ℕ => block * blocksPerKvBlock + part
  else blockIds

/-- Whether some id lies outside the pool of its group.  An id is compared with a pool
of unknown size only when there is one. -/
def outOfPool (pools : Option (List (Option ℕ))) (group : ℕ) (ids : List ℤ) :
    Except Failure Bool :=
  match pools with
  | none => return false
  | some sizes =>
      if ids = [] then return false
      else do
        match ← item sizes group with
        | none => .error .typeError
        | some size => return ids.any fun id => decide ((size : ℤ) ≤ id ∨ id < 0)

def BlockTables.setNumBlocks (tables : BlockTables) (group reqIndex count : ℕ) :
    Except Failure BlockTables := do
  require (reqIndex < tables.maxNumReqs) .indexError
  return { tables with
    numBlocksNp := Function.update tables.numBlocksNp group
      (Function.update (tables.numBlocksNp group) reqIndex count) }

def BlockTables.stage (tables : BlockTables) (group reqIndex start : ℕ) (ids : List ℤ) :
    BlockTables :=
  { tables with
    blockTables := tables.blockTables.modify group fun table =>
      table.stageWrite reqIndex start ids }

/-- The loop over the groups: the tables, the delta that is left and whether the loop
has been left. -/
structure Appending where
  tables : BlockTables
  newBlockIds : Option (List (List ℤ))
  returned : Bool

/-- A group whose row is rewritten.  The row is cut at its width and filled with zeros;
a list outside the pool ends the loop. -/
def rewriteGroup (reqIndex group : ℕ) (blockIds : List ℤ) (state : Appending) :
    Except Failure Appending := do
  let blocksPerKvBlock ← item state.tables.blocksPerKvBlock group
  let table ← item state.tables.blockTables group
  let realIds := kernelIds blocksPerKvBlock blockIds
  let rejected ← outOfPool state.tables.poolNumBlocks group realIds
  if rejected then return { state with returned := true }
  else do
    let kept := realIds.take table.numCols
    let staged := kept ++ List.replicate (table.numCols - kept.length) 0
    let tables ← (state.tables.stage group reqIndex 0 staged).setNumBlocks group reqIndex
      kept.length
    return { state with tables := tables }

/-- The ids of a group in the delta. -/
def deltaOf (newBlockIds : Option (List (List ℤ))) (group : ℕ) : Except Failure (List ℤ) :=
  match newBlockIds with
  | none => return []
  | some [] => return []
  | some ids => item ids group

/-- A group whose row is extended.  A delta outside the pool is dropped, and with it
that of every later group. -/
def extendGroup (reqIndex group : ℕ) (overwrite : Bool) (state : Appending) :
    Except Failure Appending := do
  let blocksPerKvBlock ← item state.tables.blocksPerKvBlock group
  require (overwrite ∨ reqIndex < state.tables.maxNumReqs) .indexError
  let start := if overwrite then 0 else state.tables.numBlocksNp group reqIndex
  let blockIds ← deltaOf state.newBlockIds group
  let rejected ← outOfPool state.tables.poolNumBlocks group blockIds
  let taken := if rejected then [] else kernelIds blocksPerKvBlock blockIds
  let table ← item state.tables.blockTables group
  require (start + taken.length ≤ table.numCols) (.runtimeError (
    s!"Block table write for request {reqIndex}, group {group} " ++
    s!"exceeds row capacity ({start + taken.length} > {table.numCols})"))
  let tables ← (state.tables.stage group reqIndex start taken).setNumBlocks group reqIndex
    (start + taken.length)
  return { state with
    tables := tables
    newBlockIds := if rejected then none else state.newBlockIds }

/-- `rewrite_ids[i]`, if there are any. -/
def rewriteOf (rewriteIds : Option (List (Option (List ℤ)))) (group : ℕ) :
    Except Failure (Option (List ℤ)) :=
  match rewriteIds with
  | none => return none
  | some ids => item ids group

def appendGroup (reqIndex : ℕ) (overwrite : Bool)
    (rewriteIds : Option (List (Option (List ℤ)))) (state : Appending) (group : ℕ) :
    Except Failure Appending :=
  if state.returned then return state
  else do
    match ← rewriteOf rewriteIds group with
    | some blockIds => rewriteGroup reqIndex group blockIds state
    | none => extendGroup reqIndex group overwrite state

/-- `BlockTables.append_block_ids` -/
def BlockTables.appendBlockIds (tables : BlockTables) (reqIndex : ℕ)
    (newBlockIds : Option (List (List ℤ))) (overwrite : Bool)
    (rewriteIds : Option (List (Option (List ℤ)))) : Except Failure BlockTables := do
  let state ← (List.range tables.numKvCacheGroups).foldlM
    (appendGroup reqIndex overwrite rewriteIds)
    { tables := tables, newBlockIds := newBlockIds, returned := false }
  return state.tables

/-- A single table is written directly, several by one fused kernel. -/
def BlockTables.writtenTables (schedule : Schedule) (tables : BlockTables) :
    Except Failure (List StagedWriteTensor) :=
  if tables.numKvCacheGroups = 1 then tables.blockTables.mapM (·.applyWrite schedule)
  else
    fusedApply schedule (tables.numKvCacheGroups * tables.maxNumReqs) tables.blockTables

/-- `BlockTables.apply_staged_writes` -/
def BlockTables.applyStagedWrites (schedule : Schedule) (tables : BlockTables) :
    Except Failure BlockTables :=
  if tables.numKvCacheGroups = 0 then return tables
  else do
    let blockTables ← tables.writtenTables schedule
    return { tables with
      blockTables := blockTables
      numBlocksGpu := tables.numBlocksNp }

/-! ## Reading the tables -/

/-- `_gather_block_tables_kernel` for the table of one group. -/
def gatherBlockTablesKernel (idxMapping : List ℕ) (numReqs stride : ℕ)
    (numBlocks : ℕ → ℕ) (source : Tensor) (batchIdx : ℕ) (tensor : Tensor) : Tensor :=
  if numReqs ≤ batchIdx then
    storeLanes tensor (blockLanes stride 1024)
      (fun offset => (batchIdx * stride + offset : ℕ)) fun _ => 0
  else
    let reqIdx := idxMapping.getD batchIdx 0
    let copied := storeLanes tensor (blockLanes (numBlocks reqIdx) 1024)
      (fun offset => (batchIdx * stride + offset : ℕ))
      fun offset => source (reqIdx * stride + offset : ℕ)
    storeLanes copied (blockLanes (stride - numBlocks reqIdx) 1024)
      (fun offset => (batchIdx * stride + (numBlocks reqIdx + offset) : ℕ)) fun _ => 0

/-- `BlockTables.gather_block_tables` into the input tables. -/
def BlockTables.gatherBlockTables (schedule : Schedule) (tables : BlockTables)
    (idxMapping : List ℕ) (numReqsPadded : ℕ) : BlockTables :=
  { tables with
    inputBlockTables := schedule.launchGroups .gatherBlockTables tables.numKvCacheGroups
      numReqsPadded
      (fun group => gatherBlockTablesKernel idxMapping idxMapping.length
        ((tables.blockTables.map (·.numCols)).getD group 0) (tables.numBlocksGpu group)
        (gpuOf tables.blockTables group))
      tables.inputBlockTables }

/-- `PAD_SLOT_ID` -/
def padSlotId : ℤ := -1

/-- What the slot of a position depends on, beside the table. -/
structure SlotSizes where
  kvBlockSize : ℕ
  kernelBlockSize : ℕ
  groupCpSize : ℕ
  cpSize : ℕ
  cpRank : ℕ
  cpInterleave : ℕ

def SlotSizes.Shared (sizes : SlotSizes) : Prop :=
  ¬ (sizes.cpSize = 1 ∨ sizes.groupCpSize = 1)

instance (sizes : SlotSizes) : Decidable sizes.Shared :=
  inferInstanceAs (Decidable (¬ _))

/-- Whether this rank stores the token at a position. -/
def SlotSizes.IsLocal (sizes : SlotSizes) (position : ℕ) : Prop :=
  sizes.Shared →
    position % (sizes.kvBlockSize * sizes.cpSize) / sizes.cpInterleave % sizes.cpSize =
      sizes.cpRank

instance (sizes : SlotSizes) (position : ℕ) : Decidable (sizes.IsLocal position) :=
  inferInstanceAs (Decidable (_ → _))

/-- The place of a token among those that its rank stores. -/
def SlotSizes.localPosition (sizes : SlotSizes) (position : ℕ) : ℕ :=
  if sizes.Shared then
    let virtualBlockSize := sizes.kvBlockSize * sizes.cpSize
    let offset := position % virtualBlockSize
    position / virtualBlockSize * sizes.kvBlockSize +
      (offset / (sizes.cpInterleave * sizes.cpSize) * sizes.cpInterleave +
        offset % sizes.cpInterleave)
  else position

/-- The product of two 32-bit integers. -/
def int32Product (left right : ℤ) : ℤ :=
  (left * right).bmod (2 ^ 32)

/-- The slot of a position, by a row with `numBlocks` kernel blocks.  Ids and block sizes
have 32 bits, positions have 64. -/
def SlotSizes.slotId (sizes : SlotSizes) (numBlocks : ℕ) (row : ℕ → ℤ) (position : ℕ) : ℤ :=
  let localPosition := sizes.localPosition position
  let blockIndex := localPosition / sizes.kernelBlockSize
  let blockOffset := localPosition % sizes.kernelBlockSize
  let blockNumber :=
    if sizes.IsLocal position ∧ blockIndex < numBlocks then row blockIndex else 0
  let slot := int32Product blockNumber sizes.kernelBlockSize + blockOffset
  if blockIndex < numBlocks then
    if sizes.IsLocal position then slot else padSlotId
  else padSlotId

/-- `_compute_slot_mappings_kernel` for one group. -/
def computeSlotMappingsKernel (sizes : SlotSizes) (numReqs maxNumTokens : ℕ)
    (idxMapping queryStartLoc pos : List ℕ) (stride : ℕ) (numBlocks : ℕ → ℕ)
    (table : Tensor) (batchIdx : ℕ) (slots : Tensor) : Tensor :=
  if batchIdx = numReqs then
    let actualNumTokens := queryStartLoc.getD batchIdx 0
    storeLanes slots (blockLanes (maxNumTokens - actualNumTokens) 1024)
      (fun offset => (actualNumTokens + offset : ℕ)) fun _ => padSlotId
  else
    let reqStateIdx := idxMapping.getD batchIdx 0
    let startIdx := queryStartLoc.getD batchIdx 0
    let endIdx := queryStartLoc.getD (batchIdx + 1) 0
    storeLanes slots (blockLanes (endIdx - startIdx) 1024)
      (fun offset => (startIdx + offset : ℕ))
      fun offset => sizes.slotId (numBlocks reqStateIdx)
        (fun index => table (reqStateIdx * stride + index : ℕ))
        (pos.getD (startIdx + offset) 0)

def BlockTables.slotSizes (tables : BlockTables) (group : ℕ) : SlotSizes where
  kvBlockSize := tables.blockSizes.getD group 0
  kernelBlockSize := tables.kernelBlockSizes.getD group 0
  groupCpSize := tables.groupCpSizes.getD group 0
  cpSize := tables.cpSize
  cpRank := tables.cpRank
  cpInterleave := tables.cpInterleave

/-- `BlockTables.compute_slot_mappings` -/
def BlockTables.computeSlotMappings (schedule : Schedule) (tables : BlockTables)
    (idxMapping queryStartLoc positions : List ℕ) : BlockTables :=
  { tables with
    slotMappings := schedule.launchGroups .computeSlotMappings tables.numKvCacheGroups
      (idxMapping.length + 1)
      (fun group => computeSlotMappingsKernel (tables.slotSizes group) idxMapping.length
        tables.maxNumBatchedTokens idxMapping queryStartLoc positions
        ((tables.blockTables.map (·.numCols)).getD group 0) (tables.numBlocksGpu group)
        (gpuOf tables.blockTables group))
      tables.slotMappings }

/-! ## Steps of the runner -/

/-- What the attention of a step reads the tables for. -/
structure Batch where
  idxMapping : List ℕ
  numReqsPadded : ℕ
  queryStartLoc : List ℕ
  positions : List ℕ
  sorted : ∀ later ≤ idxMapping.length, ∀ earlier ≤ later,
    queryStartLoc.getD earlier 0 ≤ queryStartLoc.getD later 0

/-- `GPUModelRunner.prepare_attn` without a `pcp_manager`. -/
def BlockTables.prepareAttn (gatherSchedule slotSchedule : Schedule) (tables : BlockTables)
    (batch : Batch) : BlockTables :=
  (tables.gatherBlockTables gatherSchedule batch.idxMapping
    batch.numReqsPadded).computeSlotMappings slotSchedule batch.idxMapping
      batch.queryStartLoc batch.positions

/-- The arguments of a call of `append_block_ids`. -/
structure Call where
  reqIndex : ℕ
  newBlockIds : Option (List (List ℤ))
  overwrite : Bool
  rewriteIds : Option (List (Option (List ℤ)))

/-- `add_requests` and `update_requests` call `append_block_ids`. -/
def BlockTables.appendAll (tables : BlockTables) (calls : List Call) :
    Except Failure BlockTables :=
  calls.foldlM (fun tables call => tables.appendBlockIds call.reqIndex call.newBlockIds
    call.overwrite call.rewriteIds) tables

structure Step where
  calls : List Call
  batch : Batch
  writeSchedule : Schedule
  gatherSchedule : Schedule
  slotSchedule : Schedule

/-- What `GPUModelRunner.execute_model` does with the tables. -/
def executeModel (tables : BlockTables) (step : Step) : Except Failure BlockTables := do
  let tables ← tables.appendAll step.calls
  let tables ← tables.applyStagedWrites step.writeSchedule
  return tables.prepareAttn step.gatherSchedule step.slotSchedule step.batch

end GlmFlash.Worker.BlockTable
