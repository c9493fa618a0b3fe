import GlmFlash.Cache.BlockPool
import GlmFlash.Library.CeilDiv
import GlmFlash.Library.Tables

/-!
# Single-type managers

One manager per KV-cache group turns token counts into blocks.  The manager
classes of the source share one record here; a method that a class overrides
matches on the kind.  A `defaultdict` entry that only reading creates is never
told apart from an absent one, and the zeroing list `new_block_ids` is left
out.
-/

namespace GlmFlash.Cache

open GlmFlash.Library

structure MambaSpec where
  /-- `mamba_cache_mode == "align"` -/
  align : Bool
  numSpeculativeBlocks : ℕ
  numPrefillCheckpointBlocks : ℕ
  alignCapLegacy : Bool
  deriving DecidableEq, Repr

inductive ManagerKind where
  | fullAttention
  | rswa (rswaWindow : ℕ)
  | slidingWindow (slidingWindow extraRetainedTokens : ℕ)
  | chunkedLocalAttention (attentionChunkSize : ℕ)
  | crossAttention
  | kpoolTail
  | mamba (spec : MambaSpec)
  deriving DecidableEq, Repr

/-- What the managers and the scheduler read of a request. -/
structure Request (R H : Type) where
  requestId : R
  numTokens : ℕ
  numPromptTokens : ℕ
  numComputedTokens : ℕ
  numInFlightTokens : ℕ
  /-- status `WAITING` or `PREEMPTED` -/
  waiting : Bool
  blockHashes : List H
  sharedPrefixBoundary : ℕ

/-- The configuration of one manager. -/
structure ManagerSpec where
  kvCacheGroupId : ℕ
  kind : ManagerKind
  /-- `self.block_size`, after the scaling for sharded groups -/
  blockSize : ℕ
  blockSize_pos : 0 < blockSize
  /-- `kv_cache_spec.block_size` -/
  specBlockSize : ℕ
  schedulerBlockSize : ℕ
  useEagle : Bool
  maxAdmissionBlocksPerRequest : Option ℕ

structure PartialTailOffload (R : Type) where
  requestId : R
  groupId : ℕ
  block : BlockId
  boundaryTokens : ℕ

structure SingleTypeKVCacheManager (R H : Type) [DecidableEq R]
    extends ManagerSpec where
  reqToBlocks : Tables R BlockId
  numCachedBlock : R → Option ℕ
  partialHitReqs : R → Option (ℕ × BlockId)
  pendingCowCopies : List (BlockId × BlockId)
  pendingPartialTailOffloads : List (PartialTailOffload R)
  cachedBlocksThisStep : List (BlockHashWithGroupId H)
  lastStateBlockIdx : R → Option ℕ
  allocatedBlockReqs : R → Bool
  numCheckpointBlocks : R → ℕ
  producerPartialTailReqs : R → Option ℕ

/-- The arguments of `get_num_blocks_to_allocate`. -/
structure BlockQuery (R : Type) where
  requestId : R
  numTokens : ℕ
  newComputedBlocks : List BlockId
  totalComputedTokens : ℕ
  numLocalComputedTokens : ℕ
  numTokensMainModel : ℕ
  applyAdmissionCap : Bool

/-- What one operation of a manager leaves behind and returns. -/
abbrev Updated (R H : Type) [DecidableEq R] (A : Type) : Type :=
  BlockPool H × SingleTypeKVCacheManager R H × A

namespace SingleTypeKVCacheManager

variable {R H : Type} [DecidableEq R] [DecidableEq H]

def init (spec : ManagerSpec) : SingleTypeKVCacheManager R H where
  toManagerSpec := spec
  reqToBlocks := ∅
  numCachedBlock _ := none
  partialHitReqs _ := none
  pendingCowCopies := []
  pendingPartialTailOffloads := []
  cachedBlocksThisStep := []
  lastStateBlockIdx _ := none
  allocatedBlockReqs _ := false
  numCheckpointBlocks _ := 0
  producerPartialTailReqs _ := none

def blocks (manager : SingleTypeKVCacheManager R H) (requestId : R) :
    List BlockId :=
  manager.reqToBlocks.row requestId

def setBlocks (manager : SingleTypeKVCacheManager R H) (requestId : R)
    (reqBlocks : List BlockId) : SingleTypeKVCacheManager R H :=
  { manager with
    reqToBlocks := manager.reqToBlocks.setRow requestId reqBlocks }

/-- Only a positive number is ever acted on, so truncation at zero loses
nothing. -/
def getNumSkippedTokens (manager : SingleTypeKVCacheManager R H)
    (numComputedTokens : ℕ) : ℕ :=
  match manager.kind with
  | .slidingWindow slidingWindow extraRetainedTokens =>
      numComputedTokens + 1 - slidingWindow - extraRetainedTokens
  | .chunkedLocalAttention attentionChunkSize =>
      numComputedTokens / attentionChunkSize * attentionChunkSize
  | .mamba _ => numComputedTokens - 1
  | .fullAttention | .rswa _ | .crossAttention | .kpoolTail => 0

/-! ## Block demand -/

/-- The local prefix-cache hit ends inside one of this manager's blocks. -/
def HasPartialLocalHit (manager : SingleTypeKVCacheManager R H)
    (newComputedBlocks : List BlockId) (numLocalComputedTokens : ℕ) : Prop :=
  newComputedBlocks ≠ [] ∧ numLocalComputedTokens % manager.blockSize ≠ 0

instance (manager : SingleTypeKVCacheManager R H)
    (newComputedBlocks : List BlockId) (numLocalComputedTokens : ℕ) :
    Decidable (manager.HasPartialLocalHit newComputedBlocks
      numLocalComputedTokens) :=
  inferInstanceAs (Decidable (_ ∧ _))

/-- `SingleTypeKVCacheManager.get_num_blocks_to_allocate` -/
def getNumBlocksToAllocateBase (manager : SingleTypeKVCacheManager R H)
    (pool : BlockPool H) (query : BlockQuery R) : Except Failure ℤ :=
  let numRequiredBlocks := cdiv query.numTokens manager.blockSize
  let numRequiredBlocks :=
    if query.applyAdmissionCap then
      (manager.maxAdmissionBlocksPerRequest.map
        (min numRequiredBlocks)).getD numRequiredBlocks
    else numRequiredBlocks
  let numReqBlocks := (manager.blocks query.requestId).length
  if manager.numCachedBlock query.requestId ≠ none then do
    require (query.newComputedBlocks = []) .assertionError
    return ((numRequiredBlocks - numReqBlocks : ℕ) : ℤ)
  else
    let numSkippedBlocks :=
      manager.getNumSkippedTokens query.totalComputedTokens /
        manager.blockSize
    let numLocalComputedBlocks :=
      query.newComputedBlocks.length + numReqBlocks
    let numNewBlocks :=
      numRequiredBlocks - max numSkippedBlocks numLocalComputedBlocks
    let numEvictableBlocks := pool.getNumEvictableBlocks
      (query.newComputedBlocks.drop (numSkippedBlocks - numReqBlocks))
    let numCowBlocks :=
      if manager.HasPartialLocalHit query.newComputedBlocks
        query.numLocalComputedTokens then 1 else 0
    .ok ((numNewBlocks + numCowBlocks + numEvictableBlocks : ℕ) : ℤ)

def needsInternalCheckpoint (manager : SingleTypeKVCacheManager R H)
    (spec : MambaSpec) (requestId : R) (numTokens numComputedTokens : ℕ) :
    Bool :=
  0 < spec.numPrefillCheckpointBlocks &&
    numTokens % manager.blockSize != 0 &&
    numComputedTokens % manager.blockSize == 0 &&
    2 ≤ cdiv numTokens manager.blockSize &&
    (manager.blocks requestId).getD
      (cdiv numTokens manager.blockSize - 2) nullBlock == nullBlock

/-- `MambaManager.get_num_blocks_to_allocate` in align mode, past the test
for blocks cached in this step: the demand and the checkpoint blocks. -/
def getNumBlocksToAllocateAlign (manager : SingleTypeKVCacheManager R H)
    (spec : MambaSpec) (pool : BlockPool H) (query : BlockQuery R) :
    ℤ × ℕ :=
  let numTokens := query.numTokensMainModel
  let numRequiredBlocks :=
    cdiv numTokens manager.blockSize + spec.numSpeculativeBlocks
  let numNewBlocks : ℤ := numRequiredBlocks -
    query.newComputedBlocks.length - (manager.blocks query.requestId).length
  let hasPartialHit : Bool :=
    decide (manager.HasPartialLocalHit query.newComputedBlocks
      query.numLocalComputedTokens) ||
    (manager.partialHitReqs query.requestId).isSome
  let numNewBlocks :=
    if hasPartialHit then max numNewBlocks 0 + 1 else numNewBlocks
  let checkpointBlock := (manager.needsInternalCheckpoint spec
    query.requestId numTokens query.totalComputedTokens).toNat
  let specBlocks := if manager.allocatedBlockReqs query.requestId then 0
    else spec.numSpeculativeBlocks
  let numNewBlocks :=
    if query.applyAdmissionCap then
      if spec.alignCapLegacy then
        max numNewBlocks 1 + hasPartialHit.toNat + checkpointBlock + specBlocks
      else
        max ((spec.numSpeculativeBlocks + 2 + checkpointBlock +
          hasPartialHit.toNat : ℕ) : ℤ) 1 + specBlocks
    else if 0 < numNewBlocks then
      1 + hasPartialHit.toNat + checkpointBlock + specBlocks
    else numNewBlocks
  (numNewBlocks + pool.getNumEvictableBlocks query.newComputedBlocks,
    checkpointBlock)

/-- The last hit block was cached by another request in this very step. -/
def HitCachedThisStep (manager : SingleTypeKVCacheManager R H)
    (pool : BlockPool H) (newComputedBlocks : List BlockId) : Prop :=
  ∃ key ∈ manager.cachedBlocksThisStep,
    (newComputedBlocks.getLast?.bind pool.blockHash) = some key

instance (manager : SingleTypeKVCacheManager R H) (pool : BlockPool H)
    (newComputedBlocks : List BlockId) :
    Decidable (manager.HitCachedThisStep pool newComputedBlocks) :=
  inferInstanceAs (Decidable (∃ key ∈ manager.cachedBlocksThisStep, _))

def getNumBlocksToAllocate (numEncoderTokens : ℕ) (query : BlockQuery R)
    (pool : BlockPool H) (manager : SingleTypeKVCacheManager R H) :
    Except Failure (Updated R H ℤ) :=
  match manager.kind with
  | .kpoolTail =>
      .ok (pool, manager,
        ((1 - (manager.blocks query.requestId).length : ℕ) : ℤ))
  | .crossAttention => do
      let demand ← manager.getNumBlocksToAllocateBase pool
        { query with
          numTokens := numEncoderTokens
          newComputedBlocks := []
          totalComputedTokens := 0
          numLocalComputedTokens := 0
          numTokensMainModel := numEncoderTokens }
      return (pool, manager, demand)
  | .mamba spec =>
      if manager.HitCachedThisStep pool query.newComputedBlocks then
        .ok (pool, manager, (pool.numGpuBlocks : ℤ) + 1)
      else if spec.align then
        let (demand, checkpointBlock) :=
          manager.getNumBlocksToAllocateAlign spec pool query
        .ok (pool,
          if query.applyAdmissionCap then manager
          else { manager with
            numCheckpointBlocks := Function.update manager.numCheckpointBlocks
              query.requestId checkpointBlock },
          demand)
      else do
        let demand ← manager.getNumBlocksToAllocateBase pool
          { query with
            numTokens := query.numTokens +
              manager.blockSize * spec.numSpeculativeBlocks }
        return (pool, manager, demand)
  | .fullAttention | .rswa _ | .slidingWindow _ _
  | .chunkedLocalAttention _ => do
      let demand ← manager.getNumBlocksToAllocateBase pool query
      return (pool, manager, demand)

/-! ## Prefix blocks -/

/-- `SingleTypeKVCacheManager.add_local_computed_blocks` -/
def addLocalComputedBlocksBase (requestId : R)
    (newComputedBlocks : List BlockId)
    (numLocalComputedTokens numExternalComputedTokens : ℕ)
    (pool : BlockPool H) (manager : SingleTypeKVCacheManager R H) :
    Except Failure (Updated R H Unit) := do
  require (manager.blocks requestId = []) .assertionError
  let numSkippedBlocks := manager.getNumSkippedTokens
    (numLocalComputedTokens + numExternalComputedTokens) / manager.blockSize
  let newComputedBlocks := newComputedBlocks.drop numSkippedBlocks
  require (pool.enableCaching = true ∨ newComputedBlocks = []) .assertionError
  let pool ← pool.touch newComputedBlocks
  let reqBlocks :=
    List.replicate numSkippedBlocks nullBlock ++ newComputedBlocks
  let manager := manager.setBlocks requestId reqBlocks
  match newComputedBlocks.getLast? with
  | some sourceBlock =>
      if numLocalComputedTokens % manager.blockSize ≠ 0 then
        let blockIdx := numLocalComputedTokens / manager.blockSize
        return (pool,
          { manager with
            partialHitReqs := Function.update manager.partialHitReqs requestId
              (some (blockIdx, sourceBlock))
            numCachedBlock := Function.update manager.numCachedBlock requestId
              (some blockIdx) }, ())
      else
        return (pool,
          { manager with
            numCachedBlock := Function.update manager.numCachedBlock requestId
              (some reqBlocks.length) }, ())
  | none =>
      return (pool,
        { manager with
          numCachedBlock := Function.update manager.numCachedBlock requestId
            (some reqBlocks.length) }, ())

def addLocalComputedBlocks (requestId : R) (newComputedBlocks : List BlockId)
    (numLocalComputedTokens numExternalComputedTokens : ℕ)
    (pool : BlockPool H) (manager : SingleTypeKVCacheManager R H) :
    Except Failure (Updated R H Unit) :=
  match manager.kind with
  | .kpoolTail => .ok (pool, manager, ())
  | .crossAttention => do
      require (newComputedBlocks = []) .assertionError
      return (pool, manager, ())
  | _ => addLocalComputedBlocksBase requestId newComputedBlocks
      numLocalComputedTokens numExternalComputedTokens pool manager

/-- Append `numBlocks` fresh blocks to the request. -/
def extend (requestId : R) (numBlocks : ℤ) (pool : BlockPool H)
    (manager : SingleTypeKVCacheManager R H) :
    Except Failure (Updated R H (List BlockId)) := do
  let (newBlocks, pool) ← pool.getNewBlocks numBlocks
  return (pool,
    manager.setBlocks requestId (manager.blocks requestId ++ newBlocks),
    newBlocks)

/-- The one block of a circular tail, on first demand. -/
def extendTail (requestId : R) (pool : BlockPool H)
    (manager : SingleTypeKVCacheManager R H) :
    Except Failure (Updated R H (List BlockId)) :=
  if 1 ≤ (manager.blocks requestId).length then .ok (pool, manager, [])
  else extend requestId 1 pool manager

def allocateExternalComputedBlocks (requestId : R)
    (numLocalComputedTokens numExternalComputedTokens : ℕ)
    (pool : BlockPool H) (manager : SingleTypeKVCacheManager R H) :
    Except Failure (Updated R H (List BlockId)) :=
  match manager.kind with
  | .kpoolTail => extendTail requestId pool manager
  | .crossAttention => .ok (pool, manager, [])
  | _ =>
      let numTotalComputedTokens :=
        numLocalComputedTokens + numExternalComputedTokens
      let numSkippedTokens :=
        manager.getNumSkippedTokens numTotalComputedTokens
      let numExternalComputedTokens :=
        if 0 < numSkippedTokens then
          min (numTotalComputedTokens - numSkippedTokens)
            numExternalComputedTokens
        else numExternalComputedTokens
      if numExternalComputedTokens = 0 then .ok (pool, manager, [])
      else
        extend requestId
          ((cdiv numTotalComputedTokens manager.blockSize : ℤ) -
            (manager.blocks requestId).length) pool manager

/-! ## New blocks -/

/-- `_apply_cow`: redirect a partial prefix-cache hit to a private block. -/
def applyCow (pool : BlockPool H) (manager : SingleTypeKVCacheManager R H)
    (reqBlocks : List BlockId) (blockIdx : ℕ)
    (sourceBlock cowBlock : BlockId) :
    Except Failure (Updated R H (List BlockId)) := do
  require (reqBlocks[blockIdx]? = some sourceBlock) .assertionError
  require (sourceBlock ≠ nullBlock ∧ 0 < pool.refCnt sourceBlock)
    .assertionError
  return (pool.addRef cowBlock 1,
    { manager with
      pendingCowCopies :=
        manager.pendingCowCopies ++ [(sourceBlock, cowBlock)] },
    reqBlocks.set blockIdx cowBlock)

/-- Partial hit: the shared tail becomes a private copy-on-write block. -/
def redirectPartialHit (requestId : R) (pool : BlockPool H)
    (manager : SingleTypeKVCacheManager R H) :
    Except Failure (Updated R H (List BlockId)) :=
  match manager.partialHitReqs requestId with
  | none => .ok (pool, manager, [])
  | some (blockIdx, sourceBlock) => do
      let (newBlocks, pool) ← pool.getNewBlocks 1
      match newBlocks with
      | [] => Except.error .indexError
      | cowBlock :: _ => do
          let (pool, manager, reqBlocks) ← applyCow pool manager
            (manager.blocks requestId) blockIdx sourceBlock cowBlock
          return (pool,
            { manager.setBlocks requestId reqBlocks with
              partialHitReqs :=
                Function.update manager.partialHitReqs requestId none },
            [cowBlock])

/-- `SingleTypeKVCacheManager.allocate_new_blocks` -/
def allocateNewBlocksBase (requestId : R) (numTokens : ℕ)
    (pool : BlockPool H) (manager : SingleTypeKVCacheManager R H) :
    Except Failure (Updated R H (List BlockId)) := do
  let (pool, manager, cowBlocks) ← redirectPartialHit requestId pool manager
  let numNewBlocks : ℤ := (cdiv numTokens manager.blockSize : ℤ) -
    (manager.blocks requestId).length
  if numNewBlocks ≤ 0 then return (pool, manager, cowBlocks)
  else do
    let (pool, manager, newBlocks) ← extend requestId numNewBlocks pool manager
    return (pool, manager, cowBlocks ++ newBlocks)

/-- Move the speculative blocks at `positions` that lie below the new running
column behind the row, nulling their old position. -/
def reuseSpeculative (numSkippedBlocks : ℕ) :
    List ℕ → List BlockId → List BlockId
  | [], reqBlocks => reqBlocks
  | blockIdx :: positions, reqBlocks =>
      if blockIdx < numSkippedBlocks then
        reuseSpeculative numSkippedBlocks positions
          ((reqBlocks ++ [reqBlocks.getD blockIdx nullBlock]).set blockIdx
            nullBlock)
      else reqBlocks

/-- The row after null padding and after the reuse of speculative blocks. -/
def shiftedBlocks (manager : SingleTypeKVCacheManager R H) (spec : MambaSpec)
    (requestId : R) (numRequiredBlocks : ℕ) : List BlockId :=
  let reqBlocks := manager.blocks requestId
  let numSkippedBlocks := numRequiredBlocks - spec.numSpeculativeBlocks - 1
  let padded :=
    if reqBlocks.length < numSkippedBlocks then
      reqBlocks ++ List.replicate (numSkippedBlocks -
        manager.numCheckpointBlocks requestId - reqBlocks.length) nullBlock
    else reqBlocks
  if manager.allocatedBlockReqs requestId then
    reuseSpeculative numSkippedBlocks
      (List.range' (reqBlocks.length - spec.numSpeculativeBlocks)
        spec.numSpeculativeBlocks) padded
  else padded

/-- The running state is saved at the last `1 + num_speculative_blocks`
blocks; a new request that hits the prefix cache has it in its last block. -/
def recordLastState (manager : SingleTypeKVCacheManager R H)
    (spec : MambaSpec) (requestId : R) : SingleTypeKVCacheManager R H :=
  let prevBlockLen := (manager.blocks requestId).length
  if manager.allocatedBlockReqs requestId then
    { manager with
      lastStateBlockIdx := Function.update manager.lastStateBlockIdx requestId
        (some (prevBlockLen - 1 - spec.numSpeculativeBlocks)) }
  else if 0 < prevBlockLen then
    { manager with
      lastStateBlockIdx := Function.update manager.lastStateBlockIdx requestId
        (some (prevBlockLen - 1)) }
  else manager

/-- The worker table of a running request is append-only, so the request
stays on `sourceBlock` and the cache entry moves to `cowBlock`. -/
def preserveTail (requestId : R) (reqBlocks : List BlockId) (blockIdx : ℕ)
    (sourceBlock cowBlock : BlockId) (pool : BlockPool H)
    (manager : SingleTypeKVCacheManager R H) :
    Except Failure (Updated R H Unit) := do
  require (reqBlocks[blockIdx]? = some sourceBlock) .assertionError
  let pool ← pool.moveBlockHashes sourceBlock cowBlock
  let pool := pool.addRef sourceBlock 1
  let offloads :=
    match manager.producerPartialTailReqs requestId with
    | none => []
    | some boundaryTokens =>
        [⟨requestId, manager.kvCacheGroupId, cowBlock, boundaryTokens⟩]
  return (pool,
    { manager with
      pendingCowCopies :=
        manager.pendingCowCopies ++ [(sourceBlock, cowBlock)]
      producerPartialTailReqs :=
        Function.update manager.producerPartialTailReqs requestId none
      pendingPartialTailOffloads :=
        manager.pendingPartialTailOffloads ++ offloads
      cachedBlocksThisStep := manager.cachedBlocksThisStep ++
        (pool.blockHash cowBlock).toList }, ())

/-- `MambaManager.allocate_new_blocks` in align mode. -/
def allocateNewBlocksAlign (spec : MambaSpec) (requestId : R)
    (numTokens : ℕ) (pool : BlockPool H)
    (manager : SingleTypeKVCacheManager R H) :
    Except Failure (Updated R H (List BlockId)) :=
  let prevBlockLen := (manager.blocks requestId).length
  let numRequiredBlocks :=
    cdiv numTokens manager.blockSize + spec.numSpeculativeBlocks
  let partialHit := manager.partialHitReqs requestId
  let blocksAllocated := manager.allocatedBlockReqs requestId
  let allocated := Function.update manager.allocatedBlockReqs requestId true
  if numRequiredBlocks ≤ prevBlockLen ∧ partialHit = none then
    .ok (pool, { manager with allocatedBlockReqs := allocated }, [])
  else do
    let reqBlocks := manager.shiftedBlocks spec requestId numRequiredBlocks
    let manager := manager.recordLastState spec requestId
    let numNewBlocks : ℤ := numRequiredBlocks - reqBlocks.length
    let numNewBlocks :=
      if partialHit.isSome then max numNewBlocks 0 + 1 else numNewBlocks
    let maxNewBlocks := 1 + partialHit.isSome.toNat +
      manager.numCheckpointBlocks requestId +
      (if blocksAllocated then 0 else spec.numSpeculativeBlocks)
    require (numNewBlocks ≤ maxNewBlocks) .assertionError
    let (newBlocks, pool) ← pool.getNewBlocks numNewBlocks
    let returnedBlocks := reqBlocks.drop prevBlockLen
    match partialHit with
    | none =>
        return (pool,
          { manager.setBlocks requestId (reqBlocks ++ newBlocks) with
            allocatedBlockReqs := allocated },
          returnedBlocks ++ newBlocks)
    | some (blockIdx, sourceBlock) =>
        match newBlocks with
        | [] => Except.error .indexError
        | cowBlock :: newBlocks =>
            let partialHits :=
              Function.update manager.partialHitReqs requestId none
            if blocksAllocated then do
              let (pool, manager, _) ← preserveTail requestId reqBlocks
                blockIdx sourceBlock cowBlock pool manager
              return (pool,
                { manager.setBlocks requestId (reqBlocks ++ newBlocks) with
                  allocatedBlockReqs := allocated
                  partialHitReqs := partialHits },
                returnedBlocks ++ newBlocks)
            else do
              let (pool, manager, reqBlocks) ← applyCow pool manager reqBlocks
                blockIdx sourceBlock cowBlock
              return (pool,
                { manager.setBlocks requestId (reqBlocks ++ newBlocks) with
                  allocatedBlockReqs := allocated
                  partialHitReqs := partialHits },
                cowBlock :: returnedBlocks ++ newBlocks)

def allocateNewBlocks (requestId : R)
    (numTokens numTokensMainModel numEncoderTokens : ℕ) (pool : BlockPool H)
    (manager : SingleTypeKVCacheManager R H) :
    Except Failure (Updated R H (List BlockId)) :=
  match manager.kind with
  | .kpoolTail => extendTail requestId pool manager
  | .crossAttention =>
      allocateNewBlocksBase requestId numEncoderTokens pool manager
  | .mamba spec =>
      if spec.align then
        allocateNewBlocksAlign spec requestId numTokensMainModel pool manager
      else
        allocateNewBlocksBase requestId
          (numTokens + manager.blockSize * spec.numSpeculativeBlocks) pool
          manager
  | _ => allocateNewBlocksBase requestId numTokens pool manager

/-! ## Removing blocks -/

/-- Null the positions in turn until one is null already; the second
component lists what was there. -/
def nullPositions : List ℕ → List BlockId → List BlockId × List BlockId
  | [], reqBlocks => (reqBlocks, [])
  | position :: positions, reqBlocks =>
      let block := reqBlocks.getD position nullBlock
      if block = nullBlock then (reqBlocks, [])
      else
        let (reqBlocks, freed) :=
          nullPositions positions (reqBlocks.set position nullBlock)
        (reqBlocks, block :: freed)

def removeBlocksInRange (requestId : R) (firstBlock lastBlock : ℕ)
    (pool : BlockPool H) (manager : SingleTypeKVCacheManager R H) :
    BlockPool H × SingleTypeKVCacheManager R H :=
  let reqBlocks := manager.blocks requestId
  let lastBlock := min lastBlock reqBlocks.length
  let nulled := nullPositions
    (List.range' firstBlock (lastBlock - firstBlock)).reverse reqBlocks
  (pool.freeBlocks nulled.2, manager.setBlocks requestId nulled.1)

/-- `SingleTypeKVCacheManager.remove_skipped_blocks` -/
def removeSkippedBlocksBase (requestId : R) (processedComputedTokens : ℕ)
    (pool : BlockPool H) (manager : SingleTypeKVCacheManager R H) :
    BlockPool H × SingleTypeKVCacheManager R H :=
  removeBlocksInRange requestId 0
    (manager.getNumSkippedTokens processedComputedTokens / manager.blockSize)
    pool manager

/-- Free the block allocated two steps ago, whose state the running one was
copied from. -/
def removeLastState (requestId : R) (processedComputedTokens : ℕ)
    (pool : BlockPool H) (manager : SingleTypeKVCacheManager R H) :
    Except Failure (Updated R H Unit) :=
  match manager.lastStateBlockIdx requestId with
  | none => .ok (pool, manager, ())
  | some lastStateBlockIdx =>
      if lastStateBlockIdx + 1 <
          cdiv processedComputedTokens manager.blockSize then
        match (manager.blocks requestId)[lastStateBlockIdx]? with
        | none => .error .indexError
        | some block =>
            if block = nullBlock then .ok (pool, manager, ())
            else
              .ok (pool.freeBlocks [block],
                manager.setBlocks requestId
                  ((manager.blocks requestId).set lastStateBlockIdx nullBlock),
                ())
      else .ok (pool, manager, ())

def removeSkippedBlocks (requestId : R) (processedComputedTokens : ℕ)
    (numPromptTokens : Option ℕ) (pool : BlockPool H)
    (manager : SingleTypeKVCacheManager R H) :
    Except Failure (Updated R H Unit) :=
  match manager.kind with
  | .kpoolTail => .ok (pool, manager, ())
  | .rswa rswaWindow =>
      match numPromptTokens with
      | none =>
          let (pool, manager) := removeSkippedBlocksBase requestId
            processedComputedTokens pool manager
          .ok (pool, manager, ())
      | some numPromptTokens =>
          let windowStart :=
            max numPromptTokens (processedComputedTokens - rswaWindow)
          let (pool, manager) := removeBlocksInRange requestId
            (cdiv numPromptTokens manager.blockSize)
            (windowStart / manager.blockSize) pool manager
          .ok (pool, manager, ())
  | .mamba spec =>
      let (pool, manager) := removeSkippedBlocksBase requestId
        processedComputedTokens pool manager
      if spec.align then
        removeLastState requestId processedComputedTokens pool manager
      else .ok (pool, manager, ())
  | _ =>
      let (pool, manager) := removeSkippedBlocksBase requestId
        processedComputedTokens pool manager
      .ok (pool, manager, ())

def popBlocksForFree (requestId : R)
    (manager : SingleTypeKVCacheManager R H) :
    List BlockId × SingleTypeKVCacheManager R H :=
  (manager.blocks requestId,
    { manager with
      reqToBlocks := manager.reqToBlocks.dropRow requestId
      numCachedBlock := Function.update manager.numCachedBlock requestId none
      partialHitReqs := Function.update manager.partialHitReqs requestId none
      allocatedBlockReqs :=
        Function.update manager.allocatedBlockReqs requestId false
      lastStateBlockIdx :=
        Function.update manager.lastStateBlockIdx requestId none
      numCheckpointBlocks :=
        Function.update manager.numCheckpointBlocks requestId 0
      producerPartialTailReqs :=
        Function.update manager.producerPartialTailReqs requestId none
      -- The unpin hook of a request that dies in this pass has already run.
      pendingPartialTailOffloads :=
        manager.pendingPartialTailOffloads.filter
          fun entry => entry.requestId ≠ requestId })

def free (requestId : R) (pool : BlockPool H)
    (manager : SingleTypeKVCacheManager R H) :
    BlockPool H × SingleTypeKVCacheManager R H :=
  let (reqBlocks, manager) := manager.popBlocksForFree requestId
  (pool.freeBlocks reqBlocks.reverse, manager)

/-! ## Caching blocks -/

/-- `SlidingWindowManager.reachable_block_mask` -/
def slidingWindowMask (manager : SingleTypeKVCacheManager R H)
    (slidingWindow startBlock endBlock : ℕ) (retentionInterval : Option ℕ)
    (reachableBoundaries : List ℕ) : Option (List Bool) :=
  let blockSize := manager.specBlockSize
  let shift := manager.useEagle.toNat
  let need := cdiv (slidingWindow - 1) blockSize + shift
  let segmentTokens :=
    match retentionInterval with
    | none => some manager.schedulerBlockSize
    | some 0 => none
    | some interval => some interval
  let inSegment (i : ℕ) : Bool :=
    segmentTokens.any fun tokens =>
      shift ≤ i && tokens / blockSize - need ≤
        (i - shift) % (tokens / blockSize)
  let atBoundary (i : ℕ) : Bool :=
    retentionInterval.isSome && reachableBoundaries.any fun boundary =>
      let last := boundary / manager.schedulerBlockSize *
        manager.schedulerBlockSize / blockSize + shift
      last - need ≤ i && i < last
  if segmentTokens.any (fun tokens => tokens / blockSize ≤ need) then none
  else
    some ((List.range' startBlock (endBlock - startBlock)).map
      fun i => inSegment i || atBoundary i)

/-- `MambaManager.reachable_block_mask` -/
def mambaMask (manager : SingleTypeKVCacheManager R H)
    (startBlock endBlock : ℕ) (retentionInterval : Option ℕ)
    (reachableBoundaries : List ℕ) : Option (List Bool) :=
  match retentionInterval with
  | none => none
  | some interval =>
      let blockSize := manager.specBlockSize
      let perSegment := interval / blockSize
      let inSegment (i : ℕ) : Bool :=
        interval != 0 && (i + 1) % perSegment == 0
      let atBoundary (i : ℕ) : Bool :=
        reachableBoundaries.any fun boundary =>
          i + 1 == boundary / manager.schedulerBlockSize *
            manager.schedulerBlockSize / blockSize
      if interval ≠ 0 ∧ perSegment ≤ 1 then none
      else
        some ((List.range' startBlock (endBlock - startBlock)).map
          fun i => inSegment i || atBoundary i)

def reachableBlockMask (manager : SingleTypeKVCacheManager R H)
    (startBlock endBlock : ℕ) (retentionInterval : Option ℕ)
    (reachableBoundaries : List ℕ) : Option (List Bool) :=
  match manager.kind with
  | .slidingWindow slidingWindow _ =>
      manager.slidingWindowMask slidingWindow startBlock endBlock
        retentionInterval reachableBoundaries
  | .mamba _ =>
      manager.mambaMask startBlock endBlock retentionInterval
        reachableBoundaries
  | _ => none

/-- `SingleTypeKVCacheManager.cache_blocks` -/
def cacheBlocksBase (request : Request R H) (numTokens : ℕ)
    (retentionInterval : Option ℕ) (pool : BlockPool H)
    (manager : SingleTypeKVCacheManager R H) :
    Except Failure (Updated R H Unit) :=
  let requestId := request.requestId
  let numCachedBlocks := (manager.numCachedBlock requestId).getD 0
  let numFullBlocks := numTokens / manager.blockSize
  if numFullBlocks ≤ numCachedBlocks then .ok (pool, manager, ())
  else do
    let reachableBoundaries := (request.numPromptTokens - 1) ::
      (if request.sharedPrefixBoundary = 0 then []
        else [request.sharedPrefixBoundary])
    let blockMask := manager.reachableBlockMask numCachedBlocks numFullBlocks
      retentionInterval reachableBoundaries
    let pool ← pool.cacheFullBlocks request.blockHashes
      (manager.blocks requestId) numCachedBlocks numFullBlocks
      manager.blockSize manager.kvCacheGroupId blockMask
    return (pool,
      { manager with
        numCachedBlock := Function.update manager.numCachedBlock requestId
          (some numFullBlocks) }, ())

/-- `FullAttentionManager._cache_partial_tail_block` -/
def cachePromptTail (request : Request R H) (numTokens : ℕ)
    (pool : BlockPool H) (manager : SingleTypeKVCacheManager R H) :
    Except Failure (Updated R H Unit) :=
  let boundaryTokens :=
    request.numPromptTokens / pool.hashBlockSize * pool.hashBlockSize
  if manager.blockSize = pool.hashBlockSize ∨ boundaryTokens = 0 ∨
      numTokens < boundaryTokens ∨
      boundaryTokens % manager.blockSize = 0 then
    .ok (pool, manager, ())
  else
    match (manager.blocks request.requestId)[boundaryTokens /
        manager.blockSize]? with
    | none => .ok (pool, manager, ())
    | some block => do
        let (pool, _) ← pool.cachePartialBlock request.blockHashes block
          boundaryTokens manager.kvCacheGroupId manager.blockSize
        return (pool, manager, ())

/-- `MambaManager._cache_partial_tail_block`, together with recording the
new key as cached in this step. -/
def cacheStateTail (request : Request R H) (numTokens : ℕ)
    (pool : BlockPool H) (manager : SingleTypeKVCacheManager R H) :
    Except Failure (Updated R H Unit) :=
  let requestId := request.requestId
  if manager.blockSize = pool.hashBlockSize ∨
      numTokens % manager.blockSize = 0 ∨
      numTokens % pool.hashBlockSize ≠ 0 ∨
      numTokens ≠ request.numPromptTokens / pool.hashBlockSize *
        pool.hashBlockSize then
    .ok (pool, manager, ())
  else
    let blockIdx := numTokens / manager.blockSize
    match (manager.blocks requestId)[blockIdx]? with
    | none => .ok (pool, manager, ())
    | some sourceBlock =>
        if sourceBlock = nullBlock then .ok (pool, manager, ())
        else do
          let (pool, partialHash) ← pool.cachePartialBlock request.blockHashes
            sourceBlock numTokens manager.kvCacheGroupId manager.blockSize
          match partialHash with
          | none => return (pool, manager, ())
          | some key =>
              return (pool,
                { manager with
                  partialHitReqs := Function.update manager.partialHitReqs
                    requestId (some (blockIdx, sourceBlock))
                  numCachedBlock := Function.update manager.numCachedBlock
                    requestId (some blockIdx)
                  producerPartialTailReqs :=
                    Function.update manager.producerPartialTailReqs requestId
                      (some numTokens)
                  cachedBlocksThisStep :=
                    manager.cachedBlocksThisStep ++ [key] }, ())

/-- The keys of the blocks that `MambaManager.cache_blocks` just cached. -/
def noteCachedBlocks (requestId : R) (numCachedBefore numCachedAfter : ℕ)
    (pool : BlockPool H) (manager : SingleTypeKVCacheManager R H) :
    SingleTypeKVCacheManager R H :=
  { manager with
    cachedBlocksThisStep := manager.cachedBlocksThisStep ++
      (((manager.blocks requestId).take numCachedAfter).drop
        numCachedBefore).filterMap fun block =>
          if block = nullBlock then none else pool.blockHash block }

def cacheBlocks (request : Request R H) (numTokens : ℕ)
    (retentionInterval : Option ℕ) (pool : BlockPool H)
    (manager : SingleTypeKVCacheManager R H) :
    Except Failure (Updated R H Unit) :=
  match manager.kind with
  | .kpoolTail => .ok (pool, manager, ())
  | .crossAttention => .error .shouldNotBeCalled
  | .fullAttention | .rswa _ => do
      let (pool, manager, _) ← cacheBlocksBase request numTokens
        retentionInterval pool manager
      cachePromptTail request numTokens pool manager
  | .slidingWindow _ _ | .chunkedLocalAttention _ =>
      cacheBlocksBase request numTokens retentionInterval pool manager
  | .mamba spec => do
      let numCachedBefore :=
        (manager.numCachedBlock request.requestId).getD 0
      let (pool, manager, _) ← cacheBlocksBase request numTokens
        retentionInterval pool manager
      let numCachedAfter :=
        (manager.numCachedBlock request.requestId).getD 0
      let (pool, manager, _) ←
        if spec.align then cacheStateTail request numTokens pool manager
        else pure (pool, manager, ())
      return (pool,
        noteCachedBlocks request.requestId numCachedBefore numCachedAfter pool
          manager, ())

def newStepStarts (manager : SingleTypeKVCacheManager R H) :
    SingleTypeKVCacheManager R H :=
  { manager with cachedBlocksThisStep := [] }

end SingleTypeKVCacheManager

end GlmFlash.Cache
