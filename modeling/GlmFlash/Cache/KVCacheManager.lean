import GlmFlash.Cache.Manager

/-!
# The KV-cache manager

`KVCacheManager` and its coordinator: the block pool, one manager per group,
and the admission policy of `allocate_slots`.  The gates, the prefix stage and
the allocation stage of that method are definitions of their own, in the order
in which it runs them.  Statistics, events and logging are left out.
-/

namespace GlmFlash.Cache

open GlmFlash.Library

/-- What the constructor reads from its arguments and the environment. -/
structure AllocationPolicy where
  maxModelLen : ℕ
  mambaStateReserve : ℕ
  mambaReserveAge : ℕ
  watermarkBlocks : ℕ
  numReprefillableTokens : ℕ
  retentionInterval : Option ℕ

structure KVCacheManager (R H : Type) [DecidableEq R]
    extends AllocationPolicy where
  blockPool : BlockPool H
  singleTypeManagers : List (SingleTypeKVCacheManager R H)
  reserveBlocked : R → ℕ
  partialTailPins : Tables R BlockId

/-- The arguments of `allocate_slots`.  `newComputedBlocks` is absent for the
shared empty lookup result. -/
structure SlotsCall (R H : Type) where
  request : Request R H
  numNewTokens : ℕ
  numNewComputedTokens : ℕ
  newComputedBlocks : Option (List (List BlockId))
  numLookaheadTokens : ℕ
  numExternalComputedTokens : ℕ
  delayCacheBlocks : Bool
  numEncoderTokens : ℕ
  fullSequenceMustFit : Bool
  reservedBlocks : ℕ
  hasScheduledReqs : Bool

namespace SlotsCall

variable {R H : Type}

def requestId (call : SlotsCall R H) : R :=
  call.request.requestId

def numLocalComputedTokens (call : SlotsCall R H) : ℕ :=
  call.request.numComputedTokens + call.numNewComputedTokens

/-- The hit blocks of one group. -/
def hitBlocks (call : SlotsCall R H) (kvCacheGroupId : ℕ) : List BlockId :=
  (call.newComputedBlocks.getD []).getD kvCacheGroupId []

/-- A query with the hit blocks of one group. -/
def groupQuery (call : SlotsCall R H) (query : BlockQuery R)
    (kvCacheGroupId : ℕ) : BlockQuery R :=
  { query with newComputedBlocks := call.hitBlocks kvCacheGroupId }

end SlotsCall

namespace KVCacheManager

variable {R H : Type} [DecidableEq R] [DecidableEq H]

def init (policy : AllocationPolicy) (groups : List ManagerSpec)
    (numBlocks hashBlockSize : ℕ) (enableCaching : Bool) :
    KVCacheManager R H where
  toAllocationPolicy := policy
  blockPool := BlockPool.init numBlocks enableCaching hashBlockSize
  singleTypeManagers := groups.mapIdx fun i spec =>
    SingleTypeKVCacheManager.init { spec with kvCacheGroupId := i }
  reserveBlocked _ := 0
  partialTailPins := ∅

/-- One pass over the managers that threads the shared pool. -/
def onManagers {A : Type} (self : KVCacheManager R H)
    (round : BlockPool H → SingleTypeKVCacheManager R H →
      Except Failure (Updated R H A)) :
    Except Failure (KVCacheManager R H × List A) := do
  let (blockPool, singleTypeManagers, results) ←
    threadCells round self.blockPool self.singleTypeManagers
  return ({ self with blockPool, singleTypeManagers }, results)

/-! ## Demand -/

def getNumBlocksToAllocate (self : KVCacheManager R H)
    (call : SlotsCall R H) (query : BlockQuery R) :
    Except Failure (KVCacheManager R H × ℤ) := do
  let (self, demands) ← self.onManagers fun pool manager =>
    SingleTypeKVCacheManager.getNumBlocksToAllocate call.numEncoderTokens
      (call.groupQuery query manager.kvCacheGroupId) pool manager
  return (self, demands.sum)

def totalComputedTokens (self : KVCacheManager R H)
    (call : SlotsCall R H) : ℕ :=
  min (call.numLocalComputedTokens + call.numExternalComputedTokens)
    self.maxModelLen

def numTokensMainModel (self : KVCacheManager R H)
    (call : SlotsCall R H) : ℕ :=
  self.totalComputedTokens call + call.numNewTokens

def numTokensNeedSlot (self : KVCacheManager R H)
    (call : SlotsCall R H) : ℕ :=
  min (self.numTokensMainModel call + call.numLookaheadTokens)
    self.maxModelLen

/-- The full sequence, billed under the admission cap. -/
def fullQuery (self : KVCacheManager R H) (call : SlotsCall R H) :
    BlockQuery R where
  requestId := call.requestId
  numTokens := min call.request.numTokens self.maxModelLen
  newComputedBlocks := []
  totalComputedTokens := self.totalComputedTokens call
  numLocalComputedTokens := call.numLocalComputedTokens
  numTokensMainModel := min call.request.numTokens self.maxModelLen
  applyAdmissionCap := true

/-- The tokens of this step. -/
def chunkQuery (self : KVCacheManager R H) (call : SlotsCall R H) :
    BlockQuery R where
  requestId := call.requestId
  numTokens := self.numTokensNeedSlot call
  newComputedBlocks := []
  totalComputedTokens :=
    call.numLocalComputedTokens + call.numExternalComputedTokens
  numLocalComputedTokens := call.numLocalComputedTokens
  numTokensMainModel := self.numTokensMainModel call
  applyAdmissionCap := false

/-! ## Gates -/

def IsFirstAllocation (self : KVCacheManager R H) (requestId : R) : Prop :=
  ∀ manager ∈ self.singleTypeManagers, manager.blocks requestId = []

instance (self : KVCacheManager R H) (requestId : R) :
    Decidable (self.IsFirstAllocation requestId) :=
  inferInstanceAs (Decidable (∀ manager ∈ self.singleTypeManagers, _))

def ReserveAgedOut (self : KVCacheManager R H) (requestId : R) : Prop :=
  0 < self.mambaStateReserve ∧ 0 < self.mambaReserveAge ∧
    self.mambaReserveAge ≤ self.reserveBlocked requestId

instance (self : KVCacheManager R H) (requestId : R) :
    Decidable (self.ReserveAgedOut requestId) :=
  inferInstanceAs (Decidable (_ ∧ _))

/-- The admission reserve that applies to this request now. -/
def stateReserve (self : KVCacheManager R H) (requestId : R) : ℕ :=
  if self.IsFirstAllocation requestId ∧ ¬self.ReserveAgedOut requestId then
    self.mambaStateReserve
  else 0

/-- The watermark applies to waiting requests behind scheduled ones. -/
def watermark (self : KVCacheManager R H) (call : SlotsCall R H) : ℕ :=
  if call.hasScheduledReqs = true ∧ call.request.waiting = true then
    self.watermarkBlocks
  else 0

/-- Blocked solely by the reserve: feed the aging escape. -/
def noteReserveBlocked (self : KVCacheManager R H) (requestId : R) :
    KVCacheManager R H :=
  { self with
    reserveBlocked := Function.update self.reserveBlocked requestId
      (self.reserveBlocked requestId + 1) }

/-- Compare the requirement with the free blocks, with and without the
reserve. -/
def decideAdmission (self : KVCacheManager R H) (requestId : R)
    (requiredBlocks availableBlocks : ℤ) (stateReserve : ℕ) :
    KVCacheManager R H × Bool :=
  if availableBlocks < requiredBlocks then
    if 0 < stateReserve ∧ requiredBlocks - stateReserve ≤ availableBlocks then
      (self.noteReserveBlocked requestId, false)
    else (self, false)
  else (self, true)

/-- `full_sequence_must_fit`: fail if the full sequence does not fit. -/
def fullSequenceGate (self : KVCacheManager R H) (call : SlotsCall R H)
    (stateReserve : ℕ) : Except Failure (KVCacheManager R H × Bool) :=
  if call.fullSequenceMustFit = true then do
    let (self, demand) ←
      self.getNumBlocksToAllocate call (self.fullQuery call)
    return self.decideAdmission call.requestId
      (demand + self.watermark call + stateReserve)
      self.blockPool.getNumFreeBlocks stateReserve
  else .ok (self, true)

/-- What the chunk requires; under the reserve, at least what the full
sequence does. -/
def requiredBlocks (self : KVCacheManager R H) (call : SlotsCall R H)
    (stateReserve : ℕ) : Except Failure (KVCacheManager R H × ℤ) := do
  let (self, numBlocksToAllocate) ←
    self.getNumBlocksToAllocate call (self.chunkQuery call)
  if 0 < stateReserve then do
    let (self, honestDemand) ←
      self.getNumBlocksToAllocate call (self.fullQuery call)
    return (self, max numBlocksToAllocate honestDemand + self.watermark call +
      stateReserve)
  else return (self, numBlocksToAllocate + self.watermark call)

def capacityGate (self : KVCacheManager R H) (call : SlotsCall R H)
    (stateReserve : ℕ) : Except Failure (KVCacheManager R H × Bool) := do
  let (self, requiredBlocks) ← self.requiredBlocks call stateReserve
  return self.decideAdmission call.requestId requiredBlocks
    (self.blockPool.getNumFreeBlocks - call.reservedBlocks) stateReserve

/-! ## Allocation -/

def removeSkippedBlocks (self : KVCacheManager R H) (requestId : R)
    (processedComputedTokens : ℕ) (numPromptTokens : Option ℕ) :
    Except Failure (KVCacheManager R H) := do
  let (self, _) ← self.onManagers
    (SingleTypeKVCacheManager.removeSkippedBlocks requestId
      processedComputedTokens numPromptTokens)
  return self

/-- Touch the local hits of every group before any group allocates. -/
def allocateNewComputedBlocks (self : KVCacheManager R H)
    (call : SlotsCall R H) : Except Failure (KVCacheManager R H) :=
  if ∃ manager ∈ self.singleTypeManagers,
      manager.numCachedBlock call.requestId ≠ none then do
    require (∀ group ∈ call.newComputedBlocks.getD [], group = [])
      .assertionError
    return self
  else do
    let (self, _) ← self.onManagers fun pool manager =>
      SingleTypeKVCacheManager.addLocalComputedBlocks call.requestId
        (call.hitBlocks manager.kvCacheGroupId) call.numLocalComputedTokens
        call.numExternalComputedTokens pool manager
    if 0 < call.numExternalComputedTokens then do
      let (self, _) ← self.onManagers
        (SingleTypeKVCacheManager.allocateExternalComputedBlocks
          call.requestId call.numLocalComputedTokens
          call.numExternalComputedTokens)
      return self
    else return self

def prefixStage (self : KVCacheManager R H) (call : SlotsCall R H) :
    Except Failure (KVCacheManager R H) :=
  if call.newComputedBlocks.isSome = true ∨
      0 < call.numExternalComputedTokens then
    self.allocateNewComputedBlocks call
  else .ok self

def allocateNewBlocks (self : KVCacheManager R H) (call : SlotsCall R H) :
    Except Failure (KVCacheManager R H × List (List BlockId)) :=
  self.onManagers (SingleTypeKVCacheManager.allocateNewBlocks call.requestId
    (self.numTokensNeedSlot call) (self.numTokensMainModel call)
    call.numEncoderTokens)

/-- Only tokens with finalized KV are cached. -/
def cacheBlocks (self : KVCacheManager R H) (request : Request R H)
    (numComputedTokens : ℕ) : Except Failure (KVCacheManager R H) :=
  if self.blockPool.enableCaching = true then do
    let (self, _) ← self.onManagers
      (SingleTypeKVCacheManager.cacheBlocks request
        (numComputedTokens - self.numReprefillableTokens)
        self.retentionInterval)
    return self
  else .ok self

def cacheStage (self : KVCacheManager R H) (call : SlotsCall R H) :
    Except Failure (KVCacheManager R H) :=
  if call.delayCacheBlocks = true then .ok self
  else
    self.cacheBlocks call.request
      (min (self.numTokensMainModel call) call.request.numTokens)

/-- Admitted: the streak of the aging escape is done. -/
def clearReserveBlocked (self : KVCacheManager R H) (requestId : R) :
    KVCacheManager R H :=
  { self with
    reserveBlocked := Function.update self.reserveBlocked requestId 0 }

/-- The stages of `allocate_slots` after its gates. -/
def commit (self : KVCacheManager R H) (call : SlotsCall R H) :
    Except Failure (KVCacheManager R H × List (List BlockId)) := do
  let self ← self.prefixStage call
  self.allocateNewBlocks call

def allocateSlots (self : KVCacheManager R H) (call : SlotsCall R H) :
    Except Failure (KVCacheManager R H × Option (List (List BlockId))) := do
  require (call.numNewTokens ≠ 0 ∨ call.numExternalComputedTokens ≠ 0)
    .noTokens
  let isFirstAllocation := decide (self.IsFirstAllocation call.requestId)
  let stateReserve := self.stateReserve call.requestId
  let (self, fits) ← self.fullSequenceGate call stateReserve
  if fits = false then return (self, none)
  else do
    let self ← self.removeSkippedBlocks call.requestId
      (self.totalComputedTokens call - call.request.numInFlightTokens)
      (some call.request.numPromptTokens)
    let (self, fits) ← self.capacityGate call stateReserve
    if fits = false then return (self, none)
    else do
      let self := if isFirstAllocation then
        self.clearReserveBlocked call.requestId else self
      let (self, newBlocks) ← self.commit call
      let self ← self.cacheStage call
      return (self, some newBlocks)

/-! ## Releasing -/

/-- The request-level part of `free`: its pins and its aging streak. -/
def unpin (self : KVCacheManager R H) (requestId : R) :
    KVCacheManager R H :=
  { self with
    blockPool := self.blockPool.freeBlocks (self.partialTailPins.row requestId)
    partialTailPins := self.partialTailPins.dropRow requestId
    reserveBlocked := Function.update self.reserveBlocked requestId 0 }

def free (self : KVCacheManager R H) (requestId : R) :
    Except Failure (KVCacheManager R H) := do
  let (self, _) ← (self.unpin requestId).onManagers fun pool manager =>
    let (pool, manager) := SingleTypeKVCacheManager.free requestId pool manager
    .ok (pool, manager, ())
  return self

/-- Detach the blocks of a request without returning them to the pool. -/
def popBlocksForFree (self : KVCacheManager R H) (requestId : R) :
    List BlockId × KVCacheManager R H :=
  let popped := self.singleTypeManagers.map
    fun manager => manager.popBlocksForFree requestId
  (self.partialTailPins.row requestId ++ (popped.map Prod.fst).flatten,
    { self with
      singleTypeManagers := popped.map Prod.snd
      partialTailPins := self.partialTailPins.dropRow requestId })

/-- Return blocks that were popped or retained before. -/
def freeBlocks (self : KVCacheManager R H) (blocks : List BlockId) :
    KVCacheManager R H :=
  { self with blockPool := self.blockPool.freeBlocks blocks }

/-! ## Hand-offs of a step -/

/-- `get_blocks`, the blocks of all groups in one list. -/
def requestBlocks (self : KVCacheManager R H) (requestId : R) :
    List BlockId :=
  self.singleTypeManagers.flatMap fun manager => manager.blocks requestId

/-- The copies of this step; the endpoints stay retained. -/
def takeKvCacheBlockCopies (self : KVCacheManager R H) :
    List (BlockId × BlockId) × KVCacheManager R H :=
  (self.singleTypeManagers.flatMap
      SingleTypeKVCacheManager.pendingCowCopies,
    { self with
      singleTypeManagers := self.singleTypeManagers.map fun manager =>
        { manager with pendingCowCopies := [] } })

/-- The endpoints of the copies no step has taken yet. -/
def cowEndpoints (self : KVCacheManager R H) : List BlockId :=
  self.takeKvCacheBlockCopies.1.flatMap fun copy => [copy.1, copy.2]

/-- Pin handed-off blocks until the request's blocks are freed. -/
def pinOffloads (self : KVCacheManager R H) :
    List (PartialTailOffload R) → Except Failure (KVCacheManager R H)
  | [] => .ok self
  | entry :: entries => do
      let blockPool ← self.blockPool.touch [entry.block]
      let pins := self.partialTailPins.row entry.requestId ++ [entry.block]
      pinOffloads
        { self with
          blockPool := blockPool
          partialTailPins :=
            self.partialTailPins.setRow entry.requestId pins }
        entries

def takePartialTailOffloads (self : KVCacheManager R H) :
    Except Failure (KVCacheManager R H × List (PartialTailOffload R)) := do
  let entries := self.singleTypeManagers.flatMap
    SingleTypeKVCacheManager.pendingPartialTailOffloads
  let self : KVCacheManager R H := { self with
    singleTypeManagers := self.singleTypeManagers.map fun manager =>
      { manager with pendingPartialTailOffloads := [] } }
  let self ← self.pinOffloads entries
  return (self, entries)

def newStepStarts (self : KVCacheManager R H) : KVCacheManager R H :=
  { self with
    singleTypeManagers := self.singleTypeManagers.map
      SingleTypeKVCacheManager.newStepStarts }

def evictBlocks (self : KVCacheManager R H) (blockIds : List BlockId) :
    Except Failure (KVCacheManager R H) := do
  let blockPool ← self.blockPool.evictBlocks blockIds
  return { self with blockPool }

def resetPrefixCache (self : KVCacheManager R H) :
    KVCacheManager R H × Bool :=
  let (blockPool, reset) := self.blockPool.resetPrefixCache
  ({ self with blockPool }, reset)

end KVCacheManager

end GlmFlash.Cache
