import GlmFlash.Cache.KVCacheManager
import GlmFlash.Library.Runs

/-!
# Runs of the KV-cache manager

The scheduler drives the manager by calls in any order.  Between the calls it
holds the lists it popped for a later free and the retained endpoints of the
copies it took.  A call that raises ends the run.
-/

namespace GlmFlash.Cache

open GlmFlash.Library

/-- The manager together with the blocks its caller holds. -/
structure Driver (R H : Type) [DecidableEq R] where
  kvCacheManager : KVCacheManager R H
  popped : List (List BlockId)
  retained : List (List BlockId)

inductive Operation (R H : Type) where
  | allocateSlots (call : SlotsCall R H)
  | free (requestId : R)
  | popBlocksForFree (requestId : R)
  /-- free one of the popped lists -/
  | freeBlocks (index : ℕ)
  | takeKvCacheBlockCopies
  /-- release the endpoints of one drained set of copies -/
  | releaseRetained (index : ℕ)
  | takePartialTailOffloads
  | removeSkippedBlocks (requestId : R) (processedComputedTokens : ℕ)
      (numPromptTokens : Option ℕ)
  | cacheBlocks (request : Request R H) (numComputedTokens : ℕ)
  | evictBlocks (blockIds : List BlockId)
  | resetPrefixCache
  | newStepStarts

namespace Driver

variable {R H : Type} [DecidableEq R] [DecidableEq H]

def init (kvCacheManager : KVCacheManager R H) : Driver R H where
  kvCacheManager := kvCacheManager
  popped := []
  retained := []

def step (driver : Driver R H) :
    Operation R H → Except Failure (Driver R H)
  | .allocateSlots call => do
      let (manager, _) ← driver.kvCacheManager.allocateSlots call
      return { driver with kvCacheManager := manager }
  | .free requestId => do
      let manager ← driver.kvCacheManager.free requestId
      return { driver with kvCacheManager := manager }
  | .popBlocksForFree requestId =>
      let (blocks, manager) := driver.kvCacheManager.popBlocksForFree requestId
      .ok { driver with
        kvCacheManager := manager
        popped := driver.popped ++ [blocks] }
  | .freeBlocks index =>
      .ok { driver with
        kvCacheManager := driver.kvCacheManager.freeBlocks
          (driver.popped.getD index []).reverse
        popped := driver.popped.eraseIdx index }
  | .takeKvCacheBlockCopies =>
      let (copies, manager) := driver.kvCacheManager.takeKvCacheBlockCopies
      .ok { driver with
        kvCacheManager := manager
        retained := driver.retained ++
          [copies.flatMap fun copy => [copy.1, copy.2]] }
  | .releaseRetained index =>
      .ok { driver with
        kvCacheManager := driver.kvCacheManager.freeBlocks
          (driver.retained.getD index [])
        retained := driver.retained.eraseIdx index }
  | .takePartialTailOffloads => do
      let (manager, _) ← driver.kvCacheManager.takePartialTailOffloads
      return { driver with kvCacheManager := manager }
  | .removeSkippedBlocks requestId processedComputedTokens
      numPromptTokens => do
      let manager ← driver.kvCacheManager.removeSkippedBlocks requestId
        processedComputedTokens numPromptTokens
      return { driver with kvCacheManager := manager }
  | .cacheBlocks request numComputedTokens => do
      let manager ← driver.kvCacheManager.cacheBlocks request
        numComputedTokens
      return { driver with kvCacheManager := manager }
  | .evictBlocks blockIds => do
      let manager ← driver.kvCacheManager.evictBlocks blockIds
      return { driver with kvCacheManager := manager }
  | .resetPrefixCache =>
      let (manager, _) := driver.kvCacheManager.resetPrefixCache
      .ok { driver with kvCacheManager := manager }
  | .newStepStarts =>
      .ok { driver with
        kvCacheManager := driver.kvCacheManager.newStepStarts }

/-- Operations one after the other. -/
def run (driver : Driver R H) (operations : List (Operation R H)) :
    Except Failure (Driver R H) :=
  runSteps step driver operations

theorem run_invariant {invariant : Driver R H → Prop}
    (hstep : ∀ driver operation driver',
      driver.step operation = .ok driver' →
        invariant driver → invariant driver')
    {driver driver' : Driver R H} {operations : List (Operation R H)}
    (hrun : driver.run operations = .ok driver')
    (hstart : invariant driver) : invariant driver' :=
  runSteps_invariant hstep hrun hstart

end Driver

/-! ## A small engine -/

/-- No reserve, no watermark, dense retention. -/
def idlePolicy : AllocationPolicy where
  maxModelLen := 64
  mambaStateReserve := 0
  mambaReserveAge := 0
  watermarkBlocks := 0
  numReprefillableTokens := 0
  retentionInterval := none

def groupOfKind (kind : ManagerKind) (blockSize : ℕ)
    (hpos : 0 < blockSize := by decide) : ManagerSpec where
  kvCacheGroupId := 0
  kind := kind
  blockSize := blockSize
  blockSize_pos := hpos
  specBlockSize := blockSize
  schedulerBlockSize := blockSize
  useEagle := false
  maxAdmissionBlocksPerRequest := none

theorem fourTokens_pos : 0 < 4 := by
  decide

/-- Full attention, Mamba states with one speculative block, and the indexer
tail. -/
def glmGroups : List ManagerSpec :=
  [groupOfKind .fullAttention 4,
    groupOfKind (.mamba
      { align := true
        numSpeculativeBlocks := 1
        numPrefillCheckpointBlocks := 0
        alignCapLegacy := false }) 4,
    groupOfKind .kpoolTail 4]

/-- The first allocation of a fresh prompt of `numTokens` tokens in one
chunk. -/
def firstChunk (numTokens : ℕ) : SlotsCall ℕ ℕ where
  request :=
    { requestId := 0
      numTokens := numTokens
      numPromptTokens := numTokens
      numComputedTokens := 0
      numInFlightTokens := 0
      waiting := true
      blockHashes := List.range (numTokens / 4)
      sharedPrefixBoundary := 0 }
  numNewTokens := numTokens
  numNewComputedTokens := 0
  newComputedBlocks := none
  numLookaheadTokens := 0
  numExternalComputedTokens := 0
  delayCacheBlocks := false
  numEncoderTokens := 0
  fullSequenceMustFit := false
  reservedBlocks := 0
  hasScheduledReqs := false

end GlmFlash.Cache
