import GlmFlash.Cache.KVCacheManager
import GlmFlash.Library.Fences
import GlmFlash.Library.Runs

/-!
# The scheduler and its fences

The part of the scheduler that decides when blocks go back to the pool.  With
`defer_block_free` a step may still write the blocks of a request that is gone,
so they wait behind a fence: the number of the last step scheduled before.  The
engine core keeps the scheduled steps in a queue and hands them back in order.

The loops of `schedule` choose which of these calls they make and in which
order; here any order is allowed, and `finishSchedule` is the tail of the
method.  A call that raises ends the run.
-/

namespace GlmFlash.Sched

open GlmFlash.Library
open GlmFlash.Cache

inductive RequestStatus where
  | waiting
  | waitingForRemoteKvs
  | running
  | preempted
deriving DecidableEq, Repr

/-- The fields of a request that the fences depend on. -/
structure RequestState where
  status : RequestStatus
  lastSchedSeq : ℕ

structure Scheduler (R H : Type) [DecidableEq R] where
  kvCacheManager : KVCacheManager R H
  deferBlockFree : Bool
  requests : R → Option RequestState
  schedStepSeq : ℕ
  processedStepSeq : ℕ
  deferredFrees : List (ℕ × List BlockId)

structure SchedulerOutput (R : Type) where
  numScheduledTokens : List (R × ℕ)
  /-- the blocks of each scheduled request in all groups -/
  blockTables : List (R × List BlockId)
  kvCacheBlockCopies : List (BlockId × BlockId)

namespace SchedulerOutput

variable {R : Type}

def totalNumScheduledTokens (output : SchedulerOutput R) : ℕ :=
  (output.numScheduledTokens.map Prod.snd).sum

def NonEmpty (output : SchedulerOutput R) : Prop :=
  0 < output.totalNumScheduledTokens

instance (output : SchedulerOutput R) : Decidable output.NonEmpty :=
  inferInstanceAs (Decidable (0 < _))

/-- The table entries of the step, one by one. -/
def tableEntries (output : SchedulerOutput R) : List (R × BlockId) :=
  output.blockTables.flatMap fun table => table.2.map (Prod.mk table.1)

/-- The endpoints of the copies of the step. -/
def copyEndpoints (output : SchedulerOutput R) : List BlockId :=
  output.kvCacheBlockCopies.flatMap fun copy => [copy.1, copy.2]

/-- The blocks in the request tables and the block copies of the step. -/
def blocks (output : SchedulerOutput R) : List BlockId :=
  output.tableEntries.map Prod.snd ++ output.copyEndpoints

end SchedulerOutput

namespace Scheduler

variable {R H : Type} [DecidableEq R] [DecidableEq H]

def init (kvCacheManager : KVCacheManager R H) (deferBlockFree : Bool) :
    Scheduler R H where
  kvCacheManager := kvCacheManager
  deferBlockFree := deferBlockFree
  requests _ := none
  schedStepSeq := 0
  processedStepSeq := 0
  deferredFrees := []

/-- `self.requests[request_id]` -/
def getRequest (self : Scheduler R H) (requestId : R) :
    Except Failure RequestState :=
  match self.requests requestId with
  | some request => .ok request
  | none => .error .assertionError

def setRequest (self : Scheduler R H) (requestId : R)
    (request : Option RequestState) : Scheduler R H :=
  { self with requests := Function.update self.requests requestId request }

/-- A new request; `requests` has none of that id. -/
def addRequest (self : Scheduler R H) (requestId : R) :
    Except Failure (Scheduler R H) := do
  require (self.requests requestId = none) .assertionError
  return self.setRequest requestId (some ⟨.waiting, 0⟩)

/-! ## Freeing blocks -/

/-- Free the blocks of a request, deferred while an in-flight step may still
write them. -/
def freeRequestBlocks (self : Scheduler R H) (requestId : R)
    (request : RequestState) : Except Failure (Scheduler R H) :=
  if self.deferBlockFree = false ∨
      request.lastSchedSeq ≤ self.processedStepSeq then do
    let kvCacheManager ← self.kvCacheManager.free requestId
    return { self with kvCacheManager }
  else
    let (blocks, kvCacheManager) :=
      self.kvCacheManager.popBlocksForFree requestId
    .ok { self with
      kvCacheManager
      deferredFrees :=
        if blocks = [] then self.deferredFrees
        else self.deferredFrees ++ [(self.schedStepSeq, blocks)] }

/-- Release the endpoints of copies, deferred while the step that runs the
copies may be in flight. -/
def freeCowRetainedBlocks (self : Scheduler R H) (blocks : List BlockId)
    (fenceSeq : ℕ) : Scheduler R H :=
  if self.deferBlockFree = false ∨ fenceSeq ≤ self.processedStepSeq then
    { self with kvCacheManager := self.kvCacheManager.freeBlocks blocks }
  else
    { self with
      deferredFrees := self.deferredFrees ++ [(fenceSeq, blocks.reverse)] }

/-- Return deferred blocks whose fence step has completed. -/
def drainDeferredFrees (self : Scheduler R H) : Scheduler R H :=
  let (kvCacheManager, deferredFrees) :=
    openFences (fun manager blocks =>
        KVCacheManager.freeBlocks manager blocks.reverse)
      self.processedStepSeq self.kvCacheManager self.deferredFrees
  { self with kvCacheManager, deferredFrees }

/-- Only running requests can be preempted. -/
def preemptRequest (self : Scheduler R H) (requestId : R) :
    Except Failure (Scheduler R H) := do
  let request ← self.getRequest requestId
  require (request.status = .running) .assertionError
  let self ← self.freeRequestBlocks requestId request
  return self.setRequest requestId
    (some { request with status := .preempted })

/-- `_free_blocks` of a finished or aborted request. -/
def freeBlocks (self : Scheduler R H) (requestId : R) :
    Except Failure (Scheduler R H) := do
  let request ← self.getRequest requestId
  let self ← self.freeRequestBlocks requestId request
  return self.setRequest requestId none

/-! ## Scheduling -/

/-- One `allocate_slots` of `schedule` and the status it leads to.  Only a
request without computed tokens, hence without blocks, loads from remote. -/
def allocateSlots (self : Scheduler R H) (call : SlotsCall R H)
    (loadKvAsync : Bool) : Except Failure (Scheduler R H) := do
  let request ← self.getRequest call.requestId
  require (request.status ≠ .waitingForRemoteKvs) .assertionError
  require (loadKvAsync = true →
    request.status ≠ .running ∧
      self.kvCacheManager.IsFirstAllocation call.requestId) .assertionError
  let (kvCacheManager, newBlocks) ← self.kvCacheManager.allocateSlots call
  let self := { self with kvCacheManager }
  if newBlocks.isSome = true then
    return self.setRequest call.requestId (some { request with
      status := if loadKvAsync then .waitingForRemoteKvs else .running })
  else return self

/-- `_update_waiting_for_remote_kv` when the load left computed tokens. -/
def finishRemoteLoad (self : Scheduler R H) (request : Request R H)
    (numPreemptions : ℕ) : Except Failure (Scheduler R H) := do
  let state ← self.getRequest request.requestId
  require (state.status = .waitingForRemoteKvs) .assertionError
  let kvCacheManager ←
    self.kvCacheManager.cacheBlocks request request.numComputedTokens
  return { self with kvCacheManager }.setRequest request.requestId
    (some { state with
      status := if 0 < numPreemptions then .preempted else .waiting })

/-- `_update_waiting_for_remote_kv` without computed tokens: the blocks are
freed at once. -/
def failRemoteLoad (self : Scheduler R H) (requestId : R)
    (numPreemptions : ℕ) : Except Failure (Scheduler R H) := do
  let state ← self.getRequest requestId
  require (state.status = .waitingForRemoteKvs) .assertionError
  let kvCacheManager ← self.kvCacheManager.free requestId
  return { self with kvCacheManager }.setRequest requestId
    (some { state with
      status := if 0 < numPreemptions then .preempted else .waiting })

/-- `_update_after_schedule`: record the in-flight step of each request. -/
def updateAfterSchedule (self : Scheduler R H)
    (numScheduledTokens : List (R × ℕ)) : Scheduler R H :=
  if self.deferBlockFree = true then
    { self with
      requests := fun requestId =>
        if requestId ∈ numScheduledTokens.map Prod.fst then
          (self.requests requestId).map fun request =>
            { request with lastSchedSeq := self.schedStepSeq }
        else self.requests requestId }
  else self

/-- The copies of the step, fenced by its number. -/
def takeBlockCopies (self : Scheduler R H) :
    List (BlockId × BlockId) × Scheduler R H :=
  let (copies, kvCacheManager) := self.kvCacheManager.takeKvCacheBlockCopies
  let self := { self with kvCacheManager }
  if copies = [] then (copies, self)
  else
    (copies, self.freeCowRetainedBlocks
      (copies.flatMap fun copy => [copy.1, copy.2]) (self.schedStepSeq + 1))

/-- Advance the fence only for non-empty steps. -/
def advanceFence (self : Scheduler R H) (output : SchedulerOutput R) :
    Scheduler R H :=
  if self.deferBlockFree = true ∧ output.NonEmpty then
    { self with schedStepSeq := self.schedStepSeq + 1 }
  else self

/-- The tail of `schedule`, once its loops have chosen the tokens. -/
def finishSchedule (self : Scheduler R H)
    (numScheduledTokens : List (R × ℕ)) :
    Except Failure (Scheduler R H × SchedulerOutput R) := do
  require (∀ entry ∈ numScheduledTokens,
    (self.requests entry.1).map RequestState.status = some .running)
    .assertionError
  let (copies, self) := self.takeBlockCopies
  let output : SchedulerOutput R := {
    numScheduledTokens
    blockTables := numScheduledTokens.map fun entry =>
      (entry.1, self.kvCacheManager.requestBlocks entry.1)
    kvCacheBlockCopies := copies }
  let self := self.advanceFence output
  return (self.updateAfterSchedule numScheduledTokens, output)

/-- The start of `update_from_output`; the requests that the output stops are
freed by calls of their own. -/
def updateFromOutput (self : Scheduler R H) : Scheduler R H :=
  if self.deferBlockFree = true then
    { self with
      processedStepSeq := self.processedStepSeq + 1 }.drainDeferredFrees
  else self

end Scheduler

/-! ## The engine core -/

/-- A step in flight, with the number that was current when its scheduling
ended and the table entries that have been released since on the basis of
processed tokens. -/
structure InFlightStep (R : Type) where
  output : SchedulerOutput R
  stepSeq : ℕ
  skipped : List (R × BlockId)

/-- The scheduler and the queue of batches in flight, oldest first. -/
structure Engine (R H : Type) [DecidableEq R] where
  scheduler : Scheduler R H
  batchQueue : List (InFlightStep R)

inductive EngineAction (R H : Type) where
  | addRequest (requestId : R)
  | allocateSlots (call : SlotsCall R H) (loadKvAsync : Bool)
  | preemptRequest (requestId : R)
  /-- a request that finished or was aborted -/
  | freeBlocks (requestId : R)
  | finishRemoteLoad (request : Request R H) (numPreemptions : ℕ)
  | failRemoteLoad (requestId : R) (numPreemptions : ℕ)
  | removeSkippedBlocks (requestId : R) (processedComputedTokens : ℕ)
      (numPromptTokens : Option ℕ)
  | cacheBlocks (request : Request R H) (numComputedTokens : ℕ)
  | takePartialTailOffloads
  | evictBlocks (blockIds : List BlockId)
  | resetPrefixCache
  | newStepStarts
  | finishSchedule (numScheduledTokens : List (R × ℕ))
  | updateFromOutput

namespace Engine

variable {R H : Type} [DecidableEq R] [DecidableEq H]

def init (scheduler : Scheduler R H) : Engine R H where
  scheduler := scheduler
  batchQueue := []

/-- The free queue of the pool. -/
def freeQueue (engine : Engine R H) : List BlockId :=
  engine.scheduler.kvCacheManager.blockPool.freeBlockQueue.order

/-- The same scheduler over another state of the manager. -/
def withManager (engine : Engine R H) (kvCacheManager : KVCacheManager R H) :
    Engine R H :=
  { engine with scheduler := { engine.scheduler with kvCacheManager } }

/-- A block that leaves the table of its request without becoming the endpoint
of a pending copy is marked in the steps that have it. -/
def markSkipped (before after : KVCacheManager R H) (requestId : R)
    (step : InFlightStep R) : InFlightStep R :=
  { step with
    skipped := step.skipped ++ step.output.tableEntries.filter fun entry =>
      entry.1 = requestId ∧ entry.2 ∈ before.requestBlocks requestId ∧
        entry.2 ∉ after.requestBlocks requestId ∧
        entry.2 ∉ after.cowEndpoints }

def step (engine : Engine R H) :
    EngineAction R H → Except Failure (Engine R H)
  | .addRequest requestId => do
      let scheduler ← engine.scheduler.addRequest requestId
      return { engine with scheduler }
  | .allocateSlots call loadKvAsync => do
      let scheduler ← engine.scheduler.allocateSlots call loadKvAsync
      return {
        scheduler
        batchQueue := engine.batchQueue.map
          (markSkipped engine.scheduler.kvCacheManager
            scheduler.kvCacheManager call.requestId) }
  | .preemptRequest requestId => do
      let scheduler ← engine.scheduler.preemptRequest requestId
      return { engine with scheduler }
  | .freeBlocks requestId => do
      let scheduler ← engine.scheduler.freeBlocks requestId
      return { engine with scheduler }
  | .finishRemoteLoad request numPreemptions => do
      let scheduler ←
        engine.scheduler.finishRemoteLoad request numPreemptions
      return { engine with scheduler }
  | .failRemoteLoad requestId numPreemptions => do
      let scheduler ←
        engine.scheduler.failRemoteLoad requestId numPreemptions
      return { engine with scheduler }
  | .removeSkippedBlocks requestId processedComputedTokens
      numPromptTokens => do
      let manager ← engine.scheduler.kvCacheManager.removeSkippedBlocks
        requestId processedComputedTokens numPromptTokens
      return {
        scheduler := { engine.scheduler with kvCacheManager := manager }
        batchQueue := engine.batchQueue.map
          (markSkipped engine.scheduler.kvCacheManager manager requestId) }
  | .cacheBlocks request numComputedTokens => do
      let manager ← engine.scheduler.kvCacheManager.cacheBlocks request
        numComputedTokens
      return engine.withManager manager
  | .takePartialTailOffloads => do
      let (manager, _) ←
        engine.scheduler.kvCacheManager.takePartialTailOffloads
      return engine.withManager manager
  | .evictBlocks blockIds => do
      let manager ← engine.scheduler.kvCacheManager.evictBlocks blockIds
      return engine.withManager manager
  | .resetPrefixCache =>
      .ok (engine.withManager
        engine.scheduler.kvCacheManager.resetPrefixCache.1)
  | .newStepStarts =>
      .ok (engine.withManager engine.scheduler.kvCacheManager.newStepStarts)
  | .finishSchedule numScheduledTokens => do
      let (scheduler, output) ←
        engine.scheduler.finishSchedule numScheduledTokens
      return {
        scheduler
        batchQueue := engine.batchQueue ++
          [⟨output, scheduler.schedStepSeq, []⟩] }
  | .updateFromOutput =>
      match engine.batchQueue with
      | [] => .error .assertionError
      | _ :: batchQueue =>
          .ok { scheduler := engine.scheduler.updateFromOutput, batchQueue }

/-- Actions one after the other. -/
def run (engine : Engine R H) (actions : List (EngineAction R H)) :
    Except Failure (Engine R H) :=
  runSteps step engine actions

end Engine

end GlmFlash.Sched
