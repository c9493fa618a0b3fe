import GlmFlash.Worker.InputBatch
import GlmFlash.Library.Outcome

/-!
# Steps of the model runner

`GPUModelRunner` keeps one state row for each request it knows.  A step takes
the scheduler's batch, prepares the inputs of the forward pass from the rows,
and after sampling writes the new tokens and the drafts for the next step back
to them.
-/

namespace GlmFlash.Worker.ModelRunner

open GlmFlash.Library

inductive Failure where
  | keyError
  | assertionError
  deriving DecidableEq, Repr

structure Config where
  maxNumReqs : ℕ
  maxModelLen : ℕ
  numSpeculativeSteps : ℕ
  /-- The number of rows of `next_prefill_tokens`. -/
  numLookahead : ℕ
  vocabSize : ℕ
  numNewSampledTokensPerStep : ℕ

/-- The rows of `RequestState`. -/
structure RequestStates (R : Type) where
  reqIdToIndex : R → Option ℕ
  prefillLen : Tensor
  totalLen : Tensor
  allTokenIds : Tensor
  numComputedTokens : Tensor
  numComputedTokensNp : Tensor
  numComputedPrefillTokens : Tensor
  lastSampledTokens : Tensor
  draftTokens : Tensor
  nextPrefillTokens : Tensor

structure InputBuffers where
  inputIds : Tensor
  positions : Tensor
  queryStartLoc : Tensor
  seqLens : Tensor

structure GPUModelRunner (R : Type) where
  reqStates : RequestStates R
  inputBuffers : InputBuffers
  /-- Of the penalties of the sampler, on the last rank. -/
  outputBinCounts : Option Tensor

/-- A batch in the order of `gather_batch_req_state`. -/
structure SchedulerOutput (R : Type) where
  /-- Each request of the batch with its `num_scheduled_tokens`. -/
  numScheduledTokens : List (R × ℕ)
  scheduledSpecDecodeTokens : List (R × List ℤ)
  /-- Each known request with its `num_computed_tokens`. -/
  scheduledCachedReqs : List (R × ℕ)

structure SamplerOutput where
  sampledTokenIds : Tensor
  sampledTokenIdsStride : ℕ
  numSampled : Tensor

/-- What `propose` returns: a row of drafts for each request of the batch. -/
structure DraftTokens where
  ids : Tensor
  numDraftTokens : ℕ

structure InputBatch where
  numReqs : ℕ
  idxMapping : Tensor
  queryStartLoc : Tensor
  seqLens : Tensor
  inputIds : Tensor
  positions : Tensor
  logitsIndices : Tensor
  cuNumLogits : Tensor

variable {R : Type} [DecidableEq R]

namespace SchedulerOutput

def reqIds (output : SchedulerOutput R) : List R :=
  output.numScheduledTokens.map Prod.fst

/-- `len(draft_tokens.get(req_id, ()))` -/
def numDraftTokens (output : SchedulerOutput R) (reqId : R) : ℕ :=
  ((output.scheduledSpecDecodeTokens.lookup reqId).getD []).length

end SchedulerOutput

/-- `0` and the sums of the first elements. -/
def cumsum (counts : List ℕ) : Tensor :=
  fun index => ((counts.take index.toNat).sum : ℕ)

/-- The elements of a list, one after the other. -/
def ofList (values : List ℕ) : Tensor :=
  fun index => (values.getD index.toNat 0 : ℕ)

def cuNumLogits (config : Config) (output : SchedulerOutput R) : Tensor :=
  if output.scheduledSpecDecodeTokens = [] then fun index => index
  else cumsum (output.reqIds.map fun reqId =>
    output.numDraftTokens reqId + config.numNewSampledTokensPerStep)

/-- Entries past the batch repeat the number of tokens. -/
def queryStartLoc (output : SchedulerOutput R) : Tensor :=
  let numScheduledTokens := output.numScheduledTokens.map Prod.snd
  fun index =>
    if index ≤ output.numScheduledTokens.length then
      cumsum numScheduledTokens index
    else (numScheduledTokens.sum : ℕ)

namespace RequestStates

/-- `req_id_to_index[req_id]` -/
def index (states : RequestStates R) (reqId : R) : Except Failure ℕ :=
  match states.reqIdToIndex reqId with
  | none => .error .keyError
  | some index => .ok index

/-- The body of the loop over the cached requests. -/
def setComputed (states : RequestStates R) (cached : R × ℕ) :
    Except Failure (RequestStates R) := do
  let reqIndex ← states.index cached.1
  return { states with
    numComputedTokensNp :=
      Function.update states.numComputedTokensNp reqIndex cached.2 }

/-- The counts that `update_requests` keeps on the host. -/
def updateRequests (states : RequestStates R) (output : SchedulerOutput R) :
    Except Failure (RequestStates R) := do
  let states ← output.scheduledCachedReqs.foldlM setComputed states
  return { states with
    numComputedPrefillTokens := fun index =>
      min (states.numComputedTokensNp index) (states.prefillLen index) }

def hasPrefill (states : RequestStates R) (idxMapping : List ℕ) : Bool :=
  idxMapping.any fun index =>
    decide (states.numComputedPrefillTokens index < states.prefillLen index)

/-- `draft_tokens[idx_mapping, :num_draft_tokens] = ...` -/
def putDraftTokens (config : Config) (states : RequestStates R)
    (batch : InputBatch) (drafts : DraftTokens) : RequestStates R :=
  { states with
    draftTokens := (List.range batch.numReqs).foldl
      (fun tensor (row : ℕ) =>
        storeLanes tensor (List.range drafts.numDraftTokens)
          (fun column =>
            batch.idxMapping row * config.numSpeculativeSteps + column)
          fun column => drafts.ids (row * drafts.numDraftTokens + column))
      states.draftTokens }

end RequestStates

namespace GPUModelRunner

def prepareInputs (config : Config) (device : Device)
    (runner : GPUModelRunner R) (output : SchedulerOutput R) :
    Except Failure (GPUModelRunner R × InputBatch) := do
  let states := runner.reqStates
  let buffers := runner.inputBuffers
  let idxMappingNp ← output.reqIds.mapM states.index
  require (0 < (output.numScheduledTokens.map Prod.snd).sum) .assertionError
  let idxMapping := ofList idxMappingNp
  let numReqs := output.numScheduledTokens.length
  let cuNumLogits := cuNumLogits config output
  let queryStartLoc := queryStartLoc output
  let prefill : PrefillInputs :=
    { inputIds := buffers.inputIds
      nextPrefillTokens := states.nextPrefillTokens }
  let prefill :=
    if states.hasPrefill idxMappingNp then
      preparePrefillInputs device numReqs config.numLookahead
        config.maxNumReqs idxMapping queryStartLoc states.allTokenIds
        config.maxModelLen states.prefillLen states.numComputedTokens prefill
    else prefill
  let positions := preparePosSeqLens device numReqs config.maxNumReqs
    idxMapping queryStartLoc states.numComputedTokens
    { pos := buffers.positions, seqLens := buffers.seqLens }
  require (config.numNewSampledTokensPerStep ∈ [0, 1]) .assertionError
  let combined := combineSampledAndDraftTokens device numReqs
    config.numSpeculativeSteps prefill.inputIds idxMapping
    states.lastSampledTokens queryStartLoc positions.seqLens
    states.prefillLen states.draftTokens config.numSpeculativeSteps
    cuNumLogits config.numNewSampledTokensPerStep
  let inputBuffers : InputBuffers :=
    { inputIds := combined.inputIds
      positions := positions.pos
      queryStartLoc
      seqLens := positions.seqLens }
  return ({ runner with
      reqStates := { states with
        nextPrefillTokens := prefill.nextPrefillTokens }
      inputBuffers },
    { numReqs
      idxMapping
      queryStartLoc
      seqLens := positions.seqLens
      inputIds := combined.inputIds
      positions := positions.pos
      logitsIndices := combined.logitsIndices
      cuNumLogits })

/-- The sampler's own counts are corrected for chunked prefills. -/
def sampleCounts (device : Device) (runner : GPUModelRunner R)
    (batch : InputBatch) (sampled : SamplerOutput) : SampleCounts :=
  getNumSampledAndRejected device batch.numReqs sampled.numSampled
    batch.seqLens batch.cuNumLogits batch.idxMapping
    runner.reqStates.prefillLen

def postprocessSampled (config : Config) (device : Device)
    (runner : GPUModelRunner R) (batch : InputBatch)
    (sampled : SamplerOutput) (counts : SampleCounts) : GPUModelRunner R :=
  let states := runner.reqStates
  let sequences := postUpdate device batch.numReqs batch.idxMapping
    config.vocabSize sampled.sampledTokenIds sampled.sampledTokenIdsStride
    counts.numSampled counts.numRejected (some batch.queryStartLoc)
    config.maxModelLen
    { numComputedTokens := states.numComputedTokens
      lastSampledTokens := states.lastSampledTokens
      outputBinCounts := runner.outputBinCounts
      allTokenIds := states.allTokenIds
      totalLen := states.totalLen }
  { runner with
    outputBinCounts := sequences.outputBinCounts
    reqStates := { states with
      numComputedTokens := sequences.numComputedTokens
      lastSampledTokens := sequences.lastSampledTokens
      allTokenIds := sequences.allTokenIds
      totalLen := sequences.totalLen } }

/-- `sample_tokens` after the sampler has run. -/
def sampleTokens (config : Config) (device : Device)
    (runner : GPUModelRunner R) (batch : InputBatch)
    (sampled : SamplerOutput) (drafts : DraftTokens) : GPUModelRunner R :=
  let counts := runner.sampleCounts device batch sampled
  let runner := runner.postprocessSampled config device batch sampled counts
  if 0 < drafts.numDraftTokens then
    { runner with
      reqStates := runner.reqStates.putDraftTokens config batch drafts }
  else runner

/-- `execute_model` up to the forward pass. -/
def executeModel (config : Config) (device : Device)
    (runner : GPUModelRunner R) (output : SchedulerOutput R) :
    Except Failure (GPUModelRunner R × InputBatch) := do
  let reqStates ← runner.reqStates.updateRequests output
  prepareInputs config device { runner with reqStates } output

end GPUModelRunner

end GlmFlash.Worker.ModelRunner
