import GlmFlash.Library.Launch
import Mathlib.Data.Nat.Size

/-!
# Kernels over the token tensors

The kernels of `input_batch.py` that build the inputs of a step and book its
outcome.  A tensor is the function from offsets to elements, so that a pointer
plus an offset is an offset, and a row of a tensor with two axes starts at a
multiple of its stride.
-/

namespace GlmFlash.Worker

open GlmFlash.Library

abbrev Tensor := ℤ → ℤ

/-- `triton.next_power_of_2` -/
def nextPowerOf2 (count : ℕ) : ℕ :=
  if count = 0 then 0 else 2 ^ (count - 1).size

inductive Kernel where
  | preparePrefillInputs
  | preparePosSeqLens
  | combineSampledAndDraftTokens
  | getNumSampledAndRejected
  | postUpdate
  deriving DecidableEq, Repr

/-- What the device leaves open: the order in which the programs of a launch
run, and what a fresh tensor holds. -/
structure Device where
  order : Kernel → ℕ → List ℕ
  empty : Kernel → Tensor
  order_perm : ∀ kernel count, (order kernel count).Perm (List.range count)

namespace Device

variable (device : Device) (kernel : Kernel) {count index : ℕ}

def launch {S : Type*} (count : ℕ) (program : ℕ → S → S) (state : S) : S :=
  Library.launch (device.order kernel count) program state

theorem nodup_order : (device.order kernel count).Nodup :=
  (device.order_perm kernel count).nodup_iff.mpr List.nodup_range

theorem mem_order : index ∈ device.order kernel count ↔ index < count := by
  rw [(device.order_perm kernel count).mem_iff, List.mem_range]

variable {S : Type*} {program : ℕ → S → S} {fresh done : ℕ → S → Prop}
  {kept : S → Prop} {state : S}

theorem launch_keeps
    (hfresh : ∀ index < count, ∀ other < count, other ≠ index → ∀ state,
      fresh index state → fresh other state →
        fresh other (program index state))
    (hkept : ∀ index < count, ∀ state, fresh index state → kept state →
      kept (program index state))
    (hstart : ∀ index < count, fresh index state) (hbefore : kept state) :
    kept (device.launch kernel count program state) := by
  have hmem : ∀ {index}, index ∈ device.order kernel count → index < count :=
    (device.mem_order kernel).mp
  exact Library.launch_keeps (device.nodup_order kernel)
    (fun index hindex other hother =>
      hfresh index (hmem hindex) other (hmem hother))
    (fun index hindex => hkept index (hmem hindex))
    (fun index hindex => hstart index (hmem hindex)) hbefore

theorem launch_establishes
    (hfresh : ∀ index < count, ∀ other < count, other ≠ index → ∀ state,
      fresh index state → fresh other state →
        fresh other (program index state))
    (hdone : ∀ index < count, ∀ other < count, other ≠ index → ∀ state,
      fresh index state → done other state → done other (program index state))
    (hown : ∀ index < count, ∀ state, fresh index state →
      done index (program index state))
    (hstart : ∀ index < count, fresh index state) (hindex : index < count) :
    done index (device.launch kernel count program state) := by
  have hmem : ∀ {index}, index ∈ device.order kernel count → index < count :=
    (device.mem_order kernel).mp
  exact Library.launch_establishes (device.nodup_order kernel)
    (fun index hindex other hother =>
      hfresh index (hmem hindex) other (hmem hother))
    (fun index hindex other hother =>
      hdone index (hmem hindex) other (hmem hother))
    (fun index hindex => hown index (hmem hindex))
    (fun index hindex => hstart index (hmem hindex))
    ((device.mem_order kernel).mpr hindex)

/-- Programs that read nothing the launch writes. -/
theorem launch_keeps_of_independent
    (hkept : ∀ index < count, ∀ state, kept state →
      kept (program index state))
    (hbefore : kept state) :
    kept (device.launch kernel count program state) :=
  @launch_keeps device kernel count S program (fun _ _ => True) kept state
    (fun _ _ _ _ _ _ _ _ => trivial)
    (fun index hindex state _ => hkept index hindex state)
    (fun _ _ => trivial) hbefore

theorem launch_establishes_of_independent
    (hdone : ∀ index < count, ∀ other < count, other ≠ index → ∀ state,
      done other state → done other (program index state))
    (hown : ∀ index < count, ∀ state, done index (program index state))
    (hindex : index < count) :
    done index (device.launch kernel count program state) :=
  @launch_establishes device kernel count index S program (fun _ _ => True)
    done state (fun _ _ _ _ _ _ _ _ => trivial)
    (fun index hindex other hother hne state _ =>
      hdone index hindex other hother hne state)
    (fun index hindex state _ => hown index hindex state)
    (fun _ _ => trivial) hindex

end Device

/-! ## Prefill tokens -/

structure PrefillInputs where
  inputIds : Tensor
  nextPrefillTokens : Tensor

def preparePrefillInputsKernel (nextPrefillTokensStride : ℤ) (numLookahead : ℕ)
    (idxMapping queryStartLoc allTokenIds : Tensor) (allTokenIdsStride : ℤ)
    (prefillLens numComputedTokens : Tensor) (blockSize lookaheadBlock : ℕ)
    (batchIdx : ℕ) (inputs : PrefillInputs) : PrefillInputs :=
  let reqStateIdx := idxMapping batchIdx
  let prefillLen := prefillLens reqStateIdx
  let numComputed := numComputedTokens reqStateIdx
  if prefillLen ≤ numComputed then inputs
  else
    let queryStart := queryStartLoc batchIdx
    let queryEnd := queryStartLoc (batchIdx + 1)
    let queryLen := queryEnd - queryStart
    let requestPtr := reqStateIdx * allTokenIdsStride
    { inputIds :=
        storeLanes inputs.inputIds (blockLanes queryLen.toNat blockSize)
          (fun block => queryStart + block)
          fun block => allTokenIds (requestPtr + numComputed + block)
      nextPrefillTokens :=
        storeLanes inputs.nextPrefillTokens
          (maskedLanes numLookahead lookaheadBlock)
          (fun lookahead => lookahead * nextPrefillTokensStride + reqStateIdx)
          fun lookahead =>
            let pos := numComputed + queryLen + lookahead
            if pos < prefillLen then allTokenIds (requestPtr + pos) else 0 }

/-- The `num_lookahead` rows of `next_prefill_tokens` have one column for each
request state. -/
def preparePrefillInputs (device : Device) (numReqs numLookahead : ℕ)
    (nextPrefillTokensStride : ℤ) (idxMapping queryStartLoc allTokenIds : Tensor)
    (allTokenIdsStride : ℤ) (prefillLen numComputedTokens : Tensor)
    (inputs : PrefillInputs) : PrefillInputs :=
  device.launch .preparePrefillInputs numReqs
    (preparePrefillInputsKernel nextPrefillTokensStride numLookahead idxMapping
      queryStartLoc allTokenIds allTokenIdsStride prefillLen numComputedTokens
      1024 (nextPowerOf2 numLookahead))
    inputs

/-! ## Positions and sequence lengths -/

structure Positions where
  pos : Tensor
  seqLens : Tensor

/-- The last program of the grid pads. -/
def preparePosSeqLensKernel (numReqs maxNumReqs : ℕ)
    (idxMapping queryStartLoc numComputedTokens : Tensor) (blockSize : ℕ)
    (reqId : ℕ) (positions : Positions) : Positions :=
  if reqId = numReqs then
    { positions with
      seqLens := storeLanes positions.seqLens
        (blockLanes (maxNumReqs - numReqs) blockSize)
        (fun block => numReqs + block) fun _ => 0 }
  else
    let reqStateIdx := idxMapping reqId
    let numComputedTokens := numComputedTokens reqStateIdx
    let start := queryStartLoc reqId
    let queryEnd := queryStartLoc (reqId + 1)
    let queryLen := queryEnd - start
    let seqLen := numComputedTokens + queryLen
    { seqLens := Function.update positions.seqLens reqId seqLen
      pos := storeLanes positions.pos (blockLanes queryLen.toNat blockSize)
        (fun block => start + block) fun block => numComputedTokens + block }

def preparePosSeqLens (device : Device) (numReqs maxNumReqs : ℕ)
    (idxMapping queryStartLoc numComputedTokens : Tensor)
    (positions : Positions) : Positions :=
  device.launch .preparePosSeqLens (numReqs + 1)
    (preparePosSeqLensKernel numReqs maxNumReqs idxMapping queryStartLoc
      numComputedTokens 1024)
    positions

/-! ## Sampled and draft tokens -/

structure CombinedInputs where
  inputIds : Tensor
  logitsIndices : Tensor

def combineSampledAndDraftTokensKernel
    (idxMapping lastSampledTokens queryStartLoc seqLens prefillLen
      draftTokens : Tensor)
    (draftTokensStride : ℤ) (cuNumLogits : Tensor)
    (blockSize numNewSampledTokens batchIdx : ℕ) (inputs : CombinedInputs) :
    CombinedInputs :=
  let reqStateIdx := idxMapping batchIdx
  let cuNumLogitsStart := cuNumLogits batchIdx
  let cuNumLogitsEnd := cuNumLogits (batchIdx + 1)
  let numLogits := cuNumLogitsEnd - cuNumLogitsStart
  let numDraftTokens := numLogits - numNewSampledTokens
  let queryEnd := queryStartLoc (batchIdx + 1)
  let logitsStart := queryEnd - numLogits
  let logitsIndices := storeLanes inputs.logitsIndices
    (maskedLanes numLogits blockSize)
    (fun block => cuNumLogitsStart + block) fun block => logitsStart + block
  let seqLen := seqLens batchIdx
  let prefillLen := prefillLen reqStateIdx
  if seqLen ≤ prefillLen then { inputs with logitsIndices }
  else
    -- Prompt-tail slots are kept.
    let firstLogitSeqPos := seqLen - numLogits
    let inputIds :=
      if 0 < numNewSampledTokens ∧ prefillLen ≤ firstLogitSeqPos then
        Function.update inputs.inputIds logitsStart
          (lastSampledTokens reqStateIdx)
      else inputs.inputIds
    let inputIds :=
      if 0 < numDraftTokens then
        storeLanes inputIds (maskedLanes numDraftTokens blockSize)
          (fun block => queryEnd - numDraftTokens + block)
          fun block => draftTokens (reqStateIdx * draftTokensStride + block)
      else inputIds
    { inputIds, logitsIndices }

/-- The new tensor of logits indices is the device's to fill. -/
def combineSampledAndDraftTokens (device : Device)
    (numReqs numSpeculativeSteps : ℕ) (inputIds : Tensor)
    (idxMapping lastSampledTokens queryStartLoc seqLens prefillLen
      draftTokens : Tensor)
    (draftTokensStride : ℤ) (cuNumLogits : Tensor)
    (numNewSampledTokens : ℕ) : CombinedInputs :=
  device.launch .combineSampledAndDraftTokens numReqs
    (combineSampledAndDraftTokensKernel idxMapping lastSampledTokens
      queryStartLoc seqLens prefillLen draftTokens draftTokensStride
      cuNumLogits (nextPowerOf2 (numSpeculativeSteps + numNewSampledTokens))
      numNewSampledTokens)
    { inputIds, logitsIndices := device.empty .combineSampledAndDraftTokens }

/-! ## Sampled and rejected tokens -/

structure SampleCounts where
  numSampled : Tensor
  numRejected : Tensor

def getNumSampledAndRejectedKernel
    (seqLens cuNumLogits idxMapping prefillLen : Tensor) (batchIdx : ℕ)
    (counts : SampleCounts) : SampleCounts :=
  let reqStateIdx := idxMapping batchIdx
  let seqLen := seqLens batchIdx
  let prefillLen := prefillLen reqStateIdx
  let isChunkedPrefilling := decide (seqLen < prefillLen)
  let numSampled :=
    if isChunkedPrefilling then 0 else counts.numSampled batchIdx
  let logitsStart := cuNumLogits batchIdx
  let logitsEnd := cuNumLogits (batchIdx + 1)
  let numLogits := logitsEnd - logitsStart
  let numRejected := if isChunkedPrefilling then 0 else numLogits - numSampled
  { numSampled := Function.update counts.numSampled batchIdx numSampled
    numRejected := Function.update counts.numRejected batchIdx numRejected }

def getNumSampledAndRejected (device : Device) (numReqs : ℕ)
    (numSampled seqLens cuNumLogits idxMapping prefillLen : Tensor) :
    SampleCounts :=
  device.launch .getNumSampledAndRejected numReqs
    (getNumSampledAndRejectedKernel seqLens cuNumLogits idxMapping prefillLen)
    { numSampled, numRejected := device.empty .getNumSampledAndRejected }

/-! ## The request states after a step -/

/-- The tensors that `post_update` writes. -/
structure SequenceState where
  numComputedTokens : Tensor
  lastSampledTokens : Tensor
  outputBinCounts : Option Tensor
  allTokenIds : Tensor
  totalLen : Tensor

/-- The loop body: append one sampled token and count it. -/
def appendSampledToken (reqStateIdx outputBinCountsStride allTokenIdsStride
    totalLen : ℤ) (sampledTokens : Tensor) (sampledRow : ℤ)
    (state : SequenceState) (i : ℕ) : SequenceState :=
  let tokenId := sampledTokens (sampledRow + i)
  { state with
    allTokenIds := Function.update state.allTokenIds
      (reqStateIdx * allTokenIdsStride + totalLen + i) tokenId
    outputBinCounts := state.outputBinCounts.map fun counts =>
      let tokenPtr := reqStateIdx * outputBinCountsStride + tokenId
      Function.update counts tokenPtr (counts tokenPtr + 1) }

def postUpdateKernel (idxMapping : Tensor) (outputBinCountsStride : ℤ)
    (sampledTokens : Tensor) (sampledTokensStride : ℤ)
    (numSampled numRejected : Tensor) (queryStartLoc : Option Tensor)
    (allTokenIdsStride : ℤ) (reqId : ℕ) (state : SequenceState) :
    SequenceState :=
  let reqStateIdx := idxMapping reqId
  if reqStateIdx < 0 then state
  else
    let totalLen := state.totalLen reqStateIdx
    let numSampled := numSampled reqId
    let sampledRow := reqId * sampledTokensStride
    let state :=
      if 0 < numSampled then
        { state with
          lastSampledTokens := Function.update state.lastSampledTokens
            reqStateIdx (sampledTokens (sampledRow + numSampled - 1))
          totalLen := Function.update state.totalLen reqStateIdx
            (totalLen + numSampled) }
      else state
    let state := (List.range numSampled.toNat).foldl
      (appendSampledToken reqStateIdx outputBinCountsStride allTokenIdsStride
        totalLen sampledTokens sampledRow) state
    let queryLen := match queryStartLoc with
      | none => 0
      | some queryStartLoc => queryStartLoc (reqId + 1) - queryStartLoc reqId
    let computedDelta := queryLen - numRejected reqId
    if computedDelta ≠ 0 then
      { state with
        numComputedTokens := Function.update state.numComputedTokens
          reqStateIdx (state.numComputedTokens reqStateIdx + computedDelta) }
    else state

def postUpdate (device : Device) (numReqs : ℕ) (idxMapping : Tensor)
    (outputBinCountsStride : ℤ) (sampledTokens : Tensor)
    (sampledTokensStride : ℤ) (numSampled numRejected : Tensor)
    (queryStartLoc : Option Tensor) (allTokenIdsStride : ℤ)
    (state : SequenceState) : SequenceState :=
  device.launch .postUpdate numReqs
    (postUpdateKernel idxMapping outputBinCountsStride sampledTokens
      sampledTokensStride numSampled numRejected queryStartLoc
      allTokenIdsStride)
    state

end GlmFlash.Worker
