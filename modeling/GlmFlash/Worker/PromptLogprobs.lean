import GlmFlash.Library.CeilDiv
import GlmFlash.Library.Dict
import GlmFlash.Library.Outcome
import Mathlib.Algebra.Order.Group.Int

/-!
# Prompt logprobs

A step scores the prompt tokens of its requests: the hidden state of a position
scores the token after it.  The rows of a request gather in a buffer until the
step that computes its last prompt token.  For a capture the logits of the same
rows go to files.
-/

namespace GlmFlash.Worker.PromptLogprobs

open GlmFlash.Library

inductive Failure where
  | assertionError
  | indexError
  | keyError
  | runtimeError
  | valueError
  deriving DecidableEq, Repr

inductive LogprobsMode where
  | rawLogits
  | rawLogprobs
  | processedLogits
  | processedLogprobs
  deriving DecidableEq, Repr

variable {H F : Type}

/-! ## Scores -/

/-- The model head, and what is used of the tensor library for one row of logits. -/
structure Scoring (H F : Type) where
  /-- `logits_fn` -/
  logitsFn : List H → List (List F)
  /-- the indices of `torch.topk` -/
  topk : List F → ℕ → List ℕ
  /-- one entry of the log softmax of a row -/
  logSoftmax : List F → ℕ → F
  ge : F → F → Bool

/-- One row of `LogprobsTensors`. -/
structure ScoreRow (F : Type) where
  tokenIds : List ℤ
  logprobs : List F
  rank : ℕ

/-- The first columns of a row. -/
def ScoreRow.cut (row : ScoreRow F) (width : ℕ) : ScoreRow F where
  tokenIds := row.tokenIds.take width
  logprobs := row.logprobs.take width
  rank := row.rank

namespace Scoring

variable [Inhabited F] (scoring : Scoring H F)

/-- A token id as an index of a row: the kernels keep it within the vocabulary. -/
def clamp (logits : List F) (tokenId : ℤ) : ℕ :=
  (min (max tokenId 0) (logits.length - 1)).toNat

/-- The row of `compute_topk_scores`: the selected token, then the best ones. -/
def scoreRow (logitsMode : Bool) (logits : List F) (numLogprobs : ℕ) (tokenId : ℤ) :
    ScoreRow F :=
  let tokenIds := tokenId ::
    if 0 < numLogprobs then (scoring.topk logits numLogprobs).map (↑) else []
  { tokenIds := tokenIds
    logprobs := tokenIds.map fun id =>
      if logitsMode then logits.getD (clamp logits id) default
      else scoring.logSoftmax logits (clamp logits id)
    rank := logits.countP fun value =>
      scoring.ge value (logits.getD (clamp logits tokenId) default) }

/-- `compute_topk_scores`, with no custom token ids; `torch.topk` refuses more
entries than a row has. -/
def computeTopkScores (logitsMode : Bool) (logits : List (List F)) (numLogprobs : ℕ)
    (sampledTokenIds : List ℤ) : Except Failure (List (ScoreRow F)) := do
  require (∀ row ∈ logits, numLogprobs ≤ row.length) .runtimeError
  return List.zipWith (fun row tokenId =>
    scoring.scoreRow logitsMode row numLogprobs tokenId) logits sampledTokenIds

end Scoring

/-! ## Captured logits -/

/-- The captured files: the directory of a request, the rows that the name of the
file spells, and their logits. -/
abbrev Files (F : Type) := Dict (String × ℕ × ℕ) (List (List F))

structure Environment where
  /-- `VLLM_KLD_CAPTURE_DIR` is set -/
  captureDir : Bool
  isGlobalFirstRank : Bool
  /-- `str.isalnum` of a character -/
  isalnum : Char → Bool

namespace Environment

variable (environment : Environment)

def syntheticPrefixes : List String := ["_warmup_", "_dummy_req_"]

def isSynthetic (reqId : String) : Bool :=
  syntheticPrefixes.any fun start => start.toList.isPrefixOf reqId.toList

def shouldCaptureKldBatch (reqIds : List String) : Bool :=
  environment.captureDir && !reqIds.all isSynthetic

def safeReqId (reqId : String) : String :=
  String.ofList (reqId.toList.map fun char =>
    if environment.isalnum char ∨ char ∈ ['-', '_', '.'] then char else '_')

/-- The path of a request below the capture directory: a single dot is dropped. -/
def requestDir (reqId : String) : String :=
  let safeReqId := environment.safeReqId reqId
  if safeReqId = "." then "" else safeReqId

/-- `_maybe_capture_kld_prompt_logits` -/
def maybeCaptureKldPromptLogits (logits : List (List F)) (reqId : String)
    (startIdx vocabSize : ℕ) (files : Files F) : Except Failure (Files F) :=
  if ¬environment.captureDir ∨ ¬environment.isGlobalFirstRank then .ok files
  else
    let outputPath := (environment.requestDir reqId, startIdx, startIdx + logits.length)
    if outputPath ∈ Dict.keys files then .error .runtimeError
    else .ok (files.set outputPath (logits.map (List.take vocabSize)))

end Environment

/-- What is known of the captured request of a batch. -/
structure CapturePlan where
  reqId : String
  captureStart : ℕ
  captureRows : ℕ
  vocabSize : Option ℕ

/-- `logits.shape[-1]` -/
def lastDim (logits : List (List F)) : ℕ := (logits.headD []).length

/-- `vocab_size or default`: zero counts as no size. -/
def sizeOr (vocabSize : Option ℕ) (default : ℕ) : ℕ :=
  match vocabSize with
  | some (size + 1) => size + 1
  | _ => default

/-- `self.vocab_size or logits.shape[-1]` -/
def CapturePlan.vocab (plan : CapturePlan) (logits : List (List F)) : ℕ :=
  sizeOr plan.vocabSize (lastDim logits)

def logitsCapture (environment : Environment) (plan : CapturePlan)
    (logits : List (List F)) (relativeStart : ℕ) (files : Files F) :
    Except Failure (Files F) :=
  if plan.captureRows ≤ relativeStart then .ok files
  else
    let rows := min logits.length (plan.captureRows - relativeStart)
    environment.maybeCaptureKldPromptLogits (logits.take rows) plan.reqId
      (plan.captureStart + relativeStart) (plan.vocab logits) files

/-- `if logits_capture is not None: logits_capture(prompt_logits, start_idx)` -/
def captureLogits (environment : Environment) (plan : Option CapturePlan)
    (logits : List (List F)) (startIdx : ℕ) (files : Files F) : Except Failure (Files F) :=
  match plan with
  | none => .ok files
  | some plan => logitsCapture environment plan logits startIdx files

/-! ## Chunks of logits -/

section Chunks

variable [Inhabited F]

/-- The loop of `compute_prompt_logprobs_with_chunking` from one of its starts. -/
def scoreChunks (scoring : Scoring H F) (logitsMode : Bool) (environment : Environment)
    (plan : Option CapturePlan) (numPromptLogprobs : ℤ) (chunkSize : ℕ)
    (promptTokenIds : List ℤ) (hiddenStates : List H) :
    ℕ → ℕ → Files F → Except Failure (List (ScoreRow F) × Files F)
  | 0, _, files => .ok ([], files)
  | chunks + 1, startIdx, files => do
      let promptLogits := scoring.logitsFn ((hiddenStates.drop startIdx).take chunkSize)
      let files ← captureLogits environment plan promptLogits startIdx files
      let requestedNum :=
        if numPromptLogprobs = -1 then lastDim promptLogits
        else numPromptLogprobs.toNat
      let rows ← scoring.computeTopkScores logitsMode promptLogits requestedNum
        ((promptTokenIds.drop startIdx).take chunkSize)
      let (later, files) ← scoreChunks scoring logitsMode environment plan
        numPromptLogprobs chunkSize promptTokenIds hiddenStates chunks
        (startIdx + chunkSize) files
      return (rows ++ later, files)

def LogprobsMode.isLogits : LogprobsMode → Bool
  | .rawLogits => true
  | .processedLogits => true
  | _ => false

def computePromptLogprobsWithChunking (scoring : Scoring H F) (mode : LogprobsMode)
    (environment : Environment) (plan : Option CapturePlan) (numPromptLogprobs : ℤ)
    (chunkSize : ℕ) (promptTokenIds : List ℤ) (hiddenStates : List H)
    (files : Files F) : Except Failure (List (ScoreRow F) × Files F) := do
  require (0 < chunkSize) .valueError
  require (promptTokenIds ≠ []) .indexError
  scoreChunks scoring mode.isLogits environment plan numPromptLogprobs chunkSize
    promptTokenIds hiddenStates (cdiv promptTokenIds.length chunkSize) 0 files

end Chunks

/-! ## Batches -/

/-- What is read of one request of an `InputBatch`.  The tokens of the requests lie
one after the other. -/
structure BatchRequest where
  reqId : String
  reqIdx : ℕ
  numComputedPrefillTokens : ℕ
  prefillLen : ℕ
  numScheduledTokens : ℕ

/-- The tables by request index. -/
structure RequestStates where
  allTokenIds : ℕ → List ℤ
  numComputedTokens : ℕ → ℕ
  promptLen : ℕ → ℕ

def BatchRequest.isPromptChunked (request : BatchRequest) (states : RequestStates) :
    Bool :=
  decide (request.numComputedPrefillTokens + request.numScheduledTokens <
    states.promptLen request.reqIdx)

/-- `get_prompt_logprobs_token_ids`: each program writes the tokens of its request,
and zero beyond the row of the table. -/
def getPromptLogprobsTokenIds (states : RequestStates) (batch : List BatchRequest) :
    List ℤ :=
  batch.flatMap fun request =>
    (List.range request.numScheduledTokens).map fun block =>
      (states.allTokenIds request.reqIdx).getD
        (states.numComputedTokens request.reqIdx + 1 + block) 0

/-! ## Buffers -/

/-- `LogprobsTensors` on the host; a row is `none` until it is copied. -/
structure Tensors (F : Type) where
  width : ℕ
  rows : List (Option (ScoreRow F))

namespace Tensors

def emptyCpu (numPositions width : ℕ) : Tensors F where
  width := width
  rows := List.replicate numPositions none

/-- The three copies into the rows from `dstStart` on; shapes that differ are
refused. -/
def copyRows (tensors : Tensors F) (dstStart : ℕ) (source : List (ScoreRow F)) :
    Except Failure (Tensors F) := do
  require (dstStart + source.length ≤ tensors.rows.length ∧
    ∀ row ∈ source, row.tokenIds.length = tensors.width ∧
      row.logprobs.length = tensors.width) .runtimeError
  return { tensors with
    rows := tensors.rows.take dstStart ++ source.map some ++
      tensors.rows.drop (dstStart + source.length) }

end Tensors

/-! ## The worker -/

/-- `PromptLogprobsWorker` -/
structure PromptLogprobsWorker (F : Type) where
  logprobsMode : LogprobsMode
  vocabSize : Option ℕ
  chunkSize : ℕ
  chunkSize_pos : 0 < chunkSize
  usesPromptLogprobs : ℕ → Bool
  numPromptLogprobs : ℕ → ℤ
  inProgressPromptLogprobs : Dict String (Option (Tensors F))

namespace PromptLogprobsWorker

variable (worker : PromptLogprobsWorker F)

def addRequest (reqId : String) (reqIdx : ℕ) (promptLogprobs : Option ℤ) :
    PromptLogprobsWorker F :=
  { worker with
    usesPromptLogprobs :=
      Function.update worker.usesPromptLogprobs reqIdx promptLogprobs.isSome
    numPromptLogprobs :=
      Function.update worker.numPromptLogprobs reqIdx (promptLogprobs.getD 0)
    inProgressPromptLogprobs :=
      if promptLogprobs.isSome then worker.inProgressPromptLogprobs.set reqId none
      else worker.inProgressPromptLogprobs }

def removeRequest (reqId : String) : PromptLogprobsWorker F :=
  { worker with
    inProgressPromptLogprobs :=
      worker.inProgressPromptLogprobs.filter fun item => item.1 ≠ reqId }

/-- The request is in its prompt, and was not resumed after it. -/
def needsPromptLogprobs (states : RequestStates) (request : BatchRequest) : Bool :=
  worker.usesPromptLogprobs request.reqIdx &&
    (decide (request.numComputedPrefillTokens < states.promptLen request.reqIdx) &&
      !decide (states.promptLen request.reqIdx < request.prefillLen))

def maxNumPromptLogprobs (requested : List ℤ) : ℤ :=
  if -1 ∈ requested then -1 else requested.foldl max 0

/-- The buffer of a request after the copies of a step; the rows of the request
start at `startIdx`.  The row of the last prompt token is dropped. -/
def fillBuffer (states : RequestStates) (rows : List (ScoreRow F))
    (request : BatchRequest) (startIdx : ℕ) (buffer : Option (Tensors F)) :
    Except Failure (Option (Tensors F)) := do
  let stopIdx := startIdx + request.numScheduledTokens
  require (startIdx < stopIdx) .assertionError
  let endIdx := if request.isPromptChunked states then stopIdx else stopIdx - 1
  let width :=
    if worker.numPromptLogprobs request.reqIdx = -1 then
      ((rows.head?).map fun row => row.logprobs.length).getD 0
    else (worker.numPromptLogprobs request.reqIdx).toNat + 1
  if startIdx < endIdx then do
    let tensors := buffer.getD (.emptyCpu (states.promptLen request.reqIdx - 1) width)
    let source := (rows.drop startIdx).take (endIdx - startIdx)
    let tensors ← tensors.copyRows request.numComputedPrefillTokens
      (source.map fun row => row.cut width)
    return some tensors
  else return buffer

/-- The loop over the requests of a batch, from one of them on. -/
def assemble (states : RequestStates) (rows : List (ScoreRow F)) :
    List BatchRequest → ℕ → Dict String (Option (Tensors F)) → Dict String (Tensors F) →
      Except Failure (Dict String (Option (Tensors F)) × Dict String (Tensors F))
  | [], _, inProgress, results => .ok (inProgress, results)
  | request :: batch, startIdx, inProgress, results =>
      let stopIdx := startIdx + request.numScheduledTokens
      if worker.needsPromptLogprobs states request then
        match inProgress.get? request.reqId with
        | none => .error (if startIdx < stopIdx then .keyError else .assertionError)
        | some buffer => do
            let buffer ← worker.fillBuffer states rows request startIdx buffer
            if request.isPromptChunked states then
              assemble states rows batch stopIdx (inProgress.set request.reqId buffer)
                results
            else
              match buffer with
              | none =>
                  assemble states rows batch stopIdx
                    (inProgress.set request.reqId none) results
              | some tensors =>
                  assemble states rows batch stopIdx
                    (inProgress.set request.reqId none)
                    (results.set request.reqId tensors)
      else assemble states rows batch stopIdx inProgress results

/-- The plan of a capture, refused for batches of more than one request. -/
def capturePlan (environment : Environment) (states : RequestStates)
    (batch : List BatchRequest) : Except Failure (Option CapturePlan) :=
  if environment.shouldCaptureKldBatch (batch.map BatchRequest.reqId) then
    match batch with
    | [request] => do
        require (worker.needsPromptLogprobs states request) .runtimeError
        return some {
          reqId := request.reqId
          captureStart := request.numComputedPrefillTokens
          captureRows :=
            if request.isPromptChunked states then request.numScheduledTokens
            else request.numScheduledTokens - 1
          vocabSize := worker.vocabSize }
    | _ => .error .runtimeError
  else .ok none

variable [Inhabited F]

def computePromptLogprobs (scoring : Scoring H F) (environment : Environment)
    (batch : List BatchRequest) (hiddenStates : List H) (states : RequestStates)
    (files : Files F) :
    Except Failure (PromptLogprobsWorker F × Files F × Dict String (Tensors F)) :=
  let needed := batch.filter (worker.needsPromptLogprobs states)
  if needed = [] then .ok (worker, files, [])
  else do
    let maxNum := maxNumPromptLogprobs (needed.map fun request =>
      worker.numPromptLogprobs request.reqIdx)
    let plan ← worker.capturePlan environment states batch
    let promptLogprobsTokenIds := getPromptLogprobsTokenIds states batch
    let (rows, files) ← computePromptLogprobsWithChunking scoring worker.logprobsMode
      environment plan maxNum worker.chunkSize promptLogprobsTokenIds
      (hiddenStates.take promptLogprobsTokenIds.length) files
    let (inProgress, results) ← worker.assemble states rows batch 0
      worker.inProgressPromptLogprobs []
    return ({ worker with inProgressPromptLogprobs := inProgress }, files, results)

end PromptLogprobsWorker

end GlmFlash.Worker.PromptLogprobs
