import GlmFlash.Library.Dict
import GlmFlash.Library.Outcome
import GlmFlash.Library.PrefixChoice
import Mathlib.Algebra.Order.Ring.Rat
import Mathlib.Algebra.Order.Monoid.Unbundled.WithTop

/-!
# Draft budgets

`get_num_tokens` chooses how many draft tokens a batch verifies, from stale
confidences; `compact_batch` spreads them over the requests for the host, and
`reallocate_drafts` assigns them on the device from the current confidences.
Confidences and costs are rationals.
-/

namespace GlmFlash.Worker.AdaptiveVerification

open GlmFlash.Library

inductive Failure where
  | assertionError
  | keyError
  | indexError
  | valueError
  | zeroDivisionError
  deriving DecidableEq, Repr

/-! ## Arrays -/

def accumulate {A : Type} (operation : A → A → A) (start : A) : List A → List A
  | [] => []
  | value :: values =>
      operation start value :: accumulate operation (operation start value) values

def cumprod (values : List ℚ) : List ℚ := accumulate (· * ·) 1 values

def cumsum {A : Type} [AddMonoid A] (values : List A) : List A :=
  accumulate (· + ·) 0 values

/-- The first index of the largest value, `best` being the largest before. -/
def argmaxFrom (best : ℚ) (bestIndex index : ℕ) : List ℚ → ℕ
  | [] => bestIndex
  | value :: values =>
      if best < value then argmaxFrom value index (index + 1) values
      else argmaxFrom best bestIndex (index + 1) values

/-- `np.argmax`, of an array that is not empty -/
def argmax : List ℚ → ℕ
  | [] => 0
  | value :: values => argmaxFrom value 0 1 values

/-! ## Ranking on the device -/

/-- `survival.masked_fill(out_of_range, -inf)`, for one request -/
def maskedRow (survival : List ℚ) (capacity : ℕ) : List (WithBot ℚ) :=
  survival.zipIdx.map fun entry => if capacity ≤ entry.2 then ⊥ else entry.1

/-- `_assign_draft_token_budget`: the new capacities.  Which of equal values
`topk` takes is left open. -/
def assignDraftTokenBudget (topk : List (WithBot ℚ) → ℕ → List ℕ)
    (confidenceProbs : ℕ → List ℚ) (idxMapping capacities : List ℕ)
    (draftBudget numSteps : ℕ) : List ℕ :=
  let survival := idxMapping.map fun slot => cumprod (confidenceProbs slot)
  let masked := List.zipWith maskedRow survival capacities
  let flat := masked.flatten
  let winners := topk flat draftBudget
  let admitted := (List.range flat.length).map fun index => decide (index ∈ winners)
  (List.range masked.length).map fun req =>
    ((admitted.drop (req * numSteps)).take numSteps).count true

/-! ## The manager -/

/-- What is read of `RequestState`. -/
structure RequestState (R : Type) where
  reqIdToIndex : R → ℕ
  numComputedTokens : ℕ → ℕ
  prefillLen : ℕ → ℕ

/-- `_batch_budget` -/
structure BatchBudget (R : Type) where
  numDraftsPerReq : Dict R ℕ
  numNonDraftTokensPerReq : Dict R ℕ
  draftBudget : ℕ

/-- Rows of probabilities, one for each request slot. -/
structure Confidences (numSteps : ℕ) where
  row : ℕ → List ℚ
  length_row : ∀ slot, (row slot).length = numSteps
  mem_row : ∀ slot, ∀ value ∈ row slot, 0 ≤ value ∧ value ≤ 1

structure Manager (R : Type) where
  reqStates : RequestState R
  numSpeculativeSteps : ℕ
  numBonusTokens : ℕ
  maxTotalLogits : ℕ
  maxNumReqs : ℕ
  costTables : Option (List ℚ × List ℚ)
  /-- the host slot that budgets read -/
  staleConfidences : Confidences numSpeculativeSteps
  confidenceProbs : Confidences numSpeculativeSteps
  batchBudget : Option (BatchBudget R)

variable {R : Type} [DecidableEq R]

/-- `len(draft_tokens.get(req_id, ()))` -/
def numDrafts (draftTokens : Dict R (List ℤ)) (reqId : R) : ℕ :=
  ((draftTokens.get? reqId).getD []).length

/-- `survival_probability[valid]`, of one request -/
def validEntries (survival : List ℚ) (scheduledDrafts : ℕ) : List ℚ :=
  (survival.zipIdx.filter fun entry => entry.2 < scheduledDrafts).map Prod.fst

/-- The budget, spread evenly over the first requests. -/
def draftLensCpu (draftBudget numVerificationReqs numReqs : ℕ) : List ℕ :=
  (List.range numReqs).map fun req =>
    (if req < numVerificationReqs then draftBudget / numVerificationReqs else 0) +
      if req < draftBudget % numVerificationReqs then 1 else 0

namespace Manager

variable (manager : Manager R)

/-- A batch asks for at least as many tokens as it has drafts. -/
def getNumTokens (numTokensPerReq : Dict R ℕ) (draftTokens : Dict R (List ℤ)) :
    Except Failure (Manager R × ℕ) :=
  match manager.costTables with
  | none => .error .assertionError
  | some (draftCostMs, verifyCostMs) => do
      let reqIds := Dict.keys numTokensPerReq
      let numReqs := reqIds.length
      let scheduledTokens := numTokensPerReq.map Prod.snd
      let scheduledDrafts := reqIds.map (numDrafts draftTokens)
      let numNonDraftTokens := List.zipWith (· - ·) scheduledTokens scheduledDrafts
      let slots := reqIds.map manager.reqStates.reqIdToIndex
      let survivalProbability := slots.map fun slot =>
        cumprod (manager.staleConfidences.row slot)
      let scores := descending
        (List.zipWith validEntries survivalProbability scheduledDrafts).flatten
      let numNonDraftTokensTotal := numNonDraftTokens.sum
      let maxDraftBudget := min scheduledDrafts.sum
        (manager.maxTotalLogits - numReqs * manager.numBonusTokens)
      let scores := scores.take maxDraftBudget
      let numSamplingRequests := (List.zip slots numNonDraftTokens).countP fun request =>
        manager.reqStates.prefillLen request.1 ≤
          manager.reqStates.numComputedTokens request.1 + request.2
      let estimatedAcceptedTokens := (numSamplingRequests : ℚ) ::
        (cumsum scores).map (numSamplingRequests + ·)
      match draftCostMs[numReqs]? with
      | none => .error .indexError
      | some draftCost => do
          let costs := ((verifyCostMs.drop numNonDraftTokensTotal).take
            (maxDraftBudget + 1)).map (draftCost + ·)
          require (estimatedAcceptedTokens.length = costs.length) .valueError
          let draftBudget := argmax
            (List.zipWith (· / ·) estimatedAcceptedTokens costs)
          let batchBudget : BatchBudget R :=
            { numDraftsPerReq := List.zip reqIds scheduledDrafts
              numNonDraftTokensPerReq := List.zip reqIds numNonDraftTokens
              draftBudget := draftBudget }
          return ({ manager with batchBudget := some batchBudget },
            numNonDraftTokensTotal + draftBudget)

/-- The token counts of the host, and its `cu_num_logits_np`. -/
def compactBatch (numDraftTokensPerReq numScheduledTokens cuNumLogits : List ℕ) :
    Except Failure (List ℕ × List ℕ) :=
  match manager.batchBudget with
  | none => .error .assertionError
  | some batchBudget =>
      let draftBudget := batchBudget.draftBudget
      if draftBudget = numDraftTokensPerReq.sum then
        .ok (numScheduledTokens, cuNumLogits)
      else
        let numNonDraftTokens :=
          List.zipWith (· - ·) numScheduledTokens numDraftTokensPerReq
        if draftBudget = 0 then
          .ok (numNonDraftTokens, (List.range (numScheduledTokens.length + 1)).map
            (· * manager.numBonusTokens))
        else do
          let isVerificationRequest := numDraftTokensPerReq.map fun count =>
            decide (0 < count)
          let numVerificationReqs := isVerificationRequest.count true
          require ((isVerificationRequest.take numVerificationReqs).all id)
            .assertionError
          require (numVerificationReqs ≠ 0) .zeroDivisionError
          return (List.zipWith (· + ·) numNonDraftTokens
            (draftLensCpu draftBudget numVerificationReqs numNonDraftTokens.length),
            cuNumLogits)

/-- The arrays that `reallocate_drafts` fills on the device. -/
structure DeviceArrays where
  cuNumLogits : List ℕ
  queryStartLoc : List ℕ
  draftBudget : ℕ

/-- `counts[req_id] for req_id in req_ids` -/
def lookUp (counts : Dict R ℕ) (reqIds : List R) : Except Failure (List ℕ) :=
  reqIds.mapM fun reqId =>
    match counts.get? reqId with
    | some count => .ok count
    | none => .error .keyError

/-- The drafts that each request ends with in `_batch_draft_capacity`. -/
def batchDraftCapacity (topk : List (WithBot ℚ) → ℕ → List ℕ)
    (idxMapping scheduledDrafts : List ℕ) (draftBudget : ℕ) : List ℕ :=
  if draftBudget = 0 then List.replicate idxMapping.length 0
  else if draftBudget < scheduledDrafts.sum then
    assignDraftTokenBudget topk manager.confidenceProbs.row idxMapping scheduledDrafts
      draftBudget manager.numSpeculativeSteps
  else scheduledDrafts

def reallocateDrafts (topk : List (WithBot ℚ) → ℕ → List ℕ) (reqIds : List R)
    (idxMapping : List ℕ) : Except Failure (Manager R × DeviceArrays) :=
  match manager.batchBudget with
  | none => .error .assertionError
  | some batchBudget => do
      let draftBudget := batchBudget.draftBudget
      let numReqs := idxMapping.length
      let scheduledDrafts ← lookUp batchBudget.numDraftsPerReq reqIds
      let numNonDraftTokens ← lookUp batchBudget.numNonDraftTokensPerReq reqIds
      let numTokens := numNonDraftTokens.sum + draftBudget
      let capacities := manager.batchDraftCapacity topk idxMapping scheduledDrafts
        draftBudget
      return ({ manager with batchBudget := none },
        { cuNumLogits := 0 :: cumsum (capacities.map (· + manager.numBonusTokens))
          queryStartLoc :=
            0 :: cumsum (List.zipWith (· + ·) capacities numNonDraftTokens) ++
              List.replicate (manager.maxNumReqs - numReqs) numTokens
          draftBudget := draftBudget })

/-! ## The batch -/

/-- The part of `prepare_inputs` that trims the drafts of the batch: the token
counts of the host, and the arrays of the device. -/
def trimDrafts (topk : List (WithBot ℚ) → ℕ → List ℕ) (reqIds : List R)
    (numTokensPerReq : Dict R ℕ) (draftTokens : Dict R (List ℤ)) :
    Except Failure (List ℕ × DeviceArrays) := do
  let numScheduledTokens ← lookUp numTokensPerReq reqIds
  let idxMapping := reqIds.map manager.reqStates.reqIdToIndex
  let numDraftTokensPerReq := reqIds.map (numDrafts draftTokens)
  let numLogits := numDraftTokensPerReq.map (· + manager.numBonusTokens)
  let (numScheduledTokens, _) ← manager.compactBatch numDraftTokensPerReq
    numScheduledTokens (0 :: cumsum numLogits)
  let (_, arrays) ← manager.reallocateDrafts topk reqIds idxMapping
  return (numScheduledTokens, arrays)

end Manager

end GlmFlash.Worker.AdaptiveVerification
