import GlmFlash.Worker.ModelRunner
import GlmFlash.Library.Runs

/-!
# The reference of the token bookkeeping

For each request the reference keeps its accepted tokens, how many of them are
computed, and the drafts proposed for it.  The rows of the request states are
to hold these; a step is to feed the tokens that are not computed yet, then
the drafts, and to accept what the sampler returns.
-/

namespace GlmFlash.Worker.ModelRunner

open GlmFlash.Library

structure Reference where
  tokens : List ℤ
  numPrefill : ℕ
  computed : ℕ
  drafts : List ℤ

namespace Reference

/-- The tokens that a step of `queryLen` slots feeds. -/
def slots (reference : Reference) (queryLen numDrafts : ℕ) : List ℤ :=
  ((reference.tokens ++ reference.drafts.take numDrafts).drop
    reference.computed).take queryLen

/-- The prefill tokens after the chunk, and zeros after them. -/
def following (reference : Reference) (queryLen lookahead : ℕ) : ℤ :=
  (reference.tokens.take reference.numPrefill).getD
    (reference.computed + queryLen + lookahead) 0

def ReachesEnd (reference : Reference) (queryLen : ℕ) : Prop :=
  reference.tokens.length ≤ reference.computed + queryLen

instance (reference : Reference) (queryLen : ℕ) :
    Decidable (reference.ReachesEnd queryLen) :=
  inferInstanceAs (Decidable (_ ≤ _))

/-- What the scheduler gives to a request. -/
structure Scheduled (config : Config) (reference : Reference)
    (queryLen numDrafts : ℕ) : Prop where
  pos : 0 < queryLen
  without_drafts : numDrafts = 0 →
    reference.computed + queryLen ≤ reference.tokens.length
  with_drafts : 0 < numDrafts →
    reference.computed + queryLen = reference.tokens.length + numDrafts
  le_steps : numDrafts ≤ config.numSpeculativeSteps
  le_drafts : numDrafts ≤ reference.drafts.length

/-- What the sampler returns at the end of the tokens. -/
structure Sampled (config : Config) (reference : Reference) (numDrafts : ℕ)
    (sampled : List ℤ) : Prop where
  pos : 1 ≤ sampled.length
  le : sampled.length ≤ numDrafts + 1
  accepted : sampled.take (sampled.length - 1) =
    reference.drafts.take (sampled.length - 1)
  fits : reference.tokens.length + sampled.length ≤ config.maxModelLen

/-- The rejected drafts are to be computed again. -/
def advance (reference : Reference) (queryLen numDrafts : ℕ)
    (sampled proposed : List ℤ) : Reference :=
  { reference with
    tokens :=
      if reference.ReachesEnd queryLen then reference.tokens ++ sampled
      else reference.tokens
    computed :=
      if reference.ReachesEnd queryLen then
        reference.computed + queryLen - (numDrafts + 1 - sampled.length)
      else reference.computed + queryLen
    drafts := proposed ++ reference.drafts.drop proposed.length }

end Reference

abbrev References (R : Type) := R → Option Reference

def SamplerOutput.row (sampled : SamplerOutput) (row : ℕ) : List ℤ :=
  (List.range (sampled.numSampled row).toNat).map fun i : ℕ =>
    sampled.sampledTokenIds (row * sampled.sampledTokenIdsStride + i)

def DraftTokens.row (drafts : DraftTokens) (row : ℕ) : List ℤ :=
  (List.range drafts.numDraftTokens).map fun i : ℕ =>
    drafts.ids (row * drafts.numDraftTokens + i)

variable {R : Type} [DecidableEq R]

namespace References

def step (references : References R) (output : SchedulerOutput R)
    (sampled : SamplerOutput) (drafts : DraftTokens) : References R :=
  fun reqId => (references reqId).map fun reference =>
    let row := output.reqIds.idxOf reqId
    match output.numScheduledTokens[row]? with
    | none => reference
    | some (_, queryLen) => reference.advance queryLen
        (output.numDraftTokens reqId) (sampled.row row) (drafts.row row)

/-- A batch of distinct known requests.  The host counts a request as
prefilling as long as the reference does. -/
structure Legal (config : Config) (references : References R)
    (output : SchedulerOutput R) (sampled : SamplerOutput)
    (drafts : DraftTokens) : Prop where
  nonempty : output.numScheduledTokens ≠ []
  nodup : output.reqIds.Nodup
  scheduled : ∀ row reqId queryLen,
    output.numScheduledTokens[row]? = some (reqId, queryLen) →
      ∃ reference, references reqId = some reference ∧
        reference.Scheduled config queryLen (output.numDraftTokens reqId) ∧
        (reference.ReachesEnd queryLen →
          reference.Sampled config (output.numDraftTokens reqId)
            (sampled.row row))
  cached : ∀ reqId computed, (reqId, computed) ∈ output.scheduledCachedReqs →
    ∃ reference, references reqId = some reference ∧
      (reference.computed < reference.numPrefill →
        computed < reference.numPrefill)
  le_steps : drafts.numDraftTokens ≤ config.numSpeculativeSteps

end References

/-! ## The rows -/

/-- One row is the same in both. -/
structure SameRow (config : Config) (states next : RequestStates R)
    (index : ℕ) : Prop where
  prefillLen : next.prefillLen index = states.prefillLen index
  totalLen : next.totalLen index = states.totalLen index
  numComputedTokens :
    next.numComputedTokens index = states.numComputedTokens index
  numComputedTokensNp :
    next.numComputedTokensNp index = states.numComputedTokensNp index
  lastSampledTokens :
    next.lastSampledTokens index = states.lastSampledTokens index
  allTokenIds : ∀ pos : ℕ, pos < config.maxModelLen →
    next.allTokenIds (index * config.maxModelLen + pos) =
      states.allTokenIds (index * config.maxModelLen + pos)
  draftTokens : ∀ column : ℕ, column < config.numSpeculativeSteps →
    next.draftTokens (index * config.numSpeculativeSteps + column) =
      states.draftTokens (index * config.numSpeculativeSteps + column)
  nextPrefillTokens : ∀ lookahead : ℕ, lookahead < config.numLookahead →
    next.nextPrefillTokens (lookahead * config.maxNumReqs + index) =
      states.nextPrefillTokens (lookahead * config.maxNumReqs + index)

/-- The row of a request holds its reference. -/
structure Tracks (config : Config) (states : RequestStates R) (index : ℕ)
    (reference : Reference) : Prop where
  index_lt : index < config.maxNumReqs
  tokens_le : reference.tokens.length ≤ config.maxModelLen
  drafts_le : reference.drafts.length ≤ config.numSpeculativeSteps
  prefillLen : states.prefillLen index = reference.numPrefill
  totalLen : states.totalLen index = reference.tokens.length
  numComputedTokens : states.numComputedTokens index = reference.computed
  allTokenIds : ∀ pos : ℕ, pos < reference.tokens.length →
    states.allTokenIds (index * config.maxModelLen + pos) =
      reference.tokens.getD pos 0
  draftTokens : ∀ column : ℕ, column < reference.drafts.length →
    states.draftTokens (index * config.numSpeculativeSteps + column) =
      reference.drafts.getD column 0
  host : reference.computed < reference.numPrefill →
    states.numComputedTokensNp index < reference.numPrefill
  prefilling : reference.computed < reference.numPrefill →
    reference.tokens.length = reference.numPrefill
  decoding : reference.numPrefill ≤ reference.computed →
    reference.tokens.length = reference.computed + 1
  lastSampled : reference.numPrefill ≤ reference.computed →
    states.lastSampledTokens index = reference.tokens.getD reference.computed 0
  prefilled : reference.numPrefill ≤ reference.computed →
    ∀ lookahead : ℕ, lookahead < config.numLookahead →
      states.nextPrefillTokens (lookahead * config.maxNumReqs + index) = 0

/-- Every request with a reference has a row of its own that holds it. -/
structure Represents (config : Config) (states : RequestStates R)
    (references : References R) : Prop where
  index : ∀ reqId reference, references reqId = some reference →
    ∃ index, states.reqIdToIndex reqId = some index
  tracks : ∀ reqId index, states.reqIdToIndex reqId = some index →
    ∃ reference, references reqId = some reference ∧
      Tracks config states index reference
  inj : ∀ reqId other index, states.reqIdToIndex reqId = some index →
    states.reqIdToIndex other = some index → reqId = other

/-! ## Requests that come and go -/

/-- A request enters with its prefill tokens, the first of them computed. -/
structure Added (config : Config) (states : RequestStates R) (reqId : R)
    (tokens : List ℤ) (computed : ℕ) (next : RequestStates R) (index : ℕ) :
    Prop where
  index_lt : index < config.maxNumReqs
  free : ∀ other, states.reqIdToIndex other ≠ some index
  reqIdToIndex :
    next.reqIdToIndex = Function.update states.reqIdToIndex reqId (some index)
  prefillLen : next.prefillLen index = tokens.length
  totalLen : next.totalLen index = tokens.length
  numComputedTokens : next.numComputedTokens index = computed
  numComputedTokensNp : next.numComputedTokensNp index = computed
  allTokenIds : ∀ pos : ℕ, pos < tokens.length →
    next.allTokenIds (index * config.maxModelLen + pos) = tokens.getD pos 0
  others : ∀ other, other ≠ index → SameRow config states next other

/-- The methods of `RequestState` and what the runner relies on. -/
structure RequestStateMethods (config : Config) (R : Type) [DecidableEq R]
    where
  addRequest : RequestStates R → R → List ℤ → ℕ →
    Except Failure (RequestStates R)
  removeRequest : RequestStates R → R → RequestStates R
  addRequest_added : ∀ states reqId tokens computed next,
    addRequest states reqId tokens computed = .ok next →
      ∃ index, Added config states reqId tokens computed next index
  removeRequest_reqIdToIndex : ∀ states reqId,
    (removeRequest states reqId).reqIdToIndex =
      Function.update states.reqIdToIndex reqId none
  removeRequest_rows : ∀ states reqId index,
    SameRow config states (removeRequest states reqId) index

/-- What reaches the runner.  A step comes with what the device, the sampler
and the drafter make of it. -/
inductive Event (R : Type) where
  | add (reqId : R) (tokens : List ℤ) (computed : ℕ)
  | remove (reqId : R)
  | step (device : Device) (output : SchedulerOutput R)
      (sampled : SamplerOutput) (drafts : DraftTokens)

/-- The runner, with the references beside it. -/
def handle (config : Config) (methods : RequestStateMethods config R)
    (state : GPUModelRunner R × References R) :
    Event R → Except Failure (GPUModelRunner R × References R)
  | .add reqId tokens computed => do
      let reqStates ← methods.addRequest state.1.reqStates reqId tokens
        computed
      return ({ state.1 with reqStates },
        Function.update state.2 reqId (some
          { tokens, numPrefill := tokens.length, computed, drafts := [] }))
  | .remove reqId =>
      .ok ({ state.1 with
          reqStates := methods.removeRequest state.1.reqStates reqId },
        Function.update state.2 reqId none)
  | .step device output sampled drafts => do
      let (runner, batch) ← state.1.executeModel config device output
      return (runner.sampleTokens config device batch sampled drafts,
        state.2.step output sampled drafts)

/-- New requests have a token left to compute. -/
def LegalEvent (config : Config) (state : GPUModelRunner R × References R) :
    Event R → Prop
  | .add reqId tokens computed =>
      state.2 reqId = none ∧ computed < tokens.length ∧
        tokens.length ≤ config.maxModelLen
  | .remove _ => True
  | .step _ output sampled drafts =>
      state.2.Legal config output sampled drafts

end GlmFlash.Worker.ModelRunner
