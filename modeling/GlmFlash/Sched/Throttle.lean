import Mathlib.Logic.Relation
import Mathlib.Data.List.Basic
import Mathlib.Algebra.GroupWithZero.Nat

/-!
# The prefill throttle of `schedule`

`schedule` first walks over the running requests and then over the waiting
ones.  When it is told to throttle and a decode is running, both walks leave
prefill work for a later call.  Which tokens are left after the caps, whether
blocks can be allocated and whom a failed allocation preempts are choices of
the surroundings.
-/

namespace GlmFlash.Sched

/-- The fields of a request that the two walks look at. -/
structure QueuedRequest (R : Type) where
  requestId : R
  isPrefillChunk : Bool
  numTokens : ℕ
  numTokensWithSpec : ℕ
  numOutputPlaceholders : ℕ
  numComputedTokens : ℕ
  deriving DecidableEq

/-- The limits of one call. -/
structure ScheduleLimits where
  draftSlots : ℕ
  longPrefillTokenThreshold : ℕ
  maxModelLen : ℕ
  numSampledTokensPerStep : ℕ

/-- One entry of `num_scheduled_tokens`, with the computed tokens it starts
from. -/
structure Assignment (R : Type) where
  request : QueuedRequest R
  numComputedTokens : ℕ
  numNewTokens : ℕ
  deriving DecidableEq

structure ScheduleState (R : Type) where
  running : List (QueuedRequest R)
  reqIndex : ℕ
  preempted : List (QueuedRequest R)
  /-- both waiting queues, in the order in which they are tried -/
  waiting : List (QueuedRequest R)
  tokenBudget : ℕ
  inputBudget : ℕ
  /-- assigned by the walk over the running requests -/
  scheduledRunning : List (Assignment R)
  /-- assigned by the walk over the waiting requests -/
  admitted : List (Assignment R)
  deriving DecidableEq

namespace ScheduleState

variable {R : Type} [DecidableEq R]

/-- Both walks go on while there is budget. -/
def HasBudget (state : ScheduleState R) (limits : ScheduleLimits) : Prop :=
  0 < state.tokenBudget ∧ limits.draftSlots < state.inputBudget

/-- The tokens of a running request before the Mamba split, the encoder caps
and the reserved lookahead. -/
def runningTokens (state : ScheduleState R) (limits : ScheduleLimits)
    (request : QueuedRequest R) : ℕ :=
  let wanted := request.numTokensWithSpec + request.numOutputPlaceholders -
    request.numComputedTokens
  let capped :=
    if 0 < limits.longPrefillTokenThreshold ∧
        limits.longPrefillTokenThreshold < wanted then
      limits.longPrefillTokenThreshold
    else wanted
  min (min capped (min state.tokenBudget
      (state.inputBudget - limits.draftSlots)))
    (limits.maxModelLen - request.numComputedTokens -
      limits.numSampledTokensPerStep)

/-- What the walk over the running requests has given to a request so far. -/
def scheduledFor (state : ScheduleState R) (request : QueuedRequest R) :
    List (Assignment R) :=
  state.scheduledRunning.filter fun entry =>
    entry.request.requestId = request.requestId

/-- One turn of the walk over the running requests. -/
inductive RunningStep (limits : ScheduleLimits) (deferPrefills : Bool)
    (state : ScheduleState R) : ScheduleState R → Prop where
  /-- no further step is needed, it is not this request's turn, its prefill is
  deferred, or no token is left after the caps -/
  | passOver (hbudget : state.HasBudget limits)
      (hindex : state.reqIndex < state.running.length) :
      RunningStep limits deferPrefills state
        { state with reqIndex := state.reqIndex + 1 }
  /-- an allocation for the request fails and preempts a running request -/
  | preempt {request victim : QueuedRequest R} (victimIndex : ℕ)
      (hbudget : state.HasBudget limits)
      (hrequest : state.running[state.reqIndex]? = some request)
      (hnow : ¬(deferPrefills = true ∧ request.isPrefillChunk = true))
      (hvictim : state.running[victimIndex]? = some victim) :
      RunningStep limits deferPrefills state
        { state with
          running := state.running.eraseIdx victimIndex
          reqIndex :=
            if victimIndex < state.reqIndex then state.reqIndex - 1
            else state.reqIndex
          preempted := state.preempted ++ [victim]
          tokenBudget := state.tokenBudget +
            ((state.scheduledFor victim).map (·.numNewTokens)).sum
          inputBudget := state.inputBudget +
            ((state.scheduledFor victim).map fun entry =>
              entry.numNewTokens + limits.draftSlots).sum
          scheduledRunning := state.scheduledRunning.filter fun entry =>
            entry.request.requestId ≠ victim.requestId }
  | assign {request : QueuedRequest R} (numNewTokens : ℕ)
      (hbudget : state.HasBudget limits)
      (hrequest : state.running[state.reqIndex]? = some request)
      (hnow : ¬(deferPrefills = true ∧ request.isPrefillChunk = true))
      (hpos : 0 < numNewTokens)
      (hle : numNewTokens ≤ state.runningTokens limits request) :
      RunningStep limits deferPrefills state
        { state with
          reqIndex := state.reqIndex + 1
          tokenBudget := state.tokenBudget - numNewTokens
          inputBudget :=
            state.inputBudget - (numNewTokens + limits.draftSlots)
          scheduledRunning := state.scheduledRunning ++
            [⟨request, request.numComputedTokens, numNewTokens⟩] }

/-- One turn of the walk over the waiting requests.  `numComputedTokens`
counts the hits of a request that had none. -/
inductive WaitingStep (limits : ScheduleLimits) (deferPrefills : Bool)
    (state : ScheduleState R) : ScheduleState R → Prop where
  /-- the request is still blocked, or starts an asynchronous load -/
  | passOver {request : QueuedRequest R} {others : List (QueuedRequest R)}
      (hbudget : state.HasBudget limits)
      (hwaiting : state.waiting = request :: others) :
      WaitingStep limits deferPrefills state { state with waiting := others }
  | place {request : QueuedRequest R} {others : List (QueuedRequest R)}
      (numComputedTokens numNewTokens : ℕ)
      (hbudget : state.HasBudget limits)
      (hwaiting : state.waiting = request :: others)
      (hnow : ¬(deferPrefills = true ∧
        numComputedTokens < request.numTokens - 1))
      (hpos : 0 < numNewTokens)
      (hle : numNewTokens ≤
        min state.tokenBudget (state.inputBudget - limits.draftSlots)) :
      WaitingStep limits deferPrefills state
        { state with
          running := state.running ++ [request]
          waiting := others
          tokenBudget := state.tokenBudget - numNewTokens
          inputBudget :=
            state.inputBudget - (numNewTokens + limits.draftSlots)
          admitted := state.admitted ++
            [⟨request, numComputedTokens, numNewTokens⟩] }

/-- Prefills are deferred only while a decode is running. -/
def deferPrefills (throttlePrefills : Bool)
    (running : List (QueuedRequest R)) : Bool :=
  throttlePrefills && running.any fun request => !request.isPrefillChunk

/-- One call of `schedule`: the walk over the running requests, and the walk
over the waiting ones unless a request was preempted.  Either may end early. -/
def Scheduled (limits : ScheduleLimits) (throttlePrefills : Bool)
    (state final : ScheduleState R) : Prop :=
  ∃ middle,
    Relation.ReflTransGen
      (RunningStep limits (deferPrefills throttlePrefills state.running))
      state middle ∧
    if middle.preempted = [] then
      Relation.ReflTransGen
        (WaitingStep limits (deferPrefills throttlePrefills state.running))
        middle final
    else final = middle

/-- A call starts with nothing assigned. -/
structure Fresh (state : ScheduleState R) : Prop where
  reqIndex_eq : state.reqIndex = 0
  scheduledRunning_eq : state.scheduledRunning = []
  admitted_eq : state.admitted = []
  preempted_eq : state.preempted = []

/-- No assignment is prefill work. -/
structure DecodesOnly (state : ScheduleState R) : Prop where
  running : ∀ entry ∈ state.scheduledRunning,
    entry.request.isPrefillChunk = false
  admitted : ∀ entry ∈ state.admitted,
    entry.request.numTokens ≤ entry.numComputedTokens + 1

theorem decodesOnly_runningStep {limits : ScheduleLimits}
    {state next : ScheduleState R}
    (hstep : RunningStep limits true state next)
    (hdecodes : state.DecodesOnly) : next.DecodesOnly := by
  cases hstep with
  | passOver hbudget hindex => exact ⟨hdecodes.running, hdecodes.admitted⟩
  | preempt victimIndex hbudget hrequest hnow hvictim =>
      refine ⟨fun entry hmem => ?_, hdecodes.admitted⟩
      exact hdecodes.running entry (List.mem_filter.mp hmem).1
  | assign numNewTokens hbudget hrequest hnow hpos hle =>
      refine ⟨fun entry hmem => ?_, hdecodes.admitted⟩
      cases List.mem_append.mp hmem with
      | inl hold => exact hdecodes.running entry hold
      | inr hnew =>
          rw [List.mem_singleton.mp hnew]
          simpa using hnow

omit [DecidableEq R] in
theorem decodesOnly_waitingStep {limits : ScheduleLimits}
    {state next : ScheduleState R}
    (hstep : WaitingStep limits true state next)
    (hdecodes : state.DecodesOnly) : next.DecodesOnly := by
  cases hstep with
  | passOver hbudget hwaiting =>
      exact ⟨hdecodes.running, hdecodes.admitted⟩
  | place numComputedTokens numNewTokens hbudget hwaiting hnow hpos hle =>
      refine ⟨hdecodes.running, fun entry hmem => ?_⟩
      cases List.mem_append.mp hmem with
      | inl hold => exact hdecodes.admitted entry hold
      | inr hnew =>
          rw [List.mem_singleton.mp hnew]
          simp only [true_and, Nat.not_lt] at hnow
          dsimp only
          omega

theorem decodesOnly_runningWalk {limits : ScheduleLimits}
    {state final : ScheduleState R}
    (hwalk : Relation.ReflTransGen (RunningStep limits true) state final)
    (hdecodes : state.DecodesOnly) : final.DecodesOnly := by
  induction hwalk with
  | refl => exact hdecodes
  | tail _ hstep ih => exact decodesOnly_runningStep hstep ih

omit [DecidableEq R] in
theorem decodesOnly_waitingWalk {limits : ScheduleLimits}
    {state final : ScheduleState R}
    (hwalk : Relation.ReflTransGen (WaitingStep limits true) state final)
    (hdecodes : state.DecodesOnly) : final.DecodesOnly := by
  induction hwalk with
  | refl => exact hdecodes
  | tail _ hstep ih => exact decodesOnly_waitingStep hstep ih

omit [DecidableEq R] in
theorem Fresh.decodesOnly {state : ScheduleState R}
    (hfresh : state.Fresh) : state.DecodesOnly := by
  constructor
  · rw [hfresh.scheduledRunning_eq]
    intro entry hmem
    cases hmem
  · rw [hfresh.admitted_eq]
    intro entry hmem
    cases hmem

omit [DecidableEq R] in
theorem deferPrefills_eq_true {running : List (QueuedRequest R)}
    (hdecode : ∃ request ∈ running, request.isPrefillChunk = false) :
    deferPrefills true running = true := by
  simpa [deferPrefills] using hdecode

/-- A throttled call with a decode running assigns no prefill work. -/
theorem decodesOnly_scheduled {limits : ScheduleLimits}
    {state final : ScheduleState R} (hfresh : state.Fresh)
    (hdecode : ∃ request ∈ state.running, request.isPrefillChunk = false)
    (hscheduled : Scheduled limits true state final) :
    final.DecodesOnly := by
  cases hscheduled with
  | intro middle hwalks =>
      rw [deferPrefills_eq_true hdecode] at hwalks
      have hmiddle : middle.DecodesOnly :=
        decodesOnly_runningWalk hwalks.1 hfresh.decodesOnly
      have hwaiting := hwalks.2
      split at hwaiting
      · exact decodesOnly_waitingWalk hwaiting hmiddle
      · rw [hwaiting]
        exact hmiddle

end ScheduleState

end GlmFlash.Sched
