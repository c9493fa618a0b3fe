import GlmFlash.Sched.Throttle
import Mathlib.Data.Nat.Periodic
import Mathlib.Data.Nat.Count

/-!
# The cadence of prefill steps

The engine loop counts its calls of `schedule` and throttles prefills on every
call whose number is not a multiple of `prefill_schedule_interval`.  The
counter is advanced by `step` only, and put back only by a call of `step` that
finds no requests.
-/

namespace GlmFlash.Sched

/-- The part of the engine core that decides which calls are throttled. -/
structure EngineCore where
  prefillScheduleInterval : ℕ
  batchQueueSize : ℕ
  isEcConsumer : Bool
  isPoolingModel : Bool
  stepCounter : ℕ
  /-- batches in flight; always 0 without a batch queue -/
  batchQueueLength : ℕ
  deriving DecidableEq

/-- What one call of the step function sees: the scheduler before and after
its call, and its answers. -/
structure CallInput (R : Type) where
  hasRequests : Bool
  totalNumScheduledTokens : ℕ
  pendingStructuredOutputTokens : Bool
  hasRequestsAfter : Bool
  before : ScheduleState R
  after : ScheduleState R

/-- `idled` is a moment at which the scheduler has no requests. -/
inductive LoopItem (R : Type) where
  | scheduled (throttlePrefills : Bool) (before after : ScheduleState R)
  | idled

inductive LoopEvent (R : Type) where
  | call (input : CallInput R)
  /-- the busy loop polls its input queue with no requests in the scheduler -/
  | wait

namespace EngineCore

variable {R : Type}

def shouldThrottlePrefills (core : EngineCore) : Bool :=
  decide (1 < core.prefillScheduleInterval) &&
    decide (core.stepCounter % core.prefillScheduleInterval ≠ 0)

def step (core : EngineCore) (input : CallInput R) :
    EngineCore × LoopItem R :=
  if input.hasRequests then
    ({ core with stepCounter := core.stepCounter + 1 },
      .scheduled core.shouldThrottlePrefills input.before input.after)
  else ({ core with stepCounter := 0 }, .idled)

def modelExecuted (core : EngineCore) (input : CallInput R) : Bool :=
  core.isEcConsumer && decide (0 < input.totalNumScheduledTokens)

/-- Sampling waits for the tokens of an earlier batch. -/
def samplingDeferred (core : EngineCore) (input : CallInput R) : Bool :=
  core.modelExecuted input && !core.isPoolingModel &&
    input.pendingStructuredOutputTokens

/-- `batch_queue.pop()`, which raises on an empty queue. -/
def popBatch (core : EngineCore) : Option EngineCore :=
  if core.batchQueueLength = 0 then none
  else some { core with batchQueueLength := core.batchQueueLength - 1 }

def appendBatch (core : EngineCore) : EngineCore :=
  { core with batchQueueLength := core.batchQueueLength + 1 }

/-- The step counter is read here and never written. -/
def stepWithBatchQueue (core : EngineCore) (input : CallInput R) :
    Option (EngineCore × LoopItem R) :=
  if core.batchQueueSize ≤ core.batchQueueLength then none
  else if input.hasRequests then
    let item := LoopItem.scheduled core.shouldThrottlePrefills
      input.before input.after
    if core.samplingDeferred input then
      core.popBatch.map fun popped => (popped.appendBatch, item)
    else
      let queued := core.appendBatch
      if queued.batchQueueLength < core.batchQueueSize ∧
          (core.modelExecuted input || input.hasRequestsAfter) then
        some (queued, item)
      else queued.popBatch.map fun popped => (popped, item)
  else if core.batchQueueLength = 0 then some (core, .idled)
  else core.popBatch.map fun popped => (popped, .idled)

/-- The batch queue exists when more than one batch may be in flight. -/
def stepFn (core : EngineCore) (input : CallInput R) :
    Option (EngineCore × LoopItem R) :=
  if core.batchQueueSize ≤ 1 then some (core.step input)
  else core.stepWithBatchQueue input

/-- The calls of `schedule` of a run and the idle moments between them.  A
raised error ends the run, and the loop does not wait while a batch is in
flight. -/
def trace (core : EngineCore) : List (LoopEvent R) → List (LoopItem R)
  | [] => []
  | .wait :: events =>
      if core.batchQueueLength = 0 then .idled :: core.trace events
      else core.trace events
  | .call input :: events =>
      match core.stepFn input with
      | none => []
      | some (next, item) => item :: next.trace events

/-- Whenever the loop waits, the next call is due to take prefills. -/
def WaitsInStep (core : EngineCore) : List (LoopEvent R) → Prop
  | [] => True
  | .wait :: events =>
      core.stepCounter % core.prefillScheduleInterval = 0 ∧
        core.WaitsInStep events
  | .call input :: events =>
      match core.stepFn input with
      | none => True
      | some (next, _) => next.WaitsInStep events

end EngineCore

namespace LoopItem

variable {R : Type}

def isScheduled : LoopItem R → Bool
  | .scheduled _ _ _ => true
  | .idled => false

/-- A call of `schedule` with `throttle_prefills` false. -/
def admitsPrefills : LoopItem R → Bool
  | .scheduled throttlePrefills _ _ => !throttlePrefills
  | .idled => false

/-- The scheduler went from the state before to the state after. -/
def Legal [DecidableEq R] (limits : ScheduleLimits) : LoopItem R → Prop
  | .scheduled throttlePrefills before after =>
      before.Fresh ∧ before.Scheduled limits throttlePrefills after
  | .idled => True

end LoopItem

/-- The calls of `schedule` of a run keep an interval. -/
structure KeepsCadence {R : Type} (interval : ℕ)
    (items : List (LoopItem R)) : Prop where
  /-- among any `interval` consecutive calls exactly one admits prefills -/
  once : ∀ earlier window later, items = earlier ++ (window ++ later) →
    (∀ item ∈ window, item.isScheduled) → window.length = interval →
    window.countP LoopItem.admitsPrefills = 1
  /-- the first call after an idle moment, or of the run, admits prefills -/
  afterIdle : ∀ earlier throttlePrefills before after later,
    .idled :: items =
      earlier ++ .idled :: .scheduled throttlePrefills before after :: later →
    throttlePrefills = false
  /-- a throttled call with a decode running does no prefill work -/
  throttled : ∀ before after, .scheduled true before after ∈ items →
    (∃ request ∈ before.running, request.isPrefillChunk = false) →
    after.DecodesOnly

/-- The throttle of every call is read off one counter, which an idle moment
leaves at a multiple of the interval. -/
def Follows {R : Type} (interval : ℕ) : ℕ → List (LoopItem R) → Prop
  | _, [] => True
  | counter, .scheduled throttlePrefills _ _ :: items =>
      throttlePrefills = decide (counter % interval ≠ 0) ∧
        Follows interval (counter + 1) items
  | _, .idled :: items =>
      ∃ counter, counter % interval = 0 ∧ Follows interval counter items

namespace Follows

variable {R : Type} {interval : ℕ}

theorem suffix {earlier later : List (LoopItem R)} {counter : ℕ}
    (hfollows : Follows interval counter (earlier ++ later)) :
    ∃ counter', Follows interval counter' later := by
  induction earlier generalizing counter with
  | nil => exact ⟨counter, hfollows⟩
  | cons item earlier ih =>
      cases item with
      | scheduled throttlePrefills before after => exact ih hfollows.2
      | idled =>
          cases hfollows with
          | intro counter' hrest => exact ih hrest.2

/-- A window without idle moments admits prefills as often as the counter
passes a multiple of the interval. -/
theorem countP_window {window later : List (LoopItem R)} {counter : ℕ}
    (hfollows : Follows interval counter (window ++ later))
    (hwindow : ∀ item ∈ window, item.isScheduled) :
    window.countP LoopItem.admitsPrefills =
      (List.range' counter window.length).countP
        fun value => decide (value % interval = 0) := by
  induction window generalizing counter with
  | nil => rfl
  | cons item window ih =>
      have hhead : item.isScheduled := hwindow item List.mem_cons_self
      have htail : ∀ item ∈ window, item.isScheduled :=
        fun item hmem => hwindow item (List.mem_cons_of_mem _ hmem)
      cases item with
      | scheduled throttlePrefills before after =>
          rw [List.length_cons, List.range'_succ, List.countP_cons,
            List.countP_cons, ih hfollows.2 htail, hfollows.1]
          simp [LoopItem.admitsPrefills]
      | idled => simp [LoopItem.isScheduled] at hhead

end Follows

theorem filter_range_mod {interval : ℕ} (hinterval : 0 < interval) :
    (Finset.range interval).filter (fun value => value % interval = 0) =
      {0} := by
  ext value
  rw [Finset.mem_filter, Finset.mem_range, Finset.mem_singleton]
  constructor
  · intro hvalue
    rw [← Nat.mod_eq_of_lt hvalue.1]
    exact hvalue.2
  · intro hvalue
    rw [hvalue]
    exact ⟨hinterval, Nat.zero_mod interval⟩

/-- One of any `interval` consecutive numbers is a multiple of it. -/
theorem countP_range'_mod {interval : ℕ} (hinterval : 0 < interval)
    (start : ℕ) :
    (List.range' start interval).countP
      (fun value => decide (value % interval = 0)) = 1 := by
  have hperiodic :
      Function.Periodic (fun value => value % interval = 0) interval := by
    intro value
    simp
  calc (List.range' start interval).countP
        (fun value => decide (value % interval = 0))
      = ((Finset.Ico start (start + interval)).filter
          fun value => value % interval = 0).card := by
        rw [List.countP_eq_length_filter, Nat.Ico_eq_range', Finset.card,
          Finset.filter_val, Multiset.filter_coe, Multiset.coe_card,
          Nat.add_sub_cancel_left]
    _ = Nat.count (fun value => value % interval = 0) interval :=
        Nat.filter_Ico_card_eq_of_periodic start interval _ hperiodic
    _ = 1 := by
        rw [Nat.count_eq_card_filter_range, filter_range_mod hinterval,
          Finset.card_singleton]

namespace Follows

variable {R : Type} {interval : ℕ}

theorem once {items : List (LoopItem R)} {counter : ℕ}
    (hinterval : 0 < interval) (hfollows : Follows interval counter items)
    {earlier window later : List (LoopItem R)}
    (hitems : items = earlier ++ (window ++ later))
    (hwindow : ∀ item ∈ window, item.isScheduled)
    (hlength : window.length = interval) :
    window.countP LoopItem.admitsPrefills = 1 := by
  rw [hitems] at hfollows
  cases hfollows.suffix with
  | intro counter' hrest =>
      rw [hrest.countP_window hwindow, hlength]
      exact countP_range'_mod hinterval counter'

theorem afterIdle {items : List (LoopItem R)}
    (hfollows : Follows interval 0 items)
    {earlier later : List (LoopItem R)} {throttlePrefills : Bool}
    {before after : ScheduleState R}
    (hitems : .idled :: items = earlier ++
      .idled :: .scheduled throttlePrefills before after :: later) :
    throttlePrefills = false := by
  have hidled : Follows interval 0 (.idled :: items) :=
    ⟨0, Nat.zero_mod interval, hfollows⟩
  rw [hitems] at hidled
  cases hidled.suffix with
  | intro counter hrest =>
      cases hrest with
      | intro counter' hnext => simp [hnext.2.1, hnext.1]

end Follows

namespace EngineCore

variable {R : Type}

theorem shouldThrottlePrefills_eq {core : EngineCore}
    (hinterval : 1 < core.prefillScheduleInterval) :
    core.shouldThrottlePrefills =
      decide (core.stepCounter % core.prefillScheduleInterval ≠ 0) := by
  simp [shouldThrottlePrefills, hinterval]

/-- `step` keeps the cadence over the waits of the loop that fall on a
multiple of the interval. -/
theorem trace_follows {core : EngineCore} {events : List (LoopEvent R)}
    (hinterval : 1 < core.prefillScheduleInterval)
    (hqueue : core.batchQueueSize ≤ 1)
    (hempty : core.batchQueueLength = 0)
    (hwaits : core.WaitsInStep events) :
    Follows core.prefillScheduleInterval core.stepCounter
      (core.trace events) := by
  induction events generalizing core with
  | nil => trivial
  | cons event events ih =>
      cases event with
      | wait =>
          simp only [trace, hempty, if_true]
          exact ⟨core.stepCounter, hwaits.1,
            ih hinterval hqueue hempty hwaits.2⟩
      | call input =>
          have hstep : core.stepFn input = some (core.step input) :=
            if_pos hqueue
          simp only [WaitsInStep, hstep] at hwaits
          simp only [trace, hstep]
          by_cases hrequests : input.hasRequests
          · simp only [step, hrequests, if_true] at hwaits ⊢
            exact ⟨shouldThrottlePrefills_eq hinterval,
              @ih { core with stepCounter := core.stepCounter + 1 }
                hinterval hqueue hempty hwaits⟩
          · simp only [step, hrequests, if_false, Bool.false_eq_true]
              at hwaits ⊢
            exact ⟨0, Nat.zero_mod _,
              @ih { core with stepCounter := 0 }
                hinterval hqueue hempty hwaits⟩

/-- A loop without a batch queue that waits in step keeps its cadence. -/
theorem trace_keepsCadence [DecidableEq R] {limits : ScheduleLimits}
    {core : EngineCore} {events : List (LoopEvent R)}
    (hinterval : 1 < core.prefillScheduleInterval)
    (hcounter : core.stepCounter = 0) (hempty : core.batchQueueLength = 0)
    (hlegal : ∀ item ∈ core.trace events, item.Legal limits)
    (hqueue : core.batchQueueSize ≤ 1) (hwaits : core.WaitsInStep events) :
    KeepsCadence core.prefillScheduleInterval (core.trace events) := by
  have hfollows := trace_follows hinterval hqueue hempty hwaits
  rw [hcounter] at hfollows
  constructor
  · intro earlier window later hitems hwindow hlength
    exact hfollows.once (Nat.zero_lt_of_lt hinterval) hitems hwindow hlength
  · intro earlier throttlePrefills before after later hitems
    exact hfollows.afterIdle hitems
  · intro before after hmem hdecode
    have hscheduled := hlegal _ hmem
    exact ScheduleState.decodesOnly_scheduled hscheduled.1 hdecode
      hscheduled.2

section Example

/-- A decode that has got one token in each earlier call, the last of them
still in flight. -/
def decodeRequest (call : ℕ) : QueuedRequest ℕ where
  requestId := 0
  isPrefillChunk := false
  numTokens := 9 + max call 1
  numTokensWithSpec := 9 + max call 1
  numOutputPlaceholders := min call 1
  numComputedTokens := 9 + call

def exampleLimits : ScheduleLimits where
  draftSlots := 0
  longPrefillTokenThreshold := 0
  maxModelLen := 64
  numSampledTokensPerStep := 1

def beforeDecode (call : ℕ) : ScheduleState ℕ where
  running := [decodeRequest call]
  reqIndex := 0
  preempted := []
  waiting := []
  tokenBudget := 16
  inputBudget := 16
  scheduledRunning := []
  admitted := []

def afterDecode (call : ℕ) : ScheduleState ℕ :=
  { beforeDecode call with
    reqIndex := 1
    tokenBudget := 15
    inputBudget := 15
    scheduledRunning := [⟨decodeRequest call, 9 + call, 1⟩] }

def decodeCall (call : ℕ) : LoopEvent ℕ :=
  .call
    { hasRequests := true
      totalNumScheduledTokens := 1
      pendingStructuredOutputTokens := false
      hasRequestsAfter := true
      before := beforeDecode call
      after := afterDecode call }

def exampleEngine (batchQueueSize : ℕ) : EngineCore where
  prefillScheduleInterval := 4
  batchQueueSize := batchQueueSize
  isEcConsumer := true
  isPoolingModel := false
  stepCounter := 0
  batchQueueLength := 0

theorem decode_legal (throttlePrefills : Bool) {call : ℕ} (hcall : call < 40) :
    (LoopItem.scheduled throttlePrefills (beforeDecode call)
      (afterDecode call)).Legal exampleLimits := by
  refine ⟨⟨rfl, rfl, rfl, rfl⟩, afterDecode call, ?_, ?_⟩
  · apply Relation.ReflTransGen.single
    apply ScheduleState.RunningStep.assign 1
    · exact ⟨Nat.succ_pos 15, Nat.succ_pos 15⟩
    · rfl
    · simp [decodeRequest]
    · decide
    · simp only [ScheduleState.runningTokens, beforeDecode, decodeRequest,
        exampleLimits]
      simp
      omega
  · exact Relation.ReflTransGen.refl

/-- The call saw one of the first decode steps. -/
def ofDecode : LoopItem ℕ → Bool
  | .scheduled _ before after =>
      (List.range 40).any fun call =>
        decide (before = beforeDecode call ∧ after = afterDecode call)
  | .idled => true

theorem legal_of_ofDecode {item : LoopItem ℕ}
    (hdecode : ofDecode item = true) : item.Legal exampleLimits := by
  cases item with
  | scheduled throttlePrefills before after =>
      simp only [ofDecode, List.any_eq_true, decide_eq_true_eq,
        List.mem_range] at hdecode
      cases hdecode with
      | intro call hcall =>
          rw [hcall.2.1, hcall.2.2]
          exact decode_legal throttlePrefills hcall.1
  | idled => trivial

/-- Four calls, a wait, and the first call after it. -/
def alignedRun : List (LoopEvent ℕ) :=
  [decodeCall 0, decodeCall 1, decodeCall 2, decodeCall 3, .wait,
    decodeCall 0]

theorem trace_keepsCadence_aligned :
    KeepsCadence 4 ((exampleEngine 1).trace alignedRun) := by
  have hlegal : ∀ item ∈ (exampleEngine 1).trace alignedRun,
      item.Legal exampleLimits := by
    intro item hmem
    apply legal_of_ofDecode
    revert item
    decide
  exact @trace_keepsCadence ℕ _ exampleLimits (exampleEngine 1) alignedRun
    (by decide) rfl rfl hlegal (by decide)
    ⟨rfl, trivial⟩

/-- With two batches in flight four calls in a row take prefills, and a step
loop that waits after its first call throttles the next one. -/
theorem cadence_broken :
    ((∀ item ∈ (exampleEngine 2).trace
        [decodeCall 0, decodeCall 1, decodeCall 2, decodeCall 3],
          item.Legal exampleLimits) ∧
      ¬KeepsCadence 4 ((exampleEngine 2).trace
        [decodeCall 0, decodeCall 1, decodeCall 2, decodeCall 3])) ∧
    ((∀ item ∈ (exampleEngine 1).trace
        [decodeCall 0, .wait, decodeCall 0], item.Legal exampleLimits) ∧
      ¬KeepsCadence 4 ((exampleEngine 1).trace
        [decodeCall 0, .wait, decodeCall 0])) := by
  refine ⟨⟨fun item hmem => legal_of_ofDecode ?_, fun hkeeps => ?_⟩,
    fun item hmem => legal_of_ofDecode ?_, fun hkeeps => ?_⟩
  · revert item
    decide
  · have honce := hkeeps.once [] ((exampleEngine 2).trace
      [decodeCall 0, decodeCall 1, decodeCall 2, decodeCall 3]) [] rfl
      (by decide) rfl
    revert honce
    decide
  · revert item
    decide
  · have hafter := hkeeps.afterIdle
      [.idled, .scheduled false (beforeDecode 0) (afterDecode 0)]
      true (beforeDecode 0) (afterDecode 0) [] rfl
    cases hafter

end Example

end EngineCore

end GlmFlash.Sched
