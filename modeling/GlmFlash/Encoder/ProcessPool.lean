import GlmFlash.Library.Dict
import GlmFlash.Library.Outcome
import Mathlib.Data.List.Sort
import Mathlib.Data.List.Dedup

/-!
# The process pool

A pool of workers, one for each device.  `map` gives each worker a fixed part
of the experts and gathers the answers from one shared queue, on which they
arrive in any order.
-/

namespace GlmFlash.Encoder.ProcessPool

open GlmFlash.Library

inductive Failure where
  | valueError (message : String)
  | runtimeError (message : String)
  deriving DecidableEq, Repr

/-! ## Owners -/

/-- The worker that owns an expert: by its number, or by its position in the
assignment domain. -/
def owner (workerCount : ℕ) (assignmentDomain : Option (List ℤ)) (expert : ℤ) : ℕ :=
  match assignmentDomain with
  | none => (expert % workerCount).toNat
  | some assignment => assignment.idxOf expert % workerCount

/-- `_stable_expert_partitions` -/
def stableExpertPartitions (experts : List ℤ) (workerCount : ℕ)
    (assignmentDomain : Option (List ℤ)) : Except Failure (List (List ℤ)) := do
  require (1 ≤ workerCount) (.valueError "process task requires at least one worker")
  let domain := experts.insertionSort fun left right => left ≤ right
  require domain.Nodup (.valueError "process task expert domain contains duplicates")
  match assignmentDomain with
  | none => pure ()
  | some assignment => do
      require assignment.Nodup
        (.valueError "process assignment domain contains duplicates")
      require (∀ expert ∈ domain, expert ∈ assignment)
        (.valueError "process task contains experts outside its assignment domain")
  return (List.range workerCount).map fun rank =>
    domain.filter fun expert => owner workerCount assignmentDomain expert = rank

/-! ## Messages -/

/-- What a worker puts on the shared queue.  The values are `none` when they are
not a list. -/
inductive Message (V : Type) where
  | ready (rank : ℤ)
  | fatal (rank : ℤ) (traceback : String)
  | error (rank job : ℤ) (operation traceback : String)
  | result (rank job : ℤ) (operation : String) (values : Option (List (ℤ × V)))

/-- What a wait on the shared queue ends with: a message, or after a second none,
with the exit codes of the workers that are not alive. -/
inductive Event (V : Type) where
  | message (message : Message V)
  | empty (exitcode : ℤ → Option ℤ)

structure Payload (P : Type) where
  assignmentDomain : Option (List ℤ)
  items : P

structure Call (P : Type) where
  operation : String
  experts : List ℤ
  payload : Payload P

/-- A message on the queue of one worker. -/
structure Task (P : Type) where
  rank : ℤ
  job : ℤ
  operation : String
  experts : List ℤ
  payload : Payload P

/-! ## Gathering -/

structure Collected (V : Type) where
  received : Dict ℤ V
  waiting : List ℤ

/-- One call of `map`, once its tasks are given out. -/
structure Job where
  number : ℤ
  operation : String
  domain : List ℤ
  expected : Dict ℤ (List ℤ)

inductive Outcome (V : Type) where
  | returned (pairs : List (ℤ × V))
  | raised (failure : Failure)
  /-- the call still waits for messages -/
  | blocked (collected : Collected V)

variable {V : Type}

def store (received : Dict ℤ V) : List (ℤ × V) → Except Failure (Dict ℤ V)
  | [] => .ok received
  | (expert, value) :: values =>
      if expert ∈ Dict.keys received then
        .error (.runtimeError "duplicate expert returned by GPU workers")
      else store (received.set expert value) values

namespace Job

variable (job : Job)

def workerFailed (traceback : String) : Failure :=
  .runtimeError ("GPU worker failed during " ++ job.operation ++ ":\n" ++ traceback)

def accept (collected : Collected V) : Message V → Except Failure (Collected V)
  | .fatal _ traceback => .error (job.workerFailed traceback)
  | .error _ _ _ traceback => .error (job.workerFailed traceback)
  | .ready _ => .error (.runtimeError "foreign or out-of-order GPU worker result")
  | .result rank number operation values => do
      require (number = job.number)
        (.runtimeError "foreign or out-of-order GPU worker result")
      require (rank ∈ collected.waiting ∧ operation = job.operation)
        (.runtimeError "duplicate or mismatched GPU worker result")
      match values with
      | none => .error (.runtimeError "malformed GPU worker result payload")
      | some values => do
          require (job.expected.get? rank = some (values.map Prod.fst))
            (.runtimeError "GPU worker result domain/order drift")
          let received ← store collected.received values
          return { received := received, waiting := collected.waiting.erase rank }

/-- The workers that are waited for and not alive. -/
def dead (collected : Collected V) (exitcode : ℤ → Option ℤ) : List (ℤ × ℤ) :=
  job.expected.filterMap fun entry =>
    if entry.1 ∈ collected.waiting then (exitcode entry.1).map (entry.1, ·) else none

def deadText (dead : List (ℤ × ℤ)) : String :=
  "[" ++ ", ".intercalate (dead.map fun entry =>
    "(" ++ toString entry.1 ++ ", " ++ toString entry.2 ++ ")") ++ "]"

def workersExited (dead : List (ℤ × ℤ)) : Failure :=
  .runtimeError ("GPU workers exited during " ++ job.operation ++ ": " ++ deadText dead)

/-- The end of `map`, once no worker is waited for. -/
def finish (received : Dict ℤ V) : Outcome V :=
  if (∀ expert ∈ Dict.keys received, expert ∈ job.domain) ∧
      ∀ expert ∈ job.domain, expert ∈ Dict.keys received then
    .returned (job.domain.filterMap fun expert =>
      (received.get? expert).map (expert, ·))
  else .raised (.runtimeError "GPU worker result domain is incomplete")

/-- The loop of `map`, and the events that it leaves on the queue. -/
def gather (collected : Collected V) (events : List (Event V)) :
    Outcome V × List (Event V) :=
  if collected.waiting = [] then (job.finish collected.received, events)
  else
    match events with
    | [] => (.blocked collected, [])
    | .empty exitcode :: events =>
        if job.dead collected exitcode = [] then gather collected events
        else (.raised (job.workersExited (job.dead collected exitcode)), events)
    | .message message :: events =>
        match job.accept collected message with
        | .error failure => (.raised failure, events)
        | .ok collected => gather collected events

end Job

/-- The messages that a job puts on the queues of its workers. -/
def Call.tasks {P : Type} (call : Call P) (job : Job) : List (Task P) :=
  job.expected.map fun entry =>
    { rank := entry.1
      job := job.number
      operation := job.operation
      experts := entry.2
      payload := call.payload }

/-! ## The pool -/

structure Pool where
  workers : ℕ
  two_le : 2 ≤ workers
  closed : Bool
  job : ℕ

namespace Pool

variable {P : Type} (pool : Pool)

/-- The partitions that are not empty, by their workers. -/
def expectedOf (partitions : List (List ℤ)) : Dict ℤ (List ℤ) :=
  (partitions.zipIdx.filter fun entry => entry.1 ≠ []).map fun entry =>
    ((entry.2 : ℤ), entry.1)

/-- The job of a call whose experts are not empty. -/
def start (call : Call P) : Except Failure Job := do
  let domain := call.experts.insertionSort fun left right => left ≤ right
  let partitions ← stableExpertPartitions domain pool.workers
    call.payload.assignmentDomain
  return {
    number := pool.job + 1
    operation := call.operation
    domain := domain
    expected := expectedOf partitions }

def map (call : Call P) (events : List (Event V)) :
    Pool × Outcome V × List (Event V) :=
  if pool.closed then
    (pool, .raised (.runtimeError "process pool is closed"), events)
  else if call.experts = [] then (pool, .returned [], events)
  else
    match pool.start call with
    | .error failure => ({ pool with job := pool.job + 1 }, .raised failure, events)
    | .ok job =>
        let (outcome, events) := job.gather ⟨[], Dict.keys job.expected⟩ events
        match outcome with
        | .raised failure =>
            ({ pool with job := pool.job + 1, closed := true }, .raised failure, events)
        | outcome => ({ pool with job := pool.job + 1 }, outcome, events)

end Pool

/-! ## Workers -/

/-- `_WorkerService.run`, with the state that it keeps between experts.  A failure
is the text that is sent with it. -/
structure Service (S P V : Type) where
  run : String → ℤ → Payload P → S → Except String (S × V)

namespace Service

variable {S P : Type} (service : Service S P V)

/-- The values of a task, one expert after the other. -/
def values (operation : String) (payload : Payload P) (state : S) :
    List ℤ → Except String (S × List (ℤ × V))
  | [] => .ok (state, [])
  | expert :: experts => do
      let (state, value) ← service.run operation expert payload state
      let (state, values) ← values operation payload state experts
      return (state, (expert, value) :: values)

end Service

end GlmFlash.Encoder.ProcessPool
