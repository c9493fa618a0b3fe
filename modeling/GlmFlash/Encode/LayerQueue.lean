import GlmFlash.Library.Runs
import Mathlib.Data.List.Dedup
import Mathlib.Data.List.Sort

/-!
# The layer queue

`fast_encode.py`: parents hand layers to worker processes through a queue file
that is written once and claim directories that are made once.  Making a
directory is the atomic step; a worker that dies leaves its claims behind.
-/

namespace GlmFlash.Encode

open GlmFlash.Library

inductive Failure where
  | valueError
  | notEnabled
  deriving DecidableEq, Repr

/-! ## Requested layers -/

def firstMoeLayer : ℕ := 3

def lastMoeLayer : ℕ := 77

/-- A part of the specification between commas. -/
inductive LayerPart where
  | single (layer : ℕ)
  | range (start : ℕ) (stop : ℤ)

def LayerPart.layers : LayerPart → List ℕ
  | .single layer => [layer]
  | .range start stop => List.range' start ((stop + 1).toNat - start)

def parseLayers (spec : List LayerPart) : Except Failure (List ℕ) := do
  let out := (spec.flatMap LayerPart.layers).dedup.insertionSort (· ≤ ·)
  require (out ≠ [] ∧
    ∀ layer ∈ out, firstMoeLayer ≤ layer ∧ layer ≤ lastMoeLayer) .valueError
  return out

/-! ## Workers and parents -/

/-- Where a worker process stands. -/
inductive Phase where
  /-- About to read the queue file. -/
  | polling
  /-- In `claim_next_layer`, with the markers still to try. -/
  | claiming (rest : List ℕ)
  | encoding (layer : ℕ)
  /-- `run_worker` returned 0. -/
  | exited
  | crashed
  deriving DecidableEq, Repr

def Phase.ended : Phase → Bool
  | .exited | .crashed => true
  | _ => false

/-- A `run_parent` that waits for its workers. -/
structure Invocation where
  layers : List ℕ
  firstWorker : ℕ
  workers : ℕ
  deriving DecidableEq

def Invocation.pids (invocation : Invocation) : List ℕ :=
  List.range' invocation.firstWorker invocation.workers

structure State where
  /-- `QUEUE.json` -/
  queue : Option (List ℕ)
  /-- The marker directories, with the process that made each. -/
  claims : List (ℕ × ℕ)
  encoded : List ℕ
  processes : List Phase
  parent : Option Invocation
  deriving DecidableEq

def State.initial : State := ⟨none, [], [], [], none⟩

def State.claimed (state : State) : List ℕ := state.claims.map Prod.fst

inductive Action where
  | runParent (spec : List LayerPart) (workers : ℤ)
  | advance (pid : ℕ)
  | crash (pid : ℕ)
  /-- All workers have ended: `run_parent` returns 0 or raises. -/
  | wait
  /-- A keyboard interrupt terminates the workers. -/
  | interrupt

def State.setPhase (state : State) (pid : ℕ) (phase : Phase) : State :=
  { state with processes := state.processes.set pid phase }

/-- What a worker does next. -/
def advance (state : State) (pid : ℕ) : Except Failure State :=
  match state.processes[pid]? with
  | some .polling =>
      match state.queue with
      | none => .error .notEnabled
      | some layers => .ok (state.setPhase pid (.claiming layers))
  | some (.claiming []) => .ok (state.setPhase pid .exited)
  | some (.claiming (layer :: rest)) =>
      if layer ∈ state.claimed then
        .ok (state.setPhase pid (.claiming rest))
      else
        .ok { state.setPhase pid (.encoding layer) with
          claims := state.claims ++ [(layer, pid)] }
  | some (.encoding layer) =>
      .ok { state.setPhase pid .polling with
        encoded := state.encoded ++ [layer] }
  | _ => .error .notEnabled

/-- `run_parent` up to the point where it waits. -/
def runParent (state : State) (spec : List LayerPart) (workers : ℤ) :
    Except Failure State := do
  require (state.parent = none) .notEnabled
  let layers ← parseLayers spec
  return { state with
    queue := some (state.queue.getD layers)
    processes := state.processes ++ List.replicate workers.toNat .polling
    parent := some ⟨layers, state.processes.length, workers.toNat⟩ }

/-- All workers have returned 0, and `run_parent` returns 0. -/
def State.returns (state : State) (invocation : Invocation) : Prop :=
  ∀ pid ∈ invocation.pids, state.processes[pid]? = some .exited

instance (state : State) (invocation : Invocation) :
    Decidable (state.returns invocation) :=
  inferInstanceAs (Decidable (∀ _ ∈ _, _))

def step (state : State) : Action → Except Failure State
  | .runParent spec workers => runParent state spec workers
  | .advance pid => advance state pid
  | .crash pid => do
      require (∃ phase ∈ state.processes[pid]?, phase.ended = false) .notEnabled
      return state.setPhase pid .crashed
  | .wait => do
      require (∃ invocation ∈ state.parent, ∀ pid ∈ invocation.pids,
        ∃ phase ∈ state.processes[pid]?, phase.ended = true) .notEnabled
      return { state with parent := none }
  | .interrupt => do
      require (state.parent ≠ none) .notEnabled
      return { state with
        parent := none
        processes := state.processes.map fun phase =>
          if phase.ended then phase else .crashed }

end GlmFlash.Encode
