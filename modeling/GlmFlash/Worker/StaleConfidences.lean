import GlmFlash.Library.AsyncCopy

/-!
# Stale confidences

`AdaptiveVerificationManager` keeps the confidences of all request slots on the
device and copies them to one of two host slots in every step.  Budgets read
the other host slot.  A request slot that gets a new owner is reset to ones in
three places: on the device, in the host slot that is read, and, once the copy
under way has landed, in the other one.
-/

namespace GlmFlash.Worker.AdaptiveVerification

open GlmFlash.Library

variable {Row : Type}

/-- What the host knows: `_stale_idx` and `_pending_resets`. -/
structure HostState where
  staleIdx : Bool
  pendingResets : List ℕ

inductive Call (Row : Type) where
  | addRequest (reqIdx : ℕ)
  /-- The rows of the batch, each with its entry of `idx_mapping`. -/
  | recordConfidences (batch : List (ℕ × Row))
  /-- The request slots whose rows are read. -/
  | getNumTokens (slots : List ℕ)

abbrev Action (Row : Type) := CopyAction Bool ℕ Row

section Calls

variable (ones : Row)

def addRequest (host : HostState) (reqIdx : ℕ) : HostState × List (Action Row) :=
  ({ host with pendingResets := host.pendingResets ++ [reqIdx] },
    [.fillHost host.staleIdx [reqIdx] ones, .setDevice [(reqIdx, ones)]])

def recordConfidences (host : HostState) (batch : List (ℕ × Row)) :
    HostState × List (Action Row) :=
  let readyIdx := !host.staleIdx
  let writeIdx := host.staleIdx
  let resets := if host.pendingResets = [] then []
    else [.fillHost readyIdx host.pendingResets ones]
  (⟨readyIdx, []⟩,
    .synchronize readyIdx ::
      (resets ++ [.setDevice batch, .stage writeIdx, .startCopy writeIdx]))

/-- The part of `get_num_tokens` that reads confidences. -/
def getNumTokens (host : HostState) (slots : List ℕ) :
    HostState × List (Action Row) :=
  (host, [.readHost host.staleIdx slots])

def callActions (host : HostState) : Call Row → HostState × List (Action Row)
  | .addRequest reqIdx => addRequest ones host reqIdx
  | .recordConfidences batch => recordConfidences ones host batch
  | .getNumTokens slots => getNumTokens host slots

/-- The actions of calls in order. -/
def program (host : HostState) : List (Call Row) → List (Action Row)
  | [] => []
  | call :: calls =>
      let (host, actions) := callActions ones host call
      actions ++ program host calls

def initialHost : HostState := ⟨false, []⟩

/-- Host slots start with ones; what the device holds is arbitrary. -/
structure IsStart (start : CopyWorld Bool ℕ Row) : Prop where
  host : start.host = fun _ _ => ones
  inFlight : start.inFlight = fun _ => false

end Calls

end GlmFlash.Worker.AdaptiveVerification
