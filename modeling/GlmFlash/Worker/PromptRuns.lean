import GlmFlash.Worker.PromptSteps

/-!
# Prompt logprobs over runs

Requests come and go, also in the middle of their prompts, and each step scores the
prompts of its batch.  A request is returned in the step that computes its last prompt
token, with the rows of its own prompt.
-/

namespace GlmFlash.Worker.PromptLogprobs

open GlmFlash.Library

variable {H F : Type} [Inhabited F]

inductive Event (H : Type) where
  | add (reqId : String) (admission : Admission)
  | remove (reqId : String)
  | step (states : RequestStates) (turns : List (Turn H)) (padding : List H)

/-- The turns of an event. -/
def Event.turns : Event H → List (Turn H)
  | .step _ turns _ => turns
  | _ => []

/-- The worker, the requests that it holds and the captured files. -/
structure System (F : Type) where
  live : Live
  worker : PromptLogprobsWorker F
  files : Files F

namespace System

def act (head : Head H F) (environment : Environment) (prompts : String → Prompt H)
    (system : System F) :
    Event H → Except Failure (System F × Dict String (Tensors F))
  | .add reqId admission => .ok ({ system with
      live := Function.update system.live reqId (some admission)
      worker := system.worker.addRequest reqId admission.reqIdx (prompts reqId).number }, [])
  | .remove reqId => .ok ({ system with
      live := Function.update system.live reqId none
      worker := system.worker.removeRequest reqId }, [])
  | .step states turns padding => do
      let (worker, files, results) ← system.worker.computePromptLogprobs head.scoring
        environment (batchOf turns) (turns.flatMap Turn.hiddenStates ++ padding) states
        system.files
      return ({ live := advance system.live turns, worker := worker, files := files }, results)

end System

/-- A request is added once at a time, to a slot of its own.  It starts its prompt at
zero, or has had its prompt before it was preempted. -/
structure Addable (prompts : String → Prompt H) (live : Live) (reqId : String)
    (admission : Admission) : Prop where
  absent : live reqId = none
  free : ∀ other held, live other = some held → held.reqIdx ≠ admission.reqIdx
  long : (prompts reqId).length ≤ admission.prefillLen
  start : admission.prefillLen = (prompts reqId).length →
    (prompts reqId).number.isSome = true → admission.computed = 0

inductive Allowed (prompts : String → Prompt H) (live : Live) : Event H → Prop
  | add {reqId : String} {admission : Admission}
      (haddable : Addable prompts live reqId admission) :
      Allowed prompts live (.add reqId admission)
  | remove (reqId : String) : Allowed prompts live (.remove reqId)
  | step {states : RequestStates} {turns : List (Turn H)} (padding : List H)
      (hscheduled : Scheduled prompts live states turns) :
      Allowed prompts live (.step states turns padding)

/-- The states that a worker without requests comes to. -/
inductive Reached (head : Head H F) (environment : Environment)
    (prompts : String → Prompt H) : System F → Prop
  | start (worker : PromptLogprobsWorker F)
      (hmode : worker.logprobsMode.isLogits = head.logitsMode) :
      Reached head environment prompts
        { live := fun _ => none, worker := worker, files := [] }
  | act {system next : System F} {event : Event H} {results : Dict String (Tensors F)}
      (hreached : Reached head environment prompts system)
      (hallowed : Allowed prompts system.live event)
      (hact : system.act head environment prompts event = .ok (next, results)) :
      Reached head environment prompts next

section Runs

variable {head : Head H F} {environment : Environment} {prompts : String → Prompt H}
  {live : Live} {worker : PromptLogprobsWorker F} {system next : System F} {event : Event H}
  {reqId : String} {admission : Admission}

theorem update_live_cases {other : String} {held : Admission} {entry : Option Admission}
    (hheld : Function.update live reqId entry other = some held) :
    (other = reqId ∧ entry = some held) ∨ (other ≠ reqId ∧ live other = some held) := by
  by_cases heq : other = reqId
  · subst heq
    rw [Function.update_self] at hheld
    exact .inl ⟨rfl, hheld⟩
  · rw [Function.update_of_ne heq] at hheld
    exact .inr ⟨heq, hheld⟩

theorem Keeps.add (hkeeps : Keeps head prompts live worker)
    (haddable : Addable prompts live reqId admission) :
    Keeps head prompts (Function.update live reqId (some admission))
      (worker.addRequest reqId admission.reqIdx (prompts reqId).number) where
  mode := hkeeps.mode
  uses other held hheld := by
    rcases update_live_cases hheld with ⟨rfl, hown⟩ | ⟨-, hother⟩
    · cases hown
      exact Function.update_self ..
    · exact (Function.update_of_ne (haddable.free _ _ hother) ..).trans
        (hkeeps.uses _ _ hother)
  number other held hheld := by
    rcases update_live_cases hheld with ⟨rfl, hown⟩ | ⟨-, hother⟩
    · cases hown
      exact Function.update_self ..
    · exact (Function.update_of_ne (haddable.free _ _ hother) ..).trans
        (hkeeps.number _ _ hother)
  distinct left right held held' hheld hheld' heq := by
    rcases update_live_cases hheld with ⟨rfl, hown⟩ | ⟨-, hother⟩ <;>
      rcases update_live_cases hheld' with ⟨rfl, hown'⟩ | ⟨-, hother'⟩
    · rfl
    · cases hown
      exact absurd heq.symm (haddable.free _ _ hother')
    · cases hown'
      exact absurd heq (haddable.free _ _ hother)
    · exact hkeeps.distinct _ _ _ _ hother hother' heq
  long other held hheld := by
    rcases update_live_cases hheld with ⟨rfl, hown⟩ | ⟨-, hother⟩
    · cases hown
      exact haddable.long
    · exact hkeeps.long _ _ hother
  buffers other held hheld hsome := by
    rcases update_live_cases hheld with ⟨rfl, hown⟩ | ⟨hne, hother⟩
    · cases hown
      have hbuffer : (if admission.prefillLen = (prompts other).length then
          head.buffer (prompts other) admission.computed else none) = none := by
        by_cases hprefill : admission.prefillLen = (prompts other).length
        · rw [if_pos hprefill, Head.buffer, haddable.start hprefill hsome,
            if_neg fun h => Nat.lt_irrefl 0 h.1]
        · rw [if_neg hprefill]
      rw [PromptLogprobsWorker.addRequest, hbuffer]
      dsimp only
      rw [if_pos hsome, Dict.get?_set_self]
    · rw [PromptLogprobsWorker.addRequest]
      dsimp only
      by_cases hlogprobs : (prompts reqId).number.isSome = true
      · rw [if_pos hlogprobs, Dict.get?_set_of_ne hne]
        exact hkeeps.buffers _ _ hother hsome
      · rw [if_neg hlogprobs]
        exact hkeeps.buffers _ _ hother hsome

theorem Keeps.remove (hkeeps : Keeps head prompts live worker) (reqId : String) :
    Keeps head prompts (Function.update live reqId none) (worker.removeRequest reqId) where
  mode := hkeeps.mode
  uses other held hheld := by
    rcases update_live_cases hheld with ⟨-, ⟨⟩⟩ | ⟨-, hother⟩
    exact hkeeps.uses _ _ hother
  number other held hheld := by
    rcases update_live_cases hheld with ⟨-, ⟨⟩⟩ | ⟨-, hother⟩
    exact hkeeps.number _ _ hother
  distinct left right held held' hheld hheld' heq := by
    rcases update_live_cases hheld with ⟨-, ⟨⟩⟩ | ⟨-, hother⟩
    rcases update_live_cases hheld' with ⟨-, ⟨⟩⟩ | ⟨-, hother'⟩
    exact hkeeps.distinct _ _ _ _ hother hother' heq
  long other held hheld := by
    rcases update_live_cases hheld with ⟨-, ⟨⟩⟩ | ⟨-, hother⟩
    exact hkeeps.long _ _ hother
  buffers other held hheld hsome := by
    rcases update_live_cases hheld with ⟨-, ⟨⟩⟩ | ⟨hne, hother⟩
    rw [PromptLogprobsWorker.removeRequest]
    dsimp only
    rw [Dict.get?_filter fun key => decide (key ≠ reqId), if_pos (decide_eq_true hne)]
    exact hkeeps.buffers _ _ hother hsome

theorem keeps_start (hmode : worker.logprobsMode.isLogits = head.logitsMode) :
    Keeps head prompts (fun _ => none) worker where
  mode := hmode
  uses := by rintro _ _ ⟨⟩
  number := by rintro _ _ ⟨⟩
  distinct := by rintro _ _ _ _ ⟨⟩
  long := by rintro _ _ ⟨⟩
  buffers := by rintro _ _ ⟨⟩

/-- What an event returns: the requests whose prompt it finishes, each with all rows. -/
def Returned (head : Head H F) (prompts : String → Prompt H) (live : Live)
    (turns : List (Turn H)) (results : Dict String (Tensors F)) : Prop :=
  ∀ reqId tensors, results.get? reqId = some tensors ↔
    ∃ turn ∈ turns, ∃ admission, turn.request.reqId = reqId ∧ live reqId = some admission ∧
      Finishes (prompts reqId) admission turn ∧
      tensors = head.written (prompts reqId) ((prompts reqId).length - 1)

theorem returned_nil : Returned head prompts live [] [] := by
  intro reqId tensors
  refine iff_of_false (by rintro ⟨⟩) ?_
  rintro ⟨turn, hturn, -⟩
  cases hturn

omit [Inhabited F] in
theorem captureStep_off (hoff : environment.captureDir = false) (states : RequestStates)
    (turns : List (Turn H)) (files : Files F) :
    captureStep head worker environment states turns files = .ok files := by
  rw [captureStep, capturePlan_off hoff, ok_bind]
  exact captureChunks_none

theorem live_of_step {states : RequestStates} {turns : List (Turn H)} {padding : List H}
    {results : Dict String (Tensors F)}
    (hact : system.act head environment prompts (.step states turns padding) =
      .ok (next, results)) : next.live = advance system.live turns := by
  simp only [System.act, bind_eq_ok, pure_eq_ok] at hact
  obtain ⟨scored, -, hresult⟩ := hact
  cases hresult
  rfl

/-- An event succeeds when the captures of its step do. -/
theorem Keeps.act (hkeeps : Keeps head prompts system.live system.worker)
    (hserves : ∀ reqId, head.Serves (prompts reqId))
    (hallowed : Allowed prompts system.live event) {captured : Files F}
    (hcaptured : ∀ states turns padding, event = .step states turns padding →
      (batchOf turns).filter (system.worker.needsPromptLogprobs states) ≠ [] →
        captureStep head system.worker environment states turns system.files = .ok captured) :
    ∃ next results, system.act head environment prompts event = .ok (next, results) ∧
      Keeps head prompts next.live next.worker ∧
      Returned head prompts system.live event.turns results := by
  cases hallowed with
  | add haddable => exact ⟨_, [], rfl, hkeeps.add haddable, returned_nil⟩
  | remove reqId => exact ⟨_, [], rfl, hkeeps.remove reqId, returned_nil⟩
  | @step states turns padding hscheduled =>
      by_cases hidle :
          (batchOf turns).filter (system.worker.needsPromptLogprobs states) = []
      · obtain ⟨hrun, hstepped⟩ :=
          @Keeps.step_idle H F _ head prompts _ _ states turns environment system.files hkeeps
            hscheduled hidle (turns.flatMap Turn.hiddenStates ++ padding)
        refine ⟨{ system with live := advance system.live turns }, [], ?_, hstepped.keeps,
          hstepped.results⟩
        rw [System.act, hrun]
        rfl
      · obtain ⟨worker', results, hrun, hstepped⟩ := hkeeps.step_scored hscheduled hserves hidle
          (hcaptured states turns padding rfl hidle) padding
        refine ⟨{ live := advance system.live turns, worker := worker', files := captured },
          results, ?_, hstepped.keeps, hstepped.results⟩
        rw [System.act, hrun]
        rfl

/-- Without captures a worker keeps in all runs what it has of its requests. -/
theorem Reached.keeps (hserves : ∀ reqId, head.Serves (prompts reqId))
    (hoff : environment.captureDir = false) (hreached : Reached head environment prompts system) :
    Keeps head prompts system.live system.worker := by
  induction hreached with
  | start worker hmode => exact keeps_start hmode
  | @act system next event results _ hallowed hact ih =>
      obtain ⟨next', results', hsame, hkeeps, -⟩ := ih.act hserves hallowed
        (fun states turns _ _ _ => captureStep_off hoff states turns system.files)
      rw [hact] at hsame
      cases hsame
      exact hkeeps

/-- However the prompts are cut into steps, whatever else is in the batches and however
often a prompt is started again: no step raises, and a request is returned in exactly the
step that computes its last prompt token, with the rows of its own prompt. -/
theorem prompt_logprobs_exact (head : Head H F) (prompts : String → Prompt H)
    (environment : Environment) (hserves : ∀ reqId, head.Serves (prompts reqId))
    (hoff : environment.captureDir = false) (system : System F)
    (hreached : Reached head environment prompts system) (event : Event H)
    (hallowed : Allowed prompts system.live event) :
    ∃ next results, system.act head environment prompts event = .ok (next, results) ∧
      ∀ reqId tensors, results.get? reqId = some tensors ↔
        ∃ turn ∈ event.turns, ∃ admission, turn.request.reqId = reqId ∧
          system.live reqId = some admission ∧ Finishes (prompts reqId) admission turn ∧
          tensors = head.written (prompts reqId) ((prompts reqId).length - 1) := by
  obtain ⟨next, results, hact, -, hreturned⟩ := (hreached.keeps hserves hoff).act hserves
    hallowed (fun states turns _ _ _ => captureStep_off hoff states turns system.files)
  exact ⟨next, results, hact, hreturned⟩

end Runs

/-! ## A head of its own -/

section Witness

/-- The positions of a row, the largest entries first. -/
def largestFirst (row : List ℤ) : List ℕ :=
  (List.range row.length).insertionSort fun left right => row.getD right 0 ≤ row.getD left 0

theorem length_largestFirst (row : List ℤ) : (largestFirst row).length = row.length := by
  rw [largestFirst, List.length_insertionSort, List.length_range]

/-- Hidden states are numbers, and a row of logits has three entries. -/
def smallLogits (hidden : ℕ) : List ℤ := [hidden, 3, 2 * hidden]

def smallHead : Head ℕ ℤ where
  scoring := {
    logitsFn := List.map smallLogits
    topk := fun row count => (largestFirst row).take count
    logSoftmax := fun row index => row.getD index 0
    ge := fun left right => right ≤ left }
  logits := smallLogits
  vocab := 3
  logitsMode := true

theorem smallHead_rowByRow : RowByRow smallHead.scoring smallHead.logits smallHead.vocab where
  logitsFn_eq _ := rfl
  length_head _ := rfl
  length_topk row count hle := by
    change ((largestFirst row).take count).length = count
    rw [List.length_take, length_largestFirst, min_eq_left hle]
  take_topk row count more hle _ := by
    change ((largestFirst row).take more).take count = (largestFirst row).take count
    rw [List.take_take, min_eq_left hle]

theorem ge_of_some {least number count : ℤ} (hleast : least ≤ number)
    (hcount : some number = some count) : least ≤ count := by
  cases hcount
  exact hleast

/-- Five tokens with the best logprob of each. -/
def chatPrompt : Prompt ℕ where
  tokenIds := [2, 0, 1, 2, 1]
  number := some 1
  hidden := id
  number_ge _ := ge_of_some (by decide)

/-- Three tokens with the logprobs of the whole vocabulary. -/
def talkPrompt : Prompt ℕ where
  tokenIds := [1, 2, 0]
  number := some (-1)
  hidden := fun position => position + 2
  number_ge _ := ge_of_some (by decide)

def pairPrompts (reqId : String) : Prompt ℕ :=
  if reqId = "chat" then chatPrompt else talkPrompt

theorem smallHead_serves (reqId : String) : smallHead.Serves (pairPrompts reqId) := by
  refine ⟨smallHead_rowByRow, ?_⟩
  rw [pairPrompts]
  split
  · decide
  · decide

theorem two_pos_chunk : 0 < 2 := Nat.two_pos

def freshWorker : PromptLogprobsWorker ℤ where
  logprobsMode := .rawLogits
  vocabSize := none
  chunkSize := 2
  chunkSize_pos := two_pos_chunk
  usesPromptLogprobs := fun _ => false
  numPromptLogprobs := fun _ => 0
  inProgressPromptLogprobs := []

def quietEnvironment : Environment where
  captureDir := false
  isGlobalFirstRank := true
  isalnum := Char.isAlphanum

def chatAt (computed : ℕ) : Admission := ⟨4, 5, computed⟩

def talkAt (computed : ℕ) : Admission := ⟨7, 3, computed⟩

def pairLive (chat talk : ℕ) : Live := fun reqId =>
  if reqId = "chat" then some (chatAt chat)
  else if reqId = "talk" then some (talkAt talk) else none

def pairStates (chat talk : ℕ) : RequestStates where
  allTokenIds := fun index => if index = 4 then chatPrompt.tokenIds else talkPrompt.tokenIds
  numComputedTokens := fun index => if index = 4 then chat else talk
  promptLen := fun index => if index = 4 then 5 else 3

def turnOf (reqId : String) (admission : Admission) (count : ℕ) : Turn ℕ where
  request := {
    reqId := reqId
    reqIdx := admission.reqIdx
    numComputedPrefillTokens := admission.computed
    prefillLen := admission.prefillLen
    numScheduledTokens := count }
  hiddenStates := (List.range count).map fun index =>
    (pairPrompts reqId).hidden (admission.computed + index)
  advance := count

/-- The system that holds both prompts and has not computed any of them. -/
def admittedSystem : System ℤ where
  live := pairLive 0 0
  worker := (freshWorker.addRequest "chat" 4 (some 1)).addRequest "talk" 7 (some (-1))
  files := []

theorem admitted_live : admittedSystem.live =
    Function.update (Function.update (fun _ => none) "chat" (some (chatAt 0))) "talk"
      (some (talkAt 0)) := by
  funext reqId
  simp only [admittedSystem, pairLive, Function.update_apply]
  by_cases hchat : reqId = "chat"
  · subst hchat
    rfl
  · rw [if_neg hchat, if_neg hchat]

theorem chat_addable : Addable pairPrompts (fun _ => none) "chat" (chatAt 0) :=
  ⟨rfl, by rintro _ _ ⟨⟩, by decide, fun _ _ => rfl⟩

theorem talk_addable : Addable pairPrompts
    (Function.update (fun _ => none) "chat" (some (chatAt 0))) "talk" (talkAt 0) := by
  refine ⟨rfl, fun other held hheld => ?_, by decide, fun _ _ => rfl⟩
  rcases update_live_cases hheld with ⟨-, ⟨⟩⟩ | ⟨-, ⟨⟩⟩
  decide

theorem admitted_reached (environment : Environment) :
    Reached smallHead environment pairPrompts admittedSystem := by
  have hchat := (Reached.start freshWorker rfl).act (.add chat_addable)
    (rfl : System.act smallHead environment pairPrompts _ _ = _)
  have htalk := hchat.act (.add talk_addable)
    (rfl : System.act smallHead environment pairPrompts _ _ = _)
  rw [← admitted_live] at htalk
  exact htalk

section Steps

variable {chat talk : ℕ} {turns : List (Turn ℕ)}

theorem presents_turn {reqId : String} {admission : Admission} {count : ℕ}
    (hpos : 0 < count) (hwithin : admission.computed + count ≤ admission.prefillLen) :
    Presents (pairPrompts reqId) admission (turnOf reqId admission count) where
  reqIdx := rfl
  prefillLen := rfl
  computed := (min_eq_left (Nat.le_of_add_right_le hwithin)).symm
  scheduled := by rw [turnOf, List.length_map, List.length_range]
  scheduled_pos := hpos
  prefill _ := ⟨hwithin, rfl⟩
  hidden _ index hindex _ := by
    have hlt : index < count := hindex
    rw [turnOf, List.getElem?_map, List.getElem?_range hlt]
    rfl

theorem pair_scheduled (hnodup : ((batchOf turns).map BatchRequest.reqId).Nodup)
    (hturns : ∀ turn ∈ turns,
      (∃ count, (0 < count ∧ chat + count ≤ 5) ∧ turn = turnOf "chat" (chatAt chat) count) ∨
      ∃ count, (0 < count ∧ talk + count ≤ 3) ∧ turn = turnOf "talk" (talkAt talk) count) :
    Scheduled pairPrompts (pairLive chat talk) (pairStates chat talk) turns where
  nodup := hnodup
  presents turn hturn := by
    rcases hturns turn hturn with ⟨count, hcount, rfl⟩ | ⟨count, hcount, rfl⟩
    · exact ⟨_, rfl, presents_turn hcount.1 hcount.2⟩
    · exact ⟨_, rfl, presents_turn hcount.1 hcount.2⟩
  agrees reqId admission hlive := by
    rw [pairLive] at hlive
    split at hlive
    · rename_i hchat
      cases hlive
      rw [hchat]
      exact ⟨rfl, rfl, fun _ _ => rfl⟩
    · rename_i hchat
      split at hlive
      · rename_i htalk
        cases hlive
        rw [htalk]
        exact ⟨rfl, rfl, fun _ _ => rfl⟩
      · cases hlive

end Steps

/-- In one step the first prompt is cut and the second one ends, in the next one the first
one ends. -/
theorem prompt_logprobs_exact_pair : ∃ middle first next second,
    admittedSystem.act smallHead quietEnvironment pairPrompts (.step (pairStates 0 0)
        [turnOf "chat" (chatAt 0) 3, turnOf "talk" (talkAt 0) 3] []) = .ok (middle, first) ∧
      first.get? "talk" = some (smallHead.written talkPrompt 2) ∧
    middle.act smallHead quietEnvironment pairPrompts (.step (pairStates 3 3)
        [turnOf "chat" (chatAt 3) 2] []) = .ok (next, second) ∧
      second.get? "chat" = some (smallHead.written chatPrompt 4) := by
  have hfirst : Scheduled pairPrompts admittedSystem.live (pairStates 0 0)
      [turnOf "chat" (chatAt 0) 3, turnOf "talk" (talkAt 0) 3] := by
    refine pair_scheduled (by decide) ?_
    simp only [List.forall_mem_cons]
    exact ⟨.inl ⟨3, by decide, rfl⟩, .inr ⟨3, by decide, rfl⟩, fun turn hturn => by cases hturn⟩
  obtain ⟨middle, first, hact, hreturned⟩ := prompt_logprobs_exact smallHead pairPrompts
    quietEnvironment smallHead_serves rfl admittedSystem (admitted_reached _) _ (.step [] hfirst)
  have hlive : middle.live = pairLive 3 3 := by
    rw [live_of_step hact]
    funext reqId
    by_cases hchat : reqId = "chat"
    · subst hchat
      rfl
    · by_cases htalk : reqId = "talk"
      · subst htalk
        rfl
      · simp only [advance, admittedSystem, pairLive, if_neg hchat, if_neg htalk, Option.map_none]
  have hsecond : Scheduled pairPrompts middle.live (pairStates 3 3)
      [turnOf "chat" (chatAt 3) 2] := by
    rw [hlive]
    refine pair_scheduled (List.nodup_singleton _) fun turn hturn => .inl ⟨2, by decide, ?_⟩
    exact List.mem_singleton.mp hturn
  obtain ⟨next, second, hnext, hlast⟩ := prompt_logprobs_exact smallHead pairPrompts
    quietEnvironment smallHead_serves rfl middle
    ((admitted_reached _).act (.step [] hfirst) hact) _ (.step [] hsecond)
  refine ⟨middle, first, next, second, hact, (hreturned _ _).mpr ?_, hnext, (hlast _ _).mpr ?_⟩
  · exact ⟨_, List.mem_cons_of_mem _ List.mem_cons_self, talkAt 0, rfl, rfl,
      ⟨rfl, rfl, by decide, rfl, by decide⟩, rfl⟩
  · exact ⟨_, List.mem_cons_self, chatAt 3, rfl, congrFun hlive "chat",
      ⟨rfl, rfl, by decide, rfl, by decide⟩, rfl⟩

end Witness

end GlmFlash.Worker.PromptLogprobs
