import GlmFlash.Worker.PromptBatches

/-!
# Steps of the prompt logprobs

A step brings the buffers of its requests to the positions that are computed then, and
returns the requests whose last prompt token it computes.
-/

namespace GlmFlash.Worker.PromptLogprobs

open GlmFlash.Library

variable {H F : Type} [Inhabited F]

/-- The requests that the worker holds. -/
abbrev Live := String → Option Admission

/-- The turns are those of different requests, as the worker and its tables have them. -/
structure Scheduled (prompts : String → Prompt H) (live : Live) (states : RequestStates)
    (turns : List (Turn H)) : Prop where
  nodup : ((batchOf turns).map BatchRequest.reqId).Nodup
  presents : ∀ turn ∈ turns, ∃ admission, live turn.request.reqId = some admission ∧
    Presents (prompts turn.request.reqId) admission turn
  agrees : ∀ reqId admission, live reqId = some admission →
    Agrees states (prompts reqId) admission

/-- The turn computes the last token of a prompt that logprobs are asked for. -/
structure Finishes (prompt : Prompt H) (admission : Admission) (turn : Turn H) : Prop where
  number : prompt.number.isSome = true
  prefillLen : admission.prefillLen = prompt.length
  computed : admission.computed < prompt.length
  last : admission.computed + turn.request.numScheduledTokens = prompt.length
  long : 1 < prompt.length

/-- The requests after a step. -/
def advance (live : Live) (turns : List (Turn H)) : Live := fun reqId =>
  (live reqId).map fun admission =>
    (turns.find? fun turn => turn.request.reqId = reqId).elim admission fun turn =>
      { admission with computed := admission.computed + turn.advance }

/-- What the worker has of the requests that it holds. -/
structure Keeps (head : Head H F) (prompts : String → Prompt H) (live : Live)
    (worker : PromptLogprobsWorker F) : Prop where
  mode : worker.logprobsMode.isLogits = head.logitsMode
  uses : ∀ reqId admission, live reqId = some admission →
    worker.usesPromptLogprobs admission.reqIdx = (prompts reqId).number.isSome
  number : ∀ reqId admission, live reqId = some admission →
    worker.numPromptLogprobs admission.reqIdx = (prompts reqId).number.getD 0
  distinct : ∀ reqId other admission admission', live reqId = some admission →
    live other = some admission' → admission.reqIdx = admission'.reqIdx → reqId = other
  long : ∀ reqId admission, live reqId = some admission →
    (prompts reqId).length ≤ admission.prefillLen
  buffers : ∀ reqId admission, live reqId = some admission →
    (prompts reqId).number.isSome = true →
      worker.inProgressPromptLogprobs.get? reqId = some
        (if admission.prefillLen = (prompts reqId).length then
          head.buffer (prompts reqId) admission.computed
        else none)

/-! ## The widest request -/

section Widest

variable {requested : List ℤ} {vocab : ℕ}

theorem le_foldl_max (requested : List ℤ) (start : ℤ) : start ≤ requested.foldl max start ∧
    ∀ number ∈ requested, number ≤ requested.foldl max start := by
  induction requested generalizing start with
  | nil => exact ⟨le_rfl, by rintro _ ⟨⟩⟩
  | cons first requested ih =>
      obtain ⟨hstart, hall⟩ := ih (max start first)
      refine ⟨(le_max_left _ _).trans hstart, ?_⟩
      intro number hmem
      rcases List.mem_cons.mp hmem with rfl | hlater
      · exact (le_max_right _ _).trans hstart
      · exact hall number hlater

theorem foldl_max_le {start bound : ℤ} (hstart : start ≤ bound)
    (hall : ∀ number ∈ requested, number ≤ bound) : requested.foldl max start ≤ bound := by
  induction requested generalizing start with
  | nil => exact hstart
  | cons first requested ih =>
      rw [List.forall_mem_cons] at hall
      exact ih (max_le hstart hall.1) hall.2

/-- A batch is scored with at least the entries that each of its requests asks for. -/
theorem requestedEntries_le_max (hall : ∀ number ∈ requested, requestedEntries vocab number ≤ vocab)
    {number : ℤ} (hmem : number ∈ requested) :
    requestedEntries vocab number ≤
      requestedEntries vocab (PromptLogprobsWorker.maxNumPromptLogprobs requested) := by
  rw [PromptLogprobsWorker.maxNumPromptLogprobs]
  by_cases hevery : -1 ∈ requested
  · rw [if_pos hevery]
    exact (hall number hmem).trans (if_pos rfl).ge
  · rw [if_neg hevery]
    have hne : number ≠ -1 := by
      rintro rfl
      exact hevery hmem
    obtain ⟨hzero, hle⟩ := le_foldl_max requested 0
    have hmax := hle number hmem
    rw [requestedEntries, requestedEntries, if_neg hne, if_neg (by omega)]
    omega

theorem requestedEntries_max_le
    (hall : ∀ number ∈ requested, requestedEntries vocab number ≤ vocab) :
    requestedEntries vocab (PromptLogprobsWorker.maxNumPromptLogprobs requested) ≤ vocab := by
  rw [PromptLogprobsWorker.maxNumPromptLogprobs]
  by_cases hevery : -1 ∈ requested
  · rw [if_pos hevery]
    exact (if_pos rfl).le
  · have hbound : requested.foldl max 0 ≤ (vocab : ℤ) := by
      apply foldl_max_le (Int.natCast_nonneg vocab)
      intro number hmem
      have hnumber := hall number hmem
      have hne : number ≠ -1 := by
        rintro rfl
        exact hevery hmem
      rw [requestedEntries, if_neg hne] at hnumber
      omega
    have hzero := (le_foldl_max requested 0).1
    rw [if_neg hevery, requestedEntries, if_neg (by omega)]
    omega

end Widest

/-! ## Steps -/

section Step

variable {head : Head H F} {prompts : String → Prompt H} {live : Live}
  {worker : PromptLogprobsWorker F} {states : RequestStates} {turns : List (Turn H)}
  {turn : Turn H} {admission : Admission} {environment : Environment}
  {plan : Option CapturePlan} {files captured : Files F}

theorem Keeps.needs_iff (hkeeps : Keeps head prompts live worker)
    (hscheduled : Scheduled prompts live states turns)
    (hlive : live turn.request.reqId = some admission)
    (hpresents : Presents (prompts turn.request.reqId) admission turn) :
    worker.needsPromptLogprobs states turn.request = true ↔
      (prompts turn.request.reqId).number.isSome = true ∧
        admission.prefillLen = (prompts turn.request.reqId).length ∧
        admission.computed < (prompts turn.request.reqId).length :=
  needsPromptLogprobs_iff hpresents (hscheduled.agrees _ _ hlive) (hkeeps.uses _ _ hlive)
    (hkeeps.long _ _ hlive)

/-- The rows of a batch, scored with the entries of its widest request. -/
def batchRows (head : Head H F) (worker : PromptLogprobsWorker F) (states : RequestStates)
    (turns : List (Turn H)) : List (ScoreRow F) :=
  scoredRows head.scoring head.logits head.logitsMode
    (requestedEntries head.vocab (PromptLogprobsWorker.maxNumPromptLogprobs
      (((batchOf turns).filter (worker.needsPromptLogprobs states)).map fun request =>
        worker.numPromptLogprobs request.reqIdx)))
    (turns.flatMap Turn.hiddenStates) (getPromptLogprobsTokenIds states (batchOf turns))

/-- What the requests of a batch ask for can be had. -/
theorem Keeps.requested_le (hkeeps : Keeps head prompts live worker)
    (hscheduled : Scheduled prompts live states turns)
    (hserves : ∀ reqId, head.Serves (prompts reqId)) :
    ∀ number ∈ ((batchOf turns).filter (worker.needsPromptLogprobs states)).map
        (fun request => worker.numPromptLogprobs request.reqIdx),
      requestedEntries head.vocab number ≤ head.vocab := by
  intro number hnumber
  obtain ⟨request, hrequest, rfl⟩ := List.mem_map.mp hnumber
  obtain ⟨turn, hturn, rfl⟩ := List.mem_map.mp (List.mem_filter.mp hrequest).1
  obtain ⟨admission, hlive, hpresents⟩ := hscheduled.presents turn hturn
  rw [hpresents.reqIdx, hkeeps.number _ _ hlive]
  exact (hserves turn.request.reqId).2

/-- The rows of a turn lie after those of the turns before it. -/
theorem Keeps.scored (hkeeps : Keeps head prompts live worker)
    (hscheduled : Scheduled prompts live states turns)
    (hserves : ∀ reqId, head.Serves (prompts reqId)) {earlier later : List (Turn H)}
    (hsplit : turns = earlier ++ turn :: later)
    (hneeded : worker.needsPromptLogprobs states turn.request = true) :
    Scored head (prompts turn.request.reqId) (batchRows head worker states turns)
      (scheduledTokens (batchOf earlier)) turn.request.numComputedPrefillTokens
      turn.request.numScheduledTokens
      (requestedEntries head.vocab (PromptLogprobsWorker.maxNumPromptLogprobs
        (((batchOf turns).filter (worker.needsPromptLogprobs states)).map fun request =>
          worker.numPromptLogprobs request.reqIdx))) := by
  have hturn : turn ∈ turns := hsplit ▸ List.mem_append_right _ List.mem_cons_self
  obtain ⟨admission, hlive, hpresents⟩ := hscheduled.presents turn hturn
  obtain ⟨hsome, hprefill, hlt⟩ := (hkeeps.needs_iff hscheduled hlive hpresents).mp hneeded
  have hcomputed := hpresents.computed_of_lt (hkeeps.long _ _ hlive) hlt
  have hmem : (prompts turn.request.reqId).number.getD 0 ∈
      ((batchOf turns).filter (worker.needsPromptLogprobs states)).map
        (fun request => worker.numPromptLogprobs request.reqIdx) := by
    rw [← hkeeps.number _ _ hlive, ← hpresents.reqIdx]
    exact List.mem_map_of_mem (List.mem_filter.mpr ⟨List.mem_map_of_mem hturn, hneeded⟩)
  have hall := hkeeps.requested_le hscheduled hserves
  rw [hcomputed]
  refine ⟨requestedEntries_le_max hall hmem, requestedEntries_max_le hall, ?_, ?_, ?_⟩
  · intro hevery
    rw [hevery, Option.getD_some] at hmem
    rw [PromptLogprobsWorker.maxNumPromptLogprobs, if_pos hmem]
    exact if_pos rfl
  · intro row hrow
    have hrow := List.mem_of_mem_head? hrow
    obtain ⟨index, hindex, rfl⟩ := List.mem_iff_getElem.mp hrow
    simp only [batchRows, scoredRows, List.getElem_zipWith]
    rw [length_logprobs]
    exact length_scoreRow (hserves turn.request.reqId).1 (requestedEntries_max_le hall) _ _
  · intro index hindex hinside
    have htoken := getElem?_promptTokens hpresents (hscheduled.agrees _ _ hlive) hsplit hindex
      hinside
    have hscheduledLength : ∀ turn ∈ earlier,
        turn.request.numScheduledTokens = turn.hiddenStates.length := by
      intro other hother
      obtain ⟨_, -, hothers⟩ := hscheduled.presents other
        (hsplit ▸ List.mem_append_left _ hother)
      exact hothers.scheduled
    have hhidden := getElem?_flatMap_split Turn.hiddenStates hsplit
      (hpresents.scheduled ▸ hindex)
    rw [length_hiddenStates hscheduledLength,
      hpresents.hidden hprefill index hindex (by omega)] at hhidden
    rw [batchRows, scoredRows, List.getElem?_zipWith, hhidden, htoken]

/-- The turns of a batch that belong to a request. -/
theorem Scheduled.unique (hscheduled : Scheduled prompts live states turns)
    {other : Turn H} (hturn : turn ∈ turns) (hother : other ∈ turns)
    (heq : turn.request.reqId = other.request.reqId) : turn = other := by
  have hnodup := hscheduled.nodup
  rw [batchOf, List.map_map] at hnodup
  exact List.inj_on_of_nodup_map hnodup hturn hother heq

theorem Scheduled.find (hscheduled : Scheduled prompts live states turns)
    (hturn : turn ∈ turns) :
    turns.find? (fun other => other.request.reqId = turn.request.reqId) = some turn := by
  cases hfind : turns.find? (fun other => other.request.reqId = turn.request.reqId) with
  | none =>
      have hnone := List.find?_eq_none.mp hfind turn hturn
      exact absurd (decide_eq_true rfl) hnone
  | some found =>
      have hfound := List.find?_some hfind
      rw [hscheduled.unique hturn (List.mem_of_find?_eq_some hfind)
        (of_decide_eq_true hfound).symm]

theorem Scheduled.advance_eq (hscheduled : Scheduled prompts live states turns)
    (hturn : turn ∈ turns) (hlive : live turn.request.reqId = some admission) :
    advance live turns turn.request.reqId =
      some { admission with computed := admission.computed + turn.advance } := by
  rw [advance, hlive, Option.map_some, hscheduled.find hturn]
  rfl

theorem advance_of_absent {reqId : String}
    (habsent : ∀ turn ∈ turns, turn.request.reqId ≠ reqId) :
    advance live turns reqId = live reqId := by
  have hnone : turns.find? (fun turn => turn.request.reqId = reqId) = none :=
    List.find?_eq_none.mpr fun turn hturn heq => habsent turn hturn (of_decide_eq_true heq)
  rw [advance, hnone]
  cases live reqId <;> rfl

theorem of_advance {reqId : String} {later : Admission}
    (hadvance : advance live turns reqId = some later) :
    ∃ admission, live reqId = some admission ∧ later.reqIdx = admission.reqIdx ∧
      later.prefillLen = admission.prefillLen := by
  rw [advance, Option.map_eq_some_iff] at hadvance
  obtain ⟨admission, hlive, rfl⟩ := hadvance
  refine ⟨admission, hlive, ?_⟩
  cases turns.find? fun turn => turn.request.reqId = reqId <;> exact ⟨rfl, rfl⟩

/-- A step leaves a worker with other buffers, and what is returned. -/
structure Stepped (head : Head H F) (prompts : String → Prompt H) (live : Live)
    (turns : List (Turn H)) (worker worker' : PromptLogprobsWorker F)
    (results : Dict String (Tensors F)) : Prop where
  same : ∃ inProgress, worker' = { worker with inProgressPromptLogprobs := inProgress }
  keeps : Keeps head prompts (advance live turns) worker'
  results : ∀ reqId tensors, results.get? reqId = some tensors ↔
    ∃ turn ∈ turns, ∃ admission, turn.request.reqId = reqId ∧ live reqId = some admission ∧
      Finishes (prompts reqId) admission turn ∧
      tensors = head.written (prompts reqId) ((prompts reqId).length - 1)

/-- A request that is not scored has no buffer, before the step and after it. -/
theorem Keeps.buffer_unscored (hkeeps : Keeps head prompts live worker)
    (hscheduled : Scheduled prompts live states turns)
    (hlive : live turn.request.reqId = some admission)
    (hpresents : Presents (prompts turn.request.reqId) admission turn)
    (hsome : (prompts turn.request.reqId).number.isSome = true)
    (hunscored : ¬worker.needsPromptLogprobs states turn.request = true) :
    (if admission.prefillLen = (prompts turn.request.reqId).length then
        head.buffer (prompts turn.request.reqId) admission.computed else none) =
      if admission.prefillLen = (prompts turn.request.reqId).length then
        head.buffer (prompts turn.request.reqId) (admission.computed + turn.advance)
      else none := by
  by_cases hprefill : admission.prefillLen = (prompts turn.request.reqId).length
  · have hpast : ¬admission.computed < (prompts turn.request.reqId).length := fun hlt =>
      hunscored ((hkeeps.needs_iff hscheduled hlive hpresents).mpr ⟨hsome, hprefill, hlt⟩)
    rw [if_pos hprefill, if_pos hprefill, Head.buffer, Head.buffer,
      if_neg fun h => hpast h.2, if_neg (by omega)]
  · rw [if_neg hprefill, if_neg hprefill]

/-- The buffer of a request that is scored. -/
def filledBuffer (head : Head H F) (prompts : String → Prompt H) (request : BatchRequest) :
    Option (Tensors F) :=
  if 1 < (prompts request.reqId).length then
    some (head.written (prompts request.reqId)
      (request.numComputedPrefillTokens + request.numScheduledTokens))
  else none

theorem Keeps.buffer_scored (hkeeps : Keeps head prompts live worker)
    (hscheduled : Scheduled prompts live states turns)
    (hlive : live turn.request.reqId = some admission)
    (hpresents : Presents (prompts turn.request.reqId) admission turn)
    (hneeded : worker.needsPromptLogprobs states turn.request = true) :
    (if turn.request.isPromptChunked states then filledBuffer head prompts turn.request
      else none) =
      if admission.prefillLen = (prompts turn.request.reqId).length then
        head.buffer (prompts turn.request.reqId) (admission.computed + turn.advance)
      else none := by
  obtain ⟨-, hprefill, hlt⟩ := (hkeeps.needs_iff hscheduled hlive hpresents).mp hneeded
  have hcomputed := hpresents.computed_of_lt (hkeeps.long _ _ hlive) hlt
  have hadvance := (hpresents.prefill (hprefill ▸ hlt)).2
  have hpos := hpresents.scheduled_pos
  rw [if_pos hprefill, BatchRequest.isPromptChunked, hpresents.reqIdx,
    (hscheduled.agrees _ _ hlive).promptLen, filledBuffer, Head.buffer, hcomputed, hadvance]
  by_cases hshort : admission.computed + turn.request.numScheduledTokens <
      (prompts turn.request.reqId).length
  · rw [if_pos (decide_eq_true hshort), if_pos (by omega), if_pos ⟨by omega, hshort⟩]
  · rw [if_neg (by simpa using hshort), if_neg fun h => hshort h.2]

/-- The worker keeps what it has when the buffers follow the step. -/
theorem Keeps.follow (hkeeps : Keeps head prompts live worker)
    {inProgress : Dict String (Option (Tensors F))}
    (hbuffers : ∀ reqId admission, advance live turns reqId = some admission →
      (prompts reqId).number.isSome = true → inProgress.get? reqId = some
        (if admission.prefillLen = (prompts reqId).length then
          head.buffer (prompts reqId) admission.computed
        else none)) :
    Keeps head prompts (advance live turns)
      { worker with inProgressPromptLogprobs := inProgress } where
  mode := hkeeps.mode
  uses reqId later hlater := by
    obtain ⟨admission, hlive, hreqIdx, -⟩ := of_advance hlater
    exact (congrArg worker.usesPromptLogprobs hreqIdx).trans (hkeeps.uses _ _ hlive)
  number reqId later hlater := by
    obtain ⟨admission, hlive, hreqIdx, -⟩ := of_advance hlater
    exact (congrArg worker.numPromptLogprobs hreqIdx).trans (hkeeps.number _ _ hlive)
  distinct reqId other later later' hlater hlater' heq := by
    obtain ⟨admission, hlive, hreqIdx, -⟩ := of_advance hlater
    obtain ⟨admission', hlive', hreqIdx', -⟩ := of_advance hlater'
    exact hkeeps.distinct _ _ _ _ hlive hlive' (hreqIdx.symm.trans (heq.trans hreqIdx'))
  long reqId later hlater := by
    obtain ⟨admission, hlive, -, hprefill⟩ := of_advance hlater
    exact hprefill ▸ hkeeps.long _ _ hlive
  buffers := hbuffers

section Kept

variable (hkeeps : Keeps head prompts live worker)
  (hscheduled : Scheduled prompts live states turns)
include hkeeps hscheduled

/-- The last step of a prompt is one in which the request is scored. -/
theorem Finishes.needed (hlive : live turn.request.reqId = some admission)
    (hpresents : Presents (prompts turn.request.reqId) admission turn)
    (hfinishes : Finishes (prompts turn.request.reqId) admission turn) :
    worker.needsPromptLogprobs states turn.request = true :=
  (hkeeps.needs_iff hscheduled hlive hpresents).mpr
    ⟨hfinishes.number, hfinishes.prefillLen, hfinishes.computed⟩

/-- A step without prompts to score. -/
theorem Keeps.step_idle (hidle : (batchOf turns).filter (worker.needsPromptLogprobs states) = [])
    (hiddenStates : List H) :
    worker.computePromptLogprobs head.scoring environment (batchOf turns) hiddenStates states
        files = .ok (worker, files, []) ∧
      Stepped head prompts live turns worker worker [] := by
  have hunscored : ∀ turn ∈ turns, ¬worker.needsPromptLogprobs states turn.request = true :=
    fun turn hturn => List.filter_eq_nil_iff.mp hidle _ (List.mem_map_of_mem hturn)
  refine ⟨?_, ⟨_, rfl⟩, ?_, ?_⟩
  · rw [PromptLogprobsWorker.computePromptLogprobs]
    exact if_pos hidle
  · refine @Keeps.follow H F _ head prompts live worker turns hkeeps
      worker.inProgressPromptLogprobs ?_
    intro reqId later hlater hsome
    by_cases hturn : ∃ turn ∈ turns, turn.request.reqId = reqId
    · obtain ⟨turn, hturn, rfl⟩ := hturn
      obtain ⟨admission, hlive, hpresents⟩ := hscheduled.presents turn hturn
      rw [hscheduled.advance_eq hturn hlive] at hlater
      rw [hkeeps.buffers _ _ hlive hsome, hkeeps.buffer_unscored hscheduled hlive hpresents hsome
        (hunscored turn hturn), ← Option.some.inj hlater]
    · have habsent : ∀ turn ∈ turns, turn.request.reqId ≠ reqId :=
        fun turn hmem heq => hturn ⟨turn, hmem, heq⟩
      rw [advance_of_absent habsent] at hlater
      exact hkeeps.buffers _ _ hlater hsome
  · intro reqId tensors
    refine iff_of_false (by rintro ⟨⟩) ?_
    rintro ⟨turn, hturn, admission, rfl, hlive, hfinishes, -⟩
    obtain ⟨found, hfound, hpresents⟩ := hscheduled.presents turn hturn
    rw [hlive] at hfound
    cases hfound
    exact hunscored turn hturn (hfinishes.needed hkeeps hscheduled hlive hpresents)

/-- The buffers after a step, and what it returns. -/
theorem Keeps.stepped {inProgress : Dict String (Option (Tensors F))}
    {results : Dict String (Tensors F)}
    (hassembled : Assembled worker states (filledBuffer head prompts) (batchOf turns)
      worker.inProgressPromptLogprobs inProgress [] results) :
    Stepped head prompts live turns worker
      { worker with inProgressPromptLogprobs := inProgress } results := by
  have hown : ∀ turn ∈ turns, ¬worker.needsPromptLogprobs states turn.request = true →
      ∀ request ∈ batchOf turns, worker.needsPromptLogprobs states request = true →
        request.reqId ≠ turn.request.reqId := by
    intro turn hturn hunscored request hrequest hneeded heq
    obtain ⟨other, hother, rfl⟩ := List.mem_map.mp hrequest
    exact hunscored (hscheduled.unique hother hturn heq ▸ hneeded)
  refine ⟨⟨_, rfl⟩, hkeeps.follow ?_, ?_⟩
  · intro reqId later hlater hsome
    by_cases hturn : ∃ turn ∈ turns, turn.request.reqId = reqId
    · obtain ⟨turn, hturn, rfl⟩ := hturn
      obtain ⟨admission, hlive, hpresents⟩ := hscheduled.presents turn hturn
      rw [hscheduled.advance_eq hturn hlive] at hlater
      rw [← Option.some.inj hlater]
      by_cases hneeded : worker.needsPromptLogprobs states turn.request = true
      · rw [(hassembled.mem _ (List.mem_map_of_mem hturn) hneeded).1,
          hkeeps.buffer_scored hscheduled hlive hpresents hneeded]
      · rw [(hassembled.not_mem _ (hown turn hturn hneeded)).1,
          hkeeps.buffers _ _ hlive hsome,
          hkeeps.buffer_unscored hscheduled hlive hpresents hsome hneeded]
    · have habsent : ∀ turn ∈ turns, turn.request.reqId ≠ reqId :=
        fun turn hmem heq => hturn ⟨turn, hmem, heq⟩
      have hnone : ∀ request ∈ batchOf turns, worker.needsPromptLogprobs states request = true →
          request.reqId ≠ reqId := by
        intro request hrequest _
        obtain ⟨other, hother, rfl⟩ := List.mem_map.mp hrequest
        exact habsent other hother
      rw [advance_of_absent habsent] at hlater
      rw [(hassembled.not_mem reqId hnone).1]
      exact hkeeps.buffers _ _ hlater hsome
  · intro reqId tensors
    by_cases hturn : ∃ turn ∈ turns, turn.request.reqId = reqId ∧
        worker.needsPromptLogprobs states turn.request = true
    · obtain ⟨turn, hturn, rfl, hneeded⟩ := hturn
      obtain ⟨admission, hlive, hpresents⟩ := hscheduled.presents turn hturn
      obtain ⟨hnumber, hprefill, hlt⟩ := (hkeeps.needs_iff hscheduled hlive hpresents).mp hneeded
      have hcomputed := hpresents.computed_of_lt (hkeeps.long _ _ hlive) hlt
      have hfits := (hpresents.prefill (hprefill ▸ hlt)).1
      rw [(hassembled.mem _ (List.mem_map_of_mem hturn) hneeded).2, BatchRequest.isPromptChunked,
        hpresents.reqIdx, (hscheduled.agrees _ _ hlive).promptLen, hcomputed, filledBuffer,
        hcomputed, Dict.get?_nil, Option.or_none]
      constructor
      · intro hreturned
        split at hreturned
        · cases hreturned
        · rename_i hlast
          rw [decide_eq_true_eq] at hlast
          split at hreturned
          · rename_i hlong
            refine ⟨turn, hturn, admission, rfl, hlive,
              ⟨hnumber, hprefill, hlt, by omega, hlong⟩, ?_⟩
            rw [← Option.some.inj hreturned]
            exact written_all (by omega) le_rfl
          · cases hreturned
      · rintro ⟨other, hother, found, heq, hfound, hfinishes, rfl⟩
        have hsame := hscheduled.unique hother hturn heq
        subst hsame
        rw [hlive] at hfound
        cases hfound
        have hlast := hfinishes.last
        rw [if_neg (by simp [hlast]), if_pos hfinishes.long]
        exact congrArg some (written_all (by omega) le_rfl)
    · have hnone : ∀ request ∈ batchOf turns, worker.needsPromptLogprobs states request = true →
          request.reqId ≠ reqId := by
        intro request hrequest hneeded heq
        obtain ⟨other, hother, rfl⟩ := List.mem_map.mp hrequest
        exact hturn ⟨other, hother, heq, hneeded⟩
      rw [(hassembled.not_mem reqId hnone).2]
      refine iff_of_false (by rintro ⟨⟩) ?_
      rintro ⟨turn, hmem, admission, rfl, hlive, hfinishes, -⟩
      obtain ⟨found, hfound, hpresents⟩ := hscheduled.presents turn hmem
      rw [hlive] at hfound
      cases hfound
      exact hturn ⟨turn, hmem, rfl, hfinishes.needed hkeeps hscheduled hlive hpresents⟩

/-- The captures of a step. -/
def captureStep (head : Head H F) (worker : PromptLogprobsWorker F) (environment : Environment)
    (states : RequestStates) (turns : List (Turn H)) (files : Files F) :
    Except Failure (Files F) := do
  let plan ← worker.capturePlan environment states (batchOf turns)
  captureChunks environment head.logits plan worker.chunkSize (turns.flatMap Turn.hiddenStates)
    (cdiv (scheduledTokens (batchOf turns)) worker.chunkSize) 0 files

/-- A step with prompts to score. -/
theorem Keeps.step_scored (hserves : ∀ reqId, head.Serves (prompts reqId))
    (hscored : (batchOf turns).filter (worker.needsPromptLogprobs states) ≠ [])
    (hcaptured : captureStep head worker environment states turns files = .ok captured)
    (padding : List H) :
    ∃ worker' results, worker.computePromptLogprobs head.scoring environment (batchOf turns)
        (turns.flatMap Turn.hiddenStates ++ padding) states files =
          .ok (worker', captured, results) ∧
      Stepped head prompts live turns worker worker' results := by
  obtain ⟨request, hrequest⟩ := List.exists_mem_of_ne_nil _ hscored
  obtain ⟨turn, hturn, rfl⟩ := List.mem_map.mp (List.mem_filter.mp hrequest).1
  obtain ⟨admission, hlive, hpresents⟩ := hscheduled.presents turn hturn
  have hlength : (getPromptLogprobsTokenIds states (batchOf turns)).length =
      (turns.flatMap Turn.hiddenStates).length := by
    rw [length_promptTokens, length_hiddenStates]
    intro other hother
    obtain ⟨_, -, hothers⟩ := hscheduled.presents other hother
    exact hothers.scheduled
  have htokens : getPromptLogprobsTokenIds states (batchOf turns) ≠ [] := by
    rw [← List.length_pos_iff_ne_nil, length_promptTokens, scheduledTokens]
    apply List.sum_pos_iff_exists_pos_nat.mpr
    exact ⟨_, List.mem_map_of_mem (List.mem_map_of_mem hturn), hpresents.scheduled_pos⟩
  have hfill : ∀ earlier request later, batchOf turns = earlier ++ request :: later →
      worker.needsPromptLogprobs states request = true → ∃ buffer,
        worker.inProgressPromptLogprobs.get? request.reqId = some buffer ∧
          worker.fillBuffer states (batchRows head worker states turns) request
            (0 + scheduledTokens earlier) buffer = .ok (filledBuffer head prompts request) := by
    intro earlier request later hsplit hneeded
    obtain ⟨first, rest, hturns, rfl, hrest⟩ := List.map_eq_append_iff.mp hsplit
    obtain ⟨own, last, rfl, rfl, rfl⟩ := List.map_eq_cons_iff.mp hrest
    obtain ⟨admission, hlive, hpresents⟩ := hscheduled.presents own
      (hturns ▸ List.mem_append_right _ List.mem_cons_self)
    obtain ⟨hnumber, hprefill, hlt⟩ := (hkeeps.needs_iff hscheduled hlive hpresents).mp hneeded
    have hcomputed := hpresents.computed_of_lt (hkeeps.long _ _ hlive) hlt
    have hfits := (hpresents.prefill (hprefill ▸ hlt)).1
    have hknows : Knows worker states (prompts own.request.reqId) own.request.reqIdx := by
      rw [hpresents.reqIdx]
      exact ⟨hkeeps.uses _ _ hlive, hkeeps.number _ _ hlive,
        (hscheduled.agrees _ _ hlive).promptLen⟩
    refine ⟨head.buffer (prompts own.request.reqId) own.request.numComputedPrefillTokens,
      ?_, ?_⟩
    · rw [hkeeps.buffers _ _ hlive hnumber, if_pos hprefill, hcomputed]
    · rw [Nat.zero_add]
      exact (hkeeps.scored hscheduled hserves hturns hneeded).fillBuffer (hserves _) hknows
        (hknows.uses.trans hnumber) hpresents.scheduled_pos (by omega)
  obtain ⟨inProgress, results, hassemble, hassembled⟩ := assemble_eq hscheduled.nodup hfill
  refine ⟨{ worker with inProgressPromptLogprobs := inProgress }, results, ?_,
    hkeeps.stepped hscheduled hassembled⟩
  simp only [captureStep, bind_eq_ok] at hcaptured
  obtain ⟨plan, hplan, hchunks⟩ := hcaptured
  rw [PromptLogprobsWorker.computePromptLogprobs, if_neg hscored, hplan, ok_bind]
  dsimp only
  rw [hlength, List.take_left, computePromptLogprobsWithChunking_eq (hserves "").1
    worker.chunkSize_pos (requestedEntries_max_le (hkeeps.requested_le hscheduled hserves))
    hlength htokens, length_promptTokens, hchunks, hkeeps.mode]
  dsimp only [Except.map]
  rw [ok_bind]
  dsimp only
  rw [← batchRows, hassemble]
  rfl

end Kept

end Step

end GlmFlash.Worker.PromptLogprobs
