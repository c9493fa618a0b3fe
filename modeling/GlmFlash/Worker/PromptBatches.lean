import GlmFlash.Worker.PromptBuffers

/-!
# Steps over batches

The requests of a batch are scored together and their buffers filled one after the
other.  Each buffer comes to the positions of its own request, and no other changes.
-/

namespace GlmFlash.Worker.PromptLogprobs

open GlmFlash.Library

variable {H F : Type}

/-! ## Filling the buffers -/

def scheduledTokens (batch : List BatchRequest) : ℕ :=
  (batch.map BatchRequest.numScheduledTokens).sum

/-- The buffers after a batch, and what is returned. -/
structure Assembled (worker : PromptLogprobsWorker F) (states : RequestStates)
    (filled : BatchRequest → Option (Tensors F)) (batch : List BatchRequest)
    (before after : Dict String (Option (Tensors F))) (results final : Dict String (Tensors F)) :
    Prop where
  mem : ∀ request ∈ batch, worker.needsPromptLogprobs states request = true →
    after.get? request.reqId =
        some (if request.isPromptChunked states then filled request else none) ∧
      final.get? request.reqId =
        if request.isPromptChunked states then results.get? request.reqId
        else (filled request).or (results.get? request.reqId)
  not_mem : ∀ reqId, (∀ request ∈ batch, worker.needsPromptLogprobs states request = true →
    request.reqId ≠ reqId) →
      after.get? reqId = before.get? reqId ∧ final.get? reqId = results.get? reqId

theorem Assembled.cons {worker : PromptLogprobsWorker F} {states : RequestStates}
    {filled : BatchRequest → Option (Tensors F)} {first : BatchRequest}
    {batch : List BatchRequest} {before middle after : Dict String (Option (Tensors F))}
    {results halfway final : Dict String (Tensors F)}
    (hnew : first.reqId ∉ batch.map BatchRequest.reqId)
    (hfirst : Assembled worker states filled [first] before middle results halfway)
    (hrest : Assembled worker states filled batch middle after halfway final) :
    Assembled worker states filled (first :: batch) before after results final where
  mem := by
    intro request hmem hneeded
    rcases List.mem_cons.mp hmem with rfl | hlater
    · obtain ⟨hafter, hfinal⟩ := hrest.not_mem request.reqId
        fun other hother _ heq => hnew (heq ▸ List.mem_map_of_mem hother)
      rw [hafter, hfinal]
      exact hfirst.mem request (List.mem_singleton_self request) hneeded
    · have hne : ∀ other ∈ [first], worker.needsPromptLogprobs states other = true →
          other.reqId ≠ request.reqId := by
        intro other hother _ heq
        rw [List.mem_singleton.mp hother] at heq
        exact hnew (heq ▸ List.mem_map_of_mem hlater)
      rw [← (hfirst.not_mem request.reqId hne).2]
      exact hrest.mem request hlater hneeded
  not_mem := by
    intro reqId hall
    have hrests := hrest.not_mem reqId
      fun request hmem => hall request (List.mem_cons_of_mem first hmem)
    have hfirsts := hfirst.not_mem reqId fun request hmem =>
      hall request (List.mem_cons.mpr (.inl (List.mem_singleton.mp hmem)))
    exact ⟨hrests.1.trans hfirsts.1, hrests.2.trans hfirsts.2⟩

section Assemble

variable {worker : PromptLogprobsWorker F} {states : RequestStates} {rows : List (ScoreRow F)}
  {filled : BatchRequest → Option (Tensors F)} {batch : List BatchRequest}

/-- One request of a batch. -/
theorem assemble_first {first : BatchRequest} {startIdx : ℕ}
    {before : Dict String (Option (Tensors F))} {results : Dict String (Tensors F)}
    (hfill : worker.needsPromptLogprobs states first = true → ∃ buffer,
      before.get? first.reqId = some buffer ∧
        worker.fillBuffer states rows first startIdx buffer = .ok (filled first)) :
    ∃ middle halfway, Assembled worker states filled [first] before middle results halfway ∧
      worker.assemble states rows (first :: batch) startIdx before results =
        worker.assemble states rows batch (startIdx + first.numScheduledTokens) middle
          halfway := by
  by_cases hneeded : worker.needsPromptLogprobs states first = true
  · obtain ⟨buffer, hbuffer, hfilled⟩ := hfill hneeded
    have hother : ∀ reqId, (∀ request ∈ [first],
        worker.needsPromptLogprobs states request = true → request.reqId ≠ reqId) →
          reqId ≠ first.reqId :=
      fun reqId hall heq => hall first (List.mem_singleton_self first) hneeded heq.symm
    by_cases hchunked : first.isPromptChunked states = true
    · refine ⟨before.set first.reqId (filled first), results, ⟨?_, ?_⟩, ?_⟩
      · intro request hmem _
        rw [List.mem_singleton.mp hmem, Dict.get?_set_self, if_pos hchunked, if_pos hchunked]
        exact ⟨rfl, rfl⟩
      · exact fun reqId hall => ⟨Dict.get?_set_of_ne (hother reqId hall), rfl⟩
      · rw [PromptLogprobsWorker.assemble, if_pos hneeded, hbuffer]
        dsimp only
        rw [hfilled, ok_bind, if_pos hchunked]
    · cases hnone : filled first with
      | none =>
          refine ⟨before.set first.reqId none, results, ⟨?_, ?_⟩, ?_⟩
          · intro request hmem _
            rw [List.mem_singleton.mp hmem, Dict.get?_set_self, if_neg hchunked,
              if_neg hchunked, hnone]
            exact ⟨rfl, rfl⟩
          · exact fun reqId hall => ⟨Dict.get?_set_of_ne (hother reqId hall), rfl⟩
          · rw [PromptLogprobsWorker.assemble, if_pos hneeded, hbuffer]
            dsimp only
            rw [hfilled, ok_bind, if_neg hchunked, hnone]
      | some tensors =>
          refine ⟨before.set first.reqId none, results.set first.reqId tensors, ⟨?_, ?_⟩, ?_⟩
          · intro request hmem _
            rw [List.mem_singleton.mp hmem, Dict.get?_set_self, Dict.get?_set_self,
              if_neg hchunked, if_neg hchunked, hnone]
            exact ⟨rfl, rfl⟩
          · exact fun reqId hall => ⟨Dict.get?_set_of_ne (hother reqId hall),
              Dict.get?_set_of_ne (hother reqId hall)⟩
          · rw [PromptLogprobsWorker.assemble, if_pos hneeded, hbuffer]
            dsimp only
            rw [hfilled, ok_bind, if_neg hchunked, hnone]
  · refine ⟨before, results, ⟨?_, fun _ _ => ⟨rfl, rfl⟩⟩, ?_⟩
    · intro request hmem hneeds
      exact absurd (List.mem_singleton.mp hmem ▸ hneeds) hneeded
    · rw [PromptLogprobsWorker.assemble, if_neg hneeded]

/-- The buffers of a batch are filled independently of each other. -/
theorem assemble_eq (hnodup : (batch.map BatchRequest.reqId).Nodup) {startIdx : ℕ}
    {before : Dict String (Option (Tensors F))} {results : Dict String (Tensors F)}
    (hfill : ∀ earlier request later, batch = earlier ++ request :: later →
      worker.needsPromptLogprobs states request = true → ∃ buffer,
        before.get? request.reqId = some buffer ∧
          worker.fillBuffer states rows request (startIdx + scheduledTokens earlier) buffer =
            .ok (filled request)) :
    ∃ after final, worker.assemble states rows batch startIdx before results =
        .ok (after, final) ∧
      Assembled worker states filled batch before after results final := by
  induction batch generalizing startIdx before results with
  | nil => exact ⟨before, results, rfl, ⟨by rintro _ ⟨⟩, fun _ _ => ⟨rfl, rfl⟩⟩⟩
  | cons first batch ih =>
      rw [List.map_cons, List.nodup_cons] at hnodup
      obtain ⟨middle, halfway, hfirst, hstep⟩ : ∃ middle halfway,
          Assembled worker states filled [first] before middle results halfway ∧
            worker.assemble states rows (first :: batch) startIdx before results =
              worker.assemble states rows batch (startIdx + first.numScheduledTokens) middle
                halfway :=
        assemble_first (hfill [] first batch rfl)
      obtain ⟨after, final, hrun, hrest⟩ := @ih hnodup.2
        (startIdx + first.numScheduledTokens) middle halfway (by
          intro earlier request later hsplit hneeded
          obtain ⟨buffer, hbuffer, hfilled⟩ :=
            hfill (first :: earlier) request later (by rw [hsplit]; rfl) hneeded
          refine ⟨buffer, ?_, ?_⟩
          · have hother : first.reqId ≠ request.reqId := by
              intro heq
              apply hnodup.1
              rw [heq, hsplit]
              exact List.mem_map_of_mem (List.mem_append_right _ List.mem_cons_self)
            rw [(hfirst.not_mem request.reqId fun other hmem _ =>
              List.mem_singleton.mp hmem ▸ hother).1]
            exact hbuffer
          · rw [Nat.add_assoc]
            exact hfilled)
      exact ⟨after, final, hstep.trans hrun, hfirst.cons hnodup.1 hrest⟩

end Assemble

/-! ## What a step is given -/

/-- A request that the worker holds: its place in the tables, how many tokens are to be
prefilled and how many are computed. -/
structure Admission where
  reqIdx : ℕ
  prefillLen : ℕ
  computed : ℕ

/-- A request of a step and the hidden states of its tokens. -/
structure Turn (H : Type) where
  request : BatchRequest
  hiddenStates : List H
  /-- how many of the tokens stay -/
  advance : ℕ

/-- The turn computes the next tokens of a request that the worker holds. -/
structure Presents (prompt : Prompt H) (admission : Admission) (turn : Turn H) : Prop where
  reqIdx : turn.request.reqIdx = admission.reqIdx
  prefillLen : turn.request.prefillLen = admission.prefillLen
  computed : turn.request.numComputedPrefillTokens = min admission.computed admission.prefillLen
  scheduled : turn.request.numScheduledTokens = turn.hiddenStates.length
  scheduled_pos : 0 < turn.request.numScheduledTokens
  prefill : admission.computed < admission.prefillLen →
    admission.computed + turn.request.numScheduledTokens ≤ admission.prefillLen ∧
      turn.advance = turn.request.numScheduledTokens
  hidden : admission.prefillLen = prompt.length → ∀ index < turn.request.numScheduledTokens,
    admission.computed + index < prompt.length →
      turn.hiddenStates[index]? = some (prompt.hidden (admission.computed + index))

/-- The tables have the prompt and the computed tokens of the request. -/
structure Agrees (states : RequestStates) (prompt : Prompt H) (admission : Admission) :
    Prop where
  promptLen : states.promptLen admission.reqIdx = prompt.length
  numComputed : states.numComputedTokens admission.reqIdx = admission.computed
  tokenIds : ∀ position < prompt.length,
    (states.allTokenIds admission.reqIdx).getD position 0 = prompt.tokenIds.getD position 0

def batchOf (turns : List (Turn H)) : List BatchRequest := turns.map Turn.request

section Turns

variable {prompt : Prompt H} {admission : Admission} {turn : Turn H} {turns : List (Turn H)}
  {states : RequestStates} {worker : PromptLogprobsWorker F}

theorem getElem?_flatMap_split {A B : Type*} {items earlier later : List A} {item : A}
    (function : A → List B) (hsplit : items = earlier ++ item :: later) {index : ℕ}
    (hindex : index < (function item).length) :
    (items.flatMap function)[(earlier.flatMap function).length + index]? =
      (function item)[index]? := by
  rw [hsplit, List.flatMap_append, List.flatMap_cons,
    List.getElem?_append_right (Nat.le_add_right _ _), Nat.add_sub_cancel_left,
    List.getElem?_append_left hindex]

theorem length_hiddenStates
    (hscheduled : ∀ turn ∈ turns, turn.request.numScheduledTokens = turn.hiddenStates.length) :
    (turns.flatMap Turn.hiddenStates).length = scheduledTokens (batchOf turns) := by
  rw [List.length_flatMap, scheduledTokens, batchOf, List.map_map]
  exact congrArg List.sum (List.map_congr_left fun turn hturn => (hscheduled turn hturn).symm)

theorem length_promptTokens (states : RequestStates) (batch : List BatchRequest) :
    (getPromptLogprobsTokenIds states batch).length = scheduledTokens batch := by
  rw [getPromptLogprobsTokenIds, List.length_flatMap, scheduledTokens]
  congr 1
  apply List.map_congr_left
  intro request _
  rw [List.length_map, List.length_range]

/-- The token after a position of a prompt is the one that the position is scored with. -/
theorem getElem?_promptTokens (hpresents : Presents prompt admission turn)
    (hagrees : Agrees states prompt admission) {earlier later : List (Turn H)}
    (hsplit : turns = earlier ++ turn :: later) {index : ℕ}
    (hindex : index < turn.request.numScheduledTokens)
    (hinside : admission.computed + index + 1 < prompt.length) :
    (getPromptLogprobsTokenIds states (batchOf turns))[
        scheduledTokens (batchOf earlier) + index]? =
      some (prompt.tokenIds.getD (admission.computed + index + 1) 0) := by
  have hbatch : batchOf turns = batchOf earlier ++ turn.request :: batchOf later := by
    rw [hsplit, batchOf, List.map_append]
    rfl
  rw [← length_promptTokens states, getPromptLogprobsTokenIds,
    getPromptLogprobsTokenIds, getElem?_flatMap_split _ hbatch
      (by rw [List.length_map, List.length_range]; exact hindex),
    List.getElem?_map, List.getElem?_range hindex, hpresents.reqIdx, hagrees.numComputed,
    Option.map_some, ← hagrees.tokenIds _ hinside]
  congr 2
  omega

theorem Presents.computed_of_lt (hpresents : Presents prompt admission turn)
    (hlong : prompt.length ≤ admission.prefillLen) (hlt : admission.computed < prompt.length) :
    turn.request.numComputedPrefillTokens = admission.computed := by
  rw [hpresents.computed]
  exact min_eq_left (hlt.le.trans hlong)

/-- Which requests are scored: those in their prompt for the first time. -/
theorem needsPromptLogprobs_iff (hpresents : Presents prompt admission turn)
    (hagrees : Agrees states prompt admission)
    (huses : worker.usesPromptLogprobs admission.reqIdx = prompt.number.isSome)
    (hlong : prompt.length ≤ admission.prefillLen) :
    worker.needsPromptLogprobs states turn.request = true ↔
      prompt.number.isSome = true ∧ admission.prefillLen = prompt.length ∧
        admission.computed < prompt.length := by
  rw [PromptLogprobsWorker.needsPromptLogprobs, hpresents.reqIdx, huses, hagrees.promptLen,
    hpresents.prefillLen, hpresents.computed]
  simp only [Bool.and_eq_true, Bool.not_eq_true', decide_eq_true_eq, decide_eq_false_iff_not]
  constructor
  · rintro ⟨hnumber, hlt, hle⟩
    exact ⟨hnumber, by omega, by omega⟩
  · rintro ⟨hnumber, hprefill, hlt⟩
    exact ⟨hnumber, by omega, by omega⟩

theorem capturePlan_off {environment : Environment}
    (hoff : environment.captureDir = false) (states : RequestStates)
    (batch : List BatchRequest) : worker.capturePlan environment states batch = .ok none := by
  have hnone : environment.shouldCaptureKldBatch (batch.map BatchRequest.reqId) = false := by
    rw [Environment.shouldCaptureKldBatch, hoff, Bool.false_and]
  rw [PromptLogprobsWorker.capturePlan.eq_def, hnone]
  rfl

end Turns

end GlmFlash.Worker.PromptLogprobs
