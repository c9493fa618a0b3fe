import GlmFlash.Worker.TokenRows
import Mathlib.Data.List.GetD
import Mathlib.Tactic.Ring

/-!
# The inputs of a step

What `prepare_inputs` makes of a batch, first in terms of the rows of the
request states and then in terms of the references.
-/

namespace GlmFlash.Worker.ModelRunner

open GlmFlash.Library

variable {R : Type} [DecidableEq R] {config : Config} {device : Device}
  {states : RequestStates R} {references : References R}
  {output : SchedulerOutput R} {sampled : SamplerOutput}
  {drafts : DraftTokens} {rows : List ℕ}

/-- The kernels have run on the rows of the batch. -/
structure Prepared (config : Config) (states : RequestStates R)
    (output : SchedulerOutput R) (rows : List ℕ) (prefill : PrefillInputs)
    (next : RequestStates R) (batch : InputBatch) : Prop where
  numReqs : batch.numReqs = output.numScheduledTokens.length
  idxMapping : batch.idxMapping = ofList rows
  queryStartLoc : batch.queryStartLoc = queryStartLoc output
  cuNumLogits : batch.cuNumLogits = cuNumLogits config output
  reqStates : next =
    { states with nextPrefillTokens := prefill.nextPrefillTokens }
  prefilled : ∀ row, row < output.numScheduledTokens.length →
    PrefillRow config.maxNumReqs config.numLookahead (ofList rows)
      (ModelRunner.queryStartLoc output) states.allTokenIds config.maxModelLen
      states.prefillLen states.numComputedTokens row prefill
  kept : ∀ column : ℕ, column < config.maxNumReqs →
    (∀ row : ℕ, row < output.numScheduledTokens.length →
      ofList rows row = column →
        states.prefillLen column ≤ states.numComputedTokens column) →
    ∀ lookahead : ℕ,
      prefill.nextPrefillTokens (lookahead * config.maxNumReqs + column) =
        states.nextPrefillTokens (lookahead * config.maxNumReqs + column)
  positions : ∀ row, row < output.numScheduledTokens.length →
    PositionRow (ofList rows) (ModelRunner.queryStartLoc output)
      states.numComputedTokens row
      { pos := batch.positions, seqLens := batch.seqLens }
  combined : ∀ row, row < output.numScheduledTokens.length →
    CombinedRow (ofList rows) states.lastSampledTokens
      (ModelRunner.queryStartLoc output) batch.seqLens states.prefillLen
      states.draftTokens (ModelRunner.cuNumLogits config output)
      prefill.inputIds config.numSpeculativeSteps row
      { inputIds := batch.inputIds, logitsIndices := batch.logitsIndices }

theorem Legal.sum_pos (hlegal : references.Legal config output sampled drafts) :
    0 < (output.numScheduledTokens.map Prod.snd).sum := by
  obtain ⟨⟨reqId, queryLen⟩, rest, hcons⟩ :=
    List.exists_cons_of_ne_nil hlegal.nonempty
  have hfirst : output.numScheduledTokens[0]? = some (reqId, queryLen) := by
    rw [hcons]
    rfl
  obtain ⟨reference, -, hscheduled, -⟩ := hlegal.scheduled 0 _ _ hfirst
  have hpos := hscheduled.pos
  rw [hcons, List.map_cons, List.sum_cons]
  omega

omit [DecidableEq R] in
/-- The host launches the prefill kernel whenever a row needs it. -/
theorem Represents.hasPrefill (hrep : Represents config states references)
    (hhost : ∀ index, states.numComputedPrefillTokens index =
      min (states.numComputedTokensNp index) (states.prefillLen index))
    (hrows : BatchIndex states output rows) {row : ℕ}
    (hrow : row < output.numScheduledTokens.length)
    (hprefill : states.numComputedTokens (ofList rows row) <
      states.prefillLen (ofList rows row)) :
    states.hasPrefill rows = true := by
  obtain ⟨index, hindex, hslot⟩ :=
    hrows.row row _ _ (List.getElem?_eq_getElem hrow)
  obtain ⟨reference, -, htracks⟩ := hrep.tracks _ index hslot
  rw [ofList_apply hindex, htracks.prefillLen, htracks.numComputedTokens,
    Int.ofNat_lt] at hprefill
  have hlt := htracks.host hprefill
  rw [RequestStates.hasPrefill, List.any_eq_true]
  refine ⟨index, List.mem_of_getElem? hindex, ?_⟩
  rw [decide_eq_true_eq, hhost, htracks.prefillLen]
  omega

theorem Represents.prepareInputs {runner : GPUModelRunner R}
    (hbonus : config.numNewSampledTokensPerStep = 1)
    (hrep : Represents config runner.reqStates references)
    (hhost : ∀ index, runner.reqStates.numComputedPrefillTokens index =
      min (runner.reqStates.numComputedTokensNp index)
        (runner.reqStates.prefillLen index))
    (hlegal : references.Legal config output sampled drafts) :
    ∃ next batch rows prefill,
      runner.prepareInputs config device output = .ok (next, batch) ∧
      BatchIndex runner.reqStates output rows ∧
      Prepared config runner.reqStates output rows prefill next.reqStates
        batch := by
  obtain ⟨rows, hindex⟩ := hrep.batchIndex hlegal
  have hrows := hindex.batchRows hrep hlegal.nodup
  have hstarts : Consecutive (queryStartLoc output)
      output.numScheduledTokens.length := consecutive_queryStartLoc
  have hsum := Legal.sum_pos hlegal
  have hone : config.numNewSampledTokensPerStep ∈ [0, 1] := by
    rw [hbonus]
    decide
  let states := runner.reqStates
  let numReqs := output.numScheduledTokens.length
  let before : PrefillInputs :=
    { inputIds := runner.inputBuffers.inputIds
      nextPrefillTokens := states.nextPrefillTokens }
  let prefill :=
    if states.hasPrefill rows then
      preparePrefillInputs device numReqs config.numLookahead
        config.maxNumReqs (ofList rows) (queryStartLoc output)
        states.allTokenIds config.maxModelLen states.prefillLen
        states.numComputedTokens before
    else before
  let positions := preparePosSeqLens device numReqs config.maxNumReqs
    (ofList rows) (queryStartLoc output) states.numComputedTokens
    { pos := runner.inputBuffers.positions
      seqLens := runner.inputBuffers.seqLens }
  let combined := combineSampledAndDraftTokens device numReqs
    config.numSpeculativeSteps prefill.inputIds (ofList rows)
    states.lastSampledTokens (queryStartLoc output) positions.seqLens
    states.prefillLen states.draftTokens config.numSpeculativeSteps
    (cuNumLogits config output) config.numNewSampledTokensPerStep
  let next : GPUModelRunner R :=
    { runner with
      reqStates := { states with
        nextPrefillTokens := prefill.nextPrefillTokens }
      inputBuffers :=
        { inputIds := combined.inputIds
          positions := positions.pos
          queryStartLoc := queryStartLoc output
          seqLens := positions.seqLens } }
  let batch : InputBatch :=
    { numReqs
      idxMapping := ofList rows
      queryStartLoc := queryStartLoc output
      seqLens := positions.seqLens
      inputIds := combined.inputIds
      positions := positions.pos
      logitsIndices := combined.logitsIndices
      cuNumLogits := cuNumLogits config output }
  refine ⟨next, batch, rows, prefill, ?_, hindex, rfl, rfl, rfl, rfl, rfl,
    ?_, ?_, ?_, ?_⟩
  · rw [GPUModelRunner.prepareInputs]
    simp only [hindex.lookup, require, if_pos hsum, if_pos hone]
    rfl
  · intro row hrow hprefill
    have hlaunch : states.hasPrefill rows = true :=
      hrep.hasPrefill hhost hindex hrow hprefill
    have heq : prefill = preparePrefillInputs device numReqs
        config.numLookahead config.maxNumReqs (ofList rows)
        (queryStartLoc output) states.allTokenIds config.maxModelLen
        states.prefillLen states.numComputedTokens before := if_pos hlaunch
    rw [heq]
    exact preparePrefillInputs_row hrows hstarts hrow hprefill
  · intro column hcolumn hapart lookahead
    change (if states.hasPrefill rows then _ else before).nextPrefillTokens _ = _
    split
    · exact preparePrefillInputs_nextPrefillTokens hrows
        (Int.natCast_nonneg column) (Int.ofNat_lt.mpr hcolumn) hapart
        lookahead
    · rfl
  · intro row hrow
    exact preparePosSeqLens_row hstarts hrow
  · intro row hrow
    have heq : combined = combineSampledAndDraftTokens device numReqs
        config.numSpeculativeSteps prefill.inputIds (ofList rows)
        states.lastSampledTokens (queryStartLoc output) positions.seqLens
        states.prefillLen states.draftTokens config.numSpeculativeSteps
        (cuNumLogits config output) 1 := by
      rw [← hbonus]
    have hdone : CombinedRow (ofList rows) states.lastSampledTokens
        (queryStartLoc output) positions.seqLens states.prefillLen
        states.draftTokens (cuNumLogits config output) prefill.inputIds
        config.numSpeculativeSteps row combined := by
      rw [heq]
      exact combineSampledAndDraftTokens_row hstarts
        (logitRows hbonus hrep hlegal) hrow
    exact hdone

/-! ## The inputs of one request -/

/-- The batch feeds a request what its reference says. -/
structure ExactRow (config : Config) (reference : Reference)
    (queryLen numDrafts row index : ℕ) (states : RequestStates R)
    (batch : InputBatch) : Prop where
  idxMapping : batch.idxMapping row = index
  queryEnd : batch.queryStartLoc (row + 1) =
    batch.queryStartLoc row + queryLen
  slots : (List.range queryLen).map (fun slot : ℕ =>
      batch.inputIds (batch.queryStartLoc row + slot)) =
    reference.slots queryLen numDrafts
  positions : ∀ slot : ℕ, slot < queryLen →
    batch.positions (batch.queryStartLoc row + slot) =
      reference.computed + slot
  seqLen : batch.seqLens row = reference.computed + queryLen
  logitsEnd : batch.cuNumLogits (row + 1) =
    batch.cuNumLogits row + (numDrafts + 1)
  logits : ∀ logit : ℕ, logit < numDrafts + 1 →
    batch.logitsIndices (batch.cuNumLogits row + logit) =
      batch.queryStartLoc row + (queryLen - (numDrafts + 1)) + logit
  following : ∀ lookahead : ℕ, lookahead < config.numLookahead →
    states.nextPrefillTokens (lookahead * config.maxNumReqs + index) =
      reference.following queryLen lookahead

section Row

variable {prefill : PrefillInputs} {next : RequestStates R}
  {batch : InputBatch} {row index queryLen : ℕ} {reqId : R}
  {reference : Reference}

section Scheduled

variable (hprepared : Prepared config states output rows prefill next batch)
  (hrow : output.numScheduledTokens[row]? = some (reqId, queryLen))
  (hindex : rows[row]? = some index) (htracks : Tracks config states index reference)
include hprepared hrow hindex htracks

/-- A row of the batch that still prefills has its prompt tokens. -/
theorem Prepared.prefill_slot (hprefill : reference.computed < reference.numPrefill)
    {slot : ℕ} (hslot : slot < queryLen)
    (hlt : reference.computed + slot < reference.tokens.length) :
    prefill.inputIds (ModelRunner.queryStartLoc output row + slot) =
      reference.tokens.getD (reference.computed + slot) 0 := by
  have hrowLt : row < output.numScheduledTokens.length :=
    (List.getElem?_eq_some_iff.mp hrow).1
  have hloc := queryStartLoc_succ hrow
  have hdone := hprepared.prefilled row hrowLt
  rw [PrefillRow, ofList_apply hindex, htracks.prefillLen,
    htracks.numComputedTokens] at hdone
  have htoken := (hdone (Int.ofNat_lt.mpr hprefill)).1 slot (by omega)
  rw [htoken, ← htracks.allTokenIds _ hlt, Nat.cast_add, add_assoc]

/-- The token of a slot: of the prompt, sampled last, or a draft. -/
theorem Prepared.inputIds_slot (hbonus : config.numNewSampledTokensPerStep = 1)
    (hscheduled : reference.Scheduled config queryLen
      (output.numDraftTokens reqId))
    {slot : ℕ} (hslot : slot < queryLen) :
    batch.inputIds (batch.queryStartLoc row + slot) =
      (reference.tokens ++
        reference.drafts.take (output.numDraftTokens reqId)).getD
          (reference.computed + slot) 0 := by
  have hlt : row < output.numScheduledTokens.length :=
    (List.getElem?_eq_some_iff.mp hrow).1
  have hloc := queryStartLoc_succ hrow
  have hcu := cuNumLogits_succ hbonus hrow
  have hinput : batch.inputIds (ModelRunner.queryStartLoc output row + slot) = _ :=
    (hprepared.combined row hlt).1 slot (by omega)
  have hseq : batch.seqLens row = _ := (hprepared.positions row hlt).1
  have hcomputed := htracks.computed_lt
  have hwith := hscheduled.with_drafts
  have hwithout := hscheduled.without_drafts
  have hdrafts := hscheduled.le_drafts
  rw [hprepared.queryStartLoc, hinput, combinedToken, hseq, hloc, hcu,
    ofList_apply hindex, htracks.prefillLen, htracks.numComputedTokens]
  generalize hk : output.numDraftTokens reqId = numDrafts at *
  have hprompt : reference.computed + slot < reference.tokens.length →
      (reference.tokens ++ reference.drafts.take numDrafts).getD
        (reference.computed + slot) 0 =
      reference.tokens.getD (reference.computed + slot) 0 :=
    fun hpos => List.getD_append _ _ _ _ hpos
  by_cases hend : reference.computed + queryLen ≤ reference.numPrefill
  · have hprefill : reference.computed < reference.numPrefill := by omega
    have hlength := htracks.prefilling hprefill
    rw [if_pos (by omega), hprompt (by omega)]
    exact hprepared.prefill_slot hrow hindex htracks hprefill hslot (by omega)
  · rw [if_neg (by omega)]
    by_cases hdraft : queryLen ≤ slot + numDrafts
    · -- The drafts follow the accepted tokens.
      have hpos : 0 < numDrafts := by omega
      have htotal := hwith hpos
      obtain ⟨column, hcolumn⟩ : ∃ column, slot + numDrafts =
          queryLen + column := ⟨_, (Nat.add_sub_of_le hdraft).symm⟩
      have hcolumnLt : column < numDrafts := by omega
      have hoffset : (slot : ℤ) - (queryLen - numDrafts) = column := by omega
      have hposition : reference.computed + slot =
          reference.tokens.length + column := by omega
      have hsize : (ModelRunner.queryStartLoc output row + queryLen -
            ModelRunner.queryStartLoc output row -
              (ModelRunner.cuNumLogits config output row + (numDrafts + 1) -
                ModelRunner.cuNumLogits config output row - 1) : ℤ) =
          queryLen - numDrafts := by ring
      rw [if_pos (by omega), hsize, hoffset,
        htracks.draftTokens column (by omega), hposition,
        List.getD_append_right _ _ _ _ (Nat.le_add_right _ _),
        Nat.add_sub_cancel_left, List.getD_eq_getElem?_getD,
        List.getD_eq_getElem?_getD, List.getElem?_take_of_lt hcolumnLt]
    · rw [if_neg (by omega)]
      rcases Nat.lt_or_ge reference.computed reference.numPrefill with
        hprefill | hdecode
      · have hlength := htracks.prefilling hprefill
        rw [if_neg (by omega), hprompt (by omega)]
        exact hprepared.prefill_slot hrow hindex htracks hprefill hslot
          (by omega)
      · -- Only the token sampled last is not computed yet.
        have hlength := htracks.decoding hdecode
        have hfirst : slot = 0 := by omega
        rw [if_pos (by omega), hprompt (by omega), hfirst, Nat.add_zero]
        exact htracks.lastSampled hdecode

/-- A request's slots are the tokens not computed yet and its drafts. -/
theorem Prepared.slots (hbonus : config.numNewSampledTokensPerStep = 1)
    (hscheduled : reference.Scheduled config queryLen
      (output.numDraftTokens reqId)) :
    (List.range queryLen).map (fun slot : ℕ =>
        batch.inputIds (batch.queryStartLoc row + slot)) =
      reference.slots queryLen (output.numDraftTokens reqId) := by
  have hfits : reference.computed + queryLen ≤ (reference.tokens ++
      reference.drafts.take (output.numDraftTokens reqId)).length := by
    have hwith := hscheduled.with_drafts
    have hwithout := hscheduled.without_drafts
    have hdrafts := hscheduled.le_drafts
    rw [List.length_append, List.length_take]
    omega
  apply List.ext_getElem
  · rw [List.length_map, List.length_range, Reference.slots, List.length_take,
      List.length_drop]
    omega
  · intro slot hslot hslot'
    rw [List.length_map, List.length_range] at hslot
    rw [List.getElem_map, List.getElem_range, hprepared.inputIds_slot hrow
      hindex htracks hbonus hscheduled hslot]
    simp only [Reference.slots, List.getElem_take, List.getElem_drop]
    exact List.getD_eq_getElem _ _ (by omega)

/-- The prefill tokens after the chunk, kept at zero once there are none. -/
theorem Prepared.following {lookahead : ℕ}
    (hlookahead : lookahead < config.numLookahead) :
    next.nextPrefillTokens (lookahead * config.maxNumReqs + index) =
      reference.following queryLen lookahead := by
  have hlt : row < output.numScheduledTokens.length :=
    (List.getElem?_eq_some_iff.mp hrow).1
  have hloc := queryStartLoc_succ hrow
  have hslot : ofList rows row = index := ofList_apply hindex
  have hend : ∀ position, reference.numPrefill ≤ position →
      (reference.tokens.take reference.numPrefill).getD position 0 = 0 := by
    intro position hle
    apply List.getD_eq_default
    rw [List.length_take]
    omega
  rw [hprepared.reqStates, Reference.following]
  change prefill.nextPrefillTokens _ = _
  rcases Nat.lt_or_ge reference.computed reference.numPrefill with
    hprefill | hdecode
  · have hlength := htracks.prefilling hprefill
    have hdone := hprepared.prefilled row hlt
    rw [PrefillRow, hslot, htracks.prefillLen, htracks.numComputedTokens,
      hloc] at hdone
    have htoken := (hdone (Int.ofNat_lt.mpr hprefill)).2 lookahead hlookahead
    rw [htoken]
    by_cases hmore : reference.computed + queryLen + lookahead <
        reference.numPrefill
    · have hpos : reference.computed + queryLen + lookahead <
          reference.tokens.length := by omega
      rw [if_pos (by omega), List.take_of_length_le hlength.le,
        ← htracks.allTokenIds _ hpos]
      congr 2
      push_cast
      ring
    · rw [if_neg (by omega), hend _ (by omega)]
  · have hkept := hprepared.kept index htracks.index_lt (by
      intro _ _ _
      rw [htracks.prefillLen, htracks.numComputedTokens]
      exact Int.ofNat_le.mpr hdecode) lookahead
    rw [hend _ (by omega)]
    exact hkept.trans (htracks.prefilled hdecode lookahead hlookahead)

theorem Prepared.exactRow (hbonus : config.numNewSampledTokensPerStep = 1)
    (hscheduled : reference.Scheduled config queryLen
      (output.numDraftTokens reqId)) :
    ExactRow config reference queryLen (output.numDraftTokens reqId) row index
      next batch := by
  have hlt : row < output.numScheduledTokens.length :=
    (List.getElem?_eq_some_iff.mp hrow).1
  have hloc := queryStartLoc_succ hrow
  have hcu := cuNumLogits_succ hbonus hrow
  have hpositions := hprepared.positions row hlt
  rw [PositionRow, ofList_apply hindex, htracks.numComputedTokens, hloc]
    at hpositions
  have hlogits := (hprepared.combined row hlt).2
  constructor
  · rw [hprepared.idxMapping, ofList_apply hindex]
  · rw [hprepared.queryStartLoc, hloc]
  · exact hprepared.slots hrow hindex htracks hbonus hscheduled
  · intro slot hslot
    rw [hprepared.queryStartLoc]
    exact hpositions.2 slot (by omega)
  · refine hpositions.1.trans ?_
    ring
  · rw [hprepared.cuNumLogits, hcu]
  · intro logit hlogit
    rw [hprepared.cuNumLogits, hprepared.queryStartLoc]
    refine (hlogits logit (by omega)).trans ?_
    rw [hloc, hcu]
    ring
  · intro lookahead hlookahead
    exact hprepared.following hrow hindex htracks hlookahead

end Scheduled

end Row

end GlmFlash.Worker.ModelRunner
