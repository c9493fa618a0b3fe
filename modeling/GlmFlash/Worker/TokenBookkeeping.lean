import GlmFlash.Worker.TokenInputs

/-!
# The token bookkeeping is exact

After sampling, the rows of the batch hold the references that the step leads
to and the other rows are kept.  So over every run the rows represent the
references, and every batch feeds exactly what they say.
-/

namespace GlmFlash.Worker.ModelRunner

open GlmFlash.Library

variable {R : Type} [DecidableEq R] {config : Config} {device : Device}
  {references : References R} {output : SchedulerOutput R}
  {sampled : SamplerOutput} {drafts : DraftTokens} {rows : List ℕ}

def GPUModelRunner.sequences (runner : GPUModelRunner R) : SequenceState where
  numComputedTokens := runner.reqStates.numComputedTokens
  lastSampledTokens := runner.reqStates.lastSampledTokens
  outputBinCounts := runner.outputBinCounts
  allTokenIds := runner.reqStates.allTokenIds
  totalLen := runner.reqStates.totalLen

/-! ## Drafts -/

section Drafts

variable {states : RequestStates R} {batch : InputBatch}

/-- The proposed drafts take the place of the first ones of a row. -/
def DraftRow (config : Config) (drafts : DraftTokens) (index : ℤ) (row : ℕ)
    (before after : Tensor) : Prop :=
  ∀ column : ℕ, column < config.numSpeculativeSteps →
    after (index * config.numSpeculativeSteps + column) =
      if column < drafts.numDraftTokens then
        drafts.ids (row * drafts.numDraftTokens + column)
      else before (index * config.numSpeculativeSteps + column)

/-- Storing the drafts of one row. -/
def putRow (config : Config) (drafts : DraftTokens) (idxMapping : Tensor)
    (row : ℕ) (tensor : Tensor) : Tensor :=
  storeLanes tensor (List.range drafts.numDraftTokens)
    (fun column => idxMapping row * config.numSpeculativeSteps + column)
    fun column => drafts.ids (row * drafts.numDraftTokens + column)

theorem putRow_self {idxMapping tensor : Tensor} {row : ℕ} :
    DraftRow config drafts (idxMapping row) row tensor
      (putRow config drafts idxMapping row tensor) := by
  intro column hcolumn
  by_cases hnew : column < drafts.numDraftTokens
  · have hinj : Function.Injective fun column : ℕ =>
        idxMapping row * config.numSpeculativeSteps + (column : ℤ) := by
      intro left right heq
      exact Int.ofNat_inj.mp (Int.add_left_cancel heq)
    rw [if_pos hnew]
    exact storeLanes_apply hinj (List.mem_range.mpr hnew)
  · rw [if_neg hnew]
    apply storeLanes_of_ne
    intro lane hlane heq
    rw [List.mem_range] at hlane
    omega

theorem putRow_other {idxMapping tensor : Tensor} {row column : ℕ}
    (hsteps : drafts.numDraftTokens ≤ config.numSpeculativeSteps) {index : ℤ}
    (hne : index ≠ idxMapping row)
    (hcolumn : column < config.numSpeculativeSteps) :
    putRow config drafts idxMapping row tensor
        (index * config.numSpeculativeSteps + column) =
      tensor (index * config.numSpeculativeSteps + column) := by
  apply storeLanes_of_ne
  intro lane hlane heq
  rw [List.mem_range] at hlane
  exact hne (row_add_inj (by omega) (by omega) (by omega) (by omega) heq).1

omit [DecidableEq R] in
theorem putDraftTokens_row {maxNumReqs row : ℕ}
    (hrows : BatchRows batch.idxMapping batch.numReqs maxNumReqs)
    (hsteps : drafts.numDraftTokens ≤ config.numSpeculativeSteps)
    (hrow : row < batch.numReqs) :
    DraftRow config drafts (batch.idxMapping row) row states.draftTokens
      (states.putDraftTokens config batch drafts).draftTokens := by
  refine @launch_establishes _ (List.range batch.numReqs)
    (putRow config drafts batch.idxMapping)
    (fun row tensor => ∀ column : ℕ, column < config.numSpeculativeSteps →
      tensor (batch.idxMapping row * config.numSpeculativeSteps + column) =
        states.draftTokens
          (batch.idxMapping row * config.numSpeculativeSteps + column))
    (fun row => DraftRow config drafts (batch.idxMapping row) row
      states.draftTokens)
    List.nodup_range ?_ ?_ ?_ _ (fun _ _ _ _ => rfl) row
    (List.mem_range.mpr hrow)
  · intro index hindex other hother hne tensor _ hfresh column hcolumn
    rw [← hfresh column hcolumn]
    exact putRow_other hsteps (hrows.ne (List.mem_range.mp hother)
      (List.mem_range.mp hindex) hne) hcolumn
  · intro index hindex other hother hne tensor _ hdone column hcolumn
    rw [← hdone column hcolumn]
    exact putRow_other hsteps (hrows.ne (List.mem_range.mp hother)
      (List.mem_range.mp hindex) hne) hcolumn
  · intro index hindex tensor hfresh column hcolumn
    rw [← hfresh column hcolumn]
    exact putRow_self column hcolumn

omit [DecidableEq R] in
theorem putDraftTokens_other {index : ℤ} {column : ℕ}
    (hsteps : drafts.numDraftTokens ≤ config.numSpeculativeSteps)
    (hout : ∀ row : ℕ, row < batch.numReqs → index ≠ batch.idxMapping row)
    (hcolumn : column < config.numSpeculativeSteps) :
    (states.putDraftTokens config batch drafts).draftTokens
        (index * config.numSpeculativeSteps + column) =
      states.draftTokens (index * config.numSpeculativeSteps + column) := by
  refine @launch_keeps _ (List.range batch.numReqs)
    (putRow config drafts batch.idxMapping) (fun _ _ => True)
    (fun tensor => tensor (index * config.numSpeculativeSteps + column) =
      states.draftTokens (index * config.numSpeculativeSteps + column))
    List.nodup_range (fun _ _ _ _ _ _ _ _ => trivial) ?_ _
    (fun _ _ => trivial) rfl
  intro row hrow tensor _ hkept
  rw [← hkept]
  exact putRow_other hsteps (hout row (List.mem_range.mp hrow)) hcolumn

end Drafts

/-! ## The rows after sampling -/

/-- The rows that the kernels leave, in terms of those before. -/
structure Finished (config : Config) (output : SchedulerOutput R)
    (rows : List ℕ) (sampled : SamplerOutput) (drafts : DraftTokens)
    (counts : SampleCounts) (runner after : GPUModelRunner R) : Prop where
  reqIdToIndex : after.reqStates.reqIdToIndex = runner.reqStates.reqIdToIndex
  prefillLen : after.reqStates.prefillLen = runner.reqStates.prefillLen
  numComputedTokensNp :
    after.reqStates.numComputedTokensNp = runner.reqStates.numComputedTokensNp
  nextPrefillTokens :
    after.reqStates.nextPrefillTokens = runner.reqStates.nextPrefillTokens
  updated : ∀ row, row < output.numScheduledTokens.length →
    UpdatedSequence (ofList rows) sampled.sampledTokenIds
      sampled.sampledTokenIdsStride counts.numSampled counts.numRejected
      (queryStartLoc output) config.maxModelLen runner.sequences row
      after.sequences
  drafted : ∀ row, row < output.numScheduledTokens.length →
    DraftRow config drafts (ofList rows row) row runner.reqStates.draftTokens
      after.reqStates.draftTokens
  kept : ∀ index : ℕ, (∀ row : ℕ, row < output.numScheduledTokens.length →
      (index : ℤ) ≠ ofList rows row) →
    SameSequence config.maxModelLen index runner.sequences after.sequences ∧
      ∀ column : ℕ, column < config.numSpeculativeSteps →
        after.reqStates.draftTokens
            (index * config.numSpeculativeSteps + column) =
          runner.reqStates.draftTokens
            (index * config.numSpeculativeSteps + column)

section Finished

variable {states : RequestStates R} {prefill : PrefillInputs}
  {runner : GPUModelRunner R} {batch : InputBatch}

omit [DecidableEq R] in
theorem sampleTokens_draftTokens_of_pos (hsome : 0 < drafts.numDraftTokens) :
    (runner.sampleTokens config device batch sampled
        drafts).reqStates.draftTokens =
      (runner.reqStates.putDraftTokens config batch drafts).draftTokens := by
  rw [GPUModelRunner.sampleTokens]
  simp only [if_pos hsome]
  rfl

omit [DecidableEq R] in
theorem sampleTokens_draftTokens_of_zero (hnone : ¬0 < drafts.numDraftTokens) :
    (runner.sampleTokens config device batch sampled
        drafts).reqStates.draftTokens = runner.reqStates.draftTokens := by
  rw [GPUModelRunner.sampleTokens]
  simp only [if_neg hnone]
  rfl

omit [DecidableEq R] in
theorem sampleTokens_sequences :
    (runner.sampleTokens config device batch sampled drafts).sequences =
      postUpdate device batch.numReqs batch.idxMapping config.vocabSize
        sampled.sampledTokenIds sampled.sampledTokenIdsStride
        (runner.sampleCounts device batch sampled).numSampled
        (runner.sampleCounts device batch sampled).numRejected
        (some batch.queryStartLoc) config.maxModelLen runner.sequences := by
  rw [GPUModelRunner.sampleTokens]
  split
  · rfl
  · rfl

theorem Prepared.finished
    (hprepared : Prepared config states output rows prefill runner.reqStates
      batch)
    (hrows : BatchRows (ofList rows) output.numScheduledTokens.length
      config.maxNumReqs)
    (hsteps : drafts.numDraftTokens ≤ config.numSpeculativeSteps)
    (hfits : SampledFits (ofList rows)
      (runner.sampleCounts device batch sampled).numSampled
      config.maxModelLen output.numScheduledTokens.length runner.sequences) :
    Finished config output rows sampled drafts
      (runner.sampleCounts device batch sampled) runner
      (runner.sampleTokens config device batch sampled drafts) := by
  have hsequences : (runner.sampleTokens config device batch sampled
      drafts).sequences = _ := sampleTokens_sequences
  rw [hprepared.numReqs, hprepared.idxMapping, hprepared.queryStartLoc]
    at hsequences
  have hbatch : BatchRows batch.idxMapping batch.numReqs config.maxNumReqs := by
    rw [hprepared.numReqs, hprepared.idxMapping]
    exact hrows
  constructor
  · rw [GPUModelRunner.sampleTokens]
    split
    · rfl
    · rfl
  · rw [GPUModelRunner.sampleTokens]
    split
    · rfl
    · rfl
  · rw [GPUModelRunner.sampleTokens]
    split
    · rfl
    · rfl
  · rw [GPUModelRunner.sampleTokens]
    split
    · rfl
    · rfl
  · intro row hrow
    rw [hsequences]
    exact postUpdate_row hrows hfits hrow
  · intro row hrow
    by_cases hsome : 0 < drafts.numDraftTokens
    · rw [sampleTokens_draftTokens_of_pos hsome, ← hprepared.idxMapping]
      exact putDraftTokens_row hbatch hsteps (hprepared.numReqs ▸ hrow)
    · rw [sampleTokens_draftTokens_of_zero hsome]
      intro column _
      rw [if_neg (by omega)]
  · intro index hout
    constructor
    · rw [hsequences]
      exact postUpdate_other hrows hfits hout
    · intro column hcolumn
      by_cases hsome : 0 < drafts.numDraftTokens
      · rw [sampleTokens_draftTokens_of_pos hsome]
        apply putDraftTokens_other hsteps _ hcolumn
        rw [hprepared.numReqs, hprepared.idxMapping]
        exact hout
      · rw [sampleTokens_draftTokens_of_zero hsome]

variable {row index queryLen : ℕ} {reqId : R} {reference : Reference}

omit [DecidableEq R] in
theorem Tracks.numPrefill_le
    (htracks : Tracks config states index reference) :
    reference.numPrefill ≤ reference.tokens.length := by
  rcases Nat.lt_or_ge reference.computed reference.numPrefill with
    hprefill | hdecode
  · exact (htracks.prefilling hprefill).ge
  · rw [htracks.decoding hdecode]
    exact hdecode.trans (Nat.le_succ _)

omit [DecidableEq R] in
/-- The kernels' test for a chunk is the reference's. -/
theorem Tracks.reachesEnd_iff
    (htracks : Tracks config states index reference) (hpos : 0 < queryLen) :
    reference.ReachesEnd queryLen ↔
      ¬reference.computed + queryLen < reference.numPrefill := by
  rw [Reference.ReachesEnd]
  rcases Nat.lt_or_ge reference.computed reference.numPrefill with
    hprefill | hdecode
  · rw [htracks.prefilling hprefill, not_lt]
  · rw [htracks.decoding hdecode]
    omega

@[simp]
theorem SamplerOutput.length_row :
    (sampled.row row).length = (sampled.numSampled row).toNat := by
  rw [SamplerOutput.row, List.length_map, List.length_range]

@[simp]
theorem DraftTokens.length_row :
    (drafts.row row).length = drafts.numDraftTokens := by
  rw [DraftTokens.row, List.length_map, List.length_range]

theorem SamplerOutput.getD_row {i : ℕ} (hi : i < (sampled.row row).length) :
    (sampled.row row).getD i 0 =
      sampled.sampledTokenIds (row * sampled.sampledTokenIdsStride + i) := by
  rw [List.getD_eq_getElem _ _ hi]
  simp [SamplerOutput.row]

theorem DraftTokens.getD_row {i : ℕ} (hi : i < (drafts.row row).length) :
    (drafts.row row).getD i 0 =
      drafts.ids (row * drafts.numDraftTokens + i) := by
  rw [List.getD_eq_getElem _ _ hi]
  simp [DraftTokens.row]

theorem Prepared.counts
    (hprepared : Prepared config states output rows prefill runner.reqStates
      batch)
    (hbonus : config.numNewSampledTokensPerStep = 1)
    (hrow : output.numScheduledTokens[row]? = some (reqId, queryLen))
    (hindex : rows[row]? = some index)
    (htracks : Tracks config states index reference)
    (hscheduled : reference.Scheduled config queryLen
      (output.numDraftTokens reqId)) :
    (¬reference.ReachesEnd queryLen →
      (runner.sampleCounts device batch sampled).numSampled row = 0 ∧
        (runner.sampleCounts device batch sampled).numRejected row = 0) ∧
    (reference.ReachesEnd queryLen →
      reference.Sampled config (output.numDraftTokens reqId)
        (sampled.row row) →
      (runner.sampleCounts device batch sampled).numSampled row =
          (sampled.row row).length ∧
        (runner.sampleCounts device batch sampled).numRejected row =
          output.numDraftTokens reqId + 1 - (sampled.row row).length) := by
  have hlt : row < output.numScheduledTokens.length :=
    (List.getElem?_eq_some_iff.mp hrow).1
  have hseq : batch.seqLens row = _ := (hprepared.positions row hlt).1
  have hprefillLen : runner.reqStates.prefillLen = states.prefillLen := by
    rw [hprepared.reqStates]
  have hcounts := @getNumSampledAndRejected_row device batch.numReqs
    sampled.numSampled batch.seqLens batch.cuNumLogits batch.idxMapping
    runner.reqStates.prefillLen row (hprepared.numReqs ▸ hlt)
  rw [CountRow, hprefillLen, hprepared.idxMapping, hprepared.cuNumLogits,
    hseq, ofList_apply hindex, htracks.prefillLen, htracks.numComputedTokens,
    queryStartLoc_succ hrow, cuNumLogits_succ hbonus hrow] at hcounts
  rw [htracks.reachesEnd_iff hscheduled.pos]
  rw [GPUModelRunner.sampleCounts, hprefillLen, hprepared.idxMapping,
    hprepared.cuNumLogits]
  constructor
  · intro hchunk
    rw [not_not] at hchunk
    rw [hcounts.1, hcounts.2, if_pos (by omega), if_pos (by omega)]
    exact ⟨rfl, rfl⟩
  · intro hend hsampled
    have hpos := hsampled.pos
    rw [SamplerOutput.length_row] at hpos ⊢
    rw [hcounts.1, hcounts.2, if_neg (by omega), if_neg (by omega)]
    constructor
    · omega
    · omega

variable {counts : SampleCounts} {after : GPUModelRunner R}

/-- The row of a request after sampling, from the row before. -/
structure BookedRow (config : Config) (states after : RequestStates R)
    (index row : ℕ) (queryLen numSampled numRejected : ℤ)
    (sampled : SamplerOutput) : Prop where
  numComputedTokens : after.numComputedTokens index =
    states.numComputedTokens index + (queryLen - numRejected)
  lastSampledTokens : after.lastSampledTokens index =
    if 0 < numSampled then
      sampled.sampledTokenIds
        (row * sampled.sampledTokenIdsStride + numSampled - 1)
    else states.lastSampledTokens index
  totalLen : after.totalLen index = states.totalLen index + numSampled
  appended : ∀ i : ℕ, i < numSampled →
    after.allTokenIds (index * config.maxModelLen +
        (states.totalLen index + i)) =
      sampled.sampledTokenIds (row * sampled.sampledTokenIdsStride + i)
  kept : ∀ pos, 0 ≤ pos → pos < states.totalLen index →
    after.allTokenIds (index * config.maxModelLen + pos) =
      states.allTokenIds (index * config.maxModelLen + pos)

omit [DecidableEq R] in
theorem Finished.bookedRow
    (hfinished : Finished config output rows sampled drafts counts runner
      after)
    (hstates : runner.reqStates =
      { states with nextPrefillTokens := prefill.nextPrefillTokens })
    (hrow : output.numScheduledTokens[row]? = some (reqId, queryLen))
    (hindex : rows[row]? = some index) :
    BookedRow config states after.reqStates index row queryLen
      (counts.numSampled row) (counts.numRejected row) sampled := by
  have hlt : row < output.numScheduledTokens.length :=
    (List.getElem?_eq_some_iff.mp hrow).1
  have hupdated := hfinished.updated row hlt
  have hslot := ofList_apply hindex
  rw [GPUModelRunner.sequences, hstates] at hupdated
  constructor
  · have hcomputed := hupdated.numComputedTokens
    rw [hslot, queryStartLoc_succ hrow, add_sub_cancel_left] at hcomputed
    exact hcomputed
  · have hlast := hupdated.lastSampledTokens
    rw [hslot] at hlast
    exact hlast
  · have htotal := hupdated.totalLen
    rw [hslot] at htotal
    exact htotal
  · have happended := hupdated.appended
    rw [hslot] at happended
    exact happended
  · have hkept := hupdated.kept
    rw [hslot] at hkept
    exact hkept

omit [DecidableEq R] in
/-- The row's drafts after the step. -/
theorem Finished.drafts_advance
    (hfinished : Finished config output rows sampled drafts counts runner
      after)
    (hdrafts : runner.reqStates.draftTokens = states.draftTokens)
    (hlt : row < output.numScheduledTokens.length)
    (hindex : rows[row]? = some index)
    (htracks : Tracks config states index reference)
    (hsteps : drafts.numDraftTokens ≤ config.numSpeculativeSteps) :
    (drafts.row row ++
        reference.drafts.drop (drafts.row row).length).length ≤
      config.numSpeculativeSteps ∧
    ∀ column : ℕ, column < (drafts.row row ++
        reference.drafts.drop (drafts.row row).length).length →
      after.reqStates.draftTokens
          (index * config.numSpeculativeSteps + column) =
        (drafts.row row ++
          reference.drafts.drop (drafts.row row).length).getD column 0 := by
  have hle := htracks.drafts_le
  have hrow := hfinished.drafted row hlt
  rw [ofList_apply hindex, hdrafts] at hrow
  simp only [List.length_append, List.length_drop, DraftTokens.length_row]
  constructor
  · omega
  · intro column hcolumn
    rw [hrow column (by omega)]
    by_cases hnew : column < drafts.numDraftTokens
    · have hin : column < (drafts.row row).length := by
        rw [DraftTokens.length_row]
        exact hnew
      rw [if_pos hnew, List.getD_append _ _ _ _ hin, DraftTokens.getD_row hin]
    · have hout : (drafts.row row).length ≤ column := by
        rw [DraftTokens.length_row]
        omega
      rw [if_neg hnew, List.getD_append_right _ _ _ _ hout,
        htracks.draftTokens column (by omega), List.getD_eq_getElem?_getD,
        List.getD_eq_getElem?_getD, List.getElem?_drop,
        DraftTokens.length_row, Nat.add_sub_of_le (by omega)]

/-- After a chunk the request still prefills. -/
theorem Prepared.tracks_chunk
    (hprepared : Prepared config states output rows prefill runner.reqStates
      batch)
    (hfinished : Finished config output rows sampled drafts counts runner
      after)
    (hrow : output.numScheduledTokens[row]? = some (reqId, queryLen))
    (hindex : rows[row]? = some index)
    (htracks : Tracks config states index reference)
    (hpos : 0 < queryLen) (hchunk : ¬reference.ReachesEnd queryLen)
    (hnone : counts.numSampled row = 0 ∧ counts.numRejected row = 0)
    (hsteps : drafts.numDraftTokens ≤ config.numSpeculativeSteps)
    (numDrafts : ℕ) (sampledTokens : List ℤ) :
    Tracks config after.reqStates index (reference.advance queryLen numDrafts
      sampledTokens (drafts.row row)) := by
  have hlt : row < output.numScheduledTokens.length :=
    (List.getElem?_eq_some_iff.mp hrow).1
  have hstates := hprepared.reqStates
  have hbooked := hfinished.bookedRow hstates hrow hindex
  have hdrafts := hfinished.drafts_advance (by rw [hstates]) hlt hindex
    htracks hsteps
  have hshort := hchunk
  rw [htracks.reachesEnd_iff hpos, not_not] at hshort
  have hprefill : reference.computed < reference.numPrefill := by omega
  have hlength := htracks.prefilling hprefill
  rw [Reference.advance, if_neg hchunk, if_neg hchunk]
  constructor
  · exact htracks.index_lt
  · exact htracks.tokens_le
  · exact hdrafts.1
  · rw [hfinished.prefillLen, hstates]
    exact htracks.prefillLen
  · rw [hbooked.totalLen, hnone.1, add_zero]
    exact htracks.totalLen
  · rw [hbooked.numComputedTokens, hnone.2, sub_zero,
      htracks.numComputedTokens]
    exact (Nat.cast_add _ _).symm
  · intro pos hpos
    rw [hbooked.kept pos (Int.natCast_nonneg pos)
      (htracks.totalLen ▸ Int.ofNat_lt.mpr hpos)]
    exact htracks.allTokenIds pos hpos
  · exact hdrafts.2
  · intro _
    rw [hfinished.numComputedTokensNp, hstates]
    exact htracks.host hprefill
  · intro _
    exact hlength
  · intro hdecode
    exact absurd hshort (Nat.not_lt.mpr hdecode)
  · intro hdecode
    exact absurd hshort (Nat.not_lt.mpr hdecode)
  · intro hdecode
    exact absurd hshort (Nat.not_lt.mpr hdecode)

/-- Reaching the end, all tokens but the last sampled are computed. -/
theorem Reference.Scheduled.computed_advance
    {numDrafts : ℕ}
    (hscheduled : reference.Scheduled config queryLen numDrafts)
    (hend : reference.ReachesEnd queryLen) {sampledTokens : List ℤ}
    (hsampled : reference.Sampled config numDrafts sampledTokens) :
    reference.computed + queryLen - (numDrafts + 1 - sampledTokens.length) +
        1 = reference.tokens.length + sampledTokens.length := by
  have hpos := hsampled.pos
  have hle := hsampled.le
  rw [Reference.ReachesEnd] at hend
  rcases Nat.eq_zero_or_pos numDrafts with hzero | hdrafts
  · have hwithout := hscheduled.without_drafts hzero
    omega
  · have hwith := hscheduled.with_drafts hdrafts
    omega

/-- At the end of its tokens a request takes those sampled. -/
theorem Prepared.tracks_sampled
    (hprepared : Prepared config states output rows prefill runner.reqStates
      batch)
    (hfinished : Finished config output rows sampled drafts counts runner
      after)
    (hrow : output.numScheduledTokens[row]? = some (reqId, queryLen))
    (hindex : rows[row]? = some index)
    (htracks : Tracks config states index reference)
    {numDrafts : ℕ}
    (hscheduled : reference.Scheduled config queryLen numDrafts)
    (hend : reference.ReachesEnd queryLen)
    (hsampled : reference.Sampled config numDrafts (sampled.row row))
    (hcounts : counts.numSampled row = (sampled.row row).length ∧
      counts.numRejected row = numDrafts + 1 - (sampled.row row).length)
    (hsteps : drafts.numDraftTokens ≤ config.numSpeculativeSteps) :
    Tracks config after.reqStates index (reference.advance queryLen numDrafts
      (sampled.row row) (drafts.row row)) := by
  have hlt : row < output.numScheduledTokens.length :=
    (List.getElem?_eq_some_iff.mp hrow).1
  have hstates := hprepared.reqStates
  have hbooked := hfinished.bookedRow hstates hrow hindex
  have hdrafts := hfinished.drafts_advance (by rw [hstates]) hlt hindex
    htracks hsteps
  have hcomputed := hscheduled.computed_advance hend hsampled
  have hprefillLe := htracks.numPrefill_le
  have hpos := hsampled.pos
  have hle := hsampled.le
  rw [Reference.advance, if_pos hend, if_pos hend]
  constructor
  · exact htracks.index_lt
  · rw [List.length_append]
    exact hsampled.fits
  · exact hdrafts.1
  · rw [hfinished.prefillLen, hstates]
    exact htracks.prefillLen
  · rw [hbooked.totalLen, hcounts.1, htracks.totalLen, List.length_append]
    exact (Nat.cast_add _ _).symm
  · rw [hbooked.numComputedTokens, hcounts.2, htracks.numComputedTokens]
    dsimp only
    have hnonempty := htracks.computed_lt
    omega
  · intro pos hpos
    rw [List.length_append] at hpos
    by_cases hold : pos < reference.tokens.length
    · rw [List.getD_append _ _ _ _ hold, hbooked.kept pos
        (Int.natCast_nonneg pos) (htracks.totalLen ▸ Int.ofNat_lt.mpr hold)]
      exact htracks.allTokenIds pos hold
    · obtain ⟨i, rfl⟩ := Nat.exists_eq_add_of_le (Nat.le_of_not_lt hold)
      have hi : i < (sampled.row row).length := by omega
      have happended := hbooked.appended i
        (hcounts.1 ▸ Int.ofNat_lt.mpr hi)
      rw [htracks.totalLen] at happended
      rw [List.getD_append_right _ _ _ _ (Nat.le_add_right _ _),
        Nat.add_sub_cancel_left, SamplerOutput.getD_row hi, Nat.cast_add,
        happended]
  · exact hdrafts.2
  · intro hprefill
    dsimp only at hprefill
    omega
  · intro hprefill
    dsimp only at hprefill
    omega
  · intro _
    rw [List.length_append]
    exact hcomputed.symm
  · -- The last of the sampled tokens is the last of all.
    intro _
    obtain ⟨last, hlast⟩ := Nat.exists_eq_add_of_le' hpos
    have hlastLt : last < (sampled.row row).length := by omega
    have hposition : reference.computed + queryLen -
        (numDrafts + 1 - (sampled.row row).length) =
          reference.tokens.length + last := by omega
    have htoken : after.reqStates.lastSampledTokens index =
        sampled.sampledTokenIds
          (row * sampled.sampledTokenIdsStride + last) := by
      rw [hbooked.lastSampledTokens, hcounts.1, if_pos (by omega)]
      congr 1
      omega
    dsimp only
    rw [htoken, hposition,
      List.getD_append_right _ _ _ _ (Nat.le_add_right _ _),
      Nat.add_sub_cancel_left, SamplerOutput.getD_row hlastLt]
  · intro _ lookahead hlookahead
    rw [hfinished.nextPrefillTokens, hprepared.following hrow hindex htracks
      hlookahead]
    apply List.getD_eq_default
    rw [List.length_take]
    rw [Reference.ReachesEnd] at hend
    omega

/-- Rows outside the batch are as they were. -/
theorem Prepared.sameRow
    (hprepared : Prepared config states output rows prefill runner.reqStates
      batch)
    (hfinished : Finished config output rows sampled drafts counts runner
      after)
    (hindex : index < config.maxNumReqs)
    (hout : ∀ row : ℕ, row < output.numScheduledTokens.length →
      (index : ℤ) ≠ ofList rows row) :
    SameRow config states after.reqStates index := by
  have hstates := hprepared.reqStates
  obtain ⟨hsame, hdrafts⟩ := hfinished.kept index hout
  rw [GPUModelRunner.sequences, hstates] at hsame
  constructor
  · rw [hfinished.prefillLen, hstates]
  · exact hsame.totalLen
  · exact hsame.numComputedTokens
  · rw [hfinished.numComputedTokensNp, hstates]
  · exact hsame.lastSampledTokens
  · intro pos hpos
    exact hsame.allTokenIds pos (Int.natCast_nonneg pos)
      (Int.ofNat_lt.mpr hpos)
  · intro column hcolumn
    rw [hdrafts column hcolumn, hstates]
  · intro lookahead _
    rw [hfinished.nextPrefillTokens, hstates]
    exact hprepared.kept index hindex
      (fun row hrow heq => absurd heq.symm (hout row hrow)) lookahead

end Finished

/-! ## A step -/

theorem References.step_of_scheduled {row queryLen : ℕ} {reqId : R}
    {reference : Reference} (hnodup : output.reqIds.Nodup)
    (hrow : output.numScheduledTokens[row]? = some (reqId, queryLen))
    (href : references reqId = some reference) :
    references.step output sampled drafts reqId =
      some (reference.advance queryLen (output.numDraftTokens reqId)
        (sampled.row row) (drafts.row row)) := by
  have hreq : output.reqIds[row]? = some reqId := by
    rw [SchedulerOutput.reqIds, List.getElem?_map, hrow]
    rfl
  obtain ⟨hlt, hget⟩ := List.getElem?_eq_some_iff.mp hreq
  have hidx : output.reqIds.idxOf reqId = row := by
    rw [← hget]
    exact hnodup.idxOf_getElem row hlt
  rw [References.step, href, hidx]
  simp only [hrow]
  rfl

theorem References.step_of_not_mem {reqId : R}
    (hout : reqId ∉ output.reqIds) :
    references.step output sampled drafts reqId = references reqId := by
  have hidx : output.reqIds.idxOf reqId = output.numScheduledTokens.length := by
    rw [List.idxOf_eq_length hout, SchedulerOutput.reqIds, List.length_map]
  have hnone : output.numScheduledTokens[output.numScheduledTokens.length]? =
      none := List.getElem?_eq_none le_rfl
  rw [References.step, hidx]
  simp only [hnone]
  exact Option.map_id'

/-- Every request of the batch is fed what its reference says. -/
def ExactBatch (config : Config) (references : References R)
    (output : SchedulerOutput R) (states : RequestStates R)
    (batch : InputBatch) : Prop :=
  batch.numReqs = output.numScheduledTokens.length ∧
  batch.queryStartLoc 0 = 0 ∧ batch.cuNumLogits 0 = 0 ∧
  ∀ row reqId queryLen,
    output.numScheduledTokens[row]? = some (reqId, queryLen) →
      ∃ reference index, references reqId = some reference ∧
        states.reqIdToIndex reqId = some index ∧
        ExactRow config reference queryLen (output.numDraftTokens reqId) row
          index states batch

section Step

variable {states : RequestStates R} {prefill : PrefillInputs}
  {runner : GPUModelRunner R} {batch : InputBatch}

section Batch

variable (hprepared : Prepared config states output rows prefill runner.reqStates batch)
  (hbonus : config.numNewSampledTokensPerStep = 1)
  (hrep : Represents config states references) (hindex : BatchIndex states output rows)
  (hlegal : references.Legal config output sampled drafts)
include hprepared hbonus hrep hindex hlegal

theorem Prepared.exactBatch :
    ExactBatch config references output runner.reqStates batch := by
  refine ⟨hprepared.numReqs, ?_, ?_, ?_⟩
  · rw [hprepared.queryStartLoc]
    simp only [ModelRunner.queryStartLoc, if_pos (Int.natCast_nonneg _)]
    exact cumsum_zero _
  · rw [hprepared.cuNumLogits, ModelRunner.cuNumLogits]
    split
    · rfl
    · exact cumsum_zero _
  · intro row reqId queryLen hrow
    obtain ⟨reference, href, hscheduled, -⟩ :=
      hlegal.scheduled row reqId queryLen hrow
    obtain ⟨index, hslot, hlookup⟩ := hindex.row row reqId queryLen hrow
    obtain ⟨reference', href', htracks⟩ := hrep.tracks reqId index hlookup
    rw [href, Option.some.injEq] at href'
    subst href'
    refine ⟨reference, index, href, ?_,
      hprepared.exactRow hrow hslot htracks hbonus hscheduled⟩
    rw [hprepared.reqStates]
    exact hlookup

/-- The accepted tokens fit in the rows of `all_token_ids`. -/
theorem Prepared.sampledFits :
    SampledFits (ofList rows)
      (runner.sampleCounts device batch sampled).numSampled
      config.maxModelLen output.numScheduledTokens.length
      runner.sequences := by
  have hentry : ∀ row, row < output.numScheduledTokens.length →
      ∃ total count : ℕ,
        runner.sequences.totalLen (ofList rows row) = total ∧
        (runner.sampleCounts device batch sampled).numSampled row = count ∧
        total + count ≤ config.maxModelLen := by
    intro row hlt
    have hrow := List.getElem?_eq_getElem hlt
    obtain ⟨reference, href, hscheduled, hsampled⟩ :=
      hlegal.scheduled row _ _ hrow
    obtain ⟨index, hslot, hlookup⟩ := hindex.row row _ _ hrow
    obtain ⟨reference', href', htracks⟩ := hrep.tracks _ index hlookup
    rw [href, Option.some.injEq] at href'
    subst href'
    have htotal : runner.sequences.totalLen (ofList rows row) =
        reference.tokens.length := by
      rw [GPUModelRunner.sequences, hprepared.reqStates, ofList_apply hslot]
      exact htracks.totalLen
    obtain ⟨hchunk, hend⟩ := @Prepared.counts R _ config device output
      sampled rows states prefill runner batch row index _ _ reference
      hprepared hbonus hrow hslot htracks hscheduled
    by_cases hreaches : reference.ReachesEnd
        (output.numScheduledTokens.get ⟨row, hlt⟩).2
    · exact ⟨_, _, htotal, (hend hreaches (hsampled hreaches)).1,
        (hsampled hreaches).fits⟩
    · exact ⟨_, 0, htotal, (hchunk hreaches).1, htracks.tokens_le⟩
  constructor
  · intro row hlt
    obtain ⟨total, count, -, hcount, -⟩ := hentry row hlt
    rw [hcount]
    exact Int.natCast_nonneg count
  · intro row hlt
    obtain ⟨total, count, htotal, -, -⟩ := hentry row hlt
    rw [htotal]
    exact Int.natCast_nonneg total
  · intro row hlt
    obtain ⟨total, count, htotal, hcount, hle⟩ := hentry row hlt
    rw [htotal, hcount]
    exact_mod_cast hle

theorem Prepared.represents :
    Represents config
      (runner.sampleTokens config device batch sampled drafts).reqStates
      (references.step output sampled drafts) := by
  have hrows := hindex.batchRows hrep hlegal.nodup
  have hfits : SampledFits (ofList rows)
      (runner.sampleCounts device batch sampled).numSampled
      config.maxModelLen output.numScheduledTokens.length runner.sequences :=
    hprepared.sampledFits hbonus hrep hindex hlegal
  have hfinished := hprepared.finished hrows hlegal.le_steps hfits
  have hlookup : (runner.sampleTokens config device batch sampled
      drafts).reqStates.reqIdToIndex = states.reqIdToIndex := by
    rw [hfinished.reqIdToIndex, hprepared.reqStates]
  constructor
  · intro reqId reference href
    rw [hlookup]
    obtain ⟨before, hbefore, -⟩ := Option.map_eq_some_iff.mp href
    exact hrep.index reqId before hbefore
  · intro reqId index heq
    rw [hlookup] at heq
    obtain ⟨reference, href, htracks⟩ := hrep.tracks reqId index heq
    by_cases hmem : reqId ∈ output.reqIds
    · obtain ⟨⟨_, queryLen⟩, hentry, rfl⟩ := List.mem_map.mp hmem
      obtain ⟨row, hrow⟩ := List.mem_iff_getElem?.mp hentry
      rw [References.step_of_scheduled hlegal.nodup hrow href]
      refine ⟨_, rfl, ?_⟩
      obtain ⟨reference', href', hscheduled, hsampled⟩ :=
        hlegal.scheduled row _ _ hrow
      rw [href, Option.some.injEq] at href'
      subst href'
      obtain ⟨index', hslot, heq'⟩ := hindex.row row _ _ hrow
      rw [heq, Option.some.injEq] at heq'
      subst heq'
      obtain ⟨hchunk, hend⟩ := @Prepared.counts R _ config device output
        sampled rows states prefill runner batch row index _ _ reference
        hprepared hbonus hrow hslot htracks hscheduled
      by_cases hreaches : reference.ReachesEnd queryLen
      · exact hprepared.tracks_sampled hfinished hrow hslot htracks hscheduled
          hreaches (hsampled hreaches) (hend hreaches (hsampled hreaches))
          hlegal.le_steps
      · exact hprepared.tracks_chunk hfinished hrow hslot htracks
          hscheduled.pos hreaches (hchunk hreaches) hlegal.le_steps _ _
    · rw [References.step_of_not_mem hmem]
      refine ⟨reference, href,
        (hprepared.sameRow hfinished htracks.index_lt ?_).tracks htracks⟩
      intro row hlt hsame
      -- A row of the batch would belong to a request of the batch.
      obtain ⟨index', hslot, heq'⟩ := hindex.row row _ _
        (List.getElem?_eq_getElem hlt)
      rw [ofList_apply hslot, Int.ofNat_inj] at hsame
      subst hsame
      have hreq := hrep.inj _ _ index heq heq'
      rw [hreq] at hmem
      exact hmem (List.mem_map.mpr ⟨_, List.getElem_mem hlt, rfl⟩)
  · rw [hlookup]
    exact hrep.inj

end Batch

end Step

/-- One step: the inputs are exact and the rows follow the references. -/
theorem Represents.step {runner : GPUModelRunner R}
    (hbonus : config.numNewSampledTokensPerStep = 1)
    (hrep : Represents config runner.reqStates references)
    (hlegal : references.Legal config output sampled drafts) :
    ∃ next batch,
      runner.executeModel config device output = .ok (next, batch) ∧
      ExactBatch config references output next.reqStates batch ∧
      Represents config
        (next.sampleTokens config device batch sampled drafts).reqStates
        (references.step output sampled drafts) := by
  obtain ⟨refreshed, hrefresh, hrefreshed, hhost⟩ :=
    hrep.updateRequests hlegal.cached
  obtain ⟨next, batch, rows, prefill, hrun, hindex, hprepared⟩ :=
    @Represents.prepareInputs R _ config device references output sampled
      drafts { runner with reqStates := refreshed } hbonus hrefreshed hhost
      hlegal
  refine ⟨next, batch, ?_,
    hprepared.exactBatch hbonus hrefreshed hindex hlegal,
    hprepared.represents hbonus hrefreshed hindex hlegal⟩
  rw [GPUModelRunner.executeModel, hrefresh]
  exact hrun

/-! ## Runs -/

theorem handle_represents {methods : RequestStateMethods config R}
    (hbonus : config.numNewSampledTokensPerStep = 1)
    (state : GPUModelRunner R × References R) (event : Event R)
    (next : GPUModelRunner R × References R)
    (hlegal : LegalEvent config state event)
    (hrun : handle config methods state event = .ok next)
    (hrep : Represents config state.1.reqStates state.2) :
    Represents config next.1.reqStates next.2 := by
  cases event with
  | add reqId tokens computed =>
      simp only [handle, bind_eq_ok, pure_eq_ok] at hrun
      obtain ⟨reqStates, hadd, rfl⟩ := hrun
      obtain ⟨index, hadded⟩ :=
        methods.addRequest_added _ reqId tokens computed reqStates hadd
      exact hrep.add hadded hlegal.2.1 hlegal.2.2
  | remove reqId =>
      simp only [handle, Except.ok.injEq] at hrun
      subst hrun
      exact hrep.remove (methods.removeRequest_reqIdToIndex _ reqId)
        (methods.removeRequest_rows _ reqId)
  | step device output sampled drafts =>
      obtain ⟨runner, batch, hexecute, -, hafter⟩ :=
        @Represents.step R _ config device state.2 output sampled drafts
          state.1 hbonus hrep hlegal
      rw [handle, hexecute] at hrun
      cases hrun
      exact hafter

/-- Over every legal run the rows represent the references, and the next step
feeds exactly what they say and leads to the next references. -/
theorem token_bookkeeping_exact (methods : RequestStateMethods config R)
    (hbonus : config.numNewSampledTokensPerStep = 1)
    {start runner : GPUModelRunner R} {events : List (Event R)}
    (hstart : ∀ reqId, start.reqStates.reqIdToIndex reqId = none)
    (hlegal : Along (handle config methods) (LegalEvent config)
      (start, fun _ => none) events)
    (hrun : runSteps (handle config methods) (start, fun _ => none) events =
      .ok (runner, references)) :
    Represents config runner.reqStates references ∧
      ∀ device output sampled drafts,
        references.Legal config output sampled drafts →
          ∃ next batch,
            runner.executeModel config device output = .ok (next, batch) ∧
            ExactBatch config references output next.reqStates batch ∧
            Represents config
              (next.sampleTokens config device batch sampled drafts).reqStates
              (references.step output sampled drafts) := by
  have hrep : Represents config runner.reqStates references :=
    @runSteps_invariant_along _ _ _ (handle config methods)
      (fun state => Represents config state.1.reqStates state.2)
      (LegalEvent config) (handle_represents hbonus) _ _ _ hrun hlegal
      (Represents.of_empty hstart)
  exact ⟨hrep, fun device output sampled drafts => hrep.step hbonus⟩

/-! ## A draft that is accepted -/

section Draft

/-- `add_request` on a free index. -/
def addAt (config : Config) (states : RequestStates Bool) (reqId : Bool)
    (tokens : List ℤ) (computed index : ℕ) : RequestStates Bool :=
  { states with
    reqIdToIndex := Function.update states.reqIdToIndex reqId (some index)
    prefillLen := Function.update states.prefillLen index tokens.length
    totalLen := Function.update states.totalLen index tokens.length
    numComputedTokens :=
      Function.update states.numComputedTokens index computed
    numComputedTokensNp :=
      Function.update states.numComputedTokensNp index computed
    allTokenIds := storeLanes states.allTokenIds (List.range tokens.length)
      (fun pos => index * config.maxModelLen + pos)
      fun pos => tokens.getD pos 0 }

theorem addAt_added {states : RequestStates Bool} {reqId : Bool}
    {tokens : List ℤ} {computed index : ℕ} (hindex : index < config.maxNumReqs)
    (hfree : ∀ other, states.reqIdToIndex other ≠ some index)
    (hfits : tokens.length ≤ config.maxModelLen) :
    Added config states reqId tokens computed
      (addAt config states reqId tokens computed index) index where
  index_lt := hindex
  free := hfree
  reqIdToIndex := rfl
  prefillLen := Function.update_self _ _ _
  totalLen := Function.update_self _ _ _
  numComputedTokens := Function.update_self _ _ _
  numComputedTokensNp := Function.update_self _ _ _
  allTokenIds pos hpos := by
    have hinj : Function.Injective fun pos : ℕ =>
        (index : ℤ) * config.maxModelLen + (pos : ℤ) := by
      intro left right heq
      exact Int.ofNat_inj.mp (Int.add_left_cancel heq)
    exact storeLanes_apply hinj (List.mem_range.mpr hpos)
  others other hne := by
    have hcast : (other : ℤ) ≠ index := by exact_mod_cast hne
    constructor
    · exact Function.update_of_ne hcast _ _
    · exact Function.update_of_ne hcast _ _
    · exact Function.update_of_ne hcast _ _
    · exact Function.update_of_ne hcast _ _
    · rfl
    · intro pos hpos
      apply storeLanes_of_ne
      intro lane hlane heq
      rw [List.mem_range] at hlane
      exact hcast (row_add_inj (by omega) (by omega) (by omega) (by omega)
        heq).1
    · exact fun _ _ => rfl
    · exact fun _ _ => rfl

/-- Free indices are handed out from below. -/
def listedMethods (config : Config) : RequestStateMethods config Bool where
  addRequest states reqId tokens computed :=
    match (List.range config.maxNumReqs).find? fun index =>
        decide ((∀ other, states.reqIdToIndex other ≠ some index) ∧
          tokens.length ≤ config.maxModelLen) with
    | none => .error .assertionError
    | some index => .ok (addAt config states reqId tokens computed index)
  removeRequest states reqId :=
    { states with
      reqIdToIndex := Function.update states.reqIdToIndex reqId none }
  addRequest_added states reqId tokens computed next hadd := by
    split at hadd
    · cases hadd
    · rename_i index hfind
      have hfree := List.find?_some hfind
      have hlt := List.mem_of_find?_eq_some hfind
      rw [decide_eq_true_eq] at hfree
      rw [List.mem_range] at hlt
      cases hadd
      exact ⟨index, addAt_added hlt hfree.1 hfree.2⟩
  removeRequest_reqIdToIndex _ _ := rfl
  removeRequest_rows _ _ _ :=
    ⟨rfl, rfl, rfl, rfl, rfl, fun _ _ => rfl, fun _ _ => rfl, fun _ _ => rfl⟩

def twoRows : Config where
  maxNumReqs := 2
  maxModelLen := 16
  numSpeculativeSteps := 1
  numLookahead := 1
  vocabSize := 10
  numNewSampledTokensPerStep := 1

def inOrder : Device where
  order _ count := List.range count
  empty _ _ := 0
  order_perm _ _ := List.Perm.refl _

def idleRunner : GPUModelRunner Bool where
  reqStates :=
    { reqIdToIndex := fun _ => none
      prefillLen := fun _ => 0
      totalLen := fun _ => 0
      allTokenIds := fun _ => 0
      numComputedTokens := fun _ => 0
      numComputedTokensNp := fun _ => 0
      numComputedPrefillTokens := fun _ => 0
      lastSampledTokens := fun _ => 0
      draftTokens := fun _ => 0
      nextPrefillTokens := fun _ => 0 }
  inputBuffers :=
    { inputIds := fun _ => 0
      positions := fun _ => 0
      queryStartLoc := fun _ => 0
      seqLens := fun _ => 0 }
  outputBinCounts := none

/-- A prompt of three tokens, one of them computed, then one draft. -/
def draftRun : List (Event Bool) :=
  [.add true [5, 6, 7] 1,
    .step inOrder
      { numScheduledTokens := [(true, 2)]
        scheduledSpecDecodeTokens := []
        scheduledCachedReqs := [] }
      { sampledTokenIds := fun _ => 4
        sampledTokenIdsStride := 2
        numSampled := fun _ => 1 }
      { ids := fun _ => 9, numDraftTokens := 1 },
    .step inOrder
      { numScheduledTokens := [(true, 2)]
        scheduledSpecDecodeTokens := [(true, [-1])]
        scheduledCachedReqs := [(true, 3)] }
      { sampledTokenIds := fun column => 9 - column
        sampledTokenIdsStride := 2
        numSampled := fun _ => 2 }
      { ids := fun _ => 3, numDraftTokens := 1 }]

theorem draftRun_ok :
    ∃ runner references,
      runSteps (handle twoRows (listedMethods twoRows))
          (idleRunner, fun _ => none) draftRun = .ok (runner, references) ∧
        references true = some
          { tokens := [5, 6, 7, 4, 9, 8]
            numPrefill := 3
            computed := 5
            drafts := [3] } :=
  ⟨_, _, rfl, rfl⟩

/-- A batch of one request. -/
theorem legal_single {config : Config} {references : References Bool}
    {output : SchedulerOutput Bool} {sampled : SamplerOutput}
    {drafts : DraftTokens} {reference : Reference} {queryLen : ℕ}
    (houtput : output.numScheduledTokens = [(true, queryLen)])
    (href : references true = some reference)
    (hscheduled : reference.Scheduled config queryLen
      (output.numDraftTokens true))
    (hsampled : reference.Sampled config (output.numDraftTokens true)
      (sampled.row 0))
    (hcached : ∀ cached ∈ output.scheduledCachedReqs, cached.1 = true ∧
      (reference.computed < reference.numPrefill →
        cached.2 < reference.numPrefill))
    (hsteps : drafts.numDraftTokens ≤ config.numSpeculativeSteps) :
    References.Legal config references output sampled drafts where
  nonempty := by
    rw [houtput]
    exact List.cons_ne_nil _ _
  nodup := by
    rw [SchedulerOutput.reqIds, houtput]
    exact List.nodup_singleton _
  scheduled row reqId length hrow := by
    rw [houtput] at hrow
    cases row with
    | zero =>
        cases hrow
        exact ⟨reference, href, hscheduled, fun _ => hsampled⟩
    | succ row => cases hrow
  cached reqId computed hmem := by
    obtain ⟨hreq, hhost⟩ := hcached _ hmem
    dsimp only at hreq
    subst hreq
    exact ⟨reference, href, hhost⟩
  le_steps := hsteps

theorem draftRun_legal :
    Along (handle twoRows (listedMethods twoRows)) (LegalEvent twoRows)
      (idleRunner, fun _ => none) draftRun := by
  refine ⟨⟨rfl, by decide, by decide⟩, fun entered hentered => ?_⟩
  have hfirst : entered.2 true = some
      { tokens := [5, 6, 7], numPrefill := 3, computed := 1, drafts := [] } := by
    cases hentered
    rfl
  refine ⟨legal_single rfl hfirst ⟨by decide, by decide, by decide, by decide,
      by decide⟩ ⟨by decide, by decide, by decide, by decide⟩
      (fun _ hmem => absurd hmem List.not_mem_nil) (by decide),
    fun prefilled hprefilled => ?_⟩
  have hsecond : prefilled.2 true = some
      { tokens := [5, 6, 7, 4], numPrefill := 3, computed := 3,
        drafts := [9] } := by
    simp only [handle, bind_eq_ok, pure_eq_ok] at hprefilled
    obtain ⟨_, _, rfl⟩ := hprefilled
    simp only [References.step, hfirst]
    rfl
  refine ⟨legal_single rfl hsecond ⟨by decide, by decide, by decide,
      by decide, by decide⟩ ⟨by decide, by decide, by decide, by decide⟩
      ?_ (by decide), fun _ _ => trivial⟩
  intro cached hmem
  rw [List.mem_singleton.mp hmem]
  exact ⟨rfl, by decide⟩

theorem token_bookkeeping_exact_draft :
    ∃ runner references,
      runSteps (handle twoRows (listedMethods twoRows))
          (idleRunner, fun _ => none) draftRun = .ok (runner, references) ∧
        references true = some
          { tokens := [5, 6, 7, 4, 9, 8]
            numPrefill := 3
            computed := 5
            drafts := [3] } ∧
        Represents twoRows runner.reqStates references := by
  obtain ⟨runner, references, hrun, href⟩ := draftRun_ok
  exact ⟨runner, references, hrun, href, (token_bookkeeping_exact
    (listedMethods twoRows) rfl (fun _ => rfl) draftRun_legal hrun).1⟩

end Draft

end GlmFlash.Worker.ModelRunner
