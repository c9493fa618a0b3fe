import GlmFlash.Worker.TokenReference
import GlmFlash.Worker.InputRows

/-!
# Rows between the steps

Requests come, go and have their host counts refreshed without disturbing the
rows of the others.  A batch of distinct requests is laid out in consecutive
slots over distinct rows.
-/

namespace GlmFlash.Worker.ModelRunner

open GlmFlash.Library

variable {R : Type} [DecidableEq R] {config : Config}
  {states next : RequestStates R} {references : References R}

omit [DecidableEq R] in
theorem SameRow.tracks {index : ℕ} {reference : Reference}
    (hsame : SameRow config states next index)
    (htracks : Tracks config states index reference) :
    Tracks config next index reference where
  index_lt := htracks.index_lt
  tokens_le := htracks.tokens_le
  drafts_le := htracks.drafts_le
  prefillLen := hsame.prefillLen.trans htracks.prefillLen
  totalLen := hsame.totalLen.trans htracks.totalLen
  numComputedTokens :=
    hsame.numComputedTokens.trans htracks.numComputedTokens
  allTokenIds pos hpos :=
    (hsame.allTokenIds pos (hpos.trans_le htracks.tokens_le)).trans
      (htracks.allTokenIds pos hpos)
  draftTokens column hcolumn :=
    (hsame.draftTokens column (hcolumn.trans_le htracks.drafts_le)).trans
      (htracks.draftTokens column hcolumn)
  host hprefill := by
    rw [hsame.numComputedTokensNp]
    exact htracks.host hprefill
  prefilling := htracks.prefilling
  decoding := htracks.decoding
  lastSampled hdecode :=
    hsame.lastSampledTokens.trans (htracks.lastSampled hdecode)
  prefilled hdecode lookahead hlookahead :=
    (hsame.nextPrefillTokens lookahead hlookahead).trans
      (htracks.prefilled hdecode lookahead hlookahead)

/-! ## Requests that come and go -/

omit [DecidableEq R] in
theorem Represents.of_empty (hempty : ∀ reqId, states.reqIdToIndex reqId = none) :
    Represents config states fun _ => none where
  index := by
    intro reqId reference heq
    cases heq
  tracks := by
    intro reqId index heq
    rw [hempty reqId] at heq
    cases heq
  inj := by
    intro reqId other index heq
    rw [hempty reqId] at heq
    cases heq

theorem Added.tracks {reqId : R} {tokens : List ℤ} {computed index : ℕ}
    (hadded : Added config states reqId tokens computed next index)
    (hcomputed : computed < tokens.length)
    (hfits : tokens.length ≤ config.maxModelLen) :
    Tracks config next index
      { tokens, numPrefill := tokens.length, computed, drafts := [] } where
  index_lt := hadded.index_lt
  tokens_le := hfits
  drafts_le := Nat.zero_le _
  prefillLen := hadded.prefillLen
  totalLen := hadded.totalLen
  numComputedTokens := hadded.numComputedTokens
  allTokenIds := hadded.allTokenIds
  draftTokens column hcolumn := absurd hcolumn (Nat.not_lt_zero column)
  host _ := by
    rw [hadded.numComputedTokensNp]
    exact Int.ofNat_lt.mpr hcomputed
  prefilling _ := rfl
  decoding hdecode := absurd hcomputed (Nat.not_lt.mpr hdecode)
  lastSampled hdecode := absurd hcomputed (Nat.not_lt.mpr hdecode)
  prefilled hdecode := absurd hcomputed (Nat.not_lt.mpr hdecode)

theorem Represents.add (hrep : Represents config states references)
    {reqId : R} {tokens : List ℤ} {computed index : ℕ}
    (hadded : Added config states reqId tokens computed next index)
    (hcomputed : computed < tokens.length)
    (hfits : tokens.length ≤ config.maxModelLen) :
    Represents config next (Function.update references reqId (some
      { tokens, numPrefill := tokens.length, computed, drafts := [] })) where
  index := by
    intro other reference heq
    rw [hadded.reqIdToIndex]
    by_cases hother : other = reqId
    · exact ⟨index, by rw [hother, Function.update_self]⟩
    · rw [Function.update_of_ne hother] at heq ⊢
      exact hrep.index other reference heq
  tracks := by
    intro other index' heq
    rw [hadded.reqIdToIndex] at heq
    by_cases hother : other = reqId
    · subst hother
      rw [Function.update_self, Option.some.injEq] at heq
      subst heq
      rw [Function.update_self]
      exact ⟨_, rfl, hadded.tracks hcomputed hfits⟩
    · rw [Function.update_of_ne hother] at heq ⊢
      obtain ⟨reference, href, htracks⟩ := hrep.tracks other index' heq
      have hne : index' ≠ index := fun hsame =>
        hadded.free other (hsame ▸ heq)
      exact ⟨reference, href, (hadded.others index' hne).tracks htracks⟩
  inj := by
    intro first second index' hfirst hsecond
    rw [hadded.reqIdToIndex] at hfirst hsecond
    by_cases hleft : first = reqId
    · by_cases hright : second = reqId
      · rw [hleft, hright]
      · rw [hleft, Function.update_self] at hfirst
        rw [Function.update_of_ne hright, ← hfirst] at hsecond
        exact absurd hsecond (hadded.free second)
    · rw [Function.update_of_ne hleft] at hfirst
      by_cases hright : second = reqId
      · rw [hright, Function.update_self] at hsecond
        rw [← hsecond] at hfirst
        exact absurd hfirst (hadded.free first)
      · rw [Function.update_of_ne hright] at hsecond
        exact hrep.inj first second index' hfirst hsecond

theorem Represents.remove (hrep : Represents config states references)
    {reqId : R}
    (hindex : next.reqIdToIndex =
      Function.update states.reqIdToIndex reqId none)
    (hrows : ∀ index, SameRow config states next index) :
    Represents config next (Function.update references reqId none) where
  index := by
    intro other reference heq
    by_cases hother : other = reqId
    · rw [hother, Function.update_self] at heq
      cases heq
    · rw [Function.update_of_ne hother] at heq
      rw [hindex, Function.update_of_ne hother]
      exact hrep.index other reference heq
  tracks := by
    intro other index heq
    rw [hindex] at heq
    by_cases hother : other = reqId
    · rw [hother, Function.update_self] at heq
      cases heq
    · rw [Function.update_of_ne hother] at heq ⊢
      obtain ⟨reference, href, htracks⟩ := hrep.tracks other index heq
      exact ⟨reference, href, (hrows index).tracks htracks⟩
  inj := by
    intro first second index hfirst hsecond
    rw [hindex] at hfirst hsecond
    by_cases hleft : first = reqId
    · rw [hleft, Function.update_self] at hfirst
      cases hfirst
    · by_cases hright : second = reqId
      · rw [hright, Function.update_self] at hsecond
        cases hsecond
      · rw [Function.update_of_ne hleft] at hfirst
        rw [Function.update_of_ne hright] at hsecond
        exact hrep.inj first second index hfirst hsecond

/-! ## The counts on the host -/

omit [DecidableEq R] in
theorem Represents.index_eq (hrep : Represents config states references)
    {reqId : R} {reference : Reference}
    (href : references reqId = some reference) :
    ∃ index, states.index reqId = .ok index ∧
      states.reqIdToIndex reqId = some index ∧
      Tracks config states index reference := by
  obtain ⟨index, hindex⟩ := hrep.index reqId reference href
  obtain ⟨reference', href', htracks⟩ := hrep.tracks reqId index hindex
  rw [href, Option.some.injEq] at href'
  subst href'
  refine ⟨index, ?_, hindex, htracks⟩
  rw [RequestStates.index, hindex]

omit [DecidableEq R] in
/-- A count that tells prefill from decode can be set for any request. -/
theorem Represents.setComputed (hrep : Represents config states references)
    {reqId : R} {computed : ℕ} {reference : Reference}
    (href : references reqId = some reference)
    (hhost : reference.computed < reference.numPrefill →
      computed < reference.numPrefill) :
    ∃ next, states.setComputed (reqId, computed) = .ok next ∧
      Represents config next references := by
  obtain ⟨index, hindex, hslot, -⟩ := hrep.index_eq href
  refine ⟨{ states with
    numComputedTokensNp :=
      Function.update states.numComputedTokensNp index computed }, ?_, ?_⟩
  · rw [RequestStates.setComputed, hindex]
    rfl
  · refine ⟨hrep.index, ?_, hrep.inj⟩
    intro other index' heq
    obtain ⟨reference', href', htracks⟩ := hrep.tracks other index' heq
    refine ⟨reference', href', { htracks with host := ?_ }⟩
    intro hprefill
    dsimp only
    by_cases hsame : index' = index
    · subst hsame
      have hreq : other = reqId := hrep.inj other reqId index' heq hslot
      rw [hreq, href, Option.some.injEq] at href'
      subst href'
      rw [Function.update_self]
      exact Int.ofNat_lt.mpr (hhost hprefill)
    · have hcast : (index' : ℤ) ≠ index := by exact_mod_cast hsame
      rw [Function.update_of_ne hcast]
      exact htracks.host hprefill

omit [DecidableEq R] in
theorem Represents.updateRequests
    (hrep : Represents config states references)
    {output : SchedulerOutput R}
    (hcached : ∀ reqId computed,
      (reqId, computed) ∈ output.scheduledCachedReqs →
        ∃ reference, references reqId = some reference ∧
          (reference.computed < reference.numPrefill →
            computed < reference.numPrefill)) :
    ∃ next, states.updateRequests output = .ok next ∧
      Represents config next references ∧
      ∀ index, next.numComputedPrefillTokens index =
        min (next.numComputedTokensNp index) (next.prefillLen index) := by
  have hround : ∀ cached ∈ output.scheduledCachedReqs,
      ∀ states : RequestStates R, Represents config states references →
        ∃ next, states.setComputed cached = .ok next ∧
          Represents config next references := by
    intro cached hmem states hrep
    obtain ⟨reference, href, hhost⟩ := hcached cached.1 cached.2 hmem
    exact hrep.setComputed href hhost
  obtain ⟨middle, hrun, hmiddle⟩ := foldlM_succeeds hround hrep
  refine ⟨{ middle with
    numComputedPrefillTokens := fun index =>
      min (middle.numComputedTokensNp index) (middle.prefillLen index) },
    ?_, ?_, fun _ => rfl⟩
  · rw [RequestStates.updateRequests, hrun]
    rfl
  · refine ⟨hmiddle.index, ?_, hmiddle.inj⟩
    intro reqId index heq
    obtain ⟨reference, href, htracks⟩ := hmiddle.tracks reqId index heq
    exact ⟨reference, href, { htracks with }⟩

/-! ## The layout of a batch -/

@[simp]
theorem cumsum_zero (counts : List ℕ) : cumsum counts 0 = 0 := by
  simp [cumsum]

theorem cumsum_succ {counts : List ℕ} {row count : ℕ}
    (hrow : counts[row]? = some count) :
    cumsum counts (row + 1) = cumsum counts row + count := by
  have hsucc : ((row : ℤ) + 1).toNat = row + 1 := by omega
  have hcast : (row : ℤ).toNat = row := by omega
  simp only [cumsum, hsucc, hcast, List.take_add_one, hrow, List.sum_append,
    Option.toList_some, List.sum_singleton]
  exact Nat.cast_add _ _

theorem ofList_apply {values : List ℕ} {row value : ℕ}
    (hrow : values[row]? = some value) : ofList values row = value := by
  have hcast : (row : ℤ).toNat = row := by omega
  rw [ofList, hcast, List.getD_eq_getElem?_getD, hrow]
  rfl

variable {output : SchedulerOutput R}

omit [DecidableEq R] in
theorem queryStartLoc_succ {row queryLen : ℕ} {reqId : R}
    (hrow : output.numScheduledTokens[row]? = some (reqId, queryLen)) :
    queryStartLoc output (row + 1) = queryStartLoc output row + queryLen := by
  have hlt : row < output.numScheduledTokens.length :=
    (List.getElem?_eq_some_iff.mp hrow).1
  have hcount : (output.numScheduledTokens.map Prod.snd)[row]? =
      some queryLen := by
    rw [List.getElem?_map, hrow]
    rfl
  have hbefore : (row : ℤ) ≤ output.numScheduledTokens.length := by omega
  have hafter : (row : ℤ) + 1 ≤ output.numScheduledTokens.length := by omega
  simp only [queryStartLoc, if_pos hbefore, if_pos hafter]
  exact cumsum_succ hcount

theorem cuNumLogits_succ (hbonus : config.numNewSampledTokensPerStep = 1)
    {row queryLen : ℕ} {reqId : R}
    (hrow : output.numScheduledTokens[row]? = some (reqId, queryLen)) :
    cuNumLogits config output (row + 1) =
      cuNumLogits config output row + (output.numDraftTokens reqId + 1) := by
  by_cases hempty : output.scheduledSpecDecodeTokens = []
  · have hnone : output.numDraftTokens reqId = 0 := by
      rw [SchedulerOutput.numDraftTokens, hempty]
      rfl
    rw [cuNumLogits, if_pos hempty, hnone]
    rfl
  · have hcount : (output.reqIds.map fun reqId =>
        output.numDraftTokens reqId +
          config.numNewSampledTokensPerStep)[row]? =
        some (output.numDraftTokens reqId + 1) := by
      rw [SchedulerOutput.reqIds, List.map_map, List.getElem?_map, hrow,
        hbonus]
      rfl
    rw [cuNumLogits, if_neg hempty, cumsum_succ hcount]
    rfl

/-- The rows of a batch, as the runner looks them up. -/
structure BatchIndex (states : RequestStates R) (output : SchedulerOutput R)
    (rows : List ℕ) : Prop where
  lookup : output.reqIds.mapM states.index = .ok rows
  row : ∀ (row : ℕ) (reqId : R) (queryLen : ℕ),
    output.numScheduledTokens[row]? = some (reqId, queryLen) →
      ∃ index, rows[row]? = some index ∧
        states.reqIdToIndex reqId = some index

omit [DecidableEq R] in
theorem index_eq_ok {reqId : R} {index : ℕ} :
    states.index reqId = .ok index ↔ states.reqIdToIndex reqId = some index := by
  rw [RequestStates.index]
  cases states.reqIdToIndex reqId with
  | none => simp
  | some slot => simp

variable {sampled : SamplerOutput} {drafts : DraftTokens}

theorem Represents.batchIndex (hrep : Represents config states references)
    (hlegal : references.Legal config output sampled drafts) :
    ∃ rows, BatchIndex states output rows := by
  have hall : ∀ reqId ∈ output.reqIds,
      ∃ index, states.index reqId = .ok index := by
    intro reqId hmem
    obtain ⟨⟨other, queryLen⟩, hentry, rfl⟩ := List.mem_map.mp hmem
    obtain ⟨row, hrow⟩ := List.mem_iff_getElem?.mp hentry
    obtain ⟨reference, href, -⟩ := hlegal.scheduled row other queryLen hrow
    obtain ⟨index, hindex, -⟩ := hrep.index_eq href
    exact ⟨index, hindex⟩
  obtain ⟨rows, hrun, hforall⟩ := mapM_succeeds hall
  refine ⟨rows, hrun, ?_⟩
  intro row reqId queryLen hrow
  have hreq : output.reqIds[row]? = some reqId := by
    rw [SchedulerOutput.reqIds, List.getElem?_map, hrow]
    rfl
  obtain ⟨hlt, hget⟩ := List.getElem?_eq_some_iff.mp hreq
  have hlt' : row < rows.length := hforall.length_eq ▸ hlt
  have hindex := hforall.get hlt hlt'
  rw [List.get_eq_getElem, hget, index_eq_ok] at hindex
  exact ⟨_, List.getElem?_eq_getElem hlt', hindex⟩

variable {rows : List ℕ}

omit [DecidableEq R] in
theorem BatchIndex.batchRows (hrows : BatchIndex states output rows)
    (hrep : Represents config states references)
    (hnodup : output.reqIds.Nodup) :
    BatchRows (ofList rows) output.numScheduledTokens.length
      config.maxNumReqs := by
  have hentry : ∀ row, row < output.numScheduledTokens.length →
      ∃ reqId index, output.reqIds[row]? = some reqId ∧
        states.reqIdToIndex reqId = some index ∧
        ofList rows row = index := by
    intro row hrow
    obtain ⟨index, hindex, hslot⟩ := hrows.row row _ _
      (List.getElem?_eq_getElem hrow)
    refine ⟨_, index, ?_, hslot, ofList_apply hindex⟩
    rw [SchedulerOutput.reqIds, List.getElem?_map,
      List.getElem?_eq_getElem hrow]
    rfl
  constructor
  · intro row hrow
    obtain ⟨reqId, index, -, -, heq⟩ := hentry row hrow
    rw [heq]
    exact Int.natCast_nonneg index
  · intro row hrow
    obtain ⟨reqId, index, -, hslot, heq⟩ := hentry row hrow
    obtain ⟨reference, -, htracks⟩ := hrep.tracks reqId index hslot
    rw [heq]
    exact Int.ofNat_lt.mpr htracks.index_lt
  · intro row hrow other hother hsame
    obtain ⟨left, index, hleft, hslot, heq⟩ := hentry row hrow
    obtain ⟨right, index', hright, hslot', heq'⟩ := hentry other hother
    rw [heq, heq', Int.ofNat_inj] at hsame
    subst hsame
    have hreq : left = right := hrep.inj left right index hslot hslot'
    subst hreq
    obtain ⟨hlt, hget⟩ := List.getElem?_eq_some_iff.mp hleft
    obtain ⟨hlt', hget'⟩ := List.getElem?_eq_some_iff.mp hright
    exact (List.Nodup.getElem_inj_iff hnodup).mp (hget.trans hget'.symm)

omit [DecidableEq R] in
theorem consecutive_queryStartLoc :
    Consecutive (queryStartLoc output) output.numScheduledTokens.length := by
  intro row hrow
  rw [queryStartLoc_succ (List.getElem?_eq_getElem hrow)]
  omega

/-- Under the schedule, a request has fewer drafts than slots. -/
theorem Reference.Scheduled.drafts_lt {reference : Reference}
    {queryLen numDrafts : ℕ}
    (hscheduled : reference.Scheduled config queryLen numDrafts)
    (hcomputed : reference.computed < reference.tokens.length) :
    numDrafts < queryLen := by
  rcases Nat.eq_zero_or_pos numDrafts with hzero | hpos
  · rw [hzero]
    exact hscheduled.pos
  · have heq := hscheduled.with_drafts hpos
    omega

omit [DecidableEq R] in
theorem Tracks.computed_lt {index : ℕ} {reference : Reference}
    (htracks : Tracks config states index reference) :
    reference.computed < reference.tokens.length := by
  rcases Nat.lt_or_ge reference.computed reference.numPrefill with
    hprefill | hdecode
  · rw [htracks.prefilling hprefill]
    exact hprefill
  · rw [htracks.decoding hdecode]
    exact Nat.lt_succ_self _

theorem logitRows (hbonus : config.numNewSampledTokensPerStep = 1)
    (hrep : Represents config states references)
    (hlegal : references.Legal config output sampled drafts) :
    LogitRows (queryStartLoc output) (cuNumLogits config output)
      output.numScheduledTokens.length config.numSpeculativeSteps := by
  have hentry : ∀ row, row < output.numScheduledTokens.length →
      ∃ queryLen numDrafts : ℕ,
        queryStartLoc output (row + 1) =
          queryStartLoc output row + queryLen ∧
        cuNumLogits config output (row + 1) =
          cuNumLogits config output row + (numDrafts + 1) ∧
        numDrafts < queryLen ∧ numDrafts ≤ config.numSpeculativeSteps := by
    intro row hrow
    have hget := List.getElem?_eq_getElem hrow
    obtain ⟨reference, href, hscheduled, -⟩ := hlegal.scheduled row _ _ hget
    obtain ⟨index, -, -, htracks⟩ := hrep.index_eq href
    exact ⟨_, _, queryStartLoc_succ hget, cuNumLogits_succ hbonus hget,
      hscheduled.drafts_lt htracks.computed_lt, hscheduled.le_steps⟩
  constructor
  · intro row hrow
    obtain ⟨queryLen, numDrafts, -, hcu, -⟩ := hentry row hrow
    rw [hcu]
    omega
  · intro row hrow
    obtain ⟨queryLen, numDrafts, hloc, hcu, hlt, -⟩ := hentry row hrow
    rw [hcu, hloc]
    omega
  · intro row hrow
    obtain ⟨queryLen, numDrafts, -, hcu, -, hle⟩ := hentry row hrow
    rw [hcu]
    omega

end GlmFlash.Worker.ModelRunner
