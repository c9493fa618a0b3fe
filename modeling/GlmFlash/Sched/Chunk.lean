import Mathlib.Data.List.MinMax
import Mathlib.Tactic.Common

/-!
# Prefill chunks and Mamba state positions

In align mode a reusable state is recorded where a prefill chunk ends, so
`schedule` clips the chunk of a prefilling request to a block boundary and to
the mandatory stops inside it.  The lookahead of a multi-module drafter is
reserved afterwards.
-/

namespace GlmFlash.Sched

/-- What the split reads from the configuration of the scheduler. -/
structure SplitConfig where
  blockSize : ℕ
  blockSize_pos : 0 < blockSize
  hashBlockSize : ℕ
  maxNumScheduledTokens : ℕ
  longPrefillTokenThreshold : ℕ
  numPrefillLookahead : ℕ
  useEagle : Bool
  dflashReplayBoundary : Bool
  mambaHasPrefillCheckpointBlocks : Bool
  mambaPartialCacheHit : Bool

/-- What the split reads from a request. -/
structure PrefillRequest where
  numPromptTokens : ℕ
  numTokens : ℕ
  sharedPrefixBoundary : ℕ

namespace PrefillRequest

/-- Resumed requests replay their output tokens too. -/
def prefillEnd (request : PrefillRequest) : ℕ :=
  max request.numPromptTokens (request.numTokens - 1)

end PrefillRequest

namespace SplitConfig

def UsesInternalCheckpoint (config : SplitConfig) (start : ℕ) : Prop :=
  config.mambaHasPrefillCheckpointBlocks = true ∧
    start % config.blockSize = 0

instance (config : SplitConfig) (start : ℕ) :
    Decidable (config.UsesInternalCheckpoint start) :=
  inferInstanceAs (Decidable (_ ∧ _))

/-- The last block-aligned position whose state can be cached. -/
def lastCachePosition (config : SplitConfig) (request : PrefillRequest)
    (start : ℕ) : ℕ :=
  if config.UsesInternalCheckpoint start then 0
  else
    let aligned := request.numTokens - request.numTokens % config.blockSize
    if config.useEagle = true ∧ config.dflashReplayBoundary = false then
      aligned - config.blockSize
    else aligned

/-- The configured limit of one prefill chunk. -/
def maxPrefillTokens (config : SplitConfig) : ℕ :=
  if 0 < config.longPrefillTokenThreshold then
    min config.maxNumScheduledTokens config.longPrefillTokenThreshold
  else config.maxNumScheduledTokens

/-- The chunk end, clipped to a block boundary where the state of an
intermediate chunk has to be recorded. -/
def clippedEnd (config : SplitConfig) (request : PrefillRequest)
    (start numNewTokens : ℕ) : ℕ :=
  let chunkEnd := start + numNewTokens
  if chunkEnd < request.prefillEnd ∧
      ¬(config.UsesInternalCheckpoint start ∧
        request.numPromptTokens ≤ chunkEnd) ∧
      (¬config.UsesInternalCheckpoint start ∨ config.useEagle = true) then
    let alignedEnd := chunkEnd / config.blockSize * config.blockSize
    if start < alignedEnd ∨
        config.blockSize ≤ config.maxPrefillTokens then alignedEnd
    else chunkEnd
  else chunkEnd

def nextBlockBoundary (config : SplitConfig) (start : ℕ) : ℕ :=
  (start / config.blockSize + 1) * config.blockSize

/-- The last hash boundary of the prompt, with fine-grained hits. -/
def tailBoundary (config : SplitConfig) (request : PrefillRequest) : ℕ :=
  if config.mambaPartialCacheHit = true then
    request.numPromptTokens / config.hashBlockSize * config.hashBlockSize
  else 0

/-- The positions a chunk must not run past; zero stands for none. -/
def stops (config : SplitConfig) (request : PrefillRequest)
    (start chunkEnd : ℕ) : List ℕ :=
  let lastCache := config.lastCachePosition request start
  let tail := config.tailBoundary request
  let boundary := request.sharedPrefixBoundary
  [if start % config.blockSize ≠ 0 then config.nextBlockBoundary start
    else 0,
    lastCache,
    if lastCache < tail ∧ tail < request.numPromptTokens then tail else 0,
    if start < boundary ∧ boundary < chunkEnd then
      start + (boundary - start) / config.blockSize * config.blockSize
    else 0]

/-- The earliest stop strictly inside the chunk, or its end. -/
def earliestStop (positions : List ℕ) (start chunkEnd : ℕ) : ℕ :=
  ((positions.filter fun position =>
    start < position ∧ position < chunkEnd).min?).getD chunkEnd

/-- `_mamba_block_aligned_split`; `start` counts the local and external hits
too. -/
def mambaBlockAlignedSplit (config : SplitConfig) (request : PrefillRequest)
    (start numNewTokens : ℕ) : ℕ :=
  if request.prefillEnd ≤ start then numNewTokens
  else
    let chunkEnd := config.clippedEnd request start numNewTokens
    earliestStop (config.stops request start chunkEnd) start chunkEnd - start

/-- `_reserve_prefill_lookahead` -/
def reservePrefillLookahead (config : SplitConfig) (request : PrefillRequest)
    (numComputedTokens numNewTokens : ℕ) : ℕ :=
  let remaining := request.numTokens - numComputedTokens - numNewTokens
  if 0 < remaining ∧ remaining < config.numPrefillLookahead then
    numNewTokens - (config.numPrefillLookahead - remaining)
  else numNewTokens

/-- The tokens `schedule` assigns to a request without encoder inputs. -/
def assignedTokens (config : SplitConfig) (request : PrefillRequest)
    (start numNewTokens : ℕ) : ℕ :=
  config.reservePrefillLookahead request start
    (config.mambaBlockAlignedSplit request start numNewTokens)

/-! ## The earliest stop -/

theorem earliestStop_eq_or_mem (positions : List ℕ) (start chunkEnd : ℕ) :
    earliestStop positions start chunkEnd = chunkEnd ∨
      (earliestStop positions start chunkEnd ∈ positions ∧
        start < earliestStop positions start chunkEnd ∧
        earliestStop positions start chunkEnd < chunkEnd) := by
  rw [earliestStop]
  cases hmin : (positions.filter fun position =>
      decide (start < position ∧ position < chunkEnd)).min? with
  | none => exact .inl rfl
  | some stop =>
      have hmem := List.min?_mem hmin
      simp only [List.mem_filter, decide_eq_true_eq] at hmem
      exact .inr hmem

theorem earliestStop_le {positions : List ℕ} {start chunkEnd position : ℕ}
    (hmem : position ∈ positions) (hstart : start < position)
    (hend : position < chunkEnd) :
    earliestStop positions start chunkEnd ≤ position := by
  have hinside : position ∈ positions.filter fun position =>
      decide (start < position ∧ position < chunkEnd) := by
    simp only [List.mem_filter, decide_eq_true_eq]
    exact ⟨hmem, hstart, hend⟩
  rw [earliestStop]
  cases hmin : (positions.filter fun position =>
      decide (start < position ∧ position < chunkEnd)).min? with
  | none =>
      rw [List.min?_eq_none_iff] at hmin
      rw [hmin] at hinside
      cases hinside
  | some stop => exact (List.min?_eq_some_iff.mp hmin).2 position hinside

theorem earliestStop_le_end (positions : List ℕ) (start chunkEnd : ℕ) :
    earliestStop positions start chunkEnd ≤ chunkEnd := by
  rcases earliestStop_eq_or_mem positions start chunkEnd with heq | hmem
  · exact heq.le
  · exact hmem.2.2.le

/-- The chunk runs past a position unless a stop at or before it, or its own
end, comes first. -/
def RunsPast (positions : List ℕ) (start chunkEnd position : ℕ) : Prop :=
  position < chunkEnd ∧ ∀ stop ∈ positions,
    start < stop → stop < chunkEnd → position < stop

theorem lt_earliestStop_iff {positions : List ℕ}
    {start chunkEnd position : ℕ} :
    position < earliestStop positions start chunkEnd ↔
      RunsPast positions start chunkEnd position := by
  constructor
  · intro hlt
    refine ⟨hlt.trans_le (earliestStop_le_end _ _ _), ?_⟩
    intro stop hmem hstart hend
    exact hlt.trans_le (earliestStop_le hmem hstart hend)
  · intro hpast
    rcases earliestStop_eq_or_mem positions start chunkEnd with heq | hmem
    · rw [heq]
      exact hpast.1
    · exact hpast.2 _ hmem.1 hmem.2.1 hmem.2.2

/-! ## State positions -/

/-- The positions at which a state has to be recorded: the last cacheable one,
the partial tail beyond it, and the block-floored shared-prefix junction. -/
def statePositions (config : SplitConfig) (request : PrefillRequest)
    (start : ℕ) : List ℕ :=
  let lastCache := config.lastCachePosition request start
  let tail := config.tailBoundary request
  [lastCache, if lastCache < tail then tail else 0,
    request.sharedPrefixBoundary / config.blockSize * config.blockSize]

/-- What a chunk of `assigned` tokens keeps of the state positions. -/
structure RespectsStatePositions (config : SplitConfig)
    (request : PrefillRequest) (start requested assigned : ℕ) : Prop where
  le_requested : assigned ≤ requested
  block : 0 < assigned → start % config.blockSize ≠ 0 →
    start + assigned ≤ config.nextBlockBoundary start
  positions : 0 < assigned →
    ∀ position ∈ config.statePositions request start,
      ¬(start < position ∧ position < start + assigned)
  aligned : 0 < assigned → start + assigned < request.prefillEnd →
    ¬config.UsesInternalCheckpoint start →
    config.blockSize ≤ config.maxPrefillTokens →
      config.blockSize ∣ start + assigned ∨
        start + assigned ∈ config.statePositions request start

/-- The end of the chunk after the split. -/
def splitEnd (config : SplitConfig) (request : PrefillRequest)
    (start numNewTokens : ℕ) : ℕ :=
  let chunkEnd := config.clippedEnd request start numNewTokens
  earliestStop (config.stops request start chunkEnd) start chunkEnd

variable (config : SplitConfig) (request : PrefillRequest)
  {start numNewTokens : ℕ}

theorem clippedEnd_le : config.clippedEnd request start numNewTokens ≤
    start + numNewTokens := by
  simp only [clippedEnd]
  split
  · split
    · exact Nat.div_mul_le_self _ _
    · exact le_rfl
  · exact le_rfl

/-- A clipped end is on a boundary unless the prefill ends there. -/
theorem dvd_clippedEnd
    (hbefore : config.clippedEnd request start numNewTokens <
      request.prefillEnd)
    (hinternal : ¬config.UsesInternalCheckpoint start)
    (hlimit : config.blockSize ≤ config.maxPrefillTokens) :
    config.blockSize ∣ config.clippedEnd request start numNewTokens := by
  simp only [clippedEnd] at hbefore ⊢
  split at hbefore
  · rename_i hclip
    rw [if_pos hclip, if_pos (.inr hlimit)]
    exact Nat.dvd_mul_left _ _
  · rename_i hclip
    exact absurd ⟨hbefore, fun hcover => hinternal hcover.1, .inl hinternal⟩
      hclip

theorem lt_nextBlockBoundary (start : ℕ) :
    start < config.nextBlockBoundary start := by
  have hmod := Nat.mod_lt start config.blockSize_pos
  have hdiv := Nat.div_add_mod' start config.blockSize
  simp only [nextBlockBoundary, Nat.add_mul, Nat.one_mul]
  omega

/-- A block boundary behind the start is at or behind the next one. -/
theorem nextBlockBoundary_le {start multiple : ℕ}
    (hstart : start < multiple * config.blockSize) :
    config.nextBlockBoundary start ≤ multiple * config.blockSize := by
  apply Nat.mul_le_mul_right
  exact (Nat.div_lt_iff_lt_mul config.blockSize_pos).mpr hstart

theorem splitEnd_le_clippedEnd :
    config.splitEnd request start numNewTokens ≤
      config.clippedEnd request start numNewTokens :=
  earliestStop_le_end _ _ _

/-- A stop behind the start bounds the chunk, inside it or not. -/
theorem splitEnd_le_stop {stop : ℕ}
    (hmem : stop ∈ config.stops request start
      (config.clippedEnd request start numNewTokens))
    (hstart : start < stop) :
    config.splitEnd request start numNewTokens ≤ stop := by
  by_cases hinside : stop < config.clippedEnd request start numNewTokens
  · exact earliestStop_le hmem hstart hinside
  · exact (config.splitEnd_le_clippedEnd request).trans
      (Nat.not_lt.mp hinside)

theorem splitEnd_le_nextBlockBoundary
    (hmid : start % config.blockSize ≠ 0) :
    config.splitEnd request start numNewTokens ≤
      config.nextBlockBoundary start := by
  apply config.splitEnd_le_stop request _ (config.lt_nextBlockBoundary start)
  simp only [stops, if_pos hmid]
  exact List.mem_cons_self

/-- The block-floored distance to the junction, from the start of a chunk. -/
theorem junction_eq {start boundary : ℕ}
    (haligned : start % config.blockSize = 0) (hle : start ≤ boundary) :
    start + (boundary - start) / config.blockSize * config.blockSize =
      boundary / config.blockSize * config.blockSize := by
  obtain ⟨blocks, rfl⟩ := Nat.dvd_of_mod_eq_zero haligned
  obtain ⟨rest, rfl⟩ := Nat.exists_eq_add_of_le hle
  rw [Nat.add_sub_cancel_left, Nat.mul_add_div config.blockSize_pos,
    Nat.add_mul, Nat.mul_comm blocks]

/-- The state positions that are not among the stops: a partial tail at the
very end of the prompt, and a junction at or past the end of the chunk. -/
def missedPositions (config : SplitConfig) (request : PrefillRequest)
    (start chunkEnd : ℕ) : List ℕ :=
  let lastCache := config.lastCachePosition request start
  let tail := config.tailBoundary request
  let boundary := request.sharedPrefixBoundary
  [if lastCache < tail ∧ request.numPromptTokens ≤ tail then tail else 0,
    if chunkEnd ≤ boundary then
      boundary / config.blockSize * config.blockSize else 0]

theorem splitEnd_le_position {position : ℕ}
    (hmem : position ∈ config.statePositions request start)
    (hstart : start < position) :
    config.splitEnd request start numNewTokens ≤ position ∨
      position ∈ config.missedPositions request start
        (config.clippedEnd request start numNewTokens) := by
  simp only [statePositions, List.mem_cons, List.not_mem_nil, or_false]
    at hmem
  rcases hmem with rfl | rfl | rfl
  · left
    apply config.splitEnd_le_stop request _ hstart
    simp [stops]
  · by_cases hbeyond : config.lastCachePosition request start <
        config.tailBoundary request
    · rw [if_pos hbeyond] at hstart ⊢
      by_cases hinside : config.tailBoundary request <
          request.numPromptTokens
      · left
        apply config.splitEnd_le_stop request _ hstart
        simp [stops, hbeyond, hinside]
      · right
        simp [missedPositions, hbeyond, Nat.not_lt.mp hinside]
    · rw [if_neg hbeyond] at hstart
      omega
  · have hle := Nat.div_mul_le_self request.sharedPrefixBoundary
      config.blockSize
    by_cases hinside : request.sharedPrefixBoundary <
        config.clippedEnd request start numNewTokens
    · left
      by_cases haligned : start % config.blockSize = 0
      · apply config.splitEnd_le_stop request _ hstart
        have hopen : start < request.sharedPrefixBoundary := by omega
        have hjunction := config.junction_eq haligned hopen.le
        simp [stops, hopen, hinside, hjunction]
      · exact (config.splitEnd_le_nextBlockBoundary request haligned).trans
          (config.nextBlockBoundary_le hstart)
    · right
      simp [missedPositions, Nat.not_lt.mp hinside]

theorem missedPositions_subset {position : ℕ}
    (hmem : position ∈ config.missedPositions request start
      (config.clippedEnd request start numNewTokens))
    (hstart : start < position) :
    position ∈ config.statePositions request start := by
  simp only [missedPositions, List.mem_cons, List.not_mem_nil, or_false]
    at hmem
  rcases hmem with rfl | rfl
  · split at hstart
    · rename_i hbeyond
      simp [statePositions, hbeyond]
    · omega
  · split at hstart
    · rename_i hpast
      simp [statePositions, hpast]
    · omega

/-- Before the lookahead is reserved, a chunk ends where it has to. -/
theorem splitEnd_aligned
    (hbefore : config.splitEnd request start numNewTokens <
      request.prefillEnd)
    (hstart : start < config.splitEnd request start numNewTokens)
    (hinternal : ¬config.UsesInternalCheckpoint start)
    (hlimit : config.blockSize ≤ config.maxPrefillTokens) :
    config.blockSize ∣ config.splitEnd request start numNewTokens ∨
      config.splitEnd request start numNewTokens ∈
        config.statePositions request start := by
  rcases earliestStop_eq_or_mem (config.stops request start
    (config.clippedEnd request start numNewTokens)) start
    (config.clippedEnd request start numNewTokens) with heq | hmem
  · left
    have hend : config.splitEnd request start numNewTokens =
        config.clippedEnd request start numNewTokens := heq
    rw [hend] at hbefore ⊢
    exact config.dvd_clippedEnd request hbefore hinternal hlimit
  · have hstop : config.splitEnd request start numNewTokens ∈
        config.stops request start
          (config.clippedEnd request start numNewTokens) := hmem.1
    simp only [stops, List.mem_cons, List.not_mem_nil, or_false] at hstop
    rcases hstop with hnext | hlast | htail | hjunction
    · left
      rw [hnext]
      split
      · exact Nat.dvd_mul_left _ _
      · exact Nat.dvd_zero _
    · right
      simp [statePositions, hlast]
    · right
      split at htail
      · rename_i hbeyond
        simp [statePositions, htail, hbeyond]
      · omega
    · left
      split at hjunction
      · rename_i hboundary
        by_cases haligned : start % config.blockSize = 0
        · rw [hjunction, config.junction_eq haligned hboundary.1.le]
          exact Nat.dvd_mul_left _ _
        · -- the boundary of the first block comes before the junction
          exfalso
          have hnext : config.splitEnd request start numNewTokens ≤
              config.nextBlockBoundary start :=
            config.splitEnd_le_nextBlockBoundary request haligned
          have hblocks : 1 ≤ (request.sharedPrefixBoundary - start) /
              config.blockSize := by
            by_contra hnone
            rw [Nat.lt_one_iff.mp (Nat.not_le.mp hnone)] at hjunction
            omega
          have hwidth := Nat.mul_le_mul_right config.blockSize hblocks
          have hdiv := Nat.div_add_mod' start config.blockSize
          simp only [nextBlockBoundary, Nat.add_mul, Nat.one_mul]
            at hnext hwidth
          omega
      · omega

/-! ## The reserved lookahead -/

/-- The first of the last tokens that a multi-module drafter reads ahead. -/
def lookaheadStart (config : SplitConfig) (request : PrefillRequest) : ℕ :=
  request.numTokens - config.numPrefillLookahead

/-- The chunk runs into the lookahead without finishing the request, so it is
cut back to where the lookahead starts. -/
def CutShort (config : SplitConfig) (request : PrefillRequest)
    (start numNewTokens : ℕ) : Prop :=
  let chunkEnd := config.clippedEnd request start numNewTokens
  RunsPast (config.stops request start chunkEnd) start chunkEnd
      (config.lookaheadStart request) ∧
    ¬RunsPast (config.stops request start chunkEnd) start chunkEnd
      (request.numTokens - 1)

theorem lt_splitEnd_iff {position : ℕ} :
    RunsPast (config.stops request start
        (config.clippedEnd request start numNewTokens)) start
      (config.clippedEnd request start numNewTokens) position ↔
      position < config.splitEnd request start numNewTokens :=
  lt_earliestStop_iff.symm

/-- The end of the assigned chunk, when anything is assigned. -/
theorem assigned_end (hopen : start < request.prefillEnd)
    (hassigned : 0 < config.assignedTokens request start numNewTokens) :
    start < config.splitEnd request start numNewTokens ∧
      ((config.CutShort request start numNewTokens ∧
          start + config.assignedTokens request start numNewTokens =
            config.lookaheadStart request) ∨
        (¬config.CutShort request start numNewTokens ∧
          start + config.assignedTokens request start numNewTokens =
            config.splitEnd request start numNewTokens)) := by
  have hsplit : config.mambaBlockAlignedSplit request start numNewTokens =
      config.splitEnd request start numNewTokens - start := by
    rw [mambaBlockAlignedSplit, if_neg (Nat.not_le.mpr hopen)]
    rfl
  simp only [assignedTokens, hsplit, reservePrefillLookahead] at hassigned ⊢
  simp only [CutShort, lt_splitEnd_iff, lookaheadStart, Nat.not_lt]
  split at hassigned
  · rename_i hcut
    rw [if_pos hcut]
    refine ⟨by omega, .inl ⟨⟨?_, ?_⟩, ?_⟩⟩
    · omega
    · omega
    · omega
  · rename_i hwhole
    rw [if_neg hwhole]
    refine ⟨by omega, .inr ⟨?_, ?_⟩⟩
    · omega
    · omega

theorem assigned_pos (hopen : start < request.prefillEnd)
    (hsplit : start < config.splitEnd request start numNewTokens)
    (hcut : config.CutShort request start numNewTokens →
      start < config.lookaheadStart request) :
    0 < config.assignedTokens request start numNewTokens := by
  have hgranted : config.mambaBlockAlignedSplit request start numNewTokens =
      config.splitEnd request start numNewTokens - start := by
    rw [mambaBlockAlignedSplit, if_neg (Nat.not_le.mpr hopen)]
    rfl
  simp only [CutShort, lt_splitEnd_iff, lookaheadStart, Nat.not_lt] at hcut
  simp only [assignedTokens, hgranted, reservePrefillLookahead]
  split
  · have hstart := hcut (by omega)
    omega
  · omega

/-- When the state positions are respected: a chunk that is cut back for the
lookahead is cut at a boundary or a state position, and it does not run past a
position that is not among the stops. -/
structure ChunkFits (config : SplitConfig) (request : PrefillRequest)
    (start numNewTokens : ℕ) : Prop where
  lookahead : config.CutShort request start numNewTokens →
    start < config.lookaheadStart request →
    ¬config.UsesInternalCheckpoint start →
    config.blockSize ≤ config.maxPrefillTokens →
      config.blockSize ∣ config.lookaheadStart request ∨
        config.lookaheadStart request ∈
          config.statePositions request start
  missed : ∀ position ∈ config.missedPositions request start
      (config.clippedEnd request start numNewTokens),
    start < position →
    RunsPast (config.stops request start
        (config.clippedEnd request start numNewTokens)) start
      (config.clippedEnd request start numNewTokens) position →
    config.CutShort request start numNewTokens ∧
      config.lookaheadStart request ≤ position

theorem assignedTokens_le :
    config.assignedTokens request start numNewTokens ≤ numNewTokens := by
  have hsplit : config.mambaBlockAlignedSplit request start numNewTokens ≤
      numNewTokens := by
    rw [mambaBlockAlignedSplit]
    split
    · exact le_rfl
    · have hclipped : config.clippedEnd request start numNewTokens ≤
          start + numNewTokens := config.clippedEnd_le request
      have hend : config.splitEnd request start numNewTokens ≤
          config.clippedEnd request start numNewTokens :=
        config.splitEnd_le_clippedEnd request
      simp only [splitEnd] at hend
      dsimp only
      omega
  simp only [assignedTokens, reservePrefillLookahead]
  split
  · omega
  · exact hsplit

theorem CutShort.lt_splitEnd
    (hcut : config.CutShort request start numNewTokens) :
    config.lookaheadStart request <
        config.splitEnd request start numNewTokens ∧
      config.splitEnd request start numNewTokens ≤ request.numTokens - 1 := by
  simp only [CutShort, lt_splitEnd_iff, Nat.not_lt] at hcut
  exact hcut

/-- The assigned chunk never ends behind the split. -/
theorem assigned_end_le (hopen : start < request.prefillEnd)
    (hassigned : 0 < config.assignedTokens request start numNewTokens) :
    start + config.assignedTokens request start numNewTokens ≤
      config.splitEnd request start numNewTokens := by
  obtain ⟨-, hend⟩ := config.assigned_end request hopen hassigned
  rcases hend with ⟨hcut, heq⟩ | ⟨-, heq⟩
  · rw [heq]
    exact (CutShort.lt_splitEnd config request hcut).1.le
  · exact heq.le

/-- For every prefilling request the assigned chunk respects the state
positions exactly when it fits. -/
theorem assigned_respects_iff (start numNewTokens : ℕ)
    (hopen : start < request.prefillEnd) :
    config.RespectsStatePositions request start numNewTokens
        (config.assignedTokens request start numNewTokens) ↔
      config.ChunkFits request start numNewTokens := by
  constructor
  · intro hrespects
    refine ⟨fun hcut hlater hinternal hlimit => ?_,
      fun position hmem hstart hpast => ?_⟩
    · have hends := CutShort.lt_splitEnd config request hcut
      have hassigned := config.assigned_pos request hopen
        (hlater.trans hends.1) fun _ => hlater
      have haligned := hrespects.aligned hassigned
      have hbefore : config.lookaheadStart request < request.prefillEnd := by
        simp only [PrefillRequest.prefillEnd]
        omega
      rcases (config.assigned_end request hopen hassigned).2 with
        ⟨-, heq⟩ | ⟨hwhole, -⟩
      · rw [heq] at haligned
        exact haligned hbefore hinternal hlimit
      · exact absurd hcut hwhole
    · by_contra hreached
      rw [lt_splitEnd_iff] at hpast
      have hposition := config.missedPositions_subset request hmem hstart
      have hlater : config.CutShort request start numNewTokens →
          position < config.lookaheadStart request := fun hcut =>
        Nat.not_le.mp fun hle => hreached ⟨hcut, hle⟩
      have hassigned := config.assigned_pos request hopen
        (hstart.trans hpast) fun hcut => hstart.trans (hlater hcut)
      apply hrespects.positions hassigned position hposition
      refine ⟨hstart, ?_⟩
      rcases (config.assigned_end request hopen hassigned).2 with
        ⟨hcut, heq⟩ | ⟨-, heq⟩
      · rw [heq]
        exact hlater hcut
      · rw [heq]
        exact hpast
  · intro hfits
    refine ⟨config.assignedTokens_le request, fun hassigned hmid => ?_,
      fun hassigned position hmem hinside => ?_,
      fun hassigned hbefore hinternal hlimit => ?_⟩
    · exact (config.assigned_end_le request hopen hassigned).trans
        (config.splitEnd_le_nextBlockBoundary request hmid)
    · have hsplit := config.assigned_end_le request hopen hassigned
      have hpast : position < config.splitEnd request start numNewTokens :=
        hinside.2.trans_le hsplit
      rcases config.splitEnd_le_position request hmem hinside.1 with
        hstop | hmissed
      · exact absurd hpast (Nat.not_lt.mpr hstop)
      · have hcut := hfits.missed position hmissed hinside.1
          ((config.lt_splitEnd_iff request).mpr hpast)
        rcases (config.assigned_end request hopen hassigned).2 with
          ⟨-, heq⟩ | ⟨hwhole, -⟩
        · rw [heq] at hinside
          exact absurd hinside.2 (Nat.not_lt.mpr hcut.2)
        · exact hwhole hcut.1
    · have hends := config.assigned_end request hopen hassigned
      rcases hends.2 with ⟨hcut, heq⟩ | ⟨-, heq⟩
      · rw [heq]
        exact hfits.lookahead hcut (by omega) hinternal hlimit
      · rw [heq] at hbefore ⊢
        exact config.splitEnd_aligned request hbefore hends.1 hinternal hlimit

/-- Blocks of 16 tokens and a drafter that reads three tokens ahead. -/
def multiModuleConfig : SplitConfig where
  blockSize := 16
  blockSize_pos := by decide
  hashBlockSize := 16
  maxNumScheduledTokens := 64
  longPrefillTokenThreshold := 0
  numPrefillLookahead := 3
  useEagle := true
  dflashReplayBoundary := false
  mambaHasPrefillCheckpointBlocks := false
  mambaPartialCacheHit := false

/-- A fresh prompt of `numTokens` tokens. -/
def freshPrompt (numTokens : ℕ) : PrefillRequest where
  numPromptTokens := numTokens
  numTokens := numTokens
  sharedPrefixBoundary := 0

/-- A prompt of 40 tokens in a budget of 40: the first chunk ends on the last
cacheable boundary. -/
theorem assigned_respects_iff_fresh :
    multiModuleConfig.RespectsStatePositions (freshPrompt 40) 0 40
        (multiModuleConfig.assignedTokens (freshPrompt 40) 0 40) ↔
      multiModuleConfig.ChunkFits (freshPrompt 40) 0 40 :=
  assigned_respects_iff multiModuleConfig (freshPrompt 40) 0 40 (by decide)

/-- A prompt of 34 tokens with 16 of them computed and a budget of 16: the
lookahead cuts the chunk's end from 32 back to 31, inside the block. -/
theorem lookahead_ends_inside_block :
    ¬multiModuleConfig.RespectsStatePositions (freshPrompt 34) 16 16
      (multiModuleConfig.assignedTokens (freshPrompt 34) 16 16) := by
  intro hrespects
  have haligned := hrespects.aligned (by decide) (by decide) (by decide)
    (by decide)
  revert haligned
  decide

end SplitConfig

end GlmFlash.Sched
