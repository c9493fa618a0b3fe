import GlmFlash.Cache.ReachableMask

/-!
# Sparse retention and chunks

Whether a block is cached does not depend on the chunk in which it becomes
full.  The blocks that are cached are the tails that lookups need: the ones
that end at a segment, and the ones at the aligned boundaries of the request.
-/

namespace GlmFlash.Cache.Retention

open GlmFlash.Library

variable {arguments : MaskArguments} {alignmentTokens : ℕ}

/-! ## The chunk does not matter -/

/-- A block in the tail of a boundary of the request. -/
def atBoundary (arguments : MaskArguments) (alignmentTokens need shift i : ℕ) :
    Bool :=
  arguments.reachableBoundaries.any fun tokens => inTail need
    (boundaryEnd alignmentTokens arguments.kvCacheSpec.blockSize shift tokens) i

/-- The policy of a sliding-window group for one block. -/
def windowSelects (arguments : MaskArguments) (slidingWindow alignmentTokens : ℕ)
    (i : ℕ) : Bool :=
  let blockSize := arguments.kvCacheSpec.blockSize
  let need := contiguousBlocksForHit slidingWindow blockSize arguments.useEagle
  let shift := if arguments.useEagle then 1 else 0
  (windowSegmentTokens arguments.retentionInterval alignmentTokens).any
      (fun tokens => decide (tokens / blockSize ≤ need) ||
        inWindowSegment shift (tokens / blockSize) need i) ||
    arguments.retentionInterval.isSome &&
      atBoundary arguments alignmentTokens need shift i

/-- The policy of a Mamba group for one block. -/
def mambaSelects (arguments : MaskArguments) (alignmentTokens i : ℕ) : Bool :=
  let blockSize := arguments.kvCacheSpec.blockSize
  match arguments.retentionInterval with
  | none => true
  | some interval =>
      decide (interval ≠ 0) && (decide (interval / blockSize ≤ 1) ||
          endsSegment (interval / blockSize) i) ||
        atBoundary arguments alignmentTokens 1 0 i

def selects (arguments : MaskArguments) (alignmentTokens : ℕ) : ℕ → Bool :=
  match arguments.kvCacheSpec.kind with
  | .slidingWindow slidingWindow =>
      windowSelects arguments slidingWindow alignmentTokens
  | .mamba => mambaSelects arguments alignmentTokens
  | .fullAttention | .chunkedLocal _ => fun _ => true

variable {start stop need shift : ℕ}

theorem markBoundaryTails_maskOf (selects : ℕ → Bool) :
    markBoundaryTails arguments alignmentTokens start stop need shift
        (maskOf selects start stop) =
      maskOf (fun i => selects i || (arguments.retentionInterval.isSome &&
        atBoundary arguments alignmentTokens need shift i)) start stop := by
  rw [markBoundaryTails]
  cases arguments.retentionInterval.isSome with
  | false => exact maskOf_congr fun i _ _ => (Bool.or_false _).symm
  | true =>
      exact foldl_setAll_maskOf arguments.reachableBoundaries
        fun _ _ => mem_boundaryTailOffsets

theorem markBoundaryStates_maskOf (selects : ℕ → Bool) :
    markBoundaryStates arguments alignmentTokens start stop
        (maskOf selects start stop) =
      maskOf (fun i => selects i || atBoundary arguments alignmentTokens 1 0 i)
        start stop := by
  rw [markBoundaryStates, foldl_setAll_maskOf arguments.reachableBoundaries
    fun _ _ => mem_boundaryStateOffsets]
  simp only [Int.sub_add_cancel]
  rfl

section Masks

variable (halignment : arguments.alignmentTokens = some alignmentTokens)

include halignment

theorem slidingWindowMask_bits (slidingWindow start stop : ℕ)
    (hblock : alignmentTokens % arguments.kvCacheSpec.blockSize = 0) :
    ∃ mask, slidingWindowMask arguments slidingWindow start stop = .ok mask ∧
      cachedBits start stop mask =
        maskOf (windowSelects arguments slidingWindow alignmentTokens) start stop := by
  rw [slidingWindowMask, halignment]
  dsimp only
  rw [require, if_pos hblock, ← maskOf_false]
  cases hsegment : windowSegmentTokens arguments.retentionInterval
      alignmentTokens with
  | none =>
      refine ⟨_, rfl, ?_⟩
      rw [cachedBits, markBoundaryTails_maskOf]
      exact maskOf_congr fun i _ _ => by rw [windowSelects, hsegment]; rfl
  | some tokens =>
      by_cases hshort : tokens / arguments.kvCacheSpec.blockSize ≤
          contiguousBlocksForHit slidingWindow arguments.kvCacheSpec.blockSize
            arguments.useEagle
      · refine ⟨none, if_pos hshort, ?_⟩
        rw [cachedBits, ← maskOf_true]
        apply maskOf_congr
        intro i _ _
        rw [windowSelects, hsegment, Option.any_some, decide_eq_true hshort,
          Bool.true_or, Bool.true_or]
      · refine ⟨_, if_neg hshort, ?_⟩
        rw [cachedBits, setAll_maskOf fun _ => mem_segmentTailOffsets,
          markBoundaryTails_maskOf]
        apply maskOf_congr
        intro i _ _
        rw [windowSelects, hsegment, Option.any_some, decide_eq_false hshort,
          Bool.false_or]

theorem mambaMask_bits (start stop : ℕ) :
    cachedBits start stop (mambaMask arguments start stop) =
      maskOf (mambaSelects arguments alignmentTokens) start stop := by
  rw [mambaMask, halignment]
  cases hretention : arguments.retentionInterval with
  | none =>
      rw [cachedBits, ← maskOf_true]
      exact maskOf_congr fun i _ _ => by rw [mambaSelects, hretention]
  | some interval =>
      dsimp only
      rw [← maskOf_false]
      by_cases hzero : interval = 0
      · rw [if_pos hzero, cachedBits, markBoundaryStates_maskOf]
        apply maskOf_congr
        intro i _ _
        rw [mambaSelects, hretention]
        simp [hzero]
      · rw [if_neg hzero]
        by_cases hshort : interval / arguments.kvCacheSpec.blockSize ≤ 1
        · rw [if_pos hshort, cachedBits, ← maskOf_true]
          apply maskOf_congr
          intro i _ _
          rw [mambaSelects, hretention]
          simp [hzero, hshort]
        · have hper : 0 < interval / arguments.kvCacheSpec.blockSize := by omega
          rw [if_neg hshort, cachedBits,
            setAll_maskOf fun _ => mem_segmentStateOffsets hper,
            markBoundaryStates_maskOf]
          apply maskOf_congr
          intro i _ _
          rw [mambaSelects, hretention]
          simp [hzero, hshort]

/-- One predicate of the block says what is cached, whatever the chunk. -/
theorem reachableBlockMask_bits (start stop : ℕ)
    (hblock : alignmentTokens % arguments.kvCacheSpec.blockSize = 0) :
    ∃ mask, reachableBlockMask arguments start stop = .ok mask ∧
      cachedBits start stop mask =
        maskOf (selects arguments alignmentTokens) start stop := by
  rw [reachableBlockMask, selects]
  cases arguments.kvCacheSpec.kind with
  | slidingWindow slidingWindow =>
      exact slidingWindowMask_bits halignment slidingWindow start stop hblock
  | mamba => exact ⟨_, rfl, mambaMask_bits halignment start stop⟩
  | fullAttention => exact ⟨none, rfl, maskOf_true.symm⟩
  | chunkedLocal => exact ⟨none, rfl, maskOf_true.symm⟩

end Masks

/-! ## What lookups need -/

/-- The blocks in a row that a lookup of the kind needs. -/
def lookupNeed (arguments : MaskArguments) : ℕ :=
  match arguments.kvCacheSpec.kind with
  | .slidingWindow slidingWindow => contiguousBlocksForHit slidingWindow
      arguments.kvCacheSpec.blockSize arguments.useEagle
  | _ => 1

/-- How many blocks past the boundary the lookup peeks. -/
def lookupShift (arguments : MaskArguments) : ℕ :=
  match arguments.kvCacheSpec.kind with
  | .slidingWindow _ => if arguments.useEagle then 1 else 0
  | _ => 0

/-- The block is in the tail that a lookup needs for a hit of that length. -/
def Needed (arguments : MaskArguments) (tokens : ℤ) (i : ℕ) : Prop :=
  0 < tokens ∧ inTail (lookupNeed arguments)
    (tokens / arguments.kvCacheSpec.blockSize + lookupShift arguments) i = true

/-- The end of a segment, or a boundary of the request after alignment. -/
def IsBoundary (arguments : MaskArguments) (alignmentTokens : ℕ) (tokens : ℤ) :
    Prop :=
  (∃ segmentTokens count : ℕ, windowSegmentTokens arguments.retentionInterval
      alignmentTokens = some segmentTokens ∧ 0 < count ∧
      tokens = (count * segmentTokens : ℕ)) ∨
    ∃ boundary ∈ arguments.reachableBoundaries,
      tokens = boundary / alignmentTokens * alignmentTokens

/-- What keeps block 0 of an EAGLE group, which lies in front of the first tail
that the loop over the segments marks: segments without a gap between their
tails, or a tail of the request that reaches back to it.  The tail may be that of
a boundary of no tokens. -/
def KeepsFirst (arguments : MaskArguments) (alignmentTokens : ℕ) : Prop :=
  (∃ segmentTokens, windowSegmentTokens arguments.retentionInterval
      alignmentTokens = some segmentTokens ∧
      segmentTokens / arguments.kvCacheSpec.blockSize ≤ lookupNeed arguments) ∨
    arguments.retentionInterval ≠ none ∧ ∃ boundary ∈ arguments.reachableBoundaries,
      0 ≤ boundary / alignmentTokens * alignmentTokens /
          arguments.kvCacheSpec.blockSize ∧
        boundary / alignmentTokens * alignmentTokens /
          arguments.kvCacheSpec.blockSize < lookupNeed arguments

/-- Every block of a Mamba group is cached. -/
def Dense (arguments : MaskArguments) : Prop :=
  arguments.kvCacheSpec.kind = .mamba ∧ arguments.retentionInterval = none

theorem inTail_iff {last : ℤ} {i : ℕ} : inTail need last i = true ↔
    last - need ≤ i ∧ (i : ℤ) < last :=
  decide_eq_true_iff

/-- The last blocks of a segment are the tail that ends where it does. -/
theorem exists_segmentEnd {perSegment i : ℕ} (hper : 0 < perSegment)
    (hshift : shift ≤ i) (hlate : perSegment - need ≤ (i - shift) % perSegment) :
    ∃ count, 0 < count ∧
      inTail need ((count * perSegment : ℕ) + shift : ℤ) i = true := by
  have hsplit := Nat.div_add_mod (i - shift) perSegment
  have hmod := Nat.mod_lt (i - shift) hper
  refine ⟨(i - shift) / perSegment + 1, Nat.succ_pos _, ?_⟩
  rw [inTail_iff, Nat.succ_mul, Nat.mul_comm]
  omega

theorem inWindowSegment_of_segmentEnd {perSegment count i : ℕ}
    (hneed : need < perSegment) (hcount : 0 < count)
    (htail : inTail need ((count * perSegment : ℕ) + shift : ℤ) i = true) :
    inWindowSegment shift perSegment need i = true := by
  obtain ⟨previous, rfl⟩ := Nat.exists_eq_succ_of_ne_zero hcount.ne'
  rw [inTail_iff, Nat.succ_mul] at htail
  rw [inWindowSegment, decide_eq_true_eq]
  have hindex : i - shift =
      (i - shift - previous * perSegment) + previous * perSegment := by omega
  constructor
  · omega
  · rw [hindex, Nat.add_mul_mod_self_right, Nat.mod_eq_of_lt (by omega)]
    omega

/-- The lengths that the coordinator accepts. -/
structure Accepted (arguments : MaskArguments) (alignmentTokens : ℕ) : Prop where
  alignment_pos : 0 < alignmentTokens
  block_pos : 0 < arguments.kvCacheSpec.blockSize
  block_dvd : arguments.kvCacheSpec.blockSize ∣ alignmentTokens
  interval_dvd : ∀ interval, arguments.retentionInterval = some interval →
    alignmentTokens ∣ interval

theorem Accepted.segment {segmentTokens : ℕ}
    (haccepted : Accepted arguments alignmentTokens)
    (hsegment : windowSegmentTokens arguments.retentionInterval alignmentTokens =
      some segmentTokens) :
    0 < segmentTokens ∧ arguments.kvCacheSpec.blockSize ∣ segmentTokens := by
  cases hretention : arguments.retentionInterval with
  | none =>
      rw [hretention, windowSegmentTokens, Option.some.injEq] at hsegment
      exact hsegment ▸ ⟨haccepted.alignment_pos, haccepted.block_dvd⟩
  | some interval =>
      rw [hretention, windowSegmentTokens] at hsegment
      by_cases hzero : interval = 0
      · rw [if_pos hzero] at hsegment
        cases hsegment
      · rw [if_neg hzero, Option.some.injEq] at hsegment
        subst hsegment
        exact ⟨Nat.pos_of_ne_zero hzero,
          haccepted.block_dvd.trans (haccepted.interval_dvd interval hretention)⟩

/-- The end of a segment in blocks. -/
theorem segmentEnd_div {blockSize segmentTokens : ℕ} (hdvd : blockSize ∣ segmentTokens)
    (count : ℕ) : ((count * segmentTokens : ℕ) : ℤ) / blockSize =
      (count * (segmentTokens / blockSize) : ℕ) := by
  rw [← Int.natCast_div, Nat.mul_div_assoc count hdvd]

section Exact

variable (haccepted : Accepted arguments alignmentTokens) {i slidingWindow : ℕ}

include haccepted

theorem needed_of_boundary {boundary : ℤ} (hshift : lookupShift arguments ≤ i)
    (htail : inTail (lookupNeed arguments) (boundaryEnd alignmentTokens
      arguments.kvCacheSpec.blockSize (lookupShift arguments) boundary) i = true) :
    Needed arguments (boundary / alignmentTokens * alignmentTokens) i := by
  refine ⟨?_, htail⟩
  have hblock : (0 : ℤ) < arguments.kvCacheSpec.blockSize :=
    Int.natCast_pos.mpr haccepted.block_pos
  rw [inTail_iff, boundaryEnd] at htail
  by_contra hnonpos
  have hblocks := Int.ediv_nonpos_of_nonpos_of_neg (not_lt.mp hnonpos) hblock
  omega

theorem needed_of_segment {segmentTokens : ℕ}
    (hsegment : windowSegmentTokens arguments.retentionInterval alignmentTokens =
      some segmentTokens) (hshift : lookupShift arguments ≤ i)
    (hlate : segmentTokens / arguments.kvCacheSpec.blockSize - lookupNeed arguments ≤
      (i - lookupShift arguments) %
        (segmentTokens / arguments.kvCacheSpec.blockSize)) :
    ∃ tokens, IsBoundary arguments alignmentTokens tokens ∧
      Needed arguments tokens i := by
  obtain ⟨hpos, hdvd⟩ := haccepted.segment hsegment
  have hper : 0 < segmentTokens / arguments.kvCacheSpec.blockSize :=
    Nat.div_pos (Nat.le_of_dvd hpos hdvd) haccepted.block_pos
  obtain ⟨count, hcount, htail⟩ := exists_segmentEnd hper hshift hlate
  refine ⟨_, .inl ⟨segmentTokens, count, hsegment, hcount, rfl⟩, ?_, ?_⟩
  · exact Int.natCast_pos.mpr (Nat.mul_pos hcount hpos)
  · rw [segmentEnd_div hdvd]
    exact htail

theorem windowSelects_needed
    (hkind : arguments.kvCacheSpec.kind = .slidingWindow slidingWindow)
    (hshift : lookupShift arguments ≤ i)
    (hselects : windowSelects arguments slidingWindow alignmentTokens i = true) :
    ∃ tokens, IsBoundary arguments alignmentTokens tokens ∧
      Needed arguments tokens i := by
  have hneed : contiguousBlocksForHit slidingWindow arguments.kvCacheSpec.blockSize
      arguments.useEagle = lookupNeed arguments := by
    rw [lookupNeed, hkind]
  have hpeek : (if arguments.useEagle then 1 else 0) = lookupShift arguments := by
    rw [lookupShift, hkind]
  rw [windowSelects, Bool.or_eq_true, Bool.and_eq_true, Option.any_eq_true] at hselects
  rw [hneed, hpeek] at hselects
  rcases hselects with ⟨segmentTokens, hsegment, htail⟩ | ⟨-, hboundary⟩
  · apply needed_of_segment haccepted hsegment hshift
    rw [Bool.or_eq_true, decide_eq_true_eq, inWindowSegment, decide_eq_true_eq] at htail
    rcases htail with hshort | htail
    · rw [Nat.sub_eq_zero_of_le hshort]
      exact Nat.zero_le _
    · exact htail.2
  · rw [atBoundary, List.any_eq_true] at hboundary
    obtain ⟨boundary, hmem, htail⟩ := hboundary
    exact ⟨_, .inr ⟨boundary, hmem, rfl⟩, needed_of_boundary haccepted hshift htail⟩

theorem windowSelects_of_needed
    (hkind : arguments.kvCacheSpec.kind = .slidingWindow slidingWindow) {tokens : ℤ}
    (hboundary : IsBoundary arguments alignmentTokens tokens)
    (hneeded : Needed arguments tokens i) :
    windowSelects arguments slidingWindow alignmentTokens i = true := by
  have hneed : contiguousBlocksForHit slidingWindow arguments.kvCacheSpec.blockSize
      arguments.useEagle = lookupNeed arguments := by
    rw [lookupNeed, hkind]
  have hpeek : (if arguments.useEagle then 1 else 0) = lookupShift arguments := by
    rw [lookupShift, hkind]
  have hsegments {segmentTokens count : ℕ}
      (hsegment : windowSegmentTokens arguments.retentionInterval alignmentTokens =
        some segmentTokens) (hcount : 0 < count)
      (htokens : tokens = (count * segmentTokens : ℕ)) :
      windowSelects arguments slidingWindow alignmentTokens i = true := by
    obtain ⟨-, hdvd⟩ := haccepted.segment hsegment
    have htail := hneeded.2
    rw [htokens, segmentEnd_div hdvd] at htail
    rw [windowSelects, Bool.or_eq_true, Option.any_eq_true]
    rw [hneed, hpeek]
    refine .inl ⟨segmentTokens, hsegment, ?_⟩
    rw [Bool.or_eq_true, decide_eq_true_eq]
    by_cases hshort : segmentTokens / arguments.kvCacheSpec.blockSize ≤
        lookupNeed arguments
    · exact .inl hshort
    · exact .inr (inWindowSegment_of_segmentEnd (Nat.lt_of_not_le hshort) hcount htail)
  rcases hboundary with ⟨segmentTokens, count, hsegment, hcount, htokens⟩ |
    ⟨boundary, hmem, htokens⟩
  · exact hsegments hsegment hcount htokens
  · cases hretention : arguments.retentionInterval with
    | none =>
        -- Every aligned boundary ends a segment here.
        have hpos : 0 < boundary / alignmentTokens :=
          pos_of_mul_pos_left (htokens ▸ hneeded.1) (Int.natCast_nonneg _)
        have hcount : (((boundary / alignmentTokens).toNat : ℕ) : ℤ) =
            boundary / alignmentTokens := Int.toNat_of_nonneg hpos.le
        apply @hsegments alignmentTokens (boundary / alignmentTokens).toNat
        · rw [hretention, windowSegmentTokens]
        · omega
        · rw [htokens, Nat.cast_mul, hcount]
    | some interval =>
        rw [windowSelects, Bool.or_eq_true, Bool.and_eq_true, hretention]
        rw [hneed, hpeek]
        refine .inr ⟨rfl, ?_⟩
        rw [atBoundary, List.any_eq_true]
        refine ⟨boundary, hmem, ?_⟩
        rw [boundaryEnd, ← htokens]
        exact hneeded.2

omit haccepted in
theorem windowSelects_first
    (hkind : arguments.kvCacheSpec.kind = .slidingWindow slidingWindow)
    (hfirst : i < lookupShift arguments) :
    windowSelects arguments slidingWindow alignmentTokens i = true ↔
      KeepsFirst arguments alignmentTokens := by
  have hneed : contiguousBlocksForHit slidingWindow arguments.kvCacheSpec.blockSize
      arguments.useEagle = lookupNeed arguments := by
    rw [lookupNeed, hkind]
  have hpeek : (if arguments.useEagle then 1 else 0) = lookupShift arguments := by
    rw [lookupShift, hkind]
  have hshift : lookupShift arguments = 1 := by
    rw [← hpeek] at hfirst ⊢
    split at hfirst
    · rename_i heagle
      rw [if_pos heagle]
    · omega
  have hindex : i = 0 := by omega
  rw [windowSelects, Bool.or_eq_true, Bool.and_eq_true, Option.any_eq_true,
    Option.isSome_iff_ne_none, hneed, hpeek, hindex, hshift, KeepsFirst]
  refine or_congr (exists_congr fun tokens => and_congr_right fun _ => ?_)
    (and_congr_right fun _ => ?_)
  · rw [Bool.or_eq_true, decide_eq_true_eq, inWindowSegment, decide_eq_true_eq]
    exact or_iff_left fun hlate => absurd hlate.1 (by decide)
  · rw [atBoundary, List.any_eq_true]
    refine exists_congr fun boundary => and_congr_right fun _ => ?_
    rw [inTail_iff, boundaryEnd]
    omega

theorem mambaSelects_needed (hkind : arguments.kvCacheSpec.kind = .mamba)
    (hsparse : arguments.retentionInterval ≠ none)
    (hselects : mambaSelects arguments alignmentTokens i = true) :
    ∃ tokens, IsBoundary arguments alignmentTokens tokens ∧
      Needed arguments tokens i := by
  have hneed : lookupNeed arguments = 1 := by
    rw [lookupNeed, hkind]
  have hshift : lookupShift arguments = 0 := by
    rw [lookupShift, hkind]
  obtain ⟨interval, hretention⟩ := Option.ne_none_iff_exists'.mp hsparse
  rw [mambaSelects, hretention, Bool.or_eq_true, Bool.and_eq_true,
    decide_eq_true_eq, Bool.or_eq_true, decide_eq_true_eq, endsSegment,
    decide_eq_true_eq] at hselects
  rcases hselects with ⟨hpos, hends⟩ | hboundary
  · have hsegment : windowSegmentTokens arguments.retentionInterval
        alignmentTokens = some interval := by
      rw [hretention, windowSegmentTokens, if_neg hpos]
    apply needed_of_segment haccepted hsegment (hshift ▸ Nat.zero_le i)
    rw [hneed, hshift, Nat.sub_zero]
    rcases hends with hshort | ⟨count, hcount⟩
    · rw [Nat.sub_eq_zero_of_le hshort]
      exact Nat.zero_le _
    · have hper : 0 < interval / arguments.kvCacheSpec.blockSize := by
        apply Nat.pos_of_ne_zero
        rintro hzero
        rw [hzero, Nat.zero_mul] at hcount
        cases hcount
      obtain ⟨previous, rfl⟩ : ∃ previous, count = previous + 1 := by
        apply Nat.exists_eq_add_one_of_ne_zero
        rintro rfl
        cases hcount
      have hindex : i = interval / arguments.kvCacheSpec.blockSize - 1 +
          interval / arguments.kvCacheSpec.blockSize * previous := by
        rw [Nat.mul_succ] at hcount
        omega
      rw [hindex, Nat.add_mul_mod_self_left, Nat.mod_eq_of_lt (by omega)]
  · rw [atBoundary, List.any_eq_true] at hboundary
    obtain ⟨boundary, hmem, htail⟩ := hboundary
    refine ⟨_, .inr ⟨boundary, hmem, rfl⟩, ?_⟩
    apply needed_of_boundary haccepted (hshift ▸ Nat.zero_le i)
    rw [hneed, hshift]
    exact htail

theorem mambaSelects_of_needed (hkind : arguments.kvCacheSpec.kind = .mamba)
    {tokens : ℤ} (hboundary : IsBoundary arguments alignmentTokens tokens)
    (hneeded : Needed arguments tokens i) :
    mambaSelects arguments alignmentTokens i = true := by
  have htail := hneeded.2
  have hneed : lookupNeed arguments = 1 := by
    rw [lookupNeed, hkind]
  have hshift : lookupShift arguments = 0 := by
    rw [lookupShift, hkind]
  rw [hneed, hshift] at htail
  rw [mambaSelects]
  cases hretention : arguments.retentionInterval with
  | none => rfl
  | some interval =>
      dsimp only
      rw [Bool.or_eq_true, Bool.and_eq_true, decide_eq_true_eq, Bool.or_eq_true,
        decide_eq_true_eq, endsSegment, decide_eq_true_eq]
      rcases hboundary with ⟨segmentTokens, count, hsegment, hcount, htokens⟩ |
        ⟨boundary, hmem, htokens⟩
      · obtain ⟨hpos, hdvd⟩ := haccepted.segment hsegment
        rw [hretention, windowSegmentTokens] at hsegment
        by_cases hzero : interval = 0
        · rw [if_pos hzero] at hsegment
          cases hsegment
        · rw [if_neg hzero, Option.some.injEq] at hsegment
          subst hsegment
          rw [htokens, segmentEnd_div hdvd, inTail_iff] at htail
          refine .inl ⟨hzero, .inr ⟨count, ?_⟩⟩
          rw [Nat.mul_comm]
          omega
      · refine .inr ?_
        rw [atBoundary, List.any_eq_true]
        refine ⟨boundary, hmem, ?_⟩
        rw [boundaryEnd, ← htokens]
        exact htail

end Exact

/-! ## Chunks -/

theorem accepted_of_checks {groups : List GroupSpec}
    {schedulerBlockSize hashBlockSize : ℕ}
    (hchecks : coordinatorChecks groups schedulerBlockSize hashBlockSize
      (arguments.retentionInterval.map Int.ofNat) = .ok ())
    (hspec : arguments.kvCacheSpec ∈ groups)
    (hsparse : isSparse arguments.kvCacheSpec = true) (hpos : 0 < schedulerBlockSize) :
    Accepted arguments schedulerBlockSize := by
  simp only [coordinatorChecks, bind_eq_ok, require_eq_ok] at hchecks
  obtain ⟨-, ⟨-, hblocks⟩, hvalid⟩ := hchecks
  have hdvd : arguments.kvCacheSpec.blockSize ∣ schedulerBlockSize :=
    Nat.dvd_of_mod_eq_zero (hblocks _ hspec)
  refine ⟨hpos, Nat.pos_of_dvd_of_pos hdvd hpos, hdvd, ?_⟩
  intro interval hretention
  have hany : groups.any isSparse = true := List.any_eq_true.mpr ⟨_, hspec, hsparse⟩
  rw [hretention, Option.map_some, validateRetentionInterval] at hvalid
  rw [if_pos hany, require_eq_ok] at hvalid
  exact Int.natCast_dvd_natCast.mp (Int.dvd_of_emod_eq_zero hvalid.2)

/-- Which blocks of a chunk are cached. -/
def chunkBits (arguments : MaskArguments) (start stop : ℕ) :
    Except Failure (List Bool) := do
  let mask ← reachableBlockMask arguments start stop
  return cachedBits start stop mask

/-- Chunk after chunk. -/
def cutBits (arguments : MaskArguments) (start : ℕ) (cuts : List ℕ) :
    Except Failure (List Bool) := do
  let chunks ← (pieces start cuts).mapM fun piece =>
    chunkBits arguments piece.1 piece.2
  return chunks.flatten

theorem chunkBits_eq (haccepted : Accepted arguments alignmentTokens)
    (halignment : arguments.alignmentTokens = some alignmentTokens)
    (start stop : ℕ) : chunkBits arguments start stop =
      .ok (maskOf (selects arguments alignmentTokens) start stop) := by
  obtain ⟨mask, hmask, hbits⟩ := reachableBlockMask_bits halignment start stop
    (Nat.mod_eq_zero_of_dvd haccepted.block_dvd)
  rw [chunkBits, hmask, ← hbits]
  rfl

theorem cutBits_eq {cuts : List ℕ} (haccepted : Accepted arguments alignmentTokens)
    (halignment : arguments.alignmentTokens = some alignmentTokens)
    (hcuts : (start :: cuts).Pairwise (· ≤ ·)) : cutBits arguments start cuts =
      .ok (maskOf (selects arguments alignmentTokens) start (lastCut start cuts)) := by
  have hchunks : (fun piece : ℕ × ℕ => chunkBits arguments piece.1 piece.2) =
      fun piece => pure (maskOf (selects arguments alignmentTokens) piece.1
        piece.2) := by
    funext piece
    exact chunkBits_eq haccepted halignment piece.1 piece.2
  rw [cutBits, hchunks, List.mapM_pure, ← maskOf_pieces hcuts, List.flatMap_def]
  rfl

theorem selects_iff {i : ℕ} (haccepted : Accepted arguments alignmentTokens)
    (hsparse : isSparse arguments.kvCacheSpec = true) (hdense : ¬Dense arguments) :
    ((∃ tokens, IsBoundary arguments alignmentTokens tokens ∧
        Needed arguments tokens i) → selects arguments alignmentTokens i = true) ∧
      (lookupShift arguments ≤ i → selects arguments alignmentTokens i = true →
        ∃ tokens, IsBoundary arguments alignmentTokens tokens ∧
          Needed arguments tokens i) ∧
      (i < lookupShift arguments → (selects arguments alignmentTokens i = true ↔
        KeepsFirst arguments alignmentTokens)) := by
  cases hkind : arguments.kvCacheSpec.kind with
  | fullAttention =>
      rw [isSparse, hkind] at hsparse
      cases hsparse
  | chunkedLocal =>
      rw [isSparse, hkind] at hsparse
      cases hsparse
  | mamba =>
      have hretention : arguments.retentionInterval ≠ none :=
        fun hnone => hdense ⟨hkind, hnone⟩
      rw [selects, hkind]
      exact ⟨fun ⟨_, hboundary, hneeded⟩ =>
          mambaSelects_of_needed haccepted hkind hboundary hneeded,
        fun _ hselects => mambaSelects_needed haccepted hkind hretention hselects,
        fun hfirst => absurd hfirst (by rw [lookupShift, hkind]; exact Nat.not_lt_zero i)⟩
  | slidingWindow slidingWindow =>
      rw [selects, hkind]
      exact ⟨fun ⟨_, hboundary, hneeded⟩ =>
          windowSelects_of_needed haccepted hkind hboundary hneeded,
        fun hshift hselects =>
          windowSelects_needed haccepted hkind hshift hselects,
        windowSelects_first hkind⟩

end GlmFlash.Cache.Retention
