import GlmFlash.Cache.Manager
import GlmFlash.Cache.Retention

/-!
# The masks of the managers

The managers compute their masks block by block.  They cache the same blocks
as the assignments of `reachable_block_mask`: the ones that lookups need.
-/

namespace GlmFlash.Cache

open GlmFlash.Library

namespace SingleTypeKVCacheManager

open GlmFlash.Cache.Retention

variable {R H : Type} [DecidableEq R]
  {manager : SingleTypeKVCacheManager R H} {retentionInterval : Option ℕ}
  {reachableBoundaries : List ℕ} {start stop : ℕ}

/-- What a manager passes on to `reachable_block_mask`. -/
def maskArguments (manager : SingleTypeKVCacheManager R H) (kind : SpecKind)
    (retentionInterval : Option ℕ) (reachableBoundaries : List ℕ) :
    MaskArguments where
  alignmentTokens := some manager.schedulerBlockSize
  kvCacheSpec := ⟨kind, manager.specBlockSize, false, 0⟩
  useEagle := manager.useEagle
  retentionInterval := retentionInterval
  reachableBoundaries := reachableBoundaries.map Int.ofNat

theorem inTail_boundaryEnd (alignmentTokens blockSize need shift boundary i : ℕ) :
    inTail need (boundaryEnd alignmentTokens blockSize shift boundary) i =
      (decide (boundary / alignmentTokens * alignmentTokens / blockSize + shift -
          need ≤ i) &&
        decide (i < boundary / alignmentTokens * alignmentTokens / blockSize +
          shift)) := by
  have hend : boundaryEnd alignmentTokens blockSize shift boundary =
      (boundary / alignmentTokens * alignmentTokens / blockSize + shift : ℕ) := by
    rw [boundaryEnd]
    norm_cast
  rw [hend, ← Bool.decide_and, inTail, decide_eq_decide]
  omega

theorem atBoundary_maskArguments (kind : SpecKind) (need shift i : ℕ) :
    atBoundary (manager.maskArguments kind retentionInterval reachableBoundaries)
        manager.schedulerBlockSize need shift i =
      reachableBoundaries.any fun boundary =>
        decide (boundary / manager.schedulerBlockSize *
            manager.schedulerBlockSize / manager.specBlockSize + shift - need ≤
              i) &&
          decide (i < boundary / manager.schedulerBlockSize *
            manager.schedulerBlockSize / manager.specBlockSize + shift) := by
  rw [atBoundary, maskArguments, List.any_map]
  congr 1
  funext boundary
  exact inTail_boundaryEnd _ _ _ _ _ _

/-- The mask of a sliding window, with the segments under their name. -/
theorem slidingWindowMask_eq (slidingWindow : ℕ) :
    manager.slidingWindowMask slidingWindow start stop retentionInterval
        reachableBoundaries =
      if (windowSegmentTokens retentionInterval manager.schedulerBlockSize).any
          fun tokens => decide (tokens / manager.specBlockSize ≤
            cdiv (slidingWindow - 1) manager.specBlockSize +
              manager.useEagle.toNat) then none
      else some (maskOf (fun i =>
        (windowSegmentTokens retentionInterval manager.schedulerBlockSize).any
            (fun tokens => decide (manager.useEagle.toNat ≤ i) &&
              decide (tokens / manager.specBlockSize -
                  (cdiv (slidingWindow - 1) manager.specBlockSize +
                    manager.useEagle.toNat) ≤
                (i - manager.useEagle.toNat) %
                  (tokens / manager.specBlockSize))) ||
          retentionInterval.isSome && atBoundary
            (manager.maskArguments (.slidingWindow slidingWindow)
              retentionInterval reachableBoundaries) manager.schedulerBlockSize
            (cdiv (slidingWindow - 1) manager.specBlockSize +
              manager.useEagle.toNat) manager.useEagle.toNat i) start stop) := by
  simp only [atBoundary_maskArguments]
  match retentionInterval with
  | none => rfl
  | some 0 => rfl
  | some (interval + 1) => rfl

theorem cachedBits_slidingWindowMask (slidingWindow : ℕ) :
    cachedBits start stop (manager.slidingWindowMask slidingWindow start stop
        retentionInterval reachableBoundaries) =
      maskOf (windowSelects (manager.maskArguments (.slidingWindow slidingWindow)
        retentionInterval reachableBoundaries) slidingWindow
          manager.schedulerBlockSize) start stop := by
  have hshift : manager.useEagle.toNat = if manager.useEagle then 1 else 0 := by
    cases manager.useEagle with
    | false => rfl
    | true => rfl
  have hselects (i : ℕ) : windowSelects
      (manager.maskArguments (.slidingWindow slidingWindow) retentionInterval
        reachableBoundaries) slidingWindow manager.schedulerBlockSize i =
      ((windowSegmentTokens retentionInterval manager.schedulerBlockSize).any
          (fun tokens => decide (tokens / manager.specBlockSize ≤
              cdiv (slidingWindow - 1) manager.specBlockSize +
                manager.useEagle.toNat) ||
            inWindowSegment manager.useEagle.toNat
              (tokens / manager.specBlockSize)
              (cdiv (slidingWindow - 1) manager.specBlockSize +
                manager.useEagle.toNat) i) ||
        retentionInterval.isSome && atBoundary
          (manager.maskArguments (.slidingWindow slidingWindow) retentionInterval
            reachableBoundaries) manager.schedulerBlockSize
          (cdiv (slidingWindow - 1) manager.specBlockSize +
            manager.useEagle.toNat) manager.useEagle.toNat i) := by
    rw [hshift]
    rfl
  rw [slidingWindowMask_eq]
  cases hsegment : windowSegmentTokens retentionInterval
      manager.schedulerBlockSize with
  | none =>
      refine maskOf_congr fun i _ _ => ?_
      rw [hselects, hsegment, Option.any_none, Option.any_none]
  | some tokens =>
      by_cases hshort : tokens / manager.specBlockSize ≤
          cdiv (slidingWindow - 1) manager.specBlockSize + manager.useEagle.toNat
      · rw [Option.any_some, if_pos (decide_eq_true hshort)]
        refine maskOf_true.symm.trans (maskOf_congr fun i _ _ => ?_)
        rw [hselects, hsegment, Option.any_some, decide_eq_true hshort,
          Bool.true_or, Bool.true_or]
      · rw [Option.any_some, if_neg (mt of_decide_eq_true hshort)]
        refine maskOf_congr fun i _ _ => ?_
        rw [hselects, hsegment, Option.any_some, Option.any_some,
          decide_eq_false hshort, Bool.false_or, inWindowSegment,
          Bool.decide_and]

theorem cachedBits_mambaMask :
    cachedBits start stop (manager.mambaMask start stop retentionInterval
        reachableBoundaries) =
      maskOf (mambaSelects (manager.maskArguments .mamba retentionInterval
        reachableBoundaries) manager.schedulerBlockSize) start stop := by
  cases retentionInterval with
  | none => exact maskOf_true.symm
  | some interval =>
      have hboundary (i : ℕ) : atBoundary (manager.maskArguments .mamba
          (some interval) reachableBoundaries) manager.schedulerBlockSize 1 0 i =
          reachableBoundaries.any fun boundary =>
            i + 1 == boundary / manager.schedulerBlockSize *
              manager.schedulerBlockSize / manager.specBlockSize := by
        rw [atBoundary_maskArguments]
        congr 1
        funext boundary
        rw [Nat.add_zero, ← Bool.decide_and, Bool.eq_iff_iff, decide_eq_true_eq,
          beq_iff_eq]
        omega
      rw [mambaMask]
      by_cases hshort : interval ≠ 0 ∧ interval / manager.specBlockSize ≤ 1
      · rw [if_pos hshort]
        refine maskOf_true.symm.trans (maskOf_congr fun i _ _ => ?_)
        simp [mambaSelects, maskArguments, hshort]
      · rw [if_neg hshort]
        refine maskOf_congr fun i _ _ => ?_
        have hends : (interval != 0 && (i + 1) % (interval / manager.specBlockSize) ==
              0) = (decide (interval ≠ 0) &&
            (decide (interval / manager.specBlockSize ≤ 1) ||
              endsSegment (interval / manager.specBlockSize) i)) := by
          rw [Bool.eq_iff_iff, endsSegment]
          simp only [Bool.and_eq_true, bne_iff_ne, beq_iff_eq, Bool.or_eq_true,
            decide_eq_true_eq, Nat.dvd_iff_mod_eq_zero]
          exact and_congr_right fun hpos =>
            (or_iff_right fun hle => hshort ⟨hpos, hle⟩).symm
        exact congrArg₂ or hends (hboundary i).symm

/-- The kind of the spec of a manager whose masks are sparse. -/
def sparseKind (manager : SingleTypeKVCacheManager R H) : Option SpecKind :=
  match manager.kind with
  | .slidingWindow slidingWindow _ => some (.slidingWindow slidingWindow)
  | .mamba _ => some .mamba
  | _ => none

/-- A manager caches what the assignments of its class select. -/
theorem chunkBits_maskArguments {kind : SpecKind}
    (hkind : manager.sparseKind = some kind)
    (haccepted : Accepted (manager.maskArguments kind retentionInterval
      reachableBoundaries) manager.schedulerBlockSize) :
    chunkBits (manager.maskArguments kind retentionInterval reachableBoundaries)
        start stop =
      .ok (cachedBits start stop (manager.reachableBlockMask start stop
        retentionInterval reachableBoundaries)) := by
  rw [chunkBits_eq haccepted rfl, SingleTypeKVCacheManager.reachableBlockMask]
  rw [sparseKind] at hkind
  cases hmanager : manager.kind with
  | slidingWindow slidingWindow _ =>
      rw [hmanager, Option.some.injEq] at hkind
      subst hkind
      exact congrArg Except.ok (cachedBits_slidingWindowMask slidingWindow).symm
  | mamba _ =>
      rw [hmanager, Option.some.injEq] at hkind
      subst hkind
      exact congrArg Except.ok cachedBits_mambaMask.symm
  | _ =>
      rw [hmanager] at hkind
      cases hkind

end SingleTypeKVCacheManager

namespace Retention

variable {arguments : MaskArguments}

/-- Chunks can be cut anywhere, and a block is cached when a lookup needs it at
a boundary.  Apart from dense Mamba groups and from the first block of an EAGLE
group, no other block is.  The managers cache these blocks. -/
theorem chunks_cache_needed_blocks {groups : List GroupSpec}
    {schedulerBlockSize hashBlockSize : ℕ}
    (hchecks : coordinatorChecks groups schedulerBlockSize hashBlockSize
      (arguments.retentionInterval.map Int.ofNat) = .ok ())
    (hpos : 0 < schedulerBlockSize) (hspec : arguments.kvCacheSpec ∈ groups)
    (hsparse : isSparse arguments.kvCacheSpec = true)
    (halignment : arguments.alignmentTokens = some schedulerBlockSize) :
    (∀ start cuts, (start :: cuts).Pairwise (· ≤ ·) →
        cutBits arguments start cuts =
          chunkBits arguments start (lastCut start cuts)) ∧
      ∀ start stop, ∃ bits, chunkBits arguments start stop = .ok bits ∧
        bits.length = stop - start ∧
        (∀ (R H : Type) [DecidableEq R] (manager : SingleTypeKVCacheManager R H) kind
            retentionInterval reachableBoundaries, manager.sparseKind = some kind →
          arguments = manager.maskArguments kind retentionInterval reachableBoundaries →
            cachedBits start stop (manager.reachableBlockMask start stop retentionInterval
              reachableBoundaries) = bits) ∧
        ∀ i, start ≤ i → i < stop →
          (Dense arguments → bits[i - start]? = some true) ∧
          (¬Dense arguments →
            ((∃ tokens, IsBoundary arguments schedulerBlockSize tokens ∧
                Needed arguments tokens i) → bits[i - start]? = some true) ∧
            (lookupShift arguments ≤ i → bits[i - start]? = some true →
              ∃ tokens, IsBoundary arguments schedulerBlockSize tokens ∧
                Needed arguments tokens i) ∧
            (i < lookupShift arguments → (bits[i - start]? = some true ↔
              KeepsFirst arguments schedulerBlockSize))) := by
  have haccepted := accepted_of_checks hchecks hspec hsparse hpos
  constructor
  · intro start cuts hcuts
    rw [cutBits_eq haccepted halignment hcuts, chunkBits_eq haccepted halignment]
  · intro start stop
    refine ⟨_, chunkBits_eq haccepted halignment start stop, length_maskOf,
      ?_, fun i hstart hstop => ?_⟩
    · rintro R H _ manager kind retentionInterval reachableBoundaries hkind rfl
      obtain rfl : manager.schedulerBlockSize = schedulerBlockSize :=
        Option.some.inj halignment
      exact Except.ok.inj ((SingleTypeKVCacheManager.chunkBits_maskArguments hkind
        haccepted).symm.trans (chunkBits_eq haccepted halignment start stop))
    · have hbit : (maskOf (selects arguments schedulerBlockSize) start stop)[i - start]? =
          some (selects arguments schedulerBlockSize i) := by
        rw [getElem?_maskOf (by omega), Nat.add_sub_cancel' hstart]
      rw [hbit, Option.some.injEq]
      constructor
      · rintro ⟨hkind, hretention⟩
        rw [selects, hkind]
        dsimp only
        rw [mambaSelects, hretention]
      · exact selects_iff haccepted hsparse

/-- A prompt of 100 tokens, with blocks of 4 and hits of 8. -/
def promptArguments (kind : SpecKind) (useEagle : Bool)
    (retentionInterval : Option ℕ) : MaskArguments where
  alignmentTokens := some 8
  kvCacheSpec := ⟨kind, 4, false, 0⟩
  useEagle := useEagle
  retentionInterval := retentionInterval
  reachableBoundaries := [99]

theorem promptArguments_boundary {kind : SpecKind} {useEagle : Bool} {tokens : ℤ}
    (hboundary : IsBoundary (promptArguments kind useEagle none) 8 tokens)
    (hpos : 0 < tokens) : 8 ≤ tokens := by
  rcases hboundary with ⟨segmentTokens, count, hsegment, hcount, rfl⟩ |
    ⟨boundary, hmem, rfl⟩
  · cases hsegment
    omega
  · rw [promptArguments, List.mem_singleton] at hmem
    subst hmem
    decide

/-- A dense Mamba group caches the state at 4 tokens, where no hit can end, and
an EAGLE group its first block, which a hit of 8 tokens does not need. -/
theorem unneeded_blocks_cached :
    (chunkBits (promptArguments .mamba false none) 0 1 = .ok [true] ∧
        ¬∃ tokens, IsBoundary (promptArguments .mamba false none) 8 tokens ∧
          Needed (promptArguments .mamba false none) tokens 0) ∧
      chunkBits (promptArguments (.slidingWindow 5) true none) 0 1 = .ok [true] ∧
        ¬∃ tokens, IsBoundary (promptArguments (.slidingWindow 5) true none) 8 tokens ∧
          Needed (promptArguments (.slidingWindow 5) true none) tokens 0 := by
  have hneed : lookupNeed (promptArguments (.slidingWindow 5) true none) = 2 := by
    decide
  refine ⟨⟨rfl, ?_⟩, ?_, ?_⟩
  · rintro ⟨tokens, hboundary, hpos, htail⟩
    have hlong := promptArguments_boundary hboundary hpos
    rw [inTail_iff] at htail
    change tokens / 4 + 0 - 1 ≤ 0 ∧ 0 < tokens / 4 + 0 at htail
    omega
  · decide
  · rintro ⟨tokens, hboundary, hpos, htail⟩
    have hlong := promptArguments_boundary hboundary hpos
    rw [hneed, inTail_iff] at htail
    change tokens / 4 + 1 - 2 ≤ 0 ∧ 0 < tokens / 4 + 1 at htail
    omega

theorem windowBlock_pos : 0 < 4 := by
  decide

/-- The manager of an EAGLE group with windows of 5 tokens. -/
def windowManager : SingleTypeKVCacheManager ℕ ℕ :=
  .init {
    kvCacheGroupId := 0
    kind := .slidingWindow 5 0
    blockSize := 4
    blockSize_pos := windowBlock_pos
    specBlockSize := 4
    schedulerBlockSize := 8
    useEagle := true
    maxAdmissionBlocksPerRequest := none }

/-- An EAGLE group with a tail every 16 tokens, cached in three chunks: blocks 3 and
4 are the tail at 16 tokens, and nothing keeps block 0. -/
theorem chunks_cache_needed_blocks_three : ∃ bits,
    cutBits (promptArguments (.slidingWindow 5) true (some 16)) 0 [3, 7, 25] = .ok bits ∧
      cachedBits 0 25 (windowManager.reachableBlockMask 0 25 (some 16) [99]) = bits ∧
      bits[3]? = some true ∧ bits[4]? = some true ∧ bits[0]? ≠ some true := by
  obtain ⟨hcut, hchunk⟩ :=
    @chunks_cache_needed_blocks (promptArguments (.slidingWindow 5) true (some 16))
      [⟨.slidingWindow 5, 4, false, 0⟩] 8 4 (by decide) (by decide)
      List.mem_cons_self rfl rfl
  obtain ⟨bits, hbits, -, hmanager, hselected⟩ := hchunk 0 25
  have hdense : ¬Dense (promptArguments (.slidingWindow 5) true (some 16)) :=
    fun hdense => Option.some_ne_none _ hdense.2
  have hboundary : IsBoundary (promptArguments (.slidingWindow 5) true (some 16)) 8 16 :=
    .inl ⟨16, 1, rfl, Nat.one_pos, rfl⟩
  refine ⟨bits, (hcut 0 [3, 7, 25] (by decide)).trans hbits,
    hmanager ℕ ℕ windowManager (.slidingWindow 5) (some 16) [99] rfl rfl, ?_, ?_, ?_⟩
  · exact ((hselected 3 (by decide) (by decide)).2 hdense).1
      ⟨16, hboundary, by decide, by decide⟩
  · exact ((hselected 4 (by decide) (by decide)).2 hdense).1
      ⟨16, hboundary, by decide, by decide⟩
  · rw [Ne, ((hselected 0 (by decide) (by decide)).2 hdense).2.2 (by decide)]
    rintro (⟨segmentTokens, hsegment, hshort⟩ | ⟨-, boundary, hmem, -, hreach⟩)
    · cases hsegment
      exact absurd hshort (by decide)
    · cases List.mem_singleton.mp hmem
      exact absurd hreach (by decide)

end Retention

end GlmFlash.Cache
