import GlmFlash.Cache.HitFinders
import GlmFlash.Library.Masks
import GlmFlash.Library.Outcome

/-!
# Masks of the blocks to cache

`reachable_block_mask` says which blocks of a chunk go to the prefix cache.
The masks are computed by assignments as the source makes them; the answer
for one block turns out to be the same whatever chunk it is asked in.
-/

namespace GlmFlash.Cache.Retention

open GlmFlash.Library

inductive Failure where
  | assertionError
  | valueError
  deriving DecidableEq, Repr

/-- The arguments of `reachable_block_mask` other than the chunk. -/
structure MaskArguments where
  alignmentTokens : Option ℕ
  kvCacheSpec : GroupSpec
  useEagle : Bool
  retentionInterval : Option ℕ
  reachableBoundaries : List ℤ

/-- `_contiguous_blocks_for_hit` -/
def contiguousBlocksForHit (windowSize blockSize : ℕ) (useEagle : Bool) : ℕ :=
  cdiv (windowSize - 1) blockSize + if useEagle then 1 else 0

/-! ## Sliding windows -/

/-- The tokens of a segment of a sliding-window group. -/
def windowSegmentTokens (retentionInterval : Option ℕ) (alignmentTokens : ℕ) :
    Option ℕ :=
  match retentionInterval with
  | none => some alignmentTokens
  | some interval => if interval = 0 then none else some interval

/-- The offsets of the loop over the chunk. -/
def segmentTailOffsets (startBlock endBlock shift perSegment need : ℕ) : List ℕ :=
  ((List.range' startBlock (endBlock - startBlock)).filter fun i =>
    shift ≤ i ∧ perSegment - need ≤ (i - shift) % perSegment).map (· - startBlock)

/-- `aligned // block_size + shift` -/
def boundaryEnd (alignmentTokens blockSize shift : ℕ) (boundaryTokens : ℤ) : ℤ :=
  boundaryTokens / alignmentTokens * alignmentTokens / blockSize + shift

/-- The offsets of the loop over the tail that ends at `last`. -/
def boundaryTailOffsets (startBlock endBlock need : ℕ) (last : ℤ) : List ℕ :=
  let low := (max (startBlock : ℤ) (last - need)).toNat
  let high := (min (endBlock : ℤ) last).toNat
  (List.range' low (high - low)).map (· - startBlock)

/-- The tails at the boundaries of the request. -/
def markBoundaryTails (arguments : MaskArguments)
    (alignmentTokens startBlock endBlock need shift : ℕ) (mask : List Bool) :
    List Bool :=
  if arguments.retentionInterval.isSome then
    arguments.reachableBoundaries.foldl (fun mask boundaryTokens =>
      setAll mask (boundaryTailOffsets startBlock endBlock need
        (boundaryEnd alignmentTokens arguments.kvCacheSpec.blockSize shift
          boundaryTokens))) mask
  else mask

/-- `SlidingWindowManager.reachable_block_mask` -/
def slidingWindowMask (arguments : MaskArguments) (slidingWindow : ℕ)
    (startBlock endBlock : ℕ) : Except Failure (Option (List Bool)) :=
  match arguments.alignmentTokens with
  | none => .ok none
  | some alignmentTokens => do
      let blockSize := arguments.kvCacheSpec.blockSize
      require (alignmentTokens % blockSize = 0) .assertionError
      let need := contiguousBlocksForHit slidingWindow blockSize arguments.useEagle
      let shift := if arguments.useEagle then 1 else 0
      let mask := List.replicate (endBlock - startBlock) false
      let markBoundaries :=
        markBoundaryTails arguments alignmentTokens startBlock endBlock need shift
      match windowSegmentTokens arguments.retentionInterval alignmentTokens with
      | none => return some (markBoundaries mask)
      | some segmentTokens =>
          let perSegment := segmentTokens / blockSize
          if perSegment ≤ need then return none
          else
            let mask := setAll mask
              (segmentTailOffsets startBlock endBlock shift perSegment need)
            return some (markBoundaries mask)

/-! ## Mamba -/

/-- `range(first_boundary - start_block, len(mask), per_segment)` -/
def segmentStateOffsets (startBlock endBlock perSegment : ℕ) : List ℕ :=
  let firstBoundary := (startBlock + perSegment) / perSegment * perSegment - 1
  let offset := firstBoundary - startBlock
  List.range' offset (cdiv (endBlock - startBlock - offset) perSegment) perSegment

/-- `mask[boundary_block - start_block] = True`, where the block is in the chunk. -/
def boundaryStateOffsets (startBlock endBlock : ℕ) (boundaryBlock : ℤ) : List ℕ :=
  if (startBlock : ℤ) ≤ boundaryBlock ∧ boundaryBlock < endBlock then
    [boundaryBlock.toNat - startBlock]
  else []

/-- The states at the boundaries of the request. -/
def markBoundaryStates (arguments : MaskArguments)
    (alignmentTokens startBlock endBlock : ℕ) (mask : List Bool) : List Bool :=
  arguments.reachableBoundaries.foldl (fun mask boundaryTokens =>
    setAll mask (boundaryStateOffsets startBlock endBlock
      (boundaryEnd alignmentTokens arguments.kvCacheSpec.blockSize 0
        boundaryTokens - 1))) mask

/-- `MambaManager.reachable_block_mask` -/
def mambaMask (arguments : MaskArguments) (startBlock endBlock : ℕ) :
    Option (List Bool) :=
  match arguments.retentionInterval, arguments.alignmentTokens with
  | some interval, some alignmentTokens =>
      let blockSize := arguments.kvCacheSpec.blockSize
      let mask := List.replicate (endBlock - startBlock) false
      let markBoundaries :=
        markBoundaryStates arguments alignmentTokens startBlock endBlock
      if interval = 0 then some (markBoundaries mask)
      else
        let perSegment := interval / blockSize
        if perSegment ≤ 1 then none
        else
          some (markBoundaries
            (setAll mask (segmentStateOffsets startBlock endBlock perSegment)))
  | _, _ => none

/-- `reachable_block_mask` of the manager class of the spec. -/
def reachableBlockMask (arguments : MaskArguments) (startBlock endBlock : ℕ) :
    Except Failure (Option (List Bool)) :=
  match arguments.kvCacheSpec.kind with
  | .slidingWindow slidingWindow =>
      slidingWindowMask arguments slidingWindow startBlock endBlock
  | .mamba => .ok (mambaMask arguments startBlock endBlock)
  | .fullAttention | .chunkedLocal _ => .ok none

/-- The blocks that are cached: all of them without a mask. -/
def cachedBits (startBlock endBlock : ℕ) : Option (List Bool) → List Bool
  | none => List.replicate (endBlock - startBlock) true
  | some mask => mask

/-! ## The coordinator -/

/-- `isinstance(spec, (SlidingWindowSpec, MambaSpec))` -/
def isSparse (spec : GroupSpec) : Bool :=
  match spec.kind with
  | .slidingWindow _ | .mamba => true
  | .fullAttention | .chunkedLocal _ => false

/-- `_validate_prefix_cache_retention_interval` -/
def validateRetentionInterval (retentionInterval : Option ℤ)
    (schedulerBlockSize : ℕ) (groups : List GroupSpec) : Except Failure Unit :=
  match retentionInterval with
  | none => .ok ()
  | some interval => do
      if groups.any isSparse then
        require (0 ≤ interval ∧ interval % schedulerBlockSize = 0) .valueError
      else require (interval = 0) .valueError

/-- The checks of `KVCacheCoordinator.__init__` on block sizes and interval. -/
def coordinatorChecks (groups : List GroupSpec) (schedulerBlockSize : ℕ)
    (hashBlockSize : ℕ) (retentionInterval : Option ℤ) : Except Failure Unit := do
  require (schedulerBlockSize % hashBlockSize = 0 ∧
    ∀ spec ∈ groups, schedulerBlockSize % spec.blockSize = 0) .assertionError
  validateRetentionInterval retentionInterval schedulerBlockSize groups

/-! ## One block -/

/-- What one assignment after the other adds up to. -/
theorem foldl_setAll_maskOf {A : Type} {selects : ℕ → Bool} {start stop : ℕ}
    {offsets : A → List ℕ} {added : A → ℕ → Bool} (items : List A)
    (hadded : ∀ item offset, offset < stop - start →
      (offset ∈ offsets item ↔ added item (start + offset) = true)) :
    items.foldl (fun mask item => setAll mask (offsets item))
        (maskOf selects start stop) =
      maskOf (fun index => selects index || items.any fun item => added item index)
        start stop := by
  induction items generalizing selects with
  | nil => exact maskOf_congr fun index _ _ => (Bool.or_false _).symm
  | cons item items ih =>
      rw [List.foldl_cons, setAll_maskOf (hadded item), ih]
      exact maskOf_congr fun index _ _ => by rw [List.any_cons, Bool.or_assoc]

/-- The loop over the segments of a sliding window. -/
def inWindowSegment (shift perSegment need i : ℕ) : Bool :=
  decide (shift ≤ i ∧ perSegment - need ≤ (i - shift) % perSegment)

/-- The tail of `need` blocks that ends at `last`. -/
def inTail (need : ℕ) (last : ℤ) (i : ℕ) : Bool :=
  decide (last - need ≤ i ∧ (i : ℤ) < last)

theorem mem_segmentTailOffsets {start stop shift perSegment need offset : ℕ}
    (hoffset : offset < stop - start) :
    offset ∈ segmentTailOffsets start stop shift perSegment need ↔
      inWindowSegment shift perSegment need (start + offset) = true := by
  rw [segmentTailOffsets, List.mem_map, inWindowSegment, decide_eq_true_eq]
  constructor
  · rintro ⟨i, hmem, rfl⟩
    rw [List.mem_filter, List.mem_range'_1, decide_eq_true_eq] at hmem
    rw [Nat.add_sub_cancel' hmem.1.1]
    exact hmem.2
  · intro hselected
    refine ⟨start + offset, ?_, Nat.add_sub_cancel_left start offset⟩
    rw [List.mem_filter, List.mem_range'_1, decide_eq_true_eq]
    exact ⟨by omega, hselected⟩

theorem mem_boundaryTailOffsets {start stop need offset : ℕ} {last : ℤ}
    (hoffset : offset < stop - start) :
    offset ∈ boundaryTailOffsets start stop need last ↔
      inTail need last (start + offset) = true := by
  rw [boundaryTailOffsets, List.mem_map, inTail, decide_eq_true_eq]
  constructor
  · rintro ⟨i, hmem, rfl⟩
    rw [List.mem_range'_1] at hmem
    omega
  · intro htail
    refine ⟨start + offset, ?_, Nat.add_sub_cancel_left start offset⟩
    rw [List.mem_range'_1]
    omega

/-- A block that ends a segment. -/
def endsSegment (perSegment i : ℕ) : Bool :=
  decide (perSegment ∣ i + 1)

theorem mem_segmentStateOffsets {start stop perSegment offset : ℕ}
    (hper : 0 < perSegment) (hoffset : offset < stop - start) :
    offset ∈ segmentStateOffsets start stop perSegment ↔
      endsSegment perSegment (start + offset) = true := by
  have hfirst : start < (start + perSegment) / perSegment * perSegment := by
    rw [Nat.add_div_right start hper, Nat.succ_mul]
    exact Nat.lt_div_mul_add hper
  have hle : (start + perSegment) / perSegment * perSegment ≤ start + perSegment :=
    Nat.div_mul_le_self _ _
  rw [segmentStateOffsets, List.mem_range', endsSegment, decide_eq_true_eq]
  constructor
  · rintro ⟨count, -, rfl⟩
    have hindex : start + ((start + perSegment) / perSegment * perSegment - 1 - start +
        perSegment * count) + 1 =
        perSegment * ((start + perSegment) / perSegment + count) := by
      rw [Nat.mul_add, Nat.mul_comm perSegment ((start + perSegment) / perSegment)]
      omega
    exact ⟨_, hindex⟩
  · rintro ⟨quotient, hquotient⟩
    have hreach : (start + perSegment) / perSegment ≤ quotient := by
      rw [Nat.add_div_right start hper, Nat.succ_le_iff]
      refine (Nat.div_lt_iff_lt_mul hper).mpr ?_
      rw [Nat.mul_comm]
      omega
    obtain ⟨count, rfl⟩ := Nat.exists_eq_add_of_le hreach
    rw [Nat.mul_add, Nat.mul_comm perSegment ((start + perSegment) / perSegment)]
      at hquotient
    refine ⟨count, ?_, by omega⟩
    rw [lt_cdiv_iff hper]
    omega

theorem mem_boundaryStateOffsets {start stop offset : ℕ} {block : ℤ}
    (hoffset : offset < stop - start) :
    offset ∈ boundaryStateOffsets start stop block ↔
      inTail 1 (block + 1) (start + offset) = true := by
  rw [boundaryStateOffsets, inTail, decide_eq_true_eq]
  split
  · rw [List.mem_singleton]
    omega
  · refine iff_of_false List.not_mem_nil ?_
    omega

end GlmFlash.Cache.Retention
