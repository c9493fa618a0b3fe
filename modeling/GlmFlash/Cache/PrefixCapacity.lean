import GlmFlash.Cache.ManagerCapacity

/-!
# What a prefix hit costs

A first allocation may start behind a prefix: local hits are touched and put
into the table, external tokens get blocks of their own, and only then do the
new tokens.  The bill is written before any of it, so here the credits of one
stage pay for the stage itself and for all that follow.
-/

set_option linter.unusedSectionVars false

namespace GlmFlash.Cache.SingleTypeKVCacheManager

open GlmFlash.Library
open BlockPool (Sound Grows Fresh supply)

variable {R H : Type} [DecidableEq R] [DecidableEq H]

/-! ## External blocks -/

section External

variable {caching : Bool} {requestId : R}
  {numLocalComputedTokens numExternalComputedTokens numTokens
    numTokensMainModel numEncoderTokens : ℕ} {pool : BlockPool H}
  {manager : SingleTypeKVCacheManager R H} {credits larger : ℕ}

theorem AffordsNew.more (hmore : credits ≤ larger)
    (haffords : AffordsNew caching requestId numTokens numTokensMainModel
      numEncoderTokens pool manager credits) :
    AffordsNew caching requestId numTokens numTokensMainModel numEncoderTokens
      pool manager larger :=
  haffords.mono hmore fun _ _ _ _ hdone => hdone

/-- The credits pay for `allocate_external_computed_blocks` and for
`allocate_new_blocks` after it. -/
abbrev AffordsExternal (caching : Bool) (requestId : R)
    (numLocalComputedTokens numExternalComputedTokens numTokens
      numTokensMainModel numEncoderTokens : ℕ) (pool : BlockPool H)
    (manager : SingleTypeKVCacheManager R H) (credits : ℕ) : Prop :=
  supply.Affords
    (allocateExternalComputedBlocks requestId numLocalComputedTokens
      numExternalComputedTokens)
    (AffordsNew caching requestId numTokens numTokensMainModel
      numEncoderTokens) pool manager credits

theorem AffordsExternal.more (hmore : credits ≤ larger)
    (haffords : AffordsExternal caching requestId numLocalComputedTokens
      numExternalComputedTokens numTokens numTokensMainModel numEncoderTokens
      pool manager credits) :
    AffordsExternal caching requestId numLocalComputedTokens
      numExternalComputedTokens numTokens numTokensMainModel numEncoderTokens
      pool manager larger :=
  haffords.mono hmore fun _ _ _ _ hnew => hnew.more (Nat.le_add_right _ _)

theorem ReadableTail.append {start final : BlockPool H}
    (htail : ReadableTail requestId start manager)
    (hgrows : Grows start final) (newBlocks : List BlockId) :
    ReadableTail requestId final (manager.setBlocks requestId
      (manager.blocks requestId ++ newBlocks)) := by
  intro blockIdx sourceBlock hpartialHit
  obtain ⟨hcolumn, hnull, hused⟩ := htail blockIdx sourceBlock hpartialHit
  refine ⟨?_, hnull, hused.trans_le (hgrows.refCnt_le sourceBlock)⟩
  rw [blocks_setBlocks_self, List.getElem?_append_left
    (List.getElem?_eq_some_iff.mp hcolumn).1]
  exact hcolumn

theorem steadyFor_setBlocks {reqBlocks : List BlockId}
    (hothers : ∀ other ≠ requestId, manager.SteadyFor caching other) :
    ∀ other ≠ requestId,
      (manager.setBlocks requestId reqBlocks).SteadyFor caching other := by
  intro other hother
  have hmoved := elsewhere_setBlocks manager requestId reqBlocks
  exact (hothers other hother).same hmoved.spec_eq (hmoved.same other hother)

theorem affordsExternal_attention (hkind : manager.kind = .fullAttention)
    (hexternal : 0 < numExternalComputedTokens)
    (hle : numLocalComputedTokens + numExternalComputedTokens ≤ numTokens)
    (hothers : ∀ other ≠ requestId, manager.SteadyFor caching other)
    (htail : ReadableTail requestId pool manager)
    (hshort : (manager.blocks requestId).length ≤
      cdiv (numLocalComputedTokens + numExternalComputedTokens)
        manager.blockSize) :
    AffordsExternal caching requestId numLocalComputedTokens
      numExternalComputedTokens numTokens numTokensMainModel numEncoderTokens
      pool manager ((manager.partialHitReqs requestId).isSome.toNat +
        (cdiv numTokens manager.blockSize -
          (manager.blocks requestId).length)) := by
  intro start hgrows hsound hfree
  have hfree' : (((manager.partialHitReqs requestId).isSome.toNat +
      (cdiv numTokens manager.blockSize -
        (manager.blocks requestId).length) : ℕ) : ℤ) ≤
      start.getNumFreeBlocks := hfree
  have hmono := cdiv_mono manager.blockSize_pos hle
  have hmissing : ((cdiv (numLocalComputedTokens + numExternalComputedTokens)
      manager.blockSize - (manager.blocks requestId).length : ℕ) : ℤ) ≤
        start.getNumFreeBlocks := by
    push_cast at hfree' ⊢
    omega
  obtain ⟨newBlocks, final, hextend, hcount, hfresh⟩ :=
    extend_ok manager hsound hmissing
  have hrun : allocateExternalComputedBlocks requestId numLocalComputedTokens
      numExternalComputedTokens start manager = .ok (final,
        manager.setBlocks requestId (manager.blocks requestId ++ newBlocks),
        newBlocks) := by
    have hneeded : ((cdiv (numLocalComputedTokens + numExternalComputedTokens)
        manager.blockSize : ℕ) : ℤ) - (manager.blocks requestId).length =
        ((cdiv (numLocalComputedTokens + numExternalComputedTokens)
          manager.blockSize - (manager.blocks requestId).length : ℕ) : ℤ) := by
      omega
    unfold allocateExternalComputedBlocks getNumSkippedTokens
    rw [hkind]
    simp only [lt_self_iff_false, if_false]
    rw [if_neg (by omega), hneeded]
    exact hextend
  have hnew : AffordsNew caching requestId numTokens numTokensMainModel
      numEncoderTokens final (manager.setBlocks requestId
        (manager.blocks requestId ++ newBlocks)) _ :=
    affordsNew_attention hkind (by omega) (steadyFor_setBlocks hothers)
      ((htail.grow hgrows).append hfresh.grows newBlocks)
  rw [blocks_setBlocks_self, List.length_append, hcount] at hnew
  refine ⟨final, _, newBlocks, _, hrun, hfresh.sound, hfresh.grows, ?_, hnew⟩
  change start.getNumFreeBlocks - _ ≤ final.getNumFreeBlocks - _
  rw [hfresh.numFree_eq, hcount]
  change _ ≤ _ - (((manager.partialHitReqs requestId).isSome.toNat + (cdiv
    numTokens manager.blockSize - _) : ℕ) : ℤ)
  push_cast
  omega

theorem affordsExternal_tail (hkind : manager.kind = .kpoolTail)
    (hothers : ∀ other ≠ requestId, manager.SteadyFor caching other)
    (hclear : manager.partialHitReqs requestId = none) :
    AffordsExternal caching requestId numLocalComputedTokens
      numExternalComputedTokens numTokens numTokensMainModel numEncoderTokens
      pool manager (1 - (manager.blocks requestId).length) := by
  intro start hgrows hsound hfree
  have hfree' : ((1 - (manager.blocks requestId).length : ℕ) : ℤ) ≤
      start.getNumFreeBlocks := hfree
  unfold allocateExternalComputedBlocks
  rw [hkind]
  simp only [extendTail]
  by_cases hlong : 1 ≤ (manager.blocks requestId).length
  · refine ⟨start, manager, [], _, by rw [if_pos hlong], hsound,
      Grows.refl start, le_rfl, affordsNew_tail hkind hothers hclear⟩
  · have hone : ((1 : ℕ) : ℤ) ≤ start.getNumFreeBlocks := by omega
    obtain ⟨newBlocks, final, hextend, hcount, hfresh⟩ :=
      extend_ok manager hsound hone
    have hnew : AffordsNew caching requestId numTokens numTokensMainModel
        numEncoderTokens final (manager.setBlocks requestId
          (manager.blocks requestId ++ newBlocks)) _ :=
      affordsNew_tail hkind (steadyFor_setBlocks hothers) hclear
    rw [blocks_setBlocks_self, List.length_append, hcount] at hnew
    refine ⟨final, _, newBlocks, _, ?_, hfresh.sound, hfresh.grows, ?_, hnew⟩
    · rw [if_neg hlong]
      exact hextend
    · change start.getNumFreeBlocks - _ ≤ final.getNumFreeBlocks - _
      rw [hfresh.numFree_eq, hcount]
      push_cast
      omega

variable {spec : MambaSpec}

/-- What a new request takes for its states when its row has `length` columns
and it needs `columns` of them. -/
def freshCost (numSpeculativeBlocks columns checkpointBlocks partialHits
    length : ℕ) : ℕ :=
  if columns + numSpeculativeBlocks ≤ length ∧ partialHits = 0 then 0
  else
    columns + numSpeculativeBlocks -
        (if length < columns - 1 then columns - 1 - checkpointBlocks
          else length) + partialHits

theorem stateCost_new
    (hallocated : manager.allocatedBlockReqs requestId = false)
    (hcheckpoint : manager.numCheckpointBlocks requestId ≤ 1) :
    manager.stateCost spec requestId numTokensMainModel =
      freshCost spec.numSpeculativeBlocks
        (cdiv numTokensMainModel manager.blockSize)
        (manager.numCheckpointBlocks requestId)
        (manager.partialHitReqs requestId).isSome.toNat
        (manager.blocks requestId).length := by
  have hpartialHit : manager.partialHitReqs requestId = none ↔
      (manager.partialHitReqs requestId).isSome.toNat = 0 := by
    cases manager.partialHitReqs requestId <;> simp
  have hskipped : cdiv numTokensMainModel manager.blockSize +
      spec.numSpeculativeBlocks - spec.numSpeculativeBlocks - 1 =
        cdiv numTokensMainModel manager.blockSize - 1 := by omega
  unfold stateCost freshCost alignedRow
  rw [length_shiftedBlocks_new hallocated hcheckpoint, hskipped]
  exact if_congr (and_congr_right fun _ => hpartialHit) rfl rfl

/-- A new request with external tokens first gets the column of the last
computed token, then what is missing from there. -/
theorem affordsExternal_states (hkind : manager.kind = .mamba spec)
    (halign : spec.align = true)
    (hexternal : 0 < numExternalComputedTokens)
    (htokens : 0 < numTokensMainModel)
    (hcaching : caching = true → pool.enableCaching = true)
    (hothers : ∀ other ≠ requestId, manager.SteadyFor caching other)
    (hcheckpoint : manager.numCheckpointBlocks requestId ≤ 1)
    (hallocated : manager.allocatedBlockReqs requestId = false)
    (htail : ReadableTail requestId pool manager)
    (hshort : (manager.blocks requestId).length ≤
      cdiv (numLocalComputedTokens + numExternalComputedTokens)
        manager.blockSize) :
    AffordsExternal caching requestId numLocalComputedTokens
      numExternalComputedTokens numTokens numTokensMainModel numEncoderTokens
      pool manager
      (cdiv (numLocalComputedTokens + numExternalComputedTokens)
          manager.blockSize - (manager.blocks requestId).length +
        freshCost spec.numSpeculativeBlocks
          (cdiv numTokensMainModel manager.blockSize)
          (manager.numCheckpointBlocks requestId)
          (manager.partialHitReqs requestId).isSome.toNat
          (cdiv (numLocalComputedTokens + numExternalComputedTokens)
            manager.blockSize)) := by
  intro start hgrows hsound hfree
  set reached := cdiv (numLocalComputedTokens + numExternalComputedTokens)
    manager.blockSize with hreached
  set cost := freshCost spec.numSpeculativeBlocks
    (cdiv numTokensMainModel manager.blockSize)
    (manager.numCheckpointBlocks requestId)
    (manager.partialHitReqs requestId).isSome.toNat reached with hcost
  have hmissing : ((reached - (manager.blocks requestId).length : ℕ) : ℤ) ≤
      start.getNumFreeBlocks := by
    have hfree' : ((reached - (manager.blocks requestId).length + cost : ℕ) :
        ℤ) ≤ start.getNumFreeBlocks := hfree
    push_cast at hfree' ⊢
    omega
  obtain ⟨newBlocks, final, hextend, hcount, hfresh⟩ :=
    extend_ok manager hsound hmissing
  have hrun : allocateExternalComputedBlocks requestId numLocalComputedTokens
      numExternalComputedTokens start manager = .ok (final,
        manager.setBlocks requestId (manager.blocks requestId ++ newBlocks),
        newBlocks) := by
    have hneeded : ((cdiv (numLocalComputedTokens + numExternalComputedTokens)
        manager.blockSize : ℕ) : ℤ) - (manager.blocks requestId).length =
        ((reached - (manager.blocks requestId).length : ℕ) : ℤ) := by
      omega
    unfold allocateExternalComputedBlocks getNumSkippedTokens
    rw [hkind]
    simp only
    rw [if_neg (by split <;> omega), hneeded]
    exact hextend
  have hlength : ((manager.setBlocks requestId (manager.blocks requestId ++
      newBlocks)).blocks requestId).length = reached := by
    rw [blocks_setBlocks_self, List.length_append, hcount]
    omega
  have hallocated' : (manager.setBlocks requestId (manager.blocks requestId ++
      newBlocks)).allocatedBlockReqs requestId = false := hallocated
  have hcheckpoint' : (manager.setBlocks requestId (manager.blocks requestId ++
      newBlocks)).numCheckpointBlocks requestId ≤ 1 := hcheckpoint
  have hcachingFinal : caching = true → final.enableCaching = true := by
    intro hon
    have hconfig := congrArg (fun config => config.2.1)
      (hfresh.grows.config_eq.trans
        (show start.config = pool.config from hgrows.config_eq))
    exact hconfig.trans (hcaching hon)
  have hnew : AffordsNew caching requestId numTokens numTokensMainModel
      numEncoderTokens final (manager.setBlocks requestId
        (manager.blocks requestId ++ newBlocks)) _ :=
    affordsNew_states hkind halign htokens hcachingFinal
      (steadyFor_setBlocks hothers) hcheckpoint'
      (fun htrue => by rw [hallocated'] at htrue; cases htrue)
      ((htail.grow hgrows).append hfresh.grows newBlocks)
      (fun htrue => by rw [hallocated'] at htrue; cases htrue)
  have hstate : (manager.setBlocks requestId (manager.blocks requestId ++
      newBlocks)).stateCost spec requestId numTokensMainModel = cost := by
    rw [stateCost_new hallocated' hcheckpoint', hlength]
    rfl
  rw [hstate] at hnew
  refine ⟨final, _, newBlocks, _, hrun, hfresh.sound, hfresh.grows, ?_, hnew⟩
  change start.getNumFreeBlocks - _ ≤ final.getNumFreeBlocks - (cost : ℤ)
  rw [hfresh.numFree_eq, hcount]
  push_cast
  omega

end External

/-! ## Local hits -/

section Local

variable {caching : Bool} {requestId : R} {newComputedBlocks : List BlockId}
  {numLocalComputedTokens numExternalComputedTokens numTokens
    numTokensMainModel numEncoderTokens : ℕ} {pool : BlockPool H}
  {manager : SingleTypeKVCacheManager R H}

/-- The credits pay for what follows the local hits. -/
def AffordsRest (caching : Bool) (requestId : R)
    (numLocalComputedTokens numExternalComputedTokens numTokens
      numTokensMainModel numEncoderTokens : ℕ) (pool : BlockPool H)
    (manager : SingleTypeKVCacheManager R H) (credits : ℕ) : Prop :=
  if 0 < numExternalComputedTokens then
    AffordsExternal caching requestId numLocalComputedTokens
      numExternalComputedTokens numTokens numTokensMainModel numEncoderTokens
      pool manager credits
  else
    AffordsNew caching requestId numTokens numTokensMainModel numEncoderTokens
      pool manager credits

/-- The hits of a group are well formed: its own blocks, as many as the hit
length asks for, ending in a real one. -/
structure HitsFit (pool : BlockPool H)
    (manager : SingleTypeKVCacheManager R H) (newComputedBlocks : List BlockId)
    (numLocalComputedTokens : ℕ) : Prop where
  caching : pool.enableCaching = true ∨ newComputedBlocks = []
  inPool : ∀ block ∈ newComputedBlocks, block < pool.numGpuBlocks
  length_eq : newComputedBlocks = [] ∨ newComputedBlocks.length =
    cdiv numLocalComputedTokens manager.blockSize
  last_ne : newComputedBlocks.getLast? ≠ some nullBlock

instance (pool : BlockPool H) (manager : SingleTypeKVCacheManager R H)
    (newComputedBlocks : List BlockId) (numLocalComputedTokens : ℕ) :
    Decidable (HitsFit pool manager newComputedBlocks
      numLocalComputedTokens) :=
  decidable_of_iff ((pool.enableCaching = true ∨ newComputedBlocks = []) ∧
      (∀ block ∈ newComputedBlocks, block < pool.numGpuBlocks) ∧
      (newComputedBlocks = [] ∨ newComputedBlocks.length =
        cdiv numLocalComputedTokens manager.blockSize) ∧
      newComputedBlocks.getLast? ≠ some nullBlock)
    ⟨fun ⟨hcaching, hpool, hlength, hlast⟩ =>
        ⟨hcaching, hpool, hlength, hlast⟩,
      fun hfit => ⟨hfit.caching, hfit.inPool, hfit.length_eq, hfit.last_ne⟩⟩

/-- The columns that the hits of a request leave behind. -/
def hitRow (manager : SingleTypeKVCacheManager R H)
    (newComputedBlocks : List BlockId)
    (numLocalComputedTokens numExternalComputedTokens : ℕ) : List BlockId :=
  let numSkippedBlocks := manager.getNumSkippedTokens
    (numLocalComputedTokens + numExternalComputedTokens) / manager.blockSize
  List.replicate numSkippedBlocks nullBlock ++
    newComputedBlocks.drop numSkippedBlocks

/-- What a manager looks like after its local hits were added. -/
structure HitsAdded (requestId : R) (newComputedBlocks : List BlockId)
    (numLocalComputedTokens numExternalComputedTokens : ℕ)
    (manager manager' : SingleTypeKVCacheManager R H) : Prop where
  elsewhere : Elsewhere requestId manager manager'
  row : manager'.blocks requestId = manager.hitRow newComputedBlocks
    numLocalComputedTokens numExternalComputedTokens
  allocated : manager'.allocatedBlockReqs = manager.allocatedBlockReqs
  checkpoint : manager'.numCheckpointBlocks = manager.numCheckpointBlocks
  hit : ∀ blockIdx sourceBlock,
    manager'.partialHitReqs requestId = some (blockIdx, sourceBlock) →
      numLocalComputedTokens % manager.blockSize ≠ 0 ∧
        blockIdx = numLocalComputedTokens / manager.blockSize ∧
        (newComputedBlocks.drop (manager.getNumSkippedTokens
          (numLocalComputedTokens + numExternalComputedTokens) /
            manager.blockSize)).getLast? = some sourceBlock

variable (numExternalComputedTokens) in
theorem addLocalComputedBlocksBase_ok {start : BlockPool H}
    (hrow : manager.blocks requestId = [])
    (hnone : manager.partialHitReqs requestId = none)
    (hgrows : Grows pool start) (hsound : Sound start)
    (hfit : HitsFit pool manager newComputedBlocks numLocalComputedTokens) :
    ∃ final manager', addLocalComputedBlocksBase requestId newComputedBlocks
        numLocalComputedTokens numExternalComputedTokens start manager =
          .ok (final, manager', ()) ∧ Sound final ∧ Grows start final ∧
      start.getNumFreeBlocks -
          start.getNumEvictableBlocks newComputedBlocks ≤
        final.getNumFreeBlocks ∧
      HitsAdded requestId newComputedBlocks numLocalComputedTokens
        numExternalComputedTokens manager manager' ∧
      ∀ block ∈ newComputedBlocks.drop (manager.getNumSkippedTokens
        (numLocalComputedTokens + numExternalComputedTokens) /
          manager.blockSize), block ≠ nullBlock → 0 < final.refCnt block := by
  set numSkippedBlocks := manager.getNumSkippedTokens
    (numLocalComputedTokens + numExternalComputedTokens) / manager.blockSize
      with hskipped
  have hsize := BlockPool.numGpuBlocks_of_config hgrows.config_eq
  have hlt : ∀ block ∈ newComputedBlocks.drop numSkippedBlocks,
      block < start.numGpuBlocks := fun block hmem =>
    hsize ▸ hfit.inPool block (List.mem_of_mem_drop hmem)
  obtain ⟨final, htouch, hfinal, hgrown, hpaid, hused⟩ :=
    BlockPool.touch_ok hsound hlt
  have hon : start.enableCaching = true ∨
      newComputedBlocks.drop numSkippedBlocks = [] := by
    have hconfig := congrArg (fun config => config.2.1) hgrows.config_eq
    cases hfit.caching with
    | inl hcaching => exact .inl (hconfig.trans hcaching)
    | inr hempty =>
        rw [hempty, List.drop_nil]
        exact .inr rfl
  have hfewer : start.getNumEvictableBlocks
      (newComputedBlocks.drop numSkippedBlocks) ≤
        start.getNumEvictableBlocks newComputedBlocks :=
    (List.drop_sublist _ _).countP_le
  have hrun : ∃ manager', addLocalComputedBlocksBase requestId
      newComputedBlocks numLocalComputedTokens numExternalComputedTokens start
        manager = .ok (final, manager', ()) ∧
      HitsAdded requestId newComputedBlocks numLocalComputedTokens
        numExternalComputedTokens manager manager' := by
    have hplain : ∀ cached : ℕ, HitsAdded requestId newComputedBlocks
        numLocalComputedTokens numExternalComputedTokens manager
        { manager.setBlocks requestId (manager.hitRow newComputedBlocks
            numLocalComputedTokens numExternalComputedTokens) with
          numCachedBlock := Function.update manager.numCachedBlock requestId
            (some cached) } := by
      intro cached
      refine ⟨⟨rfl, fun other hother => ⟨Tables.row_setRow_ne _ hother _,
        Function.update_of_ne hother _ _, rfl, rfl⟩⟩,
        Tables.row_setRow_self _ _ _, rfl, rfl, ?_⟩
      intro blockIdx sourceBlock hsome
      exact absurd (hnone.symm.trans hsome) (by simp)
    simp only [addLocalComputedBlocksBase, bind_eq_ok, require_eq_ok]
    cases hlast : (newComputedBlocks.drop numSkippedBlocks).getLast? with
    | none =>
        refine ⟨_, ⟨(), hrow, (), hon, final, htouch, ?_⟩, hplain
          (manager.hitRow newComputedBlocks numLocalComputedTokens
            numExternalComputedTokens).length⟩
        rfl
    | some sourceBlock =>
        by_cases hpartialHit : numLocalComputedTokens % manager.blockSize = 0
        · refine ⟨_, ⟨(), hrow, (), hon, final, htouch, ?_⟩, hplain
            (manager.hitRow newComputedBlocks numLocalComputedTokens
              numExternalComputedTokens).length⟩
          exact if_neg (not_not.mpr hpartialHit)
        · refine ⟨_, ⟨(), hrow, (), hon, final, htouch, if_pos hpartialHit⟩, ?_⟩
          refine ⟨⟨rfl, fun other hother => ⟨?_, ?_, ?_, rfl⟩⟩, ?_, rfl, rfl,
            fun blockIdx source hsome => ?_⟩
          · exact Tables.row_setRow_ne _ hother _
          · exact Function.update_of_ne hother _ _
          · exact Function.update_of_ne hother _ _
          · exact Tables.row_setRow_self _ _ _
          · have hpair : some (numLocalComputedTokens / manager.blockSize,
                sourceBlock) = some (blockIdx, source) :=
              (Function.update_self requestId _
                manager.partialHitReqs).symm.trans hsome
            simp only [Option.some.injEq, Prod.mk.injEq] at hpair
            obtain ⟨rfl, rfl⟩ := hpair
            exact ⟨hpartialHit, rfl, hlast⟩
  obtain ⟨manager', hrun, hadded⟩ := hrun
  exact ⟨final, manager', hrun, hfinal, hgrown, by omega, hadded, hused⟩

/-- The credits pay for `add_local_computed_blocks` and for all that
follows. -/
abbrev AffordsLocal (caching : Bool) (requestId : R)
    (newComputedBlocks : List BlockId)
    (numLocalComputedTokens numExternalComputedTokens numTokens
      numTokensMainModel numEncoderTokens : ℕ) (pool : BlockPool H)
    (manager : SingleTypeKVCacheManager R H) (credits : ℕ) : Prop :=
  supply.Affords
    (addLocalComputedBlocks requestId newComputedBlocks numLocalComputedTokens
      numExternalComputedTokens)
    (AffordsRest caching requestId numLocalComputedTokens
      numExternalComputedTokens numTokens numTokensMainModel numEncoderTokens)
    pool manager credits

/-- One block for a hit that ends inside a column. -/
def cowCost (manager : SingleTypeKVCacheManager R H)
    (newComputedBlocks : List BlockId) (numLocalComputedTokens : ℕ) : ℕ :=
  if manager.HasPartialLocalHit newComputedBlocks numLocalComputedTokens then 1
  else 0

section Added

variable {manager' : SingleTypeKVCacheManager R H}
  (hadded : HitsAdded requestId newComputedBlocks numLocalComputedTokens
    numExternalComputedTokens manager manager')
include hadded

theorem HitsAdded.spec_eq :
    manager'.toManagerSpec = manager.toManagerSpec :=
  hadded.elsewhere.spec_eq

theorem HitsAdded.blockSize_eq :
    manager'.blockSize = manager.blockSize :=
  congrArg ManagerSpec.blockSize hadded.spec_eq

theorem HitsAdded.kind_eq :
    manager'.kind = manager.kind :=
  congrArg ManagerSpec.kind hadded.spec_eq

theorem HitsAdded.steadyFor
    (hothers : ∀ other ≠ requestId, manager.SteadyFor caching other) :
    ∀ other ≠ requestId, manager'.SteadyFor caching other := by
  intro other hother
  exact (hothers other hother).same hadded.spec_eq
    (hadded.elsewhere.same other hother)

/-- A copy-on-write pair was billed. -/
theorem HitsAdded.partial_le :
    (manager'.partialHitReqs requestId).isSome.toNat ≤
      manager.cowCost newComputedBlocks numLocalComputedTokens := by
  cases hpartialHit : manager'.partialHitReqs requestId with
  | none => exact Nat.zero_le _
  | some hit =>
      obtain ⟨hmod, -, hlast⟩ := hadded.hit hit.1 hit.2 hpartialHit
      have hne : newComputedBlocks ≠ [] := by
        rintro rfl
        rw [List.drop_nil] at hlast
        cases hlast
      rw [cowCost, if_pos ⟨hne, hmod⟩]
      rfl

/-- The last hit stands in the column that the redirection expects. -/
theorem HitsAdded.readableTail {final : BlockPool H}
    (hfit : HitsFit pool manager newComputedBlocks numLocalComputedTokens)
    (hused : ∀ block ∈ newComputedBlocks.drop (manager.getNumSkippedTokens
      (numLocalComputedTokens + numExternalComputedTokens) /
        manager.blockSize), block ≠ nullBlock → 0 < final.refCnt block) :
    ReadableTail requestId final manager' := by
  intro blockIdx sourceBlock hpartialHit
  obtain ⟨hmod, rfl, hlast⟩ := hadded.hit blockIdx sourceBlock hpartialHit
  rw [hadded.row, hitRow]
  set numSkippedBlocks := manager.getNumSkippedTokens
    (numLocalComputedTokens + numExternalComputedTokens) / manager.blockSize
  have hmem := List.mem_of_getLast? hlast
  have hlonger : numSkippedBlocks < newComputedBlocks.length := by
    by_contra hle
    rw [List.drop_eq_nil_of_le (not_lt.mp hle)] at hmem
    cases hmem
  have hlength : newComputedBlocks.length =
      numLocalComputedTokens / manager.blockSize + 1 := by
    rw [← cdiv_of_mod_ne_zero manager.blockSize_pos hmod]
    refine hfit.length_eq.resolve_left ?_
    rintro rfl
    simp at hlonger
  have hnull : sourceBlock ≠ nullBlock := by
    rintro rfl
    refine hfit.last_ne ?_
    rw [List.getLast?_drop, if_neg (by omega)] at hlast
    exact hlast
  refine ⟨?_, hnull, hused sourceBlock hmem hnull⟩
  rw [List.getElem?_append_right (by
    rw [List.length_replicate]
    omega), List.length_replicate, ← hlast, List.getLast?_eq_getElem?,
    List.length_drop]
  congr 1
  omega

end Added

theorem affordsLocal_attention (hkind : manager.kind = .fullAttention)
    (htokens : 0 < numTokens)
    (hle : numLocalComputedTokens + numExternalComputedTokens ≤ numTokens)
    (hsound : Sound pool)
    (hothers : ∀ other ≠ requestId, manager.SteadyFor caching other)
    (hrow : manager.blocks requestId = [])
    (hnone : manager.partialHitReqs requestId = none)
    (hfit : HitsFit pool manager newComputedBlocks numLocalComputedTokens) :
    AffordsLocal caching requestId newComputedBlocks numLocalComputedTokens
      numExternalComputedTokens numTokens numTokensMainModel numEncoderTokens
      pool manager
      (cdiv numTokens manager.blockSize - newComputedBlocks.length +
        manager.cowCost newComputedBlocks numLocalComputedTokens +
        pool.getNumEvictableBlocks newComputedBlocks) := by
  intro start hgrows hstart hfree
  obtain ⟨final, manager', hrun, hfinal, hgrown, hpaid, hadded, hused⟩ :=
    addLocalComputedBlocksBase_ok numExternalComputedTokens hrow hnone hgrows
      hstart hfit
  have hevict := BlockPool.numEvictable_grows hsound hgrows newComputedBlocks
  have htail := hadded.readableTail hfit hused
  have hothers' := hadded.steadyFor hothers
  have hkind' := hadded.kind_eq.trans hkind
  have hrow' : manager'.blocks requestId = newComputedBlocks := by
    rw [hadded.row, hitRow, getNumSkippedTokens, hkind]
    simp
  have hrest : AffordsRest caching requestId numLocalComputedTokens
      numExternalComputedTokens numTokens numTokensMainModel numEncoderTokens
      final manager' ((manager'.partialHitReqs requestId).isSome.toNat +
        (cdiv numTokens manager'.blockSize -
          (manager'.blocks requestId).length)) := by
    unfold AffordsRest
    by_cases hexternal : 0 < numExternalComputedTokens
    · rw [if_pos hexternal]
      refine affordsExternal_attention hkind' hexternal hle hothers' htail ?_
      rw [hrow', hadded.blockSize_eq]
      have hmono : cdiv numLocalComputedTokens manager.blockSize ≤
          cdiv (numLocalComputedTokens + numExternalComputedTokens)
            manager.blockSize :=
        cdiv_mono manager.blockSize_pos (Nat.le_add_right _ _)
      rcases hfit.length_eq with rfl | hlength
      · exact Nat.zero_le _
      · omega
    · rw [if_neg hexternal]
      exact affordsNew_attention hkind' htokens hothers' htail
  rw [hrow', hadded.blockSize_eq] at hrest
  have hcow := hadded.partial_le
  refine ⟨final, manager', (), _, ?_, hfinal, hgrown, ?_, hrest⟩
  · unfold addLocalComputedBlocks
    rw [hkind]
    exact hrun
  · change start.getNumFreeBlocks - _ ≤ final.getNumFreeBlocks - _
    push_cast
    omega

theorem affordsLocal_tail (hkind : manager.kind = .kpoolTail)
    (hothers : ∀ other ≠ requestId, manager.SteadyFor caching other)
    (hclear : manager.partialHitReqs requestId = none) :
    AffordsLocal caching requestId newComputedBlocks numLocalComputedTokens
      numExternalComputedTokens numTokens numTokensMainModel numEncoderTokens
      pool manager (1 - (manager.blocks requestId).length) := by
  intro start hgrows hstart hfree
  refine ⟨start, manager, (), _, ?_, hstart, Grows.refl start, le_rfl, ?_⟩
  · unfold addLocalComputedBlocks
    rw [hkind]
  · unfold AffordsRest
    by_cases hexternal : 0 < numExternalComputedTokens
    · rw [if_pos hexternal]
      exact affordsExternal_tail hkind hothers hclear
    · rw [if_neg hexternal]
      exact affordsNew_tail hkind hothers hclear

variable {spec : MambaSpec}

/-- What a new request takes for its states, from the length of the row that
its local hits leave. -/
def statesAfterHits (manager : SingleTypeKVCacheManager R H)
    (spec : MambaSpec) (requestId : R)
    (numLocalComputedTokens numExternalComputedTokens numTokensMainModel
      partialHits length : ℕ) : ℕ :=
  let reached := cdiv (numLocalComputedTokens + numExternalComputedTokens)
    manager.blockSize
  let cost := freshCost spec.numSpeculativeBlocks
    (cdiv numTokensMainModel manager.blockSize)
    (manager.numCheckpointBlocks requestId) partialHits
  if 0 < numExternalComputedTokens then reached - length + cost reached
  else cost length

theorem freshCost_mono {numSpeculativeBlocks columns checkpointBlocks
    partialHits morePartialHits length : ℕ}
    (hle : partialHits ≤ morePartialHits) :
    freshCost numSpeculativeBlocks columns checkpointBlocks partialHits
        length ≤
      freshCost numSpeculativeBlocks columns checkpointBlocks morePartialHits
        length := by
  unfold freshCost
  by_cases hcovered : columns + numSpeculativeBlocks ≤ length ∧
      morePartialHits = 0
  · rw [if_pos ⟨hcovered.1, by omega⟩]
    exact Nat.zero_le _
  · rw [if_neg hcovered]
    split
    · exact Nat.zero_le _
    · exact Nat.add_le_add_left hle _

theorem affordsLocal_states (hkind : manager.kind = .mamba spec)
    (halign : spec.align = true) (htokens : 0 < numTokensMainModel)
    (hcaching : caching = true → pool.enableCaching = true)
    (hsound : Sound pool)
    (hothers : ∀ other ≠ requestId, manager.SteadyFor caching other)
    (hrow : manager.blocks requestId = [])
    (hnone : manager.partialHitReqs requestId = none)
    (hallocated : manager.allocatedBlockReqs requestId = false)
    (hcheckpoint : manager.numCheckpointBlocks requestId ≤ 1)
    (hfit : HitsFit pool manager newComputedBlocks numLocalComputedTokens) :
    AffordsLocal caching requestId newComputedBlocks numLocalComputedTokens
      numExternalComputedTokens numTokens numTokensMainModel numEncoderTokens
      pool manager
      (manager.statesAfterHits spec requestId numLocalComputedTokens
          numExternalComputedTokens numTokensMainModel
          (manager.cowCost newComputedBlocks numLocalComputedTokens)
          (max ((numLocalComputedTokens + numExternalComputedTokens - 1) /
            manager.blockSize) newComputedBlocks.length) +
        pool.getNumEvictableBlocks newComputedBlocks) := by
  intro start hgrows hstart hfree
  obtain ⟨final, manager', hrun, hfinal, hgrown, hpaid, hadded, hused⟩ :=
    addLocalComputedBlocksBase_ok numExternalComputedTokens hrow hnone hgrows
      hstart hfit
  have hevict := BlockPool.numEvictable_grows hsound hgrows newComputedBlocks
  have htail := hadded.readableTail hfit hused
  have hothers' := hadded.steadyFor hothers
  have hkind' := hadded.kind_eq.trans hkind
  have hallocated' : manager'.allocatedBlockReqs requestId = false := by
    rw [hadded.allocated]
    exact hallocated
  have hcheckpoint' : manager'.numCheckpointBlocks requestId ≤ 1 := by
    rw [hadded.checkpoint]
    exact hcheckpoint
  have hrow' : (manager'.blocks requestId).length =
      max ((numLocalComputedTokens + numExternalComputedTokens - 1) /
        manager.blockSize) newComputedBlocks.length := by
    rw [hadded.row, hitRow, getNumSkippedTokens, hkind]
    simp only [List.length_append, List.length_replicate, List.length_drop]
    omega
  have hcaching' : caching = true → final.enableCaching = true := by
    intro hon
    have hconfig := congrArg (fun config => config.2.1)
      (hgrown.config_eq.trans
        (show start.config = pool.config from hgrows.config_eq))
    exact hconfig.trans (hcaching hon)
  have hreached := cdiv_mono manager.blockSize_pos
    (Nat.le_add_right numLocalComputedTokens numExternalComputedTokens)
  have hrest : AffordsRest caching requestId numLocalComputedTokens
      numExternalComputedTokens numTokens numTokensMainModel numEncoderTokens
      final manager' (manager.statesAfterHits spec requestId
        numLocalComputedTokens numExternalComputedTokens numTokensMainModel
        (manager'.partialHitReqs requestId).isSome.toNat
        (manager'.blocks requestId).length) := by
    unfold AffordsRest statesAfterHits
    rw [← hadded.checkpoint, ← hadded.blockSize_eq]
    by_cases hexternal : 0 < numExternalComputedTokens
    · simp only [if_pos hexternal]
      refine affordsExternal_states hkind' halign hexternal htokens hcaching'
        hothers' hcheckpoint' hallocated' htail ?_
      have hlast : cdiv (numLocalComputedTokens + numExternalComputedTokens)
          manager.blockSize = (numLocalComputedTokens +
            numExternalComputedTokens - 1) / manager.blockSize + 1 :=
        cdiv_eq_pred_div_succ manager.blockSize_pos (by omega)
      have hlength : newComputedBlocks.length ≤
          cdiv numLocalComputedTokens manager.blockSize := by
        rcases hfit.length_eq with rfl | hlength
        · exact Nat.zero_le _
        · exact hlength.le
      rw [hrow', hadded.blockSize_eq]
      exact max_le (by rw [hlast]; exact Nat.le_succ _)
        (hlength.trans hreached)
    · simp only [if_neg hexternal]
      rw [← stateCost_new hallocated' hcheckpoint']
      exact affordsNew_states hkind' halign htokens hcaching' hothers'
        hcheckpoint' (fun htrue => by rw [hallocated'] at htrue; cases htrue)
        htail (fun htrue => by rw [hallocated'] at htrue; cases htrue)
  rw [hrow'] at hrest
  have hcost : manager.statesAfterHits spec requestId numLocalComputedTokens
      numExternalComputedTokens numTokensMainModel
      (manager'.partialHitReqs requestId).isSome.toNat
      (max ((numLocalComputedTokens + numExternalComputedTokens - 1) /
        manager.blockSize) newComputedBlocks.length) ≤
      manager.statesAfterHits spec requestId numLocalComputedTokens
        numExternalComputedTokens numTokensMainModel
        (manager.cowCost newComputedBlocks numLocalComputedTokens)
        (max ((numLocalComputedTokens + numExternalComputedTokens - 1) /
          manager.blockSize) newComputedBlocks.length) := by
    unfold statesAfterHits
    dsimp only
    split
    · exact Nat.add_le_add_left (freshCost_mono hadded.partial_le) _
    · exact freshCost_mono hadded.partial_le
  refine ⟨final, manager', (), _, ?_, hfinal, hgrown, ?_, hrest⟩
  · unfold addLocalComputedBlocks
    rw [hkind]
    exact hrun
  · change start.getNumFreeBlocks - _ ≤ final.getNumFreeBlocks - _
    push_cast
    omega

end Local

/-! ## Bills -/

section Bill

variable {caching : Bool} {numEncoderTokens : ℕ} {query : BlockQuery R}
  {pool : BlockPool H} {manager manager' : SingleTypeKVCacheManager R H}
  {spec : MambaSpec} {amount : ℤ}

/-- The table of the request does not reach past its speculative columns,
unless a redirected hit is due. -/
def NoSurplus (manager : SingleTypeKVCacheManager R H) (spec : MambaSpec)
    (requestId : R) (numTokensMainModel : ℕ) : Prop :=
  (manager.blocks requestId).length ≤
      cdiv numTokensMainModel manager.blockSize + spec.numSpeculativeBlocks ∨
    (manager.partialHitReqs requestId).isSome = true

instance (manager : SingleTypeKVCacheManager R H) (spec : MambaSpec)
    (requestId : R) (numTokensMainModel : ℕ) :
    Decidable (manager.NoSurplus spec requestId numTokensMainModel) :=
  inferInstanceAs (Decidable (_ ∨ _))

theorem bill_attention (hkind : manager.kind = .fullAttention)
    (hrun : getNumBlocksToAllocate numEncoderTokens query pool manager =
      .ok (pool, manager', amount)) :
    manager' = manager ∧
      manager.getNumBlocksToAllocateBase pool query = .ok amount := by
  unfold getNumBlocksToAllocate at hrun
  rw [hkind] at hrun
  simp only [bind_eq_ok, pure_eq_ok, Prod.mk.injEq] at hrun
  obtain ⟨_, hbase, -, rfl, rfl⟩ := hrun
  exact ⟨rfl, hbase⟩

theorem bill_tail (hkind : manager.kind = .kpoolTail)
    (hrun : getNumBlocksToAllocate numEncoderTokens query pool manager =
      .ok (pool, manager', amount)) :
    manager' = manager ∧
      amount = ((1 - (manager.blocks query.requestId).length : ℕ) : ℤ) := by
  unfold getNumBlocksToAllocate at hrun
  rw [hkind] at hrun
  simp only [Except.ok.injEq, Prod.mk.injEq] at hrun
  exact ⟨hrun.2.1.symm, hrun.2.2.symm⟩

/-- The checkpoint block of a bill. -/
def billedCheckpoint (manager : SingleTypeKVCacheManager R H)
    (spec : MambaSpec) (query : BlockQuery R) : ℕ :=
  (manager.needsInternalCheckpoint spec query.requestId
    query.numTokensMainModel query.totalComputedTokens).toNat

/-- Billing a group of states also notes its checkpoint block. -/
theorem bill_states (hkind : manager.kind = .mamba spec)
    (halign : spec.align = true) (hcap : query.applyAdmissionCap = false)
    (hrun : getNumBlocksToAllocate numEncoderTokens query pool manager =
      .ok (pool, manager', amount)) :
    amount = ((pool.numGpuBlocks + 1 : ℕ) : ℤ) ∧
        manager.HitCachedThisStep pool query.newComputedBlocks ∨
      amount = (manager.getNumBlocksToAllocateAlign spec pool query).1 ∧
        manager' = { manager with
          numCheckpointBlocks := Function.update manager.numCheckpointBlocks
            query.requestId (manager.billedCheckpoint spec query) } := by
  unfold getNumBlocksToAllocate at hrun
  rw [hkind] at hrun
  simp only [halign, hcap, if_true, Bool.false_eq_true, if_false] at hrun
  split at hrun
  case isTrue hcached =>
      simp only [Except.ok.injEq, Prod.mk.injEq] at hrun
      exact .inl ⟨by push_cast; exact hrun.2.2.symm, hcached⟩
  case isFalse =>
      simp only [Except.ok.injEq, Prod.mk.injEq] at hrun
      exact .inr ⟨hrun.2.2.symm, hrun.2.1.symm⟩

/-- A running request is billed for its missing columns. -/
theorem base_running (hkind : manager.kind = .fullAttention)
    (hcap : query.applyAdmissionCap = false)
    (hnohits : query.newComputedBlocks = [])
    (hbase : manager.getNumBlocksToAllocateBase pool query = .ok amount) :
    amount = ((cdiv query.numTokens manager.blockSize -
      (manager.blocks query.requestId).length : ℕ) : ℤ) := by
  unfold getNumBlocksToAllocateBase at hbase
  simp only [hcap, Bool.false_eq_true, if_false, hnohits] at hbase
  split at hbase
  · simp only [bind_eq_ok, pure_eq_ok] at hbase
    obtain ⟨_, -, rfl⟩ := hbase
    rfl
  · simp only [getNumSkippedTokens, hkind, HasPartialLocalHit,
      Except.ok.injEq] at hbase
    rw [← hbase]
    simp [BlockPool.getNumEvictableBlocks]

/-- A new request is billed for the columns behind its hits, for the hits
that a touch takes out of the free queue and for a redirected hit. -/
theorem base_new (hkind : manager.kind = .fullAttention)
    (hcap : query.applyAdmissionCap = false)
    (hrow : manager.blocks query.requestId = [])
    (hnone : manager.numCachedBlock query.requestId = none)
    (hbase : manager.getNumBlocksToAllocateBase pool query = .ok amount) :
    amount = ((cdiv query.numTokens manager.blockSize -
        query.newComputedBlocks.length +
        manager.cowCost query.newComputedBlocks query.numLocalComputedTokens +
        pool.getNumEvictableBlocks query.newComputedBlocks : ℕ) : ℤ) := by
  unfold getNumBlocksToAllocateBase at hbase
  simp only [hcap, Bool.false_eq_true, if_false, hnone, ne_eq,
    not_true_eq_false, getNumSkippedTokens, hkind, Except.ok.injEq, hrow]
    at hbase
  rw [← hbase]
  simp [cowCost]

/-- The bill of a group of states, with a redirected hit or without. -/
theorem align_amount (hcap : query.applyAdmissionCap = false)
    {partialHits : ℕ}
    (hpartialHit : (decide (manager.HasPartialLocalHit query.newComputedBlocks
        query.numLocalComputedTokens) ||
      (manager.partialHitReqs query.requestId).isSome).toNat = partialHits)
    {missing : ℤ}
    (hmissing : missing = (cdiv query.numTokensMainModel manager.blockSize +
      spec.numSpeculativeBlocks : ℕ) - query.newComputedBlocks.length -
        (manager.blocks query.requestId).length) :
    (manager.getNumBlocksToAllocateAlign spec pool query).1 =
      (if 0 < missing ∨ 0 < partialHits then
        ((1 + partialHits + manager.billedCheckpoint spec query +
          if manager.allocatedBlockReqs query.requestId = true then 0
          else spec.numSpeculativeBlocks : ℕ) : ℤ)
      else missing) +
        pool.getNumEvictableBlocks query.newComputedBlocks := by
  have hnew : (if (decide (manager.HasPartialLocalHit query.newComputedBlocks
        query.numLocalComputedTokens) ||
      (manager.partialHitReqs query.requestId).isSome) = true then
        max missing 0 + 1 else missing) =
      if 0 < partialHits then max missing 0 + 1 else missing := by
    rw [← hpartialHit]
    refine if_congr ?_ rfl rfl
    cases decide (manager.HasPartialLocalHit query.newComputedBlocks
        query.numLocalComputedTokens) ||
      (manager.partialHitReqs query.requestId).isSome <;> simp
  simp only [getNumBlocksToAllocateAlign, hcap, Bool.false_eq_true, if_false,
    ← hmissing, hnew, hpartialHit, billedCheckpoint]
  congr 1
  by_cases hhit : 0 < partialHits
  · have hpos : 0 < max missing 0 + 1 := by omega
    rw [if_pos hhit, if_pos hpos, if_pos (Or.inr hhit)]
    push_cast
    rfl
  · rw [if_neg hhit]
    refine if_congr (by simp [hhit]) ?_ rfl
    push_cast
    rfl

variable (pool) in
/-- A running request is billed for what its states take. -/
theorem align_running (hcap : query.applyAdmissionCap = false)
    (hnohits : query.newComputedBlocks = [])
    (hmain : 0 < query.numTokensMainModel)
    (hlong : manager.allocatedBlockReqs query.requestId = true →
      spec.numSpeculativeBlocks ≤ (manager.blocks query.requestId).length)
    (hsurplus : manager.NoSurplus spec query.requestId
      query.numTokensMainModel)
    (hcheckpoint : manager'.numCheckpointBlocks query.requestId =
      manager.billedCheckpoint spec query)
    (hbilled : Billed manager manager') :
    ((manager'.stateCost spec query.requestId query.numTokensMainModel : ℕ) :
        ℤ) ≤ (manager.getNumBlocksToAllocateAlign spec pool query).1 := by
  have hone : manager'.numCheckpointBlocks query.requestId ≤ 1 := by
    rw [hcheckpoint]
    exact Bool.toNat_le _
  have hrow : manager'.blocks query.requestId =
      manager.blocks query.requestId := by
    rw [hbilled]
    rfl
  have hsize : manager'.blockSize = manager.blockSize := by rw [hbilled]
  have hhit : manager'.partialHitReqs = manager.partialHitReqs := by
    rw [hbilled]
  have hrunning : manager'.allocatedBlockReqs = manager.allocatedBlockReqs := by
    rw [hbilled]
  rw [← hrow, ← hrunning] at hlong
  have hbound := (alignedRow_bounds hmain hone hlong).2
  have hpartialHit : (decide (manager.HasPartialLocalHit query.newComputedBlocks
        query.numLocalComputedTokens) ||
      (manager.partialHitReqs query.requestId).isSome).toNat =
        (manager.partialHitReqs query.requestId).isSome.toNat := by
    simp [HasPartialLocalHit, hnohits]
  rw [align_amount hcap hpartialHit rfl, ← hcheckpoint, hnohits]
  unfold NoSurplus at hsurplus
  unfold stateCost
  rw [hsize, hrunning] at hbound
  rw [hsize, hrow, hhit]
  cases hcase : manager.partialHitReqs query.requestId with
  | none =>
      rw [hcase] at hsurplus
      simp only [Option.isSome_none, Bool.false_eq_true, or_false,
        Bool.toNat_false, and_true, List.length_nil, lt_irrefl] at hsurplus ⊢
      by_cases hcovered : cdiv query.numTokensMainModel manager.blockSize +
          spec.numSpeculativeBlocks ≤
            (manager.blocks query.requestId).length
      · rw [if_pos hcovered]
        split <;> omega
      · rw [if_neg hcovered, if_pos (by omega)]
        omega
  | some hit =>
      simp only [Option.isSome_some, Bool.toNat_true, reduceCtorEq, and_false,
        if_false, Nat.one_pos, or_true, if_true]
      omega

theorem Billed.steadyFor (hbilled : Billed manager manager') {requestId : R}
    (hsteady : manager.SteadyFor caching requestId) :
    manager'.SteadyFor caching requestId := by
  apply hsteady.same
  · rw [hbilled]
  · constructor <;> rw [hbilled]
    rfl

theorem Billed.readableTail (hbilled : Billed manager manager')
    {requestId : R} (htail : ReadableTail requestId pool manager) :
    ReadableTail requestId pool manager' := by
  rw [hbilled]
  exact htail

/-- The bill of a request without a prefix stage pays for its new blocks. -/
theorem affordsNew_of_bill (hsteady : manager.Steady caching)
    (hcaching : caching = true → pool.enableCaching = true)
    (htail : ReadableTail query.requestId pool manager)
    (hcap : query.applyAdmissionCap = false)
    (hnohits : query.newComputedBlocks = [])
    (htokens : 0 < query.numTokens) (hmain : 0 < query.numTokensMainModel)
    (hsurplus : ∀ spec, manager.kind = .mamba spec →
      manager.NoSurplus spec query.requestId query.numTokensMainModel)
    (hrun : getNumBlocksToAllocate numEncoderTokens query pool manager =
      .ok (pool, manager', amount)) :
    ∃ credits : ℕ, amount = credits ∧
      AffordsNew caching query.requestId query.numTokens
        query.numTokensMainModel numEncoderTokens pool manager' credits := by
  have hbilled := (getNumBlocksToAllocate_billed hrun).2.1
  have hothers : ∀ other ≠ query.requestId,
      manager'.SteadyFor caching other := fun other _ =>
    hbilled.steadyFor (hsteady.rows other)
  have htail' := hbilled.readableTail htail
  have hkind := hsteady.kind
  have hcolumns := (hsteady.rows query.requestId).columns
  unfold StateColumns at hcolumns
  cases hcase : manager.kind with
  | fullAttention =>
      obtain ⟨rfl, hbase⟩ := bill_attention hcase hrun
      rw [hcase] at hcolumns
      have hclear : manager'.partialHitReqs query.requestId = none := hcolumns
      refine ⟨_, base_running hcase hcap hnohits hbase, ?_⟩
      refine AffordsNew.more ?_
        (affordsNew_attention hcase htokens hothers htail')
      rw [hclear, Option.isSome_none, Bool.toNat_false, Nat.zero_add]
  | kpoolTail =>
      obtain ⟨rfl, hamount⟩ := bill_tail hcase hrun
      rw [hcase] at hcolumns
      exact ⟨_, hamount, affordsNew_tail hcase hothers hcolumns⟩
  | mamba spec =>
      rw [hcase] at hkind hcolumns
      have halign : spec.align = true := hkind
      rcases bill_states hcase halign hcap hrun with
        ⟨-, hcached⟩ | ⟨rfl, hmanager⟩
      · exfalso
        rw [hnohits] at hcached
        obtain ⟨key, -, hkey⟩ := hcached
        cases hkey
      · have hcheckpoint : manager'.numCheckpointBlocks query.requestId =
            manager.billedCheckpoint spec query := by
          rw [hmanager]
          exact Function.update_self _ _ _
        have hcost := align_running pool hcap hnohits hmain hcolumns.1
          (hsurplus spec hcase) hcheckpoint hbilled
        obtain ⟨credits, hcredits⟩ :=
          Int.eq_ofNat_of_zero_le ((Int.natCast_nonneg _).trans hcost)
        rw [hcredits] at hcost ⊢
        refine ⟨credits, rfl, AffordsNew.more (Int.ofNat_le.mp hcost) ?_⟩
        refine affordsNew_states ?_ halign hmain hcaching hothers ?_ ?_ htail'
          ?_
        · rw [hbilled]
          exact hcase
        · rw [hcheckpoint]
          exact Bool.toNat_le _
        · rw [hbilled]
          exact hcolumns.1
        · rw [hbilled]
          intro _ blockIdx sourceBlock hpartialHit
          obtain ⟨hon, -, hlt⟩ := hcolumns.2 blockIdx sourceBlock hpartialHit
          exact ⟨hon, hlt⟩
  | _ =>
      rw [hcase] at hkind
      exact hkind.elim

/-- External tokens end in a column that the hits reach already, or the new
tokens need no more columns than the bill counts. -/
def ExternalFits (manager : SingleTypeKVCacheManager R H) (spec : MambaSpec)
    (query : BlockQuery R) (numExternalComputedTokens : ℕ) : Prop :=
  numExternalComputedTokens = 0 ∨
    query.newComputedBlocks.length =
      cdiv query.totalComputedTokens manager.blockSize ∨
    cdiv query.numTokensMainModel manager.blockSize =
      cdiv query.totalComputedTokens manager.blockSize ∨
    cdiv query.numTokensMainModel manager.blockSize =
        cdiv query.totalComputedTokens manager.blockSize + 1 ∧
      manager.billedCheckpoint spec query = 1

instance (manager : SingleTypeKVCacheManager R H) (spec : MambaSpec)
    (query : BlockQuery R) (numExternalComputedTokens : ℕ) :
    Decidable (manager.ExternalFits spec query numExternalComputedTokens) :=
  inferInstanceAs (Decidable (_ ∨ _ ∨ _ ∨ _ ∧ _))

/-- At most the running column, the checkpoint, the speculative columns and
a redirected hit. -/
theorem freshCost_le {numSpeculativeBlocks columns checkpointBlocks partialHits
    length : ℕ} (hcheckpoint : checkpointBlocks ≤ 1) :
    freshCost numSpeculativeBlocks columns checkpointBlocks partialHits
        length ≤
      1 + partialHits + checkpointBlocks + numSpeculativeBlocks := by
  unfold freshCost
  split
  · exact Nat.zero_le _
  · split <;> omega

/-- From the column before the last one on, no checkpoint is taken. -/
theorem freshCost_near {numSpeculativeBlocks columns checkpointBlocks
    partialHits length : ℕ} (hnear : columns ≤ length + 1) :
    freshCost numSpeculativeBlocks columns checkpointBlocks partialHits
        length ≤
      columns + numSpeculativeBlocks - length + partialHits := by
  unfold freshCost
  split
  · exact Nat.zero_le _
  · rw [if_neg (by omega)]

/-- A request that has all its columns already takes nothing. -/
theorem freshCost_covered {numSpeculativeBlocks columns checkpointBlocks
    length : ℕ} (hcovered : columns + numSpeculativeBlocks ≤ length) :
    freshCost numSpeculativeBlocks columns checkpointBlocks 0 length = 0 :=
  if_pos ⟨hcovered, rfl⟩

/-- The arithmetic of a new request: `reached` columns are computed before
this step, `hits` of them by local hits, and `columns` after it. -/
theorem hitsCost_le {columns reached skipped hits checkpointBlocks
      numExternalComputedTokens : ℕ} (numSpeculativeBlocks partialHits : ℕ)
    (hcheckpoint : checkpointBlocks ≤ 1) (hreached : reached ≤ columns)
    (hskipped : reached ≤ skipped + 1) (hhits : hits ≤ reached)
    (hfits : numExternalComputedTokens = 0 ∨ hits = reached ∨
      columns = reached ∨ columns = reached + 1 ∧ checkpointBlocks = 1) :
    (if 0 < numExternalComputedTokens then
        reached - max skipped hits +
          freshCost numSpeculativeBlocks columns checkpointBlocks partialHits
            reached
      else freshCost numSpeculativeBlocks columns checkpointBlocks partialHits
        (max skipped hits)) ≤
      if hits < columns + numSpeculativeBlocks ∨ 0 < partialHits then
        1 + partialHits + checkpointBlocks + numSpeculativeBlocks
      else columns + numSpeculativeBlocks - hits := by
  by_cases hneeded : hits < columns + numSpeculativeBlocks ∨ 0 < partialHits
  · rw [if_pos hneeded]
    split
    case isTrue hexternal =>
        rcases hfits with hzero | hall | hsame | ⟨hnext, hone⟩
        · omega
        · rw [hall, Nat.sub_eq_zero_of_le (le_max_right _ _), Nat.zero_add]
          exact freshCost_le hcheckpoint
        · calc
            _ ≤ 1 + (columns + numSpeculativeBlocks - reached + partialHits) :=
              Nat.add_le_add (by omega) (freshCost_near (by omega))
            _ ≤ _ := by omega
        · calc
            _ ≤ 1 + (columns + numSpeculativeBlocks - reached + partialHits) :=
              Nat.add_le_add (by omega) (freshCost_near (by omega))
            _ ≤ _ := by omega
    case isFalse => exact freshCost_le hcheckpoint
  · rw [if_neg hneeded]
    obtain ⟨hcovered, hnone⟩ := not_or.mp hneeded
    obtain rfl : partialHits = 0 := by omega
    split
    · rw [freshCost_covered (by omega)]
      omega
    · rw [freshCost_covered (by omega)]
      exact Nat.zero_le _

variable (pool) in
/-- The bill of a new request is at least what its states take. -/
theorem align_new {numLocalComputedTokens numExternalComputedTokens : ℕ}
    (hcap : query.applyAdmissionCap = false)
    (hrow : manager.blocks query.requestId = [])
    (hnone : manager.partialHitReqs query.requestId = none)
    (hallocated : manager.allocatedBlockReqs query.requestId = false)
    (hlocal : query.numLocalComputedTokens = numLocalComputedTokens)
    (htotal : query.totalComputedTokens =
      numLocalComputedTokens + numExternalComputedTokens)
    (hle : query.totalComputedTokens ≤ query.numTokensMainModel)
    (hlength : query.newComputedBlocks = [] ∨
      query.newComputedBlocks.length =
        cdiv numLocalComputedTokens manager.blockSize)
    (hfits : manager.ExternalFits spec query numExternalComputedTokens)
    (hcheckpoint : manager'.numCheckpointBlocks query.requestId =
      manager.billedCheckpoint spec query)
    (hbilled : Billed manager manager') :
    ((manager'.statesAfterHits spec query.requestId numLocalComputedTokens
          numExternalComputedTokens query.numTokensMainModel
          (manager'.cowCost query.newComputedBlocks numLocalComputedTokens)
          (max ((numLocalComputedTokens + numExternalComputedTokens - 1) /
            manager.blockSize) query.newComputedBlocks.length) +
        pool.getNumEvictableBlocks query.newComputedBlocks : ℕ) : ℤ) ≤
      (manager.getNumBlocksToAllocateAlign spec pool query).1 := by
  have hone : manager.billedCheckpoint spec query ≤ 1 := Bool.toNat_le _
  have hsize : manager'.blockSize = manager.blockSize := by rw [hbilled]
  have hcow : manager'.cowCost query.newComputedBlocks numLocalComputedTokens =
      manager.cowCost query.newComputedBlocks numLocalComputedTokens := by
    rw [hbilled]
    rfl
  have hpartialHit : (decide (manager.HasPartialLocalHit query.newComputedBlocks
        query.numLocalComputedTokens) ||
      (manager.partialHitReqs query.requestId).isSome).toNat =
        manager.cowCost query.newComputedBlocks numLocalComputedTokens := by
    rw [hnone, hlocal, Option.isSome_none, Bool.or_false, cowCost]
    split <;> simp_all
  have hreached := cdiv_mono manager.blockSize_pos hle
  have hlast : cdiv query.totalComputedTokens manager.blockSize ≤
      (query.totalComputedTokens - 1) / manager.blockSize + 1 := by
    rcases Nat.eq_zero_or_pos query.totalComputedTokens with hzero | hpos
    · rw [hzero, cdiv_zero]
      exact Nat.zero_le _
    · exact (cdiv_eq_pred_div_succ manager.blockSize_pos hpos).le
  have hhits : query.newComputedBlocks.length ≤
      cdiv query.totalComputedTokens manager.blockSize := by
    rcases hlength with hempty | hlength
    · rw [hempty]
      exact Nat.zero_le _
    · rw [hlength, htotal]
      exact cdiv_mono manager.blockSize_pos (Nat.le_add_right _ _)
  unfold ExternalFits at hfits
  rw [align_amount hcap hpartialHit rfl, hrow, hallocated]
  unfold statesAfterHits
  rw [hcheckpoint, hsize, hcow, ← htotal]
  have hcost := hitsCost_le spec.numSpeculativeBlocks
    (manager.cowCost query.newComputedBlocks numLocalComputedTokens) hone
    hreached hlast hhits hfits
  simp only [Bool.false_eq_true, if_false, List.length_nil]
  rw [Nat.cast_add]
  refine Int.add_le_add_right ((Int.ofNat_le.mpr hcost).trans ?_) _
  split <;> split <;> omega

theorem AffordsRest.more {requestId : R}
    {numLocalComputedTokens numExternalComputedTokens numTokens
      numTokensMainModel credits larger : ℕ} (hmore : credits ≤ larger)
    (haffords : AffordsRest caching requestId numLocalComputedTokens
      numExternalComputedTokens numTokens numTokensMainModel numEncoderTokens
      pool manager credits) :
    AffordsRest caching requestId numLocalComputedTokens
      numExternalComputedTokens numTokens numTokensMainModel numEncoderTokens
      pool manager larger := by
  unfold AffordsRest at haffords ⊢
  split
  · rw [if_pos ‹_›] at haffords
    exact AffordsExternal.more hmore haffords
  · rw [if_neg ‹_›] at haffords
    exact AffordsNew.more hmore haffords

theorem AffordsLocal.more {requestId : R} {newComputedBlocks : List BlockId}
    {numLocalComputedTokens numExternalComputedTokens numTokens
      numTokensMainModel credits larger : ℕ} (hmore : credits ≤ larger)
    (haffords : AffordsLocal caching requestId newComputedBlocks
      numLocalComputedTokens numExternalComputedTokens numTokens
      numTokensMainModel numEncoderTokens pool manager credits) :
    AffordsLocal caching requestId newComputedBlocks numLocalComputedTokens
      numExternalComputedTokens numTokens numTokensMainModel numEncoderTokens
      pool manager larger :=
  haffords.mono hmore fun _ _ _ _ hrest =>
    AffordsRest.more (Nat.le_add_right _ _) hrest

/-- The bill of a new request, unless it is a refusal, pays for its hits, its
external blocks and its new blocks. -/
theorem affordsLocal_of_bill {numExternalComputedTokens : ℕ}
    (hsteady : manager.Steady caching)
    (hcaching : caching = true → pool.enableCaching = true)
    (hsound : Sound pool) (hrow : manager.blocks query.requestId = [])
    (hcap : query.applyAdmissionCap = false)
    (htotal : query.totalComputedTokens =
      query.numLocalComputedTokens + numExternalComputedTokens)
    (htokens : 0 < query.numTokens) (hmain : 0 < query.numTokensMainModel)
    (hleTokens : query.totalComputedTokens ≤ query.numTokens)
    (hle : query.totalComputedTokens ≤ query.numTokensMainModel)
    (hfit : manager.kind ≠ .kpoolTail → HitsFit pool manager
      query.newComputedBlocks query.numLocalComputedTokens)
    (hexternal : ∀ spec, manager.kind = .mamba spec →
      manager.ExternalFits spec query numExternalComputedTokens)
    (hrun : getNumBlocksToAllocate numEncoderTokens query pool manager =
      .ok (pool, manager', amount)) :
    ∃ credits : ℕ, amount = credits ∧
      (credits ≤ pool.numGpuBlocks →
        AffordsLocal caching query.requestId query.newComputedBlocks
          query.numLocalComputedTokens numExternalComputedTokens
          query.numTokens query.numTokensMainModel numEncoderTokens pool
          manager' credits) := by
  have hbilled := (getNumBlocksToAllocate_billed hrun).2.1
  have hothers : ∀ other ≠ query.requestId,
      manager'.SteadyFor caching other := fun other _ =>
    hbilled.steadyFor (hsteady.rows other)
  have hkind := hsteady.kind
  obtain ⟨hnone, hclear, hallocated⟩ :=
    (hsteady.rows query.requestId).fresh hrow
  cases hcase : manager.kind with
  | fullAttention =>
      obtain ⟨rfl, hbase⟩ := bill_attention hcase hrun
      refine ⟨_, base_new hcase hcap hrow hnone hbase, fun _ => ?_⟩
      exact affordsLocal_attention hcase htokens (htotal ▸ hleTokens) hsound
        hothers hrow hclear (hfit (by rw [hcase]; exact nofun))
  | kpoolTail =>
      obtain ⟨rfl, hamount⟩ := bill_tail hcase hrun
      exact ⟨_, hamount, fun _ => affordsLocal_tail hcase hothers hclear⟩
  | mamba spec =>
      rw [hcase] at hkind
      have halign : spec.align = true := hkind
      have hfit' := hfit (by rw [hcase]; exact nofun)
      rcases bill_states hcase halign hcap hrun with
        ⟨rfl, -⟩ | ⟨rfl, hmanager⟩
      · exact ⟨_, rfl, fun hle => absurd hle (Nat.not_succ_le_self _)⟩
      · have hcheckpoint : manager'.numCheckpointBlocks query.requestId =
            manager.billedCheckpoint spec query := by
          rw [hmanager]
          exact Function.update_self _ _ _
        have hcost := align_new pool hcap hrow hclear hallocated rfl htotal
          hle hfit'.length_eq (hexternal spec hcase) hcheckpoint hbilled
        obtain ⟨credits, hcredits⟩ :=
          Int.eq_ofNat_of_zero_le ((Int.natCast_nonneg _).trans hcost)
        rw [hcredits] at hcost ⊢
        refine ⟨credits, rfl, fun _ =>
          AffordsLocal.more (Int.ofNat_le.mp hcost) ?_⟩
        have hsize : manager'.blockSize = manager.blockSize := by rw [hbilled]
        rw [← hsize]
        refine affordsLocal_states ?_ halign hmain hcaching hsound hothers ?_
          ?_ ?_ ?_ ?_
        · rw [hbilled]
          exact hcase
        · rw [hbilled]
          exact hrow
        · rw [hbilled]
          exact hclear
        · rw [hbilled]
          exact hallocated
        · rw [hcheckpoint]
          exact Bool.toNat_le _
        · exact ⟨hfit'.caching, hfit'.inPool, by rw [hsize]; exact
            hfit'.length_eq, hfit'.last_ne⟩
  | _ =>
      rw [hcase] at hkind
      exact hkind.elim

end Bill

end GlmFlash.Cache.SingleTypeKVCacheManager
