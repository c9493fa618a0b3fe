import GlmFlash.Cache.Admission
import GlmFlash.Cache.ManagerLedger
import GlmFlash.Cache.PoolCapacity

/-!
# What a manager bills and what it takes

The predictor and the allocator of a manager are separate arithmetic.  Here
they are compared for full attention, Mamba states in align mode and the
indexer tail: the bill of a request, taken as credits, pays for every block
that the touches and allocations of the manager then take.
-/

set_option linter.unusedSectionVars false

namespace GlmFlash.Cache.SingleTypeKVCacheManager

open GlmFlash.Library
open BlockPool (Sound Grows Fresh supply)

variable {R H : Type} [DecidableEq R] [DecidableEq H]

/-! ## Steady managers -/

/-- The kinds of groups of this model. -/
def IsGlmKind : ManagerKind → Prop
  | .fullAttention | .kpoolTail => True
  | .mamba spec => spec.align = true
  | _ => False

instance : ∀ kind, Decidable (IsGlmKind kind)
  | .fullAttention | .kpoolTail => .isTrue trivial
  | .mamba spec => inferInstanceAs (Decidable (spec.align = true))
  | .rswa _ | .slidingWindow _ _ | .chunkedLocalAttention _
  | .crossAttention => .isFalse id

def stateSpec : ManagerKind → Option MambaSpec
  | .mamba spec => some spec
  | _ => none

/-- What holds of the columns of a request between calls. -/
def StateColumns (caching : Bool) (manager : SingleTypeKVCacheManager R H)
    (requestId : R) : Prop :=
  match manager.kind with
  | .mamba spec =>
      (manager.allocatedBlockReqs requestId = true →
        spec.numSpeculativeBlocks ≤ (manager.blocks requestId).length) ∧
      ∀ blockIdx sourceBlock,
        manager.partialHitReqs requestId = some (blockIdx, sourceBlock) →
          caching = true ∧ sourceBlock ≠ nullBlock ∧
            blockIdx + spec.numSpeculativeBlocks <
              (manager.blocks requestId).length
  | _ => manager.partialHitReqs requestId = none

structure SteadyFor (caching : Bool) (manager : SingleTypeKVCacheManager R H)
    (requestId : R) : Prop where
  fresh : manager.blocks requestId = [] →
    manager.numCachedBlock requestId = none ∧
      manager.partialHitReqs requestId = none ∧
      manager.allocatedBlockReqs requestId = false
  columns : manager.StateColumns caching requestId

structure Steady (caching : Bool) (manager : SingleTypeKVCacheManager R H) :
    Prop where
  kind : IsGlmKind manager.kind
  rows : ∀ requestId, manager.SteadyFor caching requestId

/-- Nothing that steadiness reads of a request has changed. -/
structure SameFor (requestId : R)
    (manager manager' : SingleTypeKVCacheManager R H) : Prop where
  blocks : manager'.blocks requestId = manager.blocks requestId
  numCachedBlock : manager'.numCachedBlock requestId =
    manager.numCachedBlock requestId
  partialHitReqs : manager'.partialHitReqs requestId =
    manager.partialHitReqs requestId
  allocatedBlockReqs : manager'.allocatedBlockReqs requestId =
    manager.allocatedBlockReqs requestId

theorem SteadyFor.same {caching : Bool} {requestId : R}
    {manager manager' : SingleTypeKVCacheManager R H}
    (hspec : manager'.toManagerSpec = manager.toManagerSpec)
    (hsame : SameFor requestId manager manager')
    (hsteady : manager.SteadyFor caching requestId) :
    manager'.SteadyFor caching requestId := by
  obtain ⟨hfresh, hcolumns⟩ := hsteady
  constructor
  · rw [hsame.blocks, hsame.numCachedBlock, hsame.partialHitReqs,
      hsame.allocatedBlockReqs]
    exact hfresh
  · unfold StateColumns at hcolumns ⊢
    rw [hspec, hsame.blocks, hsame.partialHitReqs, hsame.allocatedBlockReqs]
    exact hcolumns

/-- Only the columns of one request have moved. -/
structure Elsewhere (requestId : R)
    (manager manager' : SingleTypeKVCacheManager R H) : Prop where
  spec_eq : manager'.toManagerSpec = manager.toManagerSpec
  same : ∀ other ≠ requestId, SameFor other manager manager'

theorem Elsewhere.refl (requestId : R)
    (manager : SingleTypeKVCacheManager R H) :
    Elsewhere requestId manager manager :=
  ⟨rfl, fun _ _ => ⟨rfl, rfl, rfl, rfl⟩⟩

theorem Elsewhere.trans {requestId : R}
    {first second third : SingleTypeKVCacheManager R H}
    (hfirst : Elsewhere requestId first second)
    (hsecond : Elsewhere requestId second third) :
    Elsewhere requestId first third := by
  refine ⟨hsecond.spec_eq.trans hfirst.spec_eq, fun other hother => ?_⟩
  have hleft := hfirst.same other hother
  have hright := hsecond.same other hother
  exact ⟨hright.blocks.trans hleft.blocks,
    hright.numCachedBlock.trans hleft.numCachedBlock,
    hright.partialHitReqs.trans hleft.partialHitReqs,
    hright.allocatedBlockReqs.trans hleft.allocatedBlockReqs⟩

theorem Steady.elsewhere {caching : Bool} {requestId : R}
    {manager manager' : SingleTypeKVCacheManager R H}
    (hsteady : manager.Steady caching)
    (helsewhere : Elsewhere requestId manager manager')
    (hself : manager'.SteadyFor caching requestId) :
    manager'.Steady caching := by
  refine ⟨?_, fun other => ?_⟩
  · rw [helsewhere.spec_eq]
    exact hsteady.kind
  · by_cases hother : other = requestId
    · exact hother ▸ hself
    · exact (hsteady.rows other).same helsewhere.spec_eq
        (helsewhere.same other hother)

/-! ## The shape of a shifted row -/

theorem length_reuseSpeculative (numSkippedBlocks start count : ℕ)
    (reqBlocks : List BlockId) :
    (reuseSpeculative numSkippedBlocks (List.range' start count)
        reqBlocks).length =
      reqBlocks.length + min count (numSkippedBlocks - start) := by
  induction count generalizing start reqBlocks with
  | zero => simp [reuseSpeculative]
  | succ count ih =>
      rw [List.range'_succ, reuseSpeculative]
      split
      · rw [ih]
        simp only [List.length_set, List.length_append, List.length_singleton]
        omega
      · omega

theorem getElem?_reuseSpeculative (numSkippedBlocks : ℕ)
    (positions : List ℕ) (reqBlocks : List BlockId) {column : ℕ}
    (hlt : column < reqBlocks.length) (hnot : column ∉ positions) :
    (reuseSpeculative numSkippedBlocks positions reqBlocks)[column]? =
      reqBlocks[column]? := by
  induction positions generalizing reqBlocks with
  | nil => rfl
  | cons position positions ih =>
      simp only [List.mem_cons, not_or] at hnot
      rw [reuseSpeculative]
      split
      · rw [ih _ (by simp; omega) hnot.2,
          List.getElem?_set_ne (Ne.symm hnot.1),
          List.getElem?_append_left hlt]
      · rfl

/-- The length of the shifted row of a request that already runs. -/
theorem length_shiftedBlocks_allocated
    {manager : SingleTypeKVCacheManager R H} {spec : MambaSpec}
    {requestId : R} {numRequiredBlocks : ℕ}
    (hallocated : manager.allocatedBlockReqs requestId = true)
    (hlong : spec.numSpeculativeBlocks ≤ (manager.blocks requestId).length)
    (hcheckpoint : manager.numCheckpointBlocks requestId ≤ 1) :
    (manager.shiftedBlocks spec requestId numRequiredBlocks).length =
      if (manager.blocks requestId).length <
          numRequiredBlocks - spec.numSpeculativeBlocks - 1 then
        numRequiredBlocks - spec.numSpeculativeBlocks - 1 -
          manager.numCheckpointBlocks requestId + spec.numSpeculativeBlocks
      else max (manager.blocks requestId).length
        (numRequiredBlocks - spec.numSpeculativeBlocks - 1 +
          spec.numSpeculativeBlocks) := by
  unfold shiftedBlocks
  simp only [hallocated, if_true, length_reuseSpeculative]
  split
  · simp only [List.length_append, List.length_replicate]
    omega
  · omega

/-- The length of the shifted row of a new request. -/
theorem length_shiftedBlocks_new
    {manager : SingleTypeKVCacheManager R H} {spec : MambaSpec}
    {requestId : R} {numRequiredBlocks : ℕ}
    (hallocated : manager.allocatedBlockReqs requestId = false)
    (hcheckpoint : manager.numCheckpointBlocks requestId ≤ 1) :
    (manager.shiftedBlocks spec requestId numRequiredBlocks).length =
      if (manager.blocks requestId).length <
          numRequiredBlocks - spec.numSpeculativeBlocks - 1 then
        numRequiredBlocks - spec.numSpeculativeBlocks - 1 -
          manager.numCheckpointBlocks requestId
      else (manager.blocks requestId).length := by
  unfold shiftedBlocks
  simp only [hallocated, Bool.false_eq_true, if_false]
  split
  · simp only [List.length_append, List.length_replicate]
    omega
  · rfl

/-- The columns below the speculative ones stay where they are. -/
theorem getElem?_shiftedBlocks {manager : SingleTypeKVCacheManager R H}
    {spec : MambaSpec} {requestId : R} {column : ℕ} (numRequiredBlocks : ℕ)
    (hlt : column < (manager.blocks requestId).length)
    (hbelow : manager.allocatedBlockReqs requestId = true →
      column + spec.numSpeculativeBlocks <
        (manager.blocks requestId).length) :
    (manager.shiftedBlocks spec requestId numRequiredBlocks)[column]? =
      (manager.blocks requestId)[column]? := by
  have hpadded : ∀ count, ((manager.blocks requestId) ++
      List.replicate count nullBlock)[column]? =
        (manager.blocks requestId)[column]? := fun count =>
    List.getElem?_append_left hlt
  unfold shiftedBlocks
  cases hallocated : manager.allocatedBlockReqs requestId with
  | false =>
      simp only [Bool.false_eq_true, if_false]
      split
      · exact hpadded _
      · rfl
  | true =>
      have hcolumn := hbelow hallocated
      have hnot : column ∉ List.range' ((manager.blocks requestId).length -
          spec.numSpeculativeBlocks) spec.numSpeculativeBlocks := by
        rw [List.mem_range'_1]
        omega
      simp only [if_true]
      split
      · rw [getElem?_reuseSpeculative _ _ _ (by
          rw [List.length_append]
          omega) hnot]
        exact hpadded _
      · exact getElem?_reuseSpeculative _ _ _ hlt hnot

/-! ## New blocks -/

/-- The row of a request that just got its blocks reaches its last column. -/
def Provisioned (requestId : R) (numTokensMainModel : ℕ)
    (manager : SingleTypeKVCacheManager R H) : Prop :=
  manager.blocks requestId ≠ [] ∧
    ∀ spec ∈ stateSpec manager.kind,
      cdiv numTokensMainModel manager.blockSize + spec.numSpeculativeBlocks ≤
        (manager.blocks requestId).length

instance (requestId : R) (numTokensMainModel : ℕ)
    (manager : SingleTypeKVCacheManager R H) :
    Decidable (manager.Provisioned requestId numTokensMainModel) :=
  inferInstanceAs (Decidable (_ ∧ _))

/-- What a manager looks like after `allocate_new_blocks`. -/
def Done (caching : Bool) (requestId : R) (numTokensMainModel : ℕ)
    (_pool : BlockPool H) (manager : SingleTypeKVCacheManager R H)
    (_credits : ℕ) : Prop :=
  manager.Steady caching ∧ manager.Provisioned requestId numTokensMainModel

/-- The credits pay for `allocate_new_blocks`. -/
abbrev AffordsNew (caching : Bool) (requestId : R)
    (numTokens numTokensMainModel numEncoderTokens : ℕ) (pool : BlockPool H)
    (manager : SingleTypeKVCacheManager R H) (credits : ℕ) : Prop :=
  supply.Affords
    (allocateNewBlocks requestId numTokens numTokensMainModel numEncoderTokens)
    (Done caching requestId numTokensMainModel) pool manager credits

theorem extend_ok {requestId : R} {pool : BlockPool H}
    (manager : SingleTypeKVCacheManager R H) (hsound : Sound pool)
    {numBlocks : ℕ} (hfits : (numBlocks : ℤ) ≤ pool.getNumFreeBlocks) :
    ∃ newBlocks pool', extend requestId numBlocks pool manager =
        .ok (pool', manager.setBlocks requestId
          (manager.blocks requestId ++ newBlocks), newBlocks) ∧
      newBlocks.length = numBlocks ∧ Fresh pool pool' newBlocks := by
  obtain ⟨newBlocks, pool', hget, hlength, hfresh⟩ :=
    BlockPool.getNewBlocks_ok hsound hfits
  refine ⟨newBlocks, pool', ?_, hlength, hfresh⟩
  simp only [extend, bind_eq_ok, Prod.exists, pure_eq_ok]
  exact ⟨newBlocks, pool', hget, rfl⟩

theorem elsewhere_setBlocks (manager : SingleTypeKVCacheManager R H)
    (requestId : R) (reqBlocks : List BlockId) :
    Elsewhere requestId manager (manager.setBlocks requestId reqBlocks) :=
  ⟨rfl, fun _ hother => ⟨blocks_setBlocks_ne manager hother reqBlocks, rfl,
    rfl, rfl⟩⟩

/-- The source of a copy-on-write pair is where the request expects it and in
use. -/
def ReadableTail (requestId : R) (pool : BlockPool H)
    (manager : SingleTypeKVCacheManager R H) : Prop :=
  ∀ blockIdx sourceBlock,
    manager.partialHitReqs requestId = some (blockIdx, sourceBlock) →
      (manager.blocks requestId)[blockIdx]? = some sourceBlock ∧
        sourceBlock ≠ nullBlock ∧ 0 < pool.refCnt sourceBlock

theorem ReadableTail.grow {requestId : R} {pool pool' : BlockPool H}
    {manager : SingleTypeKVCacheManager R H} (hgrows : Grows pool pool')
    (htail : ReadableTail requestId pool manager) :
    ReadableTail requestId pool' manager := by
  intro blockIdx sourceBlock hpartialHit
  obtain ⟨hcolumn, hnull, hused⟩ := htail blockIdx sourceBlock hpartialHit
  exact ⟨hcolumn, hnull, hused.trans_le (hgrows.refCnt_le sourceBlock)⟩

theorem applyCow_ok {pool : BlockPool H}
    (manager : SingleTypeKVCacheManager R H) {reqBlocks : List BlockId}
    {blockIdx : ℕ} {sourceBlock cowBlock : BlockId} (hsound : Sound pool)
    (hcolumn : reqBlocks[blockIdx]? = some sourceBlock)
    (hnull : sourceBlock ≠ nullBlock) (hused : 0 < pool.refCnt sourceBlock)
    (hcow : 0 < pool.refCnt cowBlock) :
    applyCow pool manager reqBlocks blockIdx sourceBlock cowBlock =
        .ok (pool.addRef cowBlock 1,
          { manager with
            pendingCowCopies :=
              manager.pendingCowCopies ++ [(sourceBlock, cowBlock)] },
          reqBlocks.set blockIdx cowBlock) ∧
      Sound (pool.addRef cowBlock 1) := by
  refine ⟨?_, BlockPool.sound_addRef_used hsound fun _ => hcow⟩
  simp only [applyCow, bind_eq_ok, require_eq_ok]
  exact ⟨(), hcolumn, (), ⟨hnull, hused⟩, rfl⟩

/-- A redirected hit costs one block. -/
theorem redirectPartialHit_ok {requestId : R} {pool : BlockPool H}
    {manager : SingleTypeKVCacheManager R H} (hsound : Sound pool)
    (htail : ReadableTail requestId pool manager)
    (hfits : ((manager.partialHitReqs requestId).isSome.toNat : ℤ) ≤
      pool.getNumFreeBlocks) :
    ∃ pool' manager' cowBlocks, redirectPartialHit requestId pool manager =
        .ok (pool', manager', cowBlocks) ∧ Sound pool' ∧ Grows pool pool' ∧
      pool'.getNumFreeBlocks = pool.getNumFreeBlocks -
        (manager.partialHitReqs requestId).isSome.toNat ∧
      Elsewhere requestId manager manager' ∧
      manager'.partialHitReqs requestId = none ∧
      (manager'.blocks requestId).length =
        (manager.blocks requestId).length := by
  unfold redirectPartialHit
  cases hpartialHit : manager.partialHitReqs requestId with
  | none =>
      exact ⟨pool, manager, [], rfl, hsound, Grows.refl pool, by simp,
        Elsewhere.refl requestId manager, hpartialHit, rfl⟩
  | some hit =>
      obtain ⟨blockIdx, sourceBlock⟩ := hit
      rw [hpartialHit] at hfits
      obtain ⟨hcolumn, hnull, hused⟩ := htail blockIdx sourceBlock hpartialHit
      have hone : ((1 : ℕ) : ℤ) ≤ pool.getNumFreeBlocks := by
        simpa using hfits
      obtain ⟨newBlocks, pool', hget, hlength, hfresh⟩ :=
        BlockPool.getNewBlocks_ok hsound hone
      obtain ⟨cowBlock, rfl⟩ := List.length_eq_one_iff.mp hlength
      obtain ⟨hcow, hsound'⟩ := applyCow_ok manager hfresh.sound hcolumn hnull
        (hused.trans_le (hfresh.grows.refCnt_le sourceBlock))
        (hfresh.used cowBlock List.mem_cons_self)
      refine ⟨pool'.addRef cowBlock 1,
        { (({ manager with
              pendingCowCopies := manager.pendingCowCopies ++
                [(sourceBlock, cowBlock)] } :
            SingleTypeKVCacheManager R H).setBlocks requestId
              ((manager.blocks requestId).set blockIdx cowBlock)) with
          partialHitReqs :=
            Function.update manager.partialHitReqs requestId none },
        [cowBlock], ?_, hsound',
        hfresh.grows.trans (BlockPool.grows_addRef_one pool' cowBlock), ?_,
        ⟨rfl, fun other hother => ⟨?_, rfl, ?_, rfl⟩⟩, ?_, ?_⟩
      · simp only [bind_eq_ok, Prod.exists]
        refine ⟨[cowBlock], pool', hget, ?_⟩
        simp only [bind_eq_ok, Prod.exists]
        exact ⟨_, _, _, hcow, rfl⟩
      · exact hfresh.numFree_eq
      · exact Tables.row_setRow_ne _ hother _
      · exact Function.update_of_ne hother _ _
      · exact Function.update_self _ _ _
      · rw [show ∀ manager' : SingleTypeKVCacheManager R H,
          manager'.blocks requestId = manager'.reqToBlocks.row requestId from
            fun _ => rfl]
        simp [setBlocks]

theorem done_of {caching : Bool} {requestId : R} {numTokensMainModel : ℕ}
    {manager manager' : SingleTypeKVCacheManager R H}
    (hkind : IsGlmKind manager.kind)
    (hothers : ∀ other ≠ requestId, manager.SteadyFor caching other)
    (helsewhere : Elsewhere requestId manager manager')
    (hcolumns : manager'.StateColumns caching requestId)
    (hprovisioned : manager'.Provisioned requestId numTokensMainModel)
    (pool : BlockPool H) (credits : ℕ) :
    Done caching requestId numTokensMainModel pool manager' credits := by
  refine ⟨⟨?_, fun other => ?_⟩, hprovisioned⟩
  · rw [helsewhere.spec_eq]
    exact hkind
  · by_cases hother : other = requestId
    · subst hother
      exact ⟨fun hempty => absurd hempty hprovisioned.1, hcolumns⟩
    · exact (hothers other hother).same helsewhere.spec_eq
        (helsewhere.same other hother)

/-- `done_of` for a group without states. -/
theorem done_of_plain {caching : Bool} {requestId : R}
    {numTokensMainModel : ℕ} {manager manager' : SingleTypeKVCacheManager R H}
    (hkind : manager.kind = .fullAttention ∨ manager.kind = .kpoolTail)
    (hothers : ∀ other ≠ requestId, manager.SteadyFor caching other)
    (helsewhere : Elsewhere requestId manager manager')
    (hclear : manager'.partialHitReqs requestId = none)
    (hrow : manager'.blocks requestId ≠ []) (pool : BlockPool H)
    (credits : ℕ) :
    Done caching requestId numTokensMainModel pool manager' credits := by
  have hkind' : manager'.kind = manager.kind :=
    congrArg ManagerSpec.kind helsewhere.spec_eq
  apply done_of _ hothers helsewhere
  · unfold StateColumns
    rw [hkind']
    cases hkind with
    | inl hkind => rw [hkind]; exact hclear
    | inr hkind => rw [hkind]; exact hclear
  · refine ⟨hrow, fun spec hspec => ?_⟩
    rw [hkind'] at hspec
    cases hkind with
    | inl hkind => rw [hkind] at hspec; cases hspec
    | inr hkind => rw [hkind] at hspec; cases hspec
  · cases hkind with
    | inl hkind => rw [hkind]; trivial
    | inr hkind => rw [hkind]; trivial

/-- Full attention pays for its missing columns and for a redirected hit. -/
theorem affordsNew_attention {caching : Bool} {requestId : R}
    {numTokens numTokensMainModel numEncoderTokens : ℕ} {pool : BlockPool H}
    {manager : SingleTypeKVCacheManager R H}
    (hkind : manager.kind = .fullAttention) (htokens : 0 < numTokens)
    (hothers : ∀ other ≠ requestId, manager.SteadyFor caching other)
    (htail : ReadableTail requestId pool manager) :
    AffordsNew caching requestId numTokens numTokensMainModel numEncoderTokens
      pool manager ((manager.partialHitReqs requestId).isSome.toNat +
        (cdiv numTokens manager.blockSize -
          (manager.blocks requestId).length)) := by
  intro start hgrows hsound hfree
  have hfree' : (((manager.partialHitReqs requestId).isSome.toNat +
      (cdiv numTokens manager.blockSize -
        (manager.blocks requestId).length) : ℕ) : ℤ) ≤
      start.getNumFreeBlocks := hfree
  push_cast at hfree'
  obtain ⟨middle, redirected, cowBlocks, hredirect, hmiddle, hgrown, hpaid,
    helsewhere, hclear, hlength⟩ := redirectPartialHit_ok hsound
      (htail.grow hgrows) (by omega)
  have hblockSize : redirected.blockSize = manager.blockSize :=
    congrArg ManagerSpec.blockSize helsewhere.spec_eq
  have hpos := cdiv_pos manager.blockSize_pos htokens
  have hdone : ∀ manager' : SingleTypeKVCacheManager R H,
      Elsewhere requestId redirected manager' →
      manager'.partialHitReqs requestId = none →
      manager'.blocks requestId ≠ [] → ∀ pool credits,
        Done caching requestId numTokensMainModel pool manager' credits :=
    fun manager' hmoved hnone hrow => done_of_plain (.inl hkind) hothers
      (helsewhere.trans hmoved) hnone hrow
  unfold allocateNewBlocks
  rw [hkind]
  simp only [allocateNewBlocksBase, bind_eq_ok, Prod.exists]
  by_cases hlong : cdiv numTokens manager.blockSize ≤
      (manager.blocks requestId).length
  · refine ⟨middle, redirected, cowBlocks, 0, ⟨middle, redirected, cowBlocks,
      hredirect, ?_⟩, hmiddle, hgrown, ?_,
      hdone redirected (Elsewhere.refl _ _) hclear ?_ _ _⟩
    · rw [if_pos (by rw [hblockSize, hlength]; omega)]
      rfl
    · change start.getNumFreeBlocks - _ ≤ middle.getNumFreeBlocks - _
      push_cast
      omega
    · intro hempty
      rw [hempty] at hlength
      simp only [List.length_nil] at hlength
      omega
  · have hmissing : ((cdiv numTokens manager.blockSize -
        (manager.blocks requestId).length : ℕ) : ℤ) ≤
        middle.getNumFreeBlocks := by omega
    obtain ⟨newBlocks, final, hextend, hcount, hfresh⟩ :=
      extend_ok redirected hmiddle hmissing
    refine ⟨final, _, cowBlocks ++ newBlocks, 0, ⟨middle, redirected,
      cowBlocks, hredirect, ?_⟩, hfresh.sound, hgrown.trans hfresh.grows, ?_,
      hdone _ (elsewhere_setBlocks redirected requestId
        (redirected.blocks requestId ++ newBlocks)) hclear ?_ _ _⟩
    · have hneeded : ((cdiv numTokens redirected.blockSize : ℕ) : ℤ) -
          (redirected.blocks requestId).length =
          ((cdiv numTokens manager.blockSize -
            (manager.blocks requestId).length : ℕ) : ℤ) := by
        rw [hblockSize, hlength]
        omega
      rw [hneeded, if_neg (by omega)]
      simp only [bind_eq_ok, Prod.exists]
      exact ⟨_, _, _, hextend, rfl⟩
    · change start.getNumFreeBlocks - _ ≤ final.getNumFreeBlocks - _
      rw [hfresh.numFree_eq, hcount]
      push_cast
      omega
    · rw [blocks_setBlocks_self]
      intro hempty
      have hzero := congrArg List.length hempty
      rw [List.length_append, hcount] at hzero
      simp only [List.length_nil] at hzero
      omega

/-- The tail pays for its one block. -/
theorem affordsNew_tail {caching : Bool} {requestId : R}
    {numTokens numTokensMainModel numEncoderTokens : ℕ} {pool : BlockPool H}
    {manager : SingleTypeKVCacheManager R H}
    (hkind : manager.kind = .kpoolTail)
    (hothers : ∀ other ≠ requestId, manager.SteadyFor caching other)
    (hclear : manager.partialHitReqs requestId = none) :
    AffordsNew caching requestId numTokens numTokensMainModel numEncoderTokens
      pool manager (1 - (manager.blocks requestId).length) := by
  intro start hgrows hsound hfree
  have hfree' : ((1 - (manager.blocks requestId).length : ℕ) : ℤ) ≤
      start.getNumFreeBlocks := hfree
  unfold allocateNewBlocks
  rw [hkind]
  simp only [extendTail]
  by_cases hlong : 1 ≤ (manager.blocks requestId).length
  · refine ⟨start, manager, [], 0, by rw [if_pos hlong], hsound,
      Grows.refl start, ?_, done_of_plain (.inr hkind) hothers
        (Elsewhere.refl _ _) hclear ?_ _ _⟩
    · change start.getNumFreeBlocks - _ ≤ start.getNumFreeBlocks - _
      push_cast
      omega
    · intro hempty
      rw [hempty] at hlong
      simp at hlong
  · have hone : ((1 : ℕ) : ℤ) ≤ start.getNumFreeBlocks := by omega
    obtain ⟨newBlocks, final, hextend, hcount, hfresh⟩ :=
      extend_ok manager hsound hone
    refine ⟨final, _, newBlocks, 0, ?_, hfresh.sound, hfresh.grows, ?_,
      done_of_plain (.inr hkind) hothers (elsewhere_setBlocks manager requestId
        (manager.blocks requestId ++ newBlocks)) hclear ?_ _ _⟩
    · rw [if_neg hlong]
      exact hextend
    · change start.getNumFreeBlocks - _ ≤ final.getNumFreeBlocks - _
      rw [hfresh.numFree_eq, hcount]
      push_cast
      omega
    · rw [blocks_setBlocks_self]
      intro hempty
      have hzero := congrArg List.length hempty
      rw [List.length_append, hcount] at hzero
      simp at hzero

/-- The row that the new blocks are appended to. -/
def alignedRow (manager : SingleTypeKVCacheManager R H) (spec : MambaSpec)
    (requestId : R) (numTokens : ℕ) : List BlockId :=
  manager.shiftedBlocks spec requestId
    (cdiv numTokens manager.blockSize + spec.numSpeculativeBlocks)

/-- How many blocks a group of states takes. -/
def stateCost (manager : SingleTypeKVCacheManager R H) (spec : MambaSpec)
    (requestId : R) (numTokens : ℕ) : ℕ :=
  if cdiv numTokens manager.blockSize + spec.numSpeculativeBlocks ≤
        (manager.blocks requestId).length ∧
      manager.partialHitReqs requestId = none then 0
  else
    cdiv numTokens manager.blockSize + spec.numSpeculativeBlocks -
        (manager.alignedRow spec requestId numTokens).length +
      (manager.partialHitReqs requestId).isSome.toNat

/-- The assertion on the number of new blocks never fails. -/
theorem alignedRow_bounds {manager : SingleTypeKVCacheManager R H}
    {spec : MambaSpec} {requestId : R} {numTokens : ℕ}
    (htokens : 0 < numTokens)
    (hcheckpoint : manager.numCheckpointBlocks requestId ≤ 1)
    (hlong : manager.allocatedBlockReqs requestId = true →
      spec.numSpeculativeBlocks ≤ (manager.blocks requestId).length) :
    ((manager.blocks requestId).length ≤
          cdiv numTokens manager.blockSize + spec.numSpeculativeBlocks →
        (manager.alignedRow spec requestId numTokens).length ≤
          cdiv numTokens manager.blockSize + spec.numSpeculativeBlocks) ∧
      cdiv numTokens manager.blockSize + spec.numSpeculativeBlocks -
          (manager.alignedRow spec requestId numTokens).length ≤
        1 + manager.numCheckpointBlocks requestId +
          if manager.allocatedBlockReqs requestId = true then 0
          else spec.numSpeculativeBlocks := by
  have hpos := cdiv_pos manager.blockSize_pos htokens
  unfold alignedRow
  cases hallocated : manager.allocatedBlockReqs requestId with
  | false =>
      rw [length_shiftedBlocks_new hallocated hcheckpoint]
      simp only [Bool.false_eq_true, if_false]
      split <;> omega
  | true =>
      rw [length_shiftedBlocks_allocated hallocated (hlong hallocated)
        hcheckpoint]
      have hspec := hlong hallocated
      simp only [if_true]
      split <;> omega

theorem recordLastState_eq (manager : SingleTypeKVCacheManager R H)
    (spec : MambaSpec) (requestId : R) :
    ∃ lastStateBlockIdx, manager.recordLastState spec requestId =
      { manager with lastStateBlockIdx := lastStateBlockIdx } := by
  unfold recordLastState
  dsimp only
  split
  · exact ⟨_, rfl⟩
  · split <;> exact ⟨_, rfl⟩

/-- A preserved tail needs its source in place and a fresh block. -/
theorem preserveTail_ok {requestId : R} {pool : BlockPool H}
    (manager : SingleTypeKVCacheManager R H) {reqBlocks : List BlockId}
    {blockIdx : ℕ} {sourceBlock cowBlock : BlockId} (hsound : Sound pool)
    (hcolumn : reqBlocks[blockIdx]? = some sourceBlock)
    (hused : 0 < pool.refCnt sourceBlock)
    (hfresh : BlockPool.Unhashed pool cowBlock) :
    ∃ pool' manager', preserveTail requestId reqBlocks blockIdx sourceBlock
        cowBlock pool manager = .ok (pool', manager', ()) ∧ Sound pool' ∧
      Grows pool pool' ∧
      pool'.getNumFreeBlocks = pool.getNumFreeBlocks ∧
      manager'.toManagerSpec = manager.toManagerSpec ∧
      manager'.reqToBlocks = manager.reqToBlocks ∧
      manager'.numCachedBlock = manager.numCachedBlock := by
  obtain ⟨moved, hmove⟩ := BlockPool.moveBlockHashes_ok sourceBlock hfresh
  have hsame := BlockPool.sameRefs_moveBlockHashes hmove
  have hused' : 0 < moved.refCnt sourceBlock := by
    rw [hsame.refCnt_eq]
    exact hused
  have hrun : ∃ manager', preserveTail requestId reqBlocks blockIdx
      sourceBlock cowBlock pool manager =
        .ok (moved.addRef sourceBlock 1, manager', ()) ∧
      manager'.toManagerSpec = manager.toManagerSpec ∧
      manager'.reqToBlocks = manager.reqToBlocks ∧
      manager'.numCachedBlock = manager.numCachedBlock := by
    simp only [preserveTail, bind_eq_ok, require_eq_ok]
    exact ⟨_, ⟨(), hcolumn, moved, hmove, rfl⟩, rfl, rfl, rfl⟩
  obtain ⟨manager', hrun, hsame'⟩ := hrun
  exact ⟨moved.addRef sourceBlock 1, manager', hrun,
    BlockPool.sound_addRef_used (hsame.sound hsound) fun _ => hused',
    hsame.grows.trans (BlockPool.grows_addRef_one moved sourceBlock),
    hsame.numFree_eq, hsame'⟩

section Align

variable {spec : MambaSpec} {requestId : R} {numTokens : ℕ}
  {pool pool' : BlockPool H} {manager : SingleTypeKVCacheManager R H}
  {newBlocks : List BlockId}

/-- What the assertion on the number of new blocks compares. -/
def WithinMaxNewBlocks (manager : SingleTypeKVCacheManager R H)
    (spec : MambaSpec) (requestId : R) (numNewBlocks : ℤ) : Prop :=
  numNewBlocks ≤ ((1 + (manager.partialHitReqs requestId).isSome.toNat +
    manager.numCheckpointBlocks requestId +
    (if manager.allocatedBlockReqs requestId = true then 0
      else spec.numSpeculativeBlocks) : ℕ) : ℤ)

theorem allocateNewBlocksAlign_plain
    (hpartialHit : manager.partialHitReqs requestId = none)
    (hshort : ¬(cdiv numTokens manager.blockSize +
      spec.numSpeculativeBlocks ≤ (manager.blocks requestId).length))
    (hmax : manager.WithinMaxNewBlocks spec requestId
      ((cdiv numTokens manager.blockSize + spec.numSpeculativeBlocks : ℕ) -
        ((manager.alignedRow spec requestId numTokens).length : ℤ)))
    (hget : pool.getNewBlocks
      ((cdiv numTokens manager.blockSize + spec.numSpeculativeBlocks : ℕ) -
        ((manager.alignedRow spec requestId numTokens).length : ℤ)) =
          .ok (newBlocks, pool')) :
    ∃ result, allocateNewBlocksAlign spec requestId numTokens pool manager =
      .ok (pool',
        { (manager.recordLastState spec requestId).setBlocks requestId
            (manager.alignedRow spec requestId numTokens ++ newBlocks) with
          allocatedBlockReqs :=
            Function.update manager.allocatedBlockReqs requestId true },
        result) := by
  obtain ⟨lastStateBlockIdx, hrecorded⟩ :=
    recordLastState_eq manager spec requestId
  simp only [WithinMaxNewBlocks, hpartialHit, Option.isSome_none,
    Bool.toNat_false] at hmax
  simp only [allocateNewBlocksAlign, hpartialHit, hrecorded, Option.isSome_none,
    Bool.toNat_false, Bool.false_eq_true, if_false, and_true, if_neg hshort,
    bind_eq_ok, Prod.exists, require_eq_ok]
  exact ⟨_, (), hmax, newBlocks, pool', hget, rfl⟩

variable {blockIdx : ℕ} {sourceBlock cowBlock : BlockId}

section PartialHit

variable {pool'' : BlockPool H}
  (hpartialHit : manager.partialHitReqs requestId =
    some (blockIdx, sourceBlock))
  (hmax : manager.WithinMaxNewBlocks spec requestId
    (max ((cdiv numTokens manager.blockSize +
      spec.numSpeculativeBlocks : ℕ) -
        ((manager.alignedRow spec requestId numTokens).length : ℤ)) 0 + 1))
  (hget : pool.getNewBlocks
    (max ((cdiv numTokens manager.blockSize +
      spec.numSpeculativeBlocks : ℕ) -
        ((manager.alignedRow spec requestId numTokens).length : ℤ)) 0 + 1) =
      .ok (cowBlock :: newBlocks, pool'))
include hpartialHit hmax hget

theorem allocateNewBlocksAlign_preserved
    {preserved : SingleTypeKVCacheManager R H}
    (hallocated : manager.allocatedBlockReqs requestId = true)
    (hpreserve : preserveTail requestId
      (manager.alignedRow spec requestId numTokens) blockIdx sourceBlock
        cowBlock pool' (manager.recordLastState spec requestId) =
          .ok (pool'', preserved, ())) :
    ∃ result, allocateNewBlocksAlign spec requestId numTokens pool manager =
      .ok (pool'',
        { preserved.setBlocks requestId
            (manager.alignedRow spec requestId numTokens ++ newBlocks) with
          allocatedBlockReqs :=
            Function.update manager.allocatedBlockReqs requestId true
          partialHitReqs :=
            Function.update manager.partialHitReqs requestId none },
        result) := by
  obtain ⟨lastStateBlockIdx, hrecorded⟩ :=
    recordLastState_eq manager spec requestId
  rw [hrecorded] at hpreserve
  simp only [WithinMaxNewBlocks, hpartialHit, hallocated, Option.isSome_some,
    Bool.toNat_true, if_true] at hmax
  simp only [allocateNewBlocksAlign, hpartialHit, hrecorded, hallocated,
    Option.isSome_some, Bool.toNat_true, if_true, reduceCtorEq, and_false,
    if_false, bind_eq_ok, Prod.exists, require_eq_ok]
  exact ⟨_, (), hmax, cowBlock :: newBlocks, pool', hget,
    bind_eq_ok.mpr ⟨_, hpreserve, rfl⟩⟩

theorem allocateNewBlocksAlign_redirected
    {copied : SingleTypeKVCacheManager R H} {reqBlocks : List BlockId}
    (hallocated : manager.allocatedBlockReqs requestId = false)
    (hcow : applyCow pool' (manager.recordLastState spec requestId)
      (manager.alignedRow spec requestId numTokens) blockIdx sourceBlock
        cowBlock = .ok (pool'', copied, reqBlocks)) :
    ∃ result, allocateNewBlocksAlign spec requestId numTokens pool manager =
      .ok (pool'',
        { copied.setBlocks requestId (reqBlocks ++ newBlocks) with
          allocatedBlockReqs :=
            Function.update manager.allocatedBlockReqs requestId true
          partialHitReqs :=
            Function.update manager.partialHitReqs requestId none },
        result) := by
  obtain ⟨lastStateBlockIdx, hrecorded⟩ :=
    recordLastState_eq manager spec requestId
  rw [hrecorded] at hcow
  simp only [WithinMaxNewBlocks, hpartialHit, hallocated, Option.isSome_some,
    Bool.toNat_true, Bool.false_eq_true, if_false] at hmax
  simp only [allocateNewBlocksAlign, hpartialHit, hrecorded, hallocated,
    Option.isSome_some, Bool.toNat_true, if_true, reduceCtorEq, and_false,
    Bool.false_eq_true, if_false, bind_eq_ok, Prod.exists, require_eq_ok]
  exact ⟨_, (), hmax, cowBlock :: newBlocks, pool', hget,
    bind_eq_ok.mpr ⟨_, hcow, rfl⟩⟩

end PartialHit

end Align

section States

variable {caching : Bool} {requestId : R}
  {numTokens numTokensMainModel numEncoderTokens : ℕ}
  {manager : SingleTypeKVCacheManager R H} {spec : MambaSpec}

/-- `done_of` for a group of states. -/
theorem done_of_states {manager' : SingleTypeKVCacheManager R H}
    (hkind : manager.kind = .mamba spec) (halign : spec.align = true)
    (htokens : 0 < numTokensMainModel)
    (hothers : ∀ other ≠ requestId, manager.SteadyFor caching other)
    (hmoved : Elsewhere requestId manager manager')
    (hnone : manager'.partialHitReqs requestId = none)
    (hlength : cdiv numTokensMainModel manager.blockSize +
      spec.numSpeculativeBlocks ≤ (manager'.blocks requestId).length)
    (pool : BlockPool H) (credits : ℕ) :
    Done caching requestId numTokensMainModel pool manager' credits := by
  have hpos := cdiv_pos manager.blockSize_pos htokens
  have hkind' : manager'.kind = .mamba spec :=
    (congrArg ManagerSpec.kind hmoved.spec_eq).trans hkind
  have hblockSize : manager'.blockSize = manager.blockSize :=
    congrArg ManagerSpec.blockSize hmoved.spec_eq
  apply done_of _ hothers hmoved
  · unfold StateColumns
    rw [hkind']
    refine ⟨fun _ => by omega, fun blockIdx sourceBlock hsome => ?_⟩
    rw [hnone] at hsome
    cases hsome
  · refine ⟨fun hempty => ?_, fun spec' hspec => ?_⟩
    · rw [hempty] at hlength
      simp only [List.length_nil] at hlength
      omega
    · rw [hkind'] at hspec
      cases hspec
      rw [hblockSize]
      exact hlength
  · rw [hkind]
    exact halign

/-- The successor of a group of states with a new row. -/
theorem done_of_row {manager' : SingleTypeKVCacheManager R H}
    {reqBlocks : List BlockId}
    (hkind : manager.kind = .mamba spec) (halign : spec.align = true)
    (htokens : 0 < numTokensMainModel)
    (hothers : ∀ other ≠ requestId, manager.SteadyFor caching other)
    (hspec : manager'.toManagerSpec = manager.toManagerSpec)
    (htables : manager'.reqToBlocks =
      manager.reqToBlocks.setRow requestId reqBlocks)
    (hcached : manager'.numCachedBlock = manager.numCachedBlock)
    (hallocated : ∀ other ≠ requestId,
      manager'.allocatedBlockReqs other = manager.allocatedBlockReqs other)
    (hpartialHit : ∀ other ≠ requestId,
      manager'.partialHitReqs other = manager.partialHitReqs other)
    (hnone : manager'.partialHitReqs requestId = none)
    (hlength : cdiv numTokensMainModel manager.blockSize +
      spec.numSpeculativeBlocks ≤ reqBlocks.length)
    (pool : BlockPool H) (credits : ℕ) :
    Done caching requestId numTokensMainModel pool manager' credits := by
  refine done_of_states hkind halign htokens hothers
    ⟨hspec, fun other hother => ⟨?_, congrFun hcached other,
      hpartialHit other hother, hallocated other hother⟩⟩ hnone ?_ pool credits
  · rw [blocks, htables, Tables.row_setRow_ne _ hother]
    rfl
  · rw [blocks, htables, Tables.row_setRow_self]
    exact hlength

section Cost

variable (htokens : 0 < numTokensMainModel)
  (hcheckpoint : manager.numCheckpointBlocks requestId ≤ 1)
  (hlong : manager.allocatedBlockReqs requestId = true →
    spec.numSpeculativeBlocks ≤ (manager.blocks requestId).length)
include htokens hcheckpoint hlong

theorem stateCost_plain
    (hpartialHit : manager.partialHitReqs requestId = none)
    (hshort : ¬(cdiv numTokensMainModel manager.blockSize +
      spec.numSpeculativeBlocks ≤ (manager.blocks requestId).length)) :
    ((manager.stateCost spec requestId numTokensMainModel : ℕ) : ℤ) =
        ((cdiv numTokensMainModel manager.blockSize +
          spec.numSpeculativeBlocks : ℕ) : ℤ) -
            (manager.alignedRow spec requestId numTokensMainModel).length ∧
      manager.WithinMaxNewBlocks spec requestId
        (((cdiv numTokensMainModel manager.blockSize +
          spec.numSpeculativeBlocks : ℕ) : ℤ) -
            (manager.alignedRow spec requestId numTokensMainModel).length) := by
  obtain ⟨hle, hbound⟩ := alignedRow_bounds htokens hcheckpoint hlong
  have hfits := hle (by omega)
  unfold stateCost WithinMaxNewBlocks
  rw [if_neg fun hboth => hshort hboth.1, hpartialHit]
  simp only [Option.isSome_none, Bool.toNat_false]
  constructor <;> omega

theorem stateCost_partial {hit : ℕ × BlockId}
    (hpartialHit : manager.partialHitReqs requestId = some hit) :
    ((manager.stateCost spec requestId numTokensMainModel : ℕ) : ℤ) =
        max (((cdiv numTokensMainModel manager.blockSize +
          spec.numSpeculativeBlocks : ℕ) : ℤ) -
            (manager.alignedRow spec requestId
              numTokensMainModel).length) 0 + 1 ∧
      manager.WithinMaxNewBlocks spec requestId
        (max (((cdiv numTokensMainModel manager.blockSize +
          spec.numSpeculativeBlocks : ℕ) : ℤ) -
            (manager.alignedRow spec requestId
              numTokensMainModel).length) 0 + 1) := by
  obtain ⟨-, hbound⟩ := alignedRow_bounds htokens hcheckpoint hlong
  unfold stateCost WithinMaxNewBlocks
  rw [if_neg (by rw [hpartialHit]; simp), hpartialHit]
  simp only [Option.isSome_some, Bool.toNat_true]
  constructor <;> omega

end Cost

/-- A group of states pays for what it takes. -/
theorem affordsNew_states {pool : BlockPool H}
    (hkind : manager.kind = .mamba spec) (halign : spec.align = true)
    (htokens : 0 < numTokensMainModel)
    (hcaching : caching = true → pool.enableCaching = true)
    (hothers : ∀ other ≠ requestId, manager.SteadyFor caching other)
    (hcheckpoint : manager.numCheckpointBlocks requestId ≤ 1)
    (hlong : manager.allocatedBlockReqs requestId = true →
      spec.numSpeculativeBlocks ≤ (manager.blocks requestId).length)
    (htail : ReadableTail requestId pool manager)
    (hbelow : manager.allocatedBlockReqs requestId = true →
      ∀ blockIdx sourceBlock,
        manager.partialHitReqs requestId = some (blockIdx, sourceBlock) →
          caching = true ∧ blockIdx + spec.numSpeculativeBlocks <
            (manager.blocks requestId).length) :
    AffordsNew caching requestId numTokens numTokensMainModel numEncoderTokens
      pool manager (manager.stateCost spec requestId numTokensMainModel) := by
  intro start hgrows hsound hfree
  have hfree' : ((manager.stateCost spec requestId numTokensMainModel : ℕ) :
      ℤ) ≤ start.getNumFreeBlocks := hfree
  have hgrown : (manager.blocks requestId).length ≤
      (manager.alignedRow spec requestId numTokensMainModel).length :=
    length_shiftedBlocks_le manager spec requestId _
  obtain ⟨lastStateBlockIdx, hrecorded⟩ :=
    recordLastState_eq manager spec requestId
  have hrun : allocateNewBlocks requestId numTokens numTokensMainModel
      numEncoderTokens start manager =
        allocateNewBlocksAlign spec requestId numTokensMainModel start
          manager := by
    unfold allocateNewBlocks
    rw [hkind]
    exact if_pos halign
  rw [hrun]
  cases hpartialHit : manager.partialHitReqs requestId with
  | none =>
      by_cases henough : cdiv numTokensMainModel manager.blockSize +
          spec.numSpeculativeBlocks ≤ (manager.blocks requestId).length
      · have hkept : allocateNewBlocksAlign spec requestId numTokensMainModel
            start manager = .ok (start,
              { manager with
                allocatedBlockReqs :=
                  Function.update manager.allocatedBlockReqs requestId true },
              []) := if_pos ⟨henough, hpartialHit⟩
        refine ⟨start, _, [], _, hkept, hsound, Grows.refl start, le_rfl, ?_⟩
        refine done_of_states hkind halign htokens hothers ?_ ?_ ?_ _ _
        · refine ⟨rfl, fun other hother => ⟨rfl, rfl, rfl, ?_⟩⟩
          exact Function.update_of_ne hother _ _
        · exact hpartialHit
        · exact henough
      · obtain ⟨hcost, hmax⟩ :=
          stateCost_plain htokens hcheckpoint hlong hpartialHit henough
        obtain ⟨newBlocks, final, hget, hcount, hfresh⟩ :=
          BlockPool.getNewBlocks_ok hsound hfree'
        rw [hcost] at hget
        obtain ⟨result, hplain⟩ :=
          allocateNewBlocksAlign_plain hpartialHit henough hmax hget
        rw [hrecorded] at hplain
        refine ⟨final, _, result, 0, hplain, hfresh.sound, hfresh.grows, ?_,
          ?_⟩
        · change start.getNumFreeBlocks - _ ≤ final.getNumFreeBlocks - _
          rw [hfresh.numFree_eq, hcount]
          omega
        · refine done_of_row hkind halign htokens hothers ?_ rfl ?_ ?_ ?_ ?_ ?_
            _ _
          · rfl
          · rfl
          · exact fun other hother => Function.update_of_ne hother _ _
          · exact fun other _ => rfl
          · exact hpartialHit
          · rw [List.length_append, hcount]
            omega
  | some hit =>
      obtain ⟨blockIdx, sourceBlock⟩ := hit
      obtain ⟨hcost, hmax⟩ :=
        stateCost_partial htokens hcheckpoint hlong hpartialHit
      obtain ⟨taken, fetched, hget, hcount, hfresh⟩ :=
        BlockPool.getNewBlocks_ok hsound hfree'
      obtain ⟨cowBlock, newBlocks, rfl⟩ : ∃ cowBlock newBlocks,
          taken = cowBlock :: newBlocks := by
        cases taken with
        | nil =>
            simp only [List.length_nil] at hcount
            omega
        | cons cowBlock newBlocks => exact ⟨cowBlock, newBlocks, rfl⟩
      rw [List.length_cons] at hcount
      rw [hcost] at hget
      have hused := (htail.grow (hgrows.trans hfresh.grows)) blockIdx
        sourceBlock hpartialHit
      have hcolumn : (manager.alignedRow spec requestId
          numTokensMainModel)[blockIdx]? = some sourceBlock := by
        have hlt : blockIdx < (manager.blocks requestId).length :=
          (List.getElem?_eq_some_iff.mp hused.1).1
        exact (getElem?_shiftedBlocks _ hlt fun hallocated =>
          (hbelow hallocated blockIdx sourceBlock hpartialHit).2).trans hused.1
      cases hallocated : manager.allocatedBlockReqs requestId with
      | true =>
          have hunhashed := hfresh.unhashed (by
            have hconfig := congrArg (fun config => config.2.1)
              (show start.config = pool.config from hgrows.config_eq)
            exact hconfig.trans (hcaching
              (hbelow hallocated blockIdx sourceBlock hpartialHit).1))
              cowBlock List.mem_cons_self
          obtain ⟨final, preserved, hpreserve, hfinal, hgrownFinal, hkept,
            hspec, htables, hcached⟩ := preserveTail_ok
              (manager.recordLastState spec requestId) hfresh.sound hcolumn
              hused.2.2 hunhashed
          obtain ⟨result, hpreserved⟩ := allocateNewBlocksAlign_preserved
            hpartialHit hmax hget hallocated hpreserve
          rw [hrecorded] at hspec htables hcached
          refine ⟨final, _, result, 0, hpreserved, hfinal,
            hfresh.grows.trans hgrownFinal, ?_, ?_⟩
          · change start.getNumFreeBlocks - _ ≤ final.getNumFreeBlocks - _
            rw [hkept, hfresh.numFree_eq, List.length_cons]
            omega
          · refine done_of_row hkind halign htokens hothers ?_
              (congrArg (Tables.setRow · requestId _) htables) ?_ ?_ ?_ ?_ ?_
              _ _
            · exact hspec
            · exact hcached
            · exact fun other hother => Function.update_of_ne hother _ _
            · exact fun other hother => Function.update_of_ne hother _ _
            · exact Function.update_self _ _ _
            · rw [List.length_append]
              omega
      | false =>
          obtain ⟨hcow, hfinal⟩ := applyCow_ok
            (manager.recordLastState spec requestId) hfresh.sound hcolumn
            hused.2.1 hused.2.2 (hfresh.used cowBlock List.mem_cons_self)
          obtain ⟨result, hredirected⟩ := allocateNewBlocksAlign_redirected
            hpartialHit hmax hget hallocated hcow
          rw [hrecorded] at hredirected
          refine ⟨_, _, result, 0, hredirected, hfinal,
            hfresh.grows.trans (BlockPool.grows_addRef_one fetched cowBlock),
            ?_, ?_⟩
          · change start.getNumFreeBlocks - _ ≤ fetched.getNumFreeBlocks - _
            rw [hfresh.numFree_eq, List.length_cons]
            omega
          · refine done_of_row hkind halign htokens hothers ?_ rfl ?_ ?_ ?_ ?_
              ?_ _ _
            · rfl
            · rfl
            · exact fun other hother => Function.update_of_ne hother _ _
            · exact fun other hother => Function.update_of_ne hother _ _
            · exact Function.update_self _ _ _
            · rw [List.length_append, List.length_set]
              omega

end States

end GlmFlash.Cache.SingleTypeKVCacheManager
