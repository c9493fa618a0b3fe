import GlmFlash.Cache.PoolRefinement
import GlmFlash.Cache.HashRecords
import GlmFlash.Library.Runs

/-!
# Runs of the block pool

Whatever sequence of its operations a pool goes through, the linked queue
holds exactly the blocks that nobody refers to, and the hash map and the
blocks' records stay inverse to each other.
-/

namespace GlmFlash.Cache

open GlmFlash.Library

variable {H : Type} [DecidableEq H]

inductive PoolOperation (H : Type) where
  | getNewBlocks (numBlocks : ℤ)
  | touch (blocks : List BlockId)
  | freeBlocks (orderedBlocks : List BlockId)
  | cacheFullBlocks (blockHashes : List H) (blocks : List BlockId)
      (numCachedBlocks numFullBlocks blockSize kvCacheGroupId : ℕ)
      (blockMask : Option (List Bool))
  | cachePartialBlock (blockHashes : List H) (block : BlockId)
      (numTokens kvCacheGroupId blockSize : ℕ)
  | moveBlockHashes (srcBlock dstBlock : BlockId)
  | evictBlocks (blockIds : List BlockId)
  | resetPrefixCache

namespace LinkedPool

def perform (pool : LinkedPool H) :
    PoolOperation H → Except Failure (LinkedPool H)
  | .getNewBlocks numBlocks => do
      let taken ← pool.getNewBlocks numBlocks
      return taken.2
  | .touch blocks => pool.touch blocks
  | .freeBlocks orderedBlocks => pool.freeBlocks orderedBlocks
  | .cacheFullBlocks blockHashes blocks numCachedBlocks numFullBlocks
      blockSize kvCacheGroupId blockMask =>
      pool.cacheFullBlocks blockHashes blocks numCachedBlocks numFullBlocks
        blockSize kvCacheGroupId blockMask
  | .cachePartialBlock blockHashes block numTokens kvCacheGroupId
      blockSize => do
      let cached ← pool.cachePartialBlock blockHashes block numTokens
        kvCacheGroupId blockSize
      return cached.1
  | .moveBlockHashes srcBlock dstBlock =>
      pool.moveBlockHashes srcBlock dstBlock
  | .evictBlocks blockIds => pool.evictBlocks blockIds
  | .resetPrefixCache => .ok pool.resetPrefixCache.1

/-- What the callers see to: no negative count is asked for, no reference is
returned twice, and blocks are cached only when prefix caching is on. -/
def Allowed (pool : LinkedPool H) : PoolOperation H → Prop
  | .getNewBlocks numBlocks => 0 ≤ numBlocks
  | .freeBlocks orderedBlocks => ∀ block ∈ orderedBlocks,
      block ≠ nullBlock →
        (orderedBlocks.count block : ℤ) ≤ pool.refCnt block
  | .cacheFullBlocks .. => pool.enableCaching = true
  | .cachePartialBlock .. => pool.enableCaching = true
  | _ => True

/-- The pool's queue holds `order`, and its view is sound and inverse. -/
structure Consistent (pool : LinkedPool H) (order : List BlockId) :
    Prop where
  queue : pool.freeBlockQueue.Represents order
  sound : (pool.view order).Sound
  inverse : (pool.view order).Inverse
  gated : (pool.view order).Gated

theorem consistent_init {numGpuBlocks hashBlockSize : ℕ}
    {enableCaching : Bool} {pool : LinkedPool H}
    (hinit : init numGpuBlocks enableCaching hashBlockSize = .ok pool) :
    ∃ order, Consistent pool order := by
  simp only [init, bind_eq_ok, require_eq_ok, pure_eq_ok, Prod.exists]
    at hinit
  obtain ⟨-, hpos, popped, queue, hpop, rfl⟩ := hinit
  obtain ⟨predecessor, rfl⟩ := Nat.exists_eq_succ_of_ne_zero hpos.ne'
  have hqueue := LinkedFreeQueue.represents_ofBlocks (predecessor + 1)
  rw [List.range_succ_eq_map] at hqueue
  obtain ⟨queue', hpop', hqueue', hcount⟩ := hqueue.popleft
  cases hpop.symm.trans hpop'
  have hview : ({
      numGpuBlocks := predecessor + 1
      enableCaching := enableCaching
      hashBlockSize := hashBlockSize
      blocks := fun _ =>
        { refCnt := 0, blockHash := none, blockHashNumTokens := none }
      freeBlockQueue := queue
      cachedBlockHashToBlock := ⟨fun _ => none⟩
      cachedBlockHashesByBlock := fun _ => [] } : LinkedPool H).view
        ((List.range predecessor).map Nat.succ) =
      BlockPool.init (predecessor + 1) enableCaching hashBlockSize := by
    simp only [view, BlockPool.init, hcount, List.range_succ_eq_map]
    rfl
  refine ⟨(List.range predecessor).map Nat.succ, hqueue', ?_, ?_, ?_⟩
  · rw [hview]
    exact ⟨BlockPool.counted_init _ hpos _ _, _,
      BlockPool.accounts_init _ hpos _ _⟩
  · rw [hview]
    constructor
    · intro key block
      simp [BlockPool.init, BlockPool.Records, BlockPool.blockHash]
    · exact fun _ => List.nodup_nil
    · exact fun _ _ => rfl
  · rw [hview]
    exact fun _ _ => rfl

/-! ## One operation -/

variable {pool pool' : LinkedPool H} {order order' : List BlockId}

/-- An operation on hashes alone keeps the queue and the references. -/
theorem Consistent.rehashed (hconsistent : Consistent pool order)
    (hqueue : pool'.freeBlockQueue = pool.freeBlockQueue)
    (hrefs : BlockPool.SameRefs (pool.view order) (pool'.view order))
    (hinverse : (pool'.view order).Inverse)
    (hgated : (pool'.view order).Gated) : Consistent pool' order where
  queue := by
    rw [hqueue]
    exact hconsistent.queue
  sound := hrefs.sound hconsistent.sound
  inverse := hinverse
  gated := hgated

theorem Consistent.getNewBlocks (hconsistent : Consistent pool order)
    {numBlocks : ℤ} {ret : List BlockId} (hnonneg : 0 ≤ numBlocks)
    (hrun : pool.getNewBlocks numBlocks = .ok (ret, pool')) :
    ∃ order', Consistent pool' order' ∧
      ∀ block ∈ ret, (pool'.view order').Unreachable block := by
  obtain ⟨order', hview, hqueue⟩ :=
    getNewBlocks_view hconsistent.queue hrun
  obtain ⟨count, rfl⟩ := Int.eq_ofNat_of_zero_le hnonneg
  obtain ⟨hinverse, hgated, hunreachable⟩ :=
    hconsistent.inverse.getNewBlocks hconsistent.gated hview
  have henough : (count : ℤ) ≤ (pool.view order).getNumFreeBlocks := by
    simp only [BlockPool.getNewBlocks, bind_eq_ok, require_eq_ok] at hview
    obtain ⟨-, hfits, -⟩ := hview
    exact hfits
  obtain ⟨ret', pool'', hview', -, hfresh⟩ :=
    BlockPool.getNewBlocks_ok hconsistent.sound henough
  have hsame := Except.ok.inj (hview.symm.trans hview')
  rw [Prod.mk.injEq] at hsame
  refine ⟨order', ⟨hqueue, ?_, hinverse, hgated⟩, hunreachable⟩
  rw [hsame.2]
  exact hfresh.sound

theorem sound_touch {blocks : List BlockId}
    {before after : BlockPool H} (hsound : before.Sound)
    (hrun : before.touch blocks = .ok after) : after.Sound := by
  obtain ⟨hcounted, refs, haccounts⟩ := hsound
  exact ⟨BlockPool.counted_touch hrun hcounted, _,
    BlockPool.touch_accounts hrun haccounts⟩

theorem Consistent.touch (hconsistent : Consistent pool order)
    {blocks : List BlockId} (hrun : pool.touch blocks = .ok pool') :
    ∃ order', Consistent pool' order' := by
  obtain ⟨order', hview, hqueue⟩ := touch_view hconsistent.queue hrun
  have hsame := BlockPool.sameHashes_touch hview
  exact ⟨order', hqueue, sound_touch hconsistent.sound hview,
    hsame.inverse hconsistent.inverse, hsame.gated hconsistent.gated⟩

/-- References enough for the return leave the rest of them. -/
theorem accounts_before_free {blocks : List BlockId} {before : BlockPool H}
    (hsound : before.Sound)
    (henough : ∀ block ∈ blocks, block ≠ nullBlock →
      (blocks.count block : ℤ) ≤ before.refCnt block) :
    ∃ refs : BlockId → ℕ, BlockPool.Accounts before
      fun block => refs block + blocks.count block := by
  obtain ⟨-, refs, haccounts⟩ := hsound
  refine ⟨fun block => refs block - blocks.count block,
    haccounts.congr ?_⟩
  intro block hnull
  by_cases hmem : block ∈ blocks
  · have hcount := henough block hmem hnull
    rw [haccounts.refCnt_eq block hnull] at hcount
    exact (Nat.sub_add_cancel (Int.ofNat_le.mp hcount)).symm
  · simp [List.count_eq_zero_of_not_mem hmem]

theorem Consistent.freeBlocks (hconsistent : Consistent pool order)
    {blocks : List BlockId}
    (henough : ∀ block ∈ blocks, block ≠ nullBlock →
      (blocks.count block : ℤ) ≤ pool.refCnt block)
    (hrun : pool.freeBlocks blocks = .ok pool') :
    ∃ order', Consistent pool' order' := by
  obtain ⟨refs, haccounts⟩ :=
    accounts_before_free hconsistent.sound henough
  obtain ⟨order', hview, hqueue⟩ :=
    freeBlocks_view hconsistent.queue haccounts hrun
  have hsame := BlockPool.sameHashes_freeBlocks (pool.view order) blocks
  have hcounted :=
    BlockPool.counted_freeBlocks hconsistent.sound.1 blocks
  have hafter := BlockPool.freeBlocks_accounts haccounts
  rw [hview] at hsame hcounted hafter
  exact ⟨order', hqueue, ⟨hcounted, refs, hafter⟩,
    hsame.inverse hconsistent.inverse, hsame.gated hconsistent.gated⟩

theorem Consistent.cacheFullBlocks (hconsistent : Consistent pool order)
    (henabled : pool.enableCaching = true) {blockHashes : List H}
    {blocks : List BlockId}
    {numCachedBlocks numFullBlocks blockSize kvCacheGroupId : ℕ}
    {blockMask : Option (List Bool)}
    (hrun : pool.cacheFullBlocks blockHashes blocks numCachedBlocks
      numFullBlocks blockSize kvCacheGroupId blockMask = .ok pool') :
    Consistent pool' order := by
  obtain ⟨hview, hqueue⟩ := cacheFullBlocks_view order hrun
  have hrefs := BlockPool.sameRefs_cacheFullBlocks hview
  exact hconsistent.rehashed hqueue hrefs
    (hconsistent.inverse.cacheFullBlocks hview)
    (BlockPool.gated_of_enabled henabled hrefs.config_eq)

theorem Consistent.cachePartialBlock (hconsistent : Consistent pool order)
    (henabled : pool.enableCaching = true) {blockHashes : List H}
    {block : BlockId} {numTokens kvCacheGroupId blockSize : ℕ}
    {partialHash : Option (BlockHashWithGroupId H)}
    (hrun : pool.cachePartialBlock blockHashes block numTokens
      kvCacheGroupId blockSize = .ok (pool', partialHash)) :
    Consistent pool' order := by
  obtain ⟨hview, hqueue⟩ := cachePartialBlock_view order hrun
  have hrefs := BlockPool.sameRefs_cachePartialBlock hview
  exact hconsistent.rehashed hqueue hrefs
    (hconsistent.inverse.cachePartialBlock hview)
    (BlockPool.gated_of_enabled henabled hrefs.config_eq)

theorem Consistent.moveBlockHashes (hconsistent : Consistent pool order)
    {srcBlock dstBlock : BlockId}
    (hrun : pool.moveBlockHashes srcBlock dstBlock = .ok pool') :
    Consistent pool' order := by
  obtain ⟨hview, hqueue⟩ := moveBlockHashes_view order hrun
  exact hconsistent.rehashed hqueue
    (BlockPool.sameRefs_moveBlockHashes hview)
    (hconsistent.inverse.moveBlockHashes hview)
    (BlockPool.gated_moveBlockHashes hconsistent.inverse
      hconsistent.gated hview)

theorem Consistent.evictBlocks (hconsistent : Consistent pool order)
    {blockIds : List BlockId}
    (hrun : pool.evictBlocks blockIds = .ok pool') :
    Consistent pool' order := by
  obtain ⟨hview, hqueue⟩ := evictBlocks_view order hrun
  exact hconsistent.rehashed hqueue (BlockPool.sameRefs_evictBlocks hview)
    (hconsistent.inverse.evictBlocks hview)
    (BlockPool.gated_evictBlocks hconsistent.inverse hconsistent.gated
      hview)

theorem Consistent.resetPrefixCache (hconsistent : Consistent pool order) :
    Consistent pool.resetPrefixCache.1 order := by
  obtain ⟨hview, hqueue⟩ := resetPrefixCache_view pool order
  have hafter : pool.resetPrefixCache.1.view order =
      (pool.view order).resetPrefixCache.1 :=
    (congrArg Prod.fst hview).symm
  apply hconsistent.rehashed hqueue
  · rw [hafter]
    exact BlockPool.sameRefs_resetPrefixCache _
  · rw [hafter]
    exact hconsistent.inverse.resetPrefixCache
  · rw [hafter]
    exact BlockPool.gated_resetPrefixCache hconsistent.gated

/-- Every operation keeps the pool consistent. -/
theorem Consistent.perform (hconsistent : Consistent pool order)
    {operation : PoolOperation H} (hallowed : Allowed pool operation)
    (hrun : pool.perform operation = .ok pool') :
    ∃ order', Consistent pool' order' := by
  cases operation with
  | getNewBlocks numBlocks =>
      simp only [LinkedPool.perform, bind_eq_ok, pure_eq_ok, Prod.exists]
        at hrun
      obtain ⟨ret, final, hrun, rfl⟩ := hrun
      obtain ⟨order', hafter, -⟩ := hconsistent.getNewBlocks hallowed hrun
      exact ⟨order', hafter⟩
  | touch blocks => exact hconsistent.touch hrun
  | freeBlocks orderedBlocks => exact hconsistent.freeBlocks hallowed hrun
  | cacheFullBlocks blockHashes blocks numCachedBlocks numFullBlocks
      blockSize kvCacheGroupId blockMask =>
      exact ⟨order, hconsistent.cacheFullBlocks hallowed hrun⟩
  | cachePartialBlock blockHashes block numTokens kvCacheGroupId
      blockSize =>
      simp only [LinkedPool.perform, bind_eq_ok, pure_eq_ok, Prod.exists]
        at hrun
      obtain ⟨final, partialHash, hrun, rfl⟩ := hrun
      exact ⟨order, hconsistent.cachePartialBlock hallowed hrun⟩
  | moveBlockHashes srcBlock dstBlock =>
      exact ⟨order, hconsistent.moveBlockHashes hrun⟩
  | evictBlocks blockIds => exact ⟨order, hconsistent.evictBlocks hrun⟩
  | resetPrefixCache =>
      cases hrun
      exact ⟨order, hconsistent.resetPrefixCache⟩

/-! ## Every reachable state -/

/-- The queue holds the free blocks, each once, and is counted and traversed
as one list. -/
structure QueueSpec (pool : LinkedPool H) (order : List BlockId) : Prop where
  nodup : order.Nodup
  mem_iff : ∀ block, block ∈ order ↔
    block ≠ nullBlock ∧ block < pool.numGpuBlocks ∧ pool.refCnt block = 0
  num_eq : pool.getNumFreeBlocks = order.length
  forwards : ∀ fuel > order.length,
    pool.freeBlockQueue.getAllFreeBlocks fuel = some (order.map .block)
  backwards : ∀ fuel > order.length,
    pool.freeBlockQueue.getAllFreeBlocksBackwards fuel =
      some (order.reverse.map .block)

/-- The hash map and the records of the blocks are inverse to each other. -/
structure HashSpec (pool : LinkedPool H) : Prop where
  contain_iff : ∀ key block,
    pool.cachedBlockHashToBlock.contain key block = true ↔
      pool.blockHash block = some key ∨
        key ∈ pool.cachedBlockHashesByBlock block
  getOne_contained : ∀ key block,
    pool.cachedBlockHashToBlock.getOneBlock key = some block →
      pool.cachedBlockHashToBlock.contain key block = true
  primary : ∀ block, pool.cachedBlockHashesByBlock block ≠ [] →
    pool.blockHash block ≠ none

omit [DecidableEq H] in
theorem Consistent.queueSpec (hconsistent : Consistent pool order) :
    QueueSpec pool order := by
  obtain ⟨hcounted, refs, haccounts⟩ := hconsistent.sound
  refine ⟨hconsistent.queue.nodup, ?_, hcounted, ?_, ?_⟩
  · intro block
    rw [show block ∈ order ↔ _ from haccounts.mem_free block]
    refine and_congr_right fun hnull => and_congr_right fun _ => ?_
    rw [show pool.refCnt block = refs block from
      haccounts.refCnt_eq block hnull, Int.natCast_eq_zero]
  · intro fuel hfuel
    exact (hconsistent.queue.traversals hfuel).1
  · intro fuel hfuel
    exact (hconsistent.queue.traversals hfuel).2

omit [DecidableEq H] in
theorem Consistent.hashSpec (hconsistent : Consistent pool order) :
    HashSpec pool where
  contain_iff key block := by
    rw [BlockHashToBlockMap.contain_iff]
    exact hconsistent.inverse.mem_iff key block
  getOne_contained key block hone := by
    rw [BlockHashToBlockMap.getOneBlock_eq] at hone
    rw [BlockHashToBlockMap.contain_iff]
    exact List.mem_of_head? hone
  primary block hextra hnone :=
    hextra (hconsistent.inverse.primary block hnone)

/-- The pool is consistent after every run. -/
theorem consistent_run {start : LinkedPool H}
    {operations : List (PoolOperation H)} (hstart : Consistent start order)
    (hrun : runSteps perform start operations = .ok pool)
    (hallowed : Along perform Allowed start operations) :
    ∃ order', Consistent pool order' := by
  have hstep : ∀ (before : LinkedPool H) (operation : PoolOperation H)
      (after : LinkedPool H), Allowed before operation →
      before.perform operation = .ok after →
      (∃ order, Consistent before order) →
      ∃ order, Consistent after order := by
    intro before operation after hcondition hafter hbefore
    obtain ⟨order, hbefore⟩ := hbefore
    exact hbefore.perform hcondition hafter
  exact runSteps_invariant_along hstep hrun hallowed ⟨order, hstart⟩

/-- In every state that a run of the pool reaches, the free queue holds the
unreferenced blocks, the hashes are inverse, and a block that is handed out is
under no key. -/
theorem representation_invariant {numGpuBlocks hashBlockSize : ℕ}
    {enableCaching : Bool} {start : LinkedPool H}
    {operations : List (PoolOperation H)}
    (hinit : init numGpuBlocks enableCaching hashBlockSize = .ok start)
    (hrun : runSteps perform start operations = .ok pool)
    (hallowed : Along perform Allowed start operations) :
    (∃ order, QueueSpec pool order) ∧ HashSpec pool ∧
      ∀ numBlocks ret pool', 0 ≤ numBlocks →
        pool.getNewBlocks numBlocks = .ok (ret, pool') →
          ∀ block ∈ ret, ∀ key,
            pool'.cachedBlockHashToBlock.contain key block = false := by
  obtain ⟨_, hstart⟩ := consistent_init hinit
  obtain ⟨order, hconsistent⟩ := consistent_run hstart hrun hallowed
  refine ⟨⟨order, hconsistent.queueSpec⟩, hconsistent.hashSpec, ?_⟩
  intro numBlocks ret pool' hnonneg hnew block hmem key
  obtain ⟨order', -, hunreachable⟩ := hconsistent.getNewBlocks hnonneg hnew
  rw [← Bool.not_eq_true, BlockHashToBlockMap.contain_iff]
  exact hunreachable block hmem key

/-- Two blocks are filled, cached and returned, and one is taken again. -/
def recycledRun : List (PoolOperation ℕ) :=
  [.getNewBlocks 2, .cacheFullBlocks [7, 8] [1, 2] 0 2 2 0 none,
    .freeBlocks [2, 1], .getNewBlocks 1]

theorem representation_invariant_recycled :
    ∃ start pool : LinkedPool ℕ, init 3 true 2 = .ok start ∧
      runSteps perform start recycledRun = .ok pool ∧
      pool.getNumFreeBlocks = 1 ∧
      pool.cachedBlockHashToBlock.getOneBlock ⟨7, 0⟩ = some 1 ∧
      (∃ order, QueueSpec pool order) ∧ HashSpec pool := by
  have hallowed : ∀ start : LinkedPool ℕ, init 3 true 2 = .ok start →
      Along perform Allowed start recycledRun := by
    intro start hstart
    cases hstart
    refine ⟨Int.natCast_nonneg 2, fun _ hfirst => ?_⟩
    cases hfirst
    refine ⟨rfl, fun _ hsecond => ?_⟩
    cases hsecond
    refine ⟨?_, fun _ hthird => ?_⟩
    · change ∀ block ∈ [2, 1], _
      decide
    · cases hthird
      exact ⟨Int.natCast_nonneg 1, fun _ _ => trivial⟩
  have hreached :=
    @representation_invariant ℕ _ _ 3 2 true _ _ rfl rfl (hallowed _ rfl)
  exact ⟨_, _, rfl, rfl, rfl, rfl, hreached.1, hreached.2.1⟩

end LinkedPool

end GlmFlash.Cache
