import GlmFlash.Cache.PoolLedger
import GlmFlash.Library.Credits

/-!
# What the pool can hand out

A pool is sound when it accounts for some references and its counter is the
length of the free queue.  A sound pool hands out every number of blocks up to
the counter, touches every list of its own blocks, and pays for a touch with at
most the evictable blocks of the list.
-/

set_option linter.unusedSectionVars false

namespace GlmFlash.Cache.BlockPool

open GlmFlash.Library

variable {H : Type} [DecidableEq H]

def Sound (pool : BlockPool H) : Prop :=
  Counted pool ∧ ∃ refs, Accounts pool refs

/-- References are only added. -/
structure Grows (pool pool' : BlockPool H) : Prop where
  refCnt_le : ∀ block, pool.refCnt block ≤ pool'.refCnt block
  config_eq : pool'.config = pool.config

theorem Grows.refl (pool : BlockPool H) : Grows pool pool :=
  ⟨fun _ => le_rfl, rfl⟩

theorem Grows.trans {first second third : BlockPool H}
    (hfirst : Grows first second) (hsecond : Grows second third) :
    Grows first third :=
  ⟨fun block => (hfirst.refCnt_le block).trans (hsecond.refCnt_le block),
    hsecond.config_eq.trans hfirst.config_eq⟩

theorem SameRefs.grows {pool pool' : BlockPool H}
    (hsame : SameRefs pool pool') : Grows pool pool' :=
  ⟨fun block => (hsame.refCnt_eq block).ge, hsame.config_eq⟩

theorem SameRefs.sound {pool pool' : BlockPool H}
    (hsame : SameRefs pool pool') (hsound : Sound pool) : Sound pool' := by
  obtain ⟨hcounted, refs, haccounts⟩ := hsound
  refine ⟨?_, refs, hsame.accounts haccounts⟩
  rw [Counted, hsame.queue_eq]
  exact hcounted

theorem SameRefs.numFree_eq {pool pool' : BlockPool H}
    (hsame : SameRefs pool pool') :
    pool'.getNumFreeBlocks = pool.getNumFreeBlocks := by
  rw [getNumFreeBlocks, hsame.queue_eq, getNumFreeBlocks]

/-- The free blocks of a pool as a supply. -/
def supply : Supply (BlockPool H) where
  sound := Sound
  grows := Grows
  free := getNumFreeBlocks
  refl := Grows.refl
  trans hfirst hsecond := hfirst.trans hsecond

theorem refCnt_nonneg {pool : BlockPool H} (hsound : Sound pool)
    {block : BlockId} (hnull : block ≠ nullBlock) : 0 ≤ pool.refCnt block := by
  obtain ⟨-, refs, haccounts⟩ := hsound
  rw [haccounts.refCnt_eq block hnull]
  omega

theorem Sound.numFree_eq {pool : BlockPool H} (hsound : Sound pool) :
    pool.getNumFreeBlocks = pool.freeBlockQueue.order.length :=
  hsound.1

/-- Fewer blocks are free than the pool has. -/
theorem numFree_lt {pool : BlockPool H} (hsound : Sound pool)
    (hpos : 0 < pool.numGpuBlocks) :
    pool.getNumFreeBlocks < pool.numGpuBlocks := by
  rw [hsound.numFree_eq]
  obtain ⟨-, refs, haccounts⟩ := hsound
  have hsub : pool.freeBlockQueue.order ⊆
      (List.range pool.numGpuBlocks).erase nullBlock := by
    intro block hmem
    obtain ⟨hnull, hlt, -⟩ := (haccounts.mem_free block).mp hmem
    exact (List.mem_erase_of_ne hnull).mpr (List.mem_range.mpr hlt)
  have hle := (List.subperm_of_subset haccounts.nodup hsub).length_le
  have hlength : ((List.range pool.numGpuBlocks).erase nullBlock).length =
      pool.numGpuBlocks - 1 := by
    have hmem : nullBlock ∈ List.range pool.numGpuBlocks :=
      List.mem_range.mpr hpos
    rw [List.length_erase_of_mem hmem, List.length_range]
  omega

/-! ## Fresh blocks -/

/-- No key leads to the block. -/
def Unhashed (pool : BlockPool H) (block : BlockId) : Prop :=
  pool.blockHash block = none ∧ pool.cachedBlockHashesByBlock block = []

theorem popHashes_unhashed (pool : BlockPool H) (block : BlockId)
    (keys : List (BlockHashWithGroupId H)) :
    (pool.popHashes block keys).1.cachedBlockHashesByBlock =
        pool.cachedBlockHashesByBlock ∧
      (pool.popHashes block keys).1.blocks = pool.blocks := by
  induction keys generalizing pool with
  | nil => exact ⟨rfl, rfl⟩
  | cons key keys ih => exact ih _

theorem unhashed_maybeEvictCachedBlock (pool : BlockPool H)
    (block : BlockId) : Unhashed (pool.maybeEvictCachedBlock block) block := by
  unfold maybeEvictCachedBlock removeCachedBlockHashes
  by_cases hempty : (pool.blockHash block).toList ++
      pool.cachedBlockHashesByBlock block = []
  · simp only [hempty, if_true]
    obtain ⟨hhash, -⟩ := List.append_eq_nil_iff.mp hempty
    rw [Option.toList_eq_nil_iff] at hhash
    exact ⟨hhash, by simp⟩
  · simp only [hempty, if_false]
    refine ⟨by simp [blockHash, resetHash], ?_⟩
    have hpopped := (popHashes_unhashed
      { pool with cachedBlockHashesByBlock :=
          Function.update pool.cachedBlockHashesByBlock block [] } block
      ((pool.blockHash block).toList ++
        pool.cachedBlockHashesByBlock block)).1
    simp [resetHash, hpopped]

theorem unhashed_evict_other {pool : BlockPool H} {block other : BlockId}
    (hunhashed : Unhashed pool other) :
    Unhashed (pool.maybeEvictCachedBlock block) other := by
  by_cases hother : other = block
  · exact hother ▸ unhashed_maybeEvictCachedBlock pool block
  · unfold maybeEvictCachedBlock removeCachedBlockHashes
    simp only
    split
    · exact ⟨hunhashed.1, by
        simpa [Function.update_of_ne hother] using hunhashed.2⟩
    · obtain ⟨hkeys, hblocks⟩ := popHashes_unhashed
        { pool with cachedBlockHashesByBlock :=
            Function.update pool.cachedBlockHashesByBlock block [] } block
        ((pool.blockHash block).toList ++
          pool.cachedBlockHashesByBlock block)
      constructor
      · have hsame := congrFun hblocks other
        have hhash := hunhashed.1
        simp only [blockHash, resetHash, Function.update_of_ne hother] at *
        rw [hsame]
        exact hhash
      · simp only [resetHash, hkeys, Function.update_of_ne hother]
        exact hunhashed.2

theorem unhashed_addRef {pool : BlockPool H} {block other : BlockId}
    {delta : ℤ} (hunhashed : Unhashed pool other) :
    Unhashed (pool.addRef block delta) other := by
  refine ⟨?_, hunhashed.2⟩
  by_cases hother : other = block
  · subst hother
    simpa [blockHash, addRef] using hunhashed.1
  · simpa [blockHash, addRef, Function.update_of_ne hother] using hunhashed.1

theorem grows_addRef_one (pool : BlockPool H) (block : BlockId) :
    Grows pool (pool.addRef block 1) := by
  refine ⟨fun other => ?_, rfl⟩
  rw [refCnt_addRef]
  split <;> omega

private theorem handOut_ok {pool : BlockPool H} {ret : List BlockId}
    (hnodup : ret.Nodup) (hzero : ∀ block ∈ ret, pool.refCnt block = 0) :
    ∃ pool', pool.handOut ret = .ok pool' ∧ Grows pool pool' ∧
      (∀ block, Unhashed pool block → Unhashed pool' block) ∧
      (pool.enableCaching = true →
        ∀ block ∈ ret, Unhashed pool' block) := by
  induction ret generalizing pool with
  | nil => exact ⟨pool, rfl, Grows.refl pool, fun _ hkept => hkept, by simp⟩
  | cons block rest ih =>
      obtain ⟨hnot, hrest⟩ := List.nodup_cons.mp hnodup
      let evicted : BlockPool H :=
        if pool.enableCaching then pool.maybeEvictCachedBlock block else pool
      have hsame : SameRefs pool evicted := by
        by_cases hcaching : pool.enableCaching = true
        · simp only [evicted, hcaching, if_true]
          exact sameRefs_maybeEvictCachedBlock pool block
        · simp only [evicted, hcaching]
          exact SameRefs.refl pool
      have hunhashed : ∀ other, Unhashed pool other →
          Unhashed evicted other := by
        intro other hother
        by_cases hcaching : pool.enableCaching = true
        · simp only [evicted, hcaching, if_true]
          exact unhashed_evict_other hother
        · simp only [evicted, hcaching]
          exact hother
      have hstart : ∀ other ∈ rest,
          (evicted.addRef block 1).refCnt other = 0 := by
        intro other hother
        have hne : other ≠ block := fun heq => hnot (heq ▸ hother)
        rw [refCnt_addRef, if_neg hne, hsame.refCnt_eq,
          hzero other (List.mem_cons_of_mem _ hother), add_zero]
      obtain ⟨pool', hrun, hgrows, hkeep, hfresh⟩ := ih hrest hstart
      refine ⟨pool', ?_, (hsame.grows.trans
        (grows_addRef_one evicted block)).trans hgrows, ?_, ?_⟩
      · simp only [handOut, bind_eq_ok, require_eq_ok]
        exact ⟨(), (hsame.refCnt_eq block).trans
          (hzero block List.mem_cons_self), hrun⟩
      · intro other hother
        exact hkeep other (unhashed_addRef (hunhashed other hother))
      · intro hcaching other hother
        have hconfig : (evicted.addRef block 1).enableCaching = true := by
          have hconfig := congrArg (fun config => config.2.1) hsame.config_eq
          exact hconfig.trans hcaching
        cases hother with
        | head =>
            refine hkeep block (unhashed_addRef ?_)
            simp only [evicted, hcaching, if_true]
            exact unhashed_maybeEvictCachedBlock pool block
        | tail _ hmem => exact hfresh hconfig other hmem

/-- What a request for fresh blocks gets from a sound pool. -/
structure Fresh (pool pool' : BlockPool H) (ret : List BlockId) : Prop where
  sound : Sound pool'
  grows : Grows pool pool'
  numFree_eq : pool'.getNumFreeBlocks = pool.getNumFreeBlocks - ret.length
  used : ∀ block ∈ ret, 0 < pool'.refCnt block
  proper : ∀ block ∈ ret, block ≠ nullBlock
  unhashed : pool.enableCaching = true →
    ∀ block ∈ ret, Unhashed pool' block

theorem getNewBlocks_ok {pool : BlockPool H} (hsound : Sound pool)
    {numBlocks : ℕ} (hfits : (numBlocks : ℤ) ≤ pool.getNumFreeBlocks) :
    ∃ ret pool', pool.getNewBlocks numBlocks = .ok (ret, pool') ∧
      ret.length = numBlocks ∧ Fresh pool pool' ret := by
  obtain ⟨hcounted, refs, haccounts⟩ := hsound
  have hlength : numBlocks ≤ pool.freeBlockQueue.order.length := by
    rw [getNumFreeBlocks, show pool.freeBlockQueue.numFreeBlocks = _ from
      hcounted] at hfits
    omega
  have hpop : ∃ queue, pool.freeBlockQueue.popleftN numBlocks =
      .ok (pool.freeBlockQueue.order.take numBlocks, queue) ∧
      queue.numFreeBlocks = queue.order.length ∧
      queue.order = pool.freeBlockQueue.order.drop numBlocks := by
    unfold FreeKVCacheBlockQueue.popleftN
    by_cases hzero : (numBlocks : ℤ) = 0
    · have hnone : numBlocks = 0 := by omega
      subst hnone
      exact ⟨pool.freeBlockQueue, rfl, hcounted, rfl⟩
    · rw [if_neg hzero, if_neg (by
        rw [getNumFreeBlocks] at hfits
        omega)]
      refine ⟨_, rfl, ?_, rfl⟩
      simp only [Int.toNat_natCast, List.length_drop]
      rw [show pool.freeBlockQueue.numFreeBlocks = _ from hcounted]
      omega
  obtain ⟨queue, hqueue, hcount, horder⟩ := hpop
  have hnodup : (pool.freeBlockQueue.order.take numBlocks).Nodup :=
    haccounts.nodup.sublist (List.take_sublist _ _)
  have hfree : ∀ block ∈ pool.freeBlockQueue.order.take numBlocks,
      block ≠ nullBlock ∧ pool.refCnt block = 0 := by
    intro block hmem
    obtain ⟨hnull, -, hzero⟩ :=
      (haccounts.mem_free block).mp (List.mem_of_mem_take hmem)
    exact ⟨hnull, by rw [haccounts.refCnt_eq block hnull, hzero]; rfl⟩
  have hzero : ∀ block ∈ pool.freeBlockQueue.order.take numBlocks,
      (pool.withQueue queue).refCnt block = 0 :=
    fun block hmem => (hfree block hmem).2
  obtain ⟨pool', hhand, hgrows, -, hunhashed⟩ := handOut_ok hnodup hzero
  have hrun : pool.getNewBlocks numBlocks =
      .ok (pool.freeBlockQueue.order.take numBlocks, pool') := by
    simp only [getNewBlocks, bind_eq_ok, require_eq_ok, pure_eq_ok,
      Prod.exists, Prod.mk.injEq]
    exact ⟨(), hfits, _, queue, hqueue, pool', hhand, rfl, rfl⟩
  have hhanded := getNewBlocks_handedOut hrun haccounts
  have hfinalQueue : pool'.freeBlockQueue = queue := by
    have hstart : AccountsWith (pool.withQueue queue) refs
        (pool.freeBlockQueue.order.take numBlocks ++ queue.order) := by
      rw [horder, List.take_append_drop]
      exact haccounts.withQueue queue
    exact (handOut_accounts hhand hstart).2.1
  have htaken : (pool.freeBlockQueue.order.take numBlocks).length =
      numBlocks := by
    rw [List.length_take, min_eq_left hlength]
  refine ⟨_, pool', hrun, htaken, ⟨?_, _, hhanded.accounts⟩,
    ⟨hgrows.refCnt_le, hgrows.config_eq⟩, ?_, ?_, ?_, hunhashed⟩
  · rw [Counted, hfinalQueue]
    exact hcount
  · rw [hhanded.numFree_eq, htaken]
  · intro block hmem
    rw [hhanded.accounts.refCnt_eq block (hfree block hmem).1]
    have hone := List.count_pos_iff.mpr hmem
    omega
  · intro block hmem
    exact (hfree block hmem).1

/-! ## Touching and retaining -/

theorem numEvictable_grows {pool pool' : BlockPool H} (hsound : Sound pool)
    (hgrows : Grows pool pool') (blocks : List BlockId) :
    pool'.getNumEvictableBlocks blocks ≤
      pool.getNumEvictableBlocks blocks := by
  refine List.countP_mono_left fun block _ hzero => ?_
  simp only [decide_eq_true_eq] at hzero ⊢
  obtain ⟨hzero, hnull⟩ := hzero
  have hle := hgrows.refCnt_le block
  have hnonneg := refCnt_nonneg hsound hnull
  exact ⟨by omega, hnull⟩

private theorem touchBlock_ok {pool : BlockPool H} (hsound : Sound pool)
    {block : BlockId} (hlt : block < pool.numGpuBlocks) :
    ∃ pool', pool.touchBlock block = .ok pool' ∧ Sound pool' ∧
      Grows pool pool' ∧
      pool.getNumFreeBlocks - pool.getNumEvictableBlocks [block] ≤
        pool'.getNumFreeBlocks ∧
      (block ≠ nullBlock → 0 < pool'.refCnt block) := by
  have hused : block ≠ nullBlock → 0 < (pool.addRef block 1).refCnt block := by
    intro hnull
    have hnonneg := refCnt_nonneg hsound hnull
    rw [refCnt_addRef, if_pos rfl]
    omega
  obtain ⟨hcounted, refs, haccounts⟩ := hsound
  by_cases hfree : pool.refCnt block = 0 ∧ block ≠ nullBlock
  · have hmem : block ∈ pool.freeBlockQueue.order := by
      refine haccounts.mem_of_unreferenced hfree.2 hlt ?_
      have hcount := haccounts.refCnt_eq block hfree.2
      rw [hfree.1] at hcount
      omega
    have hrun : pool.touchBlock block = .ok ((pool.withQueue
        { order := pool.freeBlockQueue.order.erase block
          numFreeBlocks := pool.freeBlockQueue.numFreeBlocks - 1 }).addRef
            block 1) := by
      simp only [touchBlock, if_pos hfree, FreeKVCacheBlockQueue.remove,
        if_pos hmem]
      rfl
    refine ⟨_, hrun, ⟨?_, _, touchBlock_accounts hrun haccounts⟩,
      ⟨(grows_addRef_one pool block).refCnt_le, rfl⟩, ?_, hused⟩
    · have hpos := List.length_pos_of_mem hmem
      simp only [Counted, freeBlockQueue_addRef, freeBlockQueue_withQueue,
        List.length_erase_of_mem hmem]
      rw [show pool.freeBlockQueue.numFreeBlocks = _ from hcounted]
      omega
    · simp [getNumFreeBlocks, getNumEvictableBlocks, hfree]
  · have hrun : pool.touchBlock block = .ok (pool.addRef block 1) := by
      simp only [touchBlock, if_neg hfree]
    refine ⟨_, hrun, ⟨hcounted, _, touchBlock_accounts hrun haccounts⟩,
      grows_addRef_one pool block, ?_, hused⟩
    simp only [getNumFreeBlocks, freeBlockQueue_addRef]
    omega

/-- A touch takes at most the evictable blocks of its list. -/
theorem touch_ok {pool : BlockPool H} (hsound : Sound pool)
    {blocks : List BlockId} (hlt : ∀ block ∈ blocks, block < pool.numGpuBlocks) :
    ∃ pool', pool.touch blocks = .ok pool' ∧ Sound pool' ∧ Grows pool pool' ∧
      pool.getNumFreeBlocks - pool.getNumEvictableBlocks blocks ≤
        pool'.getNumFreeBlocks ∧
      ∀ block ∈ blocks, block ≠ nullBlock → 0 < pool'.refCnt block := by
  induction blocks generalizing pool with
  | nil =>
      exact ⟨pool, rfl, hsound, Grows.refl pool, by
        simp [getNumEvictableBlocks], by simp⟩
  | cons block rest ih =>
      obtain ⟨middle, hblock, hmiddle, hgrown, hpaid, hused⟩ :=
        touchBlock_ok hsound (hlt block List.mem_cons_self)
      have hsize := numGpuBlocks_of_config hgrown.config_eq
      obtain ⟨pool', hrest, hsound', hgrows, hspent, hothers⟩ := ih hmiddle
        fun other hother => hsize ▸ hlt other (List.mem_cons_of_mem _ hother)
      refine ⟨pool', ?_, hsound', hgrown.trans hgrows, ?_, ?_⟩
      · simp only [touch, bind_eq_ok]
        exact ⟨middle, hblock, hrest⟩
      · have hle := numEvictable_grows hsound hgrown rest
        have hsplit : pool.getNumEvictableBlocks (block :: rest) =
            pool.getNumEvictableBlocks [block] +
              pool.getNumEvictableBlocks rest := by
          simp only [getNumEvictableBlocks, List.countP_cons, List.countP_nil]
          omega
        rw [hsplit]
        push_cast
        omega
      · intro other hother hnull
        cases hother with
        | head => exact (hused hnull).trans_le (hgrows.refCnt_le block)
        | tail _ hmem => exact hothers other hmem hnull

/-- One more reference of a block in use keeps the pool sound. -/
theorem sound_addRef_used {pool : BlockPool H} (hsound : Sound pool)
    {block : BlockId} (hused : block ≠ nullBlock → 0 < pool.refCnt block) :
    Sound (pool.addRef block 1) := by
  obtain ⟨hcounted, refs, haccounts⟩ := hsound
  refine ⟨hcounted, _, haccounts.retain block fun hnull => ?_⟩
  have hpos := hused hnull
  rw [haccounts.refCnt_eq block hnull] at hpos
  omega

theorem moveBlockHashes_ok {pool : BlockPool H} (srcBlock : BlockId)
    {dstBlock : BlockId} (hunhashed : Unhashed pool dstBlock) :
    ∃ pool', pool.moveBlockHashes srcBlock dstBlock = .ok pool' := by
  refine ⟨(pool.removeCachedBlockHashes srcBlock).1.insertBlockHashes dstBlock
    (pool.blocks srcBlock).blockHashNumTokens
    (pool.removeCachedBlockHashes srcBlock).2, ?_⟩
  simp only [moveBlockHashes, bind_eq_ok, require_eq_ok]
  exact ⟨(), hunhashed.1, (), hunhashed.2, rfl⟩

/-! ## The counter under every call -/

theorem counted_freeBlocks {pool : BlockPool H} (hcounted : Counted pool)
    (blocks : List BlockId) : Counted (pool.freeBlocks blocks) := by
  have hloop : ∀ (blocks evictFirst evictLast : List BlockId)
      (pool : BlockPool H),
      (pool.freeLoop evictFirst evictLast blocks).1.freeBlockQueue =
        pool.freeBlockQueue := by
    intro blocks
    induction blocks with
    | nil => exact fun _ _ _ => rfl
    | cons block rest ih =>
        intro evictFirst evictLast pool
        unfold freeLoop
        simp only
        split
        · split <;> exact ih _ _ _
        · exact ih _ _ _
  have hqueue := hloop blocks [] [] pool
  unfold freeBlocks
  rcases hfreed : pool.freeLoop [] [] blocks with ⟨freed, evictFirst, evictLast⟩
  rw [hfreed] at hqueue
  have hcount : pool.freeBlockQueue.numFreeBlocks =
      pool.freeBlockQueue.order.length := hcounted
  simp only [Counted, freeBlockQueue_withQueue,
    FreeKVCacheBlockQueue.prependN, FreeKVCacheBlockQueue.appendN,
    show freed.freeBlockQueue = pool.freeBlockQueue from hqueue, hcount,
    List.length_append]
  push_cast
  omega

theorem counted_touch {pool pool' : BlockPool H} {blocks : List BlockId}
    (hrun : pool.touch blocks = .ok pool') (hcounted : Counted pool) :
    Counted pool' := by
  induction blocks generalizing pool with
  | nil =>
      simp only [touch, Except.ok.injEq] at hrun
      exact hrun ▸ hcounted
  | cons block rest ih =>
      simp only [touch, bind_eq_ok] at hrun
      obtain ⟨middle, hblock, hrest⟩ := hrun
      refine ih hrest ?_
      unfold touchBlock at hblock
      split at hblock
      · simp only [bind_eq_ok, pure_eq_ok] at hblock
        obtain ⟨queue, hqueue, rfl⟩ := hblock
        unfold FreeKVCacheBlockQueue.remove at hqueue
        split at hqueue
        case isTrue hmem =>
            simp only [Except.ok.injEq] at hqueue
            subst hqueue
            have hpos := List.length_pos_of_mem hmem
            have hcount : pool.freeBlockQueue.numFreeBlocks =
                pool.freeBlockQueue.order.length := hcounted
            simp only [Counted, freeBlockQueue_addRef,
              freeBlockQueue_withQueue, List.length_erase_of_mem hmem, hcount]
            omega
        case isFalse => cases hqueue
      · simp only [Except.ok.injEq] at hblock
        exact hblock ▸ hcounted

end GlmFlash.Cache.BlockPool
