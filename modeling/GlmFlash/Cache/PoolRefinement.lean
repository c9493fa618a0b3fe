import GlmFlash.Cache.LinkedPool
import GlmFlash.Cache.PoolCapacity

/-!
# The linked pool refines the pool

Every operation of the linked pool that returns is the same operation on its
view, and leaves a queue that holds the list of the new view.
-/

namespace GlmFlash.Cache.LinkedPool

open GlmFlash.Library

variable {H : Type} [DecidableEq H] {pool pool' : LinkedPool H}
  {order : List BlockId}

/-! ## Hashes -/

theorem popHashes_view (pool : LinkedPool H) (order : List BlockId)
    (block : BlockId) (keys : List (BlockHashWithGroupId H)) :
    (pool.view order).popHashes block keys =
        ((pool.popHashes block keys).1.view order,
          (pool.popHashes block keys).2) ∧
      (pool.popHashes block keys).1.freeBlockQueue =
        pool.freeBlockQueue := by
  induction keys generalizing pool with
  | nil => exact ⟨rfl, rfl⟩
  | cons key keys ih =>
      have hpop : (pool.view order).popHash key block =
          ({ pool with
              cachedBlockHashToBlock :=
                (pool.cachedBlockHashToBlock.pop key block).1 }.view order,
            (pool.cachedBlockHashToBlock.pop key block).2) := by
        rw [BlockHashToBlockMap.snd_pop]
        simp only [BlockPool.popHash, view, BlockHashToBlockMap.toList_pop]
        rfl
      have hlater := ih { pool with
        cachedBlockHashToBlock :=
          (pool.cachedBlockHashToBlock.pop key block).1 }
      simp only [BlockPool.popHashes, hpop, hlater.1, popHashes]
      exact ⟨trivial, hlater.2⟩

theorem removeCachedBlockHashes_view (pool : LinkedPool H)
    (order : List BlockId) (block : BlockId) :
    (pool.view order).removeCachedBlockHashes block =
        ((pool.removeCachedBlockHashes block).1.view order,
          (pool.removeCachedBlockHashes block).2) ∧
      (pool.removeCachedBlockHashes block).1.freeBlockQueue =
        pool.freeBlockQueue := by
  simp only [BlockPool.removeCachedBlockHashes, removeCachedBlockHashes]
  change (if (pool.blockHash block).toList ++
      pool.cachedBlockHashesByBlock block = [] then _ else _) = _ ∧ _
  split
  · exact ⟨rfl, rfl⟩
  · have hpop := popHashes_view { pool with
        cachedBlockHashesByBlock :=
          Function.update pool.cachedBlockHashesByBlock block [] }
      order block ((pool.blockHash block).toList ++
        pool.cachedBlockHashesByBlock block)
    refine ⟨?_, hpop.2⟩
    exact congrArg (fun result => (result.1.resetHash block, result.2))
      hpop.1

theorem insertBlockHash_view {key : BlockHashWithGroupId H}
    {block : BlockId} {numTokens : Option ℕ} (order : List BlockId)
    (hrun : pool.insertBlockHash key block numTokens = .ok pool') :
    (pool.view order).insertBlockHash key block numTokens =
        pool'.view order ∧
      pool'.freeBlockQueue = pool.freeBlockQueue := by
  rw [insertBlockHash] at hrun
  rw [BlockPool.insertBlockHash]
  change (if pool.blockHash block = some key then _
    else if block ∈ pool.cachedBlockHashToBlock.toList key then _
      else _) = _ ∧ _
  simp only [BlockHashToBlockMap.contain_iff] at hrun
  split at hrun
  · rename_i hsame
    cases hrun
    rw [if_pos hsame]
    exact ⟨rfl, rfl⟩
  · rename_i hother
    rw [if_neg hother]
    split at hrun
    · rename_i hthere
      cases hrun
      rw [if_pos hthere]
      exact ⟨rfl, rfl⟩
    · rename_i hnew
      rw [if_neg hnew]
      simp only [bind_eq_ok, pure_eq_ok] at hrun
      obtain ⟨middle, hmiddle, rfl⟩ := hrun
      have hinsert := pool.cachedBlockHashToBlock.toList_insert key block hnew
      rw [recordBlockHash] at hmiddle
      split at hmiddle
      · rename_i hnone
        simp only [setBlockHash, bind_eq_ok, require_eq_ok, pure_eq_ok]
          at hmiddle
        obtain ⟨-, -, rfl⟩ := hmiddle
        have hnone' : (pool.view order).blockHash block = none := hnone
        rw [if_pos hnone']
        simp only [view, hinsert]
        exact ⟨trivial, trivial⟩
      · rename_i hsome
        cases hmiddle
        have hsome' : (pool.view order).blockHash block ≠ none := hsome
        rw [if_neg hsome']
        simp only [view, hinsert]
        exact ⟨trivial, trivial⟩

theorem insertBlockHashes_view {block : BlockId} {numTokens : Option ℕ}
    (order : List BlockId) {keys : List (BlockHashWithGroupId H)}
    (hrun : pool.insertBlockHashes block numTokens keys = .ok pool') :
    (pool.view order).insertBlockHashes block numTokens keys =
        pool'.view order ∧
      pool'.freeBlockQueue = pool.freeBlockQueue := by
  induction keys generalizing pool with
  | nil =>
      cases hrun
      exact ⟨rfl, rfl⟩
  | cons key keys ih =>
      simp only [insertBlockHashes, bind_eq_ok] at hrun
      obtain ⟨middle, hfirst, hlater⟩ := hrun
      have hview := insertBlockHash_view order hfirst
      have hlater' := ih hlater
      rw [BlockPool.insertBlockHashes] at hlater' ⊢
      rw [List.foldl_cons, hview.1]
      exact ⟨hlater'.1, hlater'.2.trans hview.2⟩

theorem cacheFullBlock_view {key : BlockHashWithGroupId H}
    {block : BlockId} {numHashTokens : ℕ} (order : List BlockId)
    (hrun : pool.cacheFullBlock key block numHashTokens = .ok pool') :
    (pool.view order).cacheFullBlock key block numHashTokens =
        .ok (pool'.view order) ∧
      pool'.freeBlockQueue = pool.freeBlockQueue := by
  rw [cacheFullBlock] at hrun
  rw [BlockPool.cacheFullBlock]
  split at hrun
  · rename_i hnone
    have hnone' : (pool.view order).blockHash block = none := hnone
    have hview := insertBlockHash_view order hrun
    rw [if_pos hnone', hview.1]
    exact ⟨rfl, hview.2⟩
  · rename_i hsome
    have hsome' : (pool.view order).blockHash block ≠ none := hsome
    simp only [bind_eq_ok, require_eq_ok] at hrun
    obtain ⟨-, hlater, hinsert⟩ := hrun
    have hremove := removeCachedBlockHashes_view pool order block
    have hview := insertBlockHash_view order hinsert
    rw [if_neg hsome']
    simp only [bind_eq_ok, require_eq_ok, pure_eq_ok, hremove.1, hview.1]
    exact ⟨⟨(), hlater, trivial⟩, hview.2.trans hremove.2⟩

theorem cacheFullLoop_view {blockHashes : List H}
    {blockSize kvCacheGroupId numCachedBlocks i : ℕ}
    {blockMask : Option (List Bool)} {blocks : List BlockId}
    (order : List BlockId)
    (hrun : pool.cacheFullLoop blockHashes blockSize kvCacheGroupId
      numCachedBlocks blockMask i blocks = .ok pool') :
    (pool.view order).cacheFullLoop blockHashes blockSize kvCacheGroupId
        numCachedBlocks blockMask i blocks = .ok (pool'.view order) ∧
      pool'.freeBlockQueue = pool.freeBlockQueue := by
  induction blocks generalizing pool i with
  | nil =>
      cases hrun
      exact ⟨rfl, rfl⟩
  | cons block rest ih =>
      rw [cacheFullLoop] at hrun
      rw [BlockPool.cacheFullLoop]
      split at hrun
      · rename_i hskip
        rw [if_pos hskip]
        exact ih hrun
      · rename_i hkeep
        rw [if_neg hkeep]
        split at hrun
        · cases hrun
        · rename_i blockHash hhash
          have hhash' : (pool.view order).resolveBlockHash blockHashes
              blockSize (numCachedBlocks + i) = some blockHash := hhash
          rw [hhash']
          simp only [bind_eq_ok] at hrun ⊢
          obtain ⟨middle, hfirst, hlater⟩ := hrun
          have hview := cacheFullBlock_view order hfirst
          have hlater' := ih hlater
          exact ⟨⟨_, hview.1, hlater'.1⟩, hlater'.2.trans hview.2⟩

theorem cacheFullBlocks_view {blockHashes : List H} {blocks : List BlockId}
    {numCachedBlocks numFullBlocks blockSize kvCacheGroupId : ℕ}
    {blockMask : Option (List Bool)} (order : List BlockId)
    (hrun : pool.cacheFullBlocks blockHashes blocks numCachedBlocks
      numFullBlocks blockSize kvCacheGroupId blockMask = .ok pool') :
    (pool.view order).cacheFullBlocks blockHashes blocks numCachedBlocks
        numFullBlocks blockSize kvCacheGroupId blockMask =
          .ok (pool'.view order) ∧
      pool'.freeBlockQueue = pool.freeBlockQueue := by
  rw [cacheFullBlocks] at hrun
  rw [BlockPool.cacheFullBlocks]
  split at hrun
  · rename_i hnone
    cases hrun
    rw [if_pos hnone]
    exact ⟨rfl, rfl⟩
  · rename_i hsome
    rw [if_neg hsome]
    simp only [bind_eq_ok, require_eq_ok] at hrun ⊢
    obtain ⟨-, hmask, -, hsize, hloop⟩ := hrun
    have hview := cacheFullLoop_view order hloop
    exact ⟨⟨(), hmask, (), hsize, hview.1⟩, hview.2⟩

theorem dropShorter_view (pool : LinkedPool H) (order : List BlockId)
    (key : BlockHashWithGroupId H) (block : BlockId) (numTokens : ℕ) :
    (pool.dropShorter key block numTokens).view order =
        (if ¬((pool.view order).blockHash block = some key ∨
              block ∈ (pool.view order).cachedBlockHashToBlock key) ∧
            (pool.view order).blockHash block ≠ none ∧
            ((pool.view order).blocks block).blockHashNumTokens.any
              (· < numTokens) = true then
          ((pool.view order).removeCachedBlockHashes block).1
        else pool.view order) ∧
      (pool.dropShorter key block numTokens).freeBlockQueue =
        pool.freeBlockQueue ∧
      (pool.dropShorter key block numTokens).hashBlockSize =
        pool.hashBlockSize := by
  have hremove := removeCachedBlockHashes_view pool order block
  simp only [dropShorter, BlockHashToBlockMap.contain_iff]
  split
  · rename_i hshorter
    have hshorter' : ¬((pool.view order).blockHash block = some key ∨
          block ∈ (pool.view order).cachedBlockHashToBlock key) ∧
        (pool.view order).blockHash block ≠ none ∧
        ((pool.view order).blocks block).blockHashNumTokens.any
          (· < numTokens) = true := hshorter
    rw [if_pos hshorter', hremove.1]
    refine ⟨rfl, hremove.2, ?_⟩
    have hsize := (BlockPool.sameRefs_removeCachedBlockHashes
      (pool.view order) block).config_eq
    rw [hremove.1] at hsize
    exact congrArg (fun config => config.2.2) hsize
  · rename_i hlonger
    have hlonger' : ¬(¬((pool.view order).blockHash block = some key ∨
          block ∈ (pool.view order).cachedBlockHashToBlock key) ∧
        (pool.view order).blockHash block ≠ none ∧
        ((pool.view order).blocks block).blockHashNumTokens.any
          (· < numTokens) = true) := hlonger
    rw [if_neg hlonger']
    exact ⟨rfl, rfl, rfl⟩

theorem cachePartialBlock_view {blockHashes : List H} {block : BlockId}
    {numTokens kvCacheGroupId blockSize : ℕ}
    {partialHash : Option (BlockHashWithGroupId H)} (order : List BlockId)
    (hrun : pool.cachePartialBlock blockHashes block numTokens kvCacheGroupId
      blockSize = .ok (pool', partialHash)) :
    (pool.view order).cachePartialBlock blockHashes block numTokens
        kvCacheGroupId blockSize = .ok (pool'.view order, partialHash) ∧
      pool'.freeBlockQueue = pool.freeBlockQueue := by
  rw [cachePartialBlock] at hrun
  rw [BlockPool.cachePartialBlock]
  split at hrun
  · rename_i hnull
    cases hrun
    rw [if_pos hnull]
    exact ⟨rfl, rfl⟩
  · rename_i hnull
    rw [if_neg hnull]
    simp only [bind_eq_ok, require_eq_ok] at hrun
    obtain ⟨-, hfine, -, hdvd, -, hpartial, -, haligned, -, hsome, hrun⟩ :=
      hrun
    split at hrun
    · cases hrun
    · rename_i blockHash hget
      simp only [bind_eq_ok, pure_eq_ok, Prod.mk.injEq] at hrun
      obtain ⟨middle, hinsert, rfl, rfl⟩ := hrun
      have hdrop := dropShorter_view pool order ⟨blockHash, kvCacheGroupId⟩
        block (numTokens / pool.hashBlockSize * pool.hashBlockSize)
      have hview := insertBlockHash_view order hinsert
      have hget' : blockHashes[numTokens / (pool.view order).hashBlockSize -
          1]? = some blockHash := hget
      refine ⟨?_, hview.2.trans hdrop.2.1⟩
      simp only [bind_eq_ok, require_eq_ok]
      refine ⟨(), hfine, (), hdvd, (), hpartial, (), haligned, (), hsome, ?_⟩
      rw [hget']
      simp only [pure_eq_ok, Prod.mk.injEq, and_true]
      have hsize : ((pool.dropShorter ⟨blockHash, kvCacheGroupId⟩ block
          (numTokens / pool.hashBlockSize * pool.hashBlockSize)).view
            order).hashBlockSize = pool.hashBlockSize := hdrop.2.2
      rw [← hview.1]
      rw [hdrop.1] at hsize ⊢
      exact congrArg (fun size => BlockPool.insertBlockHash _ _ _
        (some (numTokens / pool.hashBlockSize * size))) hsize

/-! ## Moves, evictions and resets -/

theorem moveBlockHashes_view {srcBlock dstBlock : BlockId}
    (order : List BlockId)
    (hrun : pool.moveBlockHashes srcBlock dstBlock = .ok pool') :
    (pool.view order).moveBlockHashes srcBlock dstBlock =
        .ok (pool'.view order) ∧
      pool'.freeBlockQueue = pool.freeBlockQueue := by
  simp only [moveBlockHashes, bind_eq_ok, require_eq_ok] at hrun
  obtain ⟨-, hprimary, -, hextra, hinsert⟩ := hrun
  have hremove := removeCachedBlockHashes_view pool order srcBlock
  have hview := insertBlockHashes_view order hinsert
  refine ⟨?_, hview.2.trans hremove.2⟩
  simp only [BlockPool.moveBlockHashes, bind_eq_ok, require_eq_ok,
    pure_eq_ok, hremove.1]
  exact ⟨(), hprimary, (), hextra, hview.1⟩

theorem evictBlocks_view {blocks : List BlockId} (order : List BlockId)
    (hrun : pool.evictBlocks blocks = .ok pool') :
    (pool.view order).evictBlocks blocks = .ok (pool'.view order) ∧
      pool'.freeBlockQueue = pool.freeBlockQueue := by
  induction blocks generalizing pool with
  | nil =>
      cases hrun
      exact ⟨rfl, rfl⟩
  | cons block rest ih =>
      simp only [evictBlocks, bind_eq_ok, require_eq_ok] at hrun
      obtain ⟨-, hlt, hlater⟩ := hrun
      have hremove := removeCachedBlockHashes_view pool order block
      have hlater' := ih hlater
      simp only [BlockPool.evictBlocks, bind_eq_ok, require_eq_ok,
        BlockPool.maybeEvictCachedBlock, hremove.1]
      exact ⟨⟨(), hlt, hlater'.1⟩, hlater'.2.trans hremove.2⟩

omit [DecidableEq H] in
theorem resetPrefixCache_view (pool : LinkedPool H) (order : List BlockId) :
    (pool.view order).resetPrefixCache =
        (pool.resetPrefixCache.1.view order, pool.resetPrefixCache.2) ∧
      pool.resetPrefixCache.1.freeBlockQueue = pool.freeBlockQueue := by
  rw [resetPrefixCache, BlockPool.resetPrefixCache]
  change (if (pool.numGpuBlocks : ℤ) - pool.getNumFreeBlocks ≠ 1 then _
    else _) = _ ∧ _
  split
  · exact ⟨rfl, rfl⟩
  · exact ⟨rfl, rfl⟩

/-! ## The free queue -/

theorem handOut_view {ret : List BlockId} (order : List BlockId)
    (hrun : pool.handOut ret = .ok pool') :
    (pool.view order).handOut ret = .ok (pool'.view order) ∧
      pool'.freeBlockQueue = pool.freeBlockQueue := by
  induction ret generalizing pool with
  | nil =>
      cases hrun
      exact ⟨rfl, rfl⟩
  | cons block rest ih =>
      have hremove := removeCachedBlockHashes_view pool order block
      have hstep : (if (pool.view order).enableCaching then
            (pool.view order).maybeEvictCachedBlock block
          else pool.view order) =
            (if pool.enableCaching then pool.maybeEvictCachedBlock block
              else pool).view order ∧
          (if pool.enableCaching then pool.maybeEvictCachedBlock block
            else pool).freeBlockQueue = pool.freeBlockQueue := by
        change (if pool.enableCaching then _ else _) = _ ∧ _
        split
        · exact ⟨congrArg Prod.fst hremove.1, hremove.2⟩
        · exact ⟨rfl, rfl⟩
      simp only [handOut, bind_eq_ok, require_eq_ok] at hrun
      obtain ⟨-, hzero, hlater⟩ := hrun
      have hlater' := ih hlater
      simp only [BlockPool.handOut, bind_eq_ok, require_eq_ok, hstep.1]
      exact ⟨⟨(), hzero, hlater'.1⟩, hlater'.2.trans hstep.2⟩

theorem getNewBlocks_view {numBlocks : ℤ} {ret : List BlockId}
    (hqueue : pool.freeBlockQueue.Represents order)
    (hrun : pool.getNewBlocks numBlocks = .ok (ret, pool')) :
    ∃ order', (pool.view order).getNewBlocks numBlocks =
        .ok (ret, pool'.view order') ∧
      pool'.freeBlockQueue.Represents order' := by
  simp only [getNewBlocks, bind_eq_ok, require_eq_ok, pure_eq_ok,
    Prod.exists, Prod.mk.injEq] at hrun
  obtain ⟨-, henough, popped, queue, hpop, final, hhand, rfl, rfl⟩ := hrun
  obtain ⟨order', hpop', hqueue'⟩ := hqueue.popleftN hpop
  have hview := handOut_view order' hhand
  refine ⟨order', ?_, ?_⟩
  · simp only [BlockPool.getNewBlocks, bind_eq_ok, require_eq_ok,
      pure_eq_ok, Prod.exists, Prod.mk.injEq]
    exact ⟨(), henough, popped, _, hpop', _, hview.1, rfl, rfl⟩
  · rw [hview.2]
    exact hqueue'

omit [DecidableEq H] in
theorem touchBlock_view {block : BlockId}
    (hqueue : pool.freeBlockQueue.Represents order)
    (hrun : pool.touchBlock block = .ok pool') :
    ∃ order', (pool.view order).touchBlock block =
        .ok (pool'.view order') ∧
      pool'.freeBlockQueue.Represents order' := by
  rw [touchBlock] at hrun
  rw [BlockPool.touchBlock]
  split at hrun
  · rename_i hfree
    have hfree' : (pool.view order).refCnt block = 0 ∧ block ≠ nullBlock :=
      hfree
    simp only [bind_eq_ok, pure_eq_ok] at hrun
    obtain ⟨queue, hremove, rfl⟩ := hrun
    obtain ⟨order', hremove', hqueue'⟩ := hqueue.remove hremove
    refine ⟨order', ?_, hqueue'⟩
    rw [if_pos hfree']
    simp only [bind_eq_ok, pure_eq_ok]
    exact ⟨_, hremove', rfl⟩
  · rename_i hheld
    have hheld' : ¬((pool.view order).refCnt block = 0 ∧
        block ≠ nullBlock) := hheld
    cases hrun
    refine ⟨order, ?_, hqueue⟩
    rw [if_neg hheld']
    rfl

omit [DecidableEq H] in
theorem touch_view {blocks : List BlockId}
    (hqueue : pool.freeBlockQueue.Represents order)
    (hrun : pool.touch blocks = .ok pool') :
    ∃ order', (pool.view order).touch blocks = .ok (pool'.view order') ∧
      pool'.freeBlockQueue.Represents order' := by
  induction blocks generalizing pool order with
  | nil =>
      cases hrun
      exact ⟨order, rfl, hqueue⟩
  | cons block rest ih =>
      simp only [touch, bind_eq_ok] at hrun
      obtain ⟨middle, hfirst, hlater⟩ := hrun
      obtain ⟨order', hfirst', hqueue'⟩ := touchBlock_view hqueue hfirst
      obtain ⟨order'', hlater', hqueue''⟩ := ih hqueue' hlater
      refine ⟨order'', ?_, hqueue''⟩
      simp only [BlockPool.touch, bind_eq_ok]
      exact ⟨_, hfirst', hlater'⟩

omit [DecidableEq H] in
theorem freeLoop_view (pool : LinkedPool H) (order : List BlockId)
    (evictFirst evictLast blocks : List BlockId) :
    (pool.view order).freeLoop evictFirst evictLast blocks =
        ((pool.freeLoop evictFirst evictLast blocks).1.view order,
          (pool.freeLoop evictFirst evictLast blocks).2) ∧
      (pool.freeLoop evictFirst evictLast blocks).1.freeBlockQueue =
        pool.freeBlockQueue := by
  induction blocks generalizing pool evictFirst evictLast with
  | nil => exact ⟨rfl, rfl⟩
  | cons block rest ih =>
      simp only [BlockPool.freeLoop, freeLoop]
      change (if (pool.addRef block (-1)).refCnt block = 0 ∧
          block ≠ nullBlock then
        if (pool.addRef block (-1)).blockHash block = none ∨
            (pool.addRef block (-1)).enableCaching = false then _ else _
        else _) = _ ∧ _
      split
      · split
        · exact ih (pool.addRef block (-1)) _ _
        · exact ih (pool.addRef block (-1)) _ _
      · exact ih (pool.addRef block (-1)) _ _

/-- Returned blocks are threaded in: they are distinct and not in the queue
when the pool accounts for their references. -/
theorem freeBlocks_view {blocks : List BlockId} {refs : BlockId → ℕ}
    (hqueue : pool.freeBlockQueue.Represents order)
    (haccounts : (pool.view order).Accounts
      fun block => refs block + blocks.count block)
    (hrun : pool.freeBlocks blocks = .ok pool') :
    ∃ order', (pool.view order).freeBlocks blocks = pool'.view order' ∧
      pool'.freeBlockQueue.Represents order' := by
  have hloop := freeLoop_view pool order [] [] blocks
  obtain ⟨hfinal, -⟩ := BlockPool.freeLoop_accounts (pool.view order) refs
    [] [] blocks (by simpa using haccounts)
  rw [hloop.1] at hfinal
  have hnodup : ((pool.freeLoop [] [] blocks).2.1 ++ order ++
      (pool.freeLoop [] [] blocks).2.2).Nodup := by
    refine (List.Perm.nodup_iff ?_).mp hfinal.nodup
    rw [← List.append_assoc]
    exact List.perm_append_comm.append_right _
  simp only [freeBlocks, bind_eq_ok, pure_eq_ok] at hrun
  obtain ⟨queue, hprepend, queue', happend, rfl⟩ := hrun
  rw [← hloop.2] at hqueue
  obtain ⟨first, hfirst, hfirstQueue, hfirstCount⟩ :=
    hqueue.prependN (List.nodup_append.mp hnodup).1
  rw [Except.ok.inj (hprepend.symm.trans hfirst)] at happend
  obtain ⟨last, hlast, hlastQueue, hlastCount⟩ :=
    hfirstQueue.appendN hnodup
  rw [Except.ok.inj (happend.symm.trans hlast)]
  refine ⟨_, ?_, hlastQueue⟩
  simp only [BlockPool.freeBlocks, hloop.1]
  simp only [view, withQueue, BlockPool.withQueue,
    FreeKVCacheBlockQueue.prependN, FreeKVCacheBlockQueue.appendN,
    hlastCount, hfirstCount]

end GlmFlash.Cache.LinkedPool
