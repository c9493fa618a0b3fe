import GlmFlash.Cache.BlockPool

/-!
# Reference accounting of the block pool

A pool accounts for `refs` when every block but the null block carries exactly
`refs` references and the free queue holds exactly the blocks without one, each
once.  Every operation of the pool moves the accounted amount by the blocks it
was given or hands out; the operations on hashes do not move it at all.
-/

set_option linter.unusedSectionVars false

namespace GlmFlash.Cache.BlockPool

open GlmFlash.Library

variable {H : Type} [DecidableEq H]

/-- `free` lists exactly the unreferenced blocks of the pool. -/
structure AccountsWith (pool : BlockPool H) (refs : BlockId → ℕ)
    (free : List BlockId) : Prop where
  refCnt_eq : ∀ block ≠ nullBlock, pool.refCnt block = refs block
  lt_of_pos : ∀ block ≠ nullBlock, 0 < refs block → block < pool.numGpuBlocks
  nodup : free.Nodup
  mem_free : ∀ block, block ∈ free ↔
    block ≠ nullBlock ∧ block < pool.numGpuBlocks ∧ refs block = 0

/-- The pool accounts for `refs` references of each block. -/
abbrev Accounts (pool : BlockPool H) (refs : BlockId → ℕ) : Prop :=
  AccountsWith pool refs pool.freeBlockQueue.order

/-- The counter kept beside the free queue is its length. -/
def Counted (pool : BlockPool H) : Prop :=
  pool.freeBlockQueue.numFreeBlocks = pool.freeBlockQueue.order.length

theorem AccountsWith.congr {pool : BlockPool H} {refs refs' : BlockId → ℕ}
    {free : List BlockId} (haccounts : AccountsWith pool refs free)
    (heq : ∀ block ≠ nullBlock, refs block = refs' block) :
    AccountsWith pool refs' free where
  refCnt_eq block hnull := by
    rw [haccounts.refCnt_eq block hnull, heq block hnull]
  lt_of_pos block hnull hpos :=
    haccounts.lt_of_pos block hnull (by rwa [heq block hnull])
  nodup := haccounts.nodup
  mem_free block := by
    rw [haccounts.mem_free block]
    refine and_congr_right fun hnull => ?_
    rw [heq block hnull]

/-- An unreferenced proper block is free. -/
theorem AccountsWith.mem_of_unreferenced {pool : BlockPool H}
    {refs : BlockId → ℕ} {free : List BlockId}
    (haccounts : AccountsWith pool refs free) {block : BlockId}
    (hnull : block ≠ nullBlock) (hlt : block < pool.numGpuBlocks)
    (hzero : refs block = 0) : block ∈ free :=
  (haccounts.mem_free block).mpr ⟨hnull, hlt, hzero⟩

theorem accounts_init (numGpuBlocks : ℕ) (hpos : 0 < numGpuBlocks)
    (enableCaching : Bool) (hashBlockSize : ℕ) :
    Accounts (init numGpuBlocks enableCaching hashBlockSize : BlockPool H)
      (fun _ => 0) := by
  obtain ⟨predecessor, rfl⟩ := Nat.exists_eq_succ_of_ne_zero hpos.ne'
  refine ⟨fun _ _ => rfl, fun _ _ hpos => absurd hpos (lt_irrefl 0), ?_, ?_⟩
  · exact (List.nodup_range).tail
  · intro block
    cases block with
    | zero => simp [init, List.range_succ_eq_map, nullBlock]
    | succ index => simp [init, List.range_succ_eq_map, nullBlock]

theorem counted_init (numGpuBlocks : ℕ) (hpos : 0 < numGpuBlocks)
    (enableCaching : Bool) (hashBlockSize : ℕ) :
    Counted (init numGpuBlocks enableCaching hashBlockSize : BlockPool H) := by
  simp only [Counted, init, List.length_tail, List.length_range]
  omega

/-! ## Reference updates -/

@[simp]
theorem refCnt_addRef (pool : BlockPool H) (block other : BlockId) (delta : ℤ) :
    (pool.addRef block delta).refCnt other =
      pool.refCnt other + if other = block then delta else 0 := by
  by_cases hother : other = block
  · subst hother
    simp [addRef, refCnt]
  · simp [addRef, refCnt, hother]

@[simp]
theorem freeBlockQueue_addRef (pool : BlockPool H) (block : BlockId)
    (delta : ℤ) : (pool.addRef block delta).freeBlockQueue =
      pool.freeBlockQueue := rfl

@[simp]
theorem numGpuBlocks_addRef (pool : BlockPool H) (block : BlockId)
    (delta : ℤ) : (pool.addRef block delta).numGpuBlocks =
      pool.numGpuBlocks := rfl

@[simp]
theorem freeBlockQueue_withQueue (pool : BlockPool H)
    (queue : FreeKVCacheBlockQueue) :
    (pool.withQueue queue).freeBlockQueue = queue := rfl

/-- What no operation of a pool changes. -/
def config (pool : BlockPool H) : ℕ × Bool × ℕ :=
  (pool.numGpuBlocks, pool.enableCaching, pool.hashBlockSize)

variable {pool pool' : BlockPool H}

theorem numGpuBlocks_of_config (hconfig : pool'.config = pool.config) :
    pool'.numGpuBlocks = pool.numGpuBlocks :=
  congrArg Prod.fst hconfig

@[simp]
theorem config_addRef (pool : BlockPool H) (block : BlockId) (delta : ℤ) :
    (pool.addRef block delta).config = pool.config := rfl

@[simp]
theorem config_withQueue (pool : BlockPool H)
    (queue : FreeKVCacheBlockQueue) :
    (pool.withQueue queue).config = pool.config := rfl

/-- Two pools with the same reference counts, queue and configuration account
for the same amounts. -/
structure SameRefs (pool pool' : BlockPool H) : Prop where
  refCnt_eq : ∀ block, pool'.refCnt block = pool.refCnt block
  queue_eq : pool'.freeBlockQueue = pool.freeBlockQueue
  config_eq : pool'.config = pool.config

theorem SameRefs.refl (pool : BlockPool H) : SameRefs pool pool :=
  ⟨fun _ => rfl, rfl, rfl⟩

theorem SameRefs.trans {first second third : BlockPool H}
    (hfirst : SameRefs first second) (hsecond : SameRefs second third) :
    SameRefs first third :=
  ⟨fun block => (hsecond.refCnt_eq block).trans (hfirst.refCnt_eq block),
    hsecond.queue_eq.trans hfirst.queue_eq,
    hsecond.config_eq.trans hfirst.config_eq⟩

theorem SameRefs.numGpuBlocks_eq (hsame : SameRefs pool pool') :
    pool'.numGpuBlocks = pool.numGpuBlocks :=
  numGpuBlocks_of_config hsame.config_eq

theorem SameRefs.accountsWith {refs : BlockId → ℕ} {free : List BlockId}
    (hsame : SameRefs pool pool') (haccounts : AccountsWith pool refs free) :
    AccountsWith pool' refs free where
  refCnt_eq block hnull := by
    rw [hsame.refCnt_eq, haccounts.refCnt_eq block hnull]
  lt_of_pos block hnull hpos := by
    rw [hsame.numGpuBlocks_eq]
    exact haccounts.lt_of_pos block hnull hpos
  nodup := haccounts.nodup
  mem_free block := by
    rw [hsame.numGpuBlocks_eq]
    exact haccounts.mem_free block

theorem SameRefs.accounts {refs : BlockId → ℕ}
    (hsame : SameRefs pool pool') (haccounts : Accounts pool refs) :
    Accounts pool' refs := by
  have hwith := hsame.accountsWith haccounts
  rwa [← hsame.queue_eq] at hwith

/-! ## Operations on hashes -/

theorem sameRefs_resetHash (pool : BlockPool H) (block : BlockId) :
    SameRefs pool (pool.resetHash block) := by
  refine ⟨fun other => ?_, rfl, rfl⟩
  by_cases hother : other = block
  · subst hother
    simp [resetHash, refCnt]
  · simp [resetHash, refCnt, hother]

theorem sameRefs_popHashes (pool : BlockPool H) (block : BlockId)
    (keys : List (BlockHashWithGroupId H)) :
    SameRefs pool (pool.popHashes block keys).1 := by
  induction keys generalizing pool with
  | nil => exact SameRefs.refl pool
  | cons key keys ih =>
      have hfirst : SameRefs pool (pool.popHash key block).1 :=
        ⟨fun _ => rfl, rfl, rfl⟩
      exact hfirst.trans (ih (pool.popHash key block).1)

theorem sameRefs_removeCachedBlockHashes (pool : BlockPool H)
    (block : BlockId) :
    SameRefs pool (pool.removeCachedBlockHashes block).1 := by
  have hdrop : SameRefs pool { pool with
      cachedBlockHashesByBlock :=
        Function.update pool.cachedBlockHashesByBlock block [] } :=
    ⟨fun _ => rfl, rfl, rfl⟩
  unfold removeCachedBlockHashes
  dsimp only
  split
  · exact hdrop
  · exact hdrop.trans ((sameRefs_popHashes _ block _).trans
      (sameRefs_resetHash _ block))

theorem sameRefs_maybeEvictCachedBlock (pool : BlockPool H)
    (block : BlockId) :
    SameRefs pool (pool.maybeEvictCachedBlock block) :=
  sameRefs_removeCachedBlockHashes pool block

theorem sameRefs_insertBlockHash (pool : BlockPool H)
    (key : BlockHashWithGroupId H) (block : BlockId) (numTokens : Option ℕ) :
    SameRefs pool (pool.insertBlockHash key block numTokens) := by
  unfold insertBlockHash
  split
  · exact SameRefs.refl pool
  · split
    · exact SameRefs.refl pool
    · split
      · refine ⟨fun other => ?_, rfl, rfl⟩
        by_cases hother : other = block
        · subst hother
          simp [refCnt]
        · simp [refCnt, hother]
      · exact ⟨fun _ => rfl, rfl, rfl⟩

theorem sameRefs_insertBlockHashes (pool : BlockPool H) (block : BlockId)
    (numTokens : Option ℕ) (keys : List (BlockHashWithGroupId H)) :
    SameRefs pool (pool.insertBlockHashes block numTokens keys) := by
  induction keys generalizing pool with
  | nil => exact SameRefs.refl pool
  | cons key keys ih =>
      exact (sameRefs_insertBlockHash pool key block numTokens).trans (ih _)

theorem sameRefs_cacheFullBlock
    {key : BlockHashWithGroupId H} {block : BlockId} {numHashTokens : ℕ}
    (hcache : pool.cacheFullBlock key block numHashTokens = .ok pool') :
    SameRefs pool pool' := by
  unfold cacheFullBlock at hcache
  split at hcache
  · simp only [Except.ok.injEq] at hcache
    exact hcache ▸ sameRefs_insertBlockHash pool key block _
  · simp only [bind_eq_ok, require_eq_ok, pure_eq_ok] at hcache
    obtain ⟨_, -, rfl⟩ := hcache
    exact (sameRefs_removeCachedBlockHashes pool block).trans
      (sameRefs_insertBlockHash _ key block _)

theorem sameRefs_cacheFullLoop
    {blockHashes : List H} {blockSize groupId numCachedBlocks i : ℕ}
    {blockMask : Option (List Bool)} {blocks : List BlockId}
    (hcache : pool.cacheFullLoop blockHashes blockSize groupId numCachedBlocks
      blockMask i blocks = .ok pool') :
    SameRefs pool pool' := by
  induction blocks generalizing pool i with
  | nil =>
      simp only [cacheFullLoop, Except.ok.injEq] at hcache
      exact hcache ▸ SameRefs.refl pool
  | cons block rest ih =>
      rw [cacheFullLoop] at hcache
      split at hcache
      · exact ih hcache
      · split at hcache
        · simp at hcache
        · rw [bind_eq_ok] at hcache
          obtain ⟨middle, hblock, hrest⟩ := hcache
          exact (sameRefs_cacheFullBlock hblock).trans (ih hrest)

theorem sameRefs_cacheFullBlocks
    {blockHashes : List H} {blocks : List BlockId}
    {numCachedBlocks numFullBlocks blockSize groupId : ℕ}
    {blockMask : Option (List Bool)}
    (hcache : pool.cacheFullBlocks blockHashes blocks numCachedBlocks
      numFullBlocks blockSize groupId blockMask = .ok pool') :
    SameRefs pool pool' := by
  unfold cacheFullBlocks at hcache
  split at hcache
  · simp only [Except.ok.injEq] at hcache
    exact hcache ▸ SameRefs.refl pool
  · simp only [bind_eq_ok, require_eq_ok] at hcache
    obtain ⟨_, -, _, -, hloop⟩ := hcache
    exact sameRefs_cacheFullLoop hloop

theorem sameRefs_cachePartialBlock {blockHashes : List H} {block : BlockId}
    {numTokens groupId blockSize : ℕ}
    {partialHash : Option (BlockHashWithGroupId H)}
    (hcache : pool.cachePartialBlock blockHashes block numTokens groupId
      blockSize = .ok (pool', partialHash)) :
    SameRefs pool pool' := by
  unfold cachePartialBlock at hcache
  split at hcache
  · simp only [Except.ok.injEq, Prod.mk.injEq] at hcache
    exact hcache.1 ▸ SameRefs.refl pool
  · simp only [bind_eq_ok, require_eq_ok] at hcache
    obtain ⟨_, -, _, -, _, -, _, -, _, -, hmatch⟩ := hcache
    split at hmatch
    · simp at hmatch
    · simp only [pure_eq_ok, Prod.mk.injEq] at hmatch
      obtain ⟨rfl, -⟩ := hmatch
      split
      · exact (sameRefs_removeCachedBlockHashes pool block).trans
          (sameRefs_insertBlockHash _ _ block _)
      · exact sameRefs_insertBlockHash pool _ block _

theorem sameRefs_moveBlockHashes {srcBlock dstBlock : BlockId}
    (hmove : pool.moveBlockHashes srcBlock dstBlock = .ok pool') :
    SameRefs pool pool' := by
  simp only [moveBlockHashes, bind_eq_ok, require_eq_ok, pure_eq_ok] at hmove
  obtain ⟨_, -, _, -, rfl⟩ := hmove
  exact (sameRefs_removeCachedBlockHashes pool srcBlock).trans
    (sameRefs_insertBlockHashes _ dstBlock _ _)

theorem sameRefs_evictBlocks
    {blocks : List BlockId} (hevict : pool.evictBlocks blocks = .ok pool') :
    SameRefs pool pool' := by
  induction blocks generalizing pool with
  | nil =>
      simp only [evictBlocks, Except.ok.injEq] at hevict
      exact hevict ▸ SameRefs.refl pool
  | cons block rest ih =>
      simp only [evictBlocks, bind_eq_ok, require_eq_ok] at hevict
      obtain ⟨_, -, hrest⟩ := hevict
      exact (sameRefs_maybeEvictCachedBlock pool block).trans (ih hrest)

theorem sameRefs_resetPrefixCache (pool : BlockPool H) :
    SameRefs pool pool.resetPrefixCache.1 := by
  unfold resetPrefixCache
  split
  · exact SameRefs.refl pool
  · exact ⟨fun _ => rfl, rfl, rfl⟩

/-! ## Moving single references -/

theorem AccountsWith.perm {pool : BlockPool H} {refs : BlockId → ℕ}
    {free free' : List BlockId} (haccounts : AccountsWith pool refs free)
    (hperm : free.Perm free') : AccountsWith pool refs free' where
  refCnt_eq := haccounts.refCnt_eq
  lt_of_pos := haccounts.lt_of_pos
  nodup := hperm.nodup_iff.mp haccounts.nodup
  mem_free block := by
    rw [← hperm.mem_iff, haccounts.mem_free block]

theorem AccountsWith.withQueue {pool : BlockPool H} {refs : BlockId → ℕ}
    {free : List BlockId} (haccounts : AccountsWith pool refs free)
    (queue : FreeKVCacheBlockQueue) :
    AccountsWith (pool.withQueue queue) refs free :=
  ⟨haccounts.refCnt_eq, haccounts.lt_of_pos, haccounts.nodup,
    haccounts.mem_free⟩

private theorem count_singleton_ne {block other : BlockId}
    (hne : other ≠ block) : [block].count other = 0 :=
  List.count_eq_zero_of_not_mem (by simpa using hne)

/-- One reference more, and the block leaves the free list. -/
theorem AccountsWith.take {pool : BlockPool H} {refs : BlockId → ℕ}
    {free : List BlockId} {block : BlockId}
    (haccounts : AccountsWith pool refs (block :: free)) :
    AccountsWith (pool.addRef block 1)
      (fun other => refs other + [block].count other) free := by
  obtain ⟨hnull, hlt, hzero⟩ :=
    (haccounts.mem_free block).mp List.mem_cons_self
  have hnodup := List.nodup_cons.mp haccounts.nodup
  refine ⟨fun other hother => ?_, fun other hother hpos => ?_, hnodup.2,
    fun other => ?_⟩
  · rw [refCnt_addRef, haccounts.refCnt_eq other hother]
    by_cases hblock : other = block
    · simp [hblock]
    · simp [hblock, count_singleton_ne hblock]
  · by_cases hblock : other = block
    · exact hblock ▸ hlt
    · refine haccounts.lt_of_pos other hother ?_
      rwa [count_singleton_ne hblock, Nat.add_zero] at hpos
  · rw [numGpuBlocks_addRef]
    by_cases hblock : other = block
    · subst hblock
      simp [hnodup.1]
    · rw [count_singleton_ne hblock, Nat.add_zero,
        ← haccounts.mem_free other, List.mem_cons]
      simp [hblock]

/-- One more reference of a block that is in use already, or of the null
block. -/
theorem AccountsWith.retain {pool : BlockPool H} {refs : BlockId → ℕ}
    {free : List BlockId} (haccounts : AccountsWith pool refs free)
    (block : BlockId) (huse : block ≠ nullBlock → 0 < refs block) :
    AccountsWith (pool.addRef block 1)
      (fun other => refs other + [block].count other) free := by
  refine ⟨fun other hother => ?_, fun other hother hpos => ?_,
    haccounts.nodup, fun other => ?_⟩
  · rw [refCnt_addRef, haccounts.refCnt_eq other hother]
    by_cases hblock : other = block
    · simp [hblock]
    · simp [hblock, count_singleton_ne hblock]
  · refine haccounts.lt_of_pos other hother ?_
    by_cases hblock : other = block
    · exact hblock ▸ huse (hblock ▸ hother)
    · rwa [count_singleton_ne hblock, Nat.add_zero] at hpos
  · rw [numGpuBlocks_addRef, haccounts.mem_free other]
    refine and_congr_right fun hother => and_congr_right fun _ => ?_
    by_cases hblock : other = block
    · have hpos := huse (hblock ▸ hother)
      subst hblock
      simp
      omega
    · rw [count_singleton_ne hblock, Nat.add_zero]

/-- One reference less; the block becomes free when it was the last one. -/
theorem AccountsWith.release {pool : BlockPool H} {refs : BlockId → ℕ}
    {free : List BlockId} {block : BlockId}
    (haccounts : AccountsWith pool
      (fun other => refs other + [block].count other) free) :
    AccountsWith (pool.addRef block (-1)) refs
      (if (pool.addRef block (-1)).refCnt block = 0 ∧ block ≠ nullBlock
        then block :: free else free) := by
  have hafter : block ≠ nullBlock →
      (pool.addRef block (-1)).refCnt block = (refs block : ℤ) := by
    intro hnull
    rw [refCnt_addRef, haccounts.refCnt_eq block hnull]
    simp
  refine ⟨fun other hother => ?_, fun other hother hpos => ?_, ?_,
    fun other => ?_⟩
  · by_cases hblock : other = block
    · subst hblock
      exact hafter hother
    · rw [refCnt_addRef, haccounts.refCnt_eq other hother,
        count_singleton_ne hblock]
      simp [hblock]
  · exact haccounts.lt_of_pos other hother (by omega)
  · split
    · refine List.nodup_cons.mpr ⟨fun hmem => ?_, haccounts.nodup⟩
      have hzero := ((haccounts.mem_free block).mp hmem).2.2
      simp at hzero
    · exact haccounts.nodup
  · rw [numGpuBlocks_addRef]
    by_cases hblock : other = block
    · subst hblock
      split
      · next hfree =>
          have hlt := haccounts.lt_of_pos other hfree.2 (by simp)
          have hzero := hafter hfree.2
          rw [hfree.1] at hzero
          simp [hfree.2, hlt]
          omega
      · next hfree =>
          rw [haccounts.mem_free other]
          refine and_congr_right fun hother => and_congr_right fun _ => ?_
          rw [hafter hother] at hfree
          simp only [hother, ne_eq, not_false_eq_true, and_true] at hfree
          simp
          omega
    · have hmem := haccounts.mem_free other
      simp only [count_singleton_ne hblock, Nat.add_zero] at hmem
      rw [← hmem]
      split <;> simp [hblock]

/-! ## Taking blocks -/

theorem handOut_accounts {refs : BlockId → ℕ}
    {ret free : List BlockId} (hrun : pool.handOut ret = .ok pool')
    (haccounts : AccountsWith pool refs (ret ++ free)) :
    AccountsWith pool' (fun block => refs block + ret.count block) free ∧
      pool'.freeBlockQueue = pool.freeBlockQueue ∧
      pool'.config = pool.config := by
  induction ret generalizing pool refs with
  | nil =>
      simp only [handOut, Except.ok.injEq] at hrun
      subst hrun
      exact ⟨by simpa using haccounts, rfl, rfl⟩
  | cons block rest ih =>
      simp only [handOut, bind_eq_ok, require_eq_ok] at hrun
      obtain ⟨_, -, hrest⟩ := hrun
      set evicted : BlockPool H :=
        if pool.enableCaching then pool.maybeEvictCachedBlock block
        else pool with hevicted
      have hsame : SameRefs pool evicted := by
        rw [hevicted]
        split
        · exact sameRefs_maybeEvictCachedBlock pool block
        · exact SameRefs.refl pool
      have hcovered : AccountsWith evicted refs (block :: (rest ++ free)) :=
        hsame.accountsWith haccounts
      obtain ⟨hfinal, hqueue, hsize⟩ := ih hrest hcovered.take
      refine ⟨hfinal.congr fun other _ => ?_, ?_, ?_⟩
      · simp only [List.count_cons, List.count_nil]
        omega
      · rw [hqueue, freeBlockQueue_addRef, hsame.queue_eq]
      · rw [hsize, config_addRef, hsame.config_eq]

/-- What `get_new_blocks` hands out: distinct blocks nobody refers to, each
with one reference. -/
structure HandedOut (pool pool' : BlockPool H) (refs : BlockId → ℕ)
    (numBlocks : ℤ) (ret : List BlockId) : Prop where
  accounts : Accounts pool' fun block => refs block + ret.count block
  length_eq : ret.length = numBlocks.toNat
  nodup : ret.Nodup
  fresh : ∀ block ∈ ret,
    block ≠ nullBlock ∧ block < pool.numGpuBlocks ∧ refs block = 0
  numFree_eq : pool'.getNumFreeBlocks = pool.getNumFreeBlocks - numBlocks

private theorem popleftN_split {queue queue' : FreeKVCacheBlockQueue} {n : ℤ}
    {ret : List BlockId} (hpop : queue.popleftN n = .ok (ret, queue')) :
    ret ++ queue'.order = queue.order ∧ ret.length = n.toNat ∧
      queue'.numFreeBlocks = queue.numFreeBlocks - n := by
  unfold FreeKVCacheBlockQueue.popleftN at hpop
  split at hpop
  · next hzero =>
      simp only [Except.ok.injEq, Prod.mk.injEq] at hpop
      obtain ⟨rfl, rfl⟩ := hpop
      simp [hzero]
  · split at hpop
    · simp at hpop
    · next hlong =>
        simp only [Except.ok.injEq, Prod.mk.injEq] at hpop
        obtain ⟨rfl, rfl⟩ := hpop
        refine ⟨List.take_append_drop _ _, ?_, rfl⟩
        rw [List.length_take]
        omega

theorem length_getNewBlocks {numBlocks : ℤ} {ret : List BlockId}
    (hrun : pool.getNewBlocks numBlocks = .ok (ret, pool')) :
    ret.length = numBlocks.toNat := by
  simp only [getNewBlocks, bind_eq_ok, pure_eq_ok, Prod.exists,
    Prod.mk.injEq] at hrun
  obtain ⟨_, -, _, _, hpop, _, -, rfl, -⟩ := hrun
  exact (popleftN_split hpop).2.1

theorem getNewBlocks_handedOut
    {refs : BlockId → ℕ} {numBlocks : ℤ} {ret : List BlockId}
    (hrun : pool.getNewBlocks numBlocks = .ok (ret, pool'))
    (haccounts : Accounts pool refs) :
    HandedOut pool pool' refs numBlocks ret := by
  simp only [getNewBlocks, bind_eq_ok, require_eq_ok, pure_eq_ok,
    Prod.exists, Prod.mk.injEq] at hrun
  obtain ⟨_, -, popped, queue, hpop, final, hhand, rfl, rfl⟩ := hrun
  obtain ⟨hsplit, hlength, hcounter⟩ := popleftN_split hpop
  have hstart : AccountsWith (pool.withQueue queue) refs
      (popped ++ queue.order) := by
    rw [hsplit]
    exact haccounts.withQueue queue
  obtain ⟨hfinal, hqueue, -⟩ := handOut_accounts hhand hstart
  rw [freeBlockQueue_withQueue] at hqueue
  have hnodup := haccounts.nodup
  rw [← hsplit, List.nodup_append] at hnodup
  refine ⟨?_, hlength, hnodup.1, fun block hmem => ?_, ?_⟩
  · rw [Accounts, hqueue]
    exact hfinal
  · refine (haccounts.mem_free block).mp ?_
    rw [← hsplit]
    exact List.mem_append_left _ hmem
  · rw [getNumFreeBlocks, hqueue, hcounter, getNumFreeBlocks]

theorem touchBlock_accounts {refs : BlockId → ℕ}
    {block : BlockId} (hrun : pool.touchBlock block = .ok pool')
    (haccounts : Accounts pool refs) :
    Accounts pool' fun other => refs other + [block].count other := by
  unfold touchBlock at hrun
  split at hrun
  · simp only [bind_eq_ok, pure_eq_ok] at hrun
    obtain ⟨queue, hqueue, rfl⟩ := hrun
    unfold FreeKVCacheBlockQueue.remove at hqueue
    split at hqueue
    · next hmem =>
        simp only [Except.ok.injEq] at hqueue
        subst hqueue
        exact ((haccounts.perm
          (List.perm_cons_erase hmem)).withQueue _).take
    · simp at hqueue
  · next hused =>
      simp only [Except.ok.injEq] at hrun
      subst hrun
      refine haccounts.retain block fun hnull => ?_
      rw [haccounts.refCnt_eq block hnull] at hused
      have hne : ((refs block : ℕ) : ℤ) ≠ 0 :=
        fun hzero => hused ⟨hzero, hnull⟩
      omega

theorem touch_accounts {refs : BlockId → ℕ}
    {blocks : List BlockId} (hrun : pool.touch blocks = .ok pool')
    (haccounts : Accounts pool refs) :
    Accounts pool' fun block => refs block + blocks.count block := by
  induction blocks generalizing pool refs with
  | nil =>
      simp only [touch, Except.ok.injEq] at hrun
      subst hrun
      exact haccounts.congr fun block _ => by simp
  | cons block rest ih =>
      simp only [touch, bind_eq_ok] at hrun
      obtain ⟨middle, hblock, hrest⟩ := hrun
      have hmiddle := touchBlock_accounts hblock haccounts
      refine (ih hrest hmiddle).congr fun other _ => ?_
      simp only [List.count_cons, List.count_nil]
      omega

/-! ## Returning blocks -/

theorem freeLoop_accounts (pool : BlockPool H) (refs : BlockId → ℕ)
    (evictFirst evictLast blocks : List BlockId)
    (haccounts : AccountsWith pool
      (fun block => refs block + blocks.count block)
      (pool.freeBlockQueue.order ++ (evictFirst ++ evictLast))) :
    let result := pool.freeLoop evictFirst evictLast blocks
    AccountsWith result.1 refs
        (pool.freeBlockQueue.order ++ (result.2.1 ++ result.2.2)) ∧
      result.1.freeBlockQueue = pool.freeBlockQueue := by
  induction blocks generalizing pool evictFirst evictLast with
  | nil => exact ⟨by simpa [freeLoop] using haccounts, rfl⟩
  | cons block rest ih =>
      have hstart : AccountsWith pool
          (fun other => (refs other + rest.count other) + [block].count other)
          (pool.freeBlockQueue.order ++ (evictFirst ++ evictLast)) :=
        haccounts.congr fun other _ => by
          simp only [List.count_cons, List.count_nil]
          omega
      have hstep := hstart.release
      unfold freeLoop
      dsimp only
      split at hstep
      · next hfree =>
          rw [if_pos hfree]
          split
          · refine ih _ _ _ (hstep.perm ?_)
            rw [freeBlockQueue_addRef]
            simp only [List.append_assoc, List.singleton_append]
            exact List.perm_middle.symm.trans
              (List.Perm.append_left _ List.perm_middle.symm)
          · refine ih _ _ _ (hstep.perm ?_)
            rw [freeBlockQueue_addRef]
            simp only [← List.append_assoc]
            exact (List.perm_append_singleton _ _).symm
      · next hfree =>
          rw [if_neg hfree]
          exact ih _ _ _ hstep

/-- Returning blocks gives back exactly the references they stood for. -/
theorem freeBlocks_accounts {pool : BlockPool H} {refs : BlockId → ℕ}
    {blocks : List BlockId}
    (haccounts : Accounts pool fun block => refs block + blocks.count block) :
    Accounts (pool.freeBlocks blocks) refs := by
  obtain ⟨hfinal, hqueue⟩ := freeLoop_accounts pool refs [] [] blocks
    (by simpa using haccounts)
  unfold freeBlocks
  dsimp only
  refine (hfinal.withQueue _).perm ?_
  simp only [freeBlockQueue_withQueue, FreeKVCacheBlockQueue.appendN,
    FreeKVCacheBlockQueue.prependN, hqueue]
  rw [← List.append_assoc]
  exact (List.perm_append_comm).append_right _

/-! ## Configuration -/

private theorem config_handOut {pool pool' : BlockPool H}
    {ret : List BlockId} (hrun : pool.handOut ret = .ok pool') :
    pool'.config = pool.config := by
  induction ret generalizing pool with
  | nil =>
      simp only [handOut, Except.ok.injEq] at hrun
      rw [hrun]
  | cons block rest ih =>
      simp only [handOut, bind_eq_ok, require_eq_ok] at hrun
      obtain ⟨_, -, hrest⟩ := hrun
      rw [ih hrest, config_addRef]
      split
      · exact (sameRefs_maybeEvictCachedBlock pool block).config_eq
      · rfl

theorem config_getNewBlocks {numBlocks : ℤ} {ret : List BlockId}
    (hrun : pool.getNewBlocks numBlocks = .ok (ret, pool')) :
    pool'.config = pool.config := by
  simp only [getNewBlocks, bind_eq_ok, pure_eq_ok, Prod.exists,
    Prod.mk.injEq] at hrun
  obtain ⟨_, -, _, _, -, _, hhand, rfl, rfl⟩ := hrun
  rw [config_handOut hhand, config_withQueue]

theorem config_touch {blocks : List BlockId}
    (hrun : pool.touch blocks = .ok pool') : pool'.config = pool.config := by
  induction blocks generalizing pool with
  | nil =>
      simp only [touch, Except.ok.injEq] at hrun
      rw [hrun]
  | cons block rest ih =>
      simp only [touch, bind_eq_ok] at hrun
      obtain ⟨middle, hblock, hrest⟩ := hrun
      rw [ih hrest]
      unfold touchBlock at hblock
      split at hblock
      · simp only [bind_eq_ok, pure_eq_ok] at hblock
        obtain ⟨_, -, rfl⟩ := hblock
        rfl
      · simp only [Except.ok.injEq] at hblock
        rw [← hblock, config_addRef]

private theorem config_freeLoop (pool : BlockPool H)
    (evictFirst evictLast blocks : List BlockId) :
    (pool.freeLoop evictFirst evictLast blocks).1.config = pool.config := by
  induction blocks generalizing pool evictFirst evictLast with
  | nil => rfl
  | cons block rest ih =>
      rw [freeLoop]
      split
      · split <;> rw [ih, config_addRef]
      · rw [ih, config_addRef]

@[simp]
theorem config_freeBlocks (pool : BlockPool H) (blocks : List BlockId) :
    (pool.freeBlocks blocks).config = pool.config :=
  config_freeLoop pool [] [] blocks

end GlmFlash.Cache.BlockPool
