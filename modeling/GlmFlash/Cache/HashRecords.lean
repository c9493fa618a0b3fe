import GlmFlash.Cache.PoolCapacity
import Mathlib.Data.List.Nodup

/-!
# The hash map and the blocks' own records

A key leads to a block exactly when the block records it, as its primary hash
or among its extra ones.  Every operation of the pool that touches hashes keeps
the two sides inverse to each other.
-/

namespace GlmFlash.Cache.BlockPool

open GlmFlash.Library

variable {H : Type} {pool pool' : BlockPool H}

/-- The block records the key. -/
def Records (pool : BlockPool H) (block : BlockId)
    (key : BlockHashWithGroupId H) : Prop :=
  pool.blockHash block = some key ∨
    key ∈ pool.cachedBlockHashesByBlock block

structure Inverse (pool : BlockPool H) : Prop where
  mem_iff : ∀ key block,
    block ∈ pool.cachedBlockHashToBlock key ↔ pool.Records block key
  nodup : ∀ key, (pool.cachedBlockHashToBlock key).Nodup
  primary : ∀ block, pool.blockHash block = none →
    pool.cachedBlockHashesByBlock block = []

/-- Without prefix caching nothing is cached. -/
def Gated (pool : BlockPool H) : Prop :=
  pool.enableCaching = false →
    ∀ key, pool.cachedBlockHashToBlock key = []

/-- No key leads to the block. -/
def Unreachable (pool : BlockPool H) (block : BlockId) : Prop :=
  ∀ key, block ∉ pool.cachedBlockHashToBlock key

/-- The operation does not touch hashes. -/
structure SameHashes (pool pool' : BlockPool H) : Prop where
  hash_eq : ∀ block, pool'.blockHash block = pool.blockHash block
  extra_eq : pool'.cachedBlockHashesByBlock = pool.cachedBlockHashesByBlock
  map_eq : pool'.cachedBlockHashToBlock = pool.cachedBlockHashToBlock
  caching_eq : pool'.enableCaching = pool.enableCaching

theorem SameHashes.refl (pool : BlockPool H) : SameHashes pool pool :=
  ⟨fun _ => rfl, rfl, rfl, rfl⟩

theorem SameHashes.trans {first second third : BlockPool H}
    (hfirst : SameHashes first second) (hsecond : SameHashes second third) :
    SameHashes first third where
  hash_eq block := (hsecond.hash_eq block).trans (hfirst.hash_eq block)
  extra_eq := hsecond.extra_eq.trans hfirst.extra_eq
  map_eq := hsecond.map_eq.trans hfirst.map_eq
  caching_eq := hsecond.caching_eq.trans hfirst.caching_eq

theorem SameHashes.inverse (hsame : SameHashes pool pool')
    (hinverse : Inverse pool) : Inverse pool' where
  mem_iff key block := by
    rw [hsame.map_eq, Records, hsame.hash_eq, hsame.extra_eq]
    exact hinverse.mem_iff key block
  nodup key := by
    rw [hsame.map_eq]
    exact hinverse.nodup key
  primary block hnone := by
    rw [hsame.hash_eq] at hnone
    rw [hsame.extra_eq]
    exact hinverse.primary block hnone

theorem SameHashes.gated (hsame : SameHashes pool pool')
    (hgated : Gated pool) : Gated pool' := by
  intro hcaching key
  rw [hsame.caching_eq] at hcaching
  rw [hsame.map_eq]
  exact hgated hcaching key

theorem Inverse.unreachable_iff (hinverse : Inverse pool)
    (block : BlockId) :
    pool.Unreachable block ↔ pool.blockHash block = none := by
  constructor
  · intro hunreachable
    cases hhash : pool.blockHash block with
    | none => rfl
    | some key =>
        exact absurd ((hinverse.mem_iff key block).mpr (.inl hhash))
          (hunreachable key)
  · intro hnone key hmem
    cases (hinverse.mem_iff key block).mp hmem with
    | inl hhash =>
        rw [hnone] at hhash
        cases hhash
    | inr hextra =>
        rw [hinverse.primary block hnone] at hextra
        exact absurd hextra List.not_mem_nil

section Update

variable [DecidableEq H]

omit [DecidableEq H] in
theorem sameHashes_addRef (pool : BlockPool H) (block : BlockId)
    (delta : ℤ) : SameHashes pool (pool.addRef block delta) := by
  refine ⟨?_, rfl, rfl, rfl⟩
  intro other
  by_cases hother : other = block
  · rw [hother]
    simp [addRef, blockHash]
  · simp [addRef, blockHash, hother]

omit [DecidableEq H] in
theorem sameHashes_withQueue (pool : BlockPool H)
    (queue : FreeKVCacheBlockQueue) :
    SameHashes pool (pool.withQueue queue) :=
  ⟨fun _ => rfl, rfl, rfl, rfl⟩

/-- Adding a block under a key adds no other entry. -/
theorem mem_update_append {cached : BlockHashWithGroupId H → List BlockId}
    {key other : BlockHashWithGroupId H} {block owner : BlockId} :
    owner ∈ Function.update cached key (cached key ++ [block]) other ↔
      owner ∈ cached other ∨ other = key ∧ owner = block := by
  by_cases hother : other = key
  · rw [hother, Function.update_self]
    simp
  · rw [Function.update_of_ne hother]
    simp [hother]

theorem nodup_update_append {cached : BlockHashWithGroupId H → List BlockId}
    (hnodup : ∀ key, (cached key).Nodup) {key : BlockHashWithGroupId H}
    {block : BlockId} (hnew : block ∉ cached key)
    (other : BlockHashWithGroupId H) :
    (Function.update cached key (cached key ++ [block]) other).Nodup := by
  by_cases hother : other = key
  · rw [hother, Function.update_self, ← List.concat_eq_append]
    exact (hnodup key).concat hnew
  · rw [Function.update_of_ne hother]
    exact hnodup other

/-- A new key is recorded at its block and entered under itself. -/
theorem Inverse.insertBlockHash (hinverse : Inverse pool)
    (key : BlockHashWithGroupId H) (block : BlockId)
    (numTokens : Option ℕ) :
    Inverse (pool.insertBlockHash key block numTokens) := by
  rw [BlockPool.insertBlockHash]
  split
  · exact hinverse
  · split
    · exact hinverse
    · rename_i hnew
      by_cases hnone : pool.blockHash block = none
      · have hextra := hinverse.primary block hnone
        have hempty : ∀ other, ¬pool.Records block other := by
          intro other
          rw [Records, hnone, hextra]
          simp
        rw [if_pos hnone]
        constructor
        · intro other owner
          change owner ∈ Function.update pool.cachedBlockHashToBlock key
            (pool.cachedBlockHashToBlock key ++ [block]) other ↔ _
          rw [mem_update_append, hinverse.mem_iff]
          by_cases howner : owner = block
          · rw [howner]
            simp only [hempty other, false_or, and_true]
            simp [Records, blockHash, hextra, eq_comm]
          · simp [Records, blockHash, howner]
        · exact nodup_update_append hinverse.nodup hnew
        · intro owner hnone'
          by_cases howner : owner = block
          · rw [howner]
            exact hextra
          · exact hinverse.primary owner (by
              simpa [blockHash, howner] using hnone')
      · rw [if_neg hnone]
        constructor
        · intro other owner
          change owner ∈ Function.update pool.cachedBlockHashToBlock key
            (pool.cachedBlockHashToBlock key ++ [block]) other ↔ _
          rw [mem_update_append, hinverse.mem_iff]
          by_cases howner : owner = block
          · rw [howner]
            simp only [Records, blockHash, and_true, Function.update_self,
              List.mem_insert_iff]
            tauto
          · simp [Records, blockHash, howner]
        · exact nodup_update_append hinverse.nodup hnew
        · intro owner hnone'
          have howner : owner ≠ block := by
            intro hsame
            rw [hsame] at hnone'
            exact hnone hnone'
          change Function.update pool.cachedBlockHashesByBlock block
            ((pool.cachedBlockHashesByBlock block).insert key) owner = []
          rw [Function.update_of_ne howner]
          exact hinverse.primary owner hnone'

theorem Inverse.insertBlockHashes (hinverse : Inverse pool)
    (block : BlockId) (numTokens : Option ℕ)
    (keys : List (BlockHashWithGroupId H)) :
    Inverse (pool.insertBlockHashes block numTokens keys) := by
  induction keys generalizing pool with
  | nil => exact hinverse
  | cons key keys ih => exact ih (hinverse.insertBlockHash key block numTokens)

/-- What popping a block from under some keys leaves. -/
theorem popHashes_map (pool : BlockPool H) (block : BlockId)
    (keys : List (BlockHashWithGroupId H)) {other : BlockHashWithGroupId H}
    (hnodup : (pool.cachedBlockHashToBlock other).Nodup) (owner : BlockId) :
    owner ∈ (pool.popHashes block keys).1.cachedBlockHashToBlock other ↔
      owner ∈ pool.cachedBlockHashToBlock other ∧
        ¬(owner = block ∧ other ∈ keys) := by
  induction keys generalizing pool with
  | nil => simp [popHashes]
  | cons key keys ih =>
      have hpop : ((pool.popHash key block).1.cachedBlockHashToBlock
          other).Nodup := by
        simp only [popHash]
        by_cases hother : other = key
        · rw [hother] at hnodup ⊢
          rw [Function.update_self]
          exact hnodup.erase block
        · rw [Function.update_of_ne hother]
          exact hnodup
      have hlater := ih (pool.popHash key block).1 hpop
      rw [popHashes]
      dsimp only
      rw [hlater]
      change owner ∈ Function.update pool.cachedBlockHashToBlock key
        ((pool.cachedBlockHashToBlock key).erase block) other ∧ _ ↔ _
      by_cases hother : other = key
      · rw [hother] at hnodup ⊢
        rw [Function.update_self, hnodup.mem_erase_iff]
        simp only [List.mem_cons, true_or, and_true]
        tauto
      · rw [Function.update_of_ne hother]
        simp [hother]

theorem popHashes_nodup (pool : BlockPool H) (block : BlockId)
    (keys : List (BlockHashWithGroupId H)) {other : BlockHashWithGroupId H}
    (hnodup : (pool.cachedBlockHashToBlock other).Nodup) :
    ((pool.popHashes block keys).1.cachedBlockHashToBlock other).Nodup := by
  induction keys generalizing pool with
  | nil => exact hnodup
  | cons key keys ih =>
      apply ih
      change (Function.update pool.cachedBlockHashToBlock key
        ((pool.cachedBlockHashToBlock key).erase block) other).Nodup
      by_cases hother : other = key
      · rw [hother] at hnodup ⊢
        rw [Function.update_self]
        exact hnodup.erase block
      · rw [Function.update_of_ne hother]
        exact hnodup

theorem popHashes_records (pool : BlockPool H) (block : BlockId)
    (keys : List (BlockHashWithGroupId H)) :
    (pool.popHashes block keys).1.blocks = pool.blocks ∧
      (pool.popHashes block keys).1.cachedBlockHashesByBlock =
        pool.cachedBlockHashesByBlock := by
  induction keys generalizing pool with
  | nil => exact ⟨rfl, rfl⟩
  | cons key keys ih => exact ih (pool.popHash key block).1

/-- What `_remove_cached_block_hashes` does to the hashes of a pool. -/
structure Removed (pool pool' : BlockPool H) (block : BlockId) : Prop where
  inverse : Inverse pool'
  none : pool'.blockHash block = none
  mem_iff : ∀ key owner, owner ∈ pool'.cachedBlockHashToBlock key ↔
    owner ∈ pool.cachedBlockHashToBlock key ∧ owner ≠ block

theorem Inverse.removeCachedBlockHashes (hinverse : Inverse pool)
    (block : BlockId) :
    Removed pool (pool.removeCachedBlockHashes block).1 block := by
  have hrecords : ∀ key, pool.Records block key ↔
      key ∈ (pool.blockHash block).toList ++
        pool.cachedBlockHashesByBlock block := by
    intro key
    rw [Records, List.mem_append, Option.mem_toList]
  have hdropped : ∀ owner, owner ≠ block →
      Function.update pool.cachedBlockHashesByBlock block [] owner =
        pool.cachedBlockHashesByBlock owner :=
    fun owner howner => Function.update_of_ne howner _ _
  simp only [BlockPool.removeCachedBlockHashes]
  by_cases hempty : (pool.blockHash block).toList ++
      pool.cachedBlockHashesByBlock block = []
  · rw [if_pos hempty]
    have hnone : pool.blockHash block = none := by
      simpa using (List.append_eq_nil_iff.mp hempty).1
    have hextra := (List.append_eq_nil_iff.mp hempty).2
    have hsame : SameHashes pool { pool with
        cachedBlockHashesByBlock :=
          Function.update pool.cachedBlockHashesByBlock block [] } := by
      refine ⟨fun _ => rfl, ?_, rfl, rfl⟩
      funext owner
      by_cases howner : owner = block
      · rw [howner, hextra]
        simp
      · exact hdropped owner howner
    refine ⟨hsame.inverse hinverse, hnone, ?_⟩
    intro key owner
    constructor
    · intro hmem
      refine ⟨hmem, ?_⟩
      rintro rfl
      exact (hinverse.unreachable_iff owner).mpr hnone key hmem
    · exact fun hmem => hmem.1
  · rw [if_neg hempty]
    let keys := (pool.blockHash block).toList ++
      pool.cachedBlockHashesByBlock block
    let base : BlockPool H := { pool with
      cachedBlockHashesByBlock :=
        Function.update pool.cachedBlockHashesByBlock block [] }
    have hpopped := popHashes_records base block keys
    have hmem : ∀ key owner, owner ∈
        (base.popHashes block keys).1.cachedBlockHashToBlock key ↔
          owner ∈ pool.cachedBlockHashToBlock key ∧ owner ≠ block := by
      intro key owner
      rw [popHashes_map base block keys (hinverse.nodup key)]
      refine and_congr_right fun hmem => ?_
      rw [hinverse.mem_iff] at hmem
      constructor
      · rintro hpop rfl
        exact hpop ⟨rfl, (hrecords key).mp hmem⟩
      · exact fun hne hpop => hne hpop.1
    have hhash : ∀ owner, owner ≠ block →
        ((base.popHashes block keys).1.resetHash block).blockHash owner =
          pool.blockHash owner := by
      intro owner howner
      simp only [resetHash, BlockPool.blockHash,
        Function.update_of_ne howner]
      rw [hpopped.1]
    have hnone : ((base.popHashes block keys).1.resetHash block).blockHash
        block = none := by
      simp [resetHash, BlockPool.blockHash]
    have hextra : ∀ owner, ((base.popHashes block keys).1.resetHash
        block).cachedBlockHashesByBlock owner =
          if owner = block then []
          else pool.cachedBlockHashesByBlock owner := by
      intro owner
      change (base.popHashes block keys).1.cachedBlockHashesByBlock owner = _
      rw [hpopped.2]
      split
      · rename_i howner
        rw [howner]
        exact Function.update_self _ _ _
      · rename_i howner
        exact hdropped owner howner
    refine ⟨⟨?_, ?_, ?_⟩, hnone, hmem⟩
    · intro key owner
      change owner ∈
        (base.popHashes block keys).1.cachedBlockHashToBlock key ↔ _
      rw [hmem, hinverse.mem_iff, Records, Records, hextra]
      by_cases howner : owner = block
      · rw [howner, hnone]
        simp
      · rw [hhash owner howner, if_neg howner]
        simp [howner]
    · exact fun key => popHashes_nodup base block keys (hinverse.nodup key)
    · intro owner hnone'
      rw [hextra]
      split
      · rfl
      · rename_i howner
        rw [hhash owner howner] at hnone'
        exact hinverse.primary owner hnone'

theorem Inverse.cacheFullBlock (hinverse : Inverse pool)
    {key : BlockHashWithGroupId H} {block : BlockId} {numHashTokens : ℕ}
    (hrun : pool.cacheFullBlock key block numHashTokens = .ok pool') :
    Inverse pool' := by
  rw [BlockPool.cacheFullBlock] at hrun
  split at hrun
  · cases hrun
    exact hinverse.insertBlockHash key block _
  · simp only [bind_eq_ok, pure_eq_ok] at hrun
    obtain ⟨-, -, rfl⟩ := hrun
    exact (hinverse.removeCachedBlockHashes block).inverse.insertBlockHash
      key block _

theorem Inverse.cacheFullLoop (hinverse : Inverse pool)
    {blockHashes : List H}
    {blockSize kvCacheGroupId numCachedBlocks i : ℕ}
    {blockMask : Option (List Bool)} {blocks : List BlockId}
    (hrun : pool.cacheFullLoop blockHashes blockSize kvCacheGroupId
      numCachedBlocks blockMask i blocks = .ok pool') :
    Inverse pool' := by
  induction blocks generalizing pool i with
  | nil =>
      cases hrun
      exact hinverse
  | cons block rest ih =>
      rw [BlockPool.cacheFullLoop] at hrun
      split at hrun
      · exact ih hinverse hrun
      · split at hrun
        · cases hrun
        · simp only [bind_eq_ok] at hrun
          obtain ⟨middle, hfirst, hlater⟩ := hrun
          exact ih (hinverse.cacheFullBlock hfirst) hlater

theorem Inverse.cacheFullBlocks (hinverse : Inverse pool)
    {blockHashes : List H} {blocks : List BlockId}
    {numCachedBlocks numFullBlocks blockSize kvCacheGroupId : ℕ}
    {blockMask : Option (List Bool)}
    (hrun : pool.cacheFullBlocks blockHashes blocks numCachedBlocks
      numFullBlocks blockSize kvCacheGroupId blockMask = .ok pool') :
    Inverse pool' := by
  rw [BlockPool.cacheFullBlocks] at hrun
  split at hrun
  · cases hrun
    exact hinverse
  · simp only [bind_eq_ok] at hrun
    obtain ⟨-, -, -, -, hloop⟩ := hrun
    exact hinverse.cacheFullLoop hloop

theorem Inverse.cachePartialBlock (hinverse : Inverse pool)
    {blockHashes : List H} {block : BlockId}
    {numTokens kvCacheGroupId blockSize : ℕ}
    {partialHash : Option (BlockHashWithGroupId H)}
    (hrun : pool.cachePartialBlock blockHashes block numTokens kvCacheGroupId
      blockSize = .ok (pool', partialHash)) :
    Inverse pool' := by
  rw [BlockPool.cachePartialBlock] at hrun
  split at hrun
  · cases hrun
    exact hinverse
  · simp only [bind_eq_ok] at hrun
    obtain ⟨-, -, -, -, -, -, -, -, -, -, hrun⟩ := hrun
    split at hrun
    · cases hrun
    · cases hrun
      apply Inverse.insertBlockHash
      split
      · exact (hinverse.removeCachedBlockHashes block).inverse
      · exact hinverse

theorem Inverse.moveBlockHashes (hinverse : Inverse pool)
    {srcBlock dstBlock : BlockId}
    (hrun : pool.moveBlockHashes srcBlock dstBlock = .ok pool') :
    Inverse pool' := by
  simp only [BlockPool.moveBlockHashes, bind_eq_ok, pure_eq_ok] at hrun
  obtain ⟨-, -, -, -, rfl⟩ := hrun
  exact (hinverse.removeCachedBlockHashes srcBlock).inverse.insertBlockHashes
    dstBlock _ _

theorem Inverse.evictBlocks (hinverse : Inverse pool)
    {blocks : List BlockId}
    (hrun : pool.evictBlocks blocks = .ok pool') : Inverse pool' := by
  induction blocks generalizing pool with
  | nil =>
      cases hrun
      exact hinverse
  | cons block rest ih =>
      simp only [BlockPool.evictBlocks, bind_eq_ok] at hrun
      obtain ⟨-, -, hlater⟩ := hrun
      exact ih (hinverse.removeCachedBlockHashes block).inverse hlater

omit [DecidableEq H] in
theorem Inverse.resetPrefixCache (hinverse : Inverse pool) :
    Inverse pool.resetPrefixCache.1 := by
  rw [BlockPool.resetPrefixCache]
  split
  · exact hinverse
  · constructor
    · intro key block
      simp [Records, BlockPool.blockHash]
    · exact fun _ => List.nodup_nil
    · exact fun _ _ => rfl

theorem Removed.gated {block : BlockId}
    (hremoved : Removed pool (pool.removeCachedBlockHashes block).1 block)
    (hgated : Gated pool) :
    Gated (pool.removeCachedBlockHashes block).1 := by
  intro hcaching key
  have hsame : (pool.removeCachedBlockHashes block).1.enableCaching =
      pool.enableCaching :=
    congrArg (fun config => config.2.1)
      (sameRefs_removeCachedBlockHashes pool block).config_eq
  rw [hsame] at hcaching
  apply List.eq_nil_iff_forall_not_mem.mpr
  intro owner hmem
  rw [hremoved.mem_iff, hgated hcaching key] at hmem
  exact absurd hmem.1 List.not_mem_nil

/-- Blocks handed out lose their keys, and no block gains one. -/
theorem Inverse.handOut (hinverse : Inverse pool) (hgated : Gated pool)
    {ret : List BlockId} (hrun : pool.handOut ret = .ok pool') :
    Inverse pool' ∧ Gated pool' ∧
      (∀ block, pool.Unreachable block → pool'.Unreachable block) ∧
      ∀ block ∈ ret, pool'.Unreachable block := by
  induction ret generalizing pool with
  | nil =>
      cases hrun
      exact ⟨hinverse, hgated, fun _ hold => hold,
        fun _ hmem => absurd hmem List.not_mem_nil⟩
  | cons block rest ih =>
      have hevicted : ∃ middle : BlockPool H,
          (if pool.enableCaching then pool.maybeEvictCachedBlock block
            else pool) = middle ∧ Inverse middle ∧ Gated middle ∧
          (∀ other, pool.Unreachable other → middle.Unreachable other) ∧
          middle.Unreachable block := by
        split
        · have hremoved := hinverse.removeCachedBlockHashes block
          refine ⟨_, rfl, hremoved.inverse, hremoved.gated hgated, ?_, ?_⟩
          · intro other hother key hmem
            exact hother key ((hremoved.mem_iff key other).mp hmem).1
          · intro key hmem
            exact ((hremoved.mem_iff key block).mp hmem).2 rfl
        · rename_i hdisabled
          refine ⟨_, rfl, hinverse, hgated, fun _ hother => hother, ?_⟩
          intro key hmem
          rw [hgated (Bool.eq_false_of_not_eq_true hdisabled)] at hmem
          exact absurd hmem List.not_mem_nil
      obtain ⟨middle, hmiddle, hinverse', hgated', hkept, hblock⟩ := hevicted
      simp only [BlockPool.handOut, hmiddle, bind_eq_ok] at hrun
      obtain ⟨-, -, hlater⟩ := hrun
      have hsame := sameHashes_addRef middle block 1
      have hfinal := ih (hsame.inverse hinverse') (hsame.gated hgated') hlater
      refine ⟨hfinal.1, hfinal.2.1, ?_, ?_⟩
      · exact fun other hother => hfinal.2.2.1 other (hkept other hother)
      · intro other hother
        cases List.mem_cons.mp hother with
        | inl hsame' =>
            rw [hsame']
            exact hfinal.2.2.1 block hblock
        | inr hother => exact hfinal.2.2.2 other hother

theorem Inverse.getNewBlocks (hinverse : Inverse pool) (hgated : Gated pool)
    {numBlocks : ℤ} {ret : List BlockId}
    (hrun : pool.getNewBlocks numBlocks = .ok (ret, pool')) :
    Inverse pool' ∧ Gated pool' ∧
      ∀ block ∈ ret, pool'.Unreachable block := by
  simp only [BlockPool.getNewBlocks, bind_eq_ok, pure_eq_ok, Prod.exists,
    Prod.mk.injEq] at hrun
  obtain ⟨-, -, popped, queue, -, final, hhand, rfl, rfl⟩ := hrun
  have hsame := sameHashes_withQueue pool queue
  have hhanded :=
    Inverse.handOut (hsame.inverse hinverse) (hsame.gated hgated) hhand
  exact ⟨hhanded.1, hhanded.2.1, hhanded.2.2.2⟩

omit [DecidableEq H] in
theorem sameHashes_touch {blocks : List BlockId}
    (hrun : pool.touch blocks = .ok pool') : SameHashes pool pool' := by
  induction blocks generalizing pool with
  | nil =>
      cases hrun
      exact SameHashes.refl _
  | cons block rest ih =>
      simp only [touch, bind_eq_ok] at hrun
      obtain ⟨middle, hfirst, hlater⟩ := hrun
      refine SameHashes.trans ?_ (ih hlater)
      rw [touchBlock] at hfirst
      split at hfirst
      · simp only [bind_eq_ok, pure_eq_ok] at hfirst
        obtain ⟨queue, -, rfl⟩ := hfirst
        exact (sameHashes_withQueue pool queue).trans
          (sameHashes_addRef _ block 1)
      · cases hfirst
        exact sameHashes_addRef pool block 1

omit [DecidableEq H] in
theorem sameHashes_freeLoop (pool : BlockPool H)
    (evictFirst evictLast blocks : List BlockId) :
    SameHashes pool (pool.freeLoop evictFirst evictLast blocks).1 := by
  induction blocks generalizing pool evictFirst evictLast with
  | nil => exact SameHashes.refl pool
  | cons block rest ih =>
      have hsame := sameHashes_addRef pool block (-1)
      rw [freeLoop]
      split
      · split
        · exact hsame.trans (ih _ _ _)
        · exact hsame.trans (ih _ _ _)
      · exact hsame.trans (ih _ _ _)

omit [DecidableEq H] in
theorem sameHashes_freeBlocks (pool : BlockPool H) (blocks : List BlockId) :
    SameHashes pool (pool.freeBlocks blocks) :=
  (sameHashes_freeLoop pool [] [] blocks).trans (sameHashes_withQueue _ _)

/-! ## Caching switched off -/

omit [DecidableEq H] in
theorem gated_of_enabled (henabled : pool.enableCaching = true)
    (hconfig : pool'.config = pool.config) : Gated pool' := by
  intro hdisabled
  have hsame : pool'.enableCaching = pool.enableCaching :=
    congrArg (fun config => config.2.1) hconfig
  rw [hsame, henabled] at hdisabled
  cases hdisabled

theorem popHashes_of_empty
    (hempty : ∀ key, pool.cachedBlockHashToBlock key = [])
    (block : BlockId) (keys : List (BlockHashWithGroupId H)) :
    (pool.popHashes block keys).2 = [] := by
  induction keys generalizing pool with
  | nil => rfl
  | cons key keys ih =>
      have hpop : ∀ other, (pool.popHash key block).1.cachedBlockHashToBlock
          other = [] := by
        intro other
        change Function.update pool.cachedBlockHashToBlock key
          ((pool.cachedBlockHashToBlock key).erase block) other = []
        by_cases hother : other = key
        · rw [hother, Function.update_self, hempty]
          rfl
        · rw [Function.update_of_ne hother, hempty]
      have hfound : (pool.popHash key block).2 = false := by
        simp [popHash, hempty]
      rw [popHashes]
      simp only [hfound, ih hpop]
      rfl

theorem gated_moveBlockHashes (hinverse : Inverse pool)
    (hgated : Gated pool) {srcBlock dstBlock : BlockId}
    (hrun : pool.moveBlockHashes srcBlock dstBlock = .ok pool') :
    Gated pool' := by
  have hconfig := (sameRefs_moveBlockHashes hrun).config_eq
  by_cases henabled : pool.enableCaching = true
  · exact gated_of_enabled henabled hconfig
  · have hempty := hgated (Bool.eq_false_of_not_eq_true henabled)
    have hremoved := hinverse.removeCachedBlockHashes srcBlock
    have hnone : (pool.removeCachedBlockHashes srcBlock).2 = [] := by
      have hbase : ∀ key, ({ pool with
          cachedBlockHashesByBlock :=
            Function.update pool.cachedBlockHashesByBlock srcBlock [] } :
          BlockPool H).cachedBlockHashToBlock key = [] := hempty
      simp only [BlockPool.removeCachedBlockHashes]
      split
      · rfl
      · exact popHashes_of_empty hbase srcBlock _
    simp only [BlockPool.moveBlockHashes, bind_eq_ok, pure_eq_ok, hnone]
      at hrun
    obtain ⟨-, -, -, -, rfl⟩ := hrun
    exact hremoved.gated hgated

theorem gated_evictBlocks (hinverse : Inverse pool) (hgated : Gated pool)
    {blocks : List BlockId}
    (hrun : pool.evictBlocks blocks = .ok pool') : Gated pool' := by
  induction blocks generalizing pool with
  | nil =>
      cases hrun
      exact hgated
  | cons block rest ih =>
      simp only [BlockPool.evictBlocks, bind_eq_ok] at hrun
      obtain ⟨-, -, hlater⟩ := hrun
      have hremoved := hinverse.removeCachedBlockHashes block
      exact ih hremoved.inverse (hremoved.gated hgated) hlater

omit [DecidableEq H] in
theorem gated_resetPrefixCache (hgated : Gated pool) :
    Gated pool.resetPrefixCache.1 := by
  rw [BlockPool.resetPrefixCache]
  split
  · exact hgated
  · exact fun _ _ => rfl

end Update

end GlmFlash.Cache.BlockPool
