import GlmFlash.Cache.FreeQueue

/-!
# The block pool over its own data structures

The same pool with the structures the source keeps it in: the linked free
queue, a hash map whose values are one block or a `dict` of several, and the
sets of extra hashes by block.  A key of `cached_block_hashes_by_block` that is
absent is one whose set is empty.
-/

namespace GlmFlash.Cache

open GlmFlash.Library

/-- A value of the hash map: one block, or a `dict` of blocks by their ids in
insertion order. -/
inductive CachedBlocks where
  | one (block : BlockId)
  | many (blocks : List BlockId)
  deriving DecidableEq

structure BlockHashToBlockMap (H : Type) where
  cache : BlockHashWithGroupId H → Option CachedBlocks

namespace BlockHashToBlockMap

variable {H : Type} [DecidableEq H]

def getOneBlock (map : BlockHashToBlockMap H)
    (key : BlockHashWithGroupId H) : Option BlockId :=
  match map.cache key with
  | none => none
  | some (.one block) => some block
  | some (.many blocks) => blocks.head?

def contain (map : BlockHashToBlockMap H) (key : BlockHashWithGroupId H)
    (blockId : BlockId) : Bool :=
  match map.cache key with
  | none => false
  | some (.one block) => decide (block = blockId)
  | some (.many blocks) => decide (blockId ∈ blocks)

def insert (map : BlockHashToBlockMap H) (key : BlockHashWithGroupId H)
    (block : BlockId) : BlockHashToBlockMap H where
  cache := Function.update map.cache key <| some <|
    match map.cache key with
    | none => .one block
    | some (.one first) =>
        .many (if first = block then [block] else [first, block])
    | some (.many blocks) =>
        .many (if block ∈ blocks then blocks else blocks ++ [block])

/-- The second component says whether the block was there. -/
def pop (map : BlockHashToBlockMap H) (key : BlockHashWithGroupId H)
    (blockId : BlockId) : BlockHashToBlockMap H × Bool :=
  match map.cache key with
  | none => (map, false)
  | some (.one block) =>
      if block = blockId then (⟨Function.update map.cache key none⟩, true)
      else (map, false)
  | some (.many blocks) =>
      let left := blocks.erase blockId
      (⟨Function.update map.cache key
        (if 0 < left.length then some (.many left) else none)⟩,
        decide (blockId ∈ blocks))

/-- The blocks under a key. -/
def toList (map : BlockHashToBlockMap H) (key : BlockHashWithGroupId H) :
    List BlockId :=
  match map.cache key with
  | none => []
  | some (.one block) => [block]
  | some (.many blocks) => blocks

section Lemmas

variable (map : BlockHashToBlockMap H) (key : BlockHashWithGroupId H)
  (block : BlockId)

omit [DecidableEq H] in
theorem getOneBlock_eq : map.getOneBlock key = (map.toList key).head? := by
  rw [getOneBlock, toList]
  split <;> rfl

omit [DecidableEq H] in
theorem contain_iff :
    map.contain key block = true ↔ block ∈ map.toList key := by
  rw [contain, toList]
  split
  · simp
  · simp [eq_comm]
  · simp

theorem toList_insert (hnew : block ∉ map.toList key) :
    (map.insert key block).toList =
      Function.update map.toList key (map.toList key ++ [block]) := by
  funext other
  by_cases hother : other = key
  · rw [hother, Function.update_self]
    rw [toList] at hnew
    rw [toList, insert, toList]
    dsimp only
    rw [Function.update_self]
    split at hnew
    · simp
    · rename_i first hentry
      have hne : first ≠ block := fun hsame => hnew (by simp [hsame])
      simp [hne]
    · simp [hnew]
  · rw [Function.update_of_ne hother, toList, insert, toList]
    dsimp only
    rw [Function.update_of_ne hother]

theorem toList_pop :
    (map.pop key block).1.toList =
      Function.update map.toList key ((map.toList key).erase block) := by
  funext other
  by_cases hother : other = key
  · rw [hother, Function.update_self, pop]
    split
    · rename_i hentry
      simp [toList, hentry]
    · rename_i first hentry
      split
      · rename_i hsame
        simp [toList, hentry, hsame]
      · rename_i hne
        simp [toList, hentry, List.erase_of_not_mem, Ne.symm hne]
    · rename_i blocks hentry
      by_cases hleft : 0 < (blocks.erase block).length
      · simp [toList, hentry, hleft]
      · have hempty : blocks.erase block = [] := by
          simpa using hleft
        simp [toList, hentry, hempty]
  · rw [Function.update_of_ne hother, pop]
    split
    · rfl
    · split
      · rw [toList, toList]
        dsimp only
        rw [Function.update_of_ne hother]
      · rfl
    · rw [toList, toList]
      dsimp only
      rw [Function.update_of_ne hother]

theorem snd_pop :
    (map.pop key block).2 = decide (block ∈ map.toList key) := by
  rw [pop, toList]
  split
  · simp
  · rename_i first hentry
    by_cases hsame : first = block
    · simp [hsame]
    · simp [hsame, Ne.symm hsame]
  · rfl

end Lemmas

end BlockHashToBlockMap

structure LinkedPool (H : Type) where
  numGpuBlocks : ℕ
  enableCaching : Bool
  hashBlockSize : ℕ
  blocks : BlockId → KVCacheBlock H
  freeBlockQueue : LinkedFreeQueue
  cachedBlockHashToBlock : BlockHashToBlockMap H
  cachedBlockHashesByBlock : BlockId → List (BlockHashWithGroupId H)

namespace LinkedPool

variable {H : Type} [DecidableEq H]

/-- The constructor; the null block is popped. -/
def init (numGpuBlocks : ℕ) (enableCaching : Bool) (hashBlockSize : ℕ) :
    Except Failure (LinkedPool H) := do
  require (0 < numGpuBlocks) .assertionError
  let (_, queue) ← (LinkedFreeQueue.ofBlocks numGpuBlocks).popleft
  return {
    numGpuBlocks := numGpuBlocks
    enableCaching := enableCaching
    hashBlockSize := hashBlockSize
    blocks := fun _ =>
      { refCnt := 0, blockHash := none, blockHashNumTokens := none }
    freeBlockQueue := queue
    cachedBlockHashToBlock := ⟨fun _ => none⟩
    cachedBlockHashesByBlock := fun _ => [] }

def getNumFreeBlocks (pool : LinkedPool H) : ℤ :=
  pool.freeBlockQueue.numFreeBlocks

def refCnt (pool : LinkedPool H) (block : BlockId) : ℤ :=
  (pool.blocks block).refCnt

def blockHash (pool : LinkedPool H) (block : BlockId) :
    Option (BlockHashWithGroupId H) :=
  (pool.blocks block).blockHash

def addRef (pool : LinkedPool H) (block : BlockId) (delta : ℤ) :
    LinkedPool H :=
  { pool with
    blocks := Function.update pool.blocks block
      { pool.blocks block with refCnt := (pool.blocks block).refCnt + delta } }

def withQueue (pool : LinkedPool H) (queue : LinkedFreeQueue) :
    LinkedPool H :=
  { pool with freeBlockQueue := queue }

def getCachedBlock (pool : LinkedPool H) (blockHash : H)
    (groupIds : List ℕ) : Option (List BlockId) :=
  groupIds.mapM fun groupId =>
    pool.cachedBlockHashToBlock.getOneBlock ⟨blockHash, groupId⟩

/-! ## Hashes -/

def popHashes (pool : LinkedPool H) (block : BlockId) :
    List (BlockHashWithGroupId H) →
      LinkedPool H × List (BlockHashWithGroupId H)
  | [] => (pool, [])
  | key :: keys =>
      let (map, found) := pool.cachedBlockHashToBlock.pop key block
      let (pool, removed) :=
        { pool with cachedBlockHashToBlock := map }.popHashes block keys
      (pool, if found then key :: removed else removed)

def resetHash (pool : LinkedPool H) (block : BlockId) : LinkedPool H :=
  { pool with
    blocks := Function.update pool.blocks block
      { pool.blocks block with blockHash := none, blockHashNumTokens := none } }

def removeCachedBlockHashes (pool : LinkedPool H) (block : BlockId) :
    LinkedPool H × List (BlockHashWithGroupId H) :=
  let blockHashes :=
    (pool.blockHash block).toList ++ pool.cachedBlockHashesByBlock block
  let pool := { pool with
    cachedBlockHashesByBlock :=
      Function.update pool.cachedBlockHashesByBlock block [] }
  if blockHashes = [] then (pool, [])
  else
    let (pool, removed) := pool.popHashes block blockHashes
    (pool.resetHash block, removed)

/-- `KVCacheBlock.set_block_hash` -/
def setBlockHash (pool : LinkedPool H) (key : BlockHashWithGroupId H)
    (block : BlockId) (numTokens : Option ℕ) :
    Except Failure (LinkedPool H) := do
  require (pool.blockHash block = none ∧
    (pool.blocks block).blockHashNumTokens = none) .assertionError
  return { pool with
    blocks := Function.update pool.blocks block
      { pool.blocks block with
        blockHash := some key, blockHashNumTokens := numTokens } }

/-- The branch of `_insert_block_hash` that records the key at the block, as
its primary hash or as an extra one. -/
def recordBlockHash (pool : LinkedPool H) (key : BlockHashWithGroupId H)
    (block : BlockId) (numTokens : Option ℕ) :
    Except Failure (LinkedPool H) :=
  if pool.blockHash block = none then pool.setBlockHash key block numTokens
  else
    .ok { pool with
      cachedBlockHashesByBlock :=
        Function.update pool.cachedBlockHashesByBlock block
          ((pool.cachedBlockHashesByBlock block).insert key) }

def insertBlockHash (pool : LinkedPool H) (key : BlockHashWithGroupId H)
    (block : BlockId) (numTokens : Option ℕ) :
    Except Failure (LinkedPool H) :=
  if pool.blockHash block = some key then .ok pool
  else if pool.cachedBlockHashToBlock.contain key block then .ok pool
  else do
    let pool ← pool.recordBlockHash key block numTokens
    return { pool with
      cachedBlockHashToBlock := pool.cachedBlockHashToBlock.insert key block }

def insertBlockHashes (pool : LinkedPool H) (block : BlockId)
    (numTokens : Option ℕ) :
    List (BlockHashWithGroupId H) → Except Failure (LinkedPool H)
  | [] => .ok pool
  | key :: keys => do
      let pool ← pool.insertBlockHash key block numTokens
      pool.insertBlockHashes block numTokens keys

def cacheFullBlock (pool : LinkedPool H) (key : BlockHashWithGroupId H)
    (block : BlockId) (numHashTokens : ℕ) : Except Failure (LinkedPool H) :=
  if pool.blockHash block = none then
    pool.insertBlockHash key block (some numHashTokens)
  else do
    require
      ((pool.blocks block).blockHashNumTokens.any (· < numHashTokens) = true)
      .assertionError
    (pool.removeCachedBlockHashes block).1.insertBlockHash key block
      (some numHashTokens)

def cacheFullLoop (pool : LinkedPool H) (blockHashes : List H)
    (blockSize kvCacheGroupId numCachedBlocks : ℕ)
    (blockMask : Option (List Bool)) (i : ℕ) :
    List BlockId → Except Failure (LinkedPool H)
  | [] => .ok pool
  | block :: rest =>
      if block = nullBlock ∨
          (blockMask.map fun mask => mask.getD i true) = some false then
        pool.cacheFullLoop blockHashes blockSize kvCacheGroupId
          numCachedBlocks blockMask (i + 1) rest
      else
        match blockHashes[(numCachedBlocks + i + 1) *
            (blockSize / pool.hashBlockSize) - 1]? with
        | none => .error .indexError
        | some blockHash => do
            let pool ← pool.cacheFullBlock ⟨blockHash, kvCacheGroupId⟩ block
              ((numCachedBlocks + i + 1) * blockSize)
            pool.cacheFullLoop blockHashes blockSize kvCacheGroupId
              numCachedBlocks blockMask (i + 1) rest

def cacheFullBlocks (pool : LinkedPool H) (blockHashes : List H)
    (blocks : List BlockId)
    (numCachedBlocks numFullBlocks blockSize kvCacheGroupId : ℕ)
    (blockMask : Option (List Bool)) : Except Failure (LinkedPool H) :=
  if numFullBlocks ≤ numCachedBlocks then .ok pool
  else do
    let newFullBlocks := (blocks.take numFullBlocks).drop numCachedBlocks
    require (∀ mask ∈ blockMask, mask.length = newFullBlocks.length)
      .assertionError
    require (blockSize % pool.hashBlockSize = 0) .assertionError
    pool.cacheFullLoop blockHashes blockSize kvCacheGroupId numCachedBlocks
      blockMask 0 newFullBlocks

/-- A shorter entry of the block makes room for a new longer one. -/
def dropShorter (pool : LinkedPool H) (key : BlockHashWithGroupId H)
    (block : BlockId) (numTokens : ℕ) : LinkedPool H :=
  let alreadyCached := pool.blockHash block = some key ∨
    pool.cachedBlockHashToBlock.contain key block
  if ¬alreadyCached ∧ pool.blockHash block ≠ none ∧
      (pool.blocks block).blockHashNumTokens.any (· < numTokens) = true then
    (pool.removeCachedBlockHashes block).1
  else pool

def cachePartialBlock (pool : LinkedPool H) (blockHashes : List H)
    (block : BlockId) (numTokens kvCacheGroupId blockSize : ℕ) :
    Except Failure (LinkedPool H × Option (BlockHashWithGroupId H)) :=
  if block = nullBlock then .ok (pool, none)
  else do
    require (pool.hashBlockSize < blockSize) .assertionError
    require (blockSize % pool.hashBlockSize = 0) .assertionError
    require (numTokens % blockSize ≠ 0) .assertionError
    require (numTokens % pool.hashBlockSize = 0) .assertionError
    let numHashBlocks := numTokens / pool.hashBlockSize
    require (0 < numHashBlocks) .assertionError
    match blockHashes[numHashBlocks - 1]? with
    | none => .error .assertionError
    | some blockHash => do
        let key : BlockHashWithGroupId H := ⟨blockHash, kvCacheGroupId⟩
        let numHashTokens := numHashBlocks * pool.hashBlockSize
        let pool ← (pool.dropShorter key block numHashTokens).insertBlockHash
          key block (some numHashTokens)
        return (pool, some key)

def moveBlockHashes (pool : LinkedPool H) (srcBlock dstBlock : BlockId) :
    Except Failure (LinkedPool H) := do
  require (pool.blockHash dstBlock = none) .assertionError
  require (pool.cachedBlockHashesByBlock dstBlock = []) .assertionError
  let numTokens := (pool.blocks srcBlock).blockHashNumTokens
  let (pool, removed) := pool.removeCachedBlockHashes srcBlock
  pool.insertBlockHashes dstBlock numTokens removed

def maybeEvictCachedBlock (pool : LinkedPool H) (block : BlockId) :
    LinkedPool H :=
  (pool.removeCachedBlockHashes block).1

/-! ## Taking and returning blocks -/

def handOut (pool : LinkedPool H) :
    List BlockId → Except Failure (LinkedPool H)
  | [] => .ok pool
  | block :: rest => do
      let pool :=
        if pool.enableCaching then pool.maybeEvictCachedBlock block else pool
      require (pool.refCnt block = 0) .assertionError
      (pool.addRef block 1).handOut rest

def getNewBlocks (pool : LinkedPool H) (numBlocks : ℤ) :
    Except Failure (List BlockId × LinkedPool H) := do
  require (numBlocks ≤ pool.getNumFreeBlocks) (.cannotGetFreeBlocks numBlocks)
  let (ret, queue) ← pool.freeBlockQueue.popleftN numBlocks
  let pool ← (pool.withQueue queue).handOut ret
  return (ret, pool)

def touchBlock (pool : LinkedPool H) (block : BlockId) :
    Except Failure (LinkedPool H) :=
  if pool.refCnt block = 0 ∧ block ≠ nullBlock then do
    let queue ← pool.freeBlockQueue.remove block
    return (pool.withQueue queue).addRef block 1
  else .ok (pool.addRef block 1)

def touch (pool : LinkedPool H) :
    List BlockId → Except Failure (LinkedPool H)
  | [] => .ok pool
  | block :: rest => do
      let pool ← pool.touchBlock block
      pool.touch rest

def freeLoop (pool : LinkedPool H) (evictFirst evictLast : List BlockId) :
    List BlockId → LinkedPool H × List BlockId × List BlockId
  | [] => (pool, evictFirst, evictLast)
  | block :: rest =>
      let pool := pool.addRef block (-1)
      if pool.refCnt block = 0 ∧ block ≠ nullBlock then
        if pool.blockHash block = none ∨ pool.enableCaching = false then
          pool.freeLoop (evictFirst ++ [block]) evictLast rest
        else pool.freeLoop evictFirst (evictLast ++ [block]) rest
      else pool.freeLoop evictFirst evictLast rest

def freeBlocks (pool : LinkedPool H) (orderedBlocks : List BlockId) :
    Except Failure (LinkedPool H) := do
  let (pool, evictFirst, evictLast) := pool.freeLoop [] [] orderedBlocks
  let queue ← pool.freeBlockQueue.prependN evictFirst
  let queue ← queue.appendN evictLast
  return pool.withQueue queue

def evictBlocks (pool : LinkedPool H) :
    List BlockId → Except Failure (LinkedPool H)
  | [] => .ok pool
  | block :: rest => do
      require (block < pool.numGpuBlocks) .assertionError
      (pool.maybeEvictCachedBlock block).evictBlocks rest

def resetPrefixCache (pool : LinkedPool H) : LinkedPool H × Bool :=
  if (pool.numGpuBlocks : ℤ) - pool.getNumFreeBlocks ≠ 1 then (pool, false)
  else
    ({ pool with
        cachedBlockHashToBlock := ⟨fun _ => none⟩
        cachedBlockHashesByBlock := fun _ => []
        blocks := fun block =>
          { pool.blocks block with
            blockHash := none, blockHashNumTokens := none } }, true)

/-- The pool with the list that its queue holds and the blocks under each
key. -/
def view (pool : LinkedPool H) (order : List BlockId) : BlockPool H where
  numGpuBlocks := pool.numGpuBlocks
  enableCaching := pool.enableCaching
  hashBlockSize := pool.hashBlockSize
  blocks := pool.blocks
  freeBlockQueue := ⟨order, pool.freeBlockQueue.numFreeBlocks⟩
  cachedBlockHashToBlock := pool.cachedBlockHashToBlock.toList
  cachedBlockHashesByBlock := pool.cachedBlockHashesByBlock

end LinkedPool

end GlmFlash.Cache
