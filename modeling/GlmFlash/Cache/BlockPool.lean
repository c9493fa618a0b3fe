import GlmFlash.Library.Outcome

/-!
# The block pool

`BlockPool` owns every KV-cache block of the engine: reference counts, the
queue of free blocks in eviction order, and the prefix-cache hash map.  The
queue is modelled by the list a traversal from its fake head yields, beside
the separate counter the source keeps; a `dict` entry of the hash map by the
block ids it holds in insertion order, absent when that list is empty.  KV
events and residency metrics are never read back and are left out.
-/

namespace GlmFlash.Cache

open GlmFlash.Library

abbrev BlockId := ℕ

/-- The block popped at start-up; its reference count is not maintained. -/
def nullBlock : BlockId := 0

/-- What an operation of the cache can raise. -/
inductive Failure where
  /-- `Cannot get {num_blocks} free blocks from the pool` -/
  | cannotGetFreeBlocks (numBlocks : ℤ)
  /-- `remove() called on an invalid block` -/
  | invalidBlock (block : BlockId)
  /-- `num_new_tokens must be greater than 0 when there are no external
  computed tokens` -/
  | noTokens
  /-- `Should not be called as prefix caching is disabled.` -/
  | shouldNotBeCalled
  | assertionError
  | indexError
  deriving DecidableEq, Repr

structure BlockHashWithGroupId (H : Type) where
  blockHash : H
  groupId : ℕ
  deriving DecidableEq

structure KVCacheBlock (H : Type) where
  refCnt : ℤ
  blockHash : Option (BlockHashWithGroupId H)
  blockHashNumTokens : Option ℕ

/-- The free list in traversal order and the counter kept beside it. -/
structure FreeKVCacheBlockQueue where
  order : List BlockId
  numFreeBlocks : ℤ
  deriving DecidableEq

namespace FreeKVCacheBlockQueue

/-- A negative `n` pops nothing yet still moves the counter; popping past the
last block runs into the fake tail. -/
def popleftN (queue : FreeKVCacheBlockQueue) (n : ℤ) :
    Except Failure (List BlockId × FreeKVCacheBlockQueue) :=
  if n = 0 then .ok ([], queue)
  else if queue.numFreeBlocks < n ∨ (queue.order.length : ℤ) < n then
    .error .assertionError
  else
    .ok (queue.order.take n.toNat,
      { order := queue.order.drop n.toNat
        numFreeBlocks := queue.numFreeBlocks - n })

def remove (queue : FreeKVCacheBlockQueue) (block : BlockId) :
    Except Failure FreeKVCacheBlockQueue :=
  if block ∈ queue.order then
    .ok { order := queue.order.erase block
          numFreeBlocks := queue.numFreeBlocks - 1 }
  else .error (.invalidBlock block)

def prependN (queue : FreeKVCacheBlockQueue) (blocks : List BlockId) :
    FreeKVCacheBlockQueue where
  order := blocks ++ queue.order
  numFreeBlocks := queue.numFreeBlocks + blocks.length

def appendN (queue : FreeKVCacheBlockQueue) (blocks : List BlockId) :
    FreeKVCacheBlockQueue where
  order := queue.order ++ blocks
  numFreeBlocks := queue.numFreeBlocks + blocks.length

end FreeKVCacheBlockQueue

structure BlockPool (H : Type) where
  numGpuBlocks : ℕ
  enableCaching : Bool
  hashBlockSize : ℕ
  blocks : BlockId → KVCacheBlock H
  freeBlockQueue : FreeKVCacheBlockQueue
  cachedBlockHashToBlock : BlockHashWithGroupId H → List BlockId
  cachedBlockHashesByBlock : BlockId → List (BlockHashWithGroupId H)

namespace BlockPool

variable {H : Type} [DecidableEq H]

/-- The pool after construction: every block but the null block is free. -/
def init (numGpuBlocks : ℕ) (enableCaching : Bool) (hashBlockSize : ℕ) :
    BlockPool H where
  numGpuBlocks := numGpuBlocks
  enableCaching := enableCaching
  hashBlockSize := hashBlockSize
  blocks _ := { refCnt := 0, blockHash := none, blockHashNumTokens := none }
  freeBlockQueue :=
    { order := (List.range numGpuBlocks).tail
      numFreeBlocks := (numGpuBlocks : ℤ) - 1 }
  cachedBlockHashToBlock _ := []
  cachedBlockHashesByBlock _ := []

def getNumFreeBlocks (pool : BlockPool H) : ℤ :=
  pool.freeBlockQueue.numFreeBlocks

def refCnt (pool : BlockPool H) (block : BlockId) : ℤ :=
  (pool.blocks block).refCnt

def blockHash (pool : BlockPool H) (block : BlockId) :
    Option (BlockHashWithGroupId H) :=
  (pool.blocks block).blockHash

def addRef (pool : BlockPool H) (block : BlockId) (delta : ℤ) : BlockPool H :=
  { pool with
    blocks := Function.update pool.blocks block
      { pool.blocks block with refCnt := (pool.blocks block).refCnt + delta } }

def withQueue (pool : BlockPool H) (queue : FreeKVCacheBlockQueue) :
    BlockPool H :=
  { pool with freeBlockQueue := queue }

/-! ## Hash map -/

/-- `BlockHashToBlockMap.get_one_block` for every group in turn. -/
def getCachedBlock (pool : BlockPool H) (blockHash : H) (groupIds : List ℕ) :
    Option (List BlockId) :=
  groupIds.mapM fun groupId =>
    (pool.cachedBlockHashToBlock ⟨blockHash, groupId⟩).head?

/-- `BlockHashToBlockMap.pop`; the second component says whether the key
pointed to the block. -/
def popHash (pool : BlockPool H) (key : BlockHashWithGroupId H)
    (block : BlockId) : BlockPool H × Bool :=
  ({ pool with
      cachedBlockHashToBlock := Function.update pool.cachedBlockHashToBlock key
        ((pool.cachedBlockHashToBlock key).erase block) },
    decide (block ∈ pool.cachedBlockHashToBlock key))

def popHashes (pool : BlockPool H) (block : BlockId) :
    List (BlockHashWithGroupId H) →
      BlockPool H × List (BlockHashWithGroupId H)
  | [] => (pool, [])
  | key :: keys =>
      let (pool, found) := pool.popHash key block
      let (pool, removed) := pool.popHashes block keys
      (pool, if found then key :: removed else removed)

def resetHash (pool : BlockPool H) (block : BlockId) : BlockPool H :=
  { pool with
    blocks := Function.update pool.blocks block
      { pool.blocks block with blockHash := none, blockHashNumTokens := none } }

/-- `_remove_cached_block_hashes`: the removed keys, the primary one first. -/
def removeCachedBlockHashes (pool : BlockPool H) (block : BlockId) :
    BlockPool H × List (BlockHashWithGroupId H) :=
  let blockHashes :=
    (pool.blockHash block).toList ++ pool.cachedBlockHashesByBlock block
  let pool := { pool with
    cachedBlockHashesByBlock :=
      Function.update pool.cachedBlockHashesByBlock block [] }
  if blockHashes = [] then (pool, [])
  else
    let (pool, removed) := pool.popHashes block blockHashes
    (pool.resetHash block, removed)

def insertBlockHash (pool : BlockPool H) (key : BlockHashWithGroupId H)
    (block : BlockId) (numTokens : Option ℕ) : BlockPool H :=
  if pool.blockHash block = some key then pool
  else if block ∈ pool.cachedBlockHashToBlock key then pool
  else
    let pool :=
      if pool.blockHash block = none then
        { pool with
          blocks := Function.update pool.blocks block
            { pool.blocks block with
              blockHash := some key, blockHashNumTokens := numTokens } }
      else
        { pool with
          cachedBlockHashesByBlock :=
            Function.update pool.cachedBlockHashesByBlock block
              ((pool.cachedBlockHashesByBlock block).insert key) }
    { pool with
      cachedBlockHashToBlock := Function.update pool.cachedBlockHashToBlock key
        (pool.cachedBlockHashToBlock key ++ [block]) }

def insertBlockHashes (pool : BlockPool H) (block : BlockId)
    (numTokens : Option ℕ) (keys : List (BlockHashWithGroupId H)) :
    BlockPool H :=
  keys.foldl (fun pool key => pool.insertBlockHash key block numTokens) pool

/-- One round of `cache_full_blocks`.  The only valid case where a new full
block already has a hash is the promotion of a partial entry. -/
def cacheFullBlock (pool : BlockPool H) (key : BlockHashWithGroupId H)
    (block : BlockId) (numHashTokens : ℕ) : Except Failure (BlockPool H) :=
  if pool.blockHash block = none then
    .ok (pool.insertBlockHash key block (some numHashTokens))
  else do
    require
      ((pool.blocks block).blockHashNumTokens.any (· < numHashTokens) = true)
      .assertionError
    let (pool, _) := pool.removeCachedBlockHashes block
    return pool.insertBlockHash key block (some numHashTokens)

/-- The hash that fingerprints the first `index + 1` blocks of `blockSize`
tokens, seen through `resolve_block_hashes`. -/
def resolveBlockHash (pool : BlockPool H) (blockHashes : List H)
    (blockSize index : ℕ) : Option H :=
  blockHashes[(index + 1) * (blockSize / pool.hashBlockSize) - 1]?

def cacheFullLoop (pool : BlockPool H) (blockHashes : List H)
    (blockSize kvCacheGroupId numCachedBlocks : ℕ)
    (blockMask : Option (List Bool)) (i : ℕ) :
    List BlockId → Except Failure (BlockPool H)
  | [] => .ok pool
  | block :: rest =>
      if block = nullBlock ∨
          (blockMask.map fun mask => mask.getD i true) = some false then
        pool.cacheFullLoop blockHashes blockSize kvCacheGroupId
          numCachedBlocks blockMask (i + 1) rest
      else
        match pool.resolveBlockHash blockHashes blockSize
            (numCachedBlocks + i) with
        | none => .error .indexError
        | some blockHash => do
            let pool ← pool.cacheFullBlock ⟨blockHash, kvCacheGroupId⟩ block
              ((numCachedBlocks + i + 1) * blockSize)
            pool.cacheFullLoop blockHashes blockSize kvCacheGroupId
              numCachedBlocks blockMask (i + 1) rest

def cacheFullBlocks (pool : BlockPool H) (blockHashes : List H)
    (blocks : List BlockId)
    (numCachedBlocks numFullBlocks blockSize kvCacheGroupId : ℕ)
    (blockMask : Option (List Bool)) : Except Failure (BlockPool H) :=
  if numFullBlocks ≤ numCachedBlocks then .ok pool
  else do
    let newFullBlocks := (blocks.take numFullBlocks).drop numCachedBlocks
    require (∀ mask ∈ blockMask, mask.length = newFullBlocks.length)
      .assertionError
    require (blockSize % pool.hashBlockSize = 0) .assertionError
    pool.cacheFullLoop blockHashes blockSize kvCacheGroupId numCachedBlocks
      blockMask 0 newFullBlocks

/-- `cache_partial_block`: make a block reachable from a prefix boundary
inside it. -/
def cachePartialBlock (pool : BlockPool H) (blockHashes : List H)
    (block : BlockId) (numTokens kvCacheGroupId blockSize : ℕ) :
    Except Failure (BlockPool H × Option (BlockHashWithGroupId H)) :=
  if block = nullBlock then .ok (pool, none)
  else do
    require (pool.hashBlockSize < blockSize) .assertionError
    require (blockSize % pool.hashBlockSize = 0) .assertionError
    require (numTokens % blockSize ≠ 0) .assertionError
    require (numTokens % pool.hashBlockSize = 0) .assertionError
    let numHashBlocks := numTokens / pool.hashBlockSize
    require (0 < numHashBlocks) .assertionError
    match blockHashes[numHashBlocks - 1]? with
    | none => .error .assertionError
    | some blockHash =>
        let key : BlockHashWithGroupId H := ⟨blockHash, kvCacheGroupId⟩
        let alreadyCached := pool.blockHash block = some key ∨
          block ∈ pool.cachedBlockHashToBlock key
        let pool :=
          if ¬alreadyCached ∧ pool.blockHash block ≠ none ∧
              (pool.blocks block).blockHashNumTokens.any
                (· < numHashBlocks * pool.hashBlockSize) = true then
            (pool.removeCachedBlockHashes block).1
          else pool
        return (pool.insertBlockHash key block
          (some (numHashBlocks * pool.hashBlockSize)), some key)

def moveBlockHashes (pool : BlockPool H) (srcBlock dstBlock : BlockId) :
    Except Failure (BlockPool H) := do
  require (pool.blockHash dstBlock = none) .assertionError
  require (pool.cachedBlockHashesByBlock dstBlock = []) .assertionError
  let numTokens := (pool.blocks srcBlock).blockHashNumTokens
  let (pool, removed) := pool.removeCachedBlockHashes srcBlock
  return pool.insertBlockHashes dstBlock numTokens removed

def maybeEvictCachedBlock (pool : BlockPool H) (block : BlockId) :
    BlockPool H :=
  (pool.removeCachedBlockHashes block).1

/-! ## Taking and returning blocks -/

/-- The loop of `get_new_blocks` over the popped blocks. -/
def handOut (pool : BlockPool H) : List BlockId → Except Failure (BlockPool H)
  | [] => .ok pool
  | block :: rest => do
      let pool :=
        if pool.enableCaching then pool.maybeEvictCachedBlock block else pool
      require (pool.refCnt block = 0) .assertionError
      (pool.addRef block 1).handOut rest

def getNewBlocks (pool : BlockPool H) (numBlocks : ℤ) :
    Except Failure (List BlockId × BlockPool H) := do
  require (numBlocks ≤ pool.getNumFreeBlocks) (.cannotGetFreeBlocks numBlocks)
  let (ret, queue) ← pool.freeBlockQueue.popleftN numBlocks
  let pool ← (pool.withQueue queue).handOut ret
  return (ret, pool)

/-- One round of `touch`: an eviction candidate leaves the free queue. -/
def touchBlock (pool : BlockPool H) (block : BlockId) :
    Except Failure (BlockPool H) :=
  if pool.refCnt block = 0 ∧ block ≠ nullBlock then do
    let queue ← pool.freeBlockQueue.remove block
    return (pool.withQueue queue).addRef block 1
  else .ok (pool.addRef block 1)

def touch (pool : BlockPool H) : List BlockId → Except Failure (BlockPool H)
  | [] => .ok pool
  | block :: rest => do
      let pool ← pool.touchBlock block
      pool.touch rest

/-- The loop of `free_blocks`, collecting what to reuse first and what to
evict last. -/
def freeLoop (pool : BlockPool H) (evictFirst evictLast : List BlockId) :
    List BlockId → BlockPool H × List BlockId × List BlockId
  | [] => (pool, evictFirst, evictLast)
  | block :: rest =>
      let pool := pool.addRef block (-1)
      if pool.refCnt block = 0 ∧ block ≠ nullBlock then
        if pool.blockHash block = none ∨ pool.enableCaching = false then
          pool.freeLoop (evictFirst ++ [block]) evictLast rest
        else pool.freeLoop evictFirst (evictLast ++ [block]) rest
      else pool.freeLoop evictFirst evictLast rest

def freeBlocks (pool : BlockPool H) (orderedBlocks : List BlockId) :
    BlockPool H :=
  let (pool, evictFirst, evictLast) := pool.freeLoop [] [] orderedBlocks
  pool.withQueue
    ((pool.freeBlockQueue.prependN evictFirst).appendN evictLast)

def evictBlocks (pool : BlockPool H) :
    List BlockId → Except Failure (BlockPool H)
  | [] => .ok pool
  | block :: rest => do
      require (block < pool.numGpuBlocks) .assertionError
      (pool.maybeEvictCachedBlock block).evictBlocks rest

def resetPrefixCache (pool : BlockPool H) : BlockPool H × Bool :=
  if (pool.numGpuBlocks : ℤ) - pool.getNumFreeBlocks ≠ 1 then (pool, false)
  else
    ({ pool with
        cachedBlockHashToBlock := fun _ => []
        cachedBlockHashesByBlock := fun _ => []
        blocks := fun block =>
          { pool.blocks block with
            blockHash := none, blockHashNumTokens := none } }, true)

/-- Blocks of a lookup result that a touch takes out of the free queue. -/
def getNumEvictableBlocks (pool : BlockPool H) (blocks : List BlockId) : ℕ :=
  blocks.countP fun block =>
    decide (pool.refCnt block = 0 ∧ block ≠ nullBlock)

end BlockPool

end GlmFlash.Cache
