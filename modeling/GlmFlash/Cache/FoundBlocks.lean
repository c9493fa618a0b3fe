import GlmFlash.Cache.HitBounds

/-!
# The blocks that the finders return

A block that attention at the end of a hit reads is cached under a hash of the request
that ends in the block, and covers what the hit needs of it.  The state that a Mamba hit
resumes from is cached under the hash of exactly the tokens of the hit.
-/

namespace GlmFlash.Cache

open GlmFlash.Library

section Search

variable {pool : BlockPool BlockHash} {groupIds : List ℕ} {blockHashes : List BlockHash}
  {accept : ℕ → Bool}

/-- The row is cached under the hash at this index. -/
def CachedAt (pool : BlockPool BlockHash) (groupIds : List ℕ) (blockHashes : List BlockHash)
    (index : ℕ) (row : Row) : Prop :=
  ∃ blockHash, blockHashes[index]? = some blockHash ∧
    pool.getCachedBlock blockHash groupIds = some row

/-- The rows from an index on are those of the hashes there. -/
def CachedFrom (pool : BlockPool BlockHash) (groupIds : List ℕ) (blockHashes : List BlockHash)
    (start : ℕ) (rows : List Row) : Prop :=
  ∀ offset row, rows[offset]? = some row →
    CachedAt pool groupIds blockHashes (start + offset) row

theorem CachedFrom.cons {start : ℕ} {row : Row} {rows : List Row}
    (hrow : CachedAt pool groupIds blockHashes start row)
    (hrows : CachedFrom pool groupIds blockHashes (start + 1) rows) :
    CachedFrom pool groupIds blockHashes start (row :: rows) := by
  intro offset found hfound
  cases offset with
  | zero =>
      cases hfound
      exact hrow
  | succ offset =>
      rw [← Nat.add_assoc, Nat.add_right_comm]
      exact hrows offset found hfound

end Search

namespace BlockHashListWithBlockSize

end BlockHashListWithBlockSize

namespace GroupSpec

/-- Attention at the end of a hit reads the block of this index.  Mamba resumes from its
last block. -/
def Reads (spec : GroupSpec) (blockSize hitLength index : ℕ) : Prop :=
  match spec.kind with
  | .fullAttention => True
  | .slidingWindow window => hitLength < (index + 1) * blockSize + (window - 1)
  | .chunkedLocal chunkSize => hitLength / chunkSize * chunkSize < (index + 1) * blockSize
  | .mamba => hitLength ≤ (index + 1) * blockSize

/-- A hash of so many tokens stands for the block of this index in a hit: it ends in the
block, not before the hit does, and a state is one of exactly these tokens. -/
structure EndsIn (spec : GroupSpec) (blockSize hitLength index tokens : ℕ) : Prop where
  covers : min hitLength ((index + 1) * blockSize) ≤ tokens
  inside : tokens ≤ (index + 1) * blockSize
  state : spec.isMamba = true → tokens = hitLength

/-- Chunks of local attention begin at blocks. -/
def WholeChunks (spec : GroupSpec) (blockSize : ℕ) : Prop :=
  ∀ chunkSize, spec.kind = .chunkedLocal chunkSize → blockSize ∣ chunkSize

end GroupSpec

namespace HitQuery

variable {query : HitQuery}

/-- The row is cached under a hash of the request that ends in the block of this index. -/
def Covered (query : HitQuery) (hitLength index : ℕ) (row : Row) : Prop :=
  ∃ position,
    CachedAt query.blockPool query.kvCacheGroupIds query.blockHashes position row ∧
      query.kvCacheSpec.EndsIn query.blockSize hitLength index
        ((position + 1) * query.blockPool.hashBlockSize)

/-- What a hit promises about its rows.  The rows of a chunk are only looked up from the
first block inside it. -/
structure Sound (query : HitQuery) (rows : List Row) (hitLength : ℕ) : Prop where
  aligned : query.alignmentTokens ∣ hitLength
  read : query.kvCacheSpec.WholeChunks query.blockSize → ∀ index row,
    rows[index]? = some row → query.kvCacheSpec.Reads query.blockSize hitLength index →
      query.Covered hitLength index row
  padded : query.kvCacheSpec.isMamba = true → ∀ index, index + 1 < rows.length →
    rows[index]? = some (query.kvCacheGroupIds.map fun _ => nullBlock)

section FullAttention

end FullAttention

section Mamba

end Mamba

section SlidingWindow

end SlidingWindow

section ChunkedLocal

end ChunkedLocal

end HitQuery

end GlmFlash.Cache
