import GlmFlash.Cache.BlockPool
import GlmFlash.Cache.BlockHash
import GlmFlash.Library.CeilDiv
import Mathlib.Data.List.TakeWhile

/-!
# The cache-hit finders

Each kind of group has its own search for the longest cached prefix of a
request.  A finder serves all groups of one spec at once: a row of its result
holds one block for each of them, or the null block where the kind needs none.
-/

namespace GlmFlash.Cache

open GlmFlash.Library

inductive SpecKind where
  | fullAttention
  | slidingWindow (slidingWindow : ℕ)
  | chunkedLocal (attentionChunkSize : ℕ)
  | mamba
  deriving DecidableEq

/-- What the lookups read of a `KVCacheSpec`.  `remainder` stands for its
other fields, which only decide whether two specs are equal. -/
structure GroupSpec where
  kind : SpecKind
  blockSize : ℕ
  dcpReplicated : Bool
  remainder : ℕ
  deriving DecidableEq

namespace GroupSpec

def isFullAttention (spec : GroupSpec) : Bool :=
  decide (spec.kind = .fullAttention)

def isMamba (spec : GroupSpec) : Bool :=
  decide (spec.kind = .mamba)

/-- `supports_fine_grained_hash_lookup` of the kind's manager. -/
def supportsFineGrained (spec : GroupSpec) : Bool :=
  spec.isFullAttention || spec.isMamba

/-- The block size a full-attention finder scales for the ranks that share a
block. -/
def scaledBlockSize (spec : GroupSpec) (dcpWorldSize : ℕ) : ℕ :=
  if 1 < dcpWorldSize ∧ ¬spec.dcpReplicated then
    spec.blockSize * dcpWorldSize
  else spec.blockSize

end GroupSpec

/-- The hashes of a view in order. -/
def BlockHashListWithBlockSize.toList (view : BlockHashListWithBlockSize) :
    List BlockHash :=
  (List.range view.length).filterMap view.getValueAt

/-- `resolve_block_hashes` on a request's own list of hashes. -/
def resolveBlockHashes (blockHashes : List BlockHash)
    (hashBlockSize blockSize : ℕ) (supportsFineGrained : Bool)
    (alignmentTokens : ℕ) : Except Failure (List BlockHash) :=
  if blockSize = hashBlockSize then .ok blockHashes
  else if supportsFineGrained ∧ alignmentTokens < blockSize ∧
      blockSize % alignmentTokens = 0 then .ok blockHashes
  else
    match groupView blockHashes hashBlockSize blockSize with
    | some view => .ok view.toList
    | none => .error .assertionError

abbrev Row := List BlockId

section Search

variable (pool : BlockPool BlockHash) (groupIds : List ℕ)
  (blockHashes : List BlockHash)

/-- The rows of the cached hashes from the start. -/
def cachedRun : List BlockHash → List Row
  | [] => []
  | blockHash :: later =>
      match pool.getCachedBlock blockHash groupIds with
      | none => []
      | some row => row :: cachedRun later

/-- The last of `count` positions from `low` on whose hash is cached and whose
index is accepted. -/
def searchBack (accept : ℕ → Bool) (low : ℕ) :
    ℕ → Except Failure (Option (ℕ × Row))
  | 0 => .ok none
  | count + 1 =>
      match blockHashes[low + count]? with
      | none => .error .indexError
      | some blockHash =>
          match pool.getCachedBlock blockHash groupIds with
          | none => searchBack accept low count
          | some row =>
              if accept (low + count) then .ok (some (low + count, row))
              else searchBack accept low count

/-- The search of a sliding window from the right.  `run` holds the rows of
the contiguous blocks met last; what lies to the right of it is deleted in the
end.  `needed` of them are a match, and a run starts at accepted indices
only. -/
def windowSearch (needed : ℕ) (accept : ℕ → Bool) :
    ℕ → List Row → Except Failure (Option ℕ × List Row)
  | 0, run => .ok (none, run)
  | index + 1, run =>
      match blockHashes[index]? with
      | none => .error .indexError
      | some blockHash =>
          match pool.getCachedBlock blockHash groupIds with
          | none => windowSearch needed accept index []
          | some row =>
              if run = [] ∧ ¬accept index then
                windowSearch needed accept index run
              else if needed ≤ (row :: run).length then
                .ok (some index, row :: run)
              else windowSearch needed accept index (row :: run)

/-- The rows of the cached hashes from an index up to a bound. -/
def cachedRange (stop : ℕ) : ℕ → ℕ → Except Failure (List Row)
  | 0, _ => .ok []
  | count + 1, index =>
      if stop ≤ index then .ok []
      else
        match blockHashes[index]? with
        | none => .error .indexError
        | some blockHash =>
            match pool.getCachedBlock blockHash groupIds with
            | none => .ok []
            | some row => do
                let rows ← cachedRange stop count (index + 1)
                return row :: rows

end Search

/-- The largest number of blocks up to `count` whose tokens are aligned. -/
def alignedBlocks (blockSize alignmentTokens : ℕ) : ℕ → ℕ
  | 0 => 0
  | count + 1 =>
      if (count + 1) * blockSize % alignmentTokens = 0 then count + 1
      else alignedBlocks blockSize alignmentTokens count

/-- The null blocks in front of a hit. -/
def nullRows (groupIds : List ℕ) (count : ℕ) : List Row :=
  List.replicate count (groupIds.map fun _ => nullBlock)

/-- The arguments of a finder. -/
structure HitQuery where
  blockHashes : List BlockHash
  maxLength : ℕ
  kvCacheGroupIds : List ℕ
  blockPool : BlockPool BlockHash
  kvCacheSpec : GroupSpec
  dropEagleBlock : Bool
  alignmentTokens : ℕ
  dcpWorldSize : ℕ

namespace HitQuery

/-- `FullAttentionManager.find_longest_cache_hit` -/
def findFullAttention (query : HitQuery) :
    Except Failure (List Row × ℕ) := do
  let blockSize := query.kvCacheSpec.scaledBlockSize query.dcpWorldSize
  let blockHashes ← resolveBlockHashes query.blockHashes
    query.blockPool.hashBlockSize blockSize true query.alignmentTokens
  let fineGrained := query.alignmentTokens < blockSize ∧
    blockSize % query.alignmentTokens = 0
  let fullBlockHashes ←
    if fineGrained then
      match groupView blockHashes query.alignmentTokens blockSize with
      | some view => pure view.toList
      | none => throw .assertionError
    else pure blockHashes
  let rows := cachedRun query.blockPool query.kvCacheGroupIds
    (fullBlockHashes.take (query.maxLength / blockSize))
  let tail ←
    if fineGrained then
      let scaleFactor := blockSize / query.alignmentTokens
      let firstPartialIdx := rows.length * scaleFactor
      let maxPartialIdx := min (firstPartialIdx + scaleFactor - 1)
        (min (query.maxLength / query.alignmentTokens) blockHashes.length)
      searchBack query.blockPool query.kvCacheGroupIds blockHashes
        (fun _ => true) firstPartialIdx (maxPartialIdx - firstPartialIdx)
    else pure none
  let rows' := rows ++ (tail.map (·.2)).toList
  let hitLength := match tail with
    | none => rows.length * blockSize
    | some found => (found.1 + 1) * query.alignmentTokens
  let hitLength :=
    if query.dropEagleBlock ∧ 0 < hitLength then
      hitLength - min query.alignmentTokens blockSize
    else hitLength
  let hitLength := hitLength - hitLength % query.alignmentTokens
  return (rows'.take (cdiv hitLength blockSize), hitLength)

/-- `MambaManager.find_longest_cache_hit` -/
def findMamba (query : HitQuery) : Except Failure (List Row × ℕ) := do
  let blockSize := query.kvCacheSpec.blockSize
  if query.dcpWorldSize ≠ 1 then throw .assertionError
  let blockHashes ← resolveBlockHashes query.blockHashes
    query.blockPool.hashBlockSize blockSize true query.alignmentTokens
  if query.alignmentTokens < blockSize ∧
      blockSize % query.alignmentTokens = 0 then
    let scaleFactor := blockSize / query.alignmentTokens
    let found ← searchBack query.blockPool query.kvCacheGroupIds blockHashes
      (fun _ => true) 0
      (min (query.maxLength / query.alignmentTokens) blockHashes.length)
    match found with
    | none => return ([], 0)
    | some (fineIdx, row) =>
        return (nullRows query.kvCacheGroupIds (fineIdx / scaleFactor) ++
          [row], (fineIdx + 1) * query.alignmentTokens)
  else
    let found ← searchBack query.blockPool query.kvCacheGroupIds blockHashes
      (fun index => decide (blockSize = query.alignmentTokens ∨
        (index + 1) * blockSize % query.alignmentTokens = 0)) 0
      (query.maxLength / blockSize)
    match found with
    | none => return ([], 0)
    | some (index, row) =>
        return (nullRows query.kvCacheGroupIds index ++ [row],
          (index + 1) * blockSize)

/-- `SlidingWindowManager.find_longest_cache_hit` -/
def findSlidingWindow (query : HitQuery) (slidingWindow : ℕ) :
    Except Failure (List Row × ℕ) := do
  let blockSize := query.kvCacheSpec.blockSize
  if query.dcpWorldSize ≠ 1 ∧ ¬query.kvCacheSpec.dcpReplicated then
    throw .assertionError
  if query.alignmentTokens % blockSize ≠ 0 then throw .assertionError
  let blockHashes ← resolveBlockHashes query.blockHashes
    query.blockPool.hashBlockSize blockSize false query.alignmentTokens
  let contiguousBlocks := cdiv (slidingWindow - 1) blockSize +
    if query.dropEagleBlock then 1 else 0
  let found ← windowSearch query.blockPool query.kvCacheGroupIds blockHashes
    contiguousBlocks
    (fun index => decide (blockSize = query.alignmentTokens ∨
      (if query.dropEagleBlock then index else index + 1) * blockSize %
        query.alignmentTokens = 0))
    (query.maxLength / blockSize) []
  let align := fun count =>
    if blockSize = query.alignmentTokens then count
    else alignedBlocks blockSize query.alignmentTokens count
  let rows := match found with
    | (some index, run) => nullRows query.kvCacheGroupIds index ++ run
    | (none, run) => run.take (align run.length)
  let rows :=
    if query.dropEagleBlock ∧ rows ≠ [] then
      rows.take (align (rows.length - 1))
    else rows
  return (rows, rows.length * blockSize)

/-- `ChunkedLocalAttentionManager.find_longest_cache_hit` -/
def findChunkedLocal (query : HitQuery) (attentionChunkSize : ℕ) :
    Except Failure (List Row × ℕ) := do
  let blockSize := query.kvCacheSpec.blockSize
  if query.dropEagleBlock then throw .assertionError
  if query.dcpWorldSize ≠ 1 then throw .assertionError
  if blockSize ≠ query.alignmentTokens then throw .assertionError
  let blockHashes ← resolveBlockHashes query.blockHashes
    query.blockPool.hashBlockSize blockSize false query.alignmentTokens
  let startBlock := query.maxLength / attentionChunkSize *
    attentionChunkSize / blockSize
  let maxNumBlocks := query.maxLength / blockSize
  let found ← cachedRange query.blockPool query.kvCacheGroupIds blockHashes
    maxNumBlocks maxNumBlocks startBlock
  let rows := nullRows query.kvCacheGroupIds startBlock ++ found
  return (rows, rows.length * blockSize)

/-- The finder of the manager class of the spec. -/
def findLongestCacheHit (query : HitQuery) : Except Failure (List Row × ℕ) :=
  match query.kvCacheSpec.kind with
  | .fullAttention => query.findFullAttention
  | .slidingWindow window => query.findSlidingWindow window
  | .chunkedLocal chunkSize => query.findChunkedLocal chunkSize
  | .mamba => query.findMamba

end HitQuery

section Search

variable {pool : BlockPool BlockHash} {groupIds : List ℕ}
  {blockHashes : List BlockHash} {accept : ℕ → Bool}

theorem cachedRun_take (blockHashes : List BlockHash) (count : ℕ) :
    cachedRun pool groupIds (blockHashes.take count) =
      (cachedRun pool groupIds blockHashes).take count := by
  induction blockHashes generalizing count with
  | nil => simp [cachedRun]
  | cons blockHash later ih =>
      cases count with
      | zero => simp [cachedRun]
      | succ count =>
          simp only [List.take_succ_cons, cachedRun]
          split
          · simp
          · rw [ih, List.take_succ_cons]

/-- How far a search result reaches, counted in indices. -/
def reach : Option (ℕ × Row) → ℕ
  | none => 0
  | some found => found.1 + 1

theorem searchBack_ok {low count : ℕ}
    (hlength : low + count ≤ blockHashes.length) :
    ∃ found,
      searchBack pool groupIds blockHashes accept low count = .ok found := by
  induction count with
  | zero => exact ⟨none, rfl⟩
  | succ count ih =>
      have hget : blockHashes[low + count]? =
          some (blockHashes.get ⟨low + count, by omega⟩) :=
        List.getElem?_eq_getElem (by omega)
      simp only [searchBack, hget]
      split
      · exact ih (by omega)
      · split
        · exact ⟨_, rfl⟩
        · exact ih (by omega)

theorem searchBack_bounds {low count index : ℕ} {row : Row}
    (hfound : searchBack pool groupIds blockHashes accept low count =
      .ok (some (index, row))) :
    low ≤ index ∧ index < low + count := by
  induction count with
  | zero => cases hfound
  | succ count ih =>
      simp only [searchBack] at hfound
      split at hfound
      · cases hfound
      · split at hfound
        · have hbounds := ih hfound
          omega
        · split at hfound
          · cases hfound
            omega
          · have hbounds := ih hfound
            omega

/-- A longer search reaches as far. -/
theorem searchBack_mono {low count count' : ℕ} (hcount : count ≤ count')
    {found found' : Option (ℕ × Row)}
    (hfound : searchBack pool groupIds blockHashes accept low count =
      .ok found)
    (hfound' : searchBack pool groupIds blockHashes accept low count' =
      .ok found') :
    reach found ≤ reach found' := by
  induction count' with
  | zero =>
      rw [Nat.le_zero.mp hcount] at hfound
      rw [Except.ok.inj (hfound.symm.trans hfound')]
  | succ count' ih =>
      by_cases hsame : count = count' + 1
      · rw [hsame] at hfound
        rw [Except.ok.inj (hfound.symm.trans hfound')]
      · have hle : count ≤ count' := by omega
        simp only [searchBack] at hfound'
        split at hfound'
        · cases hfound'
        · split at hfound'
          · exact ih hle hfound'
          · split at hfound'
            · cases hfound'
              cases found with
              | none => exact Nat.zero_le _
              | some entry =>
                  have hbounds := searchBack_bounds hfound
                  simp only [reach]
                  omega
            · exact ih hle hfound'

/-- The number of leading blocks of a window search's result. -/
def windowCount : Option ℕ × List Row → ℕ
  | (some index, run) => index + run.length
  | (none, run) => run.length

theorem windowSearch_ok {needed count : ℕ}
    (hlength : count ≤ blockHashes.length) (run : List Row) :
    ∃ found, windowSearch pool groupIds blockHashes needed accept count run =
      .ok found := by
  induction count generalizing run with
  | zero => exact ⟨_, rfl⟩
  | succ count ih =>
      have hget : blockHashes[count]? =
          some (blockHashes.get ⟨count, by omega⟩) :=
        List.getElem?_eq_getElem (by omega)
      simp only [windowSearch, hget]
      split
      · exact ih (by omega) []
      · split
        · exact ih (by omega) run
        · split
          · exact ⟨_, rfl⟩
          · exact ih (by omega) _

theorem windowCount_le {needed count : ℕ} {run : List Row}
    {found : Option ℕ × List Row}
    (hfound : windowSearch pool groupIds blockHashes needed accept count run =
      .ok found) :
    windowCount found ≤ count + run.length := by
  induction count generalizing run with
  | zero =>
      cases hfound
      simp [windowCount]
  | succ count ih =>
      simp only [windowSearch] at hfound
      split at hfound
      · cases hfound
      · split at hfound
        · have hle := ih hfound
          simp only [List.length_nil] at hle
          omega
        · split at hfound
          · have hle := ih hfound
            omega
          · split at hfound
            · cases hfound
              simp only [windowCount, List.length_cons]
              omega
            · have hle := ih hfound
              simp only [List.length_cons] at hle
              omega

/-- One result finds a match where the other does, and has as many blocks. -/
structure WindowLe (found found' : Option ℕ × List Row) : Prop where
  isSome : found.1.isSome → found'.1.isSome
  count : windowCount found ≤ windowCount found'

theorem windowSearch_run_mono {needed count : ℕ} {run run' : List Row}
    (hrun : run.length ≤ run'.length) {found found' : Option ℕ × List Row}
    (hfound : windowSearch pool groupIds blockHashes needed accept count run =
      .ok found)
    (hfound' : windowSearch pool groupIds blockHashes needed accept count
      run' = .ok found') :
    WindowLe found found' := by
  induction count generalizing run run' with
  | zero =>
      cases hfound
      cases hfound'
      exact ⟨id, hrun⟩
  | succ count ih =>
      have hbound := windowCount_le hfound
      simp only [windowSearch] at hfound hfound'
      split at hfound'
      · cases hfound'
      · rename_i blockHash hget
        simp only [hget] at hfound
        split at hfound'
        · rename_i hmiss
          simp only [hmiss] at hfound
          exact ih (Nat.le_refl _) hfound hfound'
        · rename_i row hrow
          simp only [hrow] at hfound
          split at hfound'
          · rename_i hskip
            have hnil : run = [] := by
              rw [hskip.1] at hrun
              exact List.length_eq_zero_iff.mp (Nat.le_zero.mp hrun)
            rw [if_pos ⟨hnil, hskip.2⟩] at hfound
            exact ih hrun hfound hfound'
          · split at hfound'
            · cases hfound'
              refine ⟨fun _ => rfl, ?_⟩
              change windowCount found ≤ count + (row :: run').length
              rw [List.length_cons]
              omega
            · rename_i hneeded
              split at hfound
              · rename_i hskip
                rw [hskip.1] at hfound
                exact ih (Nat.zero_le _) hfound hfound'
              · split at hfound
                · rename_i hmatch
                  simp only [List.length_cons] at hmatch hneeded
                  omega
                · refine ih ?_ hfound hfound'
                  simpa using hrun

/-- A window search from further right finds as much. -/
theorem windowSearch_mono {needed count count' : ℕ} (hcount : count ≤ count')
    {run' : List Row} {found found' : Option ℕ × List Row}
    (hfound : windowSearch pool groupIds blockHashes needed accept count [] =
      .ok found)
    (hfound' : windowSearch pool groupIds blockHashes needed accept count'
      run' = .ok found') :
    WindowLe found found' := by
  induction count' generalizing run' with
  | zero =>
      rw [Nat.le_zero.mp hcount] at hfound
      exact windowSearch_run_mono (Nat.zero_le _) hfound hfound'
  | succ count' ih =>
      by_cases hsame : count = count' + 1
      · rw [hsame] at hfound
        exact windowSearch_run_mono (Nat.zero_le _) hfound hfound'
      · have hle : count ≤ count' := by omega
        simp only [windowSearch] at hfound'
        split at hfound'
        · cases hfound'
        · split at hfound'
          · exact ih hle hfound'
          · split at hfound'
            · exact ih hle hfound'
            · split at hfound'
              · cases hfound'
                have hbound := windowCount_le hfound
                refine ⟨fun _ => rfl, ?_⟩
                simp only [windowCount, List.length_cons, List.length_nil]
                  at hbound ⊢
                omega
              · exact ih hle hfound'

theorem cachedRange_ok {stop count index : ℕ}
    (hlength : stop ≤ blockHashes.length) :
    ∃ rows, cachedRange pool groupIds blockHashes stop count index =
        .ok rows ∧ rows.length ≤ stop - index := by
  induction count generalizing index with
  | zero => exact ⟨[], rfl, Nat.zero_le _⟩
  | succ count ih =>
      simp only [cachedRange]
      split
      · exact ⟨[], rfl, Nat.zero_le _⟩
      · rename_i hinside
        have hget : blockHashes[index]? =
            some (blockHashes.get ⟨index, by omega⟩) :=
          List.getElem?_eq_getElem (by omega)
        rw [hget]
        dsimp only
        split
        · exact ⟨[], rfl, Nat.zero_le _⟩
        · cases @ih (index + 1) with
          | intro rows hrows =>
              rw [hrows.1]
              refine ⟨_, rfl, ?_⟩
              simp only [List.length_cons]
              omega

/-- With a later bound a run of cached hashes is as long. -/
theorem cachedRange_mono {stop stop' count count' index : ℕ}
    (hstop : stop ≤ stop') (hcount : count ≤ count') {rows rows' : List Row}
    (hrows : cachedRange pool groupIds blockHashes stop count index =
      .ok rows)
    (hrows' : cachedRange pool groupIds blockHashes stop' count' index =
      .ok rows') :
    rows.length ≤ rows'.length := by
  induction count generalizing count' index rows rows' with
  | zero =>
      cases hrows
      exact Nat.zero_le _
  | succ count ih =>
      cases count' with
      | zero => omega
      | succ count' =>
          simp only [cachedRange] at hrows hrows'
          split at hrows
          · cases hrows
            exact Nat.zero_le _
          · rename_i hinside
            rw [if_neg (by omega)] at hrows'
            split at hrows
            · cases hrows
            · rename_i blockHash hget
              simp only [hget] at hrows'
              split at hrows
              · cases hrows
                exact Nat.zero_le _
              · rename_i row hrow
                simp only [hrow] at hrows'
                simp only [bind_eq_ok, pure_eq_ok] at hrows hrows'
                obtain ⟨later, hlater, rfl⟩ := hrows
                obtain ⟨later', hlater', rfl⟩ := hrows'
                have hle := ih (by omega) hlater hlater'
                simpa using hle

theorem alignedBlocks_le (blockSize alignmentTokens count : ℕ) :
    alignedBlocks blockSize alignmentTokens count ≤ count := by
  induction count with
  | zero => exact Nat.le_refl _
  | succ count ih =>
      simp only [alignedBlocks]
      split
      · exact Nat.le_refl _
      · omega

theorem alignedBlocks_mono {blockSize alignmentTokens count count' : ℕ}
    (hcount : count ≤ count') :
    alignedBlocks blockSize alignmentTokens count ≤
      alignedBlocks blockSize alignmentTokens count' := by
  induction count' with
  | zero =>
      rw [Nat.le_zero.mp hcount]
  | succ count' ih =>
      by_cases hsame : count = count' + 1
      · rw [hsame]
      · have hle := ih (by omega)
        have hself := alignedBlocks_le blockSize alignmentTokens count'
        simp only [alignedBlocks]
        split
        · omega
        · exact hle

end Search

end GlmFlash.Cache
