import GlmFlash.Cache.HitFinders

/-!
# Prefix lookups of a hybrid cache

`HybridKVCacheCoordinator` serves groups of several kinds.  The reconciled
lookup shrinks a candidate length until every kind accepts it; the per-group
lookup asks every kind once.  A KV connector is shown the full-attention hit
of the second unless another group's hit is deeper.  The coordinator is built
without `eagle_drop_exempt`, which is then false.
-/

namespace GlmFlash.Cache

open GlmFlash.Library

/-- A KV-cache group as the coordinator sees it. -/
structure CacheGroup where
  spec : GroupSpec
  participatesInPrefixCaching : Bool
  /-- its index is in `eagle_group_ids` -/
  isEagle : Bool

structure HybridCoordinator where
  kvCacheGroups : List CacheGroup
  dcpWorldSize : ℕ
  schedulerBlockSize : ℕ
  hashBlockSize : ℕ
  enablePartialHashHits : Bool

/-- The groups that share one spec. -/
structure SpecGroup where
  spec : GroupSpec
  groupIds : List ℕ
  useEagle : Bool

/-- Join a group to the one with its spec, or append it. -/
def addToSpecGroups (groupId : ℕ) (group : CacheGroup) :
    List SpecGroup → List SpecGroup
  | [] => [⟨group.spec, [groupId], group.isEagle⟩]
  | specGroup :: specGroups =>
      if specGroup.spec = group.spec then
        { specGroup with
          groupIds := specGroup.groupIds ++ [groupId]
          useEagle := specGroup.useEagle || group.isEagle } :: specGroups
      else specGroup :: addToSpecGroups groupId group specGroups

/-- Blocks and hit lengths found so far, by group id. -/
structure HitState where
  hitBlocksByGroup : ℕ → Option (List BlockId)
  hitLengthByGroup : ℕ → ℕ
  eagleVerified : List ℕ
  currHitLength : ℕ
  longestHitLength : ℕ

/-- The blocks of one group of a result. -/
def column (rows : List Row) (position : ℕ) : List BlockId :=
  rows.map fun row => row.getD position nullBlock

/-- Enter a finder's result for the groups it served. -/
def HitState.record (state : HitState) (groupIds : List ℕ)
    (rows : List Row) (hitLength : ℕ) : HitState :=
  { state with
    hitBlocksByGroup := fun groupId =>
      match groupIds.idxOf? groupId with
      | some position => some (column rows position)
      | none => state.hitBlocksByGroup groupId
    hitLengthByGroup := fun groupId =>
      if groupId ∈ groupIds then hitLength else state.hitLengthByGroup groupId }

def HitState.start (hitLength : ℕ) : HitState where
  hitBlocksByGroup _ := none
  hitLengthByGroup _ := 0
  eagleVerified := []
  currHitLength := hitLength
  longestHitLength := 0

namespace HybridCoordinator

variable (self : HybridCoordinator)

/-- `manager.block_size`; a Mamba manager undoes the scaling. -/
def managerBlockSize (spec : GroupSpec) : ℕ :=
  if spec.isMamba then spec.blockSize
  else spec.scaledBlockSize self.dcpWorldSize

def cacheHitAlignmentTokens : ℕ :=
  if self.enablePartialHashHits then self.hashBlockSize
  else self.schedulerBlockSize

/-- The groups that take part in prefix caching, by spec. -/
def specGroups : List SpecGroup :=
  self.kvCacheGroups.zipIdx.foldl
    (fun specGroups entry =>
      if entry.1.participatesInPrefixCaching then
        addToSpecGroups entry.2 entry.1 specGroups
      else specGroups) []

/-- `verify_and_split_kv_cache_groups`: full attention comes first. -/
def attentionGroups : List SpecGroup :=
  self.specGroups.filter (·.spec.isFullAttention) ++
    self.specGroups.filter (!·.spec.isFullAttention)

def fullAttentionGroupId : Option ℕ :=
  self.attentionGroups.head?.bind fun first =>
    if first.spec.isFullAttention then first.groupIds.head? else none

def isSimpleHybrid : Bool :=
  decide (self.attentionGroups.length = 2) &&
    (self.attentionGroups.head?.map (·.spec.isFullAttention)).getD false

/-- What a finder drops for EAGLE is searched for on top. -/
def eagleMargin (spec : GroupSpec) : ℕ :=
  if self.enablePartialHashHits ∧ spec.supportsFineGrained ∧
      self.hashBlockSize < self.managerBlockSize spec then
    self.hashBlockSize
  else self.managerBlockSize spec

variable (blockPool : BlockPool BlockHash) (blockHashes : List BlockHash)
  (maxCacheHitLength : ℕ)

/-- The finder call of the reconciled lookup. -/
def reconciledQuery (group : SpecGroup) (dropEagleBlock : Bool)
    (currHitLength : ℕ) : HitQuery where
  blockHashes := blockHashes
  maxLength :=
    if dropEagleBlock ∧ ¬group.spec.isMamba then
      min (currHitLength + self.eagleMargin group.spec) maxCacheHitLength
    else currHitLength
  kvCacheGroupIds := group.groupIds
  blockPool := blockPool
  kvCacheSpec := group.spec
  dropEagleBlock := dropEagleBlock
  alignmentTokens := self.cacheHitAlignmentTokens
  dcpWorldSize :=
    if group.spec.isFullAttention then self.dcpWorldSize else 1

/-- The finder call of the per-group lookup. -/
def perGroupQuery (group : SpecGroup) : HitQuery where
  blockHashes := blockHashes
  maxLength := maxCacheHitLength
  kvCacheGroupIds := group.groupIds
  blockPool := blockPool
  kvCacheSpec := group.spec
  dropEagleBlock := group.useEagle
  alignmentTokens := self.cacheHitAlignmentTokens
  dcpWorldSize := 1

/-- One group in the loop of `find_longest_cache_hit`. -/
def visitGroup (state : HitState) (entry : SpecGroup × ℕ) :
    Except Failure HitState :=
  let group := entry.1
  let firstGroupId := group.groupIds.headD 0
  if group.spec.isFullAttention ∧
      (state.hitBlocksByGroup firstGroupId).isSome then
    .ok { state with
      currHitLength :=
        min state.currHitLength (state.hitLengthByGroup firstGroupId) }
  else do
    let dropEagleBlock :=
      group.useEagle && !state.eagleVerified.contains entry.2
    let found ← (self.reconciledQuery blockPool blockHashes
      maxCacheHitLength group dropEagleBlock
      state.currHitLength).findLongestCacheHit
    return { state.record group.groupIds found.1 found.2 with
      eagleVerified :=
        if dropEagleBlock then entry.2 :: state.eagleVerified
        else if found.2 < state.currHitLength then []
        else state.eagleVerified
      currHitLength := found.2
      longestHitLength := max state.longestHitLength found.2 }

/-- The `while` loop.  A round that goes on has shrunk the candidate, which
bounds the rounds. -/
def reconcile : ℕ → HitState → ℕ → Except Failure (HitState × ℕ)
  | 0, _, _ => .error .assertionError
  | rounds + 1, state, hitLength => do
      let state ← self.attentionGroups.zipIdx.foldlM
        (self.visitGroup blockPool blockHashes maxCacheHitLength)
        { state with currHitLength := hitLength }
      if hitLength ≤ state.currHitLength then return (state, hitLength)
      else if self.isSimpleHybrid then return (state, state.currHitLength)
      else reconcile rounds state state.currHitLength

/-- The lists of the first full-attention spec, cut to the final length. -/
def truncateFullAttention (state : HitState) (hitLength : ℕ) : HitState :=
  match self.attentionGroups.head? with
  | some first =>
      if first.spec.isFullAttention then
        let numBlocks := cdiv hitLength (self.managerBlockSize first.spec)
        { state with
          hitBlocksByGroup := fun groupId =>
            if groupId ∈ first.groupIds then
              (state.hitBlocksByGroup groupId).map (·.take numBlocks)
            else state.hitBlocksByGroup groupId
          hitLengthByGroup := fun groupId =>
            if groupId ∈ first.groupIds then hitLength
            else state.hitLengthByGroup groupId }
      else state
  | none => state

/-- The blocks of each group, the reconciled length, and how much longer the
longest hit of a single group was. -/
def findLongestCacheHit :
    Except Failure (List (List BlockId) × ℕ × ℕ) := do
  let found ← self.reconcile blockPool blockHashes maxCacheHitLength
    (maxCacheHitLength + 1) (HitState.start maxCacheHitLength)
    maxCacheHitLength
  let state := self.truncateFullAttention found.1 found.2
  return ((List.range self.kvCacheGroups.length).map fun groupId =>
      (state.hitBlocksByGroup groupId).getD [],
    found.2, state.longestHitLength - found.2)

/-- The blocks and the hit length of each group on its own. -/
def findLongestCacheHitPerGroup :
    Except Failure (List (List BlockId) × List ℕ) := do
  let state ← self.attentionGroups.foldlM
    (fun state group => do
      let found ← (self.perGroupQuery blockPool blockHashes
        maxCacheHitLength group).findLongestCacheHit
      return state.record group.groupIds found.1 found.2)
    (HitState.start maxCacheHitLength)
  return ((List.range self.kvCacheGroups.length).map fun groupId =>
      (state.hitBlocksByGroup groupId).getD [],
    (List.range self.kvCacheGroups.length).map state.hitLengthByGroup)

end HybridCoordinator

/-- The fields of a request that a prefix lookup reads. -/
structure LookupRequest where
  numTokens : ℕ
  blockHashes : List BlockHash
  skipReadingPrefixCache : Bool

/-- The result of `get_computed_blocks`. -/
structure ComputedBlocks where
  blocks : List (List BlockId)
  numComputedTokens : ℕ
  sharedPrefixBoundary : ℕ

namespace HybridCoordinator

variable (self : HybridCoordinator) (blockPool : BlockPool BlockHash)

def emptyBlocks : ComputedBlocks where
  blocks := self.kvCacheGroups.map fun _ => []
  numComputedTokens := 0
  sharedPrefixBoundary := 0

/-- `KVCacheManager.get_computed_blocks` over a hybrid coordinator; at least
one token is left to compute. -/
def getComputedBlocks (request : LookupRequest) :
    Except Failure ComputedBlocks :=
  if request.skipReadingPrefixCache then .ok self.emptyBlocks
  else do
    let found ← self.findLongestCacheHit blockPool request.blockHashes
      (request.numTokens - 1)
    return {
      blocks := found.1
      numComputedTokens := found.2.1
      sharedPrefixBoundary :=
        if found.2.2 ≠ 0 then found.2.1 + found.2.2 else 0 }

/-- `KVCacheManager.get_computed_blocks_for_connector`, with `hit_diverged`. -/
def getComputedBlocksForConnector (request : LookupRequest) :
    Except Failure (ComputedBlocks × Bool) :=
  match self.fullAttentionGroupId with
  | none => return (← self.getComputedBlocks blockPool request, false)
  | some fullId =>
      if ¬(self.kvCacheGroups.any (·.spec.isMamba)) then do
        return (← self.getComputedBlocks blockPool request, false)
      else if request.skipReadingPrefixCache then
        .ok (self.emptyBlocks, false)
      else do
        let found ← self.findLongestCacheHitPerGroup blockPool
          request.blockHashes (request.numTokens - 1)
        let numLocal := found.2.getD fullId 0
        if found.2.any (numLocal < ·) then do
          return (← self.getComputedBlocks blockPool request, false)
        else
          return ({
            blocks := found.1
            numComputedTokens := numLocal
            sharedPrefixBoundary := 0 },
            found.2.any (· < numLocal))

end HybridCoordinator

end GlmFlash.Cache
