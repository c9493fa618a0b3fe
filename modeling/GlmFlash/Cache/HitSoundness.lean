import GlmFlash.Cache.HitAgreement
import GlmFlash.Cache.FoundBlocks

/-!
# What a reconciled prefix lookup returns

Every round of the lookup enters a sound hit for each group, and the length that the
loop ends with is one at which all groups' hits stand.  So the tokens that a request is
told it need not compute are in the cache, in every group, under its own hashes.
-/

namespace GlmFlash.Cache

open GlmFlash.Library

namespace HybridCoordinator

variable {self : HybridCoordinator} {blockPool : BlockPool BlockHash}
  {blockHashes : List BlockHash} {maxCacheHitLength : ℕ}

/-- The ids of a group hold the columns of the rows. -/
structure Holds (state : HitState) (group : SpecGroup) (rows : List Row)
    (hitLength : ℕ) : Prop where
  hit : ∀ groupId ∈ group.groupIds, state.hitLengthByGroup groupId = hitLength
  blocks : ∀ groupId ∈ group.groupIds, ∃ position,
    group.groupIds[position]? = some groupId ∧
      state.hitBlocksByGroup groupId = some (column rows position)

/-- The two maps of a state agree on an id. -/
def SameEntry (state state' : HitState) (groupId : ℕ) : Prop :=
  state'.hitBlocksByGroup groupId = state.hitBlocksByGroup groupId ∧
    state'.hitLengthByGroup groupId = state.hitLengthByGroup groupId

theorem Holds.congr {state state' : HitState} {group : SpecGroup} {rows : List Row}
    {hitLength : ℕ} (hholds : Holds state group rows hitLength)
    (hsame : ∀ groupId ∈ group.groupIds, SameEntry state state' groupId) :
    Holds state' group rows hitLength where
  hit groupId hid := (hsame groupId hid).2.trans (hholds.hit groupId hid)
  blocks groupId hid := by
    rw [(hsame groupId hid).1]
    exact hholds.blocks groupId hid

section Rounds

variable (self blockPool blockHashes maxCacheHitLength)

/-- The loop has entered a sound hit of this length for the group. -/
def Recorded (state : HitState) (group : SpecGroup) (hitLength : ℕ) : Prop :=
  ∃ rows, (self.ownQuery blockPool blockHashes maxCacheHitLength group).Sound rows hitLength ∧
    rows.length = cdiv hitLength (self.managerBlockSize group.spec) ∧
    Holds state group rows hitLength

/-- What the loop knows of a group after its visit. -/
def Stands (state : HitState) (bound : ℕ) (group : SpecGroup) : Prop :=
  ∃ hitLength, self.Recorded blockPool blockHashes maxCacheHitLength state group hitLength ∧
    state.currHitLength ≤ hitLength ∧
    (group.spec.isFullAttention = false → hitLength ≤ bound)

end Rounds

theorem Recorded.congr {state state' : HitState} {group : SpecGroup} {hitLength : ℕ}
    (hrecorded : self.Recorded blockPool blockHashes maxCacheHitLength state group hitLength)
    (hsame : ∀ groupId ∈ group.groupIds, SameEntry state state' groupId) :
    self.Recorded blockPool blockHashes maxCacheHitLength state' group hitLength := by
  obtain ⟨rows, hsound, hlength, hholds⟩ := hrecorded
  exact ⟨rows, hsound, hlength, hholds.congr hsame⟩

/-- The lists that a visit of a full-attention group would reuse are sound. -/
def Ready (self : HybridCoordinator) (blockPool : BlockPool BlockHash)
    (blockHashes : List BlockHash) (maxCacheHitLength : ℕ) (state : HitState)
    (group : SpecGroup) : Prop :=
  group.spec.isFullAttention = true →
    (state.hitBlocksByGroup (group.groupIds.headD 0)).isSome = true →
      self.cacheHitAlignmentTokens ∣ state.currHitLength ∧
        ∃ hitLength, self.Recorded blockPool blockHashes maxCacheHitLength state group hitLength

/-- What a lookup promises of the blocks of one group.  The lists of a second
full-attention spec are not cut to the length of the hit. -/
structure Served (coordinator : HybridCoordinator) (blockPool : BlockPool BlockHash)
    (blockHashes : List BlockHash) (groupId : ℕ) (spec : GroupSpec) (hitLength : ℕ)
    (blocks : List BlockId) : Prop where
  enough : cdiv hitLength (coordinator.managerBlockSize spec) ≤ blocks.length
  exact : (spec.isFullAttention = true →
      coordinator.attentionGroups.head?.map (·.spec) = some spec) →
    blocks.length = cdiv hitLength (coordinator.managerBlockSize spec)
  cached : spec.WholeChunks (coordinator.managerBlockSize spec) →
    ∀ index < cdiv hitLength (coordinator.managerBlockSize spec),
      spec.Reads (coordinator.managerBlockSize spec) hitLength index →
        ∃ block position blockHash, blocks[index]? = some block ∧
          blockHashes[position]? = some blockHash ∧
          (blockPool.cachedBlockHashToBlock ⟨blockHash, groupId⟩).head? = some block ∧
          spec.EndsIn (coordinator.managerBlockSize spec) hitLength index
            ((position + 1) * coordinator.hashBlockSize)
  padded : spec.isMamba = true → ∀ index, index + 1 < blocks.length →
    blocks[index]? = some nullBlock

end HybridCoordinator

end GlmFlash.Cache
