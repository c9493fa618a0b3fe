import GlmFlash.Cache.Manager
import GlmFlash.Cache.PoolLedger

/-!
# Reference accounting of one manager

A manager refers to a block once for each occurrence in its request tables and
once for each undrained copy-on-write pair the block is an endpoint of.  Every
operation of a manager is balanced: whatever frame the pool accounts for beside
the manager before the operation, it accounts for beside it afterwards.  Every
operation that does not release blocks also retains what it refers to, in the
same row or as an endpoint of a pending copy.
-/

set_option linter.unusedSectionVars false

namespace GlmFlash.Cache

open GlmFlash.Library
open BlockPool (Accounts SameRefs)

variable {R H : Type} [DecidableEq R] [DecidableEq H]

/-- Both endpoints of each copy. -/
def endpoints (copies : List (BlockId × BlockId)) : List BlockId :=
  copies.flatMap fun copy => [copy.1, copy.2]

theorem endpoints_append (copies copies' : List (BlockId × BlockId)) :
    endpoints (copies ++ copies') = endpoints copies ++ endpoints copies' := by
  simp [endpoints]

namespace SingleTypeKVCacheManager

/-- The references one manager holds. -/
def refs (manager : SingleTypeKVCacheManager R H) (block : BlockId) : ℕ :=
  manager.reqToBlocks.occurrences block +
    (endpoints manager.pendingCowCopies).count block

theorem refs_setBlocks (manager : SingleTypeKVCacheManager R H)
    (requestId : R) (reqBlocks : List BlockId) (block : BlockId) :
    (manager.setBlocks requestId reqBlocks).refs block +
        (manager.blocks requestId).count block =
      manager.refs block + reqBlocks.count block := by
  have hrow := Tables.occurrences_setRow manager.reqToBlocks requestId
    reqBlocks block
  simp only [refs, setBlocks, blocks]
  omega

@[simp]
theorem blocks_setBlocks_self (manager : SingleTypeKVCacheManager R H)
    (requestId : R) (reqBlocks : List BlockId) :
    (manager.setBlocks requestId reqBlocks).blocks requestId = reqBlocks :=
  Tables.row_setRow_self _ _ _

@[simp]
theorem blocks_setBlocks_ne (manager : SingleTypeKVCacheManager R H)
    {requestId other : R} (hne : other ≠ requestId)
    (reqBlocks : List BlockId) :
    (manager.setBlocks requestId reqBlocks).blocks other =
      manager.blocks other :=
  Tables.row_setRow_ne _ hne _

/-- The pool accounts for the manager and a frame. -/
def Covers (pool : BlockPool H) (manager : SingleTypeKVCacheManager R H)
    (frame : BlockId → ℕ) : Prop :=
  Accounts pool fun block => frame block + manager.refs block

/-- An operation that neither loses nor invents a reference. -/
structure Balanced (pool : BlockPool H)
    (manager : SingleTypeKVCacheManager R H) (pool' : BlockPool H)
    (manager' : SingleTypeKVCacheManager R H) : Prop where
  covers : ∀ frame, Covers pool manager frame → Covers pool' manager' frame
  config_eq : pool'.config = pool.config
  spec_eq : manager'.toManagerSpec = manager.toManagerSpec

/-- An operation that keeps hold of every block and shortens no row.  Only a
request with blocks hands off a partial tail. -/
structure Retains (manager manager' : SingleTypeKVCacheManager R H) :
    Prop where
  row : ∀ requestId, ∀ block ∈ manager.blocks requestId, block ≠ nullBlock →
    block ∈ manager'.blocks requestId ∨
      block ∈ endpoints manager'.pendingCowCopies
  pending : ∀ block ∈ endpoints manager.pendingCowCopies,
    block ∈ endpoints manager'.pendingCowCopies
  length_le : ∀ requestId, (manager.blocks requestId).length ≤
    (manager'.blocks requestId).length
  offloads : ∀ entry ∈ manager'.pendingPartialTailOffloads,
    entry ∈ manager.pendingPartialTailOffloads ∨
      manager'.blocks entry.requestId ≠ []

theorem Balanced.refl (pool : BlockPool H)
    (manager : SingleTypeKVCacheManager R H) :
    Balanced pool manager pool manager :=
  ⟨fun _ hcovers => hcovers, rfl, rfl⟩

theorem Balanced.trans {pool middlePool finalPool : BlockPool H}
    {manager middle final : SingleTypeKVCacheManager R H}
    (hfirst : Balanced pool manager middlePool middle)
    (hsecond : Balanced middlePool middle finalPool final) :
    Balanced pool manager finalPool final where
  covers frame hcovers := hsecond.covers frame (hfirst.covers frame hcovers)
  config_eq := hsecond.config_eq.trans hfirst.config_eq
  spec_eq := hsecond.spec_eq.trans hfirst.spec_eq

theorem Retains.refl (manager : SingleTypeKVCacheManager R H) :
    Retains manager manager :=
  ⟨fun _ _ hmem _ => .inl hmem, fun _ hmem => hmem, fun _ => le_rfl,
    fun _ hmem => .inl hmem⟩

theorem Retains.trans {manager middle final : SingleTypeKVCacheManager R H}
    (hfirst : Retains manager middle) (hsecond : Retains middle final) :
    Retains manager final where
  row requestId block hmem hnull := by
    cases hfirst.row requestId block hmem hnull with
    | inl hrow => exact hsecond.row requestId block hrow hnull
    | inr hpending => exact .inr (hsecond.pending block hpending)
  pending block hmem := hsecond.pending block (hfirst.pending block hmem)
  length_le requestId :=
    (hfirst.length_le requestId).trans (hsecond.length_le requestId)
  offloads entry hmem := by
    cases hsecond.offloads entry hmem with
    | inr hrow => exact .inr hrow
    | inl hmiddle =>
        refine (hfirst.offloads entry hmiddle).imp id fun hrow => ?_
        have hpos := List.length_pos_iff.mpr hrow
        have hle := hsecond.length_le entry.requestId
        exact List.length_pos_iff.mp (hpos.trans_le hle)

theorem balanced_retains_trans {pool middlePool finalPool : BlockPool H}
    {manager middle final : SingleTypeKVCacheManager R H}
    (hfirst : Balanced pool manager middlePool middle ∧
      Retains manager middle)
    (hsecond : Balanced middlePool middle finalPool final ∧
      Retains middle final) :
    Balanced pool manager finalPool final ∧ Retains manager final :=
  ⟨hfirst.1.trans hsecond.1, hfirst.2.trans hsecond.2⟩

variable {pool pool' : BlockPool H}
  {manager manager' : SingleTypeKVCacheManager R H}

/-- Operations that touch neither tables nor copies, nor references. -/
theorem balanced_of_sameRefs (hsame : SameRefs pool pool')
    (htables : manager'.reqToBlocks = manager.reqToBlocks)
    (hpending : manager'.pendingCowCopies = manager.pendingCowCopies)
    (hspec : manager'.toManagerSpec = manager.toManagerSpec)
    (hoffloads : manager'.pendingPartialTailOffloads =
      manager.pendingPartialTailOffloads) :
    Balanced pool manager pool' manager' ∧ Retains manager manager' := by
  have hrefs : manager'.refs = manager.refs := by
    funext block
    rw [refs, refs, htables, hpending]
  refine ⟨⟨fun frame hcovers => ?_, hsame.config_eq, hspec⟩,
    ⟨fun requestId block hmem _ => .inl ?_, fun block hmem => ?_,
      fun requestId => ?_, fun entry hmem => .inl ?_⟩⟩
  · rw [Covers, hrefs]
    exact hsame.accounts hcovers
  · rw [blocks, htables]
    exact hmem
  · rw [hpending]
    exact hmem
  · rw [blocks, blocks, htables]
  · rw [← hoffloads]
    exact hmem

/-- Replacing a row while some copies become pending: what the new row and the
copies hold beyond the old row is `gained`, one reference each. -/
theorem balanced_setBlocks {requestId : R}
    {reqBlocks : List BlockId} (gained : List BlockId)
    (copies : List (BlockId × BlockId))
    (htables : manager'.reqToBlocks =
      manager.reqToBlocks.setRow requestId reqBlocks)
    (hpending : manager'.pendingCowCopies =
      manager.pendingCowCopies ++ copies)
    (hspec : manager'.toManagerSpec = manager.toManagerSpec)
    (hoffloads : ∀ entry ∈ manager'.pendingPartialTailOffloads,
      entry ∈ manager.pendingPartialTailOffloads ∨
        entry.requestId = requestId ∧ reqBlocks ≠ [])
    (hconfig : pool'.config = pool.config)
    (hlength : (manager.blocks requestId).length ≤ reqBlocks.length)
    (hcount : ∀ block ≠ nullBlock,
      reqBlocks.count block + (endpoints copies).count block =
        (manager.blocks requestId).count block + gained.count block)
    (hpool : ∀ refs, (∀ block, (manager.blocks requestId).count block ≤
        refs block) → Accounts pool refs →
      Accounts pool' fun block => refs block + gained.count block) :
    Balanced pool manager pool' manager' ∧ Retains manager manager' := by
  have hrefs : ∀ block ≠ nullBlock, manager'.refs block =
      manager.refs block + gained.count block := by
    intro block hnull
    have hrow := Tables.occurrences_setRow manager.reqToBlocks requestId
      reqBlocks block
    have hblock := hcount block hnull
    simp only [refs, htables, hpending, endpoints_append, List.count_append]
    simp only [blocks] at hblock
    omega
  refine ⟨⟨fun frame hcovers => ?_, hconfig, hspec⟩,
    ⟨fun other block hmem hnull => ?_, fun block hmem => ?_,
      fun other => ?_, fun entry hmem => ?_⟩⟩
  · refine (hpool _ (fun block => ?_) hcovers).congr fun block hnull => ?_
    · have hle := Tables.count_row_le manager.reqToBlocks requestId block
      simp only [refs, blocks]
      omega
    · rw [hrefs block hnull, Nat.add_assoc]
  · by_cases hother : other = requestId
    · subst hother
      have hblock := hcount block hnull
      have hpos := List.count_pos_iff.mpr hmem
      rw [blocks, htables, Tables.row_setRow_self, hpending, endpoints_append,
        List.mem_append]
      by_cases hrow : block ∈ reqBlocks
      · exact .inl hrow
      · rw [List.count_eq_zero_of_not_mem hrow] at hblock
        refine .inr (.inr (List.count_pos_iff.mp ?_))
        omega
    · rw [blocks, htables, Tables.row_setRow_ne _ hother]
      exact .inl hmem
  · rw [hpending, endpoints_append]
    exact List.mem_append_left _ hmem
  · by_cases hother : other = requestId
    · rw [hother, blocks, blocks, htables, Tables.row_setRow_self]
      exact hlength
    · rw [blocks, blocks, htables, Tables.row_setRow_ne _ hother]
  · refine (hoffloads entry hmem).imp id fun hentry => ?_
    rw [blocks, htables, hentry.1, Tables.row_setRow_self]
    exact hentry.2

/-! ## Demand and prefix blocks -/

theorem getNumBlocksToAllocate_balanced {numEncoderTokens : ℕ}
    {query : BlockQuery R} {demand : ℤ}
    (hrun : getNumBlocksToAllocate numEncoderTokens query pool manager =
      .ok (pool', manager', demand)) :
    Balanced pool manager pool' manager' ∧ Retains manager manager' := by
  have hsame : pool' = pool ∧ manager'.reqToBlocks = manager.reqToBlocks ∧
      manager'.pendingCowCopies = manager.pendingCowCopies ∧
      manager'.toManagerSpec = manager.toManagerSpec ∧
      manager'.pendingPartialTailOffloads =
        manager.pendingPartialTailOffloads := by
    unfold getNumBlocksToAllocate at hrun
    split at hrun
    · simp only [Except.ok.injEq, Prod.mk.injEq] at hrun
      obtain ⟨rfl, rfl, -⟩ := hrun
      exact ⟨rfl, rfl, rfl, rfl, rfl⟩
    · simp only [bind_eq_ok, pure_eq_ok, Prod.mk.injEq] at hrun
      obtain ⟨_, -, rfl, rfl, -⟩ := hrun
      exact ⟨rfl, rfl, rfl, rfl, rfl⟩
    · split at hrun
      · simp only [Except.ok.injEq, Prod.mk.injEq] at hrun
        obtain ⟨rfl, rfl, -⟩ := hrun
        exact ⟨rfl, rfl, rfl, rfl, rfl⟩
      · split at hrun
        · simp only [Except.ok.injEq, Prod.mk.injEq] at hrun
          obtain ⟨rfl, rfl, -⟩ := hrun
          split <;> exact ⟨rfl, rfl, rfl, rfl, rfl⟩
        · simp only [bind_eq_ok, pure_eq_ok, Prod.mk.injEq] at hrun
          obtain ⟨_, -, rfl, rfl, -⟩ := hrun
          exact ⟨rfl, rfl, rfl, rfl, rfl⟩
    all_goals
      simp only [bind_eq_ok, pure_eq_ok, Prod.mk.injEq] at hrun
      obtain ⟨_, -, rfl, rfl, -⟩ := hrun
      exact ⟨rfl, rfl, rfl, rfl, rfl⟩
  obtain ⟨rfl, htables, hpending, hspec, hoffloads⟩ := hsame
  exact balanced_of_sameRefs (SameRefs.refl pool') htables hpending hspec
    hoffloads

theorem addLocalComputedBlocksBase_balanced {requestId : R}
    {newComputedBlocks : List BlockId} {numLocal numExternal : ℕ} {token : Unit}
    (hrun : addLocalComputedBlocksBase requestId newComputedBlocks numLocal
      numExternal pool manager = .ok (pool', manager', token)) :
    Balanced pool manager pool' manager' ∧ Retains manager manager' := by
  simp only [addLocalComputedBlocksBase, bind_eq_ok, require_eq_ok] at hrun
  obtain ⟨_, hempty, _, -, touched, htouch, hrest⟩ := hrun
  set kept := newComputedBlocks.drop (manager.getNumSkippedTokens
    (numLocal + numExternal) / manager.blockSize)
  set skipped := manager.getNumSkippedTokens (numLocal + numExternal) /
    manager.blockSize
  have hupdate : pool' = touched ∧
      manager'.reqToBlocks = manager.reqToBlocks.setRow requestId
        (List.replicate skipped nullBlock ++ kept) ∧
      manager'.pendingCowCopies = manager.pendingCowCopies ∧
      manager'.toManagerSpec = manager.toManagerSpec ∧
      manager'.pendingPartialTailOffloads =
        manager.pendingPartialTailOffloads := by
    split at hrest
    · split at hrest <;>
      · simp only [pure_eq_ok, Prod.mk.injEq] at hrest
        obtain ⟨rfl, rfl, -⟩ := hrest
        exact ⟨rfl, rfl, rfl, rfl, rfl⟩
    · simp only [pure_eq_ok, Prod.mk.injEq] at hrest
      obtain ⟨rfl, rfl, -⟩ := hrest
      exact ⟨rfl, rfl, rfl, rfl, rfl⟩
  obtain ⟨rfl, htables, hpending, hspec, hoffloads⟩ := hupdate
  refine balanced_setBlocks kept [] htables (by simpa using hpending) hspec
    (fun entry hmem => .inl (hoffloads ▸ hmem))
    (BlockPool.config_touch htouch) (by simp [hempty])
    (fun block hnull => ?_) fun refs _ haccounts => BlockPool.touch_accounts htouch haccounts
  rw [List.count_append, count_replicate_ne hnull, hempty]
  simp [endpoints]

theorem addLocalComputedBlocks_balanced {requestId : R}
    {newComputedBlocks : List BlockId} {numLocal numExternal : ℕ} {token : Unit}
    (hrun : addLocalComputedBlocks requestId newComputedBlocks numLocal
      numExternal pool manager = .ok (pool', manager', token)) :
    Balanced pool manager pool' manager' ∧ Retains manager manager' := by
  unfold addLocalComputedBlocks at hrun
  split at hrun
  · simp only [Except.ok.injEq, Prod.mk.injEq] at hrun
    obtain ⟨rfl, rfl, -⟩ := hrun
    exact ⟨Balanced.refl _ _, Retains.refl _⟩
  · simp only [bind_eq_ok, pure_eq_ok, Prod.mk.injEq] at hrun
    obtain ⟨_, -, rfl, rfl, -⟩ := hrun
    exact ⟨Balanced.refl _ _, Retains.refl _⟩
  · exact addLocalComputedBlocksBase_balanced hrun

theorem extend_balanced {requestId : R} {numBlocks : ℤ}
    {newBlocks : List BlockId}
    (hrun : extend requestId numBlocks pool manager =
      .ok (pool', manager', newBlocks)) :
    Balanced pool manager pool' manager' ∧ Retains manager manager' := by
  simp only [extend, bind_eq_ok, pure_eq_ok, Prod.exists, Prod.mk.injEq]
    at hrun
  obtain ⟨_, _, hget, rfl, rfl, rfl⟩ := hrun
  refine balanced_setBlocks _ [] rfl (List.append_nil _).symm rfl
    (fun _ hmem => .inl hmem) (BlockPool.config_getNewBlocks hget)
    (by simp) (fun block _ => ?_) fun refs _ haccounts =>
      (BlockPool.getNewBlocks_handedOut hget haccounts).accounts
  rw [List.count_append]
  simp [endpoints]

theorem extendTail_balanced {requestId : R} {newBlocks : List BlockId}
    (hrun : extendTail requestId pool manager =
      .ok (pool', manager', newBlocks)) :
    Balanced pool manager pool' manager' ∧ Retains manager manager' := by
  unfold extendTail at hrun
  split at hrun
  · simp only [Except.ok.injEq, Prod.mk.injEq] at hrun
    obtain ⟨rfl, rfl, -⟩ := hrun
    exact ⟨Balanced.refl _ _, Retains.refl _⟩
  · exact extend_balanced hrun

theorem allocateExternalComputedBlocks_balanced {requestId : R}
    {numLocal numExternal : ℕ} {newBlocks : List BlockId}
    (hrun : allocateExternalComputedBlocks requestId numLocal numExternal
      pool manager = .ok (pool', manager', newBlocks)) :
    Balanced pool manager pool' manager' ∧ Retains manager manager' := by
  unfold allocateExternalComputedBlocks at hrun
  split at hrun
  · exact extendTail_balanced hrun
  · simp only [Except.ok.injEq, Prod.mk.injEq] at hrun
    obtain ⟨rfl, rfl, -⟩ := hrun
    exact ⟨Balanced.refl _ _, Retains.refl _⟩
  · dsimp only at hrun
    split at hrun
    · split at hrun
      · simp only [Except.ok.injEq, Prod.mk.injEq] at hrun
        obtain ⟨rfl, rfl, -⟩ := hrun
        exact ⟨Balanced.refl _ _, Retains.refl _⟩
      · exact extend_balanced hrun
    · split at hrun
      · simp only [Except.ok.injEq, Prod.mk.injEq] at hrun
        obtain ⟨rfl, rfl, -⟩ := hrun
        exact ⟨Balanced.refl _ _, Retains.refl _⟩
      · exact extend_balanced hrun

/-! ## Copy-on-write -/

/-- One block taken from the pool replaces the shared tail of a row; both
endpoints of the pair stay referenced until the copy has run. -/
theorem balanced_applyCow {pool taken pool' : BlockPool H}
    {manager copied cowed manager' : SingleTypeKVCacheManager R H}
    {requestId : R} {numBlocks : ℤ} {cowBlock sourceBlock : BlockId}
    {blockIdx : ℕ} {rest row reqBlocks : List BlockId}
    (hget : pool.getNewBlocks numBlocks = .ok (cowBlock :: rest, taken))
    (hcow : applyCow taken copied row blockIdx sourceBlock cowBlock =
      .ok (pool', cowed, reqBlocks))
    (hpending : copied.pendingCowCopies = manager.pendingCowCopies)
    (hrow : ∀ block ≠ nullBlock, row.count block =
      (manager.blocks requestId).count block)
    (htables : manager'.reqToBlocks =
      manager.reqToBlocks.setRow requestId (reqBlocks ++ rest))
    (hcopies : manager'.pendingCowCopies = cowed.pendingCowCopies)
    (hspec : manager'.toManagerSpec = manager.toManagerSpec)
    (hlength : (manager.blocks requestId).length ≤ row.length)
    (hoffloads : manager'.pendingPartialTailOffloads =
      manager.pendingPartialTailOffloads) :
    Balanced pool manager pool' manager' ∧ Retains manager manager' := by
  simp only [applyCow, bind_eq_ok, require_eq_ok, pure_eq_ok,
    Prod.mk.injEq] at hcow
  obtain ⟨_, hsource, _, -, rfl, rfl, rfl⟩ := hcow
  refine balanced_setBlocks (cowBlock :: cowBlock :: rest)
    [(sourceBlock, cowBlock)] htables (by rw [hcopies, hpending]) hspec
    (fun entry hmem => .inl (hoffloads ▸ hmem))
    (by rw [BlockPool.config_addRef, BlockPool.config_getNewBlocks hget])
    (by
      rw [List.length_append, List.length_set]
      omega)
    (fun block hnull => ?_)
    fun refs _ haccounts => ?_
  · have hset := count_set_add hsource cowBlock block
    have hcount := hrow block hnull
    simp only [endpoints, List.flatMap_cons, List.flatMap_nil, List.count_append,
      List.count_cons, List.count_nil] at hset ⊢
    omega
  · have htaken := (BlockPool.getNewBlocks_handedOut hget haccounts).accounts
    have htwice := htaken.retain cowBlock fun _ => by simp
    refine htwice.congr fun block _ => ?_
    simp only [List.count_cons, List.count_nil]
    omega

theorem spec_applyCow {row reqBlocks : List BlockId} {blockIdx : ℕ}
    {sourceBlock cowBlock : BlockId}
    (hcow : applyCow pool manager row blockIdx sourceBlock cowBlock =
      .ok (pool', manager', reqBlocks)) :
    manager'.reqToBlocks = manager.reqToBlocks ∧
      manager'.toManagerSpec = manager.toManagerSpec ∧
      manager'.pendingPartialTailOffloads =
        manager.pendingPartialTailOffloads := by
  simp only [applyCow, bind_eq_ok, require_eq_ok, pure_eq_ok,
    Prod.mk.injEq] at hcow
  obtain ⟨_, -, _, -, -, rfl, -⟩ := hcow
  exact ⟨rfl, rfl, rfl⟩

theorem redirectPartialHit_balanced {requestId : R} {cowBlocks : List BlockId}
    (hrun : redirectPartialHit requestId pool manager =
      .ok (pool', manager', cowBlocks)) :
    Balanced pool manager pool' manager' ∧ Retains manager manager' := by
  unfold redirectPartialHit at hrun
  split at hrun
  · simp only [Except.ok.injEq, Prod.mk.injEq] at hrun
    obtain ⟨rfl, rfl, -⟩ := hrun
    exact ⟨Balanced.refl _ _, Retains.refl _⟩
  · simp only [bind_eq_ok, Prod.exists] at hrun
    obtain ⟨newBlocks, taken, hget, hmatch⟩ := hrun
    split at hmatch
    · simp at hmatch
    · next cowBlock rest =>
        simp only [bind_eq_ok, Prod.exists, pure_eq_ok, Prod.mk.injEq]
          at hmatch
        obtain ⟨_, copied, reqBlocks, hcow, rfl, rfl, -⟩ := hmatch
        have hrest : rest = [] := by
          have hlength := BlockPool.length_getNewBlocks hget
          simpa using hlength
        subst hrest
        have hspec := spec_applyCow hcow
        exact balanced_applyCow hget hcow rfl (fun _ _ => rfl)
          (by rw [List.append_nil, setBlocks, hspec.1]) rfl hspec.2.1 le_rfl
          hspec.2.2

theorem allocateNewBlocksBase_balanced {requestId : R} {numTokens : ℕ}
    {newBlocks : List BlockId}
    (hrun : allocateNewBlocksBase requestId numTokens pool manager =
      .ok (pool', manager', newBlocks)) :
    Balanced pool manager pool' manager' ∧ Retains manager manager' := by
  simp only [allocateNewBlocksBase, bind_eq_ok, Prod.exists] at hrun
  obtain ⟨middlePool, middle, cowBlocks, hredirect, hrest⟩ := hrun
  have hfirst := redirectPartialHit_balanced hredirect
  split at hrest
  · simp only [pure_eq_ok, Prod.mk.injEq] at hrest
    obtain ⟨rfl, rfl, -⟩ := hrest
    exact hfirst
  · simp only [bind_eq_ok, Prod.exists, pure_eq_ok, Prod.mk.injEq] at hrest
    obtain ⟨_, _, _, hextend, rfl, rfl, -⟩ := hrest
    exact balanced_retains_trans hfirst (extend_balanced hextend)

/-! ## Mamba align mode -/

/-- Moving a speculative block and nulling its old position keeps every
proper block where it can be counted. -/
theorem count_reuseSpeculative {block : BlockId} (hnull : block ≠ nullBlock)
    (numSkippedBlocks : ℕ) (positions : List ℕ) (reqBlocks : List BlockId) :
    (reuseSpeculative numSkippedBlocks positions reqBlocks).count block =
      reqBlocks.count block := by
  induction positions generalizing reqBlocks with
  | nil => rfl
  | cons position positions ih =>
      rw [reuseSpeculative]
      split
      · rw [ih]
        by_cases hlt : position < reqBlocks.length
        · have hold : (reqBlocks ++ [reqBlocks.getD position
              nullBlock])[position]? = some (reqBlocks.getD position
              nullBlock) := by
            rw [List.getElem?_append_left hlt, List.getD_eq_getElem?_getD]
            simp [hlt]
          have hset := count_set_add hold nullBlock block
          have hfresh : [nullBlock].count block = 0 :=
            count_replicate_ne hnull 1
          rw [List.count_append] at hset
          omega
        · have hdefault : reqBlocks.getD position nullBlock = nullBlock := by
            rw [List.getD_eq_getElem?_getD, List.getElem?_eq_none (by omega)]
            rfl
          rw [hdefault]
          by_cases hend : position = reqBlocks.length
          · subst hend
            rw [List.set_append_right _ _ le_rfl, List.count_append]
            simp [Ne.symm hnull]
          · rw [List.set_eq_of_length_le (by
              rw [List.length_append, List.length_singleton]
              omega), List.count_append]
            simp [Ne.symm hnull]
      · rfl

theorem count_shiftedBlocks (manager : SingleTypeKVCacheManager R H)
    (spec : MambaSpec) (requestId : R) (numRequiredBlocks : ℕ)
    (block : BlockId) (hnull : block ≠ nullBlock) :
    (manager.shiftedBlocks spec requestId numRequiredBlocks).count block =
      (manager.blocks requestId).count block := by
  unfold shiftedBlocks
  dsimp only
  split
  · rw [count_reuseSpeculative hnull]
    split
    · rw [List.count_append, count_replicate_ne hnull, Nat.add_zero]
    · rfl
  · split
    · rw [List.count_append, count_replicate_ne hnull, Nat.add_zero]
    · rfl

theorem recordLastState_same (manager : SingleTypeKVCacheManager R H)
    (spec : MambaSpec) (requestId : R) :
    (manager.recordLastState spec requestId).reqToBlocks =
        manager.reqToBlocks ∧
      (manager.recordLastState spec requestId).pendingCowCopies =
        manager.pendingCowCopies ∧
      (manager.recordLastState spec requestId).toManagerSpec =
        manager.toManagerSpec ∧
      (manager.recordLastState spec requestId).pendingPartialTailOffloads =
        manager.pendingPartialTailOffloads := by
  unfold recordLastState
  dsimp only
  split
  · exact ⟨rfl, rfl, rfl, rfl⟩
  · split <;> exact ⟨rfl, rfl, rfl, rfl⟩

theorem length_reuseSpeculative_le (numSkippedBlocks : ℕ)
    (positions : List ℕ) (reqBlocks : List BlockId) :
    reqBlocks.length ≤
      (reuseSpeculative numSkippedBlocks positions reqBlocks).length := by
  induction positions generalizing reqBlocks with
  | nil => exact le_rfl
  | cons position positions ih =>
      rw [reuseSpeculative]
      split
      · refine le_trans ?_ (ih _)
        rw [List.length_set, List.length_append]
        omega
      · exact le_rfl

theorem length_shiftedBlocks_le (manager : SingleTypeKVCacheManager R H)
    (spec : MambaSpec) (requestId : R) (numRequiredBlocks : ℕ) :
    (manager.blocks requestId).length ≤
      (manager.shiftedBlocks spec requestId numRequiredBlocks).length := by
  unfold shiftedBlocks
  dsimp only
  split
  · refine le_trans ?_ (length_reuseSpeculative_le _ _ _)
    split
    · rw [List.length_append]
      omega
    · exact le_rfl
  · split
    · rw [List.length_append]
      omega
    · exact le_rfl

theorem balanced_preserveTail {pool taken pool' : BlockPool H}
    {manager copied preserved manager' : SingleTypeKVCacheManager R H}
    {requestId : R} {numBlocks : ℤ} {cowBlock sourceBlock : BlockId}
    {blockIdx : ℕ} {rest reqBlocks : List BlockId} {token : Unit}
    (hget : pool.getNewBlocks numBlocks = .ok (cowBlock :: rest, taken))
    (hpreserve : preserveTail requestId reqBlocks blockIdx sourceBlock
      cowBlock taken copied = .ok (pool', preserved, token))
    (hpending : copied.pendingCowCopies = manager.pendingCowCopies)
    (hrow : ∀ block ≠ nullBlock, reqBlocks.count block =
      (manager.blocks requestId).count block)
    (htables : manager'.reqToBlocks =
      manager.reqToBlocks.setRow requestId (reqBlocks ++ rest))
    (hcopies : manager'.pendingCowCopies = preserved.pendingCowCopies)
    (hspec : manager'.toManagerSpec = manager.toManagerSpec)
    (hlength : (manager.blocks requestId).length ≤ reqBlocks.length)
    (hcopied : copied.pendingPartialTailOffloads =
      manager.pendingPartialTailOffloads)
    (hoffloads : manager'.pendingPartialTailOffloads =
      preserved.pendingPartialTailOffloads) :
    Balanced pool manager pool' manager' ∧ Retains manager manager' := by
  simp only [preserveTail, bind_eq_ok, require_eq_ok, pure_eq_ok,
    Prod.mk.injEq] at hpreserve
  obtain ⟨_, hsource, moved, hmove, rfl, rfl, -⟩ := hpreserve
  have hsame := BlockPool.sameRefs_moveBlockHashes hmove
  refine balanced_setBlocks (sourceBlock :: cowBlock :: rest)
    [(sourceBlock, cowBlock)] htables (by rw [hcopies, hpending]) hspec
    (fun entry hmem => ?_)
    (by rw [BlockPool.config_addRef, hsame.config_eq,
      BlockPool.config_getNewBlocks hget])
    (by
      rw [List.length_append]
      omega)
    (fun block hnull => ?_) fun refs hheld haccounts => ?_
  · rw [hoffloads, List.mem_append, hcopied] at hmem
    refine hmem.imp id fun hnew => ?_
    have hrow' : reqBlocks ++ rest ≠ [] := by
      intro hnil
      rw [(List.append_eq_nil_iff.mp hnil).1] at hsource
      simp at hsource
    cases hproducer : copied.producerPartialTailReqs requestId with
    | none => simp [hproducer] at hnew
    | some boundary =>
        simp only [hproducer, List.mem_singleton] at hnew
        exact ⟨by rw [hnew], hrow'⟩
  · have hcount := hrow block hnull
    simp only [endpoints, List.flatMap_cons, List.flatMap_nil, List.count_append,
      List.count_cons, List.count_nil]
    omega
  · have htaken := (BlockPool.getNewBlocks_handedOut hget haccounts).accounts
    have hmoved := hsame.accounts htaken
    have hsourceUse : sourceBlock ≠ nullBlock →
        0 < refs sourceBlock + (cowBlock :: rest).count sourceBlock := by
      intro hnull
      have hmem : 0 < reqBlocks.count sourceBlock :=
        List.count_pos_iff.mpr (List.mem_of_getElem? hsource)
      rw [hrow sourceBlock hnull] at hmem
      have hle := hheld sourceBlock
      omega
    refine (hmoved.retain sourceBlock hsourceUse).congr fun block _ => ?_
    simp only [List.count_cons, List.count_nil]
    omega

theorem spec_preserveTail {requestId : R}
    {reqBlocks : List BlockId} {blockIdx : ℕ}
    {sourceBlock cowBlock : BlockId} {token : Unit}
    (hpreserve : preserveTail requestId reqBlocks blockIdx sourceBlock
      cowBlock pool manager = .ok (pool', manager', token)) :
    manager'.reqToBlocks = manager.reqToBlocks ∧
      manager'.toManagerSpec = manager.toManagerSpec := by
  simp only [preserveTail, bind_eq_ok, require_eq_ok, pure_eq_ok,
    Prod.mk.injEq] at hpreserve
  obtain ⟨_, -, _, -, -, rfl, -⟩ := hpreserve
  exact ⟨rfl, rfl⟩

theorem allocateNewBlocksAlign_balanced {spec : MambaSpec} {requestId : R}
    {numTokens : ℕ} {newBlocks : List BlockId}
    (hrun : allocateNewBlocksAlign spec requestId numTokens pool manager =
      .ok (pool', manager', newBlocks)) :
    Balanced pool manager pool' manager' ∧ Retains manager manager' := by
  unfold allocateNewBlocksAlign at hrun
  dsimp only at hrun
  split at hrun
  · simp only [Except.ok.injEq, Prod.mk.injEq] at hrun
    obtain ⟨rfl, rfl, -⟩ := hrun
    exact balanced_of_sameRefs (SameRefs.refl _) rfl rfl rfl rfl
  · simp only [bind_eq_ok, require_eq_ok, Prod.exists] at hrun
    obtain ⟨_, -, taken, middle, hget, hmatch⟩ := hrun
    obtain ⟨htables, hpending, hspec, hoffloads⟩ :=
      recordLastState_same manager spec requestId
    have hlength := length_shiftedBlocks_le manager spec requestId
      (cdiv numTokens manager.blockSize + spec.numSpeculativeBlocks)
    have hrow := count_shiftedBlocks manager spec requestId
      (cdiv numTokens manager.blockSize + spec.numSpeculativeBlocks)
    set shifted := manager.shiftedBlocks spec requestId
      (cdiv numTokens manager.blockSize + spec.numSpeculativeBlocks)
    split at hmatch
    · simp only [pure_eq_ok, Prod.mk.injEq] at hmatch
      obtain ⟨rfl, rfl, -⟩ := hmatch
      have hrows : (manager.recordLastState spec requestId).reqToBlocks.setRow
          requestId (shifted ++ taken) =
            manager.reqToBlocks.setRow requestId (shifted ++ taken) := by
        rw [htables]
      refine balanced_setBlocks taken [] hrows
        (by rw [setBlocks, hpending, List.append_nil]) hspec
        (fun _ hmem => .inl (hoffloads ▸ hmem))
        (BlockPool.config_getNewBlocks hget)
        (by
          rw [List.length_append]
          omega)
        (fun block hnull => ?_) fun refs _ haccounts =>
          (BlockPool.getNewBlocks_handedOut hget haccounts).accounts
      rw [List.count_append, hrow block hnull]
      simp [endpoints]
    · split at hmatch
      · simp at hmatch
      · split at hmatch
        · simp only [bind_eq_ok, Prod.exists, pure_eq_ok, Prod.mk.injEq]
            at hmatch
          obtain ⟨_, preserved, _, hpreserve, rfl, rfl, -⟩ := hmatch
          have hsame := spec_preserveTail hpreserve
          exact balanced_preserveTail hget hpreserve hpending hrow
            (by rw [setBlocks, hsame.1, htables]) rfl (hsame.2.trans hspec)
            hlength hoffloads rfl
        · simp only [bind_eq_ok, Prod.exists, pure_eq_ok, Prod.mk.injEq]
            at hmatch
          obtain ⟨_, copied, _, hcow, rfl, rfl, -⟩ := hmatch
          have hsame := spec_applyCow hcow
          exact balanced_applyCow hget hcow hpending hrow
            (by rw [setBlocks, hsame.1, htables]) rfl
            (hsame.2.1.trans hspec) hlength (hsame.2.2.trans hoffloads)

theorem allocateNewBlocks_balanced {requestId : R}
    {numTokens numTokensMainModel numEncoderTokens : ℕ}
    {newBlocks : List BlockId}
    (hrun : allocateNewBlocks requestId numTokens numTokensMainModel
      numEncoderTokens pool manager = .ok (pool', manager', newBlocks)) :
    Balanced pool manager pool' manager' ∧ Retains manager manager' := by
  unfold allocateNewBlocks at hrun
  split at hrun
  · exact extendTail_balanced hrun
  · exact allocateNewBlocksBase_balanced hrun
  · split at hrun
    · exact allocateNewBlocksAlign_balanced hrun
    · exact allocateNewBlocksBase_balanced hrun
  · exact allocateNewBlocksBase_balanced hrun

/-! ## Releasing blocks -/

/-- Replacing a row while handing the difference back to the pool. -/
theorem covers_freeBlocks {pool : BlockPool H}
    {freed : List BlockId} {frame : BlockId → ℕ}
    (htables : ∀ block ≠ nullBlock,
      manager'.refs block + freed.count block = manager.refs block)
    (hcovers : Covers pool manager frame) :
    Covers (pool.freeBlocks freed) manager' frame := by
  apply BlockPool.freeBlocks_accounts
  refine hcovers.congr fun block hnull => ?_
  have hblock := htables block hnull
  omega

theorem count_nullPositions {block : BlockId} (hnull : block ≠ nullBlock)
    (positions : List ℕ) (reqBlocks : List BlockId) :
    (nullPositions positions reqBlocks).1.count block +
        (nullPositions positions reqBlocks).2.count block =
      reqBlocks.count block := by
  induction positions generalizing reqBlocks with
  | nil => simp [nullPositions]
  | cons position positions ih =>
      rw [nullPositions]
      split
      · simp
      · next hproper =>
          have hold : reqBlocks[position]? =
              some (reqBlocks.getD position nullBlock) := by
            rw [List.getD_eq_getElem?_getD] at hproper ⊢
            cases hposition : reqBlocks[position]? with
            | none => simp [hposition] at hproper
            | some old => simp
          have hset := count_set_add hold nullBlock block
          have hrest := ih (reqBlocks.set position nullBlock)
          have hfresh : [nullBlock].count block = 0 :=
            count_replicate_ne hnull 1
          simp only [List.count_cons, List.count_nil] at hset ⊢ hfresh
          omega

theorem balanced_removeBlocksInRange (requestId : R)
    (firstBlock lastBlock : ℕ) (pool : BlockPool H)
    (manager : SingleTypeKVCacheManager R H) :
    Balanced pool manager
      (removeBlocksInRange requestId firstBlock lastBlock pool manager).1
      (removeBlocksInRange requestId firstBlock lastBlock pool manager).2 := by
  refine ⟨fun frame hcovers => ?_, BlockPool.config_freeBlocks _ _, rfl⟩
  refine covers_freeBlocks (fun block hnull => ?_)
    hcovers
  have hcount := count_nullPositions hnull
    (List.range' firstBlock (min lastBlock
      (manager.blocks requestId).length - firstBlock)).reverse
    (manager.blocks requestId)
  have hrow := refs_setBlocks manager requestId (nullPositions
    (List.range' firstBlock (min lastBlock
      (manager.blocks requestId).length - firstBlock)).reverse
    (manager.blocks requestId)).1 block
  dsimp only [removeBlocksInRange]
  omega

theorem balanced_removeSkippedBlocksBase (requestId : R)
    (processedComputedTokens : ℕ) (pool : BlockPool H)
    (manager : SingleTypeKVCacheManager R H) :
    Balanced pool manager
      (removeSkippedBlocksBase requestId processedComputedTokens pool
        manager).1
      (removeSkippedBlocksBase requestId processedComputedTokens pool
        manager).2 :=
  balanced_removeBlocksInRange requestId 0 _ pool manager

theorem balanced_removeLastState {requestId : R}
    {processedComputedTokens : ℕ} {token : Unit}
    (hrun : removeLastState requestId processedComputedTokens pool manager =
      .ok (pool', manager', token)) :
    Balanced pool manager pool' manager' := by
  unfold removeLastState at hrun
  split at hrun
  · simp only [Except.ok.injEq, Prod.mk.injEq] at hrun
    obtain ⟨rfl, rfl, -⟩ := hrun
    exact Balanced.refl _ _
  · next lastStateBlockIdx _ =>
    split at hrun
    · split at hrun
      · simp at hrun
      · next block hblock =>
          split at hrun
          · simp only [Except.ok.injEq, Prod.mk.injEq] at hrun
            obtain ⟨rfl, rfl, -⟩ := hrun
            exact Balanced.refl _ _
          · simp only [Except.ok.injEq, Prod.mk.injEq] at hrun
            obtain ⟨rfl, rfl, -⟩ := hrun
            refine ⟨fun frame hcovers => ?_,
              BlockPool.config_freeBlocks _ _, rfl⟩
            refine covers_freeBlocks (fun other hnull => ?_) hcovers
            have hset := count_set_add hblock nullBlock other
            have hfresh : [nullBlock].count other = 0 :=
              count_replicate_ne hnull 1
            have hrow := refs_setBlocks manager requestId
              ((manager.blocks requestId).set lastStateBlockIdx nullBlock) other
            omega
    · simp only [Except.ok.injEq, Prod.mk.injEq] at hrun
      obtain ⟨rfl, rfl, -⟩ := hrun
      exact Balanced.refl _ _

theorem removeSkippedBlocks_balanced {requestId : R}
    {processedComputedTokens : ℕ} {numPromptTokens : Option ℕ} {token : Unit}
    (hrun : removeSkippedBlocks requestId processedComputedTokens
      numPromptTokens pool manager = .ok (pool', manager', token)) :
    Balanced pool manager pool' manager' := by
  have hbase := balanced_removeSkippedBlocksBase requestId
    processedComputedTokens pool manager
  unfold removeSkippedBlocks at hrun
  split at hrun
  · simp only [Except.ok.injEq, Prod.mk.injEq] at hrun
    obtain ⟨rfl, rfl, -⟩ := hrun
    exact Balanced.refl _ _
  · split at hrun
    · simp only [Except.ok.injEq, Prod.mk.injEq] at hrun
      obtain ⟨rfl, rfl, -⟩ := hrun
      exact hbase
    · simp only [Except.ok.injEq, Prod.mk.injEq] at hrun
      obtain ⟨rfl, rfl, -⟩ := hrun
      exact balanced_removeBlocksInRange requestId _ _ pool manager
  · dsimp only at hrun
    split at hrun
    · exact hbase.trans (balanced_removeLastState hrun)
    · simp only [Except.ok.injEq, Prod.mk.injEq] at hrun
      obtain ⟨rfl, rfl, -⟩ := hrun
      exact hbase
  · simp only [Except.ok.injEq, Prod.mk.injEq] at hrun
    obtain ⟨rfl, rfl, -⟩ := hrun
    exact hbase

/-- Only the row of one request changes, and only in place. -/
structure Drops (requestId : R)
    (manager manager' : SingleTypeKVCacheManager R H) : Prop where
  spec_eq : manager'.toManagerSpec = manager.toManagerSpec
  cached_eq : manager'.numCachedBlock = manager.numCachedBlock
  hits_eq : manager'.partialHitReqs = manager.partialHitReqs
  allocated_eq : manager'.allocatedBlockReqs = manager.allocatedBlockReqs
  row_ne : ∀ other ≠ requestId, manager'.blocks other = manager.blocks other
  length_eq : (manager'.blocks requestId).length =
    (manager.blocks requestId).length
  pending_eq : manager'.pendingCowCopies = manager.pendingCowCopies
  offloads_eq : manager'.pendingPartialTailOffloads =
    manager.pendingPartialTailOffloads

theorem Drops.refl (requestId : R)
    (manager : SingleTypeKVCacheManager R H) :
    Drops requestId manager manager :=
  ⟨rfl, rfl, rfl, rfl, fun _ _ => rfl, rfl, rfl, rfl⟩

theorem Drops.trans {requestId : R}
    {manager middle final : SingleTypeKVCacheManager R H}
    (hfirst : Drops requestId manager middle)
    (hsecond : Drops requestId middle final) :
    Drops requestId manager final where
  spec_eq := hsecond.spec_eq.trans hfirst.spec_eq
  cached_eq := hsecond.cached_eq.trans hfirst.cached_eq
  hits_eq := hsecond.hits_eq.trans hfirst.hits_eq
  allocated_eq := hsecond.allocated_eq.trans hfirst.allocated_eq
  row_ne other hother :=
    (hsecond.row_ne other hother).trans (hfirst.row_ne other hother)
  length_eq := hsecond.length_eq.trans hfirst.length_eq
  pending_eq := hsecond.pending_eq.trans hfirst.pending_eq
  offloads_eq := hsecond.offloads_eq.trans hfirst.offloads_eq

theorem drops_setBlocks (manager : SingleTypeKVCacheManager R H)
    {requestId : R} {reqBlocks : List BlockId}
    (hlength : reqBlocks.length = (manager.blocks requestId).length) :
    Drops requestId manager (manager.setBlocks requestId reqBlocks) where
  spec_eq := rfl
  cached_eq := rfl
  hits_eq := rfl
  allocated_eq := rfl
  row_ne other hother := blocks_setBlocks_ne manager hother reqBlocks
  length_eq := by
    rw [blocks_setBlocks_self]
    exact hlength
  pending_eq := rfl
  offloads_eq := rfl

theorem length_nullPositions (positions : List ℕ)
    (reqBlocks : List BlockId) :
    (nullPositions positions reqBlocks).1.length = reqBlocks.length := by
  induction positions generalizing reqBlocks with
  | nil => rfl
  | cons position positions ih =>
      rw [nullPositions]
      split
      · rfl
      · rw [ih, List.length_set]

theorem drops_removeBlocksInRange (requestId : R)
    (firstBlock lastBlock : ℕ) (pool : BlockPool H)
    (manager : SingleTypeKVCacheManager R H) :
    Drops requestId manager
      (removeBlocksInRange requestId firstBlock lastBlock pool manager).2 :=
  drops_setBlocks manager (length_nullPositions _ _)

theorem removeLastState_drops {requestId : R}
    {processedComputedTokens : ℕ} {token : Unit}
    (hrun : removeLastState requestId processedComputedTokens pool manager =
      .ok (pool', manager', token)) :
    Drops requestId manager manager' := by
  unfold removeLastState at hrun
  split at hrun
  · simp only [Except.ok.injEq, Prod.mk.injEq] at hrun
    obtain ⟨-, rfl, -⟩ := hrun
    exact Drops.refl _ _
  · split at hrun
    · split at hrun
      · simp at hrun
      · split at hrun
        · simp only [Except.ok.injEq, Prod.mk.injEq] at hrun
          obtain ⟨-, rfl, -⟩ := hrun
          exact Drops.refl _ _
        · simp only [Except.ok.injEq, Prod.mk.injEq] at hrun
          obtain ⟨-, rfl, -⟩ := hrun
          exact drops_setBlocks manager (List.length_set)
    · simp only [Except.ok.injEq, Prod.mk.injEq] at hrun
      obtain ⟨-, rfl, -⟩ := hrun
      exact Drops.refl _ _

theorem removeSkippedBlocks_drops {requestId : R}
    {processedComputedTokens : ℕ} {numPromptTokens : Option ℕ} {token : Unit}
    (hrun : removeSkippedBlocks requestId processedComputedTokens
      numPromptTokens pool manager = .ok (pool', manager', token)) :
    Drops requestId manager manager' := by
  unfold removeSkippedBlocks at hrun
  split at hrun
  · simp only [Except.ok.injEq, Prod.mk.injEq] at hrun
    obtain ⟨-, rfl, -⟩ := hrun
    exact Drops.refl _ _
  · split at hrun
    · simp only [Except.ok.injEq, Prod.mk.injEq] at hrun
      obtain ⟨-, rfl, -⟩ := hrun
      exact drops_removeBlocksInRange _ _ _ pool manager
    · simp only [Except.ok.injEq, Prod.mk.injEq] at hrun
      obtain ⟨-, rfl, -⟩ := hrun
      exact drops_removeBlocksInRange _ _ _ pool manager
  · dsimp only at hrun
    split at hrun
    · exact (drops_removeBlocksInRange _ _ _ pool manager).trans
        (removeLastState_drops hrun)
    · simp only [Except.ok.injEq, Prod.mk.injEq] at hrun
      obtain ⟨-, rfl, -⟩ := hrun
      exact drops_removeBlocksInRange _ _ _ pool manager
  · simp only [Except.ok.injEq, Prod.mk.injEq] at hrun
    obtain ⟨-, rfl, -⟩ := hrun
    exact drops_removeBlocksInRange _ _ _ pool manager

/-- A popped row leaves the manager with its references. -/
theorem refs_popBlocksForFree (manager : SingleTypeKVCacheManager R H)
    (requestId : R) (block : BlockId) :
    (manager.popBlocksForFree requestId).2.refs block +
        (manager.popBlocksForFree requestId).1.count block =
      manager.refs block := by
  have hrow := Tables.occurrences_dropRow manager.reqToBlocks requestId block
  simp only [refs, popBlocksForFree, blocks]
  omega

theorem balanced_free (requestId : R) (pool : BlockPool H)
    (manager : SingleTypeKVCacheManager R H) :
    Balanced pool manager (free requestId pool manager).1
      (free requestId pool manager).2 := by
  refine ⟨fun frame hcovers => ?_, BlockPool.config_freeBlocks _ _, rfl⟩
  refine covers_freeBlocks (fun block _ => ?_)
    hcovers
  rw [List.count_reverse]
  exact refs_popBlocksForFree manager requestId block

/-! ## Caching -/

/-- A group of states notes where the state of a prompt tail is kept. -/
def NotesTail (requestId : R) (numTokens : ℕ)
    (manager manager' : SingleTypeKVCacheManager R H) : Prop :=
  ∃ spec sourceBlock, manager.kind = .mamba spec ∧ sourceBlock ≠ nullBlock ∧
    numTokens % manager.blockSize ≠ 0 ∧
    manager'.partialHitReqs requestId =
      some (numTokens / manager.blockSize, sourceBlock)

/-- Beside the hash map, only the notes on one request change. -/
structure CachesFor (requestId : R) (numTokens : ℕ) (pool : BlockPool H)
    (manager : SingleTypeKVCacheManager R H) (pool' : BlockPool H)
    (manager' : SingleTypeKVCacheManager R H) : Prop where
  sameRefs : SameRefs pool pool'
  spec_eq : manager'.toManagerSpec = manager.toManagerSpec
  tables_eq : manager'.reqToBlocks = manager.reqToBlocks
  pending_eq : manager'.pendingCowCopies = manager.pendingCowCopies
  offloads_eq : manager'.pendingPartialTailOffloads =
    manager.pendingPartialTailOffloads
  allocated_eq : manager'.allocatedBlockReqs = manager.allocatedBlockReqs
  cached_ne : ∀ other ≠ requestId,
    manager'.numCachedBlock other = manager.numCachedBlock other
  hits_ne : ∀ other ≠ requestId,
    manager'.partialHitReqs other = manager.partialHitReqs other
  hit : manager'.partialHitReqs requestId =
      manager.partialHitReqs requestId ∨
    NotesTail requestId numTokens manager manager'

section Caching

variable {request : Request R H} {numTokens : ℕ} {pool pool' : BlockPool H}
  {manager manager' : SingleTypeKVCacheManager R H} {token : Unit}

theorem CachesFor.refl (requestId : R) (numTokens : ℕ) (pool : BlockPool H)
    (manager : SingleTypeKVCacheManager R H) :
    CachesFor requestId numTokens pool manager pool manager :=
  ⟨SameRefs.refl pool, rfl, rfl, rfl, rfl, rfl, fun _ _ => rfl,
    fun _ _ => rfl, .inl rfl⟩

theorem CachesFor.trans {requestId : R} {middlePool finalPool : BlockPool H}
    {middle final : SingleTypeKVCacheManager R H}
    (hfirst : CachesFor requestId numTokens pool manager middlePool middle)
    (hsecond : CachesFor requestId numTokens middlePool middle finalPool
      final) :
    CachesFor requestId numTokens pool manager finalPool final where
  sameRefs := hfirst.sameRefs.trans hsecond.sameRefs
  spec_eq := hsecond.spec_eq.trans hfirst.spec_eq
  tables_eq := hsecond.tables_eq.trans hfirst.tables_eq
  pending_eq := hsecond.pending_eq.trans hfirst.pending_eq
  offloads_eq := hsecond.offloads_eq.trans hfirst.offloads_eq
  allocated_eq := hsecond.allocated_eq.trans hfirst.allocated_eq
  cached_ne other hother :=
    (hsecond.cached_ne other hother).trans (hfirst.cached_ne other hother)
  hits_ne other hother :=
    (hsecond.hits_ne other hother).trans (hfirst.hits_ne other hother)
  hit := by
    cases hsecond.hit with
    | inl hsame =>
        rw [NotesTail, hsame]
        exact hfirst.hit
    | inr hnotes =>
        rw [NotesTail, hfirst.spec_eq] at hnotes
        exact .inr hnotes

theorem CachesFor.balanced {requestId : R}
    (hcaches : CachesFor requestId numTokens pool manager pool' manager') :
    Balanced pool manager pool' manager' ∧ Retains manager manager' :=
  balanced_of_sameRefs hcaches.sameRefs hcaches.tables_eq hcaches.pending_eq
    hcaches.spec_eq hcaches.offloads_eq

theorem cacheBlocksBase_caches {retentionInterval : Option ℕ}
    (hrun : cacheBlocksBase request numTokens retentionInterval pool manager =
      .ok (pool', manager', token)) :
    CachesFor request.requestId numTokens pool manager pool' manager' := by
  unfold cacheBlocksBase at hrun
  dsimp only at hrun
  split at hrun
  · simp only [Except.ok.injEq, Prod.mk.injEq] at hrun
    obtain ⟨rfl, rfl, -⟩ := hrun
    exact CachesFor.refl _ _ _ _
  · simp only [bind_eq_ok, pure_eq_ok, Prod.mk.injEq] at hrun
    obtain ⟨_, hcache, rfl, rfl, -⟩ := hrun
    exact ⟨BlockPool.sameRefs_cacheFullBlocks hcache, rfl, rfl, rfl, rfl, rfl,
      fun other hother => Function.update_of_ne hother _ _, fun _ _ => rfl,
      .inl rfl⟩

theorem cachePromptTail_caches
    (hrun : cachePromptTail request numTokens pool manager =
      .ok (pool', manager', token)) :
    CachesFor request.requestId numTokens pool manager pool' manager' := by
  unfold cachePromptTail at hrun
  dsimp only at hrun
  split at hrun
  · simp only [Except.ok.injEq, Prod.mk.injEq] at hrun
    obtain ⟨rfl, rfl, -⟩ := hrun
    exact CachesFor.refl _ _ _ _
  · split at hrun
    · simp only [Except.ok.injEq, Prod.mk.injEq] at hrun
      obtain ⟨rfl, rfl, -⟩ := hrun
      exact CachesFor.refl _ _ _ _
    · simp only [bind_eq_ok, Prod.exists, pure_eq_ok, Prod.mk.injEq] at hrun
      obtain ⟨_, _, hcache, rfl, rfl, -⟩ := hrun
      exact ⟨BlockPool.sameRefs_cachePartialBlock hcache, rfl, rfl, rfl, rfl,
        rfl, fun _ _ => rfl, fun _ _ => rfl, .inl rfl⟩

theorem cacheStateTail_caches {spec : MambaSpec}
    (hkind : manager.kind = .mamba spec)
    (hrun : cacheStateTail request numTokens pool manager =
      .ok (pool', manager', token)) :
    CachesFor request.requestId numTokens pool manager pool' manager' := by
  unfold cacheStateTail at hrun
  dsimp only at hrun
  split at hrun
  · simp only [Except.ok.injEq, Prod.mk.injEq] at hrun
    obtain ⟨rfl, rfl, -⟩ := hrun
    exact CachesFor.refl _ _ _ _
  · next hinside =>
    simp only [not_or] at hinside
    split at hrun
    · simp only [Except.ok.injEq, Prod.mk.injEq] at hrun
      obtain ⟨rfl, rfl, -⟩ := hrun
      exact CachesFor.refl _ _ _ _
    · next sourceBlock _ =>
      split at hrun
      · simp only [Except.ok.injEq, Prod.mk.injEq] at hrun
        obtain ⟨rfl, rfl, -⟩ := hrun
        exact CachesFor.refl _ _ _ _
      · next hnull =>
        simp only [bind_eq_ok, Prod.exists] at hrun
        obtain ⟨_, _, hcache, hmatch⟩ := hrun
        have hsame := BlockPool.sameRefs_cachePartialBlock hcache
        split at hmatch
        · simp only [pure_eq_ok, Prod.mk.injEq] at hmatch
          obtain ⟨rfl, rfl, -⟩ := hmatch
          exact ⟨hsame, rfl, rfl, rfl, rfl, rfl, fun _ _ => rfl,
            fun _ _ => rfl, .inl rfl⟩
        · simp only [pure_eq_ok, Prod.mk.injEq] at hmatch
          obtain ⟨rfl, rfl, -⟩ := hmatch
          exact ⟨hsame, rfl, rfl, rfl, rfl, rfl,
            fun other hother => Function.update_of_ne hother _ _,
            fun other hother => Function.update_of_ne hother _ _,
            .inr ⟨spec, sourceBlock, hkind, hnull, hinside.2.1,
              Function.update_self _ _ _⟩⟩

theorem cacheBlocks_caches {retentionInterval : Option ℕ}
    (hrun : cacheBlocks request numTokens retentionInterval pool manager =
      .ok (pool', manager', token)) :
    CachesFor request.requestId numTokens pool manager pool' manager' := by
  unfold cacheBlocks at hrun
  split at hrun
  · simp only [Except.ok.injEq, Prod.mk.injEq] at hrun
    obtain ⟨rfl, rfl, -⟩ := hrun
    exact CachesFor.refl _ _ _ _
  · simp at hrun
  · simp only [bind_eq_ok, Prod.exists] at hrun
    obtain ⟨_, _, _, hbase, htail⟩ := hrun
    exact (cacheBlocksBase_caches hbase).trans (cachePromptTail_caches htail)
  · simp only [bind_eq_ok, Prod.exists] at hrun
    obtain ⟨_, _, _, hbase, htail⟩ := hrun
    exact (cacheBlocksBase_caches hbase).trans (cachePromptTail_caches htail)
  · exact cacheBlocksBase_caches hrun
  · exact cacheBlocksBase_caches hrun
  · next spec hkind =>
    simp only [bind_eq_ok, Prod.exists] at hrun
    obtain ⟨middlePool, middle, _, hbase, hrest⟩ := hrun
    have hcaches := cacheBlocksBase_caches hbase
    have hkind' : middle.kind = .mamba spec := by
      rw [hcaches.spec_eq]
      exact hkind
    have hnote : ∀ (before after : ℕ) (pool : BlockPool H) manager,
        CachesFor request.requestId numTokens pool manager pool
          (noteCachedBlocks request.requestId before after pool manager) :=
      fun _ _ pool _ => ⟨SameRefs.refl pool, rfl, rfl, rfl, rfl, rfl,
        fun _ _ => rfl, fun _ _ => rfl, .inl rfl⟩
    refine hcaches.trans ?_
    split at hrest
    · simp only [bind_eq_ok, Prod.exists, pure_eq_ok, Prod.mk.injEq] at hrest
      obtain ⟨_, _, _, htail, rfl, rfl, -⟩ := hrest
      exact (cacheStateTail_caches hkind' htail).trans (hnote _ _ _ _)
    · simp only [bind_eq_ok, pure_eq_ok, Prod.exists, Prod.mk.injEq] at hrest
      obtain ⟨_, _, _, ⟨rfl, rfl, -⟩, rfl, rfl, -⟩ := hrest
      exact hnote _ _ _ _

end Caching

end SingleTypeKVCacheManager

end GlmFlash.Cache
