import GlmFlash.Cache.Capacity
import Mathlib.Algebra.Order.BigOperators.Group.List

/-!
# Capacity over whole runs

The conditions of a capacity check speak of one call.  What they rest on holds
in every state that a run reaches: the pool accounts for its blocks, its counter
is the length of the free queue, and the notes that each group keeps on a
request agree with the row of the request.
-/

set_option linter.unusedSectionVars false

namespace GlmFlash.Cache

open GlmFlash.Library
open BlockPool (Accounts Sound Grows Counted supply)

variable {R H : Type} [DecidableEq R] [DecidableEq H]

namespace SingleTypeKVCacheManager

variable {caching : Bool} {requestId : R}
  {manager manager' : SingleTypeKVCacheManager R H}

/-! ## Groups that stay steady -/

theorem Drops.elsewhere (hdrops : Drops requestId manager manager') :
    Elsewhere requestId manager manager' where
  spec_eq := hdrops.spec_eq
  same other hother :=
    ⟨hdrops.row_ne other hother, congrFun hdrops.cached_eq other,
      congrFun hdrops.hits_eq other, congrFun hdrops.allocated_eq other⟩

/-- Nulling columns leaves the notes right, since the row keeps its length. -/
theorem Drops.steady (hdrops : Drops requestId manager manager')
    (hsteady : manager.Steady caching) : manager'.Steady caching := by
  apply hsteady.elsewhere hdrops.elsewhere
  have hlength := hdrops.length_eq
  constructor
  · intro hempty
    rw [hdrops.cached_eq, hdrops.hits_eq, hdrops.allocated_eq]
    apply (hsteady.rows requestId).fresh
    rw [hempty, List.length_nil] at hlength
    exact List.length_eq_zero_iff.mp hlength.symm
  · have hcolumns := (hsteady.rows requestId).columns
    unfold StateColumns at hcolumns ⊢
    rw [hdrops.spec_eq, hdrops.hits_eq, hdrops.allocated_eq, hlength]
    exact hcolumns

theorem Billed.steady (hbilled : Billed manager manager')
    (hsteady : manager.Steady caching) : manager'.Steady caching where
  kind := by
    rw [hbilled]
    exact hsteady.kind
  rows requestId := hbilled.steadyFor (hsteady.rows requestId)

/-- A tail can be noted where the row reaches. -/
theorem CachesFor.steady {numTokens numTokensMainModel : ℕ}
    {pool pool' : BlockPool H}
    (hcaches : CachesFor requestId numTokens pool manager pool' manager')
    (hcaching : caching = true) (hle : numTokens ≤ numTokensMainModel)
    (hprovisioned : manager.Provisioned requestId numTokensMainModel)
    (hsteady : manager.Steady caching) : manager'.Steady caching := by
  obtain ⟨hrow, hreach⟩ := hprovisioned
  have hblocks : ∀ other, manager'.blocks other = manager.blocks other := by
    intro other
    rw [blocks, hcaches.tables_eq]
    rfl
  have helsewhere : Elsewhere requestId manager manager' :=
    ⟨hcaches.spec_eq, fun other hother =>
      ⟨hblocks other, hcaches.cached_ne other hother,
        hcaches.hits_ne other hother, congrFun hcaches.allocated_eq other⟩⟩
  apply hsteady.elsewhere helsewhere
  constructor
  · intro hempty
    exact absurd ((hblocks requestId).symm.trans hempty) hrow
  · have hcolumns := (hsteady.rows requestId).columns
    unfold StateColumns at hcolumns ⊢
    rw [hcaches.spec_eq, hcaches.allocated_eq, hblocks]
    cases hcase : manager.kind with
    | mamba spec =>
        rw [hcase] at hcolumns hreach
        refine ⟨hcolumns.1, fun blockIdx sourceBlock hpartialHit => ?_⟩
        cases hcaches.hit with
        | inl hsame =>
            exact hcolumns.2 blockIdx sourceBlock (hsame ▸ hpartialHit)
        | inr hnotes =>
            obtain ⟨spec', source, hkind, hnull, hmod, hnote⟩ := hnotes
            rw [hnote] at hpartialHit
            simp only [Option.some.injEq, Prod.mk.injEq] at hpartialHit
            obtain ⟨rfl, rfl⟩ := hpartialHit
            have hcolumn := cdiv_of_mod_ne_zero manager.blockSize_pos hmod
            have hmono := cdiv_mono manager.blockSize_pos hle
            have hreached := hreach spec rfl
            exact ⟨hcaching, hnull, by omega⟩
    | _ =>
        rw [hcase] at hcolumns
        cases hcaches.hit with
        | inl hsame => exact hsame.trans hcolumns
        | inr hnotes =>
            obtain ⟨_, _, hkind, -⟩ := hnotes
            rw [hcase] at hkind
            cases hkind

theorem popBlocksForFree_steady (requestId : R)
    (hsteady : manager.Steady caching) :
    (manager.popBlocksForFree requestId).2.Steady caching := by
  have helsewhere : Elsewhere requestId manager
      (manager.popBlocksForFree requestId).2 :=
    ⟨rfl, fun other hother => ⟨Tables.row_dropRow_ne _ hother,
      Function.update_of_ne hother _ _, Function.update_of_ne hother _ _,
      Function.update_of_ne hother _ _⟩⟩
  apply hsteady.elsewhere helsewhere
  have hcached : (manager.popBlocksForFree requestId).2.numCachedBlock
      requestId = none := Function.update_self _ _ _
  have hhit : (manager.popBlocksForFree requestId).2.partialHitReqs
      requestId = none := Function.update_self _ _ _
  have hallocated : (manager.popBlocksForFree requestId).2.allocatedBlockReqs
      requestId = false := Function.update_self _ _ _
  refine ⟨fun _ => ⟨hcached, hhit, hallocated⟩, ?_⟩
  unfold StateColumns
  split
  · refine ⟨fun htrue => ?_, fun blockIdx sourceBlock hpartialHit => ?_⟩
    · rw [hallocated] at htrue
      cases htrue
    · rw [hhit] at hpartialHit
      cases hpartialHit
  · exact hhit

theorem Steady.congr (hsteady : manager.Steady caching)
    (hspec : manager'.toManagerSpec = manager.toManagerSpec)
    (hsame : ∀ requestId, SameFor requestId manager manager') :
    manager'.Steady caching where
  kind := by
    rw [hspec]
    exact hsteady.kind
  rows requestId := (hsteady.rows requestId).same hspec (hsame requestId)

theorem removeSkippedBlocks_counted {processedComputedTokens : ℕ}
    {numPromptTokens : Option ℕ} {pool pool' : BlockPool H} {token : Unit}
    (hrun : removeSkippedBlocks requestId processedComputedTokens
      numPromptTokens pool manager = .ok (pool', manager', token))
    (hcounted : Counted pool) : Counted pool' := by
  have hrange : ∀ firstBlock lastBlock, Counted (removeBlocksInRange requestId
      firstBlock lastBlock pool manager).1 := fun _ _ =>
    BlockPool.counted_freeBlocks hcounted _
  have hlast : ∀ {start final : BlockPool H}
      {before after : SingleTypeKVCacheManager R H} {token : Unit},
      removeLastState requestId processedComputedTokens start before =
        .ok (final, after, token) → Counted start → Counted final := by
    intro start final before after token hremove hstart
    unfold removeLastState at hremove
    split at hremove
    · cases hremove
      exact hstart
    · split at hremove
      · split at hremove
        · cases hremove
        · split at hremove
          · cases hremove
            exact hstart
          · cases hremove
            exact BlockPool.counted_freeBlocks hstart _
      · cases hremove
        exact hstart
  unfold removeSkippedBlocks at hrun
  split at hrun
  · cases hrun
    exact hcounted
  · split at hrun
    · cases hrun
      exact hrange _ _
    · cases hrun
      exact hrange _ _
  · dsimp only at hrun
    split at hrun
    · exact hlast hrun (hrange _ _)
    · cases hrun
      exact hrange _ _
  · cases hrun
    exact hrange _ _

end SingleTypeKVCacheManager

namespace KVCacheManager

open SingleTypeKVCacheManager (Drops CachesFor)

/-! ## Passes that keep the counter -/

variable {self self' : KVCacheManager R H}

theorem onManagers_counted {A : Type}
    {round : BlockPool H → SingleTypeKVCacheManager R H →
      Except Failure (Updated R H A)} {results : List A}
    (hrun : self.onManagers round = .ok (self', results))
    (hround : ∀ pool manager pool' manager' result,
      round pool manager = .ok (pool', manager', result) → Counted pool →
        Counted pool')
    (hcounted : Counted self.blockPool) : Counted self'.blockPool := by
  simp only [onManagers, bind_eq_ok, Prod.exists, pure_eq_ok,
    Prod.mk.injEq] at hrun
  obtain ⟨pool', managers', _, hthread, rfl, -⟩ := hrun
  exact threadCells_invariant hround hthread hcounted

theorem onManagers_related {A : Type}
    {round : BlockPool H → SingleTypeKVCacheManager R H →
      Except Failure (Updated R H A)} {results : List A}
    {relation : SingleTypeKVCacheManager R H →
      SingleTypeKVCacheManager R H → Prop}
    (hrun : self.onManagers round = .ok (self', results))
    (hround : ∀ pool manager pool' manager' result,
      round pool manager = .ok (pool', manager', result) →
        relation manager manager') :
    List.Forall₂ relation self.singleTypeManagers self'.singleTypeManagers := by
  simp only [onManagers, bind_eq_ok, Prod.exists, pure_eq_ok,
    Prod.mk.injEq] at hrun
  obtain ⟨pool', managers', _, hthread, rfl, -⟩ := hrun
  exact threadCells_forall₂ hround hthread

/-- What every call keeps beside the ledger. -/
structure Kept (kvCacheManager : KVCacheManager R H) : Prop where
  maxModelLen_pos : 0 < kvCacheManager.maxModelLen
  counted : Counted kvCacheManager.blockPool
  steady : ∀ manager ∈ kvCacheManager.singleTypeManagers,
    manager.Steady kvCacheManager.blockPool.enableCaching

theorem enableCaching_of_config {pool pool' : BlockPool H}
    (hconfig : pool'.config = pool.config) :
    pool'.enableCaching = pool.enableCaching :=
  congrArg (fun config => config.2.1) hconfig

theorem Kept.of (hkept : self.Kept)
    (hpolicy : self'.toAllocationPolicy = self.toAllocationPolicy)
    (hconfig : self'.blockPool.config = self.blockPool.config)
    (hcounted : Counted self'.blockPool)
    (hsteady : ∀ manager ∈ self'.singleTypeManagers,
      manager.Steady self.blockPool.enableCaching) : self'.Kept where
  maxModelLen_pos := by
    rw [hpolicy]
    exact hkept.maxModelLen_pos
  counted := hcounted
  steady := by
    rw [enableCaching_of_config hconfig]
    exact hsteady

/-- A group of the successor, when every group stays steady. -/
theorem steady_of_forall₂ {caching : Bool}
    {managers managers' : List (SingleTypeKVCacheManager R H)}
    {relation : SingleTypeKVCacheManager R H →
      SingleTypeKVCacheManager R H → Prop}
    (hgroups : List.Forall₂ relation managers managers')
    (hrelation : ∀ manager ∈ managers, ∀ manager',
      relation manager manager' → manager'.Steady caching) :
    ∀ manager' ∈ managers', manager'.Steady caching := by
  intro manager' hmem
  obtain ⟨manager, hmanager, hrelated⟩ := forall₂_mem_right hgroups hmem
  exact hrelation manager hmanager manager' hrelated

theorem Kept.removeSkippedBlocks {requestId : R} {processedComputedTokens : ℕ}
    {numPromptTokens : Option ℕ} (hkept : self.Kept)
    (hrun : self.removeSkippedBlocks requestId processedComputedTokens
      numPromptTokens = .ok self') : self'.Kept := by
  have hconserves := removeSkippedBlocks_conserves hrun
  apply hkept.of hconserves.policy_eq hconserves.config_eq
  · simp only [KVCacheManager.removeSkippedBlocks, bind_eq_ok, Prod.exists,
      pure_eq_ok] at hrun
    obtain ⟨_, _, hpass, rfl⟩ := hrun
    exact onManagers_counted hpass (fun _ _ _ _ _ hcell =>
      SingleTypeKVCacheManager.removeSkippedBlocks_counted hcell)
      hkept.counted
  · exact steady_of_forall₂ hconserves.groups fun manager hmem _ hdrops =>
      hdrops.steady (hkept.steady manager hmem)

theorem Kept.billed {call : SlotsCall R H}
    {query : BlockQuery R} {bill : ℤ} (hkept : self.Kept)
    (hrun : self.getNumBlocksToAllocate call query = .ok (self', bill)) :
    self'.Kept := by
  obtain ⟨hself, hgroups, -, -⟩ := getNumBlocksToAllocate_eq_ok hrun
  have hpool : self'.blockPool = self.blockPool := by rw [hself]
  apply hkept.of
  · rw [hself]
  · rw [hpool]
  · rw [hpool]
    exact hkept.counted
  · exact steady_of_forall₂ hgroups fun manager hmem _ hbilled =>
      hbilled.steady (hkept.steady manager hmem)

theorem Kept.refused {self : KVCacheManager R H} {requestId : R}
    {requiredBlocks availableBlocks : ℤ} {stateReserve : ℕ}
    (hkept : self.Kept) :
    (self.refused requestId requiredBlocks availableBlocks
      stateReserve).Kept := by
  unfold KVCacheManager.refused
  split
  · exact ⟨hkept.maxModelLen_pos, hkept.counted, hkept.steady⟩
  · exact hkept

/-- Caching needs the rows of the request in place. -/
theorem Kept.cacheBlocks
    {request : Request R H} {numComputedTokens numTokensMainModel : ℕ}
    (hkept : self.Kept)
    (hprovisioned : ∀ manager ∈ self.singleTypeManagers,
      manager.Provisioned request.requestId numTokensMainModel)
    (hle : numComputedTokens - self.numReprefillableTokens ≤
      numTokensMainModel)
    (hrun : self.cacheBlocks request numComputedTokens = .ok self') :
    self'.Kept ∧ self'.blockPool.getNumFreeBlocks =
      self.blockPool.getNumFreeBlocks := by
  have hconserves := cacheBlocks_conserves hrun
  unfold KVCacheManager.cacheBlocks at hrun
  split at hrun
  case isTrue hcaching =>
      simp only [bind_eq_ok, Prod.exists, pure_eq_ok] at hrun
      obtain ⟨_, _, hpass, rfl⟩ := hrun
      have hqueue : ∀ pool manager pool' manager' result,
          SingleTypeKVCacheManager.cacheBlocks request
            (numComputedTokens - self.numReprefillableTokens)
            self.retentionInterval pool manager =
              .ok (pool', manager', result) →
          BlockPool.SameRefs pool pool' := fun _ _ _ _ _ hcell =>
        (SingleTypeKVCacheManager.cacheBlocks_caches hcell).sameRefs
      constructor
      · apply hkept.of hconserves.policy_eq hconserves.config_eq
        · refine onManagers_counted hpass (fun _ _ _ _ _ hcell hcounted => ?_)
            hkept.counted
          rw [Counted, (hqueue _ _ _ _ _ hcell).queue_eq]
          exact hcounted
        · have hgroups := onManagers_related hpass
            (fun _ manager _ manager' _ hcell =>
              show manager.Provisioned request.requestId numTokensMainModel →
                  manager.Steady self.blockPool.enableCaching →
                  manager'.Steady self.blockPool.enableCaching from
                (SingleTypeKVCacheManager.cacheBlocks_caches hcell).steady
                  hcaching hle)
          exact steady_of_forall₂ hgroups fun manager hmem _ hrelated =>
            hrelated (hprovisioned manager hmem) (hkept.steady manager hmem)
      · simp only [onManagers, bind_eq_ok, Prod.exists, pure_eq_ok,
          Prod.mk.injEq] at hpass
        obtain ⟨pool', _, _, hthread, rfl, -⟩ := hpass
        exact threadCells_invariant (fun pool manager pool' manager' result
          hcell hfree => (hqueue _ _ _ _ _ hcell).numFree_eq.trans hfree)
          hthread rfl
  case isFalse =>
      simp only [Except.ok.injEq] at hrun
      subst hrun
      exact ⟨hkept, rfl⟩

theorem Kept.cacheStage
    {call : SlotsCall R H} {caching : Bool} (hkept : self.Kept)
    (hprovided : self.Provided call.requestId (self.numTokensMainModel call)
      caching) (hrun : self.cacheStage call = .ok self') : self'.Kept := by
  unfold KVCacheManager.cacheStage at hrun
  split at hrun
  · cases hrun
    exact hkept
  · exact (hkept.cacheBlocks (fun manager hmem => (hprovided manager hmem).2)
      ((Nat.sub_le _ _).trans (min_le_left _ _)) hrun).1

theorem healthy_of {self : KVCacheManager R H} {frame : BlockId → ℕ}
    (hkept : self.Kept) (hcovers : self.Covers frame)
    (hpos : 0 < self.blockPool.numGpuBlocks) : self.Healthy where
  maxModelLen_pos := hkept.maxModelLen_pos
  numGpuBlocks_pos := hpos
  sound := ⟨hkept.counted, _, hcovers⟩
  used manager hmem requestId block hblock hnull := by
    rw [hcovers.refCnt_eq block hnull]
    have hrow := Tables.count_row_le manager.reqToBlocks requestId block
    have hcount : 0 < (manager.reqToBlocks.row requestId).count block :=
      List.count_pos_iff.mpr hblock
    have hgroup : manager.refs block ≤ self.groupRefs block :=
      List.le_sum_of_mem (List.mem_map.mpr ⟨manager, hmem, rfl⟩)
    unfold SingleTypeKVCacheManager.refs at hgroup
    unfold refs
    omega
  steady := hkept.steady

/-- An admitted or refused call keeps what the next one rests on. -/
theorem Kept.allocateSlots
    {call : SlotsCall R H} {result : Option (List (List BlockId))}
    {frame : BlockId → ℕ} (hkept : self.Kept) (hcovers : self.Covers frame)
    (hpos : 0 < self.blockPool.numGpuBlocks)
    (hfits : ∀ released, self.releaseSkipped call = .ok released →
      released.CallFits call)
    (hrun : self.allocateSlots call = .ok (self', result)) : self'.Kept := by
  cases result with
  | none =>
      rcases allocateSlots_refused hrun with hgate | ⟨released, -, hrelease,
        hgate⟩
      · rcases fullSequenceGate_eq_ok hgate with ⟨hfalse, -⟩ | ⟨-, -, -, rfl⟩
        · cases hfalse
        · exact hkept.refused
      · have hreleased : released.Kept := hkept.removeSkippedBlocks hrelease
        obtain ⟨billed, hbill, hdecided⟩ := capacityGate_eq_ok hgate
        rcases hdecided with ⟨hfalse, -⟩ | ⟨-, -, rfl⟩
        · cases hfalse
        · exact (hreleased.billed hbill).refused
  | some newBlocks =>
      obtain ⟨released, checked, admitted, committed, -, hrelease, hgate, rfl,
        hcommit, hcache⟩ := allocateSlots_admitted hrun
      have hreleased : released.Kept := hkept.removeSkippedBlocks hrelease
      have hconserves := removeSkippedBlocks_conserves hrelease
      have hsize : released.blockPool.numGpuBlocks =
          self.blockPool.numGpuBlocks :=
        BlockPool.numGpuBlocks_of_config hconserves.config_eq
      have hhealthy := healthy_of hreleased (hconserves.covers frame hcovers)
        (hsize ▸ hpos)
      have hwork : call.numNewTokens ≠ 0 ∨
          call.numExternalComputedTokens ≠ 0 := by
        simp only [KVCacheManager.allocateSlots, bind_eq_ok, require_eq_ok]
          at hrun
        obtain ⟨_, hwork, -⟩ := hrun
        exact hwork
      obtain ⟨committed', newBlocks', hcommit', -, -, hsound, hprovided⟩ :=
        admitted_ok hhealthy (hfits released hrelease) hwork hrelease hgate
      rw [hcommit] at hcommit'
      simp only [Except.ok.injEq, Prod.mk.injEq] at hcommit'
      obtain ⟨rfl, rfl⟩ := hcommit'
      have hstage := (capacityGate_conserves hgate).retains_trans
        (commit_admitted_conserves hcommit)
      have hcommitted : committed.Kept :=
        hreleased.of hstage.policy_eq hstage.config_eq hsound.1
          fun manager hmem => (hprovided manager hmem).1
      have hmain : committed.numTokensMainModel call =
          released.numTokensMainModel call := by
        unfold numTokensMainModel totalComputedTokens
        rw [hstage.policy_eq]
      rw [← hmain] at hprovided
      exact hcommitted.cacheStage hprovided hcache

theorem Kept.congr (hkept : self.Kept)
    (hpolicy : self'.toAllocationPolicy = self.toAllocationPolicy)
    (hconfig : self'.blockPool.config = self.blockPool.config)
    (hcounted : Counted self'.blockPool)
    (hgroups : List.Forall₂ (fun manager manager' =>
      ∀ caching, manager.Steady caching → manager'.Steady caching)
      self.singleTypeManagers self'.singleTypeManagers) : self'.Kept :=
  hkept.of hpolicy hconfig hcounted
    (steady_of_forall₂ hgroups fun manager hmem _ hrelated =>
      hrelated _ (hkept.steady manager hmem))

theorem Kept.pinOffloads
    {entries : List (PartialTailOffload R)} (hkept : self.Kept)
    (hrun : self.pinOffloads entries = .ok self') : self'.Kept := by
  induction entries generalizing self with
  | nil =>
      simp only [KVCacheManager.pinOffloads, Except.ok.injEq] at hrun
      exact hrun ▸ hkept
  | cons entry entries ih =>
      simp only [KVCacheManager.pinOffloads, bind_eq_ok] at hrun
      obtain ⟨touched, htouch, hrest⟩ := hrun
      refine ih ?_ hrest
      exact hkept.of rfl (BlockPool.config_touch htouch)
        (BlockPool.counted_touch htouch hkept.counted) hkept.steady

end KVCacheManager

namespace Driver

open KVCacheManager (Kept CallFits AdmittedGetsBlocks)

/-! ## Runs -/

/-- The conditions on one operation. -/
def OperationFits (driver : Driver R H) : Operation R H → Prop
  | .allocateSlots call =>
      match driver.kvCacheManager.releaseSkipped call with
      | .ok released => released.CallFits call
      | .error _ => True
  | .cacheBlocks request numComputedTokens =>
      ∀ manager ∈ driver.kvCacheManager.singleTypeManagers,
        manager.Provisioned request.requestId
          (numComputedTokens - driver.kvCacheManager.numReprefillableTokens)
  | _ => True

instance : ∀ (driver : Driver R H) (operation : Operation R H),
    Decidable (driver.OperationFits operation)
  | driver, .allocateSlots call =>
      match hrelease : driver.kvCacheManager.releaseSkipped call with
      | .ok released =>
          decidable_of_iff (released.CallFits call) (by
            simp only [OperationFits, hrelease])
      | .error _ => .isTrue (by simp only [OperationFits, hrelease])
  | driver, .cacheBlocks request numComputedTokens =>
      inferInstanceAs (Decidable
        (∀ manager ∈ driver.kvCacheManager.singleTypeManagers, _))
  | _, .free _ | _, .popBlocksForFree _ | _, .freeBlocks _
  | _, .takeKvCacheBlockCopies | _, .releaseRetained _
  | _, .takePartialTailOffloads | _, .removeSkippedBlocks _ _ _
  | _, .evictBlocks _ | _, .resetPrefixCache | _, .newStepStarts =>
      .isTrue trivial

/-- What every state of a fitting run satisfies. -/
structure Ready (driver : Driver R H) : Prop where
  ledger : driver.Ledger
  kept : driver.kvCacheManager.Kept
  numGpuBlocks_pos : 0 < driver.kvCacheManager.blockPool.numGpuBlocks

theorem OperationFits.call {driver : Driver R H} {call : SlotsCall R H}
    (hfits : driver.OperationFits (.allocateSlots call)) :
    ∀ released, driver.kvCacheManager.releaseSkipped call = .ok released →
      released.CallFits call := by
  intro released hrelease
  simp only [OperationFits, hrelease] at hfits
  exact hfits

theorem step_kept {driver driver' : Driver R H} {operation : Operation R H}
    (hfits : driver.OperationFits operation)
    (hstep : driver.step operation = .ok driver') (hready : driver.Ready) :
    driver'.kvCacheManager.Kept := by
  obtain ⟨hledger, hkept, hpos⟩ := hready
  cases operation with
  | allocateSlots call =>
      simp only [step, bind_eq_ok, Prod.exists, pure_eq_ok] at hstep
      obtain ⟨_, _, hcall, rfl⟩ := hstep
      exact hkept.allocateSlots hledger.covers hpos hfits.call hcall
  | free requestId =>
      simp only [step, bind_eq_ok, pure_eq_ok] at hstep
      obtain ⟨_, hfree, rfl⟩ := hstep
      have hconserves := KVCacheManager.free_conserves hfree
      have hunpinned : (driver.kvCacheManager.unpin requestId).Kept :=
        hkept.of rfl (BlockPool.config_freeBlocks _ _)
          (BlockPool.counted_freeBlocks hkept.counted _) hkept.steady
      refine hunpinned.congr hconserves.policy_eq hconserves.config_eq ?_
        (hconserves.groups.imp fun manager manager' hpopped caching hsteady =>
          ?_)
      · simp only [KVCacheManager.free, bind_eq_ok, Prod.exists, pure_eq_ok]
          at hfree
        obtain ⟨_, _, hpass, rfl⟩ := hfree
        refine KVCacheManager.onManagers_counted hpass
          (fun pool manager _ _ _ hcell hcounted => ?_) hunpinned.counted
        simp only [Except.ok.injEq, Prod.mk.injEq] at hcell
        rw [← hcell.1]
        exact BlockPool.counted_freeBlocks hcounted _
      · rw [hpopped]
        exact SingleTypeKVCacheManager.popBlocksForFree_steady requestId
          hsteady
  | popBlocksForFree requestId =>
      simp only [step, Except.ok.injEq] at hstep
      subst hstep
      refine hkept.congr rfl rfl hkept.counted ?_
      refine (KVCacheManager.popBlocksForFree_groups _ requestId).imp
        fun manager manager' hpopped caching hsteady => ?_
      rw [hpopped]
      exact SingleTypeKVCacheManager.popBlocksForFree_steady requestId hsteady
  | freeBlocks index | releaseRetained index =>
      simp only [step, Except.ok.injEq] at hstep
      subst hstep
      exact hkept.of rfl (BlockPool.config_freeBlocks _ _)
        (BlockPool.counted_freeBlocks hkept.counted _) hkept.steady
  | takeKvCacheBlockCopies | newStepStarts =>
      simp only [step, Except.ok.injEq] at hstep
      subst hstep
      refine hkept.congr rfl rfl hkept.counted ?_
      exact List.forall₂_map_right_iff.mpr (List.forall₂_same.mpr
        fun manager _ caching hsteady => hsteady.congr rfl
          fun _ => ⟨rfl, rfl, rfl, rfl⟩)
  | takePartialTailOffloads =>
      simp only [step, KVCacheManager.takePartialTailOffloads, bind_eq_ok,
        Prod.exists, pure_eq_ok, Prod.mk.injEq] at hstep
      obtain ⟨_, _, ⟨_, hpin, rfl, -⟩, rfl⟩ := hstep
      refine Kept.pinOffloads ?_ hpin
      refine hkept.congr rfl rfl hkept.counted ?_
      exact List.forall₂_map_right_iff.mpr (List.forall₂_same.mpr
        fun manager _ caching hsteady => hsteady.congr rfl
          fun _ => ⟨rfl, rfl, rfl, rfl⟩)
  | removeSkippedBlocks requestId processed numPromptTokens =>
      simp only [step, bind_eq_ok, pure_eq_ok] at hstep
      obtain ⟨_, hremove, rfl⟩ := hstep
      exact hkept.removeSkippedBlocks hremove
  | cacheBlocks request numComputedTokens =>
      simp only [step, bind_eq_ok, pure_eq_ok] at hstep
      obtain ⟨_, hcache, rfl⟩ := hstep
      exact (hkept.cacheBlocks hfits le_rfl hcache).1
  | evictBlocks blockIds =>
      simp only [step, KVCacheManager.evictBlocks, bind_eq_ok, pure_eq_ok]
        at hstep
      obtain ⟨_, ⟨_, hevict, rfl⟩, rfl⟩ := hstep
      have hsame := BlockPool.sameRefs_evictBlocks hevict
      refine hkept.of rfl hsame.config_eq ?_ hkept.steady
      rw [Counted, hsame.queue_eq]
      exact hkept.counted
  | resetPrefixCache =>
      simp only [step, Except.ok.injEq] at hstep
      subst hstep
      have hsame := BlockPool.sameRefs_resetPrefixCache
        driver.kvCacheManager.blockPool
      refine hkept.of rfl hsame.config_eq ?_ hkept.steady
      change Counted driver.kvCacheManager.blockPool.resetPrefixCache.1
      rw [Counted, hsame.queue_eq]
      exact hkept.counted

theorem step_ready {driver driver' : Driver R H} {operation : Operation R H}
    (hfits : driver.OperationFits operation)
    (hstep : driver.step operation = .ok driver') (hready : driver.Ready) :
    driver'.Ready where
  ledger := step_ledger hstep hready.ledger
  kept := step_kept hfits hstep hready
  numGpuBlocks_pos := by
    rw [BlockPool.numGpuBlocks_of_config (config_step hstep)]
    exact hready.numGpuBlocks_pos

theorem ready_init (policy : AllocationPolicy) (groups : List ManagerSpec)
    (numBlocks hashBlockSize : ℕ) (enableCaching : Bool)
    (hpos : 0 < numBlocks) (hlength : 0 < policy.maxModelLen)
    (hkinds : ∀ spec ∈ groups,
      SingleTypeKVCacheManager.IsGlmKind spec.kind) :
    Ready (init (KVCacheManager.init policy groups numBlocks hashBlockSize
      enableCaching : KVCacheManager R H)) where
  ledger := ledger_init policy groups numBlocks hashBlockSize enableCaching
    hpos
  kept := by
    refine ⟨hlength, BlockPool.counted_init numBlocks hpos _ _,
      fun manager hmem => ?_⟩
    obtain ⟨index, hindex, rfl⟩ := List.mem_mapIdx.mp hmem
    have hkind := hkinds groups[index] (List.getElem_mem hindex)
    refine ⟨hkind, fun requestId => ⟨fun _ => ⟨rfl, rfl, rfl⟩, ?_⟩⟩
    unfold SingleTypeKVCacheManager.StateColumns
    split
    · refine ⟨fun htrue => ?_, fun blockIdx sourceBlock hpartialHit => ?_⟩
      · cases htrue
      · cases hpartialHit
    · rfl
  numGpuBlocks_pos := hpos

/-- In every state of a run whose calls fit, a call that fits and passes the
capacity check gets its blocks in all groups, takes at most what was billed,
and leaves the reserved blocks, the watermark and the reserve free. -/
theorem admitted_gets_blocks (policy : AllocationPolicy)
    (groups : List ManagerSpec) (numBlocks hashBlockSize : ℕ)
    (enableCaching : Bool) (hpos : 0 < numBlocks)
    (hlength : 0 < policy.maxModelLen)
    (hkinds : ∀ spec ∈ groups, SingleTypeKVCacheManager.IsGlmKind spec.kind)
    {operations : List (Operation R H)} {driver : Driver R H}
    (hrun : (init (KVCacheManager.init policy groups numBlocks hashBlockSize
      enableCaching)).run operations = .ok driver)
    (hfits : Along step OperationFits (init (KVCacheManager.init policy groups
      numBlocks hashBlockSize enableCaching)) operations)
    {call : SlotsCall R H}
    (hcall : driver.OperationFits (.allocateSlots call)) :
    driver.kvCacheManager.AdmittedGetsBlocks call := by
  have hstep : ∀ (state : Driver R H) operation next,
      state.OperationFits operation → state.step operation = .ok next →
        state.Ready → next.Ready := fun _ _ _ => step_ready
  have hready : driver.Ready := runSteps_invariant_along hstep hrun hfits
    (ready_init policy groups numBlocks hashBlockSize enableCaching hpos
      hlength hkinds)
  intro released checked hwork hrelease hgate
  have hconserves := KVCacheManager.removeSkippedBlocks_conserves hrelease
  have hhealthy := KVCacheManager.healthy_of
    (hready.kept.removeSkippedBlocks hrelease)
    (hconserves.covers _ hready.ledger.covers) (by
      rw [BlockPool.numGpuBlocks_of_config hconserves.config_eq]
      exact hready.numGpuBlocks_pos)
  obtain ⟨committed, newBlocks, hcommit, hbill, hleft, -, -⟩ :=
    KVCacheManager.admitted_ok hhealthy (hcall.call released hrelease) hwork
      hrelease hgate
  exact ⟨committed, newBlocks, hcommit, hbill, hleft⟩

/-- Three more tokens of the same request. -/
def nextChunk : SlotsCall ℕ ℕ :=
  { firstChunk 6 with
    request := { (firstChunk 6).request with
      numTokens := 9
      numComputedTokens := 6
      waiting := false }
    numNewTokens := 3 }

theorem admitted_gets_blocks_next :
    ∃ driver, (init (KVCacheManager.init idlePolicy glmGroups 10 4
        true)).run [.allocateSlots (firstChunk 6)] = .ok driver ∧
      driver.kvCacheManager.AdmittedGetsBlocks nextChunk := by
  have hok : ((init (KVCacheManager.init idlePolicy glmGroups 10 4
      true)).run [.allocateSlots (firstChunk 6)]).isOk = true := by decide
  have hfits : Along step OperationFits (init (KVCacheManager.init idlePolicy
      glmGroups 10 4 true))
        [.allocateSlots (firstChunk 6), .allocateSlots nextChunk] := by decide
  cases hrun : (init (KVCacheManager.init idlePolicy glmGroups 10 4
      true)).run [.allocateSlots (firstChunk 6)] with
  | error failure =>
      rw [hrun] at hok
      cases hok
  | ok driver =>
      obtain ⟨next, hstep, hlast⟩ := runSteps_cons_eq_ok.mp hrun
      cases hlast
      exact ⟨driver, rfl, admitted_gets_blocks idlePolicy glmGroups 10 4 true
        (by decide) (by decide) (by decide) hrun
        ⟨hfits.1, fun _ _ => trivial⟩ (hfits.2 driver hstep).1⟩

/-- Full attention and a group of states without speculative blocks. -/
def externalGroups : List ManagerSpec :=
  [groupOfKind .fullAttention 4 fourTokens_pos,
    groupOfKind (.mamba
      { align := true
        numSpeculativeBlocks := 0
        numPrefillCheckpointBlocks := 0
        alignCapLegacy := false }) 4 fourTokens_pos]

/-- A fresh prompt of twelve tokens whose first four a connector loads before
the step. -/
def externalChunk : SlotsCall ℕ ℕ :=
  { firstChunk 12 with
    numNewTokens := 8
    numExternalComputedTokens := 4
    delayCacheBlocks := true }

def externalManager : KVCacheManager ℕ ℕ :=
  KVCacheManager.init idlePolicy externalGroups 5 4 true

/-- The capacity check bills one block for the states, the allocation takes
two, and the second is missing once full attention has taken its three. -/
theorem admitted_without_blocks :
    (∃ released checked,
      externalManager.releaseSkipped externalChunk = .ok released ∧
        released.capacityGate externalChunk 0 = .ok (checked, true)) ∧
      externalManager.allocateSlots externalChunk =
        .error (.cannotGetFreeBlocks 1) ∧
      ¬externalManager.AdmittedGetsBlocks externalChunk := by
  have hgate : ∃ released checked,
      externalManager.releaseSkipped externalChunk = .ok released ∧
        released.capacityGate externalChunk 0 = .ok (checked, true) :=
    ⟨_, _, rfl, rfl⟩
  have hfail : externalManager.allocateSlots externalChunk =
      .error (.cannotGetFreeBlocks 1) := rfl
  refine ⟨hgate, hfail, fun hgets => ?_⟩
  obtain ⟨committed, newBlocks, hcommit, -, -⟩ :=
    hgets _ _ (.inl (by decide)) rfl rfl
  cases hcommit

end Driver

end GlmFlash.Cache
