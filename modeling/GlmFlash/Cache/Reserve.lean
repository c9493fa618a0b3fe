import GlmFlash.Cache.Admission
import GlmFlash.Cache.Driver

/-!
# The admission reserve and its aging escape

`VLLM_MAMBA_STATE_PROTECT` keeps free blocks back from first allocations.  A
request that the reserve alone keeps out counts its refusals in
`reserve_blocked` and stops paying the reserve once it has counted
`VLLM_MAMBA_STATE_PROTECT_AGE` of them.  This bounds its wait only if exactly
these refusals are counted.
-/

set_option linter.unusedSectionVars false

namespace GlmFlash.Cache

open GlmFlash.Library

variable {R H : Type} [DecidableEq R] [DecidableEq H]

theorem BlockPool.freeBlocks_nil (pool : BlockPool H) :
    pool.freeBlocks [] = pool := by
  simp [BlockPool.freeBlocks, BlockPool.freeLoop, BlockPool.withQueue,
    FreeKVCacheBlockQueue.prependN, FreeKVCacheBlockQueue.appendN]

namespace SingleTypeKVCacheManager

/-- Without blocks there is nothing to skip. -/
theorem removeBlocksInRange_nil {manager : SingleTypeKVCacheManager R H}
    {requestId : R} (hrow : manager.blocks requestId = [])
    (firstBlock lastBlock : ℕ) (pool : BlockPool H) :
    removeBlocksInRange requestId firstBlock lastBlock pool manager =
      (pool, manager.setBlocks requestId []) := by
  simp [removeBlocksInRange, hrow, nullPositions, BlockPool.freeBlocks_nil]

theorem removeSkippedBlocks_nil {requestId : R}
    {processedComputedTokens : ℕ} {numPromptTokens : Option ℕ}
    {pool pool' : BlockPool H}
    {manager manager' : SingleTypeKVCacheManager R H} {result : Unit}
    (hrow : manager.blocks requestId = [])
    (hrun : removeSkippedBlocks requestId processedComputedTokens
      numPromptTokens pool manager = .ok (pool', manager', result)) :
    pool' = pool ∧ SameBills requestId manager manager' := by
  have hsame := sameBills_setBlocks hrow
  unfold removeSkippedBlocks removeSkippedBlocksBase at hrun
  split at hrun
  case h_1 =>
      simp only [Except.ok.injEq, Prod.mk.injEq] at hrun
      obtain ⟨rfl, rfl, -⟩ := hrun
      exact ⟨rfl, SameBills.refl _ _⟩
  case h_3 =>
      simp only [removeBlocksInRange_nil hrow] at hrun
      split at hrun
      · unfold removeLastState at hrun
        have hempty : (manager.setBlocks requestId []).blocks requestId = [] :=
          Tables.row_setRow_self _ _ _
        rw [hempty] at hrun
        split at hrun
        · simp only [Except.ok.injEq, Prod.mk.injEq] at hrun
          obtain ⟨rfl, rfl, -⟩ := hrun
          exact ⟨rfl, hsame⟩
        · simp only [List.getElem?_nil] at hrun
          split at hrun
          · cases hrun
          · simp only [Except.ok.injEq, Prod.mk.injEq] at hrun
            obtain ⟨rfl, rfl, -⟩ := hrun
            exact ⟨rfl, hsame⟩
      · simp only [Except.ok.injEq, Prod.mk.injEq] at hrun
        obtain ⟨rfl, rfl, -⟩ := hrun
        exact ⟨rfl, hsame⟩
  case h_2 =>
      simp only [removeBlocksInRange_nil hrow] at hrun
      split at hrun
      all_goals
        simp only [Except.ok.injEq, Prod.mk.injEq] at hrun
        obtain ⟨rfl, rfl, -⟩ := hrun
        exact ⟨rfl, hsame⟩
  all_goals
    simp only [removeBlocksInRange_nil hrow, Except.ok.injEq, Prod.mk.injEq]
      at hrun
    obtain ⟨rfl, rfl, -⟩ := hrun
    exact ⟨rfl, hsame⟩

end SingleTypeKVCacheManager

namespace KVCacheManager

open SingleTypeKVCacheManager (SameBills)

/-! ## Stages and the counter -/

/-- The policy and the counters of the aging escape are untouched. -/
def KeepsBudget (self self' : KVCacheManager R H) : Prop :=
  self'.toAllocationPolicy = self.toAllocationPolicy ∧
    self'.reserveBlocked = self.reserveBlocked

theorem KeepsBudget.trans {self middle final : KVCacheManager R H}
    (hfirst : self.KeepsBudget middle) (hsecond : middle.KeepsBudget final) :
    self.KeepsBudget final :=
  ⟨hsecond.1.trans hfirst.1, hsecond.2.trans hfirst.2⟩

variable {self self' : KVCacheManager R H}

theorem onManagers_keepsBudget {A : Type}
    {round : BlockPool H → SingleTypeKVCacheManager R H →
      Except Failure (Updated R H A)} {results : List A}
    (hrun : self.onManagers round = .ok (self', results)) :
    self.KeepsBudget self' := by
  simp only [onManagers, bind_eq_ok, Prod.exists, pure_eq_ok,
    Prod.mk.injEq] at hrun
  obtain ⟨_, _, _, -, rfl, -⟩ := hrun
  exact ⟨rfl, rfl⟩

variable {call : SlotsCall R H}

theorem getNumBlocksToAllocate_keepsBudget {query : BlockQuery R} {bill : ℤ}
    (hrun : self.getNumBlocksToAllocate call query = .ok (self', bill)) :
    self.KeepsBudget self' := by
  rw [(getNumBlocksToAllocate_eq_ok hrun).1]
  exact ⟨rfl, rfl⟩

theorem removeSkippedBlocks_keepsBudget
    {requestId : R} {processedComputedTokens : ℕ} {numPromptTokens : Option ℕ}
    (hrun : self.removeSkippedBlocks requestId processedComputedTokens
      numPromptTokens = .ok self') : self.KeepsBudget self' := by
  simp only [removeSkippedBlocks, bind_eq_ok, Prod.exists, pure_eq_ok]
    at hrun
  obtain ⟨_, _, hpass, rfl⟩ := hrun
  exact onManagers_keepsBudget hpass

theorem prefixStage_keepsBudget (hrun : self.prefixStage call = .ok self') :
    self.KeepsBudget self' := by
  unfold prefixStage at hrun
  split at hrun
  · unfold allocateNewComputedBlocks at hrun
    split at hrun
    · simp only [bind_eq_ok, pure_eq_ok] at hrun
      obtain ⟨_, -, rfl⟩ := hrun
      exact ⟨rfl, rfl⟩
    · simp only [bind_eq_ok, Prod.exists] at hrun
      obtain ⟨middle, _, hlocal, hrest⟩ := hrun
      split at hrest
      · simp only [bind_eq_ok, Prod.exists, pure_eq_ok] at hrest
        obtain ⟨_, _, hexternal, rfl⟩ := hrest
        exact (onManagers_keepsBudget hlocal).trans
          (onManagers_keepsBudget hexternal)
      · simp only [pure_eq_ok] at hrest
        exact hrest ▸ onManagers_keepsBudget hlocal
  · simp only [Except.ok.injEq] at hrun
    exact hrun ▸ ⟨rfl, rfl⟩

theorem commit_keepsBudget {newBlocks : List (List BlockId)}
    (hrun : self.commit call = .ok (self', newBlocks)) :
    self.KeepsBudget self' := by
  simp only [commit, bind_eq_ok] at hrun
  obtain ⟨_, hprefixed, hnew⟩ := hrun
  exact (prefixStage_keepsBudget hprefixed).trans (onManagers_keepsBudget hnew)

theorem cacheBlocks_keepsBudget
    {request : Request R H} {numComputedTokens : ℕ}
    (hrun : self.cacheBlocks request numComputedTokens = .ok self') :
    self.KeepsBudget self' := by
  unfold cacheBlocks at hrun
  split at hrun
  · simp only [bind_eq_ok, Prod.exists, pure_eq_ok] at hrun
    obtain ⟨_, _, hpass, rfl⟩ := hrun
    exact onManagers_keepsBudget hpass
  · simp only [Except.ok.injEq] at hrun
    exact hrun ▸ ⟨rfl, rfl⟩

theorem cacheStage_keepsBudget (hrun : self.cacheStage call = .ok self') :
    self.KeepsBudget self' := by
  unfold cacheStage at hrun
  split at hrun
  · simp only [Except.ok.injEq] at hrun
    exact hrun ▸ ⟨rfl, rfl⟩
  · exact cacheBlocks_keepsBudget hrun

theorem pinOffloads_keepsBudget {entries : List (PartialTailOffload R)}
    (hrun : self.pinOffloads entries = .ok self') :
    self.KeepsBudget self' := by
  induction entries generalizing self with
  | nil =>
      simp only [pinOffloads, Except.ok.injEq] at hrun
      exact hrun ▸ ⟨rfl, rfl⟩
  | cons entry entries ih =>
      simp only [pinOffloads, bind_eq_ok] at hrun
      obtain ⟨_, -, hrest⟩ := hrun
      have hkeeps := ih hrest
      exact hkeeps

/-! ## The call without the reserve -/

/-- The same manager with `VLLM_MAMBA_STATE_PROTECT` unset. -/
def withoutReserve (self : KVCacheManager R H) : KVCacheManager R H :=
  { self with mambaStateReserve := 0 }

@[simp]
theorem stateReserve_withoutReserve (self : KVCacheManager R H)
    (requestId : R) : self.withoutReserve.stateReserve requestId = 0 :=
  ite_self 0

private theorem sameBills_self (self : KVCacheManager R H) (requestId : R) :
    List.Forall₂ (SameBills requestId) self.singleTypeManagers
      self.singleTypeManagers :=
  List.forall₂_same.mpr fun manager _ => SameBills.refl requestId manager

@[simp]
theorem chunkBill_withoutReserve (self : KVCacheManager R H)
    (call : SlotsCall R H) :
    self.withoutReserve.chunkBill call = self.chunkBill call :=
  bill_congr call rfl (self.sameBills_self _)

@[simp]
theorem fullBill_withoutReserve (self : KVCacheManager R H)
    (call : SlotsCall R H) :
    self.withoutReserve.fullBill call = self.fullBill call :=
  bill_congr call rfl (self.sameBills_self _)

theorem releaseSkipped_withoutReserve {self released released' :
      KVCacheManager R H}
    (hself : self.releaseSkipped call = .ok released)
    (hother : self.withoutReserve.releaseSkipped call = .ok released') :
    released' = released.withoutReserve := by
  simp only [releaseSkipped, removeSkippedBlocks, onManagers, bind_eq_ok,
    Prod.exists, pure_eq_ok, Prod.mk.injEq] at hself hother
  obtain ⟨_, _, ⟨pool, managers, results, hpass, rfl, rfl⟩, rfl⟩ := hself
  obtain ⟨_, _, ⟨pool', managers', results', hpass', rfl, rfl⟩, rfl⟩ := hother
  have hsame := Except.ok.inj (hpass.symm.trans hpass')
  simp only [Prod.mk.injEq] at hsame
  obtain ⟨rfl, rfl, rfl⟩ := hsame
  rfl

/-- Before the first allocation nothing is released. -/
theorem releaseSkipped_first {self released : KVCacheManager R H}
    (hfirst : self.IsFirstAllocation call.requestId)
    (hrun : self.releaseSkipped call = .ok released) :
    released.blockPool = self.blockPool ∧
      List.Forall₂ (SameBills call.requestId) self.singleTypeManagers
        released.singleTypeManagers := by
  simp only [releaseSkipped, removeSkippedBlocks, onManagers, bind_eq_ok,
    Prod.exists, pure_eq_ok, Prod.mk.injEq] at hrun
  obtain ⟨_, _, ⟨pool, managers, results, hpass, rfl, rfl⟩, rfl⟩ := hrun
  unfold IsFirstAllocation at hfirst
  generalize self.singleTypeManagers = before at hfirst hpass
  generalize self.blockPool = start at hpass
  induction before generalizing start managers results with
  | nil =>
      simp only [threadCells, Except.ok.injEq, Prod.mk.injEq] at hpass
      obtain ⟨rfl, rfl, -⟩ := hpass
      exact ⟨rfl, .nil⟩
  | cons manager before ih =>
      obtain ⟨middle, manager', result, rest, others, hhead, hrest, rfl, rfl⟩ :=
        threadCells_cons_eq_ok.mp hpass
      obtain ⟨hmiddle, hbills⟩ :=
        SingleTypeKVCacheManager.removeSkippedBlocks_nil
          (hfirst manager List.mem_cons_self) hhead
      obtain ⟨hpool, hothers⟩ := ih _ _
        (fun other hother => hfirst other (List.mem_cons_of_mem _ hother)) _
        hrest
      exact ⟨hpool.trans hmiddle, .cons hbills hothers⟩

/-! ## One refusal -/

theorem stateReserve_pos {self : KVCacheManager R H} {requestId : R}
    (hpos : 0 < self.stateReserve requestId) :
    self.IsFirstAllocation requestId ∧ ¬self.ReserveAgedOut requestId ∧
      self.stateReserve requestId = self.mambaStateReserve := by
  unfold stateReserve at hpos ⊢
  split at hpos
  case isTrue hforce => exact ⟨hforce.1, hforce.2, if_pos hforce⟩
  case isFalse => exact absurd hpos (lt_irrefl 0)

theorem refused_reserveBlocked {self : KVCacheManager R H} {requestId : R}
    {requiredBlocks availableBlocks : ℤ} {stateReserve : ℕ} (other : R) :
    (self.refused requestId requiredBlocks availableBlocks
        stateReserve).reserveBlocked other =
      if other = requestId ∧ 0 < stateReserve ∧
          requiredBlocks - stateReserve ≤ availableBlocks then
        self.reserveBlocked other + 1
      else self.reserveBlocked other := by
  unfold refused
  by_cases hnoted : 0 < stateReserve ∧
      requiredBlocks - stateReserve ≤ availableBlocks
  · rw [if_pos hnoted]
    by_cases hother : other = requestId
    · simp [noteReserveBlocked, hother, hnoted]
    · simp [noteReserveBlocked, hother]
  · rw [if_neg hnoted, if_neg fun hboth => hnoted hboth.2]

/-- On a first allocation the second gate compares bills that were fixed
before the call. -/
theorem requirement_released {self released : KVCacheManager R H}
    (hfirst : self.IsFirstAllocation call.requestId)
    (hrelease : self.releaseSkipped call = .ok released) (stateReserve : ℕ) :
    released.requirement call stateReserve =
        self.requirement call stateReserve ∧
      released.blockPool = self.blockPool := by
  obtain ⟨hpool, hbills⟩ := releaseSkipped_first hfirst hrelease
  have hpolicy := (removeSkippedBlocks_keepsBudget hrelease).1
  have hchunkQuery : released.chunkQuery call = self.chunkQuery call := by
    simp only [chunkQuery, numTokensNeedSlot, numTokensMainModel,
      totalComputedTokens, hpolicy]
  have hfullQuery : released.fullQuery call = self.fullQuery call := by
    simp only [fullQuery, totalComputedTokens, hpolicy]
  have hchunk : released.chunkBill call = self.chunkBill call := by
    rw [chunkBill, hchunkQuery]
    exact bill_congr call hpool hbills
  have hfull : released.fullBill call = self.fullBill call := by
    rw [fullBill, hfullQuery]
    exact bill_congr call hpool hbills
  have hwatermark : released.watermark call = self.watermark call := by
    simp only [watermark, hpolicy]
  exact ⟨by simp only [requirement, hchunk, hfull, hwatermark], hpool⟩

/-- While the reserve is in force, the chunk fits the unreserved blocks only
if the full sequence does, and what the first gate blames on the reserve would
pass the second gate without it. -/
def BudgetExact (self : KVCacheManager R H) (call : SlotsCall R H) : Prop :=
  0 < self.stateReserve call.requestId →
    ((call.fullSequenceMustFit = true →
        self.fullBill call + self.watermark call +
            self.stateReserve call.requestId ≤
          self.blockPool.getNumFreeBlocks) →
      self.chunkBill call + self.watermark call ≤
          self.blockPool.getNumFreeBlocks - call.reservedBlocks →
      self.fullBill call + self.watermark call ≤
          self.blockPool.getNumFreeBlocks - call.reservedBlocks) ∧
    (call.fullSequenceMustFit = true →
      self.fullBill call + self.watermark call ≤
          self.blockPool.getNumFreeBlocks →
      self.blockPool.getNumFreeBlocks <
          self.fullBill call + self.watermark call +
            self.stateReserve call.requestId →
      self.chunkBill call + self.watermark call ≤
          self.blockPool.getNumFreeBlocks - call.reservedBlocks)

instance (self : KVCacheManager R H) (call : SlotsCall R H) :
    Decidable (self.BudgetExact call) :=
  inferInstanceAs (Decidable (_ → _ ∧ _))

/-- The gates that a call without the reserve passes. -/
theorem admitted_withoutReserve {self other : KVCacheManager R H} {newBlocks : List (List BlockId)}
    (hadmitted : self.withoutReserve.allocateSlots call =
      .ok (other, some newBlocks)) :
    (call.fullSequenceMustFit = true →
        self.fullBill call + self.watermark call ≤
          self.blockPool.getNumFreeBlocks) ∧
      ∀ released, self.releaseSkipped call = .ok released →
        released.requirement call 0 ≤
          released.blockPool.getNumFreeBlocks - call.reservedBlocks := by
  obtain ⟨released', _, _, _, hgate, hrelease', hcapacity, -⟩ :=
    allocateSlots_admitted hadmitted
  rw [stateReserve_withoutReserve] at hgate hcapacity
  constructor
  · intro hmust
    rcases fullSequenceGate_eq_ok hgate with ⟨-, -, hfits⟩ | ⟨hfalse, -⟩
    · have hle := hfits hmust
      rw [fullBill_withoutReserve] at hle
      have hwatermark : self.withoutReserve.watermark call =
          self.watermark call := rfl
      have hpool : self.withoutReserve.blockPool = self.blockPool := rfl
      rw [hwatermark, hpool] at hle
      simpa using hle
    · cases hfalse
  · intro released hrelease
    have hsame := releaseSkipped_withoutReserve hrelease hrelease'
    subst hsame
    obtain ⟨_, -, ⟨-, -, hle⟩ | ⟨hfalse, -⟩⟩ := capacityGate_eq_ok hcapacity
    · have hrequirement : released.withoutReserve.requirement call 0 =
          released.requirement call 0 := by
        simp only [requirement, chunkBill_withoutReserve,
          fullBill_withoutReserve]
        rfl
      rw [hrequirement] at hle
      exact hle
    · cases hfalse

/-- The gate that stops a call without the reserve. -/
theorem refused_withoutReserve {self other : KVCacheManager R H}
    (hrefused : self.withoutReserve.allocateSlots call = .ok (other, none))
    (hfirst : self.IsFirstAllocation call.requestId) :
    (call.fullSequenceMustFit = true ∧ self.blockPool.getNumFreeBlocks <
        self.fullBill call + self.watermark call) ∨
      self.blockPool.getNumFreeBlocks - call.reservedBlocks <
        self.chunkBill call + self.watermark call := by
  have hwatermark : self.withoutReserve.watermark call =
      self.watermark call := rfl
  have hpool : self.withoutReserve.blockPool = self.blockPool := rfl
  rcases allocateSlots_refused hrefused with hgate | ⟨released, -, hrelease,
    hcapacity⟩
  · rcases fullSequenceGate_eq_ok hgate with ⟨hfalse, -⟩ | ⟨-, hmust, hlt, -⟩
    · cases hfalse
    · rw [stateReserve_withoutReserve, fullBill_withoutReserve, hwatermark,
        hpool] at hlt
      exact .inl ⟨hmust, by simpa using hlt⟩
  · have hfirst' : self.withoutReserve.IsFirstAllocation call.requestId :=
      hfirst
    obtain ⟨hrequirement, hreleased⟩ := requirement_released hfirst' hrelease 0
    rw [stateReserve_withoutReserve] at hcapacity
    obtain ⟨_, -, ⟨hfalse, -⟩ | ⟨-, hlt, -⟩⟩ := capacityGate_eq_ok hcapacity
    · cases hfalse
    · rw [hrequirement, hreleased, hpool] at hlt
      simp only [requirement, lt_self_iff_false, if_false,
        chunkBill_withoutReserve, hwatermark] at hlt
      exact .inr hlt

/-- A call that only the reserve refuses is counted. -/
theorem starving_refusal_counted {self self' other : KVCacheManager R H}
    {newBlocks : List (List BlockId)}
    (hexact : self.BudgetExact call)
    (hrefused : self.allocateSlots call = .ok (self', none))
    (hadmitted : self.withoutReserve.allocateSlots call =
      .ok (other, some newBlocks)) :
    0 < self.stateReserve call.requestId ∧
      self'.reserveBlocked call.requestId =
        self.reserveBlocked call.requestId + 1 := by
  obtain ⟨hfull, hchunk⟩ := admitted_withoutReserve hadmitted
  rcases allocateSlots_refused hrefused with hgate | ⟨released, hgate,
    hrelease, hcapacity⟩
  · rcases fullSequenceGate_eq_ok hgate with ⟨hfalse, -⟩ | ⟨-, hmust, hlt,
      hself⟩
    · cases hfalse
    · have hle := hfull hmust
      have hpos : 0 < self.stateReserve call.requestId := by omega
      refine ⟨hpos, ?_⟩
      rw [hself, refused_reserveBlocked]
      exact if_pos ⟨rfl, hpos, by omega⟩
  · have hunreserved := hchunk released hrelease
    obtain ⟨billed, hbill, ⟨hfalse, -⟩ | ⟨-, hlt, hself⟩⟩ :=
      capacityGate_eq_ok hcapacity
    · cases hfalse
    · have hpos : 0 < self.stateReserve call.requestId := by
        by_contra hzero
        rw [Nat.eq_zero_of_not_pos hzero] at hlt
        omega
      refine ⟨hpos, ?_⟩
      have hfirst := (stateReserve_pos hpos).1
      have hsame := requirement_released hfirst hrelease
      rw [(hsame _).1, (hsame 0).2] at hlt hself
      rw [(hsame 0).1, (hsame 0).2] at hunreserved
      simp only [requirement, lt_self_iff_false, if_false] at hunreserved
      have hgateFits : call.fullSequenceMustFit = true →
          self.fullBill call + self.watermark call +
              self.stateReserve call.requestId ≤
            self.blockPool.getNumFreeBlocks := by
        rcases fullSequenceGate_eq_ok hgate with ⟨-, -, hfits⟩ | ⟨hfalse, -⟩
        · exact hfits
        · cases hfalse
      have hfullFits := (hexact hpos).1 hgateFits hunreserved
      have hbudget : billed.reserveBlocked = self.reserveBlocked :=
        ((removeSkippedBlocks_keepsBudget hrelease).trans
          (getNumBlocksToAllocate_keepsBudget hbill)).2
      rw [hself, refused_reserveBlocked, hbudget]
      refine if_pos ⟨rfl, hpos, ?_⟩
      rw [requirement, if_pos hpos]
      omega

/-- A call that is refused without the reserve too is not counted. -/
theorem hopeless_refusal_uncounted {self self' other : KVCacheManager R H}
    (hexact : self.BudgetExact call)
    (hrefused : self.allocateSlots call = .ok (self', none))
    (hother : self.withoutReserve.allocateSlots call = .ok (other, none)) :
    self'.reserveBlocked call.requestId =
      self.reserveBlocked call.requestId := by
  rcases allocateSlots_refused hrefused with hgate | ⟨released, -, hrelease,
    hcapacity⟩
  · rcases fullSequenceGate_eq_ok hgate with ⟨hfalse, -⟩ | ⟨-, hmust, hlt,
      hself⟩
    · cases hfalse
    · rw [hself, refused_reserveBlocked]
      refine if_neg ?_
      rintro ⟨-, hpos, hle⟩
      have hfullFits : self.fullBill call + self.watermark call ≤
          self.blockPool.getNumFreeBlocks := by omega
      have hchunkFits := (hexact hpos).2 hmust hfullFits hlt
      rcases refused_withoutReserve hother (stateReserve_pos hpos).1 with
        ⟨-, hshort⟩ | hshort <;> omega
  · obtain ⟨billed, hbill, ⟨hfalse, -⟩ | ⟨-, hlt, hself⟩⟩ :=
      capacityGate_eq_ok hcapacity
    · cases hfalse
    · have hbudget : billed.reserveBlocked = self.reserveBlocked :=
        ((removeSkippedBlocks_keepsBudget hrelease).trans
          (getNumBlocksToAllocate_keepsBudget hbill)).2
      rw [hself, refused_reserveBlocked, hbudget]
      refine if_neg ?_
      rintro ⟨-, hpos, hle⟩
      have hfirst := (stateReserve_pos hpos).1
      have hsame := requirement_released hfirst hrelease
      rw [(hsame _).1, (hsame 0).2, requirement, if_pos hpos] at hle
      rcases refused_withoutReserve hother hfirst with
        ⟨-, hshort⟩ | hshort <;> omega

/-- No call touches the counter of another request, and a refusal never
lowers one. -/
theorem allocateSlots_reserveBlocked {result : Option (List (List BlockId))}
    (hrun : self.allocateSlots call = .ok (self', result)) :
    self'.toAllocationPolicy = self.toAllocationPolicy ∧
      (∀ other ≠ call.requestId,
        self'.reserveBlocked other = self.reserveBlocked other) ∧
      (result = none → self.reserveBlocked call.requestId ≤
        self'.reserveBlocked call.requestId) := by
  cases result with
  | none =>
      have hrefused : ∃ before required available,
          self.KeepsBudget before ∧
            self' = before.refused call.requestId required available
              (self.stateReserve call.requestId) := by
        rcases allocateSlots_refused hrun with hgate | ⟨released, -, hrelease,
          hcapacity⟩
        · rcases fullSequenceGate_eq_ok hgate with ⟨hfalse, -⟩ | ⟨-, -, -,
            hself⟩
          · cases hfalse
          · exact ⟨self, _, _, ⟨rfl, rfl⟩, hself⟩
        · obtain ⟨billed, hbill, ⟨hfalse, -⟩ | ⟨-, -, hself⟩⟩ :=
            capacityGate_eq_ok hcapacity
          · cases hfalse
          · exact ⟨billed, _, _, (removeSkippedBlocks_keepsBudget
              hrelease).trans (getNumBlocksToAllocate_keepsBudget hbill),
              hself⟩
      obtain ⟨before, required, available, ⟨hpolicy, hblocked⟩, rfl⟩ := hrefused
      refine ⟨?_, fun other hother => ?_, fun _ => ?_⟩
      · unfold refused
        split <;> exact hpolicy
      · rw [refused_reserveBlocked, hblocked]
        exact if_neg fun hboth => hother hboth.1
      · rw [refused_reserveBlocked, hblocked]
        split <;> omega
  | some newBlocks =>
      obtain ⟨released, checked, admitted, committed, -, hrelease, hcapacity,
        hadmitted, hcommit, hcache⟩ := allocateSlots_admitted hrun
      obtain ⟨billed, hbill, ⟨-, hchecked, -⟩ | ⟨hfalse, -⟩⟩ :=
        capacityGate_eq_ok hcapacity
      · subst hchecked
        have hbefore := (removeSkippedBlocks_keepsBudget hrelease).trans
          (getNumBlocksToAllocate_keepsBudget hbill)
        have hafter := (commit_keepsBudget hcommit).trans
          (cacheStage_keepsBudget hcache)
        refine ⟨?_, fun other hother => ?_, fun hnone => by cases hnone⟩
        · rw [hafter.1, hadmitted]
          split <;> exact hbefore.1
        · rw [hafter.2, hadmitted, ← hbefore.2]
          split
          · simp [clearReserveBlocked, hother]
          · rfl
      · cases hfalse

end KVCacheManager

/-! ## Runs -/

/-- Whether a call returns blocks; a call that raises does neither. -/
def KVCacheManager.admits (self : KVCacheManager R H)
    (call : SlotsCall R H) : Option Bool :=
  match self.allocateSlots call with
  | .ok (_, newBlocks) => some newBlocks.isSome
  | .error _ => none

/-- A driven manager whose refusals are watched from outside. -/
structure Watched (R H : Type) [DecidableEq R] where
  driver : Driver R H
  /-- refusals since the last admission that the reserve alone caused -/
  starved : R → ℕ
  /-- counted refusals that would have happened without the reserve too -/
  wasted : R → ℕ

namespace Watched

open KVCacheManager (BudgetExact)

def init (kvCacheManager : KVCacheManager R H) : Watched R H where
  driver := Driver.init kvCacheManager
  starved _ := 0
  wasted _ := 0

/-- Watch one call: `manager` is the state before it, `after` the one it
leaves behind. -/
def note (watched : Watched R H) (call : SlotsCall R H)
    (manager after : KVCacheManager R H) (admitted : Bool) : Watched R H :=
  let requestId := call.requestId
  let driver := { watched.driver with kvCacheManager := after }
  if admitted = true then
    { watched with
      driver := driver
      starved := Function.update watched.starved requestId 0 }
  else
    { driver := driver
      starved :=
        if manager.withoutReserve.admits call = some true then
          Function.update watched.starved requestId
            (watched.starved requestId + 1)
        else watched.starved
      wasted :=
        if manager.withoutReserve.admits call = some false ∧
            after.reserveBlocked requestId ≠
              manager.reserveBlocked requestId then
          Function.update watched.wasted requestId
            (watched.wasted requestId + 1)
        else watched.wasted }

def step (watched : Watched R H) :
    Operation R H → Except Failure (Watched R H)
  | .allocateSlots call => do
      let (after, newBlocks) ←
        watched.driver.kvCacheManager.allocateSlots call
      return watched.note call watched.driver.kvCacheManager after
        newBlocks.isSome
  | .free requestId => do
      let driver ← watched.driver.step (.free requestId)
      return { watched with
        driver := driver
        starved := Function.update watched.starved requestId 0 }
  | operation => do
      let driver ← watched.driver.step operation
      return { watched with driver := driver }

def run (watched : Watched R H) (operations : List (Operation R H)) :
    Except Failure (Watched R H) :=
  runSteps step watched operations

/-- The budget is exact at this call. -/
def CountsExactly (watched : Watched R H) : Operation R H → Prop
  | .allocateSlots call => watched.driver.kvCacheManager.BudgetExact call
  | _ => True

instance (watched : Watched R H) :
    ∀ operation, Decidable (watched.CountsExactly operation)
  | .allocateSlots call =>
      inferInstanceAs
        (Decidable (watched.driver.kvCacheManager.BudgetExact call))
  | .free _ | .popBlocksForFree _ | .freeBlocks _ | .takeKvCacheBlockCopies
  | .releaseRetained _ | .takePartialTailOffloads | .removeSkippedBlocks _ _ _
  | .cacheBlocks _ _ | .evictBlocks _ | .resetPrefixCache | .newStepStarts =>
      inferInstanceAs (Decidable True)

/-- The counter of the manager is never behind the refusals it stands for. -/
structure InBudget (age : ℕ) (watched : Watched R H) : Prop where
  age_eq : watched.driver.kvCacheManager.mambaReserveAge = age
  counted : ∀ requestId, watched.starved requestId ≤
    watched.driver.kvCacheManager.reserveBlocked requestId
  bounded : ∀ requestId, watched.starved requestId ≤ age
  unwasted : ∀ requestId, watched.wasted requestId = 0

theorem inBudget_congr {age : ℕ} {watched watched' : Watched R H}
    (hbudget : watched.InBudget age)
    (hkeeps : watched.driver.kvCacheManager.KeepsBudget
      watched'.driver.kvCacheManager)
    (hstarved : watched'.starved = watched.starved)
    (hwasted : watched'.wasted = watched.wasted) :
    watched'.InBudget age where
  age_eq := (congrArg AllocationPolicy.mambaReserveAge hkeeps.1).trans
    hbudget.age_eq
  counted requestId := by
    rw [hstarved, hkeeps.2]
    exact hbudget.counted requestId
  bounded requestId := by
    rw [hstarved]
    exact hbudget.bounded requestId
  unwasted requestId := by
    rw [hwasted]
    exact hbudget.unwasted requestId

/-- Only allocating and freeing touch the counters. -/
theorem driver_step_keepsBudget {driver driver' : Driver R H}
    {operation : Operation R H}
    (hcall : ∀ call, operation ≠ .allocateSlots call)
    (hfree : ∀ requestId, operation ≠ .free requestId)
    (hstep : driver.step operation = .ok driver') :
    driver.kvCacheManager.KeepsBudget driver'.kvCacheManager := by
  cases operation with
  | allocateSlots call => exact absurd rfl (hcall call)
  | free requestId => exact absurd rfl (hfree requestId)
  | takePartialTailOffloads =>
      simp only [Driver.step, KVCacheManager.takePartialTailOffloads,
        bind_eq_ok, Prod.exists, pure_eq_ok, Prod.mk.injEq] at hstep
      obtain ⟨_, _, ⟨_, hpin, rfl, -⟩, rfl⟩ := hstep
      have hkeeps := KVCacheManager.pinOffloads_keepsBudget hpin
      exact hkeeps
  | removeSkippedBlocks requestId processed numPromptTokens =>
      simp only [Driver.step, bind_eq_ok, pure_eq_ok] at hstep
      obtain ⟨_, hremove, rfl⟩ := hstep
      exact KVCacheManager.removeSkippedBlocks_keepsBudget hremove
  | cacheBlocks request numComputedTokens =>
      simp only [Driver.step, bind_eq_ok, pure_eq_ok] at hstep
      obtain ⟨_, hcache, rfl⟩ := hstep
      exact KVCacheManager.cacheBlocks_keepsBudget hcache
  | evictBlocks blockIds =>
      simp only [Driver.step, KVCacheManager.evictBlocks, bind_eq_ok,
        pure_eq_ok] at hstep
      obtain ⟨_, ⟨_, -, rfl⟩, rfl⟩ := hstep
      exact ⟨rfl, rfl⟩
  | popBlocksForFree _ | freeBlocks _ | takeKvCacheBlockCopies
  | releaseRetained _ | resetPrefixCache | newStepStarts =>
      simp only [Driver.step, Except.ok.injEq] at hstep
      subst hstep
      exact ⟨rfl, rfl⟩

private theorem inBudget_free {age : ℕ} {watched : Watched R H}
    {driver' : Driver R H} {requestId : R}
    (hbudget : watched.InBudget age)
    (hstep : watched.driver.step (.free requestId) = .ok driver') :
    InBudget age { watched with
      driver := driver'
      starved := Function.update watched.starved requestId 0 } := by
  simp only [Driver.step, KVCacheManager.free, bind_eq_ok, Prod.exists,
    pure_eq_ok] at hstep
  obtain ⟨_, ⟨_, _, hpass, rfl⟩, rfl⟩ := hstep
  obtain ⟨hpolicy, hblocked⟩ := KVCacheManager.onManagers_keepsBudget hpass
  refine ⟨?_, fun other => ?_, fun other => ?_, hbudget.unwasted⟩
  · exact (congrArg AllocationPolicy.mambaReserveAge hpolicy).trans
      hbudget.age_eq
  · by_cases hother : other = requestId
    · simp [hother]
    · have hcounted := hbudget.counted other
      simpa [hblocked, KVCacheManager.unpin, hother] using hcounted
  · by_cases hother : other = requestId
    · simp [hother]
    · have hbounded := hbudget.bounded other
      simpa [hother] using hbounded

theorem admits_eq_some {manager : KVCacheManager R H} {call : SlotsCall R H}
    {admitted : Bool} (hadmits : manager.admits call = some admitted) :
    ∃ after newBlocks, manager.allocateSlots call = .ok (after, newBlocks) ∧
      newBlocks.isSome = admitted := by
  unfold KVCacheManager.admits at hadmits
  split at hadmits
  case h_1 after newBlocks hrun =>
      exact ⟨after, newBlocks, hrun, Option.some.inj hadmits⟩
  case h_2 => cases hadmits

private theorem inBudget_refused {age : ℕ} {watched : Watched R H}
    {call : SlotsCall R H} {after : KVCacheManager R H} (hage : 0 < age)
    (hexact : watched.driver.kvCacheManager.BudgetExact call)
    (hrun : watched.driver.kvCacheManager.allocateSlots call =
      .ok (after, none))
    (hbudget : watched.InBudget age) :
    (watched.note call watched.driver.kvCacheManager after
      false).InBudget age := by
  obtain ⟨hpolicy, hothers, hself⟩ :=
    KVCacheManager.allocateSlots_reserveBlocked hrun
  have hstarving : watched.driver.kvCacheManager.withoutReserve.admits call =
      some true → after.reserveBlocked call.requestId =
        watched.driver.kvCacheManager.reserveBlocked call.requestId + 1 ∧
          watched.starved call.requestId < age := by
    intro hadmits
    obtain ⟨other, newBlocks, hother, hsome⟩ := admits_eq_some hadmits
    obtain ⟨newBlocks, rfl⟩ := Option.isSome_iff_exists.mp hsome
    obtain ⟨hpos, hcount⟩ :=
      KVCacheManager.starving_refusal_counted hexact hrun hother
    obtain ⟨-, hyoung, hreserve⟩ := KVCacheManager.stateReserve_pos hpos
    have hlow : watched.driver.kvCacheManager.reserveBlocked
        call.requestId < age := by
      by_contra haged
      refine hyoung ⟨hreserve ▸ hpos, ?_, ?_⟩
      · rw [hbudget.age_eq]
        exact hage
      · rw [hbudget.age_eq]
        exact not_lt.mp haged
    exact ⟨hcount, (hbudget.counted call.requestId).trans_lt hlow⟩
  refine ⟨?_, fun other => ?_, fun other => ?_, fun other => ?_⟩
  · exact (congrArg AllocationPolicy.mambaReserveAge hpolicy).trans
      hbudget.age_eq
  · have hcounted := hbudget.counted other
    by_cases hother : other = call.requestId
    · subst hother
      have hmono := hself rfl
      simp only [note, Bool.false_eq_true, if_false]
      split
      case isTrue hadmits =>
          have hcount := (hstarving hadmits).1
          rw [Function.update_self]
          omega
      case isFalse => exact hcounted.trans hmono
    · simp only [note, Bool.false_eq_true, if_false]
      rw [hothers other hother]
      split
      · rw [Function.update_of_ne hother]
        exact hcounted
      · exact hcounted
  · have hbounded := hbudget.bounded other
    simp only [note, Bool.false_eq_true, if_false]
    split
    case isTrue hadmits =>
        by_cases hother : other = call.requestId
        · subst hother
          rw [Function.update_self]
          exact (hstarving hadmits).2
        · rw [Function.update_of_ne hother]
          exact hbounded
    case isFalse => exact hbounded
  · have hunwasted := hbudget.unwasted other
    simp only [note, Bool.false_eq_true, if_false]
    split
    case isTrue hwasted =>
        obtain ⟨_, newBlocks, hother, hnone⟩ := admits_eq_some hwasted.1
        cases newBlocks with
        | none =>
            exact absurd (KVCacheManager.hopeless_refusal_uncounted hexact
              hrun hother) hwasted.2
        | some newBlocks => cases hnone
    case isFalse => exact hunwasted

/-- One step keeps the count of every request within the age. -/
theorem step_inBudget {age : ℕ} (hage : 0 < age)
    {watched watched' : Watched R H} {operation : Operation R H}
    (hexact : watched.CountsExactly operation)
    (hstep : watched.step operation = .ok watched')
    (hbudget : watched.InBudget age) : watched'.InBudget age := by
  have hrest : (∀ call, operation ≠ .allocateSlots call) →
      (∀ requestId, operation ≠ .free requestId) →
      ∀ driver', watched.driver.step operation = .ok driver' →
        InBudget age { watched with driver := driver' } :=
    fun hcall hfree driver' hdriver => inBudget_congr hbudget
      (driver_step_keepsBudget hcall hfree hdriver) rfl rfl
  cases operation with
  | allocateSlots call =>
      simp only [step, bind_eq_ok, Prod.exists, pure_eq_ok] at hstep
      obtain ⟨after, newBlocks, hrun, rfl⟩ := hstep
      cases newBlocks with
      | none => exact inBudget_refused hage hexact hrun hbudget
      | some newBlocks =>
          obtain ⟨hpolicy, hothers, -⟩ :=
            KVCacheManager.allocateSlots_reserveBlocked hrun
          refine ⟨?_, fun other => ?_, fun other => ?_, hbudget.unwasted⟩
          · exact (congrArg AllocationPolicy.mambaReserveAge hpolicy).trans
              hbudget.age_eq
          · by_cases hother : other = call.requestId
            · simp [note, hother]
            · have hcounted := hbudget.counted other
              simpa [note, hother, hothers other hother] using hcounted
          · by_cases hother : other = call.requestId
            · simp [note, hother]
            · have hbounded := hbudget.bounded other
              simpa [note, hother] using hbounded
  | free requestId =>
      simp only [step, bind_eq_ok, pure_eq_ok] at hstep
      obtain ⟨driver', hdriver, rfl⟩ := hstep
      exact inBudget_free hbudget hdriver
  | popBlocksForFree _ | freeBlocks _ | takeKvCacheBlockCopies
  | releaseRetained _ | takePartialTailOffloads | removeSkippedBlocks _ _ _
  | cacheBlocks _ _ | evictBlocks _ | resetPrefixCache | newStepStarts =>
      simp only [step, bind_eq_ok, pure_eq_ok] at hstep
      obtain ⟨driver', hdriver, rfl⟩ := hstep
      exact hrest (fun _ hcall => by cases hcall)
        (fun _ hfree => by cases hfree) driver' hdriver

/-- No request starves: in every run whose calls count exactly, a request is
refused by the reserve alone at most `mambaReserveAge` times since its last
admission, and no refusal that would have happened anyway is counted. -/
theorem refusals_bounded (policy : AllocationPolicy)
    (groups : List ManagerSpec) (numBlocks hashBlockSize : ℕ)
    (enableCaching : Bool) (hage : 0 < policy.mambaReserveAge)
    {operations : List (Operation R H)} {watched : Watched R H}
    (hexact : Along step CountsExactly (init (KVCacheManager.init policy
      groups numBlocks hashBlockSize enableCaching)) operations)
    (hrun : (init (KVCacheManager.init policy groups numBlocks hashBlockSize
      enableCaching)).run operations = .ok watched) (requestId : R) :
    watched.starved requestId ≤ policy.mambaReserveAge ∧
      watched.wasted requestId = 0 := by
  have hbudget : watched.InBudget policy.mambaReserveAge :=
    runSteps_invariant_along (fun _ _ _ => step_inBudget hage) hrun hexact
      ⟨rfl, fun _ => Nat.zero_le _, fun _ => Nat.zero_le _, fun _ => rfl⟩
  exact ⟨hbudget.bounded requestId, hbudget.unwasted requestId⟩

/-- One block is kept back, for one refusal at most. -/
def reservingPolicy : AllocationPolicy :=
  { idlePolicy with mambaStateReserve := 1, mambaReserveAge := 1 }

/-- Eleven usable blocks of four tokens. -/
def elevenBlocks : Watched ℕ ℕ :=
  init (KVCacheManager.init reservingPolicy
    [groupOfKind .fullAttention 4 fourTokens_pos] 12 4 true)

/-- The first chunk of a longer prompt. -/
def chunkOf (requestId numTokens numNewTokens : ℕ) : SlotsCall ℕ ℕ :=
  { firstChunk numTokens with
    request := { (firstChunk numTokens).request with requestId := requestId }
    numNewTokens := numNewTokens }

/-- Request 1 holds three blocks.  Eight blocks are what request 0 needs, so
only the reserve keeps it out. -/
theorem refusals_bounded_tight :
    ∃ watched, elevenBlocks.run [.allocateSlots (chunkOf 1 12 12),
        .allocateSlots (chunkOf 0 32 32)] = .ok watched ∧
      watched.starved 0 ≤ 1 ∧ watched.wasted 0 = 0 := by
  have hok : (elevenBlocks.run [.allocateSlots (chunkOf 1 12 12),
      .allocateSlots (chunkOf 0 32 32)]).isOk = true := by decide
  cases hrun : elevenBlocks.run [.allocateSlots (chunkOf 1 12 12),
      .allocateSlots (chunkOf 0 32 32)] with
  | error failure =>
      rw [hrun] at hok
      cases hok
  | ok watched =>
      exact ⟨watched, rfl, refusals_bounded reservingPolicy
        [groupOfKind .fullAttention 4] 12 4 true (by decide) (by decide) hrun 0⟩

/-- A ten-block request whose first chunk needs one block is refused for the
reserve again and again and never counted.  Request 2 is counted although
everything free is reserved for others. -/
theorem refusals_unbounded :
    ∃ watched, elevenBlocks.run [.allocateSlots (chunkOf 1 12 12),
        .allocateSlots (chunkOf 0 40 4), .allocateSlots (chunkOf 0 40 4),
        .allocateSlots { chunkOf 2 32 32 with
          fullSequenceMustFit := true, reservedBlocks := 8 }] = .ok watched ∧
      reservingPolicy.mambaReserveAge < watched.starved 0 ∧
      watched.wasted 2 ≠ 0 := by
  have hcounts : (elevenBlocks.run [.allocateSlots (chunkOf 1 12 12),
      .allocateSlots (chunkOf 0 40 4), .allocateSlots (chunkOf 0 40 4),
      .allocateSlots { chunkOf 2 32 32 with
        fullSequenceMustFit := true, reservedBlocks := 8 }]).map
          (fun watched => (watched.starved 0, watched.wasted 2)) =
      .ok (2, 1) := by decide
  cases hrun : elevenBlocks.run [.allocateSlots (chunkOf 1 12 12),
      .allocateSlots (chunkOf 0 40 4), .allocateSlots (chunkOf 0 40 4),
      .allocateSlots { chunkOf 2 32 32 with
        fullSequenceMustFit := true, reservedBlocks := 8 }] with
  | error failure =>
      rw [hrun] at hcounts
      cases hcounts
  | ok watched =>
      rw [hrun] at hcounts
      have hpair := Except.ok.inj hcounts
      simp only [Prod.mk.injEq] at hpair
      refine ⟨watched, rfl, ?_, ?_⟩
      · rw [hpair.1]
        decide
      · rw [hpair.2]
        decide

end Watched

end GlmFlash.Cache
