import GlmFlash.Cache.Ledger
import GlmFlash.Cache.PrefixCapacity

/-!
# Capacity check implies allocation

Once `allocate_slots` has passed its capacity check it changes one group after
the other, so a group that ran short would leave the others changed.  The bills
of the groups, taken as credits, pay for all of it, as long as each call keeps
to the conditions below.  They are evaluated on the state in which the check
runs, after the skipped blocks were released.
-/

set_option linter.unusedSectionVars false

namespace GlmFlash.Cache

open GlmFlash.Library
open BlockPool (Accounts Sound Grows supply)

variable {R H : Type} [DecidableEq R] [DecidableEq H]

namespace KVCacheManager

open SingleTypeKVCacheManager (AffordsNew AffordsLocal AffordsRest
  AffordsExternal HitsFit ExternalFits NoSurplus Provisioned Steady
  ReadableTail Done)

/-- The call comes with a prefix: looked-up hits or external tokens. -/
def HasPrefix (call : SlotsCall R H) : Prop :=
  call.newComputedBlocks.isSome = true ∨ 0 < call.numExternalComputedTokens

instance (call : SlotsCall R H) : Decidable (HasPrefix call) :=
  inferInstanceAs (Decidable (_ ∨ _))

/-- What a group of states asks of a call. -/
def StatesFit (self : KVCacheManager R H) (call : SlotsCall R H)
    (manager : SingleTypeKVCacheManager R H) : Prop :=
  ∀ spec ∈ SingleTypeKVCacheManager.stateSpec manager.kind,
    (HasPrefix call → manager.ExternalFits spec
      (call.groupQuery (self.chunkQuery call) manager.kvCacheGroupId)
      call.numExternalComputedTokens) ∧
    (¬HasPrefix call → manager.NoSurplus spec call.requestId
        (self.numTokensMainModel call) ∧
      ∀ hit ∈ manager.partialHitReqs call.requestId,
        (manager.blocks call.requestId)[hit.1]? = some hit.2)

instance (self : KVCacheManager R H) (call : SlotsCall R H)
    (manager : SingleTypeKVCacheManager R H) :
    Decidable (self.StatesFit call manager) :=
  inferInstanceAs (Decidable (∀ spec ∈ _, _ ∧ _))

/-- The conditions on a call, in the state of the capacity check. -/
structure CallFits (kvCacheManager : KVCacheManager R H)
    (call : SlotsCall R H) : Prop where
  within : call.numLocalComputedTokens + call.numExternalComputedTokens ≤
    kvCacheManager.maxModelLen
  first : HasPrefix call →
    kvCacheManager.IsFirstAllocation call.requestId
  hits : HasPrefix call → ∀ manager ∈ kvCacheManager.singleTypeManagers,
    manager.kind ≠ .kpoolTail → HitsFit kvCacheManager.blockPool manager
      (call.hitBlocks manager.kvCacheGroupId) call.numLocalComputedTokens
  states : ∀ manager ∈ kvCacheManager.singleTypeManagers,
    kvCacheManager.StatesFit call manager

instance (self : KVCacheManager R H) (call : SlotsCall R H) :
    Decidable (self.CallFits call) :=
  decidable_of_iff
    (call.numLocalComputedTokens + call.numExternalComputedTokens ≤
        self.maxModelLen ∧
      (HasPrefix call → self.IsFirstAllocation call.requestId) ∧
      (HasPrefix call → ∀ manager ∈ self.singleTypeManagers,
        manager.kind ≠ .kpoolTail → HitsFit self.blockPool manager
          (call.hitBlocks manager.kvCacheGroupId)
          call.numLocalComputedTokens) ∧
      ∀ manager ∈ self.singleTypeManagers, self.StatesFit call manager)
    ⟨fun ⟨hwithin, hfirst, hhits, hstates⟩ =>
        ⟨hwithin, hfirst, hhits, hstates⟩,
      fun hfits => ⟨hfits.within, hfits.first, hfits.hits, hfits.states⟩⟩

/-! ## Passes that are paid for -/

/-- A pass whose rounds are paid for gets through. -/
theorem onManagers_affords {A : Type} {self : KVCacheManager R H}
    {round : BlockPool H → SingleTypeKVCacheManager R H →
      Except Failure (Updated R H A)}
    {post : BlockPool H → SingleTypeKVCacheManager R H → ℕ → Prop}
    {credits : List ℕ}
    (hcells : List.Forall₂ (supply.Affords round post self.blockPool)
      self.singleTypeManagers credits)
    (hsound : Sound self.blockPool)
    (hfree : (credits.sum : ℤ) ≤ self.blockPool.getNumFreeBlocks)
    (hpost : ∀ pool later manager credits, Grows pool later →
      post pool manager credits → post later manager credits) :
    ∃ self' results, ∃ rests : List ℕ,
      self.onManagers round = .ok (self', results) ∧
        self'.toAllocationPolicy = self.toAllocationPolicy ∧
        Sound self'.blockPool ∧ Grows self.blockPool self'.blockPool ∧
        self.blockPool.getNumFreeBlocks - credits.sum ≤
          self'.blockPool.getNumFreeBlocks - rests.sum ∧
        List.Forall₂ (post self'.blockPool) self'.singleTypeManagers rests := by
  obtain ⟨pool', managers', results, rests, hthread, hsound', hgrows, hspent,
    hcells'⟩ := threadCells_affords hpost hcells hsound hfree
  refine ⟨{ self with blockPool := pool', singleTypeManagers := managers' },
    results, rests, ?_, rfl, hsound', hgrows, hspent, hcells'⟩
  simp only [onManagers, bind_eq_ok, Prod.exists, pure_eq_ok]
  exact ⟨pool', managers', results, hthread, rfl⟩

/-- What holds between calls. -/
structure Healthy (kvCacheManager : KVCacheManager R H) : Prop where
  maxModelLen_pos : 0 < kvCacheManager.maxModelLen
  numGpuBlocks_pos : 0 < kvCacheManager.blockPool.numGpuBlocks
  sound : Sound kvCacheManager.blockPool
  used : ∀ manager ∈ kvCacheManager.singleTypeManagers, ∀ requestId,
    ∀ block ∈ manager.blocks requestId, block ≠ nullBlock →
      0 < kvCacheManager.blockPool.refCnt block
  steady : ∀ manager ∈ kvCacheManager.singleTypeManagers,
    manager.Steady kvCacheManager.blockPool.enableCaching

/-- Every group has all its blocks. -/
def Provided (self : KVCacheManager R H) (requestId : R)
    (numTokensMainModel : ℕ) (caching : Bool) : Prop :=
  ∀ manager ∈ self.singleTypeManagers, manager.Steady caching ∧
    manager.Provisioned requestId numTokensMainModel

theorem allocateNewBlocks_affords {self : KVCacheManager R H}
    {call : SlotsCall R H} {caching : Bool} {credits : List ℕ}
    (hcells : List.Forall₂ (AffordsNew caching call.requestId
      (self.numTokensNeedSlot call) (self.numTokensMainModel call)
      call.numEncoderTokens self.blockPool) self.singleTypeManagers credits)
    (hsound : Sound self.blockPool)
    (hfree : (credits.sum : ℤ) ≤ self.blockPool.getNumFreeBlocks) :
    ∃ committed newBlocks,
      self.allocateNewBlocks call = .ok (committed, newBlocks) ∧
        Sound committed.blockPool ∧
        self.blockPool.getNumFreeBlocks - credits.sum ≤
          committed.blockPool.getNumFreeBlocks ∧
        committed.Provided call.requestId (self.numTokensMainModel call)
          caching := by
  obtain ⟨committed, newBlocks, rests, hrun, -, hsound', -, hspent, hdone⟩ :=
    onManagers_affords hcells hsound hfree fun _ _ _ _ _ hdone => hdone
  refine ⟨committed, newBlocks, hrun, hsound', by omega,
    fun manager hmem => ?_⟩
  obtain ⟨rest, -, hmanager⟩ := forall₂_mem_left hdone hmem
  exact hmanager

theorem AffordsRest.grow {caching : Bool} {requestId : R}
    {numLocalComputedTokens numExternalComputedTokens numTokens
      numTokensMainModel numEncoderTokens credits : ℕ}
    {pool later : BlockPool H} {manager : SingleTypeKVCacheManager R H}
    (hgrows : Grows pool later)
    (haffords : AffordsRest caching requestId numLocalComputedTokens
      numExternalComputedTokens numTokens numTokensMainModel numEncoderTokens
      pool manager credits) :
    AffordsRest caching requestId numLocalComputedTokens
      numExternalComputedTokens numTokens numTokensMainModel numEncoderTokens
      later manager credits := by
  unfold AffordsRest at haffords ⊢
  split
  · rw [if_pos ‹_›] at haffords
    exact haffords.grow hgrows
  · rw [if_neg ‹_›] at haffords
    exact haffords.grow hgrows

/-- The credits of a group pay for its part of a call with a prefix. -/
def PaysPrefix (caching : Bool) (call : SlotsCall R H)
    (numTokens numTokensMainModel : ℕ) (pool : BlockPool H)
    (manager : SingleTypeKVCacheManager R H) (credits : ℕ) : Prop :=
  AffordsLocal caching call.requestId (call.hitBlocks manager.kvCacheGroupId)
    call.numLocalComputedTokens call.numExternalComputedTokens numTokens
    numTokensMainModel call.numEncoderTokens pool manager credits

/-- The credits of a group pay for its part of a call without a prefix. -/
def PaysNew (caching : Bool) (call : SlotsCall R H)
    (numTokens numTokensMainModel : ℕ) (pool : BlockPool H)
    (manager : SingleTypeKVCacheManager R H) (credits : ℕ) : Prop :=
  AffordsNew caching call.requestId numTokens numTokensMainModel
    call.numEncoderTokens pool manager credits

/-- The prefix stage hands the unspent credits to the allocation. -/
theorem commit_affords {self : KVCacheManager R H} {call : SlotsCall R H}
    {caching : Bool} {credits : List ℕ} (hprefixed : HasPrefix call)
    (hfresh : ∀ manager ∈ self.singleTypeManagers,
      manager.numCachedBlock call.requestId = none)
    (hcells : List.Forall₂ (PaysPrefix caching call
      (self.numTokensNeedSlot call) (self.numTokensMainModel call)
      self.blockPool) self.singleTypeManagers credits)
    (hsound : Sound self.blockPool)
    (hfree : (credits.sum : ℤ) ≤ self.blockPool.getNumFreeBlocks) :
    ∃ committed newBlocks, self.commit call = .ok (committed, newBlocks) ∧
      Sound committed.blockPool ∧
      self.blockPool.getNumFreeBlocks - credits.sum ≤
        committed.blockPool.getNumFreeBlocks ∧
      committed.Provided call.requestId (self.numTokensMainModel call)
        caching := by
  have hlocal : List.Forall₂ (supply.Affords
      (fun pool manager => SingleTypeKVCacheManager.addLocalComputedBlocks
        call.requestId (call.hitBlocks manager.kvCacheGroupId)
        call.numLocalComputedTokens call.numExternalComputedTokens pool
        manager)
      (AffordsRest caching call.requestId call.numLocalComputedTokens
        call.numExternalComputedTokens (self.numTokensNeedSlot call)
        (self.numTokensMainModel call) call.numEncoderTokens)
      self.blockPool) self.singleTypeManagers credits := hcells
  obtain ⟨added, results, rests, hadd, hpolicy, hsound', -, hspent, hrest⟩ :=
    onManagers_affords hlocal hsound hfree fun _ _ _ _ hgrows haffords =>
      AffordsRest.grow hgrows haffords
  have hslots : ∀ later : KVCacheManager R H,
      later.toAllocationPolicy = self.toAllocationPolicy →
      later.numTokensNeedSlot call = self.numTokensNeedSlot call ∧
        later.numTokensMainModel call = self.numTokensMainModel call := by
    intro later hlater
    unfold numTokensNeedSlot numTokensMainModel totalComputedTokens
    rw [hlater]
    exact ⟨rfl, rfl⟩
  have hallocate : ∀ (later : KVCacheManager R H) (rests : List ℕ),
      later.toAllocationPolicy = self.toAllocationPolicy →
      Sound later.blockPool →
      self.blockPool.getNumFreeBlocks - credits.sum ≤
        later.blockPool.getNumFreeBlocks - rests.sum →
      List.Forall₂ (AffordsNew caching call.requestId
        (self.numTokensNeedSlot call) (self.numTokensMainModel call)
        call.numEncoderTokens later.blockPool) later.singleTypeManagers rests →
      self.prefixStage call = .ok later →
      ∃ committed newBlocks, self.commit call = .ok (committed, newBlocks) ∧
        Sound committed.blockPool ∧
        self.blockPool.getNumFreeBlocks - credits.sum ≤
          committed.blockPool.getNumFreeBlocks ∧
        committed.Provided call.requestId (self.numTokensMainModel call)
          caching := by
    intro later rests hlater hsound hleft hcells hstage
    obtain ⟨hneed, hmain⟩ := hslots later hlater
    rw [← hneed, ← hmain] at hcells
    obtain ⟨committed, newBlocks, hrun, hsound', hpaid, hprovided⟩ :=
      allocateNewBlocks_affords hcells hsound (by omega)
    refine ⟨committed, newBlocks, ?_, hsound', by omega, hmain ▸ hprovided⟩
    simp only [commit, bind_eq_ok]
    exact ⟨later, hstage, hrun⟩
  have hno : ¬∃ manager ∈ self.singleTypeManagers,
      manager.numCachedBlock call.requestId ≠ none := by
    rintro ⟨manager, hmem, hcached⟩
    exact hcached (hfresh manager hmem)
  have hstage : self.prefixStage call = self.allocateNewComputedBlocks call :=
    if_pos hprefixed
  by_cases hexternal : 0 < call.numExternalComputedTokens
  · have hcells' : List.Forall₂ (supply.Affords
        (SingleTypeKVCacheManager.allocateExternalComputedBlocks call.requestId
          call.numLocalComputedTokens call.numExternalComputedTokens)
        (AffordsNew caching call.requestId (self.numTokensNeedSlot call)
          (self.numTokensMainModel call) call.numEncoderTokens)
        added.blockPool) added.singleTypeManagers rests := by
      refine hrest.imp fun manager rest haffords => ?_
      unfold AffordsRest at haffords
      rw [if_pos hexternal] at haffords
      exact haffords
    obtain ⟨external, results', rests', hrun, hpolicy', hsound'', -, hspent',
      hnew⟩ := onManagers_affords hcells' hsound' (by omega)
        fun _ _ _ _ hgrows haffords => haffords.grow hgrows
    refine hallocate external rests' (hpolicy'.trans hpolicy) hsound''
      (by omega) hnew ?_
    rw [hstage, allocateNewComputedBlocks, if_neg hno]
    simp only [bind_eq_ok, Prod.exists]
    refine ⟨added, results, hadd, ?_⟩
    rw [if_pos hexternal]
    simp only [bind_eq_ok, Prod.exists, pure_eq_ok]
    exact ⟨external, results', hrun, rfl⟩
  · refine hallocate added rests hpolicy hsound' hspent ?_ ?_
    · refine hrest.imp fun manager rest haffords => ?_
      unfold AffordsRest at haffords
      rw [if_neg hexternal] at haffords
      exact haffords
    · rw [hstage, allocateNewComputedBlocks, if_neg hno]
      simp only [bind_eq_ok, Prod.exists]
      refine ⟨added, results, hadd, ?_⟩
      rw [if_neg hexternal]
      rfl

/-- What the query of the chunk asks for. -/
theorem chunk_tokens {self : KVCacheManager R H} {call : SlotsCall R H}
    (hhealthy : self.Healthy) (hfits : self.CallFits call)
    (hwork : call.numNewTokens ≠ 0 ∨ call.numExternalComputedTokens ≠ 0) :
    0 < self.numTokensMainModel call ∧ 0 < self.numTokensNeedSlot call ∧
      call.numLocalComputedTokens + call.numExternalComputedTokens ≤
        self.numTokensMainModel call ∧
      call.numLocalComputedTokens + call.numExternalComputedTokens ≤
        self.numTokensNeedSlot call := by
  have hwithin := hfits.within
  have hpos := hhealthy.maxModelLen_pos
  unfold numTokensNeedSlot numTokensMainModel totalComputedTokens
  omega

/-- The source of a pending redirection is readable. -/
theorem readableTail_of_fits {self : KVCacheManager R H}
    {call : SlotsCall R H} {manager : SingleTypeKVCacheManager R H}
    (hhealthy : self.Healthy) (hfits : self.CallFits call)
    (hprefixed : ¬HasPrefix call) (hmem : manager ∈ self.singleTypeManagers) :
    ReadableTail call.requestId self.blockPool manager := by
  intro blockIdx sourceBlock hpartialHit
  have hcolumns :=
    ((hhealthy.steady manager hmem).rows call.requestId).columns
  have hstates := hfits.states manager hmem
  unfold SingleTypeKVCacheManager.StateColumns at hcolumns
  unfold StatesFit at hstates
  have hkind := (hhealthy.steady manager hmem).kind
  cases hcase : manager.kind with
  | mamba spec =>
      rw [hcase] at hcolumns hstates
      have hcolumn := ((hstates spec rfl).2 hprefixed).2
        (blockIdx, sourceBlock) hpartialHit
      have hnull := (hcolumns.2 blockIdx sourceBlock hpartialHit).2.1
      exact ⟨hcolumn, hnull, hhealthy.used manager hmem call.requestId
        sourceBlock (List.mem_of_getElem? hcolumn) hnull⟩
  | _ =>
      rw [hcase] at hcolumns
      rw [show manager.partialHitReqs call.requestId = none from hcolumns]
        at hpartialHit
      cases hpartialHit

/-- Whatever passes the capacity check gets its blocks. -/
theorem commit_ok {self billed admitted : KVCacheManager R H}
    {call : SlotsCall R H} {amount : ℤ} (hhealthy : self.Healthy)
    (hfits : self.CallFits call)
    (hwork : call.numNewTokens ≠ 0 ∨ call.numExternalComputedTokens ≠ 0)
    (hbill : self.getNumBlocksToAllocate call (self.chunkQuery call) =
      .ok (billed, amount))
    (hfree : amount ≤ self.blockPool.getNumFreeBlocks)
    (hpool : admitted.blockPool = self.blockPool)
    (hpolicy : admitted.toAllocationPolicy = self.toAllocationPolicy)
    (hmanagers : admitted.singleTypeManagers = billed.singleTypeManagers) :
    ∃ committed newBlocks, admitted.commit call = .ok (committed, newBlocks) ∧
      Sound committed.blockPool ∧
      self.blockPool.getNumFreeBlocks - amount ≤
        committed.blockPool.getNumFreeBlocks ∧
      committed.Provided call.requestId (self.numTokensMainModel call)
        self.blockPool.enableCaching := by
  obtain ⟨outcomes, houtcomes, hbilled, rfl⟩ :=
    getNumBlocksToAllocate_outcomes hbill
  rw [show billed.singleTypeManagers = outcomes.map Prod.fst by rw [hbilled]]
    at hmanagers
  obtain ⟨hmain, htokens, hleMain, hleTokens⟩ :=
    chunk_tokens hhealthy hfits hwork
  have hneed : admitted.numTokensNeedSlot call = self.numTokensNeedSlot call ∧
      admitted.numTokensMainModel call = self.numTokensMainModel call := by
    unfold numTokensNeedSlot numTokensMainModel totalComputedTokens
    rw [hpolicy]
    exact ⟨rfl, rfl⟩
  have hbound : (outcomes.map Prod.snd).sum ≤
      (self.blockPool.numGpuBlocks : ℤ) :=
    hfree.trans (BlockPool.numFree_lt hhealthy.sound
      hhealthy.numGpuBlocks_pos).le
  by_cases hprefixed : HasPrefix call
  · have hrows := hfits.first hprefixed
    have hbills : ∀ outcome ∈ outcomes, ∃ credits : ℕ,
        outcome.2 = credits ∧
          ((credits : ℤ) ≤ (self.blockPool.numGpuBlocks : ℤ) →
            PaysPrefix self.blockPool.enableCaching call
              (self.numTokensNeedSlot call) (self.numTokensMainModel call)
              self.blockPool outcome.1 credits) := by
      intro outcome hmem
      obtain ⟨manager, hmanager, hrun⟩ := forall₂_mem_right houtcomes hmem
      have hbilled :=
        (SingleTypeKVCacheManager.getNumBlocksToAllocate_billed hrun).2.1
      have hgroup : outcome.1.kvCacheGroupId = manager.kvCacheGroupId := by
        rw [hbilled]
      have hstates := hfits.states manager hmanager
      obtain ⟨credits, hcredits, haffords⟩ :=
        SingleTypeKVCacheManager.affordsLocal_of_bill
          (hhealthy.steady manager hmanager) id hhealthy.sound
          (hrows manager hmanager) rfl rfl htokens hmain hleTokens hleMain
          (hfits.hits hprefixed manager hmanager) (by
            intro spec hkind
            unfold StatesFit at hstates
            rw [hkind] at hstates
            exact (hstates spec rfl).1 hprefixed) hrun
      refine ⟨credits, hcredits, fun hle => ?_⟩
      rw [PaysPrefix, hgroup]
      exact haffords (Int.ofNat_le.mp hle)
    obtain ⟨credits, hsum, hcells⟩ := exists_credits hbills hbound
    rw [← hpool, ← hneed.1, ← hneed.2, ← hmanagers] at hcells
    obtain ⟨committed, newBlocks, hrun, hsound, hpaid, hprovided⟩ :=
      commit_affords hprefixed (by
        intro manager hmem
        rw [hmanagers] at hmem
        obtain ⟨outcome, houtcome, rfl⟩ := List.mem_map.mp hmem
        obtain ⟨manager, hmanager, hrun⟩ :=
          forall₂_mem_right houtcomes houtcome
        rw [(SingleTypeKVCacheManager.getNumBlocksToAllocate_billed
          hrun).2.1]
        exact (((hhealthy.steady manager hmanager).rows
          call.requestId).fresh (hrows manager hmanager)).1) hcells
        (hpool ▸ hhealthy.sound) (by rw [hpool, hsum]; exact hfree)
    rw [hpool, hsum] at hpaid
    rw [hpool, hneed.2] at hprovided
    exact ⟨committed, newBlocks, hrun, hsound, hpaid, hprovided⟩
  · have hbills : ∀ outcome ∈ outcomes, ∃ credits : ℕ,
        outcome.2 = credits ∧
          ((credits : ℤ) ≤ (self.blockPool.numGpuBlocks : ℤ) →
            PaysNew self.blockPool.enableCaching call
              (self.numTokensNeedSlot call) (self.numTokensMainModel call)
              self.blockPool outcome.1 credits) := by
      intro outcome hmem
      obtain ⟨manager, hmanager, hrun⟩ := forall₂_mem_right houtcomes hmem
      have hstates := hfits.states manager hmanager
      have hnohits : call.hitBlocks manager.kvCacheGroupId = [] := by
        obtain ⟨hnone, -⟩ := not_or.mp hprefixed
        rw [Option.not_isSome_iff_eq_none] at hnone
        rw [SlotsCall.hitBlocks, hnone]
        rfl
      obtain ⟨credits, hcredits, haffords⟩ :=
        SingleTypeKVCacheManager.affordsNew_of_bill
          (hhealthy.steady manager hmanager) id
          (readableTail_of_fits hhealthy hfits hprefixed hmanager) rfl hnohits
          htokens hmain (by
            intro spec hkind
            unfold StatesFit at hstates
            rw [hkind] at hstates
            exact ((hstates spec rfl).2 hprefixed).1) hrun
      exact ⟨credits, hcredits, fun _ => haffords⟩
    obtain ⟨credits, hsum, hcells⟩ := exists_credits hbills hbound
    rw [← hpool, ← hneed.1, ← hneed.2, ← hmanagers] at hcells
    obtain ⟨committed, newBlocks, hrun, hsound, hpaid, hprovided⟩ :=
      allocateNewBlocks_affords hcells (hpool ▸ hhealthy.sound)
        (by rw [hpool, hsum]; exact hfree)
    rw [hpool, hsum] at hpaid
    rw [hpool, hneed.2] at hprovided
    refine ⟨committed, newBlocks, ?_, hsound, hpaid, hprovided⟩
    simp only [commit, bind_eq_ok]
    exact ⟨admitted, if_neg hprefixed, hrun⟩

/-! ## The check and what follows it -/

/-- Whoever passes the capacity check gets all blocks, takes no more than
billed, and leaves what others may count on. -/
def AdmittedGetsBlocks (self : KVCacheManager R H) (call : SlotsCall R H) :
    Prop :=
  ∀ released checked,
    call.numNewTokens ≠ 0 ∨ call.numExternalComputedTokens ≠ 0 →
    self.releaseSkipped call = .ok released →
    released.capacityGate call (self.stateReserve call.requestId) =
      .ok (checked, true) →
    ∃ committed newBlocks,
      (if self.IsFirstAllocation call.requestId then
          checked.clearReserveBlocked call.requestId
        else checked).commit call = .ok (committed, newBlocks) ∧
      released.blockPool.getNumFreeBlocks -
          committed.blockPool.getNumFreeBlocks ≤ released.chunkBill call ∧
      (call.reservedBlocks : ℤ) + self.watermark call +
          self.stateReserve call.requestId ≤
        committed.blockPool.getNumFreeBlocks

theorem chunkBill_le (self : KVCacheManager R H) (call : SlotsCall R H)
    (stateReserve : ℕ) :
    self.chunkBill call + self.watermark call + stateReserve ≤
      self.requirement call stateReserve := by
  unfold requirement
  split
  · have hmax := le_max_left (self.chunkBill call) (self.fullBill call)
    omega
  · omega

/-- The check, past the conditions, and all that follows it. -/
theorem admitted_ok {self released checked : KVCacheManager R H}
    {call : SlotsCall R H} (hhealthy : released.Healthy)
    (hfits : released.CallFits call)
    (hwork : call.numNewTokens ≠ 0 ∨ call.numExternalComputedTokens ≠ 0)
    (hrelease : self.releaseSkipped call = .ok released)
    (hgate : released.capacityGate call (self.stateReserve call.requestId) =
      .ok (checked, true)) :
    ∃ committed newBlocks,
      (if self.IsFirstAllocation call.requestId then
          checked.clearReserveBlocked call.requestId
        else checked).commit call = .ok (committed, newBlocks) ∧
      released.blockPool.getNumFreeBlocks -
          committed.blockPool.getNumFreeBlocks ≤ released.chunkBill call ∧
      (call.reservedBlocks : ℤ) + self.watermark call +
          self.stateReserve call.requestId ≤
        committed.blockPool.getNumFreeBlocks ∧
      Sound committed.blockPool ∧
      committed.Provided call.requestId (released.numTokensMainModel call)
        released.blockPool.enableCaching := by
  obtain ⟨billed, hbill, hadmitted⟩ := capacityGate_eq_ok hgate
  obtain ⟨hbilled, -, -, -⟩ := getNumBlocksToAllocate_eq_ok hbill
  have hpolicy := (removeSkippedBlocks_conserves hrelease).policy_eq
  have hwatermark : released.watermark call = self.watermark call := by
    unfold watermark
    rw [hpolicy]
  rcases hadmitted with ⟨-, rfl, hle⟩ | ⟨hfalse, -⟩
  · have hrequired := chunkBill_le released call
      (self.stateReserve call.requestId)
    set admitted := if self.IsFirstAllocation call.requestId then
      checked.clearReserveBlocked call.requestId else checked with hadmitted
    have hchecked : checked.blockPool = released.blockPool ∧
        checked.toAllocationPolicy = released.toAllocationPolicy := by
      rw [hbilled]
      exact ⟨rfl, rfl⟩
    have hpool : admitted.blockPool = released.blockPool := by
      rw [hadmitted]
      split <;> exact hchecked.1
    have hsame : admitted.toAllocationPolicy = released.toAllocationPolicy := by
      rw [hadmitted]
      split <;> exact hchecked.2
    have hmanagers : admitted.singleTypeManagers =
        checked.singleTypeManagers := by
      rw [hadmitted]
      split <;> rfl
    obtain ⟨committed, newBlocks, hcommit, hsound, hpaid, hprovided⟩ :=
      commit_ok hhealthy hfits hwork hbill (by omega) hpool hsame hmanagers
    rw [hwatermark] at hrequired
    exact ⟨committed, newBlocks, hcommit, by omega, by omega, hsound,
      hprovided⟩
  · cases hfalse

end KVCacheManager

end GlmFlash.Cache
