import GlmFlash.Cache.Driver
import GlmFlash.Cache.ManagerLedger

/-!
# Reference-count conservation

The KV-cache manager refers to a block through the tables and pending copies of
its groups and through partial-tail pins.  Whoever drives it holds two more
kinds of references: lists of popped but not yet freed blocks, and the retained
endpoints of drained copies.  Over every run the reference count of a proper
block is the sum of the four.
-/

set_option linter.unusedSectionVars false

namespace GlmFlash.Cache

open GlmFlash.Library
open BlockPool (Accounts SameRefs)

variable {R H : Type} [DecidableEq R] [DecidableEq H]

namespace KVCacheManager

open SingleTypeKVCacheManager (Balanced Retains Drops)

/-- The references of the groups. -/
def groupRefs (self : KVCacheManager R H) (block : BlockId) : ℕ :=
  (self.singleTypeManagers.map fun manager => manager.refs block).sum

def refs (self : KVCacheManager R H) (block : BlockId) : ℕ :=
  self.groupRefs block + self.partialTailPins.occurrences block

/-- The pool accounts for the manager and a frame. -/
def Covers (self : KVCacheManager R H) (frame : BlockId → ℕ) : Prop :=
  Accounts self.blockPool fun block => frame block + self.refs block

/-- An operation that conserves references and touches neither policy nor
pins, and relates each group to its successor. -/
structure Conserves
    (relation : SingleTypeKVCacheManager R H → SingleTypeKVCacheManager R H →
      Prop) (before after : KVCacheManager R H) : Prop where
  covers : ∀ frame, before.Covers frame → after.Covers frame
  config_eq : after.blockPool.config = before.blockPool.config
  policy_eq : after.toAllocationPolicy = before.toAllocationPolicy
  pins_eq : after.partialTailPins = before.partialTailPins
  groups : List.Forall₂ relation before.singleTypeManagers
    after.singleTypeManagers

variable {relation : SingleTypeKVCacheManager R H →
  SingleTypeKVCacheManager R H → Prop}

theorem Conserves.refl (hrefl : ∀ manager, relation manager manager)
    (self : KVCacheManager R H) : Conserves relation self self where
  covers _ hcovers := hcovers
  config_eq := rfl
  policy_eq := rfl
  pins_eq := rfl
  groups := List.forall₂_same.mpr fun manager _ => hrefl manager

theorem Conserves.trans
    (htrans : ∀ first second third, relation first second →
      relation second third → relation first third)
    {self middle final : KVCacheManager R H}
    (hfirst : Conserves relation self middle)
    (hsecond : Conserves relation middle final) :
    Conserves relation self final where
  covers frame hcovers := hsecond.covers frame (hfirst.covers frame hcovers)
  config_eq := hsecond.config_eq.trans hfirst.config_eq
  policy_eq := hsecond.policy_eq.trans hfirst.policy_eq
  pins_eq := hsecond.pins_eq.trans hfirst.pins_eq
  groups := forall₂_trans htrans hfirst.groups hsecond.groups

theorem Conserves.retains_trans {self middle final : KVCacheManager R H}
    (hfirst : Conserves Retains self middle)
    (hsecond : Conserves Retains middle final) :
    Conserves Retains self final :=
  Conserves.trans (fun _ _ _ hleft hright => hleft.trans hright) hfirst
    hsecond

variable {self self' : KVCacheManager R H}

/-- A pass of balanced rounds conserves references. -/
theorem onManagers_conserves {A : Type}
    {round : BlockPool H → SingleTypeKVCacheManager R H →
      Except Failure (Updated R H A)}
    (hround : ∀ pool manager pool' manager' result,
      round pool manager = .ok (pool', manager', result) →
        Balanced pool manager pool' manager' ∧ relation manager manager') {results : List A}
    (hrun : self.onManagers round = .ok (self', results)) :
    Conserves relation self self' := by
  simp only [onManagers, bind_eq_ok, Prod.exists, pure_eq_ok,
    Prod.mk.injEq] at hrun
  obtain ⟨pool', managers', _, hthread, rfl, -⟩ := hrun
  refine ⟨fun frame hcovers => ?_, ?_, rfl, rfl, ?_⟩
  · have hloop := threadCells_frame
      (fun pool manager pool' manager' result frame hcell hholds =>
        (hround pool manager pool' manager' result hcell).1.covers frame
          hholds) hthread
      (fun block => frame block + self.partialTailPins.occurrences block)
      (by
        refine hcovers.congr fun block _ => ?_
        simp only [refs, groupRefs]
        omega)
    refine hloop.congr fun block _ => ?_
    simp only [refs, groupRefs]
    omega
  · exact threadCells_invariant
      (fun pool manager pool' manager' result hcell hconfig =>
        ((hround pool manager pool' manager' result hcell).1.config_eq).trans
          hconfig) hthread rfl
  · exact threadCells_forall₂ (fun pool manager pool' manager' result hcell =>
      (hround pool manager pool' manager' result hcell).2) hthread

/-! ## Stages of `allocate_slots` -/

theorem getNumBlocksToAllocate_conserves
    {call : SlotsCall R H} {query : BlockQuery R} {demand : ℤ}
    (hrun : self.getNumBlocksToAllocate call query = .ok (self', demand)) :
    Conserves Retains self self' := by
  simp only [getNumBlocksToAllocate, bind_eq_ok, Prod.exists, pure_eq_ok,
    Prod.mk.injEq] at hrun
  obtain ⟨_, _, hpass, rfl, -⟩ := hrun
  exact onManagers_conserves (fun _ _ _ _ _ hcell =>
    SingleTypeKVCacheManager.getNumBlocksToAllocate_balanced hcell) hpass

theorem decideAdmission_conserves
    {requestId : R} {requiredBlocks availableBlocks : ℤ}
    {stateReserve : ℕ} {fits : Bool}
    (hrun : self.decideAdmission requestId requiredBlocks availableBlocks
      stateReserve = (self', fits)) :
    Conserves Retains self self' := by
  have hrefl := Conserves.refl Retains.refl self
  unfold decideAdmission at hrun
  split at hrun
  · split at hrun
    · simp only [Prod.mk.injEq] at hrun
      obtain ⟨rfl, -⟩ := hrun
      exact ⟨hrefl.covers, rfl, rfl, rfl, hrefl.groups⟩
    · simp only [Prod.mk.injEq] at hrun
      exact hrun.1 ▸ hrefl
  · simp only [Prod.mk.injEq] at hrun
    exact hrun.1 ▸ hrefl

theorem fullSequenceGate_conserves
    {call : SlotsCall R H} {stateReserve : ℕ} {fits : Bool}
    (hrun : self.fullSequenceGate call stateReserve = .ok (self', fits)) :
    Conserves Retains self self' := by
  unfold fullSequenceGate at hrun
  split at hrun
  · simp only [bind_eq_ok, Prod.exists, pure_eq_ok] at hrun
    obtain ⟨middle, _, hdemand, hdecide⟩ := hrun
    exact (getNumBlocksToAllocate_conserves hdemand).retains_trans
      (decideAdmission_conserves hdecide)
  · simp only [Except.ok.injEq, Prod.mk.injEq] at hrun
    exact hrun.1 ▸ Conserves.refl Retains.refl self

theorem requiredBlocks_conserves
    {call : SlotsCall R H} {stateReserve : ℕ} {required : ℤ}
    (hrun : self.requiredBlocks call stateReserve = .ok (self', required)) :
    Conserves Retains self self' := by
  simp only [requiredBlocks, bind_eq_ok, Prod.exists] at hrun
  obtain ⟨middle, _, hchunk, hrest⟩ := hrun
  have hfirst := getNumBlocksToAllocate_conserves hchunk
  split at hrest
  · simp only [bind_eq_ok, Prod.exists, pure_eq_ok, Prod.mk.injEq] at hrest
    obtain ⟨_, _, hfull, rfl, -⟩ := hrest
    exact hfirst.retains_trans (getNumBlocksToAllocate_conserves hfull)
  · simp only [pure_eq_ok, Prod.mk.injEq] at hrest
    exact hrest.1 ▸ hfirst

theorem capacityGate_conserves
    {call : SlotsCall R H} {stateReserve : ℕ} {fits : Bool}
    (hrun : self.capacityGate call stateReserve = .ok (self', fits)) :
    Conserves Retains self self' := by
  simp only [capacityGate, bind_eq_ok, Prod.exists, pure_eq_ok] at hrun
  obtain ⟨middle, _, hrequired, hdecide⟩ := hrun
  exact (requiredBlocks_conserves hrequired).retains_trans
    (decideAdmission_conserves hdecide)

theorem removeSkippedBlocks_conserves
    {requestId : R} {processedComputedTokens : ℕ} {numPromptTokens : Option ℕ}
    (hrun : self.removeSkippedBlocks requestId processedComputedTokens
      numPromptTokens = .ok self') :
    Conserves (Drops requestId) self self' := by
  simp only [removeSkippedBlocks, bind_eq_ok, Prod.exists, pure_eq_ok]
    at hrun
  obtain ⟨_, _, hpass, rfl⟩ := hrun
  exact onManagers_conserves (fun _ _ _ _ _ hcell =>
    ⟨SingleTypeKVCacheManager.removeSkippedBlocks_balanced hcell,
      SingleTypeKVCacheManager.removeSkippedBlocks_drops hcell⟩) hpass

theorem prefixStage_conserves
    {call : SlotsCall R H} (hrun : self.prefixStage call = .ok self') :
    Conserves Retains self self' := by
  unfold prefixStage at hrun
  split at hrun
  · unfold allocateNewComputedBlocks at hrun
    split at hrun
    · simp only [bind_eq_ok, pure_eq_ok] at hrun
      obtain ⟨_, -, rfl⟩ := hrun
      exact Conserves.refl Retains.refl self
    · simp only [bind_eq_ok, Prod.exists] at hrun
      obtain ⟨middle, _, hlocal, hrest⟩ := hrun
      have hfirst : Conserves Retains self middle :=
        onManagers_conserves (fun _ _ _ _ _ hcell =>
          SingleTypeKVCacheManager.addLocalComputedBlocks_balanced hcell)
          hlocal
      split at hrest
      · simp only [bind_eq_ok, Prod.exists, pure_eq_ok] at hrest
        obtain ⟨_, _, hexternal, rfl⟩ := hrest
        exact hfirst.retains_trans (onManagers_conserves
          (fun _ _ _ _ _ hcell =>
            SingleTypeKVCacheManager.allocateExternalComputedBlocks_balanced
              hcell) hexternal)
      · simp only [pure_eq_ok] at hrest
        exact hrest ▸ hfirst
  · simp only [Except.ok.injEq] at hrun
    exact hrun ▸ Conserves.refl Retains.refl self

theorem allocateNewBlocks_conserves
    {call : SlotsCall R H} {newBlocks : List (List BlockId)}
    (hrun : self.allocateNewBlocks call = .ok (self', newBlocks)) :
    Conserves Retains self self' :=
  onManagers_conserves (fun _ _ _ _ _ hcell =>
    SingleTypeKVCacheManager.allocateNewBlocks_balanced hcell) hrun

theorem commit_conserves
    {call : SlotsCall R H} {newBlocks : List (List BlockId)}
    (hrun : self.commit call = .ok (self', newBlocks)) :
    Conserves Retains self self' := by
  simp only [commit, bind_eq_ok] at hrun
  obtain ⟨_, hprefixed, hnew⟩ := hrun
  exact (prefixStage_conserves hprefixed).retains_trans
    (allocateNewBlocks_conserves hnew)

/-- Ending a streak of the aging escape moves no reference. -/
theorem commit_admitted_conserves {checked committed : KVCacheManager R H}
    {call : SlotsCall R H} {newBlocks : List (List BlockId)}
    {first : Prop} [Decidable first]
    (hrun : (if first then checked.clearReserveBlocked call.requestId
      else checked).commit call = .ok (committed, newBlocks)) :
    Conserves Retains checked committed := by
  have hstep := commit_conserves hrun
  split at hstep
  · exact ⟨hstep.covers, hstep.config_eq, hstep.policy_eq, hstep.pins_eq,
      hstep.groups⟩
  · exact hstep

theorem cacheBlocks_conserves {request : Request R H} {numComputedTokens : ℕ}
    (hrun : self.cacheBlocks request numComputedTokens = .ok self') :
    Conserves Retains self self' := by
  unfold cacheBlocks at hrun
  split at hrun
  · simp only [bind_eq_ok, Prod.exists, pure_eq_ok] at hrun
    obtain ⟨_, _, hpass, rfl⟩ := hrun
    exact onManagers_conserves (fun _ _ _ _ _ hcell =>
      (SingleTypeKVCacheManager.cacheBlocks_caches hcell).balanced) hpass
  · simp only [Except.ok.injEq] at hrun
    exact hrun ▸ Conserves.refl Retains.refl self

theorem cacheStage_conserves
    {call : SlotsCall R H} (hrun : self.cacheStage call = .ok self') :
    Conserves Retains self self' := by
  unfold cacheStage at hrun
  split at hrun
  · simp only [Except.ok.injEq] at hrun
    exact hrun ▸ Conserves.refl Retains.refl self
  · exact cacheBlocks_conserves hrun

/-- `allocate_slots` only ever gains references, up to the one release of
skipped blocks in its middle. -/
theorem allocateSlots_conserves
    {call : SlotsCall R H} {result : Option (List (List BlockId))}
    (hrun : self.allocateSlots call = .ok (self', result)) :
    ∃ gated released, Conserves Retains self gated ∧
      Conserves (Drops call.requestId) gated released ∧
      Conserves Retains released self' := by
  simp only [allocateSlots, bind_eq_ok, Prod.exists, require_eq_ok] at hrun
  obtain ⟨_, -, gated, fits, hgate, hrest⟩ := hrun
  have hgated := fullSequenceGate_conserves hgate
  split at hrest
  · simp only [pure_eq_ok, Prod.mk.injEq] at hrest
    obtain ⟨rfl, -⟩ := hrest
    exact ⟨gated, gated, hgated, Conserves.refl (Drops.refl _) gated,
      Conserves.refl Retains.refl gated⟩
  · simp only [bind_eq_ok, Prod.exists] at hrest
    obtain ⟨released, hremove, checked, fits', hcapacity, hfinish⟩ := hrest
    have hreleased := removeSkippedBlocks_conserves hremove
    have hchecked := capacityGate_conserves hcapacity
    refine ⟨gated, released, hgated, hreleased, ?_⟩
    split at hfinish
    · simp only [pure_eq_ok, Prod.mk.injEq] at hfinish
      obtain ⟨rfl, -⟩ := hfinish
      exact hchecked
    · simp only [bind_eq_ok, Prod.exists, pure_eq_ok, Prod.mk.injEq]
        at hfinish
      obtain ⟨committed, _, hcommit, _, hcache, rfl, -⟩ := hfinish
      exact hchecked.retains_trans
        ((commit_admitted_conserves hcommit).retains_trans
          (cacheStage_conserves hcache))

/-! ## Releasing and handing off -/

/-- Giving up references and returning the blocks they stood for. -/
theorem covers_freeBlocks {blocks : List BlockId} {frame frame' : BlockId → ℕ}
    (hpool : self'.blockPool = self.blockPool.freeBlocks blocks)
    (hrefs : ∀ block, frame' block + self'.refs block + blocks.count block =
      frame block + self.refs block)
    (hcovers : self.Covers frame) : self'.Covers frame' := by
  rw [Covers, hpool]
  apply BlockPool.freeBlocks_accounts
  exact hcovers.congr fun block _ => (hrefs block).symm

/-- The successor of a group whose request was popped. -/
def Popped (requestId : R) (manager manager' :
    SingleTypeKVCacheManager R H) : Prop :=
  manager' = (manager.popBlocksForFree requestId).2

theorem free_conserves {requestId : R}
    (hrun : self.free requestId = .ok self') :
    Conserves (Popped requestId) (self.unpin requestId) self' := by
  simp only [free, bind_eq_ok, Prod.exists, pure_eq_ok] at hrun
  obtain ⟨_, _, hpass, rfl⟩ := hrun
  refine onManagers_conserves (fun pool manager pool' manager' _ hcell => ?_)
    hpass
  simp only [Except.ok.injEq, Prod.mk.injEq] at hcell
  obtain ⟨rfl, rfl, -⟩ := hcell
  exact ⟨SingleTypeKVCacheManager.balanced_free requestId pool manager, rfl⟩

theorem free_covers {requestId : R}
    (hrun : self.free requestId = .ok self') {frame : BlockId → ℕ}
    (hcovers : self.Covers frame) : self'.Covers frame := by
  refine (free_conserves hrun).covers frame
    (covers_freeBlocks rfl (fun block => ?_) hcovers)
  have hcount := Tables.occurrences_dropRow self.partialTailPins requestId
    block
  simp only [refs, groupRefs, unpin]
  omega

theorem popBlocksForFree_refs (self : KVCacheManager R H) (requestId : R)
    (block : BlockId) :
    (self.popBlocksForFree requestId).2.refs block +
        (self.popBlocksForFree requestId).1.count block =
      self.refs block := by
  have hgroups : ∀ managers : List (SingleTypeKVCacheManager R H),
      ((managers.map fun manager =>
          manager.popBlocksForFree requestId).map fun popped =>
            popped.2.refs block).sum +
        ((managers.map fun manager =>
          manager.popBlocksForFree requestId).map Prod.fst).flatten.count
            block =
        (managers.map fun manager => manager.refs block).sum := by
    intro managers
    induction managers with
    | nil => rfl
    | cons manager managers ih =>
        have hhead := SingleTypeKVCacheManager.refs_popBlocksForFree manager
          requestId block
        simp only [List.map_cons, List.sum_cons, List.flatten_cons,
          List.count_append] at ih ⊢
        omega
  have hpins := Tables.occurrences_dropRow self.partialTailPins requestId
    block
  have hall := hgroups self.singleTypeManagers
  simp only [refs, groupRefs, popBlocksForFree, List.map_map,
    List.count_append, Function.comp_def] at hall ⊢
  omega

theorem takeKvCacheBlockCopies_refs (self : KVCacheManager R H)
    (block : BlockId) :
    self.takeKvCacheBlockCopies.2.refs block +
        (endpoints self.takeKvCacheBlockCopies.1).count block =
      self.refs block := by
  have hgroups : ∀ managers : List (SingleTypeKVCacheManager R H),
      ((managers.map fun manager => { manager with
          pendingCowCopies := [] }).map fun manager =>
            manager.refs block).sum +
        (endpoints (managers.flatMap
          SingleTypeKVCacheManager.pendingCowCopies)).count block =
        (managers.map fun manager => manager.refs block).sum := by
    intro managers
    induction managers with
    | nil => rfl
    | cons manager managers ih =>
        simp only [List.map_cons, List.sum_cons, List.flatMap_cons,
          endpoints_append, List.count_append] at ih ⊢
        simp only [SingleTypeKVCacheManager.refs] at ih ⊢
        simp only [endpoints, List.flatMap_nil, List.count_nil] at ih ⊢
        omega
  have hall := hgroups self.singleTypeManagers
  simp only [refs, groupRefs, takeKvCacheBlockCopies] at hall ⊢
  omega

theorem pinOffloads_covers
    {entries : List (PartialTailOffload R)} {frame : BlockId → ℕ}
    (hrun : self.pinOffloads entries = .ok self')
    (hcovers : self.Covers frame) : self'.Covers frame := by
  induction entries generalizing self with
  | nil =>
      simp only [pinOffloads, Except.ok.injEq] at hrun
      exact hrun ▸ hcovers
  | cons entry entries ih =>
      simp only [pinOffloads, bind_eq_ok] at hrun
      obtain ⟨touched, htouch, hrest⟩ := hrun
      refine ih hrest ((BlockPool.touch_accounts htouch hcovers).congr
        fun block _ => ?_)
      have hpins := Tables.occurrences_setRow self.partialTailPins
        entry.requestId
        (self.partialTailPins.row entry.requestId ++ [entry.block]) block
      rw [List.count_append] at hpins
      simp only [refs, groupRefs]
      omega

theorem takePartialTailOffloads_covers
    {entries : List (PartialTailOffload R)} {frame : BlockId → ℕ}
    (hrun : self.takePartialTailOffloads = .ok (self', entries))
    (hcovers : self.Covers frame) : self'.Covers frame := by
  simp only [takePartialTailOffloads, bind_eq_ok, pure_eq_ok,
    Prod.mk.injEq] at hrun
  obtain ⟨_, hpin, rfl, -⟩ := hrun
  refine pinOffloads_covers hpin (hcovers.congr fun block _ => ?_)
  simp only [refs, groupRefs, List.map_map, Function.comp_def]
  rfl

theorem config_pinOffloads {entries : List (PartialTailOffload R)}
    (hrun : self.pinOffloads entries = .ok self') :
    self'.blockPool.config = self.blockPool.config := by
  induction entries generalizing self with
  | nil =>
      simp only [pinOffloads, Except.ok.injEq] at hrun
      rw [hrun]
  | cons entry entries ih =>
      simp only [pinOffloads, bind_eq_ok] at hrun
      obtain ⟨touched, htouch, hrest⟩ := hrun
      exact (ih hrest).trans (BlockPool.config_touch htouch)

theorem config_takePartialTailOffloads {entries : List (PartialTailOffload R)}
    (hrun : self.takePartialTailOffloads = .ok (self', entries)) :
    self'.blockPool.config = self.blockPool.config := by
  simp only [takePartialTailOffloads, bind_eq_ok, pure_eq_ok,
    Prod.mk.injEq] at hrun
  obtain ⟨_, hpin, rfl, -⟩ := hrun
  rw [config_pinOffloads hpin]

/-! ## Pins belong to requests with blocks -/

/-- Whoever has a pin or is about to get one has blocks. -/
def PinsBacked (self : KVCacheManager R H) : Prop :=
  ∀ requestId, (self.partialTailPins.row requestId ≠ [] ∨
      ∃ manager ∈ self.singleTypeManagers,
        ∃ entry ∈ manager.pendingPartialTailOffloads,
          entry.requestId = requestId) →
    ∃ manager ∈ self.singleTypeManagers, manager.blocks requestId ≠ []

theorem PinsBacked.retains
    (hbacked : self.PinsBacked) (hstage : Conserves Retains self self') :
    self'.PinsBacked := by
  have hgrow : ∀ requestId, (∃ manager ∈ self.singleTypeManagers,
      manager.blocks requestId ≠ []) →
      ∃ manager ∈ self'.singleTypeManagers,
        manager.blocks requestId ≠ [] := by
    intro requestId hblocks
    obtain ⟨manager, hmem, hrow⟩ := hblocks
    obtain ⟨manager', hmem', hretains⟩ := forall₂_mem_left hstage.groups hmem
    refine ⟨manager', hmem', List.length_pos_iff.mp ?_⟩
    have hpos := List.length_pos_iff.mpr hrow
    exact hpos.trans_le (hretains.length_le requestId)
  intro requestId hcase
  cases hcase with
  | inl hpins =>
      rw [hstage.pins_eq] at hpins
      exact hgrow requestId (hbacked requestId (.inl hpins))
  | inr hpending =>
      obtain ⟨manager', hmem', entry, hentry, rfl⟩ := hpending
      obtain ⟨manager, hmem, hretains⟩ :=
        forall₂_mem_right hstage.groups hmem'
      cases hretains.offloads entry hentry with
      | inl hold =>
          exact hgrow _ (hbacked _ (.inr ⟨manager, hmem, entry, hold, rfl⟩))
      | inr hrow => exact ⟨manager', hmem', hrow⟩

theorem PinsBacked.drops {owner : R} (hbacked : self.PinsBacked)
    (hstage : Conserves (Drops owner) self self') : self'.PinsBacked := by
  intro requestId hcase
  have hbefore : ∃ manager ∈ self.singleTypeManagers,
      manager.blocks requestId ≠ [] := by
    apply hbacked
    refine hcase.imp (fun hpins => ?_) fun hpending => ?_
    · rwa [← hstage.pins_eq]
    · obtain ⟨manager', hmem', entry, hentry, howner⟩ := hpending
      obtain ⟨manager, hmem, hdrops⟩ := forall₂_mem_right hstage.groups hmem'
      rw [hdrops.offloads_eq] at hentry
      exact ⟨manager, hmem, entry, hentry, howner⟩
  obtain ⟨manager, hmem, hrow⟩ := hbefore
  obtain ⟨manager', hmem', hdrops⟩ := forall₂_mem_left hstage.groups hmem
  refine ⟨manager', hmem', List.length_pos_iff.mp ?_⟩
  have hpos := List.length_pos_iff.mpr hrow
  by_cases howner : requestId = owner
  · subst howner
    rw [hdrops.length_eq]
    exact hpos
  · rw [hdrops.row_ne requestId howner]
    exact hpos

/-- The same tables and hand-offs, whatever else changed. -/
theorem PinsBacked.congr (hbacked : self.PinsBacked)
    (hpins : self'.partialTailPins = self.partialTailPins)
    (hgroups : List.Forall₂ (fun manager manager' =>
      manager'.reqToBlocks = manager.reqToBlocks ∧
        ∀ entry ∈ manager'.pendingPartialTailOffloads,
          entry ∈ manager.pendingPartialTailOffloads)
      self.singleTypeManagers self'.singleTypeManagers) :
    self'.PinsBacked := by
  intro requestId hcase
  have hbefore : ∃ manager ∈ self.singleTypeManagers,
      manager.blocks requestId ≠ [] := by
    apply hbacked
    refine hcase.imp (fun hrow => ?_) fun hpending => ?_
    · rwa [← hpins]
    · obtain ⟨manager', hmem', entry, hentry, howner⟩ := hpending
      obtain ⟨manager, hmem, hsame⟩ := forall₂_mem_right hgroups hmem'
      exact ⟨manager, hmem, entry, hsame.2 entry hentry, howner⟩
  obtain ⟨manager, hmem, hrow⟩ := hbefore
  obtain ⟨manager', hmem', hsame⟩ := forall₂_mem_left hgroups hmem
  refine ⟨manager', hmem', ?_⟩
  rwa [SingleTypeKVCacheManager.blocks, hsame.1]

theorem blocks_popBlocksForFree_ne (manager : SingleTypeKVCacheManager R H)
    {requestId other : R} (hother : other ≠ requestId) :
    (manager.popBlocksForFree requestId).2.blocks other =
      manager.blocks other :=
  Tables.row_dropRow_ne _ hother

/-- A request that is popped has neither pins nor pending hand-offs. -/
theorem PinsBacked.pop {requestId : R} (hbacked : self.PinsBacked)
    (hpins : self'.partialTailPins =
      self.partialTailPins.dropRow requestId)
    (hgroups : List.Forall₂ (Popped requestId) self.singleTypeManagers
      self'.singleTypeManagers) :
    self'.PinsBacked := by
  intro other hcase
  have hother : other ≠ requestId := by
    rintro rfl
    cases hcase with
    | inl hrow =>
        rw [hpins, Tables.row_dropRow_self] at hrow
        exact hrow rfl
    | inr hpending =>
        obtain ⟨manager', hmem', entry, hentry, howner⟩ := hpending
        obtain ⟨manager, -, rfl⟩ := forall₂_mem_right hgroups hmem'
        have hkept := (List.mem_filter.mp hentry).2
        simp [howner] at hkept
  have hbefore : ∃ manager ∈ self.singleTypeManagers,
      manager.blocks other ≠ [] := by
    apply hbacked
    refine hcase.imp (fun hrow => ?_) fun hpending => ?_
    · rwa [hpins, Tables.row_dropRow_ne _ hother] at hrow
    · obtain ⟨manager', hmem', entry, hentry, howner⟩ := hpending
      obtain ⟨manager, hmem, rfl⟩ := forall₂_mem_right hgroups hmem'
      exact ⟨manager, hmem, entry, (List.mem_filter.mp hentry).1, howner⟩
  obtain ⟨manager, hmem, hrow⟩ := hbefore
  obtain ⟨manager', hmem', rfl⟩ := forall₂_mem_left hgroups hmem
  refine ⟨_, hmem', ?_⟩
  rwa [blocks_popBlocksForFree_ne manager hother]

theorem popBlocksForFree_groups (self : KVCacheManager R H) (requestId : R) :
    List.Forall₂ (Popped requestId) self.singleTypeManagers
      (self.popBlocksForFree requestId).2.singleTypeManagers := by
  simp only [popBlocksForFree, List.map_map, List.forall₂_map_right_iff]
  exact List.forall₂_same.mpr fun _ _ => rfl

theorem PinsBacked.pinOffloads {entries : List (PartialTailOffload R)}
    (hbacked : self.PinsBacked)
    (hentries : ∀ entry ∈ entries, ∃ manager ∈ self.singleTypeManagers,
      manager.blocks entry.requestId ≠ [])
    (hrun : self.pinOffloads entries = .ok self') : self'.PinsBacked := by
  induction entries generalizing self with
  | nil =>
      simp only [KVCacheManager.pinOffloads, Except.ok.injEq] at hrun
      exact hrun ▸ hbacked
  | cons entry entries ih =>
      simp only [KVCacheManager.pinOffloads, bind_eq_ok] at hrun
      obtain ⟨touched, -, hrest⟩ := hrun
      refine ih ?_ ?_ hrest
      · intro requestId hcase
        by_cases howner : requestId = entry.requestId
        · subst howner
          exact hentries entry List.mem_cons_self
        · refine hbacked requestId (hcase.imp (fun hrow => ?_) id)
          rwa [Tables.row_setRow_ne _ howner] at hrow
      · intro other hother
        exact hentries other (List.mem_cons_of_mem _ hother)

theorem PinsBacked.takePartialTailOffloads
    {entries : List (PartialTailOffload R)} (hbacked : self.PinsBacked)
    (hrun : self.takePartialTailOffloads = .ok (self', entries)) :
    self'.PinsBacked := by
  simp only [KVCacheManager.takePartialTailOffloads, bind_eq_ok, pure_eq_ok,
    Prod.mk.injEq] at hrun
  obtain ⟨_, hpin, rfl, -⟩ := hrun
  refine PinsBacked.pinOffloads ?_ ?_ hpin
  · refine hbacked.congr rfl ?_
    rw [List.forall₂_map_right_iff]
    exact List.forall₂_same.mpr fun _ _ => ⟨rfl, fun _ hnone => by
      simp at hnone⟩
  · intro entry hmem
    obtain ⟨manager, hmanager, hentry⟩ := List.mem_flatMap.mp hmem
    obtain ⟨owner, howner, hrow⟩ := hbacked entry.requestId
      (.inr ⟨manager, hmanager, entry, hentry, rfl⟩)
    exact ⟨_, List.mem_map_of_mem howner, hrow⟩

end KVCacheManager

/-! ## Runs -/

namespace Driver

open KVCacheManager (Conserves PinsBacked)

/-- The references of the caller. -/
def held (driver : Driver R H) (block : BlockId) : ℕ :=
  driver.popped.flatten.count block + driver.retained.flatten.count block

structure Ledger (driver : Driver R H) : Prop where
  covers : driver.kvCacheManager.Covers driver.held
  backed : driver.kvCacheManager.PinsBacked

theorem ledger_init (policy : AllocationPolicy) (groups : List ManagerSpec)
    (numBlocks hashBlockSize : ℕ) (enableCaching : Bool)
    (hpos : 0 < numBlocks) :
    Ledger (init (KVCacheManager.init policy groups numBlocks hashBlockSize
      enableCaching : KVCacheManager R H)) where
  covers := by
    refine (BlockPool.accounts_init numBlocks hpos enableCaching
      hashBlockSize).congr fun block _ => ?_
    have hgroups : (KVCacheManager.init policy groups numBlocks hashBlockSize
        enableCaching : KVCacheManager R H).groupRefs block = 0 := by
      apply List.sum_eq_zero
      intro amount hamount
      obtain ⟨manager, hmem, rfl⟩ := List.mem_map.mp hamount
      obtain ⟨_, _, rfl⟩ := List.mem_mapIdx.mp hmem
      simp [SingleTypeKVCacheManager.refs, SingleTypeKVCacheManager.init,
        endpoints]
    have hpins : (KVCacheManager.init policy groups numBlocks hashBlockSize
        enableCaching : KVCacheManager R H).partialTailPins.occurrences
          block = 0 :=
      Tables.occurrences_empty block
    simp [held, init, KVCacheManager.refs, hgroups, hpins]
  backed := by
    intro requestId hcase
    cases hcase with
    | inl hpins => simp [init, KVCacheManager.init] at hpins
    | inr hpending =>
        obtain ⟨manager, hmem, entry, hentry, -⟩ := hpending
        obtain ⟨_, _, rfl⟩ := List.mem_mapIdx.mp hmem
        simp [SingleTypeKVCacheManager.init] at hentry

/-- Every call of the scheduler keeps the ledger. -/
theorem step_ledger {driver driver' : Driver R H}
    {operation : Operation R H}
    (hstep : driver.step operation = .ok driver')
    (hledger : driver.Ledger) : driver'.Ledger := by
  obtain ⟨hcovers, hbacked⟩ := hledger
  cases operation with
  | allocateSlots call =>
      simp only [step, bind_eq_ok, Prod.exists, pure_eq_ok] at hstep
      obtain ⟨_, _, hcall, rfl⟩ := hstep
      obtain ⟨gated, released, hgated, hreleased, hfinal⟩ :=
        KVCacheManager.allocateSlots_conserves hcall
      exact ⟨hfinal.covers _ (hreleased.covers _ (hgated.covers _ hcovers)),
        ((hbacked.retains hgated).drops hreleased).retains hfinal⟩
  | free requestId =>
      simp only [step, bind_eq_ok, pure_eq_ok] at hstep
      obtain ⟨_, hfree, rfl⟩ := hstep
      have hstage := KVCacheManager.free_conserves hfree
      exact ⟨KVCacheManager.free_covers hfree hcovers,
        hbacked.pop hstage.pins_eq hstage.groups⟩
  | popBlocksForFree requestId =>
      simp only [step, Except.ok.injEq] at hstep
      subst hstep
      refine ⟨hcovers.congr fun block _ => ?_, hbacked.pop rfl
        (KVCacheManager.popBlocksForFree_groups _ requestId)⟩
      have hrefs := KVCacheManager.popBlocksForFree_refs
        driver.kvCacheManager requestId block
      simp only [held, List.flatten_append, List.count_append,
        List.flatten_singleton]
      omega
  | freeBlocks index =>
      simp only [step, Except.ok.injEq] at hstep
      subst hstep
      refine ⟨KVCacheManager.covers_freeBlocks rfl (fun block => ?_) hcovers,
        hbacked⟩
      have hcount := count_flatten_eraseIdx driver.popped index block
      simp only [held, List.count_reverse, KVCacheManager.refs,
        KVCacheManager.groupRefs, KVCacheManager.freeBlocks]
      omega
  | takeKvCacheBlockCopies =>
      simp only [step, Except.ok.injEq] at hstep
      subst hstep
      refine ⟨hcovers.congr fun block _ => ?_, hbacked.congr rfl ?_⟩
      · have hrefs := KVCacheManager.takeKvCacheBlockCopies_refs
          driver.kvCacheManager block
        simp only [endpoints] at hrefs
        simp only [held, List.flatten_append, List.count_append,
          List.flatten_singleton]
        omega
      · simp only [KVCacheManager.takeKvCacheBlockCopies,
          List.forall₂_map_right_iff]
        exact List.forall₂_same.mpr fun _ _ => ⟨rfl, fun _ hmem => hmem⟩
  | releaseRetained index =>
      simp only [step, Except.ok.injEq] at hstep
      subst hstep
      refine ⟨KVCacheManager.covers_freeBlocks rfl (fun block => ?_) hcovers,
        hbacked⟩
      have hcount := count_flatten_eraseIdx driver.retained index block
      simp only [held, KVCacheManager.refs,
        KVCacheManager.groupRefs, KVCacheManager.freeBlocks]
      omega
  | takePartialTailOffloads =>
      simp only [step, bind_eq_ok, Prod.exists, pure_eq_ok] at hstep
      obtain ⟨_, _, htake, rfl⟩ := hstep
      exact ⟨KVCacheManager.takePartialTailOffloads_covers htake hcovers,
        hbacked.takePartialTailOffloads htake⟩
  | removeSkippedBlocks requestId processed numPromptTokens =>
      simp only [step, bind_eq_ok, pure_eq_ok] at hstep
      obtain ⟨_, hremove, rfl⟩ := hstep
      have hstage := KVCacheManager.removeSkippedBlocks_conserves hremove
      exact ⟨hstage.covers _ hcovers, hbacked.drops hstage⟩
  | cacheBlocks request numComputedTokens =>
      simp only [step, bind_eq_ok, pure_eq_ok] at hstep
      obtain ⟨_, hcache, rfl⟩ := hstep
      have hstage := KVCacheManager.cacheBlocks_conserves hcache
      exact ⟨hstage.covers _ hcovers, hbacked.retains hstage⟩
  | evictBlocks blockIds =>
      simp only [step, KVCacheManager.evictBlocks, bind_eq_ok, pure_eq_ok]
        at hstep
      obtain ⟨_, ⟨_, hevict, rfl⟩, rfl⟩ := hstep
      exact ⟨(BlockPool.sameRefs_evictBlocks hevict).accounts hcovers,
        hbacked⟩
  | resetPrefixCache =>
      simp only [step, Except.ok.injEq] at hstep
      subst hstep
      exact ⟨(BlockPool.sameRefs_resetPrefixCache
        driver.kvCacheManager.blockPool).accounts hcovers, hbacked⟩
  | newStepStarts =>
      simp only [step, Except.ok.injEq] at hstep
      subst hstep
      refine ⟨hcovers.congr fun block _ => ?_, hbacked.congr rfl ?_⟩
      · simp only [KVCacheManager.refs, KVCacheManager.groupRefs,
          KVCacheManager.newStepStarts, List.map_map, Function.comp_def]
        rfl
      · simp only [KVCacheManager.newStepStarts,
          List.forall₂_map_right_iff]
        exact List.forall₂_same.mpr fun _ _ => ⟨rfl, fun _ hmem => hmem⟩

/-- No call changes the configuration of the pool. -/
theorem config_step {driver driver' : Driver R H} {operation : Operation R H}
    (hstep : driver.step operation = .ok driver') :
    driver'.kvCacheManager.blockPool.config =
      driver.kvCacheManager.blockPool.config := by
  cases operation with
  | allocateSlots call =>
      simp only [step, bind_eq_ok, Prod.exists, pure_eq_ok] at hstep
      obtain ⟨_, _, hcall, rfl⟩ := hstep
      obtain ⟨gated, released, hgated, hreleased, hfinal⟩ :=
        KVCacheManager.allocateSlots_conserves hcall
      exact (hfinal.config_eq.trans hreleased.config_eq).trans
        hgated.config_eq
  | free requestId =>
      simp only [step, bind_eq_ok, pure_eq_ok] at hstep
      obtain ⟨_, hfree, rfl⟩ := hstep
      exact (KVCacheManager.free_conserves hfree).config_eq.trans
        (BlockPool.config_freeBlocks _ _)
  | takePartialTailOffloads =>
      simp only [step, bind_eq_ok, Prod.exists, pure_eq_ok] at hstep
      obtain ⟨_, _, htake, rfl⟩ := hstep
      exact KVCacheManager.config_takePartialTailOffloads htake
  | removeSkippedBlocks requestId processed numPromptTokens =>
      simp only [step, bind_eq_ok, pure_eq_ok] at hstep
      obtain ⟨_, hremove, rfl⟩ := hstep
      exact (KVCacheManager.removeSkippedBlocks_conserves hremove).config_eq
  | cacheBlocks request numComputedTokens =>
      simp only [step, bind_eq_ok, pure_eq_ok] at hstep
      obtain ⟨_, hcache, rfl⟩ := hstep
      exact (KVCacheManager.cacheBlocks_conserves hcache).config_eq
  | evictBlocks blockIds =>
      simp only [step, KVCacheManager.evictBlocks, bind_eq_ok, pure_eq_ok]
        at hstep
      obtain ⟨_, ⟨_, hevict, rfl⟩, rfl⟩ := hstep
      exact (BlockPool.sameRefs_evictBlocks hevict).config_eq
  | resetPrefixCache =>
      simp only [step, Except.ok.injEq] at hstep
      subst hstep
      exact (BlockPool.sameRefs_resetPrefixCache
        driver.kvCacheManager.blockPool).config_eq
  | freeBlocks index | releaseRetained index =>
      simp only [step, Except.ok.injEq] at hstep
      subst hstep
      exact BlockPool.config_freeBlocks _ _
  | popBlocksForFree requestId =>
      simp only [step, Except.ok.injEq] at hstep
      subst hstep
      rfl
  | takeKvCacheBlockCopies | newStepStarts =>
      simp only [step, Except.ok.injEq] at hstep
      subst hstep
      rfl

theorem numGpuBlocks_run {driver driver' : Driver R H}
    {operations : List (Operation R H)}
    (hrun : driver.run operations = .ok driver') :
    driver'.kvCacheManager.blockPool.numGpuBlocks =
      driver.kvCacheManager.blockPool.numGpuBlocks := by
  apply BlockPool.numGpuBlocks_of_config
  exact run_invariant (fun _ _ _ hstep hconfig =>
    (config_step hstep).trans hconfig) hrun rfl

/-- The request whose rows a call takes back. -/
def freed : Operation R H → Option R
  | .free requestId => some requestId
  | .popBlocksForFree requestId => some requestId
  | _ => none

theorem step_freed {driver driver' : Driver R H} {operation : Operation R H}
    {requestId : R} (hstep : driver.step operation = .ok driver')
    (hfreed : freed operation = some requestId) :
    List.Forall₂ (KVCacheManager.Popped requestId)
      driver.kvCacheManager.singleTypeManagers
      driver'.kvCacheManager.singleTypeManagers := by
  cases operation with
  | free other =>
      cases hfreed
      simp only [step, bind_eq_ok, pure_eq_ok] at hstep
      obtain ⟨_, hfree, rfl⟩ := hstep
      exact (KVCacheManager.free_conserves hfree).groups
  | popBlocksForFree other =>
      cases hfreed
      simp only [step, Except.ok.injEq] at hstep
      subst hstep
      exact KVCacheManager.popBlocksForFree_groups _ requestId
  | _ => cases hfreed

/-- Rows that calls which free leave are rows of other requests. -/
theorem rows_freed {operations : List (Operation R H)}
    (hfreed : ∀ operation ∈ operations, (freed operation).isSome = true)
    {driver driver' : Driver R H} (hrun : driver.run operations = .ok driver')
    {manager' : SingleTypeKVCacheManager R H} {requestId : R}
    (hmem : manager' ∈ driver'.kvCacheManager.singleTypeManagers)
    (hrow : manager'.blocks requestId ≠ []) :
    some requestId ∉ operations.map freed ∧
      ∃ manager ∈ driver.kvCacheManager.singleTypeManagers,
        manager.blocks requestId ≠ [] := by
  induction operations generalizing driver with
  | nil =>
      cases hrun
      exact ⟨List.not_mem_nil, manager', hmem, hrow⟩
  | cons operation later ih =>
      simp only [run, runSteps, bind_eq_ok] at hrun
      obtain ⟨next, hstep, hlater⟩ := hrun
      obtain ⟨hother, manager, hmanager, hkept⟩ :=
        ih (fun other hlast => hfreed other (List.mem_cons_of_mem _ hlast)) hlater
      obtain ⟨owner, howner⟩ :=
        Option.isSome_iff_exists.mp (hfreed operation List.mem_cons_self)
      obtain ⟨before, hbefore, rfl⟩ :=
        forall₂_mem_right (step_freed hstep howner) hmanager
      have hne : requestId ≠ owner := by
        rintro rfl
        exact hkept (Tables.row_dropRow_self ..)
      rw [KVCacheManager.blocks_popBlocksForFree_ne before hne] at hkept
      refine ⟨?_, before, hbefore, hkept⟩
      rw [List.map_cons, howner, List.mem_cons, Option.some_inj]
      exact not_or.mpr ⟨hne, hother⟩

/-- Reference counts are conserved: in every state a run reaches, a proper
block is referenced once for each occurrence in a request table, each pin, each
endpoint of an undrained or unreleased copy and each occurrence in a popped
list.  When nothing of these is left, every proper block is free; no request
has a row once each that has one is freed. -/
theorem refCnt_conserved (policy : AllocationPolicy)
    (groups : List ManagerSpec) (numBlocks hashBlockSize : ℕ)
    (enableCaching : Bool) (hpos : 0 < numBlocks)
    {operations : List (Operation R H)} {driver : Driver R H}
    (hrun : (init (KVCacheManager.init policy groups numBlocks hashBlockSize
      enableCaching)).run operations = .ok driver) :
    (∀ block ≠ nullBlock,
      driver.kvCacheManager.blockPool.refCnt block =
        ((driver.kvCacheManager.singleTypeManagers.map fun manager =>
            manager.reqToBlocks.occurrences block).sum +
          driver.kvCacheManager.partialTailPins.occurrences block +
          ((driver.kvCacheManager.singleTypeManagers.map fun manager =>
              (endpoints manager.pendingCowCopies).count block).sum +
            driver.retained.flatten.count block) +
          driver.popped.flatten.count block : ℕ)) ∧
      ((∀ manager ∈ driver.kvCacheManager.singleTypeManagers,
          (∀ requestId, manager.blocks requestId = []) ∧
            manager.pendingCowCopies = []) →
        driver.retained.flatten = [] → driver.popped.flatten = [] →
          ∀ block < numBlocks, block ≠ nullBlock →
            block ∈ driver.kvCacheManager.blockPool.freeBlockQueue.order) ∧
      ∀ frees final, (∀ operation ∈ frees, (freed operation).isSome = true) →
        (∀ manager ∈ driver.kvCacheManager.singleTypeManagers, ∀ requestId,
          manager.blocks requestId ≠ [] → some requestId ∈ frees.map freed) →
          driver.run frees = .ok final →
            ∀ manager ∈ final.kvCacheManager.singleTypeManagers, ∀ requestId,
              manager.blocks requestId = [] := by
  have hledger : driver.Ledger :=
    run_invariant (fun _ _ _ hstep => step_ledger hstep) hrun
      (ledger_init policy groups numBlocks hashBlockSize enableCaching hpos)
  have hsplit : ∀ block, driver.kvCacheManager.groupRefs block =
      (driver.kvCacheManager.singleTypeManagers.map fun manager =>
          manager.reqToBlocks.occurrences block).sum +
        (driver.kvCacheManager.singleTypeManagers.map fun manager =>
          (endpoints manager.pendingCowCopies).count block).sum := by
    intro block
    rw [KVCacheManager.groupRefs, ← List.sum_map_add]
    rfl
  refine ⟨?_, ?_, fun frees final hfreed hall hlast manager' hmem requestId => ?_⟩
  · intro block hnull
    rw [hledger.covers.refCnt_eq block hnull, KVCacheManager.refs,
      hsplit block, held]
    push_cast
    ring
  · intro hgroups hretained hpopped block hlt hnull
    refine hledger.covers.mem_of_unreferenced hnull ?_ ?_
    · rw [numGpuBlocks_run hrun]
      exact hlt
    · have htables : (driver.kvCacheManager.singleTypeManagers.map
          fun manager => manager.reqToBlocks.occurrences block).sum = 0 := by
        apply List.sum_eq_zero
        intro amount hamount
        obtain ⟨manager, hmem, rfl⟩ := List.mem_map.mp hamount
        exact Tables.occurrences_eq_zero (hgroups manager hmem).1 block
      have hcopies : (driver.kvCacheManager.singleTypeManagers.map
          fun manager =>
            (endpoints manager.pendingCowCopies).count block).sum = 0 := by
        apply List.sum_eq_zero
        intro amount hamount
        obtain ⟨manager, hmem, rfl⟩ := List.mem_map.mp hamount
        rw [(hgroups manager hmem).2]
        rfl
      have hpins : ∀ requestId,
          driver.kvCacheManager.partialTailPins.row requestId = [] := by
        intro requestId
        by_contra hrow
        obtain ⟨manager, hmem, hblocks⟩ :=
          hledger.backed requestId (.inl hrow)
        exact hblocks ((hgroups manager hmem).1 requestId)
      rw [KVCacheManager.refs, hsplit block, htables, hcopies,
        Tables.occurrences_eq_zero hpins, held, hretained, hpopped]
      rfl
  · by_contra hrow
    obtain ⟨habsent, manager, hmanager, hbefore⟩ :=
      rows_freed hfreed hlast hmem hrow
    exact habsent (hall manager hmanager requestId hbefore)

/-- A six-token prompt on a fresh manager with one group of each kind of the
model. -/
def tailRun : List (Operation ℕ ℕ) :=
  [.allocateSlots (firstChunk 6), .takeKvCacheBlockCopies]

/-- Its blocks are counted; popped and freed again, all of them are free. -/
theorem refCnt_conserved_tailRun : ∃ driver popped final,
    (init (KVCacheManager.init idlePolicy glmGroups 10 4 true)).run tailRun =
        .ok driver ∧
      driver.kvCacheManager.blockPool.refCnt 3 =
        ((driver.kvCacheManager.singleTypeManagers.map fun manager =>
            manager.reqToBlocks.occurrences 3).sum +
          driver.kvCacheManager.partialTailPins.occurrences 3 +
          ((driver.kvCacheManager.singleTypeManagers.map fun manager =>
              (endpoints manager.pendingCowCopies).count 3).sum +
            driver.retained.flatten.count 3) +
          driver.popped.flatten.count 3 : ℕ) ∧
      driver.run [.popBlocksForFree 0] = .ok popped ∧
      popped.run [.freeBlocks 0] = .ok final ∧
      ∀ block < 10, block ≠ nullBlock →
        block ∈ final.kvCacheManager.blockPool.freeBlockQueue.order := by
  obtain ⟨driver, popped, final, hrun, hpop, hfree, hall, hkeys, hcopies, hretained,
      hpopped⟩ : ∃ driver popped final,
      (init (KVCacheManager.init idlePolicy glmGroups 10 4 true)).run tailRun =
        .ok driver ∧
      driver.run [.popBlocksForFree 0] = .ok popped ∧
      popped.run [.freeBlocks 0] = .ok final ∧
      (init (KVCacheManager.init idlePolicy glmGroups 10 4 true)).run
        (tailRun ++ [.popBlocksForFree 0, .freeBlocks 0]) = .ok final ∧
      (∀ manager ∈ driver.kvCacheManager.singleTypeManagers,
        ∀ requestId ∈ manager.reqToBlocks.keys, requestId = 0) ∧
      (∀ manager ∈ final.kvCacheManager.singleTypeManagers,
        manager.pendingCowCopies = []) ∧
      final.retained.flatten = [] ∧ final.popped.flatten = [] :=
    ⟨_, _, _, rfl, rfl, rfl, rfl, by decide, by decide, rfl, rfl⟩
  have hrows : ∀ manager ∈ driver.kvCacheManager.singleTypeManagers, ∀ requestId,
      manager.blocks requestId ≠ [] →
        some requestId ∈ [Operation.popBlocksForFree 0].map (@freed ℕ ℕ) := by
    intro manager hmem requestId hrow
    have hkey : requestId ∈ manager.reqToBlocks.keys := by
      by_contra habsent
      exact hrow (by
        rw [SingleTypeKVCacheManager.blocks, Tables.row,
          AList.lookup_eq_none.mpr habsent]
        rfl)
    rw [hkeys manager hmem requestId hkey]
    exact List.mem_singleton_self _
  obtain ⟨hcount, -, hrowsFreed⟩ :=
    refCnt_conserved idlePolicy glmGroups 10 4 true (by decide) hrun
  have hempty := hrowsFreed [.popBlocksForFree 0] popped (by decide) hrows hpop
  refine ⟨driver, popped, final, hrun, hcount 3 (by decide), hpop, hfree, ?_⟩
  refine (refCnt_conserved idlePolicy glmGroups 10 4 true (by decide) hall).2.1
    (fun manager hmem => ⟨?_, hcopies manager hmem⟩) hretained hpopped
  cases hfree
  exact hempty manager hmem

end Driver

end GlmFlash.Cache
