import GlmFlash.Cache.Holdings
import GlmFlash.Sched.Scheduler

/-!
# Deferred frees

Two counters stand for the steps in flight.  As long as they count the same
steps, whatever an unprocessed step has in its tables is still held by its
request, by a pending copy, or by a fence that this step has not passed.  A
block in the free queue is held by nobody.
-/

set_option linter.unusedSectionVars false

namespace GlmFlash.Sched

open GlmFlash.Library
open GlmFlash.Cache

variable {R H : Type} [DecidableEq R] [DecidableEq H]

namespace Scheduler

open KVCacheManager (Keeps)

/-! ## Who holds a block -/

/-- The block waits behind the fence of this step or of a later one. -/
def Fences (self : Scheduler R H) (seq : ℕ) (block : BlockId) : Prop :=
  ∃ entry ∈ self.deferredFrees, seq ≤ entry.1 ∧ block ∈ entry.2

/-- The request has the block and was scheduled in this step or later. -/
def RowHolds (self : Scheduler R H) (requestId : R) (seq : ℕ)
    (block : BlockId) : Prop :=
  (∃ request, self.requests requestId = some request ∧
      request.status ≠ .waitingForRemoteKvs ∧ seq ≤ request.lastSchedSeq) ∧
    block ∈ self.kvCacheManager.requestBlocks requestId

def Protects (self : Scheduler R H) (requestId : R) (seq : ℕ)
    (block : BlockId) : Prop :=
  self.RowHolds requestId seq block ∨
    block ∈ self.kvCacheManager.cowEndpoints ∨ self.Fences seq block

/-- What keeps the blocks of one step in flight away from the free queue. -/
structure Guards (scheduler : Scheduler R H) (step : InFlightStep R) :
    Prop where
  tables : ∀ entry ∈ step.output.tableEntries, entry.2 ≠ nullBlock →
    entry ∈ step.skipped ∨ scheduler.Protects entry.1 step.stepSeq entry.2
  copies : ∀ block ∈ step.output.copyEndpoints,
    scheduler.Fences step.stepSeq block

/-- The references of the deferred lists. -/
def deferredRefs (self : Scheduler R H) (block : BlockId) : ℕ :=
  (fencedItems self.deferredFrees).count block

/-- The pool accounts for the manager and the deferred lists. -/
def Covered (self : Scheduler R H) : Prop :=
  self.kvCacheManager.Covers self.deferredRefs

theorem Fences.deferredRefs_pos {self : Scheduler R H} {seq : ℕ}
    {block : BlockId} (hfence : self.Fences seq block) :
    0 < self.deferredRefs block := by
  obtain ⟨entry, hmem, -, hblock⟩ := hfence
  exact List.count_pos_iff.mpr (List.mem_flatMap.mpr ⟨entry, hmem, hblock⟩)

theorem Protects.refs_pos {self : Scheduler R H} {requestId : R} {seq : ℕ}
    {block : BlockId} (hprotects : self.Protects requestId seq block) :
    0 < self.deferredRefs block + self.kvCacheManager.refs block := by
  cases hprotects with
  | inl hrow =>
      have hpos := KVCacheManager.refs_pos_of_requestBlocks hrow.2
      omega
  | inr hrest =>
      cases hrest with
      | inl hcow =>
          have hpos := KVCacheManager.refs_pos_of_cowEndpoints hcow
          omega
      | inr hfence =>
          have hpos := hfence.deferredRefs_pos
          omega

/-! ## What a call of the scheduler keeps -/

/-- A call between two steps: the counters stand still, fences are only added
at the current number for requests with a step in flight, and every request
that is not exempt stays protected. -/
structure Proceeds (exempt : R → Prop) (before after : Scheduler R H) :
    Prop where
  deferring_eq : after.deferBlockFree = before.deferBlockFree
  sched_eq : after.schedStepSeq = before.schedStepSeq
  processed_eq : after.processedStepSeq = before.processedStepSeq
  lastSched : ∀ requestId request', after.requests requestId = some request' →
    request'.lastSchedSeq = 0 ∨ ∃ request,
      before.requests requestId = some request ∧
        request'.lastSchedSeq = request.lastSchedSeq
  deferred : after.deferredFrees = before.deferredFrees ∨
    ∃ blocks, after.deferredFrees =
        before.deferredFrees ++ [(before.schedStepSeq, blocks)] ∧
      ∃ requestId request, before.requests requestId = some request ∧
        before.processedStepSeq < request.lastSchedSeq
  covered : before.Covered → after.Covered
  row : ∀ requestId, ¬exempt requestId → ∀ seq,
    before.processedStepSeq < seq → seq ≤ before.schedStepSeq →
    ∀ block ≠ nullBlock, before.RowHolds requestId seq block →
      after.Protects requestId seq block
  cow : ∀ block ∈ before.kvCacheManager.cowEndpoints,
    block ∈ after.kvCacheManager.cowEndpoints

variable {exempt : R → Prop} {before after : Scheduler R H}

theorem Proceeds.fences (hproceeds : Proceeds exempt before after) {seq : ℕ}
    {block : BlockId} (hfence : before.Fences seq block) :
    after.Fences seq block := by
  obtain ⟨entry, hmem, hseq, hblock⟩ := hfence
  refine ⟨entry, ?_, hseq, hblock⟩
  cases hproceeds.deferred with
  | inl hsame => rwa [hsame]
  | inr hmore =>
      obtain ⟨blocks, hmore, -⟩ := hmore
      rw [hmore]
      exact List.mem_append_left _ hmem

theorem Proceeds.protects (hproceeds : Proceeds exempt before after)
    {requestId : R} (hexempt : ¬exempt requestId) {seq : ℕ}
    (hopen : before.processedStepSeq < seq)
    (hissued : seq ≤ before.schedStepSeq) {block : BlockId}
    (hnull : block ≠ nullBlock)
    (hprotects : before.Protects requestId seq block) :
    after.Protects requestId seq block := by
  cases hprotects with
  | inl hrow => exact hproceeds.row _ hexempt seq hopen hissued _ hnull hrow
  | inr hrest =>
      cases hrest with
      | inl hcow => exact .inr (.inl (hproceeds.cow _ hcow))
      | inr hfence => exact .inr (.inr (hproceeds.fences hfence))

/-- A call that leaves the deferred lists alone. -/
theorem Proceeds.of_keeps {managerExempt : R → Prop}
    (hdeferring : after.deferBlockFree = before.deferBlockFree)
    (hsched : after.schedStepSeq = before.schedStepSeq)
    (hprocessed : after.processedStepSeq = before.processedStepSeq)
    (hdeferred : after.deferredFrees = before.deferredFrees)
    (hcovers : ∀ frame, before.kvCacheManager.Covers frame →
      after.kvCacheManager.Covers frame)
    (hkeeps : Keeps managerExempt before.kvCacheManager after.kvCacheManager)
    (hlast : ∀ requestId request',
      after.requests requestId = some request' →
        request'.lastSchedSeq = 0 ∨ ∃ request,
          before.requests requestId = some request ∧
            request'.lastSchedSeq = request.lastSchedSeq)
    (hrequests : ∀ requestId, ¬exempt requestId → ∀ request,
      before.requests requestId = some request →
      request.status ≠ .waitingForRemoteKvs →
      before.kvCacheManager.requestBlocks requestId ≠ [] →
        ¬managerExempt requestId ∧ ∃ request',
          after.requests requestId = some request' ∧
            request'.status ≠ .waitingForRemoteKvs ∧
            request'.lastSchedSeq = request.lastSchedSeq) :
    Proceeds exempt before after where
  deferring_eq := hdeferring
  sched_eq := hsched
  processed_eq := hprocessed
  lastSched := hlast
  deferred := .inl hdeferred
  covered hcovered := by
    have hrefs : after.deferredRefs = before.deferredRefs := by
      funext block
      simp only [deferredRefs, hdeferred]
    rw [Covered, hrefs]
    exact hcovers _ hcovered
  row requestId hexempt seq _ _ block hnull hrow := by
    obtain ⟨⟨request, hrequest, hstatus, hseq⟩, hmem⟩ := hrow
    obtain ⟨hmanager, request', hrequest', hstatus', hlast'⟩ :=
      hrequests requestId hexempt request hrequest hstatus
        (List.ne_nil_of_mem hmem)
    cases hkeeps.row requestId hmanager block hmem hnull with
    | inl hkept =>
        exact .inl ⟨⟨request', hrequest', hstatus', hlast' ▸ hseq⟩, hkept⟩
    | inr hcow => exact .inr (.inl hcow)
  cow := hkeeps.cow

/-- Another state of the manager, the requests as before. -/
theorem Proceeds.of_manager {kvCacheManager : KVCacheManager R H}
    (hcovers : ∀ frame, before.kvCacheManager.Covers frame →
      kvCacheManager.Covers frame)
    (hkeeps : Keeps exempt before.kvCacheManager kvCacheManager) :
    Proceeds exempt before { before with kvCacheManager } :=
  Proceeds.of_keeps rfl rfl rfl rfl hcovers hkeeps
    (fun _ request' hrequest' => .inr ⟨request', hrequest', rfl⟩)
    fun _ hexempt request hrequest hstatus _ =>
      ⟨hexempt, request, hrequest, hstatus, rfl⟩

/-! ## The calls -/

theorem RowHolds.of_others {owner requestId : R} {seq : ℕ} {block : BlockId}
    (hrow : before.RowHolds requestId seq block)
    (hkeeps : Keeps (fun other => other = owner) before.kvCacheManager
      after.kvCacheManager)
    (hother : requestId ≠ owner) (hnull : block ≠ nullBlock)
    (hrequests : after.requests requestId = before.requests requestId) :
    after.Protects requestId seq block := by
  obtain ⟨⟨request, hrequest, hstatus, hseq⟩, hmem⟩ := hrow
  cases hkeeps.row requestId hother block hmem hnull with
  | inl hkept =>
      exact .inl ⟨⟨request, hrequests ▸ hrequest, hstatus, hseq⟩, hkept⟩
  | inr hcow => exact .inr (.inl hcow)

theorem setRequest_ne (self : Scheduler R H) {requestId other : R}
    (hother : other ≠ requestId) (state : Option RequestState) :
    (self.setRequest requestId state).requests other = self.requests other :=
  Function.update_of_ne hother _ _

/-- A request whose state changes keeps the number of its last step. -/
theorem lastSched_setRequest {self middle : Scheduler R H} {requestId : R}
    {request : RequestState} {state : Option RequestState}
    (hmiddle : middle.requests = self.requests)
    (hrequest : self.requests requestId = some request)
    (hstate : ∀ request', state = some request' →
      request'.lastSchedSeq = request.lastSchedSeq)
    (other : R) (request' : RequestState)
    (hafter : (middle.setRequest requestId state).requests other =
      some request') :
    request'.lastSchedSeq = 0 ∨ ∃ request,
      self.requests other = some request ∧
        request'.lastSchedSeq = request.lastSchedSeq := by
  right
  by_cases hother : other = requestId
  · subst hother
    simp only [setRequest, Function.update_self] at hafter
    exact ⟨request, hrequest, hstate request' hafter⟩
  · rw [setRequest_ne _ hother, hmiddle] at hafter
    exact ⟨request', hafter, rfl⟩

theorem addRequest_proceeds {requestId : R}
    (hrun : before.addRequest requestId = .ok after) :
    Proceeds exempt before after := by
  simp only [addRequest, bind_eq_ok, require_eq_ok, pure_eq_ok] at hrun
  obtain ⟨_, hnone, rfl⟩ := hrun
  have hkeeps : Keeps (fun _ : R => False) before.kvCacheManager
      before.kvCacheManager := ⟨fun _ _ _ hmem _ => .inl hmem, fun _ => id⟩
  refine Proceeds.of_keeps rfl rfl rfl rfl (fun _ => id) hkeeps ?_ ?_
  · intro other request' hafter
    by_cases hother : other = requestId
    · subst hother
      simp only [setRequest, Function.update_self, Option.some.injEq]
        at hafter
      exact .inl (hafter ▸ rfl)
    · rw [setRequest_ne _ hother] at hafter
      exact .inr ⟨request', hafter, rfl⟩
  · intro other _ request hrequest hstatus _
    have hother : other ≠ requestId := by
      rintro rfl
      rw [hnone] at hrequest
      cases hrequest
    exact ⟨id, request, (setRequest_ne _ hother _).trans hrequest, hstatus,
      rfl⟩

omit [DecidableEq R] [DecidableEq H] in
theorem count_fencedItems_defer (entries : List (ℕ × List BlockId))
    (fence : ℕ) (blocks : List BlockId) (block : BlockId) :
    (fencedItems (if blocks = [] then entries
      else entries ++ [(fence, blocks)])).count block =
      (fencedItems entries).count block + blocks.count block := by
  split
  · rename_i hnone
    simp [hnone]
  · simp [fencedItems]

/-- Freeing a request: what a step in flight may still write goes behind the
current fence. -/
theorem freeRequestBlocks_proceeds {requestId : R} {request : RequestState}
    {state : Option RequestState} (hdefer : before.deferBlockFree = true)
    (hrequest : before.requests requestId = some request)
    (hstate : ∀ request', state = some request' →
      request'.lastSchedSeq = request.lastSchedSeq)
    (hrun : before.freeRequestBlocks requestId request = .ok after) :
    Proceeds exempt before (after.setRequest requestId state) := by
  rw [freeRequestBlocks] at hrun
  split at hrun
  · rename_i hnow
    have hprocessed : request.lastSchedSeq ≤ before.processedStepSeq := by
      cases hnow with
      | inl hoff =>
          rw [hdefer] at hoff
          cases hoff
      | inr hle => exact hle
    simp only [bind_eq_ok, pure_eq_ok] at hrun
    obtain ⟨kvCacheManager, hfree, rfl⟩ := hrun
    have hkeeps : KVCacheManager.Keeps (fun other => other = requestId)
        before.kvCacheManager kvCacheManager :=
      KVCacheManager.keeps_of_popped
        (KVCacheManager.free_conserves hfree).groups
    refine ⟨rfl, rfl, rfl, lastSched_setRequest rfl hrequest hstate, .inl rfl,
      fun hcovered => KVCacheManager.free_covers hfree hcovered, ?_,
      hkeeps.cow⟩
    intro other _ seq hopen _ block hnull hrow
    by_cases hother : other = requestId
    · subst hother
      obtain ⟨⟨request', hrequest', -, hseq⟩, -⟩ := hrow
      rw [hrequest, Option.some.injEq] at hrequest'
      subst hrequest'
      omega
    · exact hrow.of_others hkeeps hother hnull (setRequest_ne _ hother _)
  · rename_i hlater
    have hopen : before.processedStepSeq < request.lastSchedSeq := by
      by_contra hle
      exact hlater (.inr (Nat.not_lt.mp hle))
    simp only [Except.ok.injEq] at hrun
    subst hrun
    have hkeeps := KVCacheManager.keeps_of_popped
      (KVCacheManager.popBlocksForFree_groups before.kvCacheManager requestId)
    refine ⟨rfl, rfl, rfl, lastSched_setRequest rfl hrequest hstate, ?_, ?_,
      ?_, hkeeps.cow⟩
    · by_cases hnone : (before.kvCacheManager.popBlocksForFree
          requestId).1 = []
      · exact .inl (if_pos hnone)
      · exact .inr ⟨_, if_neg hnone, requestId, request, hrequest, hopen⟩
    · intro hcovered
      refine BlockPool.AccountsWith.congr hcovered fun block _ => ?_
      have hrefs := KVCacheManager.popBlocksForFree_refs
        before.kvCacheManager requestId block
      have hcount := count_fencedItems_defer before.deferredFrees
        before.schedStepSeq
        (before.kvCacheManager.popBlocksForFree requestId).1 block
      simp only [deferredRefs, setRequest] at hcount ⊢
      omega
    · intro other _ seq _ hissued block hnull hrow
      by_cases hother : other = requestId
      · subst hother
        have hheld : block ∈
            (before.kvCacheManager.popBlocksForFree other).1 := by
          have heq := KVCacheManager.heldBlocks_eq before.kvCacheManager other
          rw [KVCacheManager.heldBlocks] at heq
          rw [heq]
          exact List.mem_append_right _ hrow.2
        refine .inr (.inr ⟨(before.schedStepSeq, _), ?_, hissued, hheld⟩)
        simp only [setRequest]
        rw [if_neg (List.ne_nil_of_mem hheld)]
        exact List.mem_append_right _ (List.mem_singleton.mpr rfl)
      · exact hrow.of_others hkeeps hother hnull (setRequest_ne _ hother _)

theorem getRequest_eq_ok {self : Scheduler R H} {requestId : R}
    {request : RequestState} :
    self.getRequest requestId = .ok request ↔
      self.requests requestId = some request := by
  rw [getRequest]
  cases self.requests requestId with
  | none => simp
  | some other => simp

theorem preemptRequest_proceeds {requestId : R}
    (hdefer : before.deferBlockFree = true)
    (hrun : before.preemptRequest requestId = .ok after) :
    Proceeds exempt before after := by
  simp only [preemptRequest, bind_eq_ok, getRequest_eq_ok, require_eq_ok,
    pure_eq_ok] at hrun
  obtain ⟨request, hrequest, _, -, freed, hfree, rfl⟩ := hrun
  apply freeRequestBlocks_proceeds hdefer hrequest _ hfree
  intro request' hstate
  rw [Option.some.injEq] at hstate
  exact hstate ▸ rfl

theorem freeBlocks_proceeds {requestId : R}
    (hdefer : before.deferBlockFree = true)
    (hrun : before.freeBlocks requestId = .ok after) :
    Proceeds exempt before after := by
  simp only [freeBlocks, bind_eq_ok, getRequest_eq_ok, pure_eq_ok] at hrun
  obtain ⟨request, hrequest, freed, hfree, rfl⟩ := hrun
  apply freeRequestBlocks_proceeds hdefer hrequest _ hfree
  intro request' hstate
  cases hstate

/-- The requests that `allocate_slots` leaves alone stay protected; its own
request keeps what stays in its table. -/
theorem allocateSlots_proceeds {call : SlotsCall R H} {loadKvAsync : Bool}
    (hrun : before.allocateSlots call loadKvAsync = .ok after) :
    Proceeds (fun requestId => requestId = call.requestId) before after ∧
      ∀ seq, ∀ block,
        before.RowHolds call.requestId seq block →
        block ∈ after.kvCacheManager.requestBlocks call.requestId →
          after.RowHolds call.requestId seq block := by
  simp only [allocateSlots, bind_eq_ok, getRequest_eq_ok, require_eq_ok,
    Prod.exists] at hrun
  obtain ⟨request, hrequest, _, hstatus, _, hload, kvCacheManager, newBlocks,
    hcall, hfinish⟩ := hrun
  have hkeeps := KVCacheManager.allocateSlots_keeps hcall
  have hcovers : ∀ frame, before.kvCacheManager.Covers frame →
      kvCacheManager.Covers frame :=
    fun _ => KVCacheManager.allocateSlots_covers hcall
  split at hfinish
  · rw [pure_eq_ok] at hfinish
    subst hfinish
    refine ⟨Proceeds.of_keeps rfl rfl rfl rfl hcovers hkeeps
      (lastSched_setRequest rfl hrequest fun request' hstate => ?_) ?_, ?_⟩
    · rw [Option.some.injEq] at hstate
      exact hstate ▸ rfl
    · intro other hother request' hrequest' hstatus' _
      exact ⟨hother, request', (setRequest_ne _ hother _).trans hrequest',
        hstatus', rfl⟩
    · intro seq block hrow hmem
      obtain ⟨⟨request', hrequest', -, hseq⟩, hbefore⟩ := hrow
      rw [hrequest, Option.some.injEq] at hrequest'
      subst hrequest'
      refine ⟨⟨_, Function.update_self _ _ _, ?_, hseq⟩, hmem⟩
      cases loadKvAsync with
      | false => simp
      | true =>
          -- a request that starts to load had no blocks before
          have hfirst := (hload rfl).2
          obtain ⟨manager, hmanager, hblock⟩ := List.mem_flatMap.mp hbefore
          rw [hfirst manager hmanager] at hblock
          cases hblock
  · rw [pure_eq_ok] at hfinish
    subst hfinish
    refine ⟨Proceeds.of_manager hcovers hkeeps, ?_⟩
    intro seq block hrow hmem
    exact ⟨hrow.1, hmem⟩

theorem finishRemoteLoad_proceeds {request : Request R H}
    {numPreemptions : ℕ}
    (hrun : before.finishRemoteLoad request numPreemptions = .ok after) :
    Proceeds exempt before after := by
  simp only [finishRemoteLoad, bind_eq_ok, getRequest_eq_ok, require_eq_ok,
    pure_eq_ok] at hrun
  obtain ⟨state, hstate, _, hloading, kvCacheManager, hcache, rfl⟩ := hrun
  have hstage := KVCacheManager.cacheBlocks_conserves hcache
  have hkeeps : Keeps (fun _ : R => False) before.kvCacheManager
      kvCacheManager := hstage.keeps
  refine Proceeds.of_keeps rfl rfl rfl rfl hstage.covers hkeeps
    (lastSched_setRequest rfl hstate fun request' hnew => ?_) ?_
  · rw [Option.some.injEq] at hnew
    exact hnew ▸ rfl
  · intro other _ request' hrequest' hstatus' _
    have hother : other ≠ request.requestId := by
      rintro rfl
      rw [hstate, Option.some.injEq] at hrequest'
      exact hstatus' (hrequest' ▸ hloading)
    exact ⟨id, request', (setRequest_ne _ hother _).trans hrequest', hstatus',
      rfl⟩

/-- A request that waits for a load has no step in flight, so its blocks may
go at once. -/
theorem failRemoteLoad_proceeds {requestId : R} {numPreemptions : ℕ}
    (hrun : before.failRemoteLoad requestId numPreemptions = .ok after) :
    Proceeds exempt before after := by
  simp only [failRemoteLoad, bind_eq_ok, getRequest_eq_ok, require_eq_ok,
    pure_eq_ok] at hrun
  obtain ⟨state, hstate, _, hloading, kvCacheManager, hfree, rfl⟩ := hrun
  have hkeeps : KVCacheManager.Keeps (fun other => other = requestId)
      before.kvCacheManager kvCacheManager :=
    KVCacheManager.keeps_of_popped
      (KVCacheManager.free_conserves hfree).groups
  refine Proceeds.of_keeps rfl rfl rfl rfl
    (fun _ => KVCacheManager.free_covers hfree) hkeeps
    (lastSched_setRequest rfl hstate fun request' hnew => ?_) ?_
  · rw [Option.some.injEq] at hnew
    exact hnew ▸ rfl
  · intro other _ request' hrequest' hstatus' _
    have hother : other ≠ requestId := by
      rintro rfl
      rw [hstate, Option.some.injEq] at hrequest'
      exact hstatus' (hrequest' ▸ hloading)
    exact ⟨hother, request', (setRequest_ne _ hother _).trans hrequest',
      hstatus', rfl⟩

end Scheduler

end GlmFlash.Sched
