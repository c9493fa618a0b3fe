import GlmFlash.Sched.DeferredFrees

/-!
# Runs of the engine

A run keeps every block of an unprocessed step out of the free queue as long as
each update processes a non-empty step.  An update of an empty step advances
the one counter without the other, and from then on a fence counts as passed
one step too early.
-/

set_option linter.unusedSectionVars false

namespace GlmFlash.Sched

open GlmFlash.Library
open GlmFlash.Cache

variable {R H : Type} [DecidableEq R] [DecidableEq H]

namespace Scheduler

/-! ## The tail of `schedule` -/

/-- The fenced release of the copies of a step. -/
theorem takeBlockCopies_eq {self : Scheduler R H}
    (hdefer : self.deferBlockFree = true)
    (hle : self.processedStepSeq ≤ self.schedStepSeq) :
    self.takeBlockCopies = (self.kvCacheManager.takeKvCacheBlockCopies.1,
      { self with
        kvCacheManager := self.kvCacheManager.takeKvCacheBlockCopies.2
        deferredFrees :=
          if self.kvCacheManager.takeKvCacheBlockCopies.1 = [] then
            self.deferredFrees
          else self.deferredFrees ++ [(self.schedStepSeq + 1,
            self.kvCacheManager.cowEndpoints.reverse)] }) := by
  have hlater : ¬(self.deferBlockFree = false ∨
      self.schedStepSeq + 1 ≤ self.processedStepSeq) := by
    rw [hdefer]
    simp only [Bool.true_eq_false, false_or]
    omega
  cases htake : self.kvCacheManager.takeKvCacheBlockCopies with
  | mk copies kvCacheManager =>
      simp only [takeBlockCopies, htake, KVCacheManager.cowEndpoints]
      by_cases hnone : copies = []
      · rw [if_pos hnone, if_pos hnone]
      · rw [if_neg hnone, if_neg hnone, freeCowRetainedBlocks, if_neg hlater]

/-- What the tail of `schedule` returns when the counters are in step. -/
theorem finishSchedule_eq_ok {self self' : Scheduler R H}
    {numScheduledTokens : List (R × ℕ)} {output : SchedulerOutput R}
    (hdefer : self.deferBlockFree = true)
    (hle : self.processedStepSeq ≤ self.schedStepSeq)
    (hrun : self.finishSchedule numScheduledTokens = .ok (self', output)) :
    (∀ entry ∈ numScheduledTokens,
      (self.requests entry.1).map RequestState.status = some .running) ∧
    output = {
      numScheduledTokens
      blockTables := numScheduledTokens.map fun entry =>
        (entry.1, self.kvCacheManager.requestBlocks entry.1)
      kvCacheBlockCopies :=
        self.kvCacheManager.takeKvCacheBlockCopies.1 } ∧
    self'.kvCacheManager =
      self.kvCacheManager.takeKvCacheBlockCopies.2 ∧
    self'.deferBlockFree = true ∧
    self'.schedStepSeq = self.schedStepSeq +
      (if output.NonEmpty then 1 else 0) ∧
    self'.processedStepSeq = self.processedStepSeq ∧
    self'.deferredFrees =
      (if self.kvCacheManager.takeKvCacheBlockCopies.1 = [] then
        self.deferredFrees
      else self.deferredFrees ++ [(self.schedStepSeq + 1,
        self.kvCacheManager.cowEndpoints.reverse)]) ∧
    self'.requests = fun requestId =>
      if requestId ∈ numScheduledTokens.map Prod.fst then
        (self.requests requestId).map fun request =>
          { request with lastSchedSeq := self'.schedStepSeq }
      else self.requests requestId := by
  simp only [finishSchedule, bind_eq_ok, require_eq_ok, pure_eq_ok,
    takeBlockCopies_eq hdefer hle, Prod.mk.injEq,
    KVCacheManager.requestBlocks_takeKvCacheBlockCopies] at hrun
  obtain ⟨_, hrunning, hself, houtput⟩ := hrun
  refine ⟨hrunning, houtput.symm, ?_⟩
  rw [houtput] at hself
  subst hself
  by_cases hwork : output.NonEmpty
  · simp only [advanceFence, hdefer, hwork, updateAfterSchedule, and_self,
      if_true]
  · simp only [advanceFence, hdefer, hwork, updateAfterSchedule, and_false,
      if_true, if_false, Nat.add_zero, and_self]

/-! ## The start of `update_from_output` -/

/-- A part of the manager that returning blocks leaves alone. -/
theorem drain_frame_eq {B : Type} (projection : KVCacheManager R H → B)
    (hfree : ∀ manager blocks,
      projection (KVCacheManager.freeBlocks manager blocks) =
        projection manager) (self : Scheduler R H) :
    projection self.drainDeferredFrees.kvCacheManager =
      projection self.kvCacheManager :=
  openFences_frame_eq _ _ projection (fun manager blocks =>
    hfree manager blocks.reverse) _ _

theorem drain_covered {self : Scheduler R H} (hcovered : self.Covered) :
    self.drainDeferredFrees.Covered := by
  have hopen := openFences_frame
    (fun manager blocks => KVCacheManager.freeBlocks manager blocks.reverse)
    self.processedStepSeq
    (fun (manager : KVCacheManager R H) refs => manager.Covers refs)
    (fun manager blocks frame hcovers =>
      KVCacheManager.covers_freeBlocks rfl (fun block => by
        rw [List.count_reverse]
        simp only [KVCacheManager.refs, KVCacheManager.groupRefs,
          KVCacheManager.freeBlocks]
        omega) hcovers)
    (fun _ => 0)
    (by
      simp only [Nat.zero_add]
      exact hcovered)
  simp only [Nat.zero_add] at hopen
  exact hopen

theorem drain_fences {self : Scheduler R H} {seq : ℕ} {block : BlockId}
    (hfence : self.Fences seq block) (hopen : self.processedStepSeq < seq) :
    self.drainDeferredFrees.Fences seq block := by
  obtain ⟨entry, hmem, hseq, hblock⟩ := hfence
  exact ⟨entry, openFences_keeps hmem (hopen.trans_le hseq), hseq, hblock⟩

theorem drain_protects {self : Scheduler R H} {requestId : R} {seq : ℕ}
    {block : BlockId} (hprotects : self.Protects requestId seq block)
    (hopen : self.processedStepSeq < seq) :
    self.drainDeferredFrees.Protects requestId seq block := by
  have hgroups := drain_frame_eq KVCacheManager.singleTypeManagers
    (fun _ _ => rfl) self
  cases hprotects with
  | inl hrow =>
      refine .inl ⟨hrow.1, ?_⟩
      rw [KVCacheManager.requestBlocks, hgroups]
      exact hrow.2
  | inr hrest =>
      cases hrest with
      | inl hcow =>
          refine .inr (.inl ?_)
          rw [KVCacheManager.cowEndpoints_eq, hgroups,
            ← KVCacheManager.cowEndpoints_eq]
          exact hcow
      | inr hfence => exact .inr (.inr (drain_fences hfence hopen))

/-- A drain gives up what it opens. -/
theorem drain_refs (self : Scheduler R H) (block : BlockId) :
    self.deferredRefs block + self.kvCacheManager.refs block =
      self.drainDeferredFrees.deferredRefs block +
        self.drainDeferredFrees.kvCacheManager.refs block +
        (fencedItems (openedEntries self.processedStepSeq
          self.deferredFrees)).count block := by
  have hrefs := drain_frame_eq
    (fun manager : KVCacheManager R H => manager.refs block)
    (fun _ _ => rfl) self
  have hcount : (fencedItems (openedEntries self.processedStepSeq
        self.deferredFrees)).count block +
      self.drainDeferredFrees.deferredRefs block =
        self.deferredRefs block :=
    count_fencedItems_rest _ _ _ _ _
  omega

end Scheduler

/-! ## The invariant -/

namespace Engine

open Scheduler (Proceeds)

/-- The numbers of the non-empty steps in flight. -/
def pendingSeqs (batchQueue : List (InFlightStep R)) : List ℕ :=
  (batchQueue.filter fun step => decide step.output.NonEmpty).map
    InFlightStep.stepSeq

/-- The counters bound the steps in flight, and the blocks of each of them are
protected. -/
structure Fenced (engine : Engine R H) : Prop where
  deferring : engine.scheduler.deferBlockFree = true
  covered : engine.scheduler.Covered
  inOrder : InOrder engine.scheduler.processedStepSeq
    engine.scheduler.schedStepSeq (pendingSeqs engine.batchQueue)
  lastSched_le : ∀ requestId request,
    engine.scheduler.requests requestId = some request →
      request.lastSchedSeq ≤ engine.scheduler.schedStepSeq
  guards : ∀ step ∈ engine.batchQueue, step.output.NonEmpty →
    engine.scheduler.Guards step

theorem mem_pendingSeqs {batchQueue : List (InFlightStep R)}
    {step : InFlightStep R} (hmem : step ∈ batchQueue)
    (hwork : step.output.NonEmpty) :
    step.stepSeq ∈ pendingSeqs batchQueue :=
  List.mem_map_of_mem (List.mem_filter.mpr ⟨hmem, by simpa using hwork⟩)

theorem Fenced.stepSeq_bounds {engine : Engine R H} (hfenced : engine.Fenced)
    {step : InFlightStep R} (hmem : step ∈ engine.batchQueue)
    (hwork : step.output.NonEmpty) :
    engine.scheduler.processedStepSeq < step.stepSeq ∧
      step.stepSeq ≤ engine.scheduler.schedStepSeq :=
  hfenced.inOrder.bounds _ (mem_pendingSeqs hmem hwork)

theorem fenced_init (policy : AllocationPolicy) (groups : List ManagerSpec)
    (numBlocks hashBlockSize : ℕ) (enableCaching : Bool)
    (hpos : 0 < numBlocks) :
    Fenced (init (Scheduler.init (KVCacheManager.init policy groups numBlocks
      hashBlockSize enableCaching) true) : Engine R H) where
  deferring := rfl
  covered := (Driver.ledger_init policy groups numBlocks hashBlockSize
    enableCaching hpos).covers
  inOrder := inOrder_nil
  lastSched_le := by
    intro requestId request hrequest
    cases hrequest
  guards := by
    intro step hmem
    cases hmem

/-- The counters and the requests after a call between two steps. -/
theorem Fenced.lastSched_proceeds {engine : Engine R H}
    (hfenced : engine.Fenced) {exempt : R → Prop} {scheduler : Scheduler R H}
    (hproceeds : Proceeds exempt engine.scheduler scheduler) (requestId : R)
    (request : RequestState)
    (hrequest : scheduler.requests requestId = some request) :
    request.lastSchedSeq ≤ scheduler.schedStepSeq := by
  rw [hproceeds.sched_eq]
  cases hproceeds.lastSched requestId request hrequest with
  | inl hzero => omega
  | inr hold =>
      obtain ⟨request', hrequest', heq⟩ := hold
      rw [heq]
      exact hfenced.lastSched_le requestId request' hrequest'

theorem Fenced.inOrder_proceeds {engine : Engine R H}
    (hfenced : engine.Fenced) {exempt : R → Prop} {scheduler : Scheduler R H}
    (hproceeds : Proceeds exempt engine.scheduler scheduler) :
    InOrder scheduler.processedStepSeq scheduler.schedStepSeq
      (pendingSeqs engine.batchQueue) := by
  rw [hproceeds.sched_eq, hproceeds.processed_eq]
  exact hfenced.inOrder

theorem Fenced.proceeds {engine : Engine R H} (hfenced : engine.Fenced)
    {scheduler : Scheduler R H}
    (hproceeds : Proceeds (fun _ => False) engine.scheduler scheduler) :
    Fenced { engine with scheduler } where
  deferring := hproceeds.deferring_eq.trans hfenced.deferring
  covered := hproceeds.covered hfenced.covered
  inOrder := hfenced.inOrder_proceeds hproceeds
  lastSched_le := hfenced.lastSched_proceeds hproceeds
  guards := by
    intro step hmem hwork
    have hguards := hfenced.guards step hmem hwork
    have hbounds := hfenced.stepSeq_bounds hmem hwork
    refine ⟨fun entry hentry hnull => ?_, fun block hblock =>
      hproceeds.fences (hguards.copies block hblock)⟩
    exact (hguards.tables entry hentry hnull).imp id fun hprotects =>
      hproceeds.protects id hbounds.1 hbounds.2 hnull hprotects

theorem pendingSeqs_markSkipped (before after : KVCacheManager R H)
    (requestId : R) (batchQueue : List (InFlightStep R)) :
    pendingSeqs (batchQueue.map (markSkipped before after requestId)) =
      pendingSeqs batchQueue := by
  simp only [pendingSeqs, List.filter_map, List.map_map]
  rfl

/-- A call that may release skipped blocks of one request. -/
theorem Fenced.marked {engine : Engine R H} (hfenced : engine.Fenced)
    {scheduler : Scheduler R H} {owner : R}
    (hproceeds : Proceeds (fun requestId => requestId = owner)
      engine.scheduler scheduler)
    (howner : ∀ seq block, engine.scheduler.RowHolds owner seq block →
      block ∈ scheduler.kvCacheManager.requestBlocks owner →
        scheduler.RowHolds owner seq block) :
    Fenced {
      scheduler
      batchQueue := engine.batchQueue.map
        (markSkipped engine.scheduler.kvCacheManager
          scheduler.kvCacheManager owner) } where
  deferring := hproceeds.deferring_eq.trans hfenced.deferring
  covered := hproceeds.covered hfenced.covered
  inOrder := by
    rw [pendingSeqs_markSkipped]
    exact hfenced.inOrder_proceeds hproceeds
  lastSched_le := hfenced.lastSched_proceeds hproceeds
  guards := by
    intro marked hmarked hwork
    obtain ⟨step, hmem, rfl⟩ := List.mem_map.mp hmarked
    have hguards := hfenced.guards step hmem hwork
    have hbounds := hfenced.stepSeq_bounds hmem hwork
    refine ⟨fun entry hentry hnull => ?_, fun block hblock =>
      hproceeds.fences (hguards.copies block hblock)⟩
    cases hguards.tables entry hentry hnull with
    | inl hskipped => exact .inl (List.mem_append_left _ hskipped)
    | inr hprotects =>
        by_cases hother : entry.1 = owner
        · cases hprotects with
          | inr hrest =>
              refine .inr (.inr (hrest.imp (hproceeds.cow _) fun hfence => ?_))
              exact hproceeds.fences hfence
          | inl hrow =>
              rw [hother] at hrow
              by_cases hkept : entry.2 ∈
                  scheduler.kvCacheManager.requestBlocks owner
              · refine .inr (.inl ?_)
                rw [hother]
                exact howner _ _ hrow hkept
              by_cases hcow : entry.2 ∈ scheduler.kvCacheManager.cowEndpoints
              · exact .inr (.inr (.inl hcow))
              · refine .inl (List.mem_append_right _
                  (List.mem_filter.mpr ⟨hentry, ?_⟩))
                simp only [decide_eq_true_eq]
                exact ⟨hother, hrow.2, hkept, hcow⟩
        · exact .inr (hproceeds.protects hother hbounds.1 hbounds.2 hnull
            hprotects)

/-! ## Issuing and processing a step -/

theorem pendingSeqs_append (batchQueue : List (InFlightStep R))
    (step : InFlightStep R) :
    pendingSeqs (batchQueue ++ [step]) = pendingSeqs batchQueue ++
      (if step.output.NonEmpty then [step.stepSeq] else []) := by
  by_cases hwork : step.output.NonEmpty
  · simp [pendingSeqs, hwork]
  · simp [pendingSeqs, hwork]

section Finish

variable {engine : Engine R H} (hfenced : engine.Fenced)
  {scheduler : Scheduler R H} {numScheduledTokens : List (R × ℕ)}
  {output : SchedulerOutput R}
  (hrun : engine.scheduler.finishSchedule numScheduledTokens =
    .ok (scheduler, output))
include hfenced hrun

/-- What a step in flight was protected by survives the tail of
`schedule`: its pending copies are fenced and no request becomes older. -/
theorem Fenced.protects_finish {requestId : R} {seq : ℕ}
    (hissued : seq ≤ engine.scheduler.schedStepSeq) {block : BlockId}
    (hprotects : engine.scheduler.Protects requestId seq block) :
    scheduler.Protects requestId seq block := by
  obtain ⟨-, -, hmanager, -, hsched, -, hdeferred, hrequests⟩ :=
    Scheduler.finishSchedule_eq_ok hfenced.deferring hfenced.inOrder.le hrun
  rcases hprotects with hrow | hcow | hfence
  · obtain ⟨⟨request, hrequest, hstatus, hseq⟩, hblock⟩ := hrow
    refine .inl ⟨?_, ?_⟩
    · rw [hrequests]
      by_cases hscheduled : requestId ∈ numScheduledTokens.map Prod.fst
      · refine ⟨{ request with lastSchedSeq := scheduler.schedStepSeq }, ?_,
          hstatus, ?_⟩
        · simp only [hscheduled, if_true, hrequest, Option.map_some]
        · simp only [hsched]
          omega
      · exact ⟨request, by simp only [hscheduled, if_false, hrequest],
          hstatus, hseq⟩
    · rw [hmanager, KVCacheManager.requestBlocks_takeKvCacheBlockCopies]
      exact hblock
  · refine .inr (.inr ⟨(engine.scheduler.schedStepSeq + 1,
      engine.scheduler.kvCacheManager.cowEndpoints.reverse), ?_,
      hissued.trans (Nat.le_succ _), List.mem_reverse.mpr hcow⟩)
    rw [hdeferred, if_neg]
    · exact List.mem_append_right _ (List.mem_singleton.mpr rfl)
    · intro hnone
      rw [KVCacheManager.cowEndpoints, hnone] at hcow
      cases hcow
  · obtain ⟨entry, hmem, hseq, hblock⟩ := hfence
    refine .inr (.inr ⟨entry, ?_, hseq, hblock⟩)
    rw [hdeferred]
    split
    · exact hmem
    · exact List.mem_append_left _ hmem

theorem Fenced.fences_finish {seq : ℕ} {block : BlockId}
    (hfence : engine.scheduler.Fences seq block) :
    scheduler.Fences seq block := by
  obtain ⟨-, -, -, -, -, -, hdeferred, -⟩ :=
    Scheduler.finishSchedule_eq_ok hfenced.deferring hfenced.inOrder.le hrun
  obtain ⟨entry, hmem, hseq, hblock⟩ := hfence
  refine ⟨entry, ?_, hseq, hblock⟩
  rw [hdeferred]
  split
  · exact hmem
  · exact List.mem_append_left _ hmem

/-- The tail of `schedule` neither gains nor loses references. -/
theorem Fenced.refs_finish (block : BlockId) :
    scheduler.deferredRefs block + scheduler.kvCacheManager.refs block =
      engine.scheduler.deferredRefs block +
        engine.scheduler.kvCacheManager.refs block := by
  obtain ⟨-, -, hmanager, -, -, -, hdeferred, -⟩ :=
    Scheduler.finishSchedule_eq_ok hfenced.deferring hfenced.inOrder.le hrun
  have hrefs := KVCacheManager.takeKvCacheBlockCopies_refs
    engine.scheduler.kvCacheManager block
  rw [Scheduler.deferredRefs, hdeferred, hmanager]
  split
  · rename_i hnone
    simp only [hnone, endpoints, List.flatMap_nil, List.count_nil,
      Nat.add_zero] at hrefs
    simp only [Scheduler.deferredRefs, hrefs]
  · have hendpoints : (endpoints
        engine.scheduler.kvCacheManager.takeKvCacheBlockCopies.1).count
          block =
        engine.scheduler.kvCacheManager.cowEndpoints.count block := rfl
    simp only [Scheduler.deferredRefs, fencedItems, List.flatMap_append,
      List.flatMap_singleton, List.count_append, List.count_reverse]
    omega

theorem Fenced.guards_new (hwork : output.NonEmpty) :
    scheduler.Guards ⟨output, scheduler.schedStepSeq, []⟩ := by
  obtain ⟨hrunning, houtput, hmanager, -, hsched, -, hdeferred, hrequests⟩ :=
    Scheduler.finishSchedule_eq_ok hfenced.deferring hfenced.inOrder.le hrun
  refine ⟨fun entry hentry _ => .inr (.inl ?_), fun block hblock => ?_⟩
  · rw [houtput] at hentry
    simp only [SchedulerOutput.tableEntries, List.mem_flatMap,
      List.mem_map] at hentry
    obtain ⟨_, ⟨scheduled, hscheduled, rfl⟩, block, hblock, rfl⟩ := hentry
    have hstatus := hrunning scheduled hscheduled
    rw [Option.map_eq_some_iff] at hstatus
    obtain ⟨request, hrequest, hstatus⟩ := hstatus
    refine ⟨⟨{ request with lastSchedSeq := scheduler.schedStepSeq }, ?_, ?_,
      le_rfl⟩, ?_⟩
    · rw [hrequests]
      simp only [List.mem_map_of_mem hscheduled, if_true, hrequest,
        Option.map_some]
    · simp only [hstatus, ne_eq, reduceCtorEq, not_false_eq_true]
    · rw [hmanager, KVCacheManager.requestBlocks_takeKvCacheBlockCopies]
      exact hblock
  · rw [houtput] at hblock
    refine ⟨(engine.scheduler.schedStepSeq + 1,
      engine.scheduler.kvCacheManager.cowEndpoints.reverse), ?_, ?_,
      List.mem_reverse.mpr hblock⟩
    · rw [hdeferred, if_neg]
      · exact List.mem_append_right _ (List.mem_singleton.mpr rfl)
      · intro hnone
        simp only [SchedulerOutput.copyEndpoints, hnone,
          List.flatMap_nil, List.not_mem_nil] at hblock
    · simp only [hsched, hwork, if_true, le_refl]

theorem Fenced.finishSchedule :
    Fenced {
      scheduler
      batchQueue := engine.batchQueue ++
        [⟨output, scheduler.schedStepSeq, []⟩] } := by
  obtain ⟨-, -, hmanager, hdefer, hsched, hprocessed, -, hrequests⟩ :=
    Scheduler.finishSchedule_eq_ok hfenced.deferring hfenced.inOrder.le hrun
  refine ⟨hdefer, ?_, ?_, ?_, ?_⟩
  · have hconfig : scheduler.kvCacheManager.blockPool =
        engine.scheduler.kvCacheManager.blockPool := by
      rw [hmanager]
      rfl
    have hcovered := hfenced.covered
    rw [Scheduler.Covered, KVCacheManager.Covers] at hcovered ⊢
    rw [hconfig]
    exact hcovered.congr fun block _ => (hfenced.refs_finish hrun block).symm
  · rw [pendingSeqs_append, hprocessed, hsched]
    by_cases hwork : output.NonEmpty
    · simp only [hwork, if_true]
      exact hfenced.inOrder.issue
    · simp only [hwork, if_false, List.append_nil, Nat.add_zero]
      exact hfenced.inOrder
  · intro requestId request hrequest
    simp only [hrequests] at hrequest
    split at hrequest
    · rw [Option.map_eq_some_iff] at hrequest
      obtain ⟨_, -, rfl⟩ := hrequest
      exact le_rfl
    · have hle := hfenced.lastSched_le requestId request hrequest
      rw [hsched]
      omega
  · intro step hmem hwork
    cases List.mem_append.mp hmem with
    | inl hold =>
        have hguards := hfenced.guards step hold hwork
        have hbounds := hfenced.stepSeq_bounds hold hwork
        refine ⟨fun entry hentry hnull => ?_, fun block hblock =>
          hfenced.fences_finish hrun (hguards.copies block hblock)⟩
        exact (hguards.tables entry hentry hnull).imp id fun hprotects =>
          hfenced.protects_finish hrun hbounds.2 hprotects
    | inr hnew =>
        rw [List.mem_singleton.mp hnew] at hwork ⊢
        exact hfenced.guards_new hrun hwork

end Finish

/-- Processing a non-empty step advances both ends of the window. -/
theorem Fenced.updateFromOutput {engine : Engine R H}
    (hfenced : engine.Fenced) {head : InFlightStep R}
    {batchQueue : List (InFlightStep R)}
    (hqueue : engine.batchQueue = head :: batchQueue)
    (hwork : head.output.NonEmpty) :
    Fenced {
      scheduler := engine.scheduler.updateFromOutput
      batchQueue } := by
  have horder := hfenced.inOrder
  have hpending : pendingSeqs engine.batchQueue =
      head.stepSeq :: pendingSeqs batchQueue := by
    rw [hqueue]
    simp [pendingSeqs, hwork]
  rw [hpending] at horder
  have hfinish := horder.finish
  rw [Scheduler.updateFromOutput, if_pos hfenced.deferring]
  refine ⟨hfenced.deferring, Scheduler.drain_covered hfenced.covered, hfinish,
    hfenced.lastSched_le, ?_⟩
  intro step hmem hstep
  have hguards := hfenced.guards step
    (hqueue ▸ List.mem_cons_of_mem _ hmem) hstep
  have hopen := (hfinish.bounds _ (mem_pendingSeqs hmem hstep)).1
  refine ⟨fun entry hentry hnull => ?_, fun block hblock =>
    Scheduler.drain_fences (hguards.copies block hblock) hopen⟩
  exact (hguards.tables entry hentry hnull).imp id fun hprotects =>
    Scheduler.drain_protects hprotects hopen

/-! ## One step -/

/-- What an action does: a call between two steps, one that may release
skipped blocks, the issue of a step, or the processing of one. -/
theorem step_cases {engine next : Engine R H} {action : EngineAction R H}
    (hdefer : engine.scheduler.deferBlockFree = true)
    (hstep : engine.step action = .ok next) :
    (∃ scheduler, Proceeds (fun _ => False) engine.scheduler scheduler ∧
      next = { engine with scheduler }) ∨
    (∃ scheduler owner,
      Proceeds (fun requestId => requestId = owner) engine.scheduler
        scheduler ∧
      (∀ seq block, engine.scheduler.RowHolds owner seq block →
        block ∈ scheduler.kvCacheManager.requestBlocks owner →
          scheduler.RowHolds owner seq block) ∧
      next = {
        scheduler
        batchQueue := engine.batchQueue.map
          (markSkipped engine.scheduler.kvCacheManager
            scheduler.kvCacheManager owner) }) ∨
    (∃ numScheduledTokens scheduler output,
      action = .finishSchedule numScheduledTokens ∧
      engine.scheduler.finishSchedule numScheduledTokens =
        .ok (scheduler, output) ∧
      next = {
        scheduler
        batchQueue := engine.batchQueue ++
          [⟨output, scheduler.schedStepSeq, []⟩] }) ∨
    (∃ head batchQueue, action = .updateFromOutput ∧
      engine.batchQueue = head :: batchQueue ∧
      next = {
        scheduler := engine.scheduler.updateFromOutput
        batchQueue }) := by
  have hmanager : ∀ manager : KVCacheManager R H,
      (∀ frame, engine.scheduler.kvCacheManager.Covers frame →
        manager.Covers frame) →
      KVCacheManager.Keeps (fun _ => False) engine.scheduler.kvCacheManager
        manager →
      Proceeds (fun _ => False) engine.scheduler
        { engine.scheduler with kvCacheManager := manager } :=
    fun _ => Proceeds.of_manager
  cases action with
  | addRequest requestId =>
      simp only [step, bind_eq_ok, pure_eq_ok] at hstep
      obtain ⟨_, hcall, rfl⟩ := hstep
      exact .inl ⟨_, Scheduler.addRequest_proceeds hcall, rfl⟩
  | allocateSlots call loadKvAsync =>
      simp only [step, bind_eq_ok, pure_eq_ok] at hstep
      obtain ⟨_, hcall, rfl⟩ := hstep
      have hproceeds := Scheduler.allocateSlots_proceeds hcall
      exact .inr (.inl ⟨_, _, hproceeds.1, hproceeds.2, rfl⟩)
  | preemptRequest requestId =>
      simp only [step, bind_eq_ok, pure_eq_ok] at hstep
      obtain ⟨_, hcall, rfl⟩ := hstep
      exact .inl ⟨_, Scheduler.preemptRequest_proceeds hdefer hcall, rfl⟩
  | freeBlocks requestId =>
      simp only [step, bind_eq_ok, pure_eq_ok] at hstep
      obtain ⟨_, hcall, rfl⟩ := hstep
      exact .inl ⟨_, Scheduler.freeBlocks_proceeds hdefer hcall, rfl⟩
  | finishRemoteLoad request numPreemptions =>
      simp only [step, bind_eq_ok, pure_eq_ok] at hstep
      obtain ⟨_, hcall, rfl⟩ := hstep
      exact .inl ⟨_, Scheduler.finishRemoteLoad_proceeds hcall, rfl⟩
  | failRemoteLoad requestId numPreemptions =>
      simp only [step, bind_eq_ok, pure_eq_ok] at hstep
      obtain ⟨_, hcall, rfl⟩ := hstep
      exact .inl ⟨_, Scheduler.failRemoteLoad_proceeds hcall, rfl⟩
  | removeSkippedBlocks requestId processed numPromptTokens =>
      simp only [step, bind_eq_ok, pure_eq_ok] at hstep
      obtain ⟨manager, hcall, rfl⟩ := hstep
      have hstage := KVCacheManager.removeSkippedBlocks_conserves hcall
      exact .inr (.inl ⟨_, requestId,
        Proceeds.of_manager hstage.covers hstage.keeps_others,
        fun _ _ hrow hmem => ⟨hrow.1, hmem⟩, rfl⟩)
  | cacheBlocks request numComputedTokens =>
      simp only [step, bind_eq_ok, pure_eq_ok] at hstep
      obtain ⟨_, hcall, rfl⟩ := hstep
      have hstage := KVCacheManager.cacheBlocks_conserves hcall
      exact .inl ⟨_, hmanager _ hstage.covers hstage.keeps, rfl⟩
  | takePartialTailOffloads =>
      simp only [step, bind_eq_ok, pure_eq_ok, Prod.exists] at hstep
      obtain ⟨_, _, hcall, rfl⟩ := hstep
      exact .inl ⟨_, hmanager _
        (fun _ => KVCacheManager.takePartialTailOffloads_covers hcall)
        (KVCacheManager.takePartialTailOffloads_keeps hcall), rfl⟩
  | evictBlocks blockIds =>
      simp only [step, KVCacheManager.evictBlocks, bind_eq_ok, pure_eq_ok]
        at hstep
      obtain ⟨_, ⟨blockPool, hevict, rfl⟩, rfl⟩ := hstep
      exact .inl ⟨_, hmanager
        { engine.scheduler.kvCacheManager with blockPool }
        (fun _ hcovers =>
          (BlockPool.sameRefs_evictBlocks hevict).accounts hcovers)
        ⟨fun _ _ _ hmem _ => .inl hmem, fun _ => id⟩, rfl⟩
  | resetPrefixCache =>
      simp only [step, Except.ok.injEq] at hstep
      subst hstep
      exact .inl ⟨_, hmanager
        engine.scheduler.kvCacheManager.resetPrefixCache.1
        (fun _ hcovers =>
          (BlockPool.sameRefs_resetPrefixCache _).accounts hcovers)
        ⟨fun _ _ _ hmem _ => .inl hmem, fun _ => id⟩, rfl⟩
  | newStepStarts =>
      simp only [step, Except.ok.injEq] at hstep
      subst hstep
      exact .inl ⟨_, hmanager _ (fun _ => KVCacheManager.newStepStarts_covers)
        (KVCacheManager.newStepStarts_keeps _), rfl⟩
  | finishSchedule numScheduledTokens =>
      simp only [step, bind_eq_ok, pure_eq_ok, Prod.exists] at hstep
      obtain ⟨_, _, hcall, rfl⟩ := hstep
      exact .inr (.inr (.inl ⟨_, _, _, rfl, hcall, rfl⟩))
  | updateFromOutput =>
      cases hqueue : engine.batchQueue with
      | nil => simp [step, hqueue] at hstep
      | cons head batchQueue =>
          simp only [step, hqueue, Except.ok.injEq] at hstep
          subst hstep
          exact .inr (.inr (.inr ⟨_, _, rfl, rfl, rfl⟩))

/-! ## The condition -/

/-- None of the blocks was released from the table of one of the steps while
it was in flight. -/
def NoneSkipped (batchQueue : List (InFlightStep R))
    (blocks : List BlockId) : Prop :=
  ∀ step ∈ batchQueue, step.output.NonEmpty → ∀ entry ∈ step.skipped,
    entry.2 ∉ blocks

instance (batchQueue : List (InFlightStep R)) (blocks : List BlockId) :
    Decidable (NoneSkipped batchQueue blocks) :=
  inferInstanceAs (Decidable (∀ step ∈ batchQueue, _))

/-- Every update processes a non-empty step, and what an action gives up was
not released earlier from the table of an unprocessed step. -/
def InStep (engine : Engine R H) : EngineAction R H → Prop
  | .preemptRequest requestId | .freeBlocks requestId =>
      NoneSkipped engine.batchQueue
        (engine.scheduler.kvCacheManager.popBlocksForFree requestId).1
  | .finishSchedule _ =>
      NoneSkipped engine.batchQueue
        engine.scheduler.kvCacheManager.cowEndpoints
  | .updateFromOutput =>
      (∀ step ∈ engine.batchQueue.head?, step.output.NonEmpty) ∧
        NoneSkipped engine.batchQueue.tail
          (fencedItems (openedEntries (engine.scheduler.processedStepSeq + 1)
            engine.scheduler.deferredFrees))
  | _ => True

instance (engine : Engine R H) :
    ∀ action : EngineAction R H, Decidable (engine.InStep action)
  | .preemptRequest _ | .freeBlocks _ | .finishSchedule _ =>
      inferInstanceAs (Decidable (NoneSkipped _ _))
  | .updateFromOutput => inferInstanceAs (Decidable (_ ∧ NoneSkipped _ _))
  | .addRequest _ | .allocateSlots _ _ | .finishRemoteLoad _ _
  | .failRemoteLoad _ _ | .removeSkippedBlocks _ _ _ | .cacheBlocks _ _
  | .takePartialTailOffloads | .evictBlocks _ | .resetPrefixCache
  | .newStepStarts => .isTrue trivial

theorem fenced_step {engine next : Engine R H} {action : EngineAction R H}
    (hinStep : engine.InStep action) (hstep : engine.step action = .ok next)
    (hfenced : engine.Fenced) : next.Fenced := by
  rcases step_cases hfenced.deferring hstep with hcall | hskip | hissue | hdone
  · obtain ⟨scheduler, hproceeds, rfl⟩ := hcall
    exact hfenced.proceeds hproceeds
  · obtain ⟨scheduler, owner, hproceeds, howner, rfl⟩ := hskip
    exact hfenced.marked hproceeds howner
  · obtain ⟨_, _, _, -, hrun, rfl⟩ := hissue
    exact hfenced.finishSchedule hrun
  · obtain ⟨head, batchQueue, rfl, hqueue, rfl⟩ := hdone
    exact hfenced.updateFromOutput hqueue
      (hinStep.1 head (by rw [hqueue]; rfl))

/-! ## What an action returns -/

/-- The action is one of those that return deferred or freed blocks. -/
def ReturnsBlocks : EngineAction R H → Prop
  | .preemptRequest _ | .freeBlocks _ | .finishSchedule _
  | .updateFromOutput => True
  | _ => False

/-- Whatever newly is in the free queue is in no table and no copy of an
unprocessed non-empty step. -/
def ReturnsSafely (before after : Engine R H) : Prop :=
  ∀ block, block ∉ before.freeQueue → block ∈ after.freeQueue →
    ∀ step ∈ after.batchQueue, step.output.NonEmpty →
      block ∉ step.output.blocks

/-- A guarded block that is newly free is one of those given up, and was
released from the table before. -/
theorem returnsSafely_of {before after : Engine R H}
    (hbefore : before.scheduler.Covered) (hafter : after.Fenced)
    (hconfig : after.scheduler.kvCacheManager.blockPool.config =
      before.scheduler.kvCacheManager.blockPool.config)
    {returned : List BlockId}
    (hrefs : ∀ block,
      before.scheduler.deferredRefs block +
          before.scheduler.kvCacheManager.refs block ≤
        after.scheduler.deferredRefs block +
          after.scheduler.kvCacheManager.refs block + returned.count block)
    (hskipped : NoneSkipped after.batchQueue returned) :
    ReturnsSafely before after := by
  intro block hold hnew step hstep hwork hblock
  have hfree := (hafter.covered.mem_free block).mp hnew
  have hunheld : after.scheduler.deferredRefs block +
      after.scheduler.kvCacheManager.refs block = 0 := hfree.2.2
  have hreturned : block ∈ returned := by
    by_contra hnone
    have hcount := List.count_eq_zero_of_not_mem hnone
    have hle := hrefs block
    refine hold ((hbefore.mem_free block).mpr ⟨hfree.1, ?_, by omega⟩)
    rw [← BlockPool.numGpuBlocks_of_config hconfig]
    exact hfree.2.1
  have hguards := hafter.guards step hstep hwork
  cases List.mem_append.mp hblock with
  | inl htable =>
      obtain ⟨entry, hentry, rfl⟩ := List.mem_map.mp htable
      cases hguards.tables entry hentry hfree.1 with
      | inl hmarked => exact hskipped step hstep hwork entry hmarked hreturned
      | inr hprotects =>
          have hpos := hprotects.refs_pos
          omega
  | inr hcopy =>
      have hpos := (hguards.copies block hcopy).deferredRefs_pos
      omega

theorem freeRequestBlocks_refs {self freed : Scheduler R H} {requestId : R}
    {request : RequestState}
    (hrun : self.freeRequestBlocks requestId request = .ok freed)
    (block : BlockId) :
    self.deferredRefs block + self.kvCacheManager.refs block ≤
      freed.deferredRefs block + freed.kvCacheManager.refs block +
        (self.kvCacheManager.popBlocksForFree requestId).1.count block := by
  rw [Scheduler.freeRequestBlocks] at hrun
  split at hrun
  · simp only [bind_eq_ok, pure_eq_ok] at hrun
    obtain ⟨_, hfree, rfl⟩ := hrun
    have hrefs := KVCacheManager.free_refs hfree block
    simp only [KVCacheManager.heldBlocks] at hrefs
    simp only [Scheduler.deferredRefs]
    omega
  · simp only [Except.ok.injEq] at hrun
    subst hrun
    have hrefs := KVCacheManager.popBlocksForFree_refs self.kvCacheManager
      requestId block
    have hcount := Scheduler.count_fencedItems_defer self.deferredFrees
      self.schedStepSeq (self.kvCacheManager.popBlocksForFree requestId).1
      block
    simp only [Scheduler.deferredRefs] at hcount ⊢
    omega

theorem config_freeRequestBlocks {self freed : Scheduler R H} {requestId : R}
    {request : RequestState}
    (hrun : self.freeRequestBlocks requestId request = .ok freed) :
    freed.kvCacheManager.blockPool.config =
      self.kvCacheManager.blockPool.config := by
  rw [Scheduler.freeRequestBlocks] at hrun
  split at hrun
  · simp only [bind_eq_ok, pure_eq_ok] at hrun
    obtain ⟨_, hfree, rfl⟩ := hrun
    exact (KVCacheManager.free_conserves hfree).config_eq.trans
      (BlockPool.config_freeBlocks _ _)
  · simp only [Except.ok.injEq] at hrun
    subst hrun
    rfl

theorem returnsSafely_step {engine next : Engine R H}
    {action : EngineAction R H} (hreturns : ReturnsBlocks action)
    (hinStep : engine.InStep action) (hstep : engine.step action = .ok next)
    (hfenced : engine.Fenced) : ReturnsSafely engine next := by
  have hnext := fenced_step hinStep hstep hfenced
  cases action with
  | preemptRequest requestId =>
      simp only [step, bind_eq_ok, pure_eq_ok, Scheduler.preemptRequest]
        at hstep
      obtain ⟨_, ⟨request, -, _, -, freed, hfree, rfl⟩, rfl⟩ := hstep
      exact returnsSafely_of hfenced.covered hnext
        (by
          have hconfig := config_freeRequestBlocks hfree
          exact hconfig)
        (fun block => by
          have hrefs := freeRequestBlocks_refs hfree block
          exact hrefs) hinStep
  | freeBlocks requestId =>
      simp only [step, bind_eq_ok, pure_eq_ok, Scheduler.freeBlocks] at hstep
      obtain ⟨_, ⟨request, -, freed, hfree, rfl⟩, rfl⟩ := hstep
      exact returnsSafely_of hfenced.covered hnext
        (by
          have hconfig := config_freeRequestBlocks hfree
          exact hconfig)
        (fun block => by
          have hrefs := freeRequestBlocks_refs hfree block
          exact hrefs) hinStep
  | finishSchedule numScheduledTokens =>
      simp only [step, bind_eq_ok, pure_eq_ok, Prod.exists] at hstep
      obtain ⟨scheduler, output, hcall, rfl⟩ := hstep
      obtain ⟨-, -, hmanager, -⟩ := Scheduler.finishSchedule_eq_ok
        hfenced.deferring hfenced.inOrder.le hcall
      have hconfig : scheduler.kvCacheManager.blockPool.config =
          engine.scheduler.kvCacheManager.blockPool.config := by
        rw [hmanager]
        rfl
      have hskipped : NoneSkipped (engine.batchQueue ++
          [⟨output, scheduler.schedStepSeq, []⟩])
          engine.scheduler.kvCacheManager.cowEndpoints := by
        intro step hmem hwork entry hentry
        cases List.mem_append.mp hmem with
        | inl hold => exact hinStep step hold hwork entry hentry
        | inr hnew =>
            rw [List.mem_singleton.mp hnew] at hentry
            cases hentry
      apply returnsSafely_of hfenced.covered hnext hconfig _ hskipped
      intro block
      have hrefs := hfenced.refs_finish hcall block
      exact hrefs.ge.trans (Nat.le_add_right _ _)
  | updateFromOutput =>
      cases hqueue : engine.batchQueue with
      | nil => simp [step, hqueue] at hstep
      | cons head batchQueue =>
          simp only [step, hqueue, Except.ok.injEq] at hstep
          subst hstep
          have hskipped := hinStep.2
          rw [hqueue] at hskipped
          have hfinish : engine.scheduler.updateFromOutput =
              { engine.scheduler with
                processedStepSeq := engine.scheduler.processedStepSeq +
                  1 }.drainDeferredFrees := by
            rw [Scheduler.updateFromOutput, if_pos hfenced.deferring]
          refine returnsSafely_of hfenced.covered hnext ?_ ?_ hskipped
          · rw [hfinish]
            exact Scheduler.drain_frame_eq
              (fun manager => manager.blockPool.config)
              (fun _ _ => BlockPool.config_freeBlocks _ _) _
          · intro block
            rw [hfinish]
            have hrefs := Scheduler.drain_refs { engine.scheduler with
              processedStepSeq := engine.scheduler.processedStepSeq + 1 }
              block
            exact hrefs.le
  | _ => exact absurd hreturns id

/-! ## Nothing stays deferred -/

/-- Updates are never fewer than the fences they have to pass, whatever the
steps were. -/
structure Draining (engine : Engine R H) : Prop where
  deferring : engine.scheduler.deferBlockFree = true
  lastSched_le : ∀ requestId request,
    engine.scheduler.requests requestId = some request →
      request.lastSchedSeq ≤ engine.scheduler.schedStepSeq
  sched_le : engine.scheduler.schedStepSeq ≤
    engine.scheduler.processedStepSeq + engine.batchQueue.length
  fence_le : ∀ entry ∈ engine.scheduler.deferredFrees,
    entry.1 ≤ engine.scheduler.processedStepSeq + engine.batchQueue.length
  idle : engine.batchQueue = [] → engine.scheduler.deferredFrees = []

theorem Draining.proceeds {engine next : Engine R H} {exempt : R → Prop}
    (hdraining : engine.Draining)
    (hproceeds : Proceeds exempt engine.scheduler next.scheduler)
    (hlength : next.batchQueue.length = engine.batchQueue.length) :
    next.Draining := by
  have hsched := hdraining.sched_le
  refine ⟨hproceeds.deferring_eq.trans hdraining.deferring, ?_, ?_, ?_, ?_⟩
  · intro requestId request hrequest
    rw [hproceeds.sched_eq]
    cases hproceeds.lastSched requestId request hrequest with
    | inl hzero => omega
    | inr hold =>
        obtain ⟨request', hrequest', heq⟩ := hold
        rw [heq]
        exact hdraining.lastSched_le requestId request' hrequest'
  · rw [hproceeds.sched_eq, hproceeds.processed_eq, hlength]
    exact hsched
  · intro entry hmem
    rw [hproceeds.processed_eq, hlength]
    cases hproceeds.deferred with
    | inl hsame => exact hdraining.fence_le entry (hsame ▸ hmem)
    | inr hmore =>
        obtain ⟨blocks, hmore, -⟩ := hmore
        rw [hmore] at hmem
        cases List.mem_append.mp hmem with
        | inl hold => exact hdraining.fence_le entry hold
        | inr hnew =>
            rw [List.mem_singleton.mp hnew]
            exact hsched
  · intro hempty
    have hqueue : engine.batchQueue = [] := by
      rw [← List.length_eq_zero_iff, ← hlength, hempty]
      rfl
    cases hproceeds.deferred with
    | inl hsame => exact hsame.trans (hdraining.idle hqueue)
    | inr hmore =>
        -- a fence is only added for a request with an unprocessed step
        obtain ⟨_, -, requestId, request, hrequest, hopen⟩ := hmore
        have hlast := hdraining.lastSched_le requestId request hrequest
        rw [hqueue, List.length_nil] at hsched
        omega

theorem deferred_takeBlockCopies (self : Scheduler R H) :
    self.takeBlockCopies.2.deferredFrees = self.deferredFrees ∨
      ∃ blocks, self.takeBlockCopies.2.deferredFrees =
        self.deferredFrees ++ [(self.schedStepSeq + 1, blocks)] := by
  cases htake : self.kvCacheManager.takeKvCacheBlockCopies with
  | mk copies kvCacheManager =>
      simp only [Scheduler.takeBlockCopies, htake]
      split
      · exact .inl rfl
      · rw [Scheduler.freeCowRetainedBlocks]
        split
        · exact .inl rfl
        · exact .inr ⟨_, rfl⟩

/-- Only the manager and the fences change when copies are taken. -/
theorem takeBlockCopies_same (self : Scheduler R H) :
    self.takeBlockCopies.2.deferBlockFree = self.deferBlockFree ∧
      self.takeBlockCopies.2.requests = self.requests ∧
      self.takeBlockCopies.2.schedStepSeq = self.schedStepSeq ∧
      self.takeBlockCopies.2.processedStepSeq = self.processedStepSeq := by
  cases htake : self.kvCacheManager.takeKvCacheBlockCopies with
  | mk copies kvCacheManager =>
      simp only [Scheduler.takeBlockCopies, htake]
      split
      · exact ⟨rfl, rfl, rfl, rfl⟩
      · rw [Scheduler.freeCowRetainedBlocks]
        split
        · exact ⟨rfl, rfl, rfl, rfl⟩
        · exact ⟨rfl, rfl, rfl, rfl⟩

theorem advanceFence_same (self : Scheduler R H) (output : SchedulerOutput R) :
    (self.advanceFence output).deferBlockFree = self.deferBlockFree ∧
      (self.advanceFence output).requests = self.requests ∧
      (self.advanceFence output).deferredFrees = self.deferredFrees ∧
      (self.advanceFence output).processedStepSeq = self.processedStepSeq ∧
      self.schedStepSeq ≤ (self.advanceFence output).schedStepSeq ∧
      (self.advanceFence output).schedStepSeq ≤ self.schedStepSeq + 1 := by
  rw [Scheduler.advanceFence]
  split
  · exact ⟨rfl, rfl, rfl, rfl, Nat.le_succ _, le_rfl⟩
  · exact ⟨rfl, rfl, rfl, rfl, le_rfl, Nat.le_succ _⟩

theorem Draining.finishSchedule {engine : Engine R H}
    (hdraining : engine.Draining) {scheduler : Scheduler R H}
    {numScheduledTokens : List (R × ℕ)} {output : SchedulerOutput R}
    (hrun : engine.scheduler.finishSchedule numScheduledTokens =
      .ok (scheduler, output)) (seq : ℕ) :
    Draining {
      scheduler
      batchQueue := engine.batchQueue ++ [⟨output, seq, []⟩] } := by
  simp only [Scheduler.finishSchedule, bind_eq_ok, pure_eq_ok,
    Prod.mk.injEq] at hrun
  obtain ⟨_, -, hscheduler, houtput⟩ := hrun
  rw [houtput] at hscheduler
  have htaken := takeBlockCopies_same engine.scheduler
  have hcopies := deferred_takeBlockCopies engine.scheduler
  have hadvanced := advanceFence_same engine.scheduler.takeBlockCopies.2 output
  rw [Scheduler.updateAfterSchedule,
    if_pos (hadvanced.1.trans (htaken.1.trans hdraining.deferring))]
    at hscheduler
  subst hscheduler
  have hsched := hdraining.sched_le
  refine ⟨hadvanced.1.trans (htaken.1.trans hdraining.deferring), ?_, ?_, ?_,
    ?_⟩
  · intro requestId request hrequest
    dsimp only at hrequest ⊢
    split at hrequest
    · rw [Option.map_eq_some_iff] at hrequest
      obtain ⟨_, -, rfl⟩ := hrequest
      exact le_rfl
    · rw [hadvanced.2.1, htaken.2.1] at hrequest
      have hlast := hdraining.lastSched_le requestId request hrequest
      omega
  · dsimp only
    rw [List.length_append, List.length_singleton]
    omega
  · intro entry hmem
    dsimp only at hmem ⊢
    rw [hadvanced.2.2.1] at hmem
    rw [hadvanced.2.2.2.1, htaken.2.2.2, List.length_append,
      List.length_singleton]
    cases hcopies with
    | inl hsame =>
        have hle := hdraining.fence_le entry (hsame ▸ hmem)
        omega
    | inr hmore =>
        obtain ⟨blocks, hmore⟩ := hmore
        rw [hmore] at hmem
        cases List.mem_append.mp hmem with
        | inl hold =>
            have hle := hdraining.fence_le entry hold
            omega
        | inr hnew =>
            rw [List.mem_singleton.mp hnew]
            dsimp only
            omega
  · intro hempty
    simp at hempty

theorem Draining.updateFromOutput {engine : Engine R H}
    (hdraining : engine.Draining) {head : InFlightStep R}
    {batchQueue : List (InFlightStep R)}
    (hqueue : engine.batchQueue = head :: batchQueue) :
    Draining {
      scheduler := engine.scheduler.updateFromOutput
      batchQueue } := by
  have hsched := hdraining.sched_le
  have hlength : engine.batchQueue.length = batchQueue.length + 1 := by
    rw [hqueue, List.length_cons]
  have hfence : ∀ entry ∈ engine.scheduler.deferredFrees, entry.1 ≤
      engine.scheduler.processedStepSeq + 1 + batchQueue.length := by
    intro entry hmem
    have hle := hdraining.fence_le entry hmem
    omega
  rw [Scheduler.updateFromOutput, if_pos hdraining.deferring]
  refine ⟨hdraining.deferring, hdraining.lastSched_le, ?_, ?_, ?_⟩
  · simp only [Scheduler.drainDeferredFrees]
    omega
  · intro entry hmem
    exact hfence entry (openFences_subset hmem)
  · intro hempty
    apply openFences_all
    intro entry hmem
    have hle := hfence entry hmem
    dsimp only at hempty
    rw [hempty] at hle
    exact hle

theorem draining_step {engine next : Engine R H} {action : EngineAction R H}
    (hstep : engine.step action = .ok next) (hdraining : engine.Draining) :
    next.Draining := by
  rcases step_cases hdraining.deferring hstep with
    hcall | hskip | hissue | hdone
  · obtain ⟨scheduler, hproceeds, rfl⟩ := hcall
    exact hdraining.proceeds hproceeds rfl
  · obtain ⟨scheduler, owner, hproceeds, -, rfl⟩ := hskip
    exact hdraining.proceeds hproceeds (List.length_map _)
  · obtain ⟨_, _, _, -, hrun, rfl⟩ := hissue
    exact hdraining.finishSchedule hrun _
  · obtain ⟨head, batchQueue, -, hqueue, rfl⟩ := hdone
    exact hdraining.updateFromOutput hqueue

theorem draining_init (kvCacheManager : KVCacheManager R H) :
    Draining (init (Scheduler.init kvCacheManager true)) where
  deferring := rfl
  lastSched_le := by
    intro requestId request hrequest
    cases hrequest
  sched_le := le_rfl
  fence_le := by
    intro entry hmem
    cases hmem
  idle _ := rfl

/-! ## Runs -/

/-- In every run whose updates all process non-empty steps and whose frees
give up no block that an unprocessed step had lost before, no action returns a
block of an unprocessed step.  Once every scheduled step is processed, nothing
is deferred. -/
theorem deferred_frees_safe (policy : AllocationPolicy)
    (groups : List ManagerSpec) (numBlocks hashBlockSize : ℕ)
    (enableCaching : Bool) (hpos : 0 < numBlocks)
    {actions : List (EngineAction R H)} {engine : Engine R H}
    (hrun : (init (Scheduler.init (KVCacheManager.init policy groups numBlocks
      hashBlockSize enableCaching) true)).run actions = .ok engine)
    (halong : Along step InStep (init (Scheduler.init (KVCacheManager.init
      policy groups numBlocks hashBlockSize enableCaching) true)) actions) :
    (∀ action next, engine.InStep action → ReturnsBlocks action →
      engine.step action = .ok next → ReturnsSafely engine next) ∧
    (engine.batchQueue = [] → engine.scheduler.deferredFrees = []) := by
  have hfenced : engine.Fenced := runSteps_invariant_along
    (fun _ _ _ => fenced_step) hrun halong
    (fenced_init policy groups numBlocks hashBlockSize enableCaching hpos)
  have hdraining : engine.Draining := runSteps_invariant
    (fun _ _ _ => draining_step) hrun (draining_init _)
  exact ⟨fun action next hinStep hreturns hstep =>
    returnsSafely_step hreturns hinStep hstep hfenced, hdraining.idle⟩

/-- A prompt of six tokens is scheduled and aborted while its step is in
flight. -/
def abortedRun : List (EngineAction ℕ ℕ) :=
  [.addRequest 0, .allocateSlots (firstChunk 6) false,
    .finishSchedule [(0, 6)], .freeBlocks 0]

def smallEngine : Engine ℕ ℕ :=
  init (Scheduler.init (KVCacheManager.init idlePolicy glmGroups 10 4 true)
    true)

theorem deferred_frees_safe_aborted :
    ∃ engine, smallEngine.run abortedRun = .ok engine ∧
      (∀ action next, engine.InStep action → ReturnsBlocks action →
        engine.step action = .ok next → ReturnsSafely engine next) ∧
      (engine.batchQueue = [] → engine.scheduler.deferredFrees = []) := by
  have hok : (smallEngine.run abortedRun).isOk = true := by decide
  have halong : Along step InStep smallEngine abortedRun := by decide
  cases hrun : smallEngine.run abortedRun with
  | error failure =>
      rw [hrun] at hok
      cases hok
  | ok engine =>
      exact ⟨engine, rfl, deferred_frees_safe idlePolicy glmGroups 10 4 true
        (by decide) hrun halong⟩

/-- An empty step is processed before the prompt is scheduled. -/
def driftedRun : List (EngineAction ℕ ℕ) :=
  [.finishSchedule [], .updateFromOutput, .addRequest 0,
    .allocateSlots (firstChunk 6) false, .finishSchedule [(0, 6)]]

/-- The update of the empty step has passed the fence of the next one: the
abort returns block 1 while the step that writes it is in flight. -/
theorem deferred_frees_unsafe :
    ∃ engine next, smallEngine.run driftedRun = .ok engine ∧
      engine.step (.freeBlocks 0) = .ok next ∧
      ReturnsBlocks (.freeBlocks 0 : EngineAction ℕ ℕ) ∧
      ¬ReturnsSafely engine next := by
  refine ⟨_, _, rfl, rfl, trivial, fun hsafe => ?_⟩
  exact hsafe 1 (by decide) (by decide) _ (List.mem_singleton.mpr rfl)
    (by decide) (by decide)

end Engine

end GlmFlash.Sched
