import GlmFlash.Cache.KVCacheManager

/-!
# What the gates decide

`allocate_slots` bills a request twice, once for the full sequence under the
admission cap and once for the chunk at hand.  Billing reads the pool and the
managers and changes at most the checkpoint count of a Mamba manager, on which
no bill depends.  So each gate comes down to one comparison of numbers that
are fixed before the call.
-/

set_option linter.unusedSectionVars false

namespace GlmFlash.Cache

open GlmFlash.Library

variable {R H : Type} [DecidableEq R] [DecidableEq H]

namespace SingleTypeKVCacheManager

/-- The successor of a manager that was billed. -/
def Billed (manager manager' : SingleTypeKVCacheManager R H) : Prop :=
  manager' =
    { manager with numCheckpointBlocks := manager'.numCheckpointBlocks }

theorem getNumBlocksToAllocate_billed {numEncoderTokens : ℕ}
    {query : BlockQuery R} {pool pool' : BlockPool H}
    {manager manager' : SingleTypeKVCacheManager R H} {demand : ℤ}
    (hrun : getNumBlocksToAllocate numEncoderTokens query pool manager =
      .ok (pool', manager', demand)) :
    pool' = pool ∧ Billed manager manager' ∧
      (query.applyAdmissionCap = true → manager' = manager) := by
  unfold getNumBlocksToAllocate at hrun
  split at hrun
  case h_3 spec _ =>
      split at hrun
      · simp only [Except.ok.injEq, Prod.mk.injEq] at hrun
        obtain ⟨rfl, rfl, -⟩ := hrun
        exact ⟨rfl, rfl, fun _ => rfl⟩
      · split at hrun
        · simp only [Except.ok.injEq, Prod.mk.injEq] at hrun
          obtain ⟨rfl, rfl, -⟩ := hrun
          refine ⟨rfl, ?_, fun hcap => if_pos hcap⟩
          split <;> rfl
        · simp only [bind_eq_ok, pure_eq_ok, Prod.mk.injEq] at hrun
          obtain ⟨_, -, rfl, rfl, -⟩ := hrun
          exact ⟨rfl, rfl, fun _ => rfl⟩
  all_goals
    simp only [Except.ok.injEq, bind_eq_ok, pure_eq_ok, Prod.mk.injEq] at hrun
  case h_1 =>
      obtain ⟨rfl, rfl, -⟩ := hrun
      exact ⟨rfl, rfl, fun _ => rfl⟩
  all_goals
    obtain ⟨_, -, rfl, rfl, -⟩ := hrun
    exact ⟨rfl, rfl, fun _ => rfl⟩

/-- The bill of a manager. -/
def demand (numEncoderTokens : ℕ) (query : BlockQuery R) (pool : BlockPool H)
    (manager : SingleTypeKVCacheManager R H) : Except Failure ℤ :=
  (getNumBlocksToAllocate numEncoderTokens query pool manager).map
    fun outcome => outcome.2.2

private theorem map_demand {pool : BlockPool H}
    {manager : SingleTypeKVCacheManager R H} (bill : Except Failure ℤ) :
    ((do
        let demand ← bill
        return (pool, manager, demand)) :
      Except Failure (Updated R H ℤ)).map (fun outcome => outcome.2.2) =
        bill := by
  cases bill <;> rfl

theorem demand_eq (numEncoderTokens : ℕ) (query : BlockQuery R)
    (pool : BlockPool H) (manager : SingleTypeKVCacheManager R H) :
    demand numEncoderTokens query pool manager =
      match manager.kind with
      | .kpoolTail =>
          .ok ((1 - (manager.blocks query.requestId).length : ℕ) : ℤ)
      | .crossAttention =>
          manager.getNumBlocksToAllocateBase pool
            { query with
              numTokens := numEncoderTokens
              newComputedBlocks := []
              totalComputedTokens := 0
              numLocalComputedTokens := 0
              numTokensMainModel := numEncoderTokens }
      | .mamba spec =>
          if manager.HitCachedThisStep pool query.newComputedBlocks then
            .ok ((pool.numGpuBlocks : ℤ) + 1)
          else if spec.align then
            .ok (manager.getNumBlocksToAllocateAlign spec pool query).1
          else
            manager.getNumBlocksToAllocateBase pool
              { query with
                numTokens := query.numTokens +
                  manager.blockSize * spec.numSpeculativeBlocks }
      | .fullAttention | .rswa _ | .slidingWindow _ _
      | .chunkedLocalAttention _ =>
          manager.getNumBlocksToAllocateBase pool query := by
  unfold demand getNumBlocksToAllocate
  cases manager.kind with
  | kpoolTail => rfl
  | mamba spec =>
      simp only
      split
      · rfl
      · split
        · rfl
        · exact map_demand _
  | _ => exact map_demand _

/-- Two managers that bill every query about one request alike. -/
def SameBills (requestId : R) (manager other : SingleTypeKVCacheManager R H) :
    Prop :=
  other.kvCacheGroupId = manager.kvCacheGroupId ∧
    ∀ numEncoderTokens (query : BlockQuery R) pool,
      query.requestId = requestId →
        demand numEncoderTokens query pool other =
          demand numEncoderTokens query pool manager

theorem SameBills.refl (requestId : R)
    (manager : SingleTypeKVCacheManager R H) :
    SameBills requestId manager manager :=
  ⟨rfl, fun _ _ _ _ => rfl⟩

theorem Billed.sameBills {manager manager' : SingleTypeKVCacheManager R H}
    (hbilled : Billed manager manager') (requestId : R) :
    SameBills requestId manager manager' := by
  rw [hbilled]
  refine ⟨rfl, fun numEncoderTokens query pool _ => ?_⟩
  rw [demand_eq, demand_eq]
  rfl

/-- Writing back a row that is there already changes no bill. -/
theorem sameBills_setBlocks {manager : SingleTypeKVCacheManager R H}
    {requestId : R} {reqBlocks : List BlockId}
    (hrow : manager.blocks requestId = reqBlocks) :
    SameBills requestId manager (manager.setBlocks requestId reqBlocks) := by
  refine ⟨rfl, fun numEncoderTokens query pool hquery => ?_⟩
  have hblocks : (manager.setBlocks requestId reqBlocks).blocks
      query.requestId = manager.blocks query.requestId := by
    rw [hquery, hrow]
    exact Tables.row_setRow_self _ _ _
  have hbase : ∀ other : BlockQuery R, other.requestId = query.requestId →
      (manager.setBlocks requestId reqBlocks).getNumBlocksToAllocateBase pool
          other = manager.getNumBlocksToAllocateBase pool other := by
    intro other hother
    unfold getNumBlocksToAllocateBase
    rw [hother, hblocks]
    rfl
  have halign : ∀ spec,
      (manager.setBlocks requestId reqBlocks).getNumBlocksToAllocateAlign spec
          pool query = manager.getNumBlocksToAllocateAlign spec pool query := by
    intro spec
    unfold getNumBlocksToAllocateAlign needsInternalCheckpoint
    rw [hblocks]
    rfl
  rw [demand_eq, demand_eq, hblocks]
  rw [show (manager.setBlocks requestId reqBlocks).kind = manager.kind from
    rfl]
  cases manager.kind with
  | kpoolTail => rfl
  | mamba spec =>
      have hwide := hbase { query with
        numTokens := query.numTokens +
          manager.blockSize * spec.numSpeculativeBlocks } rfl
      simp only [halign]
      exact if_congr Iff.rfl rfl (if_congr Iff.rfl rfl hwide)
  | _ => exact hbase _ rfl

end SingleTypeKVCacheManager

namespace KVCacheManager

open SingleTypeKVCacheManager (Billed SameBills demand)

/-! ## Bills -/

variable {self self' : KVCacheManager R H} {call : SlotsCall R H}

/-- What billing yields for each manager: its successor and its part. -/
theorem getNumBlocksToAllocate_outcomes {query : BlockQuery R} {bill : ℤ}
    (hrun : self.getNumBlocksToAllocate call query = .ok (self', bill)) :
    ∃ outcomes : List (SingleTypeKVCacheManager R H × ℤ),
      List.Forall₂ (fun manager outcome =>
        SingleTypeKVCacheManager.getNumBlocksToAllocate call.numEncoderTokens
            (call.groupQuery query manager.kvCacheGroupId) self.blockPool
            manager = .ok (self.blockPool, outcome.1, outcome.2))
        self.singleTypeManagers outcomes ∧
      self' = { self with singleTypeManagers := outcomes.map Prod.fst } ∧
      bill = (outcomes.map Prod.snd).sum := by
  simp only [getNumBlocksToAllocate, onManagers, bind_eq_ok, pure_eq_ok,
    Prod.exists, Prod.mk.injEq] at hrun
  obtain ⟨_, _, ⟨pool', managers', amounts, hthread, rfl, rfl⟩, rfl, rfl⟩ :=
    hrun
  obtain ⟨rfl, outcomes, houtcomes, rfl, rfl⟩ := threadCells_readOnly (by
    intro manager pool' manager' _ hcell
    exact (SingleTypeKVCacheManager.getNumBlocksToAllocate_billed hcell).1)
    hthread
  exact ⟨outcomes, houtcomes, rfl, rfl⟩

/-- Each manager's part of a bill, and what billing leaves behind. -/
theorem getNumBlocksToAllocate_eq_ok {query : BlockQuery R} {bill : ℤ}
    (hrun : self.getNumBlocksToAllocate call query = .ok (self', bill)) :
    self' = { self with singleTypeManagers := self'.singleTypeManagers } ∧
      List.Forall₂ Billed self.singleTypeManagers self'.singleTypeManagers ∧
      (query.applyAdmissionCap = true → self' = self) ∧
      ∃ bills, bill = bills.sum ∧
        List.Forall₂ (fun manager amount =>
          demand call.numEncoderTokens
            (call.groupQuery query manager.kvCacheGroupId)
            self.blockPool manager = .ok amount)
          self.singleTypeManagers bills := by
  obtain ⟨outcomes, houtcomes, rfl, rfl⟩ :=
    getNumBlocksToAllocate_outcomes hrun
  refine ⟨rfl, ?_, ?_, outcomes.map Prod.snd, rfl, ?_⟩
  · exact List.forall₂_map_right_iff.mpr (houtcomes.imp fun _ _ hcell =>
      (SingleTypeKVCacheManager.getNumBlocksToAllocate_billed hcell).2.1)
  · intro hcap
    have hsame : List.Forall₂ Eq self.singleTypeManagers
        (outcomes.map Prod.fst) := by
      rw [List.forall₂_map_right_iff]
      refine houtcomes.imp fun _ _ hcell => ?_
      exact ((SingleTypeKVCacheManager.getNumBlocksToAllocate_billed hcell).2.2
        hcap).symm
    rw [List.forall₂_eq_eq_eq] at hsame
    rw [← hsame]
  · refine List.forall₂_map_right_iff.mpr (houtcomes.imp fun _ _ hcell => ?_)
    rw [demand, hcell]
    rfl

theorem getNumBlocksToAllocate_of_demands {self : KVCacheManager R H}
    {query : BlockQuery R} {bills : List ℤ}
    (hbills : List.Forall₂ (fun manager amount =>
      demand call.numEncoderTokens
        (call.groupQuery query manager.kvCacheGroupId)
        self.blockPool manager = .ok amount) self.singleTypeManagers bills) :
    ∃ self', self.getNumBlocksToAllocate call query =
      .ok (self', bills.sum) := by
  have houtcomes : ∃ outcomes :
      List (SingleTypeKVCacheManager R H × ℤ),
      List.Forall₂ (fun manager outcome =>
        SingleTypeKVCacheManager.getNumBlocksToAllocate call.numEncoderTokens
            (call.groupQuery query manager.kvCacheGroupId)
            self.blockPool manager =
          .ok (self.blockPool, outcome.1, outcome.2))
        self.singleTypeManagers outcomes ∧ outcomes.map Prod.snd = bills := by
    generalize self.singleTypeManagers = managers at hbills
    induction hbills with
    | nil => exact ⟨[], .nil, rfl⟩
    | @cons manager amount _ _ hhead _ ih =>
        obtain ⟨outcomes, hrest, hamounts⟩ := ih
        rw [demand] at hhead
        cases hcell : SingleTypeKVCacheManager.getNumBlocksToAllocate
            call.numEncoderTokens
            (call.groupQuery query manager.kvCacheGroupId)
            self.blockPool manager with
        | error failure =>
            rw [hcell] at hhead
            cases hhead
        | ok outcome =>
            rw [hcell] at hhead
            cases hhead
            have hpool :=
              (SingleTypeKVCacheManager.getNumBlocksToAllocate_billed hcell).1
            refine ⟨outcome.2 :: outcomes, .cons ?_ hrest, ?_⟩
            · rw [hcell, ← hpool]
            · rw [List.map_cons, hamounts]
  obtain ⟨outcomes, hcells, rfl⟩ := houtcomes
  have hthread : threadCells (fun pool manager =>
      SingleTypeKVCacheManager.getNumBlocksToAllocate call.numEncoderTokens
        (call.groupQuery query manager.kvCacheGroupId) pool manager)
      self.blockPool self.singleTypeManagers =
        .ok (self.blockPool, outcomes.map Prod.fst,
          outcomes.map Prod.snd) :=
    threadCells_of_readOnly hcells
  refine ⟨{ self with singleTypeManagers := outcomes.map Prod.fst }, ?_⟩
  rw [getNumBlocksToAllocate, onManagers, hthread]
  rfl

/-- The bill of a query, zero when billing raises. -/
def bill (self : KVCacheManager R H) (call : SlotsCall R H)
    (query : BlockQuery R) : ℤ :=
  match self.getNumBlocksToAllocate call query with
  | .ok (_, bill) => bill
  | .error _ => 0

theorem bill_eq {query : BlockQuery R} {bill : ℤ}
    (hrun : self.getNumBlocksToAllocate call query = .ok (self', bill)) :
    self.bill call query = bill := by
  rw [KVCacheManager.bill, hrun]

/-- Managers with the same bills have the same total. -/
theorem bill_congr {self other : KVCacheManager R H} (call : SlotsCall R H)
    {query : BlockQuery R} (hpool : other.blockPool = self.blockPool)
    (hbills : List.Forall₂ (SameBills query.requestId)
      self.singleTypeManagers other.singleTypeManagers) :
    other.bill call query = self.bill call query := by
  have hdemands : ∀ bills : List ℤ,
      List.Forall₂ (fun manager amount =>
        demand call.numEncoderTokens
          (call.groupQuery query manager.kvCacheGroupId)
          self.blockPool manager = .ok amount)
        self.singleTypeManagers bills ↔
      List.Forall₂ (fun manager amount =>
        demand call.numEncoderTokens
          (call.groupQuery query manager.kvCacheGroupId)
          other.blockPool manager = .ok amount)
        other.singleTypeManagers bills := by
    rw [hpool]
    generalize self.singleTypeManagers = managers at hbills
    generalize other.singleTypeManagers = managers' at hbills
    induction hbills with
    | nil => intro bills; rfl
    | @cons manager other _ _ hhead _ ih =>
        intro bills
        cases bills with
        | nil => simp
        | cons amount bills =>
            rw [List.forall₂_cons, List.forall₂_cons, ih bills, hhead.1,
              hhead.2 _ (call.groupQuery query manager.kvCacheGroupId)
                _ rfl]
  cases hself : self.getNumBlocksToAllocate call query with
  | ok outcome =>
      obtain ⟨-, -, -, bills, hsum, hamounts⟩ :=
        getNumBlocksToAllocate_eq_ok hself
      obtain ⟨_, hother⟩ :=
        getNumBlocksToAllocate_of_demands ((hdemands bills).mp hamounts)
      rw [bill_eq hother, bill_eq hself, hsum]
  | error failure =>
      cases hother : other.getNumBlocksToAllocate call query with
      | error _ => simp only [KVCacheManager.bill, hself, hother]
      | ok outcome =>
          obtain ⟨-, -, -, bills, -, hamounts⟩ :=
            getNumBlocksToAllocate_eq_ok hother
          obtain ⟨_, hcontra⟩ :=
            getNumBlocksToAllocate_of_demands ((hdemands bills).mpr hamounts)
          rw [hself] at hcontra
          cases hcontra

def chunkBill (self : KVCacheManager R H) (call : SlotsCall R H) : ℤ :=
  self.bill call (self.chunkQuery call)

def fullBill (self : KVCacheManager R H) (call : SlotsCall R H) : ℤ :=
  self.bill call (self.fullQuery call)

/-! ## Gates -/

/-- A refused manager: only a refusal by the reserve alone is noted. -/
def refused (self : KVCacheManager R H) (requestId : R)
    (requiredBlocks availableBlocks : ℤ) (stateReserve : ℕ) :
    KVCacheManager R H :=
  if 0 < stateReserve ∧ requiredBlocks - stateReserve ≤ availableBlocks then
    self.noteReserveBlocked requestId
  else self

theorem decideAdmission_eq_iff
    {requestId : R} {requiredBlocks availableBlocks : ℤ}
    {stateReserve : ℕ} {fits : Bool} :
    self.decideAdmission requestId requiredBlocks availableBlocks
        stateReserve = (self', fits) ↔
      (fits = true ∧ requiredBlocks ≤ availableBlocks ∧ self' = self) ∨
        (fits = false ∧ availableBlocks < requiredBlocks ∧
          self' = self.refused requestId requiredBlocks availableBlocks
            stateReserve) := by
  unfold decideAdmission refused
  by_cases hshort : availableBlocks < requiredBlocks
  · rw [if_pos hshort]
    split <;> cases fits <;> simp [hshort, eq_comm]
  · rw [if_neg hshort]
    cases fits <;> simp [hshort, eq_comm, not_lt.mp hshort]

/-- The first gate compares the bill of the full sequence with all free
blocks. -/
theorem fullSequenceGate_eq_ok {stateReserve : ℕ} {fits : Bool}
    (hrun : self.fullSequenceGate call stateReserve = .ok (self', fits)) :
    (fits = true ∧ self' = self ∧ (call.fullSequenceMustFit = true →
        self.fullBill call + self.watermark call + stateReserve ≤
          self.blockPool.getNumFreeBlocks)) ∨
      (fits = false ∧ call.fullSequenceMustFit = true ∧
        self.blockPool.getNumFreeBlocks <
          self.fullBill call + self.watermark call + stateReserve ∧
        self' = self.refused call.requestId
          (self.fullBill call + self.watermark call + stateReserve)
          self.blockPool.getNumFreeBlocks stateReserve) := by
  unfold fullSequenceGate at hrun
  split at hrun
  case isTrue hmust =>
      simp only [bind_eq_ok, Prod.exists, pure_eq_ok] at hrun
      obtain ⟨billed, _, hbill, hdecide⟩ := hrun
      have hbilled : billed = self :=
        (getNumBlocksToAllocate_eq_ok hbill).2.2.1 rfl
      subst hbilled
      rw [fullBill, bill_eq hbill]
      rcases decideAdmission_eq_iff.mp hdecide with
        ⟨hfits, hle, hself⟩ | ⟨hfits, hlt, hself⟩
      · exact .inl ⟨hfits, hself, fun _ => hle⟩
      · exact .inr ⟨hfits, hmust, hlt, hself⟩
  case isFalse hmust =>
      simp only [Except.ok.injEq, Prod.mk.injEq] at hrun
      exact .inl ⟨hrun.2.symm, hrun.1.symm, fun htrue => absurd htrue hmust⟩

/-- What the second gate requires. -/
def requirement (self : KVCacheManager R H) (call : SlotsCall R H)
    (stateReserve : ℕ) : ℤ :=
  if 0 < stateReserve then
    max (self.chunkBill call) (self.fullBill call) + self.watermark call +
      stateReserve
  else self.chunkBill call + self.watermark call

/-- The second gate compares its requirement with the free blocks that are
not reserved for others. -/
theorem capacityGate_eq_ok {stateReserve : ℕ} {fits : Bool}
    (hrun : self.capacityGate call stateReserve = .ok (self', fits)) :
    ∃ billed, self.getNumBlocksToAllocate call (self.chunkQuery call) =
        .ok (billed, self.chunkBill call) ∧
      ((fits = true ∧ self' = billed ∧
          self.requirement call stateReserve ≤
            self.blockPool.getNumFreeBlocks - call.reservedBlocks) ∨
        (fits = false ∧
          self.blockPool.getNumFreeBlocks - call.reservedBlocks <
            self.requirement call stateReserve ∧
          self' = billed.refused call.requestId
            (self.requirement call stateReserve)
            (self.blockPool.getNumFreeBlocks - call.reservedBlocks)
            stateReserve)) := by
  simp only [capacityGate, bind_eq_ok, Prod.exists, pure_eq_ok] at hrun
  obtain ⟨required, amount, hrequired, hdecide⟩ := hrun
  simp only [requiredBlocks, bind_eq_ok, Prod.exists] at hrequired
  obtain ⟨billed, chunk, hchunk, hrest⟩ := hrequired
  obtain ⟨hbilled, hmanagers, -, -⟩ := getNumBlocksToAllocate_eq_ok hchunk
  have hpool : billed.blockPool = self.blockPool := by rw [hbilled]
  have hchunkBill : self.chunkBill call = chunk := bill_eq hchunk
  refine ⟨billed, hchunkBill ▸ hchunk, ?_⟩
  have hrequirement : required = billed ∧
      amount = self.requirement call stateReserve := by
    have hwatermark : billed.watermark call = self.watermark call := by
      rw [hbilled]
      rfl
    unfold requirement
    by_cases hreserve : 0 < stateReserve
    · rw [if_pos hreserve] at hrest ⊢
      simp only [bind_eq_ok, Prod.exists, pure_eq_ok, Prod.mk.injEq] at hrest
      obtain ⟨same, full, hfull, rfl, rfl⟩ := hrest
      have hsame : same = billed :=
        (getNumBlocksToAllocate_eq_ok hfull).2.2.1 rfl
      have hquery : billed.fullQuery call = self.fullQuery call := by
        rw [hbilled]
        rfl
      have hfullBill : self.fullBill call = full := by
        have hbills := bill_congr call hpool (hmanagers.imp fun _ _ hmanager =>
          hmanager.sameBills (self.fullQuery call).requestId)
        rw [← bill_eq hfull, hquery, fullBill, hbills]
      subst hsame
      rw [hwatermark, hchunkBill, hfullBill]
      exact ⟨rfl, rfl⟩
    · rw [if_neg hreserve] at hrest ⊢
      simp only [pure_eq_ok, Prod.mk.injEq] at hrest
      obtain ⟨rfl, rfl⟩ := hrest
      rw [hwatermark, hchunkBill]
      exact ⟨rfl, rfl⟩
  obtain ⟨rfl, rfl⟩ := hrequirement
  rw [hpool] at hdecide
  rcases decideAdmission_eq_iff.mp hdecide with
    ⟨hfits, hle, hself⟩ | ⟨hfits, hlt, hself⟩
  · exact .inl ⟨hfits, hself, hle⟩
  · exact .inr ⟨hfits, hlt, hself⟩

/-! ## The three outcomes -/

/-- The state after the blocks outside the attention windows were freed. -/
def releaseSkipped (self : KVCacheManager R H) (call : SlotsCall R H) :
    Except Failure (KVCacheManager R H) :=
  self.removeSkippedBlocks call.requestId
    (self.totalComputedTokens call - call.request.numInFlightTokens)
    (some call.request.numPromptTokens)

theorem allocateSlots_refused
    (hrun : self.allocateSlots call = .ok (self', none)) :
    self.fullSequenceGate call (self.stateReserve call.requestId) =
        .ok (self', false) ∨
      ∃ released,
        self.fullSequenceGate call (self.stateReserve call.requestId) =
          .ok (self, true) ∧
        self.releaseSkipped call = .ok released ∧
        released.capacityGate call (self.stateReserve call.requestId) =
          .ok (self', false) := by
  simp only [allocateSlots, bind_eq_ok, Prod.exists, require_eq_ok] at hrun
  obtain ⟨_, -, gated, fits, hgate, hrest⟩ := hrun
  cases fits with
  | false =>
      simp only [pure_eq_ok, Prod.mk.injEq, and_true, if_true] at hrest
      exact .inl (hrest ▸ hgate)
  | true =>
      have hgated : gated = self := by
        rcases fullSequenceGate_eq_ok hgate with
          ⟨-, hgated, -⟩ | ⟨hfalse, -⟩
        · exact hgated
        · cases hfalse
      subst hgated
      simp only [Bool.true_eq_false, if_false, bind_eq_ok, Prod.exists]
        at hrest
      obtain ⟨released, hrelease, checked, fits, hcapacity, hfinish⟩ := hrest
      refine .inr ⟨released, hgate, hrelease, ?_⟩
      cases fits with
      | false =>
          simp only [pure_eq_ok, Prod.mk.injEq, and_true, if_true] at hfinish
          exact hfinish ▸ hcapacity
      | true =>
          simp only [Bool.true_eq_false, if_false, bind_eq_ok, pure_eq_ok,
            Prod.mk.injEq, reduceCtorEq, and_false, exists_false] at hfinish

theorem allocateSlots_admitted {newBlocks : List (List BlockId)}
    (hrun : self.allocateSlots call = .ok (self', some newBlocks)) :
    ∃ released checked admitted committed,
      self.fullSequenceGate call (self.stateReserve call.requestId) =
        .ok (self, true) ∧
      self.releaseSkipped call = .ok released ∧
      released.capacityGate call (self.stateReserve call.requestId) =
        .ok (checked, true) ∧
      admitted = (if self.IsFirstAllocation call.requestId then
        checked.clearReserveBlocked call.requestId else checked) ∧
      admitted.commit call = .ok (committed, newBlocks) ∧
      committed.cacheStage call = .ok self' := by
  simp only [allocateSlots, bind_eq_ok, Prod.exists, require_eq_ok] at hrun
  obtain ⟨_, -, gated, fits, hgate, hrest⟩ := hrun
  cases fits with
  | false =>
      simp only [if_true, pure_eq_ok, Prod.mk.injEq, reduceCtorEq, and_false]
        at hrest
  | true =>
      have hgated : gated = self := by
        rcases fullSequenceGate_eq_ok hgate with
          ⟨-, hgated, -⟩ | ⟨hfalse, -⟩
        · exact hgated
        · cases hfalse
      subst hgated
      simp only [Bool.true_eq_false, if_false, bind_eq_ok, Prod.exists]
        at hrest
      obtain ⟨released, hrelease, checked, fits, hcapacity, hfinish⟩ := hrest
      cases fits with
      | false =>
          simp only [if_true, pure_eq_ok, Prod.mk.injEq, reduceCtorEq,
            and_false] at hfinish
      | true =>
          simp only [Bool.true_eq_false, if_false, bind_eq_ok, Prod.exists,
            pure_eq_ok, Prod.mk.injEq, Option.some.injEq,
            decide_eq_true_eq] at hfinish
          obtain ⟨committed, _, hcommit, _, hcache, rfl, rfl⟩ := hfinish
          exact ⟨released, checked, _, committed, hgate, hrelease, hcapacity,
            rfl, hcommit, hcache⟩

end KVCacheManager

end GlmFlash.Cache
