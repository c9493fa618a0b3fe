import GlmFlash.Cache.SpecGroups

/-!
# Agreement of the two prefix lookups

The reconciled lookup never raises and never accepts a candidate that a group
would not reach on its own.  The per-group lookup asks the same finders, but
without the size of the context-parallel group: it agrees exactly when no
full-attention group is sharded.
-/

namespace GlmFlash.Cache

open GlmFlash.Library

/-- The pool hashes in the coordinator's unit, and the request has a hash for
every whole unit that it may look at. -/
structure LookupInput (coordinator : HybridCoordinator)
    (blockPool : BlockPool BlockHash) (blockHashes : List BlockHash)
    (maxCacheHitLength : ℕ) : Prop where
  hash_eq : blockPool.hashBlockSize = coordinator.hashBlockSize
  covers : maxCacheHitLength / coordinator.hashBlockSize ≤
    blockHashes.length

namespace HybridCoordinator

variable {self : HybridCoordinator} {blockPool : BlockPool BlockHash}
  {blockHashes : List BlockHash} {maxCacheHitLength : ℕ}

section Queries

variable {specGroup : SpecGroup} {currHitLength : ℕ} {dropEagleBlock : Bool}

/-- What is searched for on top is dropped again. -/
theorem maxLength_sub_dropped_le (hself : self.WellFormed)
    (hmem : specGroup ∈ self.attentionGroups) :
    let query := self.reconciledQuery blockPool blockHashes maxCacheHitLength
      specGroup dropEagleBlock currHitLength
    query.maxLength - query.dropped ≤ currHitLength := by
  obtain ⟨group, hgroup, hparticipates, hspec⟩ := exists_member hmem
  have hmanager := hself.manager_dvd group hgroup hparticipates
  have hpartial := hself.partialHits
  rw [hspec] at hmanager
  have hmargin : self.eagleMargin specGroup.spec ≤
      min self.cacheHitAlignmentTokens
        (self.managerBlockSize specGroup.spec) := by
    rw [eagleMargin, cacheHitAlignmentTokens]
    by_cases henabled : self.enablePartialHashHits = true
    · simp only [henabled, true_and, if_true]
      split
      · rename_i hfine
        exact le_min (Nat.le_refl _) (Nat.le_of_lt hfine.2)
      · rename_i hcoarse
        apply le_min _ (Nat.le_refl _)
        have hsame := hpartial henabled group hgroup hparticipates
        rw [hspec] at hsame
        cases hsame with
        | inl hfine =>
            exact Nat.not_lt.mp fun hlt => hcoarse ⟨hfine, hlt⟩
        | inr hsame => rw [hsame]
    · rw [if_neg fun hall => henabled hall.1, if_neg henabled]
      exact le_min (Nat.le_of_dvd hself.scheduler_pos hmanager)
        (Nat.le_refl _)
  intro query
  have hblock : query.blockSize = self.managerBlockSize specGroup.spec :=
    blockSize_reconciledQuery hself hmem
  by_cases hdrop : dropEagleBlock = true ∧ ¬specGroup.spec.isMamba
  · have hmax : query.maxLength =
        min (currHitLength + self.eagleMargin specGroup.spec)
          maxCacheHitLength :=
      if_pos hdrop
    have hdropped : query.dropped = min self.cacheHitAlignmentTokens
        (self.managerBlockSize specGroup.spec) := by
      rw [← hblock]
      exact if_pos hdrop
    rw [hmax, hdropped]
    omega
  · have hmax : query.maxLength = currHitLength := if_neg hdrop
    rw [hmax]
    exact Nat.sub_le _ _

/-- A finder call of the reconciled lookup returns, and does not exceed the
candidate. -/
theorem reconciledQuery_hit (hself : self.WellFormed)
    (hinput : LookupInput self blockPool blockHashes maxCacheHitLength)
    (hmem : specGroup ∈ self.attentionGroups)
    (hdrop : dropEagleBlock = true → specGroup.useEagle = true)
    (hcurr : currHitLength ≤ maxCacheHitLength) :
    ∃ rows hitLength, (self.reconciledQuery blockPool blockHashes
      maxCacheHitLength specGroup dropEagleBlock currHitLength).Hit rows
        hitLength ∧ hitLength ≤ currHitLength := by
  obtain ⟨rows, hitLength, hhit⟩ := HitQuery.findLongestCacheHit_hit
    (reconciledQuery_supported hself hinput.hash_eq hinput.covers hmem hdrop
      hcurr)
  exact ⟨rows, hitLength, hhit,
    hhit.bound.trans (maxLength_sub_dropped_le hself hmem)⟩

/-- The call for a group alone, with its block size scaled. -/
def ownQuery (self : HybridCoordinator) (blockPool : BlockPool BlockHash)
    (blockHashes : List BlockHash) (maxCacheHitLength : ℕ)
    (specGroup : SpecGroup) : HitQuery :=
  self.reconciledQuery blockPool blockHashes maxCacheHitLength specGroup
    specGroup.useEagle maxCacheHitLength

theorem ownQuery_eq_withMaxLength :
    self.ownQuery blockPool blockHashes maxCacheHitLength specGroup =
      (self.reconciledQuery blockPool blockHashes maxCacheHitLength specGroup
        specGroup.useEagle currHitLength).withMaxLength
          maxCacheHitLength := by
  have hmax : (self.ownQuery blockPool blockHashes maxCacheHitLength
      specGroup).maxLength = maxCacheHitLength := by
    simp only [ownQuery, reconciledQuery]
    split
    · exact Nat.min_eq_right (Nat.le_add_right _ _)
    · rfl
  simp only [ownQuery, HitQuery.withMaxLength, reconciledQuery] at hmax ⊢
  rw [hmax]

theorem ownQuery_hit (hself : self.WellFormed)
    (hinput : LookupInput self blockPool blockHashes maxCacheHitLength)
    (hmem : specGroup ∈ self.attentionGroups) :
    ∃ rows hitLength, (self.ownQuery blockPool blockHashes maxCacheHitLength
      specGroup).Hit rows hitLength := by
  obtain ⟨rows, hitLength, hhit, -⟩ :=
    reconciledQuery_hit hself hinput hmem id (Nat.le_refl _)
  exact ⟨rows, hitLength, hhit⟩

/-- The first call for a group finds no more than the group has on its
own. -/
theorem hit_le_own (hself : self.WellFormed)
    (hinput : LookupInput self blockPool blockHashes maxCacheHitLength)
    (hmem : specGroup ∈ self.attentionGroups)
    (hcurr : currHitLength ≤ maxCacheHitLength) {rows rows' : List Row}
    {hitLength hitLength' : ℕ}
    (hhit : (self.reconciledQuery blockPool blockHashes maxCacheHitLength
      specGroup specGroup.useEagle currHitLength).Hit rows hitLength)
    (hown : (self.ownQuery blockPool blockHashes maxCacheHitLength
      specGroup).Hit rows' hitLength') :
    hitLength ≤ hitLength' := by
  have hsupported := reconciledQuery_supported hself hinput.hash_eq
    hinput.covers hmem id hcurr
  have hsupported' := reconciledQuery_supported hself hinput.hash_eq
    hinput.covers hmem id (Nat.le_refl maxCacheHitLength)
  change (self.ownQuery blockPool blockHashes maxCacheHitLength
    specGroup).Supported at hsupported'
  rw [@ownQuery_eq_withMaxLength self blockPool blockHashes maxCacheHitLength
    specGroup currHitLength] at hsupported' hown
  exact HitQuery.Hit.mono hsupported hsupported'
    (maxLength_reconciledQuery_le hcurr) hhit hown

end Queries

/-- What a visit of one group does to the state of the loop. -/
structure Visited (coordinator : HybridCoordinator)
    (blockPool : BlockPool BlockHash) (blockHashes : List BlockHash)
    (maxCacheHitLength : ℕ) (entry : SpecGroup × ℕ)
    (before after : HitState) : Prop where
  shrinks : after.currHitLength ≤ before.currHitLength
  verified : ∀ index, index ≠ entry.2 → index ∉ before.eagleVerified →
    index ∉ after.eagleVerified
  frame : ∀ groupId, groupId ∉ entry.1.groupIds →
    after.hitBlocksByGroup groupId = before.hitBlocksByGroup groupId
  first : entry.2 ∉ before.eagleVerified →
    before.hitBlocksByGroup (entry.1.groupIds.headD 0) = none →
      ∀ rows hitLength, (coordinator.ownQuery blockPool blockHashes
        maxCacheHitLength entry.1).Hit rows hitLength →
          after.currHitLength ≤ hitLength

theorem record_frame (state : HitState) {groupIds : List ℕ}
    (rows : List Row) (hitLength : ℕ) {groupId : ℕ}
    (hout : groupId ∉ groupIds) :
    (state.record groupIds rows hitLength).hitBlocksByGroup groupId =
      state.hitBlocksByGroup groupId := by
  have hnone : groupIds.idxOf? groupId = none :=
    List.idxOf?_eq_none_iff.mpr hout
  simp only [HitState.record, hnone]

theorem visitGroup_ok (hself : self.WellFormed)
    (hinput : LookupInput self blockPool blockHashes maxCacheHitLength)
    {entry : SpecGroup × ℕ} (hmem : entry.1 ∈ self.attentionGroups)
    {state : HitState} (hcurr : state.currHitLength ≤ maxCacheHitLength) :
    ∃ after, self.visitGroup blockPool blockHashes maxCacheHitLength state
        entry = .ok after ∧
      Visited self blockPool blockHashes maxCacheHitLength entry state
        after := by
  rw [visitGroup]
  split
  · rename_i hcached
    refine ⟨_, rfl, Nat.min_le_left _ _, fun _ _ hfresh => hfresh,
      fun _ _ => rfl, ?_⟩
    intro _ hnone
    rw [hnone] at hcached
    exact absurd hcached.2 Bool.false_ne_true
  · have hdrop : (entry.1.useEagle &&
        !state.eagleVerified.contains entry.2) = true →
          entry.1.useEagle = true :=
      fun hboth => (Bool.and_eq_true_iff.mp hboth).1
    obtain ⟨rows, hitLength, hhit, hle⟩ :=
      reconciledQuery_hit hself hinput hmem hdrop hcurr
    dsimp only
    rw [hhit.result]
    refine ⟨_, rfl, hle, ?_, fun _ hout =>
      record_frame state rows hitLength hout, ?_⟩
    · intro index hindex hfresh
      dsimp only
      split
      · intro hin
        cases List.mem_cons.mp hin with
        | inl hsame => exact hindex hsame
        | inr hin => exact hfresh hin
      · split
        · exact List.not_mem_nil
        · exact hfresh
    · intro hfresh _ rows' hitLength' hown
      have hdropped : (entry.1.useEagle &&
          !state.eagleVerified.contains entry.2) = entry.1.useEagle := by
        simp [hfresh]
      rw [hdropped] at hhit
      exact hit_le_own hself hinput hmem hcurr hhit hown

/-- A round of the loop returns and does not raise the candidate. -/
theorem round_ok (hself : self.WellFormed)
    (hinput : LookupInput self blockPool blockHashes maxCacheHitLength)
    {entries : List (SpecGroup × ℕ)}
    (hentries : ∀ entry ∈ entries, entry.1 ∈ self.attentionGroups)
    {state : HitState} (hcurr : state.currHitLength ≤ maxCacheHitLength) :
    ∃ after, entries.foldlM (self.visitGroup blockPool blockHashes
        maxCacheHitLength) state = .ok after ∧
      after.currHitLength ≤ state.currHitLength := by
  induction entries generalizing state with
  | nil => exact ⟨state, rfl, Nat.le_refl _⟩
  | cons entry entries ih =>
      obtain ⟨middle, hvisit, hvisited⟩ :=
        visitGroup_ok hself hinput (hentries entry List.mem_cons_self) hcurr
      obtain ⟨after, hafter, hle⟩ := ih
        (fun later hlater => hentries later (List.mem_cons_of_mem _ hlater))
        (hvisited.shrinks.trans hcurr)
      refine ⟨after, ?_, hle.trans hvisited.shrinks⟩
      rw [List.foldlM_cons, hvisit]
      exact hafter

/-- After the first round the candidate is within the reach of every group
on its own. -/
theorem firstRound_le (hself : self.WellFormed)
    (hinput : LookupInput self blockPool blockHashes maxCacheHitLength)
    {groups : List SpecGroup} {start : ℕ}
    (hgroups : ∀ group ∈ groups, group ∈ self.attentionGroups)
    (hnodup : groups.Nodup) {state after : HitState}
    (hcurr : state.currHitLength ≤ maxCacheHitLength)
    (hverified : ∀ index, start ≤ index → index ∉ state.eagleVerified)
    (hnone : ∀ group ∈ groups,
      state.hitBlocksByGroup (group.groupIds.headD 0) = none)
    (hround : (groups.zipIdx start).foldlM (self.visitGroup blockPool
      blockHashes maxCacheHitLength) state = .ok after) :
    ∀ group ∈ groups, ∀ rows hitLength, (self.ownQuery blockPool blockHashes
      maxCacheHitLength group).Hit rows hitLength →
        after.currHitLength ≤ hitLength := by
  induction groups generalizing start state with
  | nil =>
      intro group hgroup
      exact absurd hgroup List.not_mem_nil
  | cons first groups ih =>
      have hfirst := hgroups first List.mem_cons_self
      have hlater := fun group hgroup =>
        hgroups group (List.mem_cons_of_mem first hgroup)
      obtain ⟨middle, hvisit, hvisited⟩ := @visitGroup_ok self blockPool
        blockHashes maxCacheHitLength hself hinput (first, start) hfirst
        state hcurr
      rw [List.zipIdx_cons, List.foldlM_cons, hvisit] at hround
      have hround' : (groups.zipIdx (start + 1)).foldlM (self.visitGroup
        blockPool blockHashes maxCacheHitLength) middle = .ok after := hround
      have hmiddle := hvisited.shrinks.trans hcurr
      intro group hgroup rows hitLength hown
      cases List.mem_cons.mp hgroup with
      | inl hsame =>
          rw [hsame] at hown
          have hreach := hvisited.first (hverified start (Nat.le_refl _))
            (hnone first List.mem_cons_self) rows hitLength hown
          have hentries : ∀ entry ∈ groups.zipIdx (start + 1),
              entry.1 ∈ self.attentionGroups := fun entry hentry =>
            hlater entry.1 (List.fst_mem_of_mem_zipIdx hentry)
          obtain ⟨after', hafter', hle⟩ :=
            round_ok hself hinput hentries hmiddle
          rw [Except.ok.inj (hround'.symm.trans hafter')]
          exact hle.trans hreach
      | inr hgroup =>
          refine ih hlater hnodup.of_cons hmiddle ?_ ?_ hround' group hgroup
            rows hitLength hown
          · intro index hindex
            exact hvisited.verified index (Nat.ne_of_gt hindex)
              (hverified index (Nat.le_of_succ_le hindex))
          · intro group' hgroup'
            rw [hvisited.frame, hnone group'
              (List.mem_cons_of_mem first hgroup')]
            intro hid
            have hids := (stands_of_mem (hlater group' hgroup')).nonempty
            have hhead : group'.groupIds.headD 0 ∈ group'.groupIds := by
              cases hcons : group'.groupIds with
              | nil => exact absurd hcons hids
              | cons groupId later => exact List.mem_cons_self
            have hsame := specGroup_unique hfirst (hlater group' hgroup') hid
              hhead
            rw [hsame] at hnodup
            exact (List.nodup_cons.mp hnodup).1 hgroup'

theorem zipIdx_mem {start : ℕ} :
    ∀ entry ∈ self.attentionGroups.zipIdx start,
      entry.1 ∈ self.attentionGroups :=
  fun _ hentry => List.fst_mem_of_mem_zipIdx hentry

/-- The loop ends, since a round that goes on has shrunk the candidate. -/
theorem reconcile_ok (hself : self.WellFormed)
    (hinput : LookupInput self blockPool blockHashes maxCacheHitLength)
    {rounds : ℕ} (state : HitState) {hitLength : ℕ}
    (hrounds : hitLength < rounds) (hcurr : hitLength ≤ maxCacheHitLength) :
    ∃ found, self.reconcile blockPool blockHashes maxCacheHitLength rounds
      state hitLength = .ok found ∧ found.2 ≤ hitLength := by
  induction rounds generalizing state hitLength with
  | zero => exact absurd hrounds (Nat.not_lt_zero _)
  | succ rounds ih =>
      have hstart : ({ state with currHitLength := hitLength } :
          HitState).currHitLength ≤ maxCacheHitLength := hcurr
      obtain ⟨after, hround, hle⟩ :=
        round_ok hself hinput zipIdx_mem hstart
      rw [reconcile, hround]
      change ∃ found, (if hitLength ≤ after.currHitLength then
          Except.ok (after, hitLength)
        else if self.isSimpleHybrid then .ok (after, after.currHitLength)
        else self.reconcile blockPool blockHashes maxCacheHitLength rounds
          after after.currHitLength) = .ok found ∧ _
      split
      · exact ⟨_, rfl, Nat.le_refl _⟩
      · split
        · exact ⟨_, rfl, hle⟩
        · rename_i hshrunk _
          have hlt := Nat.lt_of_not_le hshrunk
          obtain ⟨found, hfound, hfinal⟩ :=
            ih after (by omega) (hle.trans hcurr)
          exact ⟨found, hfound, hfinal.trans hle⟩

/-- The reconciled hit is within the reach of every group on its own. -/
theorem reconcile_le_own (hself : self.WellFormed)
    (hinput : LookupInput self blockPool blockHashes maxCacheHitLength)
    {found : HitState × ℕ}
    (hfound : self.reconcile blockPool blockHashes maxCacheHitLength
      (maxCacheHitLength + 1) (HitState.start maxCacheHitLength)
        maxCacheHitLength = .ok found)
    {group : SpecGroup} (hmem : group ∈ self.attentionGroups)
    {rows : List Row} {hitLength : ℕ}
    (hown : (self.ownQuery blockPool blockHashes maxCacheHitLength
      group).Hit rows hitLength) :
    found.2 ≤ hitLength := by
  have hcurr : (HitState.start maxCacheHitLength).currHitLength ≤
      maxCacheHitLength := Nat.le_refl _
  obtain ⟨after, hround, hle⟩ := round_ok hself hinput zipIdx_mem hcurr
  have hfirst := firstRound_le hself hinput (fun _ hgroup => hgroup)
    nodup_specs.of_map hcurr (fun _ _ => List.not_mem_nil)
    (fun _ _ => rfl) hround group hmem rows hitLength hown
  have hround' : self.attentionGroups.zipIdx.foldlM (self.visitGroup
      blockPool blockHashes maxCacheHitLength)
        { HitState.start maxCacheHitLength with
          currHitLength := maxCacheHitLength } = .ok after := hround
  rw [reconcile, hround'] at hfound
  change (if maxCacheHitLength ≤ after.currHitLength then
      Except.ok (after, maxCacheHitLength)
    else if self.isSimpleHybrid then .ok (after, after.currHitLength)
    else self.reconcile blockPool blockHashes maxCacheHitLength
      maxCacheHitLength after after.currHitLength) = _ at hfound
  split at hfound
  · rename_i hsame
    cases hfound
    exact hsame.trans hfirst
  · rename_i hshrunk
    split at hfound
    · cases hfound
      exact hfirst
    · obtain ⟨found', hfound', hfinal⟩ := reconcile_ok hself hinput after
        (Nat.lt_of_not_le hshrunk) hle
      rw [Except.ok.inj (hfound.symm.trans hfound')]
      exact hfinal.trans hfirst

theorem findLongestCacheHit_ok (hself : self.WellFormed)
    (hinput : LookupInput self blockPool blockHashes maxCacheHitLength) :
    ∃ found, self.findLongestCacheHit blockPool blockHashes
        maxCacheHitLength = .ok found ∧
      ∀ group ∈ self.attentionGroups, ∀ rows hitLength,
        (self.ownQuery blockPool blockHashes maxCacheHitLength group).Hit
          rows hitLength → found.2.1 ≤ hitLength := by
  obtain ⟨found, hfound, -⟩ := reconcile_ok hself hinput
    (HitState.start maxCacheHitLength) (Nat.lt_succ_self maxCacheHitLength)
    (Nat.le_refl _)
  rw [findLongestCacheHit, hfound]
  refine ⟨_, rfl, ?_⟩
  intro group hmem rows hitLength hown
  exact reconcile_le_own hself hinput hfound hmem hown

section PerGroup

/-- One group in the loop of `find_longest_cache_hit_per_group`. -/
def lookUp (self : HybridCoordinator) (blockPool : BlockPool BlockHash)
    (blockHashes : List BlockHash) (maxCacheHitLength : ℕ)
    (state : HitState) (group : SpecGroup) : Except Failure HitState := do
  let found ← (self.perGroupQuery blockPool blockHashes maxCacheHitLength
    group).findLongestCacheHit
  return state.record group.groupIds found.1 found.2

/-- What the loop has entered for a group whose own call returned. -/
structure Entered (state : HitState) (group : SpecGroup)
    (rows : List Row) (hitLength : ℕ) : Prop where
  hit : ∀ groupId ∈ group.groupIds,
    state.hitLengthByGroup groupId = hitLength
  blocks : ∀ groupId ∈ group.groupIds, ∃ position,
    state.hitBlocksByGroup groupId = some (column rows position)

theorem record_entered (state : HitState) (group : SpecGroup)
    (rows : List Row) (hitLength : ℕ) :
    Entered (state.record group.groupIds rows hitLength) group rows
      hitLength where
  hit := by
    intro groupId hid
    simp only [HitState.record, if_pos hid]
  blocks := by
    intro groupId hid
    cases hposition : group.groupIds.idxOf? groupId with
    | none => exact absurd hid (List.idxOf?_eq_none_iff.mp hposition)
    | some position =>
        exact ⟨position, by simp only [HitState.record, hposition]⟩

theorem Entered.record {state : HitState} {group other : SpecGroup}
    {rows rows' : List Row} {hitLength hitLength' : ℕ}
    (hentered : Entered state group rows hitLength)
    (hdisjoint : ∀ groupId ∈ group.groupIds, groupId ∉ other.groupIds) :
    Entered (state.record other.groupIds rows' hitLength') group rows
      hitLength where
  hit := by
    intro groupId hid
    simp only [HitState.record, if_neg (hdisjoint groupId hid)]
    exact hentered.hit groupId hid
  blocks := by
    intro groupId hid
    rw [record_frame _ _ _ (hdisjoint groupId hid)]
    exact hentered.blocks groupId hid

/-- The loop returns when every call does, and enters every group's result. -/
theorem perGroup_run {groups : List SpecGroup}
    {results : SpecGroup → List Row × ℕ}
    (hresults : ∀ group ∈ groups, (self.perGroupQuery blockPool blockHashes
      maxCacheHitLength group).findLongestCacheHit = .ok (results group))
    (hdisjoint : groups.Pairwise fun group later =>
      ∀ groupId ∈ group.groupIds, groupId ∉ later.groupIds)
    (state : HitState) :
    ∃ after, groups.foldlM (self.lookUp blockPool blockHashes
        maxCacheHitLength) state = .ok after ∧
      (∀ group ∈ groups, Entered after group (results group).1
        (results group).2) ∧
      ∀ group rows hitLength, Entered state group rows hitLength →
        (∀ other ∈ groups, ∀ groupId ∈ group.groupIds,
          groupId ∉ other.groupIds) →
        Entered after group rows hitLength := by
  induction groups generalizing state with
  | nil =>
      refine ⟨state, rfl, ?_, fun _ _ _ hentered _ => hentered⟩
      intro group hgroup
      exact absurd hgroup List.not_mem_nil
  | cons first groups ih =>
      have hfirst := hresults first List.mem_cons_self
      have hpairs := List.pairwise_cons.mp hdisjoint
      obtain ⟨after, hafter, hentered, hkept⟩ := ih
        (fun group hgroup => hresults group
          (List.mem_cons_of_mem first hgroup)) hpairs.2
        (state.record first.groupIds (results first).1 (results first).2)
      refine ⟨after, ?_, ?_, ?_⟩
      · rw [List.foldlM_cons, lookUp, hfirst]
        exact hafter
      · intro group hgroup
        cases List.mem_cons.mp hgroup with
        | inl hsame =>
            rw [hsame]
            exact hkept _ _ _ (record_entered _ _ _ _) hpairs.1
        | inr hgroup => exact hentered group hgroup
      · intro group rows hitLength hold hout
        exact hkept group rows hitLength
          (hold.record (hout first List.mem_cons_self))
          (fun other hother => hout other (List.mem_cons_of_mem first hother))

theorem attentionGroups_disjoint :
    self.attentionGroups.Pairwise fun group later =>
      ∀ groupId ∈ group.groupIds, groupId ∉ later.groupIds := by
  have hnodup : self.attentionGroups.Nodup := nodup_specs.of_map
  refine hnodup.imp_of_mem ?_
  intro group later hgroup hlater hne groupId hid hid'
  exact hne (specGroup_unique hgroup hlater hid hid')

theorem perGroup_results {groups : List SpecGroup} {state after : HitState}
    (hrun : groups.foldlM (self.lookUp blockPool blockHashes
      maxCacheHitLength) state = .ok after) :
    ∀ group ∈ groups, ∃ result, (self.perGroupQuery blockPool blockHashes
      maxCacheHitLength group).findLongestCacheHit = .ok result := by
  induction groups generalizing state with
  | nil =>
      intro group hgroup
      exact absurd hgroup List.not_mem_nil
  | cons first groups ih =>
      simp only [List.foldlM_cons, bind_eq_ok] at hrun
      obtain ⟨middle, hfirst, hlater⟩ := hrun
      simp only [lookUp, bind_eq_ok] at hfirst
      obtain ⟨result, hresult, -⟩ := hfirst
      intro group hgroup
      cases List.mem_cons.mp hgroup with
      | inl hsame =>
          rw [hsame]
          exact ⟨result, hresult⟩
      | inr hgroup => exact ih hlater group hgroup

/-- The entries of the per-group lookup for one cache group. -/
structure OwnEntry (own : List (List BlockId) × List ℕ) (groupId : ℕ)
    (result : List Row × ℕ) : Prop where
  hit : own.2[groupId]? = some result.2
  blocks : ∃ blocks, own.1[groupId]? = some blocks ∧
    blocks.length = result.1.length

theorem findLongestCacheHitPerGroup_ok
    {results : SpecGroup → List Row × ℕ}
    (hresults : ∀ group ∈ self.attentionGroups,
      (self.perGroupQuery blockPool blockHashes maxCacheHitLength
        group).findLongestCacheHit = .ok (results group)) :
    ∃ own, self.findLongestCacheHitPerGroup blockPool blockHashes
        maxCacheHitLength = .ok own ∧
      ∀ group ∈ self.attentionGroups, ∀ groupId ∈ group.groupIds,
        OwnEntry own groupId (results group) := by
  obtain ⟨after, hafter, hentered, -⟩ := perGroup_run hresults
    attentionGroups_disjoint (HitState.start maxCacheHitLength)
  have hafter' : self.attentionGroups.foldlM (fun state group => do
      let found ← (self.perGroupQuery blockPool blockHashes
        maxCacheHitLength group).findLongestCacheHit
      return state.record group.groupIds found.1 found.2)
        (HitState.start maxCacheHitLength) = .ok after := hafter
  rw [findLongestCacheHitPerGroup, hafter']
  refine ⟨_, rfl, ?_⟩
  intro group hmem groupId hid
  obtain ⟨member, hget, -⟩ := (stands_of_mem hmem).members groupId hid
  obtain ⟨hlt, -⟩ := List.getElem?_eq_some_iff.mp hget
  have hgroup := hentered group hmem
  obtain ⟨position, hposition⟩ := hgroup.blocks groupId hid
  constructor
  · simp [hlt, hgroup.hit groupId hid]
  · refine ⟨column (results group).1 position, ?_, List.length_map _⟩
    simp [hlt, hposition]

end PerGroup

/-- No group's own hit is shorter than the reconciled one, and its list holds
the blocks that cover it. -/
def LookupsAgree (self : HybridCoordinator)
    (blockPool : BlockPool BlockHash) (blockHashes : List BlockHash)
    (maxCacheHitLength : ℕ) : Prop :=
  ∃ reconciled own,
    self.findLongestCacheHit blockPool blockHashes maxCacheHitLength =
      .ok reconciled ∧
    self.findLongestCacheHitPerGroup blockPool blockHashes
      maxCacheHitLength = .ok own ∧
    ∀ (groupId : ℕ) (group : CacheGroup),
      self.kvCacheGroups[groupId]? = some group →
      group.participatesInPrefixCaching = true →
        ∃ (hitLength : ℕ) (blocks : List BlockId),
          own.2[groupId]? = some hitLength ∧
          own.1[groupId]? = some blocks ∧
          reconciled.2.1 ≤ hitLength ∧
          blocks.length =
            cdiv hitLength (self.managerBlockSize group.spec)

/-- The prefix shown to a connector is no shorter than the one that is
computed on. -/
def ConnectorReaches (self : HybridCoordinator)
    (blockPool : BlockPool BlockHash) (request : LookupRequest) : Prop :=
  ∃ computed shown, self.getComputedBlocks blockPool request = .ok computed ∧
    self.getComputedBlocksForConnector blockPool request = .ok shown ∧
    computed.numComputedTokens ≤ shown.1.numComputedTokens

/-- No full-attention group that takes part is spread over context-parallel
ranks. -/
def Unsharded (self : HybridCoordinator) : Prop :=
  self.dcpWorldSize = 1 ∨ ∀ group ∈ self.kvCacheGroups,
    group.participatesInPrefixCaching = true →
      group.spec.isFullAttention = true → group.spec.dcpReplicated = true

section Unsharded

theorem perGroupQuery_eq_own (hunsharded : self.Unsharded)
    {specGroup : SpecGroup} (hmem : specGroup ∈ self.attentionGroups) :
    (self.perGroupQuery blockPool blockHashes maxCacheHitLength
        specGroup).findLongestCacheHit =
      (self.ownQuery blockPool blockHashes maxCacheHitLength
        specGroup).findLongestCacheHit := by
  have hmax : (self.ownQuery blockPool blockHashes maxCacheHitLength
      specGroup).maxLength = maxCacheHitLength := by
    simp only [ownQuery, reconciledQuery]
    split
    · exact Nat.min_eq_right (Nat.le_add_right _ _)
    · rfl
  have hsame : self.ownQuery blockPool blockHashes maxCacheHitLength
      specGroup =
        { self.perGroupQuery blockPool blockHashes maxCacheHitLength
            specGroup with
          dcpWorldSize :=
            if specGroup.spec.isFullAttention then self.dcpWorldSize
            else 1 } := by
    simp only [ownQuery, reconciledQuery, perGroupQuery] at hmax ⊢
    rw [hmax]
  rw [hsame]
  by_cases hkind : specGroup.spec.isFullAttention = true
  · cases hunsharded with
    | inl hsingle =>
        rw [if_pos hkind, hsingle]
        rfl
    | inr hreplicated =>
        obtain ⟨group, hgroup, hparticipates, hspec⟩ := exists_member hmem
        have hreplicated' := hreplicated group hgroup hparticipates
        rw [hspec] at hreplicated'
        have hkind' : specGroup.spec.kind = .fullAttention := by
          simpa [GroupSpec.isFullAttention] using hkind
        have hscaled : ∀ dcpWorldSize,
            specGroup.spec.scaledBlockSize dcpWorldSize =
              specGroup.spec.blockSize := by
          intro dcpWorldSize
          rw [GroupSpec.scaledBlockSize, if_neg]
          exact fun hboth => hboth.2 (hreplicated' hkind)
        simp only [HitQuery.findLongestCacheHit, perGroupQuery, hkind',
          HitQuery.findFullAttention, hscaled]
  · rw [if_neg hkind]
    rfl

theorem lookupsAgree (hself : self.WellFormed)
    (hinput : LookupInput self blockPool blockHashes maxCacheHitLength)
    (hunsharded : self.Unsharded) :
    self.LookupsAgree blockPool blockHashes maxCacheHitLength := by
  have hall : ∀ group ∈ self.attentionGroups, ∃ result : List Row × ℕ,
      (self.ownQuery blockPool blockHashes maxCacheHitLength group).Hit
        result.1 result.2 := by
    intro group hmem
    obtain ⟨rows, hitLength, hhit⟩ := ownQuery_hit hself hinput hmem
    exact ⟨(rows, hitLength), hhit⟩
  choose! results hresults using hall
  obtain ⟨reconciled, hreconciled, hle⟩ :=
    findLongestCacheHit_ok hself hinput
  obtain ⟨own, hown, hentries⟩ := @findLongestCacheHitPerGroup_ok self
    blockPool blockHashes maxCacheHitLength results (by
      intro group hmem
      rw [perGroupQuery_eq_own hunsharded hmem]
      exact (hresults group hmem).result)
  refine ⟨reconciled, own, hreconciled, hown, ?_⟩
  intro groupId group hget hparticipates
  obtain ⟨specGroup, hmem, hid, hspec⟩ := exists_specGroup hget hparticipates
  have hentry := hentries specGroup hmem groupId hid
  obtain ⟨blocks, hblocks, hlength⟩ := hentry.blocks
  have hhit := hresults specGroup hmem
  refine ⟨_, blocks, hentry.hit, hblocks, hle specGroup hmem _ _ hhit, ?_⟩
  rw [hlength, hhit.blocks, ← hspec]
  exact congrArg _ (blockSize_reconciledQuery hself hmem)

theorem fullAttentionGroupId_spec {fullId : ℕ}
    (hfull : self.fullAttentionGroupId = some fullId) :
    ∃ group, self.kvCacheGroups[fullId]? = some group ∧
      group.participatesInPrefixCaching = true := by
  rw [fullAttentionGroupId] at hfull
  obtain ⟨first, hfirst, hhead⟩ := Option.bind_eq_some_iff.mp hfull
  split at hhead
  · obtain ⟨group, hget, hparticipates, -⟩ :=
      (stands_of_mem (List.mem_of_mem_head? hfirst)).members fullId
        (List.mem_of_mem_head? hhead)
    exact ⟨group, hget, hparticipates⟩
  · cases hhead

theorem connectorReaches (hself : self.WellFormed)
    {request : LookupRequest}
    (hinput : LookupInput self blockPool request.blockHashes
      (request.numTokens - 1))
    (hunsharded : self.Unsharded) :
    self.ConnectorReaches blockPool request := by
  obtain ⟨reconciled, own, hreconciled, hown, hagree⟩ :=
    lookupsAgree hself hinput hunsharded
  have hcomputed : ∃ computed,
      self.getComputedBlocks blockPool request = .ok computed ∧
        computed.numComputedTokens ≤ reconciled.2.1 := by
    rw [getComputedBlocks]
    split
    · exact ⟨_, rfl, Nat.zero_le _⟩
    · rw [hreconciled]
      exact ⟨_, rfl, Nat.le_refl _⟩
  obtain ⟨computed, hcomputed, hle⟩ := hcomputed
  refine ⟨computed, ?_⟩
  rw [getComputedBlocksForConnector, hcomputed]
  cases hfull : self.fullAttentionGroupId with
  | none => exact ⟨_, rfl, rfl, Nat.le_refl _⟩
  | some fullId =>
      dsimp only
      split
      · exact ⟨_, rfl, rfl, Nat.le_refl _⟩
      · split
        · rename_i hskip
          refine ⟨_, rfl, rfl, ?_⟩
          rw [getComputedBlocks, if_pos hskip] at hcomputed
          cases hcomputed
          exact Nat.le_refl _
        · rw [hown]
          dsimp only [bind, Except.bind]
          split
          · exact ⟨_, rfl, rfl, Nat.le_refl _⟩
          · refine ⟨_, rfl, rfl, hle.trans ?_⟩
            obtain ⟨group, hget, hparticipates⟩ :=
              fullAttentionGroupId_spec hfull
            obtain ⟨hitLength, _, hhit, -, hreach, -⟩ :=
              hagree fullId group hget hparticipates
            rw [List.getD_eq_getElem?_getD, hhit]
            exact hreach

end Unsharded

section Sharded

/-- A pool in which the hashes of a request are cached for every group. -/
def warmPool (self : HybridCoordinator) (blockHashes : List BlockHash) :
    BlockPool BlockHash :=
  { BlockPool.init 2 true self.hashBlockSize with
    cachedBlockHashToBlock := fun key =>
      if key.blockHash ∈ blockHashes ∧
          key.groupId < self.kvCacheGroups.length then [1]
      else [] }

theorem getCachedBlock_warmPool {blockHash : BlockHash}
    (hhash : blockHash ∈ blockHashes) {groupIds : List ℕ}
    (hids : ∀ groupId ∈ groupIds, groupId < self.kvCacheGroups.length) :
    ((self.warmPool blockHashes).getCachedBlock blockHash
      groupIds).isSome = true := by
  have hrow : (self.warmPool blockHashes).getCachedBlock blockHash
      groupIds = some (groupIds.map fun _ => 1) := by
    induction groupIds with
    | nil => rfl
    | cons groupId groupIds ih =>
        have hlater := ih fun later hlater =>
          hids later (List.mem_cons_of_mem groupId hlater)
        simp only [BlockPool.getCachedBlock] at hlater ⊢
        rw [List.mapM_cons, hlater]
        simp [warmPool, hhash, hids groupId List.mem_cons_self]
  rw [hrow]
  rfl

theorem length_cachedRun_of_cached {groupIds : List ℕ}
    {hashes : List BlockHash}
    (hcached : ∀ blockHash ∈ hashes,
      (blockPool.getCachedBlock blockHash groupIds).isSome = true) :
    (cachedRun blockPool groupIds hashes).length = hashes.length := by
  induction hashes with
  | nil => rfl
  | cons blockHash later ih =>
      have hfirst := hcached blockHash List.mem_cons_self
      have hlater := ih fun later hlater =>
        hcached later (List.mem_cons_of_mem blockHash hlater)
      rw [cachedRun]
      split
      · rename_i hnone
        rw [hnone] at hfirst
        cases hfirst
      · rw [List.length_cons, hlater, List.length_cons]

theorem mem_of_mem_blockEndHashes {query : HitQuery} {blockHash : BlockHash}
    (hmem : blockHash ∈ query.blockEndHashes) :
    blockHash ∈ query.blockHashes := by
  rw [HitQuery.blockEndHashes] at hmem
  split at hmem
  · exact hmem
  · split at hmem
    · rename_i view hview
      rw [groupView] at hview
      split at hview
      · cases hview
        obtain ⟨index, -, hget⟩ := List.mem_filterMap.mp hmem
        exact List.mem_of_getElem? hget
      · cases hview
    · exact absurd hmem List.not_mem_nil

theorem lt_lowered {query : HitQuery} (hpos : 0 < query.alignmentTokens)
    {bound raw : ℕ} (halign : query.alignmentTokens ≤ bound)
    (hraw : 3 * bound ≤ raw) : bound < query.lowered raw := by
  have hmod : ∀ count, count % query.alignmentTokens <
      query.alignmentTokens := fun count => Nat.mod_lt _ hpos
  have hmin := Nat.min_le_left query.alignmentTokens query.blockSize
  simp only [HitQuery.lowered]
  split
  · have hlast := hmod
      (raw - min query.alignmentTokens query.blockSize)
    omega
  · have hlast := hmod raw
    omega

theorem wholeBlocks_mul_le_rawHit {query : HitQuery}
    (hquery : query.Supported) {tail : Option (ℕ × Row)}
    (hhit : query.FullHit tail) :
    query.wholeBlocks * query.blockSize ≤ query.rawHit tail := by
  by_cases hfine : query.FineGrained
  · rw [HitQuery.reach_le_rawHit hquery hfine (hhit.fine hfine)]
    exact Nat.le_max_left _ _
  · rw [hhit.coarse hfine]
    exact Nat.le_refl _

/-- The pool and the request of the search below. -/
def longHashes (self : HybridCoordinator) : List BlockHash :=
  List.replicate (3 * self.schedulerBlockSize / self.hashBlockSize) []

theorem scaledBlockSize_one (spec : GroupSpec) :
    spec.scaledBlockSize 1 = spec.blockSize :=
  if_neg fun hboth => Nat.lt_irrefl 1 hboth.1

section Unscaled

variable {specGroup : SpecGroup}
  (hself : self.WellFormed) (hmem : specGroup ∈ self.attentionGroups)
  (hkind : specGroup.spec.kind = .fullAttention)
  (hreplicated : specGroup.spec.dcpReplicated = false)
  (hdcp : 1 < self.dcpWorldSize)

include hkind hreplicated hdcp in
theorem managerBlockSize_sharded :
    self.managerBlockSize specGroup.spec =
      specGroup.spec.blockSize * self.dcpWorldSize := by
  rw [managerBlockSize, if_neg (by simp [GroupSpec.isMamba, hkind]),
    GroupSpec.scaledBlockSize, if_pos ⟨hdcp, by simp [hreplicated]⟩]

include hself hmem hkind hreplicated hdcp in
/-- A search at the unscaled block size that returns is a supported one. -/
theorem perGroupQuery_supported {result : List Row × ℕ}
    (hpool : blockPool.hashBlockSize = self.hashBlockSize)
    (hhashes : maxCacheHitLength / self.hashBlockSize ≤ blockHashes.length)
    (hresult : (self.perGroupQuery blockPool blockHashes maxCacheHitLength
      specGroup).findLongestCacheHit = .ok result) :
    (self.perGroupQuery blockPool blockHashes maxCacheHitLength
      specGroup).Supported := by
  obtain ⟨group, hgroup, hparticipates, hspec⟩ := exists_member hmem
  have hmanager := hself.manager_dvd group hgroup hparticipates
  have hblock_pos := hself.block_pos group hgroup hparticipates
  rw [hspec] at hmanager hblock_pos
  rw [managerBlockSize_sharded hkind hreplicated hdcp] at hmanager
  have hscheduler : specGroup.spec.blockSize ∣ self.schedulerBlockSize :=
    (Nat.dvd_mul_right _ _).trans hmanager
  have hfull : specGroup.spec.isFullAttention = true := by
    simp [GroupSpec.isFullAttention, hkind]
  have hblock : (self.perGroupQuery blockPool blockHashes maxCacheHitLength
      specGroup).blockSize = specGroup.spec.blockSize := by
    change (if specGroup.spec.isFullAttention = true then
      specGroup.spec.scaledBlockSize 1 else _) = _
    rw [if_pos hfull, scaledBlockSize_one]
  have hdvd : self.hashBlockSize ∣ specGroup.spec.blockSize := by
    rw [HitQuery.findLongestCacheHit_fullAttention hkind] at hresult
    simp only [HitQuery.findFullAttention, bind_eq_ok] at hresult
    obtain ⟨hashes, hresolved, -⟩ := hresult
    change resolveBlockHashes blockHashes blockPool.hashBlockSize
      (specGroup.spec.scaledBlockSize 1) true
        self.cacheHitAlignmentTokens = _ at hresolved
    rw [scaledBlockSize_one, hpool, resolveBlockHashes] at hresolved
    split at hresolved
    · rename_i hsame
      rw [hsame]
    · split at hresolved
      · rename_i hfine
        rw [cacheHitAlignmentTokens] at hfine
        split at hfine
        · exact Nat.dvd_of_mod_eq_zero hfine.2.2
        · have hle := Nat.le_of_dvd hself.scheduler_pos hscheduler
          omega
      · rw [groupView] at hresolved
        split at hresolved
        · rename_i hview
          split at hview
          · rename_i hmod
            exact Nat.dvd_of_mod_eq_zero hmod
          · cases hview
        · cases hresolved
  refine ⟨?_, ?_, alignment_pos hself, ?_, ?_, ?_, ?_, ?_, ?_⟩
  · change 0 < blockPool.hashBlockSize
    rw [hpool]
    exact hself.hash_pos
  · rw [hblock]
    exact hblock_pos
  · rw [hblock]
    change blockPool.hashBlockSize ∣ _
    rw [hpool]
    exact hdvd
  · rw [hblock]
    change self.cacheHitAlignmentTokens = blockPool.hashBlockSize ∨
      _ ∣ self.cacheHitAlignmentTokens
    rw [hpool, cacheHitAlignmentTokens]
    split
    · exact .inl rfl
    · exact .inr hscheduler
  · change _ / blockPool.hashBlockSize ≤ blockHashes.length
    rw [hpool]
    exact hhashes
  · exact fun _ => rfl
  · intro hcoarse
    change specGroup.spec.supportsFineGrained = false at hcoarse
    rw [GroupSpec.supportsFineGrained, hfull] at hcoarse
    cases hcoarse
  · intro chunkSize hchunked
    change specGroup.spec.kind = _ at hchunked
    rw [hkind] at hchunked
    cases hchunked

include hself hmem hkind hreplicated hdcp in
/-- On a warm pool the rows of such a search are too many for its hit. -/
theorem perGroupQuery_overlong {result : List Row × ℕ}
    (hresult : (self.perGroupQuery (self.warmPool self.longHashes)
      self.longHashes (3 * self.schedulerBlockSize)
        specGroup).findLongestCacheHit = .ok result) :
    cdiv result.2 (self.managerBlockSize specGroup.spec) <
      result.1.length := by
  have hquery := perGroupQuery_supported hself hmem hkind hreplicated hdcp
    rfl (by rw [longHashes, List.length_replicate]) hresult
  obtain ⟨group, hgroup, hparticipates, hspec⟩ := exists_member hmem
  have hmanager := hself.manager_dvd group hgroup hparticipates
  rw [hspec, managerBlockSize_sharded hkind hreplicated hdcp] at hmanager
  have hle := Nat.le_of_dvd hself.scheduler_pos hmanager
  have hfull : specGroup.spec.isFullAttention = true := by
    simp [GroupSpec.isFullAttention, hkind]
  rw [managerBlockSize_sharded hkind hreplicated hdcp]
  let query := self.perGroupQuery (self.warmPool self.longHashes)
    self.longHashes (3 * self.schedulerBlockSize) specGroup
  have hblock : query.blockSize = specGroup.spec.blockSize := by
    change (if specGroup.spec.isFullAttention = true then
      specGroup.spec.scaledBlockSize 1 else _) = _
    rw [if_pos hfull, scaledBlockSize_one]
  have hids : ∀ groupId ∈ specGroup.groupIds,
      groupId < self.kvCacheGroups.length := by
    intro groupId hid
    obtain ⟨member, hget, -⟩ := (stands_of_mem hmem).members groupId hid
    exact (List.getElem?_eq_some_iff.mp hget).1
  have hrun : (cachedRun query.blockPool query.kvCacheGroupIds
      query.blockEndHashes).length = query.blockEndHashes.length :=
    length_cachedRun_of_cached fun blockHash hhash =>
      getCachedBlock_warmPool (mem_of_mem_blockEndHashes hhash) hids
  have hwhole : query.wholeBlocks * query.blockSize =
      3 * self.schedulerBlockSize := by
    rw [HitQuery.wholeBlocks, hrun,
      Nat.min_eq_left (HitQuery.length_blockEndHashes hquery)]
    apply Nat.div_mul_cancel
    rw [hblock]
    exact (Nat.dvd_mul_right _ _).trans
      (hmanager.trans (Nat.dvd_mul_left _ _))
  obtain ⟨tail, hhit⟩ := HitQuery.findFullAttention_ok hquery hfull
  have hrows : (query.fullRows tail).length =
      cdiv (query.lowered (query.rawHit tail)) query.blockSize := by
    apply HitQuery.length_fullRows hquery
    intro found hfound
    have hfine : query.FineGrained := by
      by_contra hcoarse
      rw [hhit.coarse hcoarse] at hfound
      cases hfound
    exact ⟨hfine, hhit.fine hfine⟩
  have halign : query.alignmentTokens ≤ self.schedulerBlockSize := by
    change self.cacheHitAlignmentTokens ≤ _
    rw [cacheHitAlignmentTokens]
    split
    · exact Nat.le_of_dvd hself.scheduler_pos hself.hash_dvd_scheduler
    · exact Nat.le_refl _
  have hlong : self.schedulerBlockSize <
      query.lowered (query.rawHit tail) :=
    lt_lowered hquery.alignment_pos halign
      (hwhole.symm.le.trans (wholeBlocks_mul_le_rawHit hquery hhit))
  rw [HitQuery.findLongestCacheHit_fullAttention hkind, hhit.result]
    at hresult
  cases hresult
  change cdiv (query.lowered (query.rawHit tail)) _ <
    (query.fullRows tail).length
  rw [hrows, hblock]
  exact cdiv_mul_lt (hblock ▸ hquery.block_pos) hdcp (hle.trans_lt hlong)

end Unscaled

theorem sharded_disagree (hself : self.WellFormed)
    (hsharded : ¬self.Unsharded) :
    ¬self.LookupsAgree (self.warmPool self.longHashes) self.longHashes
      (3 * self.schedulerBlockSize) := by
  simp only [Unsharded, not_or, not_forall] at hsharded
  obtain ⟨hdcp, group, hgroup, hparticipates, hfull, hreplicated⟩ := hsharded
  have hdcp' : 1 < self.dcpWorldSize := by
    have hpos := hself.dcp_pos
    omega
  obtain ⟨groupId, hget⟩ := List.mem_iff_getElem?.mp hgroup
  obtain ⟨specGroup, hmem, hid, hspec⟩ := exists_specGroup hget hparticipates
  have hkind : specGroup.spec.kind = .fullAttention := by
    rw [hspec]
    simpa [GroupSpec.isFullAttention] using hfull
  have hreplicated' : specGroup.spec.dcpReplicated = false := by
    rw [hspec]
    exact Bool.eq_false_of_not_eq_true hreplicated
  rintro ⟨reconciled, own, -, hown, hagree⟩
  have hfold := hown
  simp only [findLongestCacheHitPerGroup, bind_eq_ok] at hfold
  obtain ⟨after, hafter, -⟩ := hfold
  have hall := perGroup_results hafter
  choose! results hresults using hall
  obtain ⟨own', hown', hentries⟩ := findLongestCacheHitPerGroup_ok hresults
  have hentry := hentries specGroup hmem groupId hid
  rw [Except.ok.inj (hown'.symm.trans hown)] at hentry
  obtain ⟨blocks, hblocks, hlength⟩ := hentry.blocks
  obtain ⟨hitLength, blocks', hhit, hblocks', -, hcount⟩ :=
    hagree groupId group hget hparticipates
  have hlong := perGroupQuery_overlong hself hmem hkind hreplicated' hdcp'
    (hresults specGroup hmem)
  rw [Option.some.inj (hblocks'.symm.trans hblocks), hlength,
    Option.some.inj (hhit.symm.trans hentry.hit), ← hspec] at hcount
  rw [hcount] at hlong
  exact Nat.lt_irrefl _ hlong

end Sharded

/-- The per-group lookup agrees with the reconciled one on every pool and
request exactly when no full-attention group is sharded. -/
theorem lookups_agree_iff (hself : self.WellFormed) :
    (∀ (blockPool : BlockPool BlockHash) (request : LookupRequest),
      LookupInput self blockPool request.blockHashes
          (request.numTokens - 1) →
        self.LookupsAgree blockPool request.blockHashes
            (request.numTokens - 1) ∧
          self.ConnectorReaches blockPool request) ↔
      self.Unsharded := by
  constructor
  · intro hall
    by_contra hsharded
    apply sharded_disagree hself hsharded
    exact (hall (self.warmPool self.longHashes)
      ⟨3 * self.schedulerBlockSize + 1, self.longHashes, false⟩
      ⟨rfl, by simp [longHashes]⟩).1
  · intro hunsharded blockPool request hinput
    exact ⟨lookupsAgree hself hinput hunsharded,
      connectorReaches hself hinput hunsharded⟩

/-- A full-attention group of block size 16 beside a Mamba group of block
size 32, with hashes of 16 tokens. -/
def mixedCoordinator (dcpWorldSize : ℕ) : HybridCoordinator where
  kvCacheGroups := [
    ⟨⟨.fullAttention, 16, false, 0⟩, true, false⟩,
    ⟨⟨.mamba, 32, false, 0⟩, true, false⟩]
  dcpWorldSize := dcpWorldSize
  schedulerBlockSize := 32
  hashBlockSize := 16
  enablePartialHashHits := true

/-- One block of each group, under the hash of the first 32 tokens. -/
def mixedPool : BlockPool BlockHash :=
  { BlockPool.init 3 true 16 with
    cachedBlockHashToBlock := fun key =>
      if key = ⟨[2], 0⟩ then [1] else if key = ⟨[2], 1⟩ then [2] else [] }

theorem mixedCoordinator_wellFormed {dcpWorldSize : ℕ}
    (hpos : 0 < dcpWorldSize) (hle : dcpWorldSize ≤ 2) :
    (mixedCoordinator dcpWorldSize).WellFormed := by
  have hcases : dcpWorldSize = 1 ∨ dcpWorldSize = 2 := by omega
  rcases hcases with rfl | rfl
  all_goals
    refine ⟨by decide, by decide, by decide, by decide, by decide, by decide,
      by decide, by decide, by decide, ?_⟩
    simp [mixedCoordinator]

/-- Both blocks of the full-attention group and the state after them. -/
def mixedWarmPool : BlockPool BlockHash :=
  { BlockPool.init 4 true 16 with
    cachedBlockHashToBlock := fun key =>
      if key = ⟨[1], 0⟩ then [1] else if key = ⟨[2], 0⟩ then [2]
      else if key = ⟨[2], 1⟩ then [3] else [] }

theorem lookups_agree_single :
    (mixedCoordinator 1).findLongestCacheHit mixedWarmPool [[1], [2]] 32 =
        .ok ([[1, 2], [3]], 32, 0) ∧
      (mixedCoordinator 1).LookupsAgree mixedWarmPool [[1], [2]] 32 ∧
      (mixedCoordinator 1).ConnectorReaches mixedWarmPool
        ⟨33, [[1], [2]], false⟩ :=
  ⟨rfl, (lookups_agree_iff
    (mixedCoordinator_wellFormed (by decide) (by decide))).mpr (.inl rfl)
      mixedWarmPool ⟨33, [[1], [2]], false⟩ ⟨rfl, by decide⟩⟩

/-- Over two ranks the group's block of 32 tokens is searched for under the
hash of its first 16. -/
theorem lookups_disagree_sharded :
    (mixedCoordinator 2).WellFormed ∧
      LookupInput (mixedCoordinator 2) mixedPool [[1], [2]] 32 ∧
      ¬(mixedCoordinator 2).LookupsAgree mixedPool [[1], [2]] 32 := by
  refine ⟨mixedCoordinator_wellFormed (by decide) (by decide),
    ⟨rfl, by decide⟩, ?_⟩
  rintro ⟨reconciled, own, hreconciled, hown, hagree⟩
  have hreconciled' : (mixedCoordinator 2).findLongestCacheHit mixedPool
      [[1], [2]] 32 = .ok ([[1], [2]], 32, 0) := rfl
  have hown' : (mixedCoordinator 2).findLongestCacheHitPerGroup mixedPool
      [[1], [2]] 32 = .ok ([[], [2]], [0, 32]) := rfl
  obtain ⟨hitLength, _, hhit, -, hle, -⟩ := hagree 0 _ rfl rfl
  rw [← Except.ok.inj (hown'.symm.trans hown)] at hhit
  rw [← Except.ok.inj (hreconciled'.symm.trans hreconciled)] at hle
  cases hhit
  exact absurd hle (by decide)

end HybridCoordinator

end GlmFlash.Cache
