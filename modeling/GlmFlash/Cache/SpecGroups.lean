import GlmFlash.Cache.HitLookup
import GlmFlash.Cache.HitBounds
import Mathlib.Data.List.Nodup

/-!
# The groups of a hybrid coordinator

Cache groups that share a spec are searched together.  Every participating
group belongs to exactly one such group of specs, and on a configuration that
the constructor accepts each of them asks its finder a supported query.
-/

namespace GlmFlash.Cache

open GlmFlash.Library

/-- The members of a group of specs are cache groups with its spec, and it is
an EAGLE group only if one of them is. -/
structure SpecGroup.Stands (cacheGroups : List CacheGroup)
    (specGroup : SpecGroup) : Prop where
  nonempty : specGroup.groupIds ≠ []
  members : ∀ groupId ∈ specGroup.groupIds, ∃ group,
    cacheGroups[groupId]? = some group ∧
      group.participatesInPrefixCaching = true ∧
        group.spec = specGroup.spec
  eagle : specGroup.useEagle = true → ∃ groupId ∈ specGroup.groupIds,
    ∃ group, cacheGroups[groupId]? = some group ∧ group.isEagle = true

section Grouping

variable {cacheGroups : List CacheGroup} {groupId : ℕ} {group : CacheGroup}

theorem stands_single (hget : cacheGroups[groupId]? = some group)
    (hparticipates : group.participatesInPrefixCaching = true) :
    SpecGroup.Stands cacheGroups ⟨group.spec, [groupId], group.isEagle⟩ where
  nonempty := List.cons_ne_nil _ _
  members := by
    intro memberId hmember
    rw [List.mem_singleton.mp hmember]
    exact ⟨group, hget, hparticipates, rfl⟩
  eagle heagle := ⟨groupId, List.mem_singleton_self _, group, hget, heagle⟩

theorem SpecGroup.Stands.join {specGroup : SpecGroup}
    (hstands : specGroup.Stands cacheGroups)
    (hget : cacheGroups[groupId]? = some group)
    (hparticipates : group.participatesInPrefixCaching = true)
    (hspec : specGroup.spec = group.spec) :
    SpecGroup.Stands cacheGroups
      { specGroup with
        groupIds := specGroup.groupIds ++ [groupId]
        useEagle := specGroup.useEagle || group.isEagle } where
  nonempty := by simp
  members := by
    intro memberId hmember
    cases List.mem_append.mp hmember with
    | inl hold => exact hstands.members memberId hold
    | inr hnew =>
        rw [List.mem_singleton.mp hnew]
        exact ⟨group, hget, hparticipates, hspec.symm⟩
  eagle := by
    intro heagle
    cases Bool.or_eq_true_iff.mp heagle with
    | inl hold =>
        obtain ⟨memberId, hmember, hentry⟩ := hstands.eagle hold
        exact ⟨memberId, List.mem_append_left _ hmember, hentry⟩
    | inr hnew => exact ⟨groupId, by simp, group, hget, hnew⟩

theorem addToSpecGroups_stands (hget : cacheGroups[groupId]? = some group)
    (hparticipates : group.participatesInPrefixCaching = true)
    {specGroups : List SpecGroup}
    (hstands : ∀ specGroup ∈ specGroups, specGroup.Stands cacheGroups) :
    ∀ specGroup ∈ addToSpecGroups groupId group specGroups,
      specGroup.Stands cacheGroups := by
  induction specGroups with
  | nil =>
      intro specGroup hmem
      rw [addToSpecGroups] at hmem
      rw [List.mem_singleton.mp hmem]
      exact stands_single hget hparticipates
  | cons first specGroups ih =>
      have hfirst := hstands first List.mem_cons_self
      have hlater := fun specGroup hmem =>
        hstands specGroup (List.mem_cons_of_mem first hmem)
      intro specGroup hmem
      rw [addToSpecGroups] at hmem
      split at hmem
      · rename_i hspec
        cases List.mem_cons.mp hmem with
        | inl hsame =>
            rw [hsame]
            exact hfirst.join hget hparticipates hspec
        | inr hmem => exact hlater specGroup hmem
      · cases List.mem_cons.mp hmem with
        | inl hsame =>
            rw [hsame]
            exact hfirst
        | inr hmem => exact ih hlater specGroup hmem

/-- The ids that some group of specs holds. -/
def Lists (specGroups : List SpecGroup) (groupId : ℕ) : Prop :=
  ∃ specGroup ∈ specGroups, groupId ∈ specGroup.groupIds

theorem lists_cons {first : SpecGroup} {specGroups : List SpecGroup}
    {memberId : ℕ} :
    Lists (first :: specGroups) memberId ↔
      memberId ∈ first.groupIds ∨ Lists specGroups memberId := by
  simp [Lists]

theorem lists_addToSpecGroups (specGroups : List SpecGroup)
    {memberId : ℕ} :
    Lists (addToSpecGroups groupId group specGroups) memberId ↔
      memberId = groupId ∨ Lists specGroups memberId := by
  induction specGroups with
  | nil => simp [addToSpecGroups, Lists]
  | cons first specGroups ih =>
      rw [addToSpecGroups]
      split
      · simp only [lists_cons, List.mem_append, List.mem_singleton]
        tauto
      · rw [lists_cons, lists_cons, ih]
        tauto

theorem specs_addToSpecGroups (specGroups : List SpecGroup) :
    (addToSpecGroups groupId group specGroups).map (·.spec) =
      if group.spec ∈ specGroups.map (·.spec) then
        specGroups.map (·.spec)
      else specGroups.map (·.spec) ++ [group.spec] := by
  induction specGroups with
  | nil => simp [addToSpecGroups]
  | cons first specGroups ih =>
      rw [addToSpecGroups]
      split
      · rename_i hspec
        simp [hspec]
      · rename_i hspec
        rw [List.map_cons, ih, List.map_cons]
        by_cases hlater : group.spec ∈ specGroups.map (·.spec)
        · rw [if_pos hlater, if_pos (List.mem_cons_of_mem _ hlater)]
        · rw [if_neg hlater, if_neg, List.cons_append]
          intro hmem
          cases List.mem_cons.mp hmem with
          | inl hsame => exact hspec hsame.symm
          | inr hmem => exact hlater hmem

theorem nodup_addToSpecGroups {specGroups : List SpecGroup}
    (hnodup : (specGroups.map (·.spec)).Nodup) :
    ((addToSpecGroups groupId group specGroups).map (·.spec)).Nodup := by
  rw [specs_addToSpecGroups]
  split
  · exact hnodup
  · rename_i hnew
    rw [← List.concat_eq_append]
    exact hnodup.concat hnew

end Grouping

namespace HybridCoordinator

variable {self : HybridCoordinator}

/-- The loop of `verify_and_split_kv_cache_groups`, from any groups found so
far. -/
theorem specGroups_run {entries : List (CacheGroup × ℕ)}
    (hentries : ∀ entry ∈ entries,
      self.kvCacheGroups[entry.2]? = some entry.1)
    {specGroups : List SpecGroup}
    (hstands : ∀ specGroup ∈ specGroups,
      specGroup.Stands self.kvCacheGroups)
    (hnodup : (specGroups.map (·.spec)).Nodup) :
    let found := entries.foldl
      (fun specGroups entry =>
        if entry.1.participatesInPrefixCaching then
          addToSpecGroups entry.2 entry.1 specGroups
        else specGroups) specGroups
    (∀ specGroup ∈ found, specGroup.Stands self.kvCacheGroups) ∧
      (found.map (·.spec)).Nodup ∧
      ∀ memberId, Lists specGroups memberId ∨
        (∃ entry ∈ entries, entry.2 = memberId ∧
          entry.1.participatesInPrefixCaching = true) →
        Lists found memberId := by
  induction entries generalizing specGroups with
  | nil =>
      refine ⟨hstands, hnodup, ?_⟩
      intro memberId hmember
      simpa using hmember
  | cons entry entries ih =>
      have hentry := hentries entry List.mem_cons_self
      have hlater := fun entry' hmem =>
        hentries entry' (List.mem_cons_of_mem entry hmem)
      simp only [List.foldl_cons]
      split
      · rename_i hparticipates
        have hnext := ih hlater
          (addToSpecGroups_stands hentry hparticipates hstands)
          (nodup_addToSpecGroups hnodup)
        refine ⟨hnext.1, hnext.2.1, ?_⟩
        intro memberId hmember
        apply hnext.2.2
        rw [lists_addToSpecGroups]
        simp only [List.mem_cons, exists_eq_or_imp] at hmember
        rcases hmember with hold | ⟨hsame, -⟩ | hmem
        · exact .inl (.inr hold)
        · exact .inl (.inl hsame.symm)
        · exact .inr hmem
      · rename_i hopted
        have hnext := ih hlater hstands hnodup
        refine ⟨hnext.1, hnext.2.1, ?_⟩
        intro memberId hmember
        apply hnext.2.2
        simp only [List.mem_cons, exists_eq_or_imp] at hmember
        rcases hmember with hold | ⟨-, hparticipates⟩ | hmem
        · exact .inl hold
        · exact absurd hparticipates hopted
        · exact .inr hmem

theorem specGroups_spec :
    (∀ specGroup ∈ self.specGroups,
        specGroup.Stands self.kvCacheGroups) ∧
      (self.specGroups.map (·.spec)).Nodup ∧
      ∀ groupId group, self.kvCacheGroups[groupId]? = some group →
        group.participatesInPrefixCaching = true →
          Lists self.specGroups groupId := by
  have hrun := @specGroups_run self self.kvCacheGroups.zipIdx (by
      intro entry hmem
      exact List.mem_zipIdx_iff_getElem?.mp hmem) []
    (by simp) List.nodup_nil
  refine ⟨hrun.1, hrun.2.1, ?_⟩
  intro groupId group hget hparticipates
  exact hrun.2.2 groupId (.inr ⟨(group, groupId),
    List.mem_zipIdx_iff_getElem?.mpr hget, rfl, hparticipates⟩)

theorem attentionGroups_perm :
    self.attentionGroups.Perm self.specGroups :=
  List.filter_append_perm _ _

theorem stands_of_mem {specGroup : SpecGroup}
    (hmem : specGroup ∈ self.attentionGroups) :
    specGroup.Stands self.kvCacheGroups :=
  specGroups_spec.1 specGroup (attentionGroups_perm.mem_iff.mp hmem)

theorem nodup_specs : (self.attentionGroups.map (·.spec)).Nodup :=
  (attentionGroups_perm.map _).nodup_iff.mpr specGroups_spec.2.1

/-- A participating group belongs to a group of its spec. -/
theorem exists_specGroup {groupId : ℕ} {group : CacheGroup}
    (hget : self.kvCacheGroups[groupId]? = some group)
    (hparticipates : group.participatesInPrefixCaching = true) :
    ∃ specGroup ∈ self.attentionGroups,
      groupId ∈ specGroup.groupIds ∧ specGroup.spec = group.spec := by
  obtain ⟨specGroup, hmem, hid⟩ :=
    specGroups_spec.2.2 groupId group hget hparticipates
  refine ⟨specGroup, attentionGroups_perm.mem_iff.mpr hmem, hid, ?_⟩
  obtain ⟨group', hget', -, hspec⟩ :=
    (specGroups_spec.1 specGroup hmem).members groupId hid
  rw [← hspec, Option.some.inj (hget.symm.trans hget')]

/-- A cache group belongs to one group of specs only. -/
theorem specGroup_unique {specGroup specGroup' : SpecGroup}
    (hmem : specGroup ∈ self.attentionGroups)
    (hmem' : specGroup' ∈ self.attentionGroups) {groupId : ℕ}
    (hid : groupId ∈ specGroup.groupIds)
    (hid' : groupId ∈ specGroup'.groupIds) : specGroup = specGroup' := by
  obtain ⟨group, hget, -, hspec⟩ :=
    (stands_of_mem hmem).members groupId hid
  obtain ⟨group', hget', -, hspec'⟩ :=
    (stands_of_mem hmem').members groupId hid'
  apply List.inj_on_of_nodup_map nodup_specs hmem hmem'
  rw [← hspec, ← hspec', Option.some.inj (hget.symm.trans hget')]

/-- What the constructor asserts, what `resolve_kv_cache_block_sizes` checks
for the block sizes, and what the finder of chunked local attention asserts
about its groups. -/
structure WellFormed (coordinator : HybridCoordinator) : Prop where
  dcp_pos : 0 < coordinator.dcpWorldSize
  hash_pos : 0 < coordinator.hashBlockSize
  scheduler_pos : 0 < coordinator.schedulerBlockSize
  block_pos : ∀ group ∈ coordinator.kvCacheGroups,
    group.participatesInPrefixCaching = true → 0 < group.spec.blockSize
  hash_dvd_scheduler : coordinator.hashBlockSize ∣ coordinator.schedulerBlockSize
  manager_dvd : ∀ group ∈ coordinator.kvCacheGroups,
    group.participatesInPrefixCaching = true →
      coordinator.managerBlockSize group.spec ∣ coordinator.schedulerBlockSize
  hash_dvd : ∀ group ∈ coordinator.kvCacheGroups,
    group.participatesInPrefixCaching = true →
      coordinator.hashBlockSize ∣ coordinator.managerBlockSize group.spec
  partialHits : coordinator.enablePartialHashHits = true →
    ∀ group ∈ coordinator.kvCacheGroups,
      group.participatesInPrefixCaching = true →
        group.spec.supportsFineGrained = true ∨
          coordinator.managerBlockSize group.spec = coordinator.hashBlockSize
  sharded : 1 < coordinator.dcpWorldSize → ∀ group ∈ coordinator.kvCacheGroups,
    group.participatesInPrefixCaching = true →
      group.spec.supportsFineGrained = true ∨ group.spec.dcpReplicated = true
  chunked : ∀ group ∈ coordinator.kvCacheGroups,
    group.participatesInPrefixCaching = true → ∀ chunkSize,
      group.spec.kind = .chunkedLocal chunkSize →
        group.isEagle = false ∧
          coordinator.managerBlockSize group.spec = coordinator.cacheHitAlignmentTokens

section Supported

variable {specGroup : SpecGroup}

theorem exists_member (hmem : specGroup ∈ self.attentionGroups) :
    ∃ group ∈ self.kvCacheGroups,
      group.participatesInPrefixCaching = true ∧
        group.spec = specGroup.spec := by
  have hstands := stands_of_mem hmem
  cases hids : specGroup.groupIds with
  | nil => exact absurd hids hstands.nonempty
  | cons groupId later =>
      obtain ⟨group, hget, hparticipates, hspec⟩ :=
        hstands.members groupId (by rw [hids]; exact List.mem_cons_self)
      exact ⟨group, List.mem_of_getElem? hget, hparticipates, hspec⟩

theorem blockSize_le_manager (hself : self.WellFormed) (spec : GroupSpec) :
    spec.blockSize ≤ self.managerBlockSize spec := by
  have hle : spec.blockSize ≤ spec.blockSize * self.dcpWorldSize :=
    Nat.le_mul_of_pos_right _ hself.dcp_pos
  rw [managerBlockSize, GroupSpec.scaledBlockSize]
  split
  · exact Nat.le_refl _
  · split
    · exact hle
    · exact Nat.le_refl _

theorem manager_pos (hself : self.WellFormed)
    (hmem : specGroup ∈ self.attentionGroups) :
    0 < self.managerBlockSize specGroup.spec := by
  obtain ⟨group, hgroup, hparticipates, hspec⟩ := exists_member hmem
  have hpos := hself.block_pos group hgroup hparticipates
  rw [hspec] at hpos
  exact hpos.trans_le (blockSize_le_manager hself _)

theorem alignment_pos (hself : self.WellFormed) :
    0 < self.cacheHitAlignmentTokens := by
  rw [cacheHitAlignmentTokens]
  split
  · exact hself.hash_pos
  · exact hself.scheduler_pos

theorem managerBlockSize_of_single (hself : self.WellFormed)
    (hmem : specGroup ∈ self.attentionGroups)
    (hkind : specGroup.spec.isFullAttention = false) :
    self.managerBlockSize specGroup.spec = specGroup.spec.blockSize := by
  obtain ⟨group, hgroup, hparticipates, hspec⟩ := exists_member hmem
  by_cases hmamba : specGroup.spec.isMamba = true
  · rw [managerBlockSize, if_pos hmamba]
  · rw [managerBlockSize, if_neg hmamba, GroupSpec.scaledBlockSize, if_neg]
    intro hboth
    have hsharded := hself.sharded hboth.1 group hgroup hparticipates
    rw [hspec] at hsharded
    cases hsharded with
    | inl hfine =>
        rw [GroupSpec.supportsFineGrained, hkind, Bool.false_or] at hfine
        exact hmamba hfine
    | inr hreplicated => exact hboth.2 hreplicated

variable {blockPool : BlockPool BlockHash} {blockHashes : List BlockHash}
  {maxCacheHitLength currHitLength : ℕ} {dropEagleBlock : Bool}

theorem blockSize_reconciledQuery (hself : self.WellFormed)
    (hmem : specGroup ∈ self.attentionGroups) :
    (self.reconciledQuery blockPool blockHashes maxCacheHitLength specGroup
      dropEagleBlock currHitLength).blockSize =
        self.managerBlockSize specGroup.spec := by
  change (if specGroup.spec.isFullAttention = true then
      specGroup.spec.scaledBlockSize
        (if specGroup.spec.isFullAttention then self.dcpWorldSize else 1)
    else specGroup.spec.blockSize) = _
  by_cases hkind : specGroup.spec.isFullAttention = true
  · have hmamba : specGroup.spec.isMamba ≠ true := by
      intro hmamba
      simp only [GroupSpec.isMamba, GroupSpec.isFullAttention,
        decide_eq_true_eq] at hmamba hkind
      rw [hkind] at hmamba
      cases hmamba
    rw [if_pos hkind, if_pos hkind, managerBlockSize, if_neg hmamba]
  · rw [if_neg hkind]
    exact (managerBlockSize_of_single hself hmem
      (Bool.eq_false_of_not_eq_true hkind)).symm

theorem maxLength_reconciledQuery_le (hcurr : currHitLength ≤
    maxCacheHitLength) :
    (self.reconciledQuery blockPool blockHashes maxCacheHitLength specGroup
      dropEagleBlock currHitLength).maxLength ≤ maxCacheHitLength := by
  simp only [reconciledQuery]
  split
  · exact Nat.min_le_right _ _
  · exact hcurr

theorem useEagle_of_chunked (hself : self.WellFormed)
    (hmem : specGroup ∈ self.attentionGroups) {chunkSize : ℕ}
    (hkind : specGroup.spec.kind = .chunkedLocal chunkSize) :
    specGroup.useEagle = false := by
  have hstands := stands_of_mem hmem
  apply Bool.eq_false_of_not_eq_true
  intro heagle
  obtain ⟨groupId, hid, group, hget, hisEagle⟩ := hstands.eagle heagle
  obtain ⟨group', hget', hparticipates, hspec⟩ :=
    hstands.members groupId hid
  rw [← Option.some.inj (hget.symm.trans hget')] at hparticipates hspec
  rw [← hspec] at hkind
  have hchunked := hself.chunked group (List.mem_of_getElem? hget)
    hparticipates chunkSize hkind
  rw [hchunked.1] at hisEagle
  exact Bool.false_ne_true hisEagle

/-- The reconciled lookup asks supported queries only. -/
theorem reconciledQuery_supported (hself : self.WellFormed)
    (hpool : blockPool.hashBlockSize = self.hashBlockSize)
    (hhashes : maxCacheHitLength / self.hashBlockSize ≤ blockHashes.length)
    (hmem : specGroup ∈ self.attentionGroups)
    (hdrop : dropEagleBlock = true → specGroup.useEagle = true)
    (hcurr : currHitLength ≤ maxCacheHitLength) :
    (self.reconciledQuery blockPool blockHashes maxCacheHitLength specGroup
      dropEagleBlock currHitLength).Supported := by
  obtain ⟨group, hgroup, hparticipates, hspec⟩ := exists_member hmem
  have hblock := @blockSize_reconciledQuery self specGroup blockPool
    blockHashes maxCacheHitLength currHitLength dropEagleBlock hself hmem
  have hmax := @maxLength_reconciledQuery_le self specGroup blockPool
    blockHashes maxCacheHitLength currHitLength dropEagleBlock hcurr
  have hmanager := hself.manager_dvd group hgroup hparticipates
  have hpartial := hself.partialHits
  have hhash := hself.hash_dvd group hgroup hparticipates
  rw [hspec] at hmanager hhash
  refine ⟨?_, ?_, alignment_pos hself, ?_, ?_, ?_, ?_, ?_, ?_⟩
  · change 0 < blockPool.hashBlockSize
    rw [hpool]
    exact hself.hash_pos
  · rw [hblock]
    exact manager_pos hself hmem
  · rw [hblock]
    change blockPool.hashBlockSize ∣ _
    rw [hpool]
    exact hhash
  · rw [hblock]
    change self.cacheHitAlignmentTokens = blockPool.hashBlockSize ∨
      _ ∣ self.cacheHitAlignmentTokens
    rw [hpool, cacheHitAlignmentTokens]
    split
    · exact .inl rfl
    · exact .inr hmanager
  · change _ / blockPool.hashBlockSize ≤ blockHashes.length
    rw [hpool]
    exact (Nat.div_le_div_right hmax).trans hhashes
  · intro hkind
    have hkind' : specGroup.spec.isFullAttention = false := hkind
    change (if specGroup.spec.isFullAttention then _ else 1) = 1
    rw [hkind', if_neg Bool.false_ne_true]
  · intro hcoarse
    rw [hblock]
    change _ ∣ self.cacheHitAlignmentTokens
    rw [cacheHitAlignmentTokens]
    split
    · rename_i henabled
      have hsame := hpartial henabled group hgroup hparticipates
      rw [hspec] at hsame
      have hcoarse' : specGroup.spec.supportsFineGrained = false := hcoarse
      rw [hcoarse'] at hsame
      rw [hsame.resolve_left Bool.false_ne_true]
    · exact hmanager
  · intro chunkSize hkind
    have hkind' : specGroup.spec.kind = .chunkedLocal chunkSize := hkind
    have hchunked := hself.chunked group hgroup hparticipates chunkSize (by
      rw [hspec, hkind'])
    rw [hspec] at hchunked
    refine ⟨?_, hblock.trans hchunked.2⟩
    change dropEagleBlock = false
    apply Bool.eq_false_of_not_eq_true
    intro htrue
    have hfalse := useEagle_of_chunked hself hmem hkind'
    rw [hdrop htrue] at hfalse
    cases hfalse

end Supported

end HybridCoordinator

end GlmFlash.Cache
