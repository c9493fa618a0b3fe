import GlmFlash.Alloc.DomainFrontier

/-!
# The factory allocation finds an optimum

A selection that keeps each coupling group inside one domain falls apart into
one selection for each selected domain, and a selection of profiles, one for
each group, comes together to such a selection.  The sums agree on both sides,
the fixed part of a domain counted once.
-/

namespace GlmFlash.Alloc

open GlmFlash.Library

variable {union : FactoryUnion} {selection : List FactoryCandidate}
  {candidate other : FactoryCandidate} {key : DomainKey}
  {hashJson : ChoiceBody → String} {quantum byteBudget : ℤ} {exact : Bool}
  {outer chosen : List Profile} {profile : Profile}

/-- One candidate for every unit, and one domain for every coupling group. -/
structure Compatible (union : FactoryUnion)
    (selection : List FactoryCandidate) : Prop where
  mem : ∀ candidate ∈ selection, candidate ∈ union.allocatorCandidates
  nodup : (selection.map Candidate.unitId).Nodup
  covers : ∀ unit ∈ union.units,
    unit.unitId ∈ selection.map Candidate.unitId
  oneDomain : ∀ first ∈ selection, ∀ second ∈ selection,
    ∀ key ∈ domainKey first, ∀ key' ∈ domainKey second,
      (ofLex key).1 = (ofLex key').1 → key = key'

def selectedDomains (selection : List FactoryCandidate) : List DomainKey :=
  (selection.filterMap domainKey).dedup

/-- The private bytes, and the shared bytes of each selected domain once. -/
def unionBytes (union : FactoryUnion) (selection : List FactoryCandidate) : ℤ :=
  total Candidate.storedBytes selection +
    total (fixedCost union.allocatorCandidates) (selectedDomains selection)

def unionDamage (union : FactoryUnion) (selection : List FactoryCandidate) :
    ℚ :=
  total Candidate.predictedDamage selection +
    total (fixedDamage union.allocatorCandidates) (selectedDomains selection)

/-- Every candidate passes the checks. -/
def Checked (union : FactoryUnion) : Prop :=
  ∀ candidate ∈ union.allocatorCandidates, CheckedCandidate union candidate

instance (union : FactoryUnion) : Decidable (Checked union) :=
  inferInstanceAs (Decidable (∀ _ ∈ _, _))

/-! ## Units, groups and domains -/

theorem mem_ofDomain {candidates : List FactoryCandidate} :
    candidate ∈ ofDomain candidates key ↔
      candidate ∈ candidates ∧ domainKey candidate = some key := by
  rw [ofDomain, List.mem_filter, decide_eq_true_eq]

theorem mem_selectedDomains :
    key ∈ selectedDomains selection ↔
      ∃ candidate ∈ selection, domainKey candidate = some key := by
  rw [selectedDomains, List.mem_dedup, List.mem_filterMap]

theorem mem_domainKeys {candidates : List FactoryCandidate} :
    key ∈ domainKeys candidates ↔
      ∃ candidate ∈ candidates, domainKey candidate = some key := by
  rw [domainKeys, mem_sortBy, List.mem_dedup, List.mem_filterMap]

theorem mem_unitsOfGroup {units : List CandidateUnit} {group unitId : String} :
    unitId ∈ unitsOfGroup units group ↔
      ∃ unit ∈ units, unit.couplingGroupId = group ∧ unit.unitId = unitId := by
  simp only [unitsOfGroup, List.mem_toFinset, List.mem_map, List.mem_filter,
    decide_eq_true_eq, and_assoc]

/-- A checked candidate has a domain, whose group is that of its unit. -/
theorem Checked.exists_key (hchecked : Checked union)
    (hmem : candidate ∈ union.allocatorCandidates) :
    ∃ key, domainKey candidate = some key ∧ (ofLex key).1 ≠ "" ∧
      0 ≤ fixedCost union.allocatorCandidates key ∧
      ∃ unit ∈ union.units, unit.unitId = candidate.unitId ∧
        unit.couplingGroupId = (ofLex key).1 := by
  obtain ⟨metadata, hmetadata, ⟨hgroup, -, hfixed, hunit⟩, hcost, -⟩ :=
    hchecked candidate hmem
  refine ⟨metadata.key, ?_, hgroup, hcost ▸ hfixed, hunit⟩
  rw [domainKey, Option.mem_def.mp hmetadata, Option.map_some]

/-- Candidates of one unit are of one group. -/
theorem Checked.group_eq (hchecked : Checked union) {key' : DomainKey}
    (hmem : candidate ∈ union.allocatorCandidates)
    (hother : other ∈ union.allocatorCandidates)
    (hkey : domainKey candidate = some key)
    (hkey' : domainKey other = some key')
    (hunit : candidate.unitId = other.unitId) :
    (ofLex key).1 = (ofLex key').1 := by
  obtain ⟨first, hfirst, -, -, unit, hunitMem, hid, hgroup⟩ :=
    hchecked.exists_key hmem
  obtain ⟨second, hsecond, -, -, unit', hunitMem', hid', hgroup'⟩ :=
    hchecked.exists_key hother
  have hsame : unit = unit' := List.inj_on_of_nodup_map union.units_nodup
    hunitMem hunitMem' (by rw [hid, hid', hunit])
  rw [hkey, Option.some.injEq] at hfirst
  rw [hkey', Option.some.injEq] at hsecond
  rw [hfirst, hsecond, ← hgroup, ← hgroup', hsame]

/-! ## Taking a selection apart -/

section Apart

variable (hchecked : Checked union) (hcompatible : Compatible union selection)

include hchecked hcompatible

theorem Compatible.exists_key (hmem : candidate ∈ selection) :
    ∃ key ∈ selectedDomains selection, domainKey candidate = some key := by
  obtain ⟨key, hkey, -⟩ := hchecked.exists_key (hcompatible.mem candidate hmem)
  exact ⟨key, mem_selectedDomains.mpr ⟨candidate, hmem, hkey⟩, hkey⟩

/-- The selected candidate of a unit is in the domain selected for the unit's
group. -/
theorem Compatible.selected_of_unit {unit : CandidateUnit}
    (hkey : key ∈ selectedDomains selection) (hunit : unit ∈ union.units)
    (hgroup : unit.couplingGroupId = (ofLex key).1) :
    ∃ candidate ∈ ofDomain selection key, candidate.unitId = unit.unitId := by
  obtain ⟨candidate, hcandidate, hid⟩ :=
    List.mem_map.mp (hcompatible.covers unit hunit)
  obtain ⟨first, hfirst, hdomain⟩ := mem_selectedDomains.mp hkey
  obtain ⟨key', hkey', -, -, unit', hunit', hid', hgroup'⟩ :=
    hchecked.exists_key (hcompatible.mem candidate hcandidate)
  have hsame : unit' = unit := List.inj_on_of_nodup_map union.units_nodup
    hunit' hunit (by rw [hid', hid])
  have heq : key' = key := hcompatible.oneDomain candidate hcandidate first
    hfirst key' hkey' key hdomain (by rw [← hgroup', hsame, hgroup])
  exact ⟨candidate, mem_ofDomain.mpr ⟨hcandidate, heq ▸ hkey'⟩, hid⟩

theorem Compatible.ofDomain_onePerUnit
    (hkey : key ∈ selectedDomains selection) :
    OnePerUnit (ofDomain union.allocatorCandidates key)
      (ofDomain selection key) := by
  refine ⟨?_, ?_, ?_⟩
  · intro candidate hmem
    obtain ⟨hselected, hdomain⟩ := mem_ofDomain.mp hmem
    exact mem_ofDomain.mpr ⟨hcompatible.mem candidate hselected, hdomain⟩
  · exact hcompatible.nodup.sublist (List.filter_sublist.map _)
  · intro candidate hmem
    obtain ⟨hcandidate, hdomain⟩ := mem_ofDomain.mp hmem
    obtain ⟨key', hkey', -, -, unit, hunit, hid, hgroup⟩ :=
      hchecked.exists_key hcandidate
    rw [hdomain, Option.some.injEq] at hkey'
    obtain ⟨other, hother, hsame⟩ := hcompatible.selected_of_unit hchecked hkey
      hunit (hkey' ▸ hgroup)
    rw [← hid, ← hsame]
    exact List.mem_map_of_mem hother

/-- A selected domain covers its group. -/
theorem Compatible.domain_covers (hkey : key ∈ selectedDomains selection) :
    ((ofDomain union.allocatorCandidates key).map
      Candidate.unitId).toFinset = unitsOfGroup union.units (ofLex key).1 := by
  ext unitId
  rw [List.mem_toFinset, mem_unitsOfGroup]
  constructor
  · intro hmem
    obtain ⟨candidate, hcandidate, rfl⟩ := List.mem_map.mp hmem
    obtain ⟨hcandidate, hdomain⟩ := mem_ofDomain.mp hcandidate
    obtain ⟨key', hkey', -, -, unit, hunit, hid, hgroup⟩ :=
      hchecked.exists_key hcandidate
    rw [hdomain, Option.some.injEq] at hkey'
    exact ⟨unit, hunit, hkey' ▸ hgroup, hid⟩
  · rintro ⟨unit, hunit, hgroup, rfl⟩
    obtain ⟨candidate, hcandidate, hid⟩ :=
      hcompatible.selected_of_unit hchecked hkey hunit hgroup
    rw [← hid]
    exact List.mem_map_of_mem
      ((hcompatible.ofDomain_onePerUnit hchecked hkey).mem candidate hcandidate)

omit hchecked in
/-- Different selected domains are of different groups. -/
theorem Compatible.nodup_groups :
    ((selectedDomains selection).map fun key => (ofLex key).1).Nodup := by
  apply List.Nodup.map_on ?_ (List.nodup_dedup _)
  intro key hkey key' hkey' hgroup
  obtain ⟨first, hfirst, hdomain⟩ := mem_selectedDomains.mp hkey
  obtain ⟨second, hsecond, hdomain'⟩ := mem_selectedDomains.mp hkey'
  exact hcompatible.oneDomain first hfirst second hsecond key hdomain key'
    hdomain' hgroup

/-- The sums of a selection, domain by domain. -/
theorem Compatible.total_ofDomain {C : Type} [AddCommMonoid C]
    (value : FactoryCandidate → C) :
    total (fun key => total value (ofDomain selection key))
      (selectedDomains selection) = total value selection := by
  rw [← total_flatMap]
  exact total_perm (flatMap_filter_perm (List.nodup_dedup _)
    fun candidate hmem => hcompatible.exists_key hchecked hmem)

end Apart

/-! ## The profiles -/

/-- The domain that a profile is of. -/
def Profile.domain (profile : Profile) : DomainKey :=
  profile.metadata.elim (toLex ("", "")) fun metadata =>
    toLex (metadata.body.couplingGroupId,
      metadata.body.compatibilityDomainSha256)

/-- A profile of a domain: it is charged the private and the fixed part of a
selection of the domain's units, which are those of its group. -/
structure Profile.Sound (union : FactoryUnion) (quantum : ℤ)
    (profile : Profile) : Prop where
  domain_mem : profile.domain ∈ domainKeys union.allocatorCandidates
  unitId : profile.unitId = (ofLex profile.domain).1
  choiceId : profile.choiceId ≠ ""
  covers : ((ofDomain union.allocatorCandidates profile.domain).map
    Candidate.unitId).toFinset = unitsOfGroup union.units profile.unitId
  onePerUnit : OnePerUnit (ofDomain union.allocatorCandidates profile.domain)
    profile.selectedCandidates
  storedBytes : profile.storedBytes =
    total Candidate.storedBytes profile.selectedCandidates +
      fixedCost union.allocatorCandidates profile.domain
  predictedDamage : profile.predictedDamage =
    total Candidate.predictedDamage profile.selectedCandidates +
      fixedDamage union.allocatorCandidates profile.domain
  dvd_bytes : quantum ∣ profile.storedBytes

theorem dvd_total {value : FactoryCandidate → ℤ}
    (hdvd : ∀ candidate ∈ selection, quantum ∣ value candidate) :
    quantum ∣ total value selection := by
  apply List.dvd_sum
  intro amount hamount
  obtain ⟨candidate, hmem, rfl⟩ := List.mem_map.mp hamount
  exact hdvd candidate hmem

theorem mem_outerCandidates
    (hrun : outerCandidates hashJson union quantum exact = .ok outer)
    (hprofile : profile ∈ outer) : profile.Sound union quantum := by
  simp only [outerCandidates, bind_eq_ok, pure_eq_ok] at hrun
  obtain ⟨parts, hparts, rfl⟩ := hrun
  obtain ⟨part, hpart, hmem⟩ := List.mem_flatten.mp hprofile
  obtain ⟨key, hkey, hdomain⟩ := mem_mapM_ok hparts hpart
  simp only [domainCandidates, bind_eq_ok, require_eq_ok, pure_eq_ok] at hdomain
  obtain ⟨-, hfixed, profiles, hprofiles, rfl⟩ := hdomain
  obtain ⟨inner, hinner, rfl⟩ := List.mem_map.mp hmem
  obtain ⟨hcovers, hbytes, hone, hstored, hdamage⟩ :=
    mem_internalFrontier hprofiles hinner
  refine ⟨hkey, rfl, ?_, hcovers, hone, ?_, ?_, ?_⟩
  · intro hempty
    have hlength := congrArg String.length hempty
    simp [outerCandidate] at hlength
  · change _ + inner.storedBytes = _
    rw [hstored, add_comm]
    rfl
  · change inner.predictedDamage + _ = _
    rw [hdamage]
    rfl
  · apply Int.dvd_add (Int.dvd_of_emod_eq_zero hfixed)
    rw [hstored]
    exact dvd_total fun candidate hmem =>
      Int.dvd_of_emod_eq_zero (hbytes candidate (hone.mem candidate hmem))

theorem outerCandidates_succeeds (hquantum : 1 ≤ quantum)
    (hbytes : ∀ candidate ∈ union.allocatorCandidates,
      quantum ∣ candidate.storedBytes)
    (hfixed : ∀ key ∈ domainKeys union.allocatorCandidates,
      quantum ∣ fixedCost union.allocatorCandidates key) :
    ∃ outer, outerCandidates hashJson union quantum exact = .ok outer := by
  have hdomains : ∀ key ∈ domainKeys union.allocatorCandidates,
      ∃ part, domainCandidates hashJson union quantum exact key = .ok part := by
    intro key hkey
    obtain ⟨profiles, hprofiles⟩ := @internalFrontier_succeeds _
      (ofDomain union.allocatorCandidates key) exact
      (unitsOfGroup union.units (ofLex key).1) quantum hquantum
      fun candidate hmem => hbytes candidate (mem_ofDomain.mp hmem).1
    simp only [domainCandidates, bind_eq_ok, require_eq_ok, pure_eq_ok]
    exact ⟨_, (), Int.emod_eq_zero_of_dvd (hfixed key hkey), profiles,
      hprofiles, rfl⟩
  obtain ⟨parts, hparts, -⟩ := mapM_succeeds hdomains
  simp only [outerCandidates, bind_eq_ok, pure_eq_ok]
  exact ⟨_, parts, hparts, rfl⟩

/-- Some profile of a selected domain is as good as the selection there. -/
theorem Compatible.exists_profile (hchecked : Checked union)
    (hcompatible : Compatible union selection)
    (hrun : outerCandidates hashJson union quantum exact = .ok outer)
    (hkey : key ∈ selectedDomains selection) :
    ∃ profile, (profile ∈ outer ∧ profile.unitId = (ofLex key).1) ∧
      costOrder exact profile.storedBytes
        (total Candidate.storedBytes (ofDomain selection key) +
          fixedCost union.allocatorCandidates key) ∧
      profile.predictedDamage ≤
        total Candidate.predictedDamage (ofDomain selection key) +
          fixedDamage union.allocatorCandidates key := by
  simp only [outerCandidates, bind_eq_ok, pure_eq_ok] at hrun
  obtain ⟨parts, hparts, rfl⟩ := hrun
  have hmem : key ∈ domainKeys union.allocatorCandidates := by
    obtain ⟨candidate, hcandidate, hdomain⟩ := mem_selectedDomains.mp hkey
    exact mem_domainKeys.mpr
      ⟨candidate, hcompatible.mem candidate hcandidate, hdomain⟩
  obtain ⟨part, hpart, hdomain⟩ :=
    forall₂_mem_left (forall₂_of_mapM hparts) hmem
  simp only [domainCandidates, bind_eq_ok, require_eq_ok, pure_eq_ok] at hdomain
  obtain ⟨-, -, profiles, hprofiles, rfl⟩ := hdomain
  obtain ⟨inner, hinner, hcost, hdamage⟩ := internalFrontier_dominates hprofiles
    (hcompatible.domain_covers hchecked hkey)
    (hcompatible.ofDomain_onePerUnit hchecked hkey)
  refine ⟨outerCandidate hashJson union.allocatorCandidates key inner,
    ⟨List.mem_flatten.mpr ⟨_, hpart, List.mem_map_of_mem hinner⟩, rfl⟩, ?_, ?_⟩
  · have horder := (costOrder_refl (fixedCost union.allocatorCandidates key)).add
      hcost
    rw [add_comm (total _ _)]
    exact horder
  · exact add_le_add hdamage le_rfl

/-- A compatible selection is dominated by a selection of profiles. -/
theorem Compatible.exists_profiles (hchecked : Checked union)
    (hcompatible : Compatible union selection)
    (hrun : outerCandidates hashJson union quantum exact = .ok outer) :
    ∃ chosen, OnePerUnit outer chosen ∧
      costOrder exact (total Candidate.storedBytes chosen)
        (unionBytes union selection) ∧
      total Candidate.predictedDamage chosen ≤ unionDamage union selection := by
  obtain ⟨chosen, hchosen⟩ := exists_forall₂ fun key hkey =>
    hcompatible.exists_profile hchecked hrun hkey
  have hgroups : chosen.map Candidate.unitId =
      (selectedDomains selection).map fun key => (ofLex key).1 := by
    have heq : List.Forall₂ Eq (chosen.map Candidate.unitId)
        ((selectedDomains selection).map fun key => (ofLex key).1) := by
      rw [List.forall₂_map_left_iff, List.forall₂_map_right_iff]
      exact (hchosen.imp fun key profile hprofile => hprofile.1.2).flip
    rw [List.forall₂_eq_eq_eq] at heq
    exact heq
  refine ⟨chosen, ⟨?_, ?_, ?_⟩, ?_, ?_⟩
  · intro profile hmem
    obtain ⟨key, -, hprofile⟩ := forall₂_mem_right hchosen hmem
    exact hprofile.1.1
  · rw [hgroups]
    exact hcompatible.nodup_groups
  · intro profile hmem
    have hsound := mem_outerCandidates hrun hmem
    obtain ⟨candidate, hcandidate, hdomain⟩ :=
      mem_domainKeys.mp hsound.domain_mem
    obtain ⟨key, hkey, -, -, unit, hunit, -, hgroup⟩ :=
      hchecked.exists_key hcandidate
    rw [hdomain, Option.some.injEq] at hkey
    -- The unit of the candidate is selected in a domain of the same group.
    obtain ⟨other, hother, hid⟩ :=
      List.mem_map.mp (hcompatible.covers unit hunit)
    obtain ⟨key', hselected, hkey'⟩ := hcompatible.exists_key hchecked hother
    obtain ⟨found, hfound, -, -, unit', hunit', hid', hgroup'⟩ :=
      hchecked.exists_key (hcompatible.mem other hother)
    have hsame : unit' = unit := List.inj_on_of_nodup_map union.units_nodup
      hunit' hunit (by rw [hid', hid])
    rw [hkey', Option.some.injEq] at hfound
    rw [hgroups, hsound.unitId, hkey, ← hgroup, ← hsame, hgroup', ← hfound]
    exact List.mem_map_of_mem hselected
  · have hsum := total_forall₂ (costOrder_refl 0)
      (fun _ _ _ _ hfirst hsecond => hfirst.add hsecond)
      (hchosen.imp fun key profile hprofile => hprofile.2.1).flip
    rw [total_add, hcompatible.total_ofDomain hchecked] at hsum
    exact hsum
  · have hsum := total_forall₂ (le_refl (0 : ℚ))
      (fun _ _ _ _ hfirst hsecond => add_le_add hfirst hsecond)
      (hchosen.imp fun key profile hprofile => hprofile.2.2).flip
    rw [total_add, hcompatible.total_ofDomain hchecked] at hsum
    exact hsum

/-! ## Putting profiles together -/

/-- The candidates that the chosen profiles stand for. -/
def selectedPrivate (chosen : List Profile) : List FactoryCandidate :=
  chosen.flatMap Profile.selectedCandidates

section Together

variable (hchecked : Checked union)
  (hsound : ∀ profile ∈ outer, profile.Sound union quantum)
  (hgroups : ∀ unit ∈ union.units, ∃ profile ∈ outer,
    profile.unitId = unit.couplingGroupId)
  (hone : OnePerUnit outer chosen)

include hsound hone

theorem mem_selectedPrivate {candidate : FactoryCandidate}
    (hmem : candidate ∈ selectedPrivate chosen) :
    ∃ profile ∈ chosen, profile.Sound union quantum ∧
      candidate ∈ profile.selectedCandidates ∧
      candidate ∈ union.allocatorCandidates ∧
      domainKey candidate = some profile.domain := by
  obtain ⟨profile, hprofile, hselected⟩ := List.mem_flatMap.mp hmem
  have hprofileSound := hsound profile (hone.mem profile hprofile)
  obtain ⟨hcandidate, hdomain⟩ :=
    mem_ofDomain.mp (hprofileSound.onePerUnit.mem candidate hselected)
  exact ⟨profile, hprofile, hprofileSound, hselected, hcandidate, hdomain⟩

/-- Two chosen profiles of one group are the same. -/
theorem chosen_eq {first second : Profile} (hfirst : first ∈ chosen)
    (hsecond : second ∈ chosen)
    (hgroup : (ofLex first.domain).1 = (ofLex second.domain).1) :
    first = second := by
  apply List.inj_on_of_nodup_map hone.nodup hfirst hsecond
  rw [(hsound first (hone.mem first hfirst)).unitId, hgroup,
    (hsound second (hone.mem second hsecond)).unitId]

include hchecked

theorem nodup_selectedPrivate :
    ((selectedPrivate chosen).map Candidate.unitId).Nodup := by
  rw [selectedPrivate, List.map_flatMap, List.nodup_flatMap]
  constructor
  · intro profile hmem
    exact (hsound profile (hone.mem profile hmem)).onePerUnit.nodup
  · have hdistinct : chosen.Nodup := List.Nodup.of_map _ hone.nodup
    refine hdistinct.imp_of_mem ?_
    intro first second hfirst hsecond hne unitId hin hin'
    obtain ⟨candidate, hcandidate, hid⟩ := List.mem_map.mp hin
    obtain ⟨other, hother, hid'⟩ := List.mem_map.mp hin'
    obtain ⟨hmem, hdomain⟩ := mem_ofDomain.mp
      ((hsound first (hone.mem first hfirst)).onePerUnit.mem candidate hcandidate)
    obtain ⟨hmem', hdomain'⟩ := mem_ofDomain.mp
      ((hsound second (hone.mem second hsecond)).onePerUnit.mem other hother)
    exact hne (chosen_eq hsound hone hfirst hsecond
      (hchecked.group_eq hmem hmem' hdomain hdomain' (hid.trans hid'.symm)))

omit hchecked in
include hgroups in
theorem selectedPrivate_covers {unit : CandidateUnit}
    (hunit : unit ∈ union.units) :
    unit.unitId ∈ (selectedPrivate chosen).map Candidate.unitId := by
  obtain ⟨found, hfound, hgroup⟩ := hgroups unit hunit
  obtain ⟨profile, hprofile, hsame⟩ := List.mem_map.mp (hone.covers found hfound)
  have hprofileSound := hsound profile (hone.mem profile hprofile)
  have hcovered : unit.unitId ∈ unitsOfGroup union.units profile.unitId :=
    mem_unitsOfGroup.mpr ⟨unit, hunit, by rw [hsame, hgroup], rfl⟩
  rw [← hprofileSound.covers, List.mem_toFinset] at hcovered
  obtain ⟨candidate, hcandidate, hid⟩ := List.mem_map.mp hcovered
  obtain ⟨selected, hselected, hid'⟩ :=
    List.mem_map.mp (hprofileSound.onePerUnit.covers candidate hcandidate)
  rw [← hid, ← hid']
  exact List.mem_map_of_mem (List.mem_flatMap.mpr ⟨profile, hprofile, hselected⟩)

include hgroups in
theorem selectedPrivate_compatible :
    Compatible union (selectedPrivate chosen) := by
  refine ⟨?_, nodup_selectedPrivate hchecked hsound hone,
    fun unit hunit => selectedPrivate_covers hsound hgroups hone hunit, ?_⟩
  · intro candidate hmem
    obtain ⟨-, -, -, -, hcandidate, -⟩ := mem_selectedPrivate hsound hone hmem
    exact hcandidate
  · intro first hfirst second hsecond key hkey key' hkey' hgroup
    obtain ⟨profile, hprofile, -, -, -, hdomain⟩ :=
      mem_selectedPrivate hsound hone hfirst
    obtain ⟨profile', hprofile', -, -, -, hdomain'⟩ :=
      mem_selectedPrivate hsound hone hsecond
    rw [Option.mem_def, hdomain, Option.some.injEq] at hkey
    rw [Option.mem_def, hdomain', Option.some.injEq] at hkey'
    rw [← hkey, ← hkey'] at hgroup ⊢
    rw [chosen_eq hsound hone hprofile hprofile' hgroup]

omit hchecked in
/-- The selected domains are those of the chosen profiles. -/
theorem selectedDomains_perm :
    (selectedDomains (selectedPrivate chosen)).Perm
      (chosen.map Profile.domain) := by
  have hnodup : (chosen.map Profile.domain).Nodup := by
    apply List.Nodup.map_on ?_ (List.Nodup.of_map _ hone.nodup)
    intro first hfirst second hsecond heq
    exact chosen_eq hsound hone hfirst hsecond (by rw [heq])
  rw [selectedDomains,
    List.perm_ext_iff_of_nodup (List.nodup_dedup _) hnodup]
  intro key
  rw [← selectedDomains, mem_selectedDomains, List.mem_map]
  constructor
  · rintro ⟨candidate, hmem, hkey⟩
    obtain ⟨profile, hprofile, -, -, -, hdomain⟩ :=
      mem_selectedPrivate hsound hone hmem
    rw [hdomain, Option.some.injEq] at hkey
    exact ⟨profile, hprofile, hkey⟩
  · rintro ⟨profile, hprofile, rfl⟩
    have hprofileSound := hsound profile (hone.mem profile hprofile)
    -- A domain has a candidate, so its selection is not empty.
    obtain ⟨candidate, hcandidate, hdomain⟩ :=
      mem_domainKeys.mp hprofileSound.domain_mem
    obtain ⟨selected, hselected, -⟩ := List.mem_map.mp
      (hprofileSound.onePerUnit.covers candidate
        (mem_ofDomain.mpr ⟨hcandidate, hdomain⟩))
    exact ⟨selected, List.mem_flatMap.mpr ⟨profile, hprofile, hselected⟩,
      (mem_ofDomain.mp (hprofileSound.onePerUnit.mem selected hselected)).2⟩

omit hchecked in
theorem selectedPrivate_total {C : Type} [AddCommMonoid C]
    (value : FactoryCandidate → C) (fixed : DomainKey → C)
    (charged : Profile → C) (hcharged : ∀ profile ∈ chosen, charged profile =
      total value profile.selectedCandidates + fixed profile.domain) :
    total value (selectedPrivate chosen) +
        total fixed (selectedDomains (selectedPrivate chosen)) =
      total charged chosen := by
  have hfixed : total fixed (selectedDomains (selectedPrivate chosen)) =
      total (fun profile => fixed (Profile.domain profile)) chosen := by
    rw [total_perm (selectedDomains_perm hsound hone), total, List.map_map]
    rfl
  have hsplit : total charged chosen =
      total (fun profile => total value (Profile.selectedCandidates profile) +
        fixed (Profile.domain profile)) chosen :=
    congrArg List.sum (List.map_congr_left hcharged)
  rw [hfixed, selectedPrivate, total_flatMap, hsplit, total_add]

omit hchecked in
theorem selectedPrivate_bytes :
    unionBytes union (selectedPrivate chosen) =
      total Candidate.storedBytes chosen :=
  selectedPrivate_total hsound hone _ _ _ fun profile hmem =>
    (hsound profile (hone.mem profile hmem)).storedBytes

omit hchecked in
theorem selectedPrivate_damage :
    unionDamage union (selectedPrivate chosen) =
      total Candidate.predictedDamage chosen :=
  selectedPrivate_total hsound hone _ _ _ fun profile hmem =>
    (hsound profile (hone.mem profile hmem)).predictedDamage

end Together

/-! ## The allocation of a factory union -/

/-- The selection is compatible and fits, the result has its sums, and no
other such selection does less damage. -/
structure FactoryOptimal (exact : Bool) (union : FactoryUnion)
    (byteBudget : ℤ) (result : CoupledFactoryAllocation) : Prop where
  compatible : Compatible union result.selectedCandidates
  storedBytes :
    result.allocation.storedBytes = unionBytes union result.selectedCandidates
  predictedDamage : result.allocation.predictedDamage =
    unionDamage union result.selectedCandidates
  fits : costOrder exact result.allocation.storedBytes byteBudget
  least : ∀ other, Compatible union other →
    costOrder exact (unionBytes union other) byteBudget →
      result.allocation.predictedDamage ≤ unionDamage union other

theorem Profile.Sound.wellFormed (hchecked : Checked union)
    (hsound : profile.Sound union quantum) : profile.WellFormed := by
  obtain ⟨candidate, hcandidate, hdomain⟩ :=
    mem_domainKeys.mp hsound.domain_mem
  obtain ⟨key, hkey, hgroup, hfixed, -⟩ := hchecked.exists_key hcandidate
  rw [hdomain, Option.some.injEq] at hkey
  refine ⟨?_, hsound.choiceId, ?_⟩
  · rw [hsound.unitId, hkey]
    exact hgroup
  · have hprivate : 0 ≤ total Candidate.storedBytes
        (Profile.selectedCandidates profile) :=
      total_nonneg fun selected hmem => (union.bytes_pos selected
        (mem_ofDomain.mp (hsound.onePerUnit.mem selected hmem)).1).le
    rw [hsound.storedBytes, hkey]
    exact add_nonneg hprivate hfixed

theorem outer_accepted (hchecked : Checked union)
    (hsound : ∀ profile ∈ outer, profile.Sound union quantum)
    (hquantum : 1 ≤ quantum) (hbudget : quantum ∣ byteBudget) :
    Accepted outer byteBudget quantum :=
  ⟨hquantum, fun profile hmem => (hsound profile hmem).wellFormed hchecked,
    hbudget, fun profile hmem => (hsound profile hmem).dvd_bytes⟩

theorem selectedPrivate_units (hchecked : Checked union)
    (hcompatible : Compatible union selection) :
    (selection.map Candidate.unitId).toFinset =
      (union.units.map CandidateUnit.unitId).toFinset := by
  ext unitId
  rw [List.mem_toFinset, List.mem_toFinset, List.mem_map, List.mem_map]
  constructor
  · rintro ⟨candidate, hcandidate, rfl⟩
    obtain ⟨-, -, -, -, unit, hunit, hid, -⟩ :=
      hchecked.exists_key (hcompatible.mem candidate hcandidate)
    exact ⟨unit, hunit, hid⟩
  · rintro ⟨unit, hunit, rfl⟩
    exact List.mem_map.mp (hcompatible.covers unit hunit)

theorem allocateFactoryUnion_eq_ok {result : CoupledFactoryAllocation}
    (hrun : allocateFactoryUnion hashJson union byteBudget quantum exact =
      .ok result) : FactoryOptimal exact union byteBudget result := by
  simp only [allocateFactoryUnion, bind_eq_ok, require_eq_ok, pure_eq_ok] at hrun
  obtain ⟨-, ⟨-, hquantum, hbudget⟩, -, -, -, -, -, hchecked, outer, houter, -,
    hgroups, allocation, hallocation, -, -, rfl⟩ := hrun
  have hsound : ∀ profile ∈ outer, profile.Sound union quantum :=
    fun profile hmem => mem_outerCandidates houter hmem
  have hoptimal : OuterOptimal exact outer byteBudget allocation :=
    allocateOuter_eq_ok (outer_accepted hchecked hsound hquantum
      (Int.dvd_of_emod_eq_zero hbudget)) hallocation
  have hone := hoptimal.onePerUnit
  refine ⟨selectedPrivate_compatible hchecked hsound hgroups hone, ?_, ?_,
    hoptimal.fits, ?_⟩
  · exact hoptimal.storedBytes.trans (selectedPrivate_bytes hsound hone).symm
  · exact hoptimal.predictedDamage.trans
      (selectedPrivate_damage hsound hone).symm
  · intro other hother hfits
    obtain ⟨chosen, hchosen, hbytes, hdamage⟩ :=
      hother.exists_profiles hchecked houter
    exact (hoptimal.least chosen hchosen (hbytes.trans hfits)).trans hdamage

theorem Compatible.covers_groups (hchecked : Checked union)
    (hcompatible : Compatible union selection)
    (hrun : outerCandidates hashJson union quantum exact = .ok outer) :
    ∀ unit ∈ union.units, ∃ profile ∈ outer,
      profile.unitId = unit.couplingGroupId := by
  intro unit hunit
  obtain ⟨candidate, hcandidate, hid⟩ :=
    List.mem_map.mp (hcompatible.covers unit hunit)
  obtain ⟨key, hkey, hdomain⟩ := hcompatible.exists_key hchecked hcandidate
  obtain ⟨key', hkey', -, -, unit', hunit', hid', hgroup⟩ :=
    hchecked.exists_key (hcompatible.mem candidate hcandidate)
  have hsame : unit' = unit := List.inj_on_of_nodup_map union.units_nodup
    hunit' hunit (by rw [hid', hid])
  rw [hdomain, Option.some.injEq] at hkey'
  obtain ⟨profile, ⟨hprofile, hunitId⟩, -⟩ :=
    hcompatible.exists_profile hchecked hrun hkey
  exact ⟨profile, hprofile, by rw [hunitId, hkey', ← hgroup, hsame]⟩

/-- The fixed cost of a domain is that of any of its candidates. -/
theorem Checked.dvd_fixedCost (hchecked : Checked union)
    (hfixed : ∀ candidate ∈ union.allocatorCandidates,
      ∀ metadata ∈ candidate.metadata, quantum ∣ metadata.fixedSharedBytes)
    (hkey : key ∈ domainKeys union.allocatorCandidates) :
    quantum ∣ fixedCost union.allocatorCandidates key := by
  obtain ⟨candidate, hcandidate, hdomain⟩ := mem_domainKeys.mp hkey
  obtain ⟨metadata, hmetadata, -, hcost, -⟩ := hchecked candidate hcandidate
  have hsame : metadata.key = key := by
    rw [domainKey, Option.mem_def.mp hmetadata, Option.map_some,
      Option.some.injEq] at hdomain
    exact hdomain
  rw [← hsame, ← hcost]
  exact hfixed candidate hcandidate metadata hmetadata

theorem allocateFactoryUnion_succeeds (hchecked : Checked union)
    (hquantum : 1 ≤ quantum) (hbudget : quantum ∣ byteBudget)
    (hbytes : ∀ candidate ∈ union.allocatorCandidates,
      quantum ∣ candidate.storedBytes)
    (hfixed : ∀ candidate ∈ union.allocatorCandidates,
      ∀ metadata ∈ candidate.metadata, quantum ∣ metadata.fixedSharedBytes)
    (hcompatible : Compatible union selection)
    (hfits : costOrder exact (unionBytes union selection) byteBudget) :
    ∃ result, allocateFactoryUnion hashJson union byteBudget quantum exact =
      .ok result := by
  obtain ⟨outer, houter⟩ := @outerCandidates_succeeds union hashJson quantum
    exact hquantum hbytes fun key hkey => hchecked.dvd_fixedCost hfixed hkey
  have hsound : ∀ profile ∈ outer, profile.Sound union quantum :=
    fun profile hmem => mem_outerCandidates houter hmem
  have haccepted := outer_accepted hchecked hsound hquantum hbudget
  obtain ⟨chosen, hchosen, hcost, -⟩ :=
    hcompatible.exists_profiles hchecked houter
  obtain ⟨allocation, hallocation⟩ :=
    allocateOuter_succeeds haccepted hchosen (hcost.trans hfits)
  have hgroups := hcompatible.covers_groups hchecked houter
  have hnonneg : 0 ≤ byteBudget := by
    have htotal : 0 ≤ total Candidate.storedBytes chosen :=
      total_nonneg fun profile hmem =>
        (haccepted.wellFormed profile (hchosen.mem profile hmem)).2.2
    exact htotal.trans (hcost.trans hfits).le
  have hone := (allocateOuter_eq_ok haccepted hallocation).onePerUnit
  have hunits := selectedPrivate_units hchecked
    (selectedPrivate_compatible hchecked hsound hgroups hone)
  simp only [allocateFactoryUnion, bind_eq_ok, require_eq_ok, pure_eq_ok]
  exact ⟨_, (), ⟨hnonneg, hquantum, Int.emod_eq_zero_of_dvd hbudget⟩, (),
    union.units_ne_nil, (), ⟨union.groups_ne_empty, union.units_nodup⟩, (),
    hchecked, outer, houter, (), hgroups, allocation, hallocation, (), hunits,
    rfl⟩

/-- Whatever is returned is a best compatible selection, and one is returned
where a compatible selection fits and the quantum divides the budget and all
costs. -/
theorem allocateFactoryUnion_optimal (hashJson : ChoiceBody → String)
    (union : FactoryUnion) (byteBudget quantum : ℤ) (exact : Bool) :
    (∀ result, allocateFactoryUnion hashJson union byteBudget quantum exact =
        .ok result → FactoryOptimal exact union byteBudget result) ∧
      (Checked union → 1 ≤ quantum → quantum ∣ byteBudget →
        (∀ candidate ∈ union.allocatorCandidates,
          quantum ∣ candidate.storedBytes) →
        (∀ candidate ∈ union.allocatorCandidates,
          ∀ metadata ∈ candidate.metadata,
            quantum ∣ metadata.fixedSharedBytes) →
        (∃ selection, Compatible union selection ∧
          costOrder exact (unionBytes union selection) byteBudget) →
        ∃ result, allocateFactoryUnion hashJson union byteBudget quantum exact =
          .ok result) := by
  constructor
  · exact fun result hrun => allocateFactoryUnion_eq_ok hrun
  · rintro hchecked hquantum hbudget hbytes hfixed
      ⟨selection, hcompatible, hfits⟩
    exact allocateFactoryUnion_succeeds hchecked hquantum hbudget hbytes hfixed
      hcompatible hfits

def exampleDomain (digit : Char) : String := String.ofList (List.replicate 64 digit)

/-- A candidate of a domain with four shared bytes. -/
def small (unitId : String) : FactoryCandidate :=
  ⟨unitId, "k2", 2, 1 / 2, some ⟨"layer0", exampleDomain '0', 4, 1⟩⟩

/-- A candidate of a domain with six. -/
def large (unitId : String) : FactoryCandidate :=
  ⟨unitId, "k3", 4, 1 / 4, some ⟨"layer0", exampleDomain '1', 6, 1 / 2⟩⟩

/-- Two units of one group, each with a candidate of both domains. -/
def coupledUnits : FactoryUnion where
  units := [⟨"expert0", "layer0"⟩, ⟨"expert1", "layer0"⟩]
  allocatorCandidates := [small "expert0", large "expert0", small "expert1", large "expert1"]
  units_ne_nil := List.cons_ne_nil _ _
  units_nodup := by decide
  groups_ne_empty := by decide
  bytes_pos := by decide

theorem coupledUnits_checked : Checked coupledUnits := by decide +kernel

theorem large_compatible : Compatible coupledUnits [large "expert0", large "expert1"] := by
  have hkey : ∀ candidate ∈ [large "expert0", large "expert1"],
      domainKey candidate = domainKey (large "expert0") := by
    intro candidate hmem
    rcases List.mem_pair.mp hmem with rfl | rfl
    · rfl
    · rfl
  refine ⟨?_, by decide, by decide, ?_⟩
  · intro candidate hmem
    rcases List.mem_pair.mp hmem with rfl | rfl
    · exact List.mem_cons_of_mem _ List.mem_cons_self
    · exact List.mem_of_mem_getLast? rfl
  · intro first hfirst second hsecond key hown key' hown' _
    rw [hkey first hfirst, Option.mem_def] at hown
    rw [hkey second hsecond, hown, Option.mem_def] at hown'
    exact Option.some.inj hown'

theorem coupledUnits_dvd_fixed : ∀ candidate ∈ coupledUnits.allocatorCandidates,
    ∀ metadata ∈ candidate.metadata, (2 : ℤ) ∣ metadata.fixedSharedBytes := by
  intro candidate hmem metadata hmetadata
  have heven : metadata.fixedSharedBytes ∈ [(4 : ℤ), 6] := by
    revert metadata
    revert candidate
    simp [coupledUnits, small, large]
  rcases List.mem_pair.mp heven with heq | heq
  · rw [heq]
    decide
  · rw [heq]
    decide

theorem allocateFactoryUnion_optimal_twoUnits :
    ∃ result, allocateFactoryUnion (fun _ => "") coupledUnits 14 2 true = .ok result ∧
      FactoryOptimal true coupledUnits 14 result := by
  obtain ⟨hoptimal, hsucceeds⟩ :=
    allocateFactoryUnion_optimal (fun _ => "") coupledUnits 14 2 true
  obtain ⟨result, hrun⟩ := hsucceeds coupledUnits_checked (by decide) (by decide)
    (by decide) coupledUnits_dvd_fixed ⟨_, large_compatible, by decide⟩
  exact ⟨result, hrun, hoptimal result hrun⟩

/-- A budget that the quantum does not divide is refused, even where a
selection fits. -/
theorem allocateFactoryUnion_refuses_budget :
    Checked coupledUnits ∧
      (∀ candidate ∈ coupledUnits.allocatorCandidates, 2 ∣ candidate.storedBytes) ∧
      (∀ candidate ∈ coupledUnits.allocatorCandidates,
        ∀ metadata ∈ candidate.metadata, 2 ∣ metadata.fixedSharedBytes) ∧
      (∃ selection, Compatible coupledUnits selection ∧
        costOrder false (unionBytes coupledUnits selection) 15) ∧
      allocateFactoryUnion (fun _ => "") coupledUnits 15 2 false =
        .error .valueError := by
  exact ⟨coupledUnits_checked, by decide, coupledUnits_dvd_fixed,
    ⟨_, large_compatible, by decide⟩, rfl⟩

end GlmFlash.Alloc
