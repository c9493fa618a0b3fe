import GlmFlash.Alloc.FactoryAllocation
import GlmFlash.Alloc.GlobalOptimum

/-!
# The two knapsacks of the factory allocation

The inner frontier of a domain dominates every selection of one candidate for
each of its units, and the outer knapsack finds a best selection of profiles.
What dominates means depends on the mode: where the budget is to be filled,
costs are kept exactly.
-/

namespace GlmFlash.Alloc

open GlmFlash.Library

/-- How a cost may replace another one, and fit a budget. -/
def costOrder (exact : Bool) (left right : ℤ) : Prop :=
  if exact then left = right else left ≤ right

instance (exact : Bool) (left right : ℤ) :
    Decidable (costOrder exact left right) :=
  match exact with
  | true => inferInstanceAs (Decidable (left = right))
  | false => inferInstanceAs (Decidable (left ≤ right))

section CostOrder

variable {exact : Bool} {left right other : ℤ}

theorem costOrder_refl (value : ℤ) : costOrder exact value value := by
  cases exact
  · exact le_refl value
  · exact Eq.refl value

theorem costOrder.trans (hfirst : costOrder exact left right)
    (hsecond : costOrder exact right other) : costOrder exact left other := by
  cases exact
  · exact le_trans hfirst hsecond
  · exact Eq.trans hfirst hsecond

theorem costOrder.le (horder : costOrder exact left right) : left ≤ right := by
  cases exact
  · exact horder
  · exact Eq.le horder

theorem costOrder.add {left' right' : ℤ} (hfirst : costOrder exact left right)
    (hsecond : costOrder exact left' right') :
    costOrder exact (left + left') (right + right') := by
  cases exact
  · exact add_le_add hfirst hsecond
  · exact congrArg₂ (· + ·) hfirst hsecond

theorem costOrder_of_eq (heq : left = right) : costOrder exact left right :=
  heq ▸ costOrder_refl left

end CostOrder

variable {M : Type} {candidates selection : List (Candidate M)}

/-! ## The inner frontier -/

section Inner

variable {exact : Bool} {states : States M} {done : List String}
  {unitId : String}

theorem get?_bestByCost {bytes : ℤ} {choice : Candidate M}
    (hget : Dict.get? (keepAllBest (fun candidate : Candidate M =>
        toLex (candidate.predictedDamage, candidate.choiceId)) []
      (candidates.map fun candidate => (candidate.storedBytes, candidate)))
        bytes = some choice) :
    choice ∈ candidates ∧ choice.storedBytes = bytes := by
  rcases get?_keepAllBest hget with hmem | hnone
  · obtain ⟨candidate, hcandidate, heq⟩ := List.mem_map.mp hmem
    cases heq
    exact ⟨hcandidate, rfl⟩
  · cases hnone

theorem mem_of_mem_bestByCost {choice : Candidate M}
    (hmem : choice ∈ bestByCost candidates) : choice ∈ candidates := by
  obtain ⟨item, hitem, rfl⟩ := List.mem_map.mp hmem
  exact (get?_bestByCost
    (Dict.get?_of_mem (nodup_keepAllBest List.nodup_nil) hitem)).1

theorem bestByCost_dominates {candidate : Candidate M}
    (hmem : candidate ∈ candidates) :
    ∃ choice ∈ bestByCost candidates,
      choice.storedBytes = candidate.storedBytes ∧
        choice.predictedDamage ≤ candidate.predictedDamage := by
  have hitem : (candidate.storedBytes, candidate) ∈
      candidates.map fun candidate => (candidate.storedBytes, candidate) :=
    List.mem_map_of_mem hmem
  obtain ⟨choice, hchoice, hle⟩ := @keepAllBest_best _ _ _ _ _
    (fun candidate : Candidate M =>
      toLex (candidate.predictedDamage, candidate.choiceId)) [] _ _ _ hitem
  refine ⟨choice, List.mem_map.mpr ⟨_, Dict.mem_of_get? hchoice, rfl⟩,
    (get?_bestByCost hchoice).2, ?_⟩
  exact Prod.Lex.monotone_fst _ _ hle

/-- The choices that the loop tries for a unit. -/
def unitChoices (exact : Bool) (candidates : List (Candidate M)) :
    List (Candidate M) :=
  if exact then bestByCost candidates else paretoFrontier candidates

theorem mem_of_mem_unitChoices {choice : Candidate M}
    (hmem : choice ∈ unitChoices exact candidates) : choice ∈ candidates := by
  cases exact
  · exact mem_of_mem_paretoFrontier hmem
  · exact mem_of_mem_bestByCost hmem

theorem unitChoices_dominates {candidate : Candidate M}
    (hmem : candidate ∈ candidates) :
    ∃ choice ∈ unitChoices exact candidates,
      costOrder exact choice.storedBytes candidate.storedBytes ∧
        choice.predictedDamage ≤ candidate.predictedDamage := by
  cases exact
  · exact paretoFrontier_dominates hmem
  · exact bestByCost_dominates hmem

/-- The states stand for the selections of the units done, of any cost. -/
def InternalRepresents (candidates : List (Candidate M)) (exact : Bool)
    (done : List String) (states : States M) : Prop :=
  Sound Candidate.storedBytes Candidate.predictedDamage
      (done.map (ofUnit candidates)) states ∧
    Covers Candidate.storedBytes Candidate.predictedDamage (costOrder exact)
      (fun _ => True) (done.map (ofUnit candidates)) states

/-- The states that a unit proposes, before they are pruned. -/
def unitStates (candidates : List (Candidate M)) (exact : Bool)
    (states : States M) (unitId : String) : States M :=
  newStates Prod.fst Candidate.storedBytes (fun _ => true) states
    (unitChoices exact (ofUnit candidates unitId))

theorem unitStates_represents
    (hstates : InternalRepresents candidates exact done states) :
    InternalRepresents candidates exact (done ++ [unitId])
      (unitStates candidates exact states unitId) := by
  obtain ⟨hsound, hcovers⟩ := hstates
  have hgroups : (done ++ [unitId]).map (ofUnit candidates) =
      done.map (ofUnit candidates) ++ [ofUnit candidates unitId] := by
    rw [List.map_append, List.map_singleton]
  rw [InternalRepresents, hgroups]
  refine ⟨Sound.newStates hsound fun _ => mem_of_mem_unitChoices, ?_⟩
  refine hcovers.snoc (fun _ _ value horder => horder.add (costOrder_refl value))
    (fun _ _ _ => costOrder.trans) (fun _ _ _ _ => trivial)
    (fun _ _ _ _ => trivial) (fun _ => unitChoices_dominates) ?_
  intro state hstate choice hchoice _
  obtain ⟨entry, hentry, hcost, hdamage⟩ :=
    @newStates_extend _ _ _ Prod.fst Candidate.storedBytes (fun _ => true) _ _
      (fun _ _ => id) _ hstate _ hchoice rfl
  exact ⟨entry, hentry, costOrder_of_eq hcost, hdamage⟩

theorem frontierUnit_represents
    (hstates : InternalRepresents candidates exact done states) :
    InternalRepresents candidates exact (done ++ [unitId])
      (frontierUnit candidates exact states unitId) := by
  have hnext := @unitStates_represents _ _ _ _ _ unitId hstates
  cases exact
  · -- A pruned state is dominated by a cheaper one.
    refine ⟨fun entry hmem => hnext.1 entry (mem_of_mem_pruneStates hmem), ?_⟩
    exact hnext.2.prune (fun _ _ _ => costOrder.trans)
      fun entry hmem => pruneStates_dominates hmem
  · exact hnext

theorem internalStates_represents :
    InternalRepresents candidates exact (unitIds candidates)
      (internalStates candidates exact) := by
  have hstart : InternalRepresents candidates exact [] [(0, (0, []))] :=
    ⟨Sound.nil, Covers.nil costOrder_refl⟩
  have hfinal : InternalRepresents candidates exact
      ([] ++ unitIds candidates) (internalStates candidates exact) :=
    foldl_prefix (fun _ _ _ => frontierUnit_represents) hstart
  rw [List.nil_append] at hfinal
  exact hfinal

variable {expectedUnits : Finset String} {quantum : ℤ}
  {profiles : List (Candidate (List (Candidate M)))}

/-- A profile of a domain is a selection of its units, with its sums. -/
theorem mem_internalFrontier {profile : Candidate (List (Candidate M))}
    (hrun : internalFrontier candidates expectedUnits quantum exact =
      .ok profiles) (hprofile : profile ∈ profiles) :
    (candidates.map Candidate.unitId).toFinset = expectedUnits ∧
      (∀ candidate ∈ candidates, candidate.storedBytes % quantum = 0) ∧
      OnePerUnit candidates (profile.metadata.getD []) ∧
      profile.storedBytes =
        total Candidate.storedBytes (profile.metadata.getD []) ∧
      profile.predictedDamage =
        total Candidate.predictedDamage (profile.metadata.getD []) := by
  rw [internalFrontier] at hrun
  split at hrun
  · rw [pure_eq_ok] at hrun
    rw [← hrun] at hprofile
    cases hprofile
  · rename_i hunits
    simp only [bind_eq_ok, require_eq_ok, pure_eq_ok] at hrun
    obtain ⟨-, ⟨-, hbytes⟩, rfl⟩ := hrun
    obtain ⟨state, hstate, rfl⟩ := List.mem_map.mp hprofile
    obtain ⟨hselects, hcost, hdamage⟩ :=
      internalStates_represents.1 state ((mem_sortBy _).mp hstate)
    exact ⟨not_not.mp hunits, hbytes, onePerUnit_of_selects hselects, hcost,
      hdamage⟩

theorem internalFrontier_dominates
    (hrun : internalFrontier candidates expectedUnits quantum exact =
      .ok profiles)
    (hunits : (candidates.map Candidate.unitId).toFinset = expectedUnits)
    (hone : OnePerUnit candidates selection) :
    ∃ profile ∈ profiles,
      costOrder exact profile.storedBytes
          (total Candidate.storedBytes selection) ∧
        profile.predictedDamage ≤ total Candidate.predictedDamage selection := by
  rw [internalFrontier, if_neg (not_not.mpr hunits)] at hrun
  simp only [bind_eq_ok, require_eq_ok, pure_eq_ok] at hrun
  obtain ⟨-, -, rfl⟩ := hrun
  obtain ⟨ordered, hordered, hselects⟩ := hone.exists_selects
  obtain ⟨state, hstate, hcost, hdamage⟩ :=
    internalStates_represents.2 ordered hselects trivial
  rw [total_perm hordered] at hcost hdamage
  exact ⟨internalProfile state,
    List.mem_map_of_mem ((mem_sortBy _).mpr hstate), hcost, hdamage⟩

theorem internalFrontier_succeeds (hquantum : 1 ≤ quantum)
    (hbytes : ∀ candidate ∈ candidates, quantum ∣ candidate.storedBytes) :
    ∃ profiles, internalFrontier candidates expectedUnits quantum exact =
      .ok profiles := by
  rw [internalFrontier]
  split
  · exact ⟨[], rfl⟩
  · have hchecks : 1 ≤ quantum ∧
        ∀ candidate ∈ candidates, candidate.storedBytes % quantum = 0 :=
      ⟨hquantum, fun candidate hmem =>
        Int.emod_eq_zero_of_dvd (hbytes candidate hmem)⟩
    simp only [bind_eq_ok, require_eq_ok, pure_eq_ok]
    exact ⟨_, (), hchecks, rfl⟩

end Inner

/-! ## The outer knapsack -/

section Outer

variable {outer chosen : List Profile} {byteBudget quantum : ℤ}
  {states final : States ProfileMetadata} {done units : List String}
  {group : String} {exact : Bool} {allocation : Allocation ProfileMetadata}

/-- The states stand for the selections of the groups done, cost by cost. -/
def ExactRepresents (outer : List Profile) (byteBudget : ℤ)
    (done : List String) (states : States ProfileMetadata) : Prop :=
  Sound Candidate.storedBytes Candidate.predictedDamage
      (done.map (ofUnit outer)) states ∧
    Covers Candidate.storedBytes Candidate.predictedDamage (· = ·)
      (· ≤ byteBudget) (done.map (ofUnit outer)) states ∧
    states.keys.Nodup

/-- The states that a group proposes. -/
def groupStates (outer : List Profile) (byteBudget : ℤ)
    (states : States ProfileMetadata) (group : String) :
    States ProfileMetadata :=
  newStates (fun value => toLex (value.1, value.2.map Candidate.choiceId))
    Candidate.storedBytes (fun used => decide (used ≤ byteBudget)) states
    (ofUnit outer group)

theorem groupStates_represents
    (hbytes : ∀ profile ∈ outer, 0 ≤ profile.storedBytes)
    (hstates : ExactRepresents outer byteBudget done states) :
    ExactRepresents outer byteBudget (done ++ [group])
      (groupStates outer byteBudget states group) := by
  obtain ⟨hsound, hcovers, -⟩ := hstates
  have hgroups : (done ++ [group]).map (ofUnit outer) =
      done.map (ofUnit outer) ++ [ofUnit outer group] := by
    rw [List.map_append, List.map_singleton]
  rw [ExactRepresents, hgroups]
  refine ⟨Sound.newStates hsound fun _ => id, ?_, nodup_newStates⟩
  refine hcovers.snoc (fun _ _ value heq => congrArg (· + value) heq)
    (fun _ _ _ => Eq.trans) (fun _ _ heq => heq.le.trans) ?_
    (fun profile hmem => ⟨profile, hmem, rfl, le_rfl⟩) ?_
  · intro profile hmem value hle
    have hnonneg := hbytes profile (mem_ofUnit.mp hmem).1
    omega
  · intro state hstate choice hchoice hle
    obtain ⟨entry, hentry, hcost, hdamage⟩ :=
      @newStates_extend _ _ _
        (fun value : ℚ × List Profile =>
          toLex (value.1, value.2.map Candidate.choiceId))
        Candidate.storedBytes (fun used => decide (used ≤ byteBudget)) _ _
        (fun _ _ => Prod.Lex.monotone_fst _ _) _ hstate _ hchoice
        (decide_eq_true hle)
    exact ⟨entry, hentry, hcost, hdamage⟩

theorem exactGroup_eq_ok {next : States ProfileMetadata}
    (hrun : exactGroup outer byteBudget states group = .ok next) :
    next = groupStates outer byteBudget states group := by
  simp only [exactGroup, bind_eq_ok, require_eq_ok, pure_eq_ok] at hrun
  obtain ⟨-, -, hnext⟩ := hrun
  exact hnext.symm

theorem exactRepresents_nil :
    ExactRepresents outer byteBudget [] [(0, (0, []))] :=
  ⟨Sound.nil, Covers.nil fun _ => rfl, List.nodup_singleton 0⟩

theorem exactGroups_represents
    (hbytes : ∀ profile ∈ outer, 0 ≤ profile.storedBytes)
    (hstates : ExactRepresents outer byteBudget done states)
    (hrun : units.foldlM (exactGroup outer byteBudget) states = .ok final) :
    ExactRepresents outer byteBudget (done ++ units) final := by
  refine foldlM_prefix ?_ hrun hstates
  intro done group states next hround hbefore
  rw [exactGroup_eq_ok hround]
  exact groupStates_represents hbytes hbefore

theorem exactGroups_succeeds
    (hbytes : ∀ profile ∈ outer, 0 ≤ profile.storedBytes)
    (hstates : ExactRepresents outer byteBudget done states)
    (hselects : Selects chosen ((done ++ units).map (ofUnit outer)))
    (hfits : total Candidate.storedBytes chosen ≤ byteBudget) :
    ∃ final, units.foldlM (exactGroup outer byteBudget) states = .ok final := by
  have hnonneg : ∀ profile ∈ chosen, 0 ≤ profile.storedBytes :=
    fun profile hmem =>
      hbytes profile ((selects_ofUnit_iff.mp hselects).1 profile hmem)
  refine foldlM_prefix_succeeds ?_ hstates
  intro before group after hsplit states hbefore
  have hnext := @groupStates_represents _ _ _ _ group hbytes hbefore
  have hsome : groupStates outer byteBudget states group ≠ [] := by
    rw [hsplit, List.append_cons, List.map_append] at hselects
    obtain ⟨entry, hentry, -⟩ := hnext.2.1 _
      (List.forall₂_take_append _ _ _ hselects)
      ((total_take_le hnonneg _).trans hfits)
    exact List.ne_nil_of_mem hentry
  refine ⟨_, ?_, hnext⟩
  simp only [exactGroup, bind_eq_ok, require_eq_ok, pure_eq_ok]
  exact ⟨(), hsome, rfl⟩

/-- A selection of profiles that no other one of a fitting cost improves on. -/
structure OuterOptimal (exact : Bool) (outer : List Profile) (byteBudget : ℤ)
    (allocation : Allocation ProfileMetadata) : Prop where
  onePerUnit : OnePerUnit outer allocation.choices
  storedBytes :
    allocation.storedBytes = total Candidate.storedBytes allocation.choices
  predictedDamage : allocation.predictedDamage =
    total Candidate.predictedDamage allocation.choices
  fits : costOrder exact allocation.storedBytes byteBudget
  least : ∀ other, OnePerUnit outer other →
    costOrder exact (total Candidate.storedBytes other) byteBudget →
      allocation.predictedDamage ≤ total Candidate.predictedDamage other

theorem allocateExactly_eq_ok
    (hbytes : ∀ profile ∈ outer, 0 ≤ profile.storedBytes)
    (hrun : allocateExactly outer byteBudget = .ok allocation) :
    OuterOptimal true outer byteBudget allocation := by
  rw [allocateExactly, bind_eq_ok] at hrun
  obtain ⟨final, hfinal, hlookup⟩ := hrun
  have hstates := exactGroups_represents hbytes exactRepresents_nil hfinal
  rw [List.nil_append] at hstates
  obtain ⟨hsound, hcovers, hnodup⟩ := hstates
  split at hlookup
  · cases hlookup
  rename_i value hget
  cases hlookup
  obtain ⟨hselects, hcost, hdamage⟩ := hsound _ (Dict.mem_of_get? hget)
  refine ⟨onePerUnit_of_selects hselects, hcost, hdamage, rfl, ?_⟩
  intro other hother hfills
  obtain ⟨ordered, hordered, hselects'⟩ := hother.exists_selects
  have hexact : total Candidate.storedBytes ordered = byteBudget :=
    (total_perm hordered).trans hfills
  obtain ⟨entry, hentry, hused, hle⟩ := hcovers ordered hselects' hexact.le
  -- The entry of this cost is the one that is looked up.
  have hsame : Dict.get? final byteBudget = some entry.2 :=
    Dict.get?_of_mem hnodup ((hused.trans hexact) ▸ hentry)
  rw [hget, Option.some.injEq] at hsame
  rw [← total_perm hordered, hsame]
  exact hle

theorem allocateExactly_succeeds
    (hbytes : ∀ profile ∈ outer, 0 ≤ profile.storedBytes)
    (hone : OnePerUnit outer chosen)
    (hfills : total Candidate.storedBytes chosen = byteBudget) :
    ∃ allocation, allocateExactly outer byteBudget = .ok allocation := by
  obtain ⟨ordered, hordered, hselects⟩ := hone.exists_selects
  have hexact : total Candidate.storedBytes ordered = byteBudget :=
    (total_perm hordered).trans hfills
  have hloop : ∃ final, (unitIds outer).foldlM (exactGroup outer byteBudget)
      [(0, (0, []))] = .ok final :=
    exactGroups_succeeds hbytes exactRepresents_nil hselects hexact.le
  obtain ⟨final, hfinal⟩ := hloop
  have hstates := exactGroups_represents hbytes exactRepresents_nil hfinal
  obtain ⟨entry, hentry, hused, -⟩ := hstates.2.1 ordered hselects hexact.le
  have hget : Dict.get? final byteBudget = some entry.2 :=
    Dict.get?_of_mem hstates.2.2 ((hused.trans hexact) ▸ hentry)
  refine ⟨⟨entry.2.2, byteBudget, entry.2.1⟩, ?_⟩
  rw [allocateExactly, hfinal, ok_bind, hget]
  rfl

theorem allocateOuter_eq_ok
    (haccepted : Accepted outer byteBudget quantum)
    (hrun : allocateOuter exact outer byteBudget quantum = .ok allocation) :
    OuterOptimal exact outer byteBudget allocation := by
  cases exact
  · have hoptimal := allocate_eq_ok haccepted hrun
    refine ⟨hoptimal.feasible.1, hoptimal.storedBytes,
      hoptimal.predictedDamage, ?_, ?_⟩
    · rw [hoptimal.storedBytes]
      exact hoptimal.feasible.2
    · intro other hother hfits
      exact (hoptimal.least other ⟨hother, hfits⟩).1
  · exact allocateExactly_eq_ok
      (fun profile hmem => (haccepted.wellFormed profile hmem).2.2) hrun

theorem allocateOuter_succeeds
    (haccepted : Accepted outer byteBudget quantum)
    (hone : OnePerUnit outer chosen)
    (hfits : costOrder exact (total Candidate.storedBytes chosen) byteBudget) :
    ∃ allocation,
      allocateOuter exact outer byteBudget quantum = .ok allocation := by
  cases exact
  · exact allocate_succeeds haccepted ⟨hone, hfits⟩
  · exact allocateExactly_succeeds
      (fun profile hmem => (haccepted.wellFormed profile hmem).2.2) hone hfits

end Outer

end GlmFlash.Alloc
