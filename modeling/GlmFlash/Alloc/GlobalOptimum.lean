import GlmFlash.Alloc.GlobalDp
import Mathlib.Algebra.BigOperators.Ring.List

/-!
# The global allocator finds an optimum

Every selection of one candidate for each unit is dominated by a state of the
dynamic program: the frontier of a unit dominates its candidates, and what is
pruned after a unit is dominated by a cheaper state.  The last state of least
damage, and among these of least cost, is therefore a best selection.
-/

namespace GlmFlash.Alloc

open GlmFlash.Library

variable {M : Type} {candidates selection : List (Candidate M)}

/-- Exactly one candidate for each unit. -/
structure OnePerUnit (candidates selection : List (Candidate M)) : Prop where
  mem : ∀ candidate ∈ selection, candidate ∈ candidates
  nodup : (selection.map Candidate.unitId).Nodup
  covers : ∀ candidate ∈ candidates,
    candidate.unitId ∈ selection.map Candidate.unitId

def Feasible (candidates : List (Candidate M)) (byteBudget : ℤ)
    (selection : List (Candidate M)) : Prop :=
  OnePerUnit candidates selection ∧
    total Candidate.storedBytes selection ≤ byteBudget

/-! ## Units -/

theorem mem_unitIds {unitId : String} :
    unitId ∈ unitIds candidates ↔
      ∃ candidate ∈ candidates, candidate.unitId = unitId := by
  rw [unitIds, mem_sortBy, List.mem_dedup, List.mem_map]

theorem nodup_unitIds : (unitIds candidates).Nodup := by
  rw [unitIds, (sortBy_perm _ _).nodup_iff]
  exact List.nodup_dedup _

theorem mem_ofUnit {unitId : String} {candidate : Candidate M} :
    candidate ∈ ofUnit candidates unitId ↔
      candidate ∈ candidates ∧ candidate.unitId = unitId := by
  rw [ofUnit, List.mem_filter, decide_eq_true_eq]

/-- The candidates, unit by unit. -/
def groups (candidates : List (Candidate M)) : List (List (Candidate M)) :=
  (unitIds candidates).map (ofUnit candidates)

theorem selects_ofUnit_iff {units : List String} :
    Selects selection (units.map (ofUnit candidates)) ↔
      (∀ candidate ∈ selection, candidate ∈ candidates) ∧
        selection.map Candidate.unitId = units := by
  constructor
  · intro hselects
    induction units generalizing selection with
    | nil =>
        have hempty : selection = [] :=
          List.forall₂_nil_right_iff.mp hselects
        subst hempty
        exact ⟨fun _ hmem => absurd hmem List.not_mem_nil, rfl⟩
    | cons unitId units ih =>
        obtain ⟨candidate, rest, hmem, hrest, rfl⟩ :=
          List.forall₂_cons_right_iff.mp hselects
        obtain ⟨hall, hids⟩ := ih hrest
        obtain ⟨hcandidate, hunit⟩ := mem_ofUnit.mp hmem
        refine ⟨?_, by rw [List.map_cons, hunit, hids]⟩
        intro other hother
        rcases List.mem_cons.mp hother with rfl | hother
        · exact hcandidate
        · exact hall other hother
  · rintro ⟨hall, rfl⟩
    induction selection with
    | nil => exact .nil
    | cons candidate rest ih =>
        have hrest : ∀ other ∈ rest, other ∈ candidates := fun other hmem =>
          hall other (List.mem_cons_of_mem candidate hmem)
        exact .cons (mem_ofUnit.mpr
          ⟨hall candidate List.mem_cons_self, rfl⟩) (ih hrest)

theorem onePerUnit_of_selects (hselects : Selects selection (groups candidates)) :
    OnePerUnit candidates selection := by
  obtain ⟨hall, hids⟩ := selects_ofUnit_iff.mp hselects
  refine ⟨hall, hids ▸ nodup_unitIds, ?_⟩
  intro candidate hmem
  rw [hids]
  exact mem_unitIds.mpr ⟨candidate, hmem, rfl⟩

/-- A selection can be put in the order of the units. -/
theorem OnePerUnit.exists_selects (hone : OnePerUnit candidates selection) :
    ∃ ordered, ordered.Perm selection ∧
      Selects ordered (groups candidates) := by
  have hperm : (selection.map Candidate.unitId).Perm (unitIds candidates) := by
    rw [List.perm_ext_iff_of_nodup hone.nodup nodup_unitIds]
    intro unitId
    rw [mem_unitIds]
    constructor
    · intro hmem
      obtain ⟨candidate, hcandidate, rfl⟩ := List.mem_map.mp hmem
      exact ⟨candidate, hone.mem candidate hcandidate, rfl⟩
    · rintro ⟨candidate, hcandidate, rfl⟩
      exact hone.covers candidate hcandidate
  obtain ⟨ordered, hordered, hids⟩ := exists_perm_map_eq hperm
  refine ⟨ordered, hordered, selects_ofUnit_iff.mpr ⟨?_, hids⟩⟩
  intro candidate hmem
  exact hone.mem candidate (hordered.mem_iff.mp hmem)

/-! ## The frontier of a unit -/

theorem mem_of_mem_paretoFrontier {candidate : Candidate M}
    (hmem : candidate ∈ paretoFrontier candidates) : candidate ∈ candidates :=
  (mem_sortBy _).mp (improving_sublist.mem hmem)

theorem paretoFrontier_dominates {candidate : Candidate M}
    (hmem : candidate ∈ candidates) :
    ∃ choice ∈ paretoFrontier candidates,
      choice.storedBytes ≤ candidate.storedBytes ∧
        choice.predictedDamage ≤ candidate.predictedDamage := by
  have hsorted : (sortBy Candidate.frontierKey candidates).Pairwise
      fun first second => first.storedBytes ≤ second.storedBytes :=
    (pairwise_sortBy Candidate.frontierKey candidates).imp fun hle =>
      Prod.Lex.monotone_fst _ _ hle
  exact improving_dominates hsorted ((mem_sortBy _).mpr hmem)
    (WithTop.coe_lt_top _)

/-! ## The states -/

section States

variable {V : Type} [LinearOrder V] {measure : ℚ × List (Candidate M) → V}
  {cost : Candidate M → ℤ} {admitted : ℤ → Bool} {states : States M}
  {choices : List (Candidate M)} {entry : ℤ × (ℚ × List (Candidate M))}

theorem mem_extensions :
    entry ∈ extensions cost admitted states choices ↔
      ∃ state ∈ states, ∃ choice ∈ choices,
        admitted (state.1 + cost choice) = true ∧
          (state.1 + cost choice, (state.2.1 + choice.predictedDamage,
            state.2.2 ++ [choice])) = entry := by
  simp only [extensions, List.mem_flatMap, List.mem_map, List.mem_filter,
    and_assoc]

/-- What the two inner loops keep of the extensions, by some measure. -/
def newStates (measure : ℚ × List (Candidate M) → V)
    (cost : Candidate M → ℤ) (admitted : ℤ → Bool)
    (states : States M) (choices : List (Candidate M)) : States M :=
  keepAllBest measure [] (extensions cost admitted states choices)

theorem nodup_newStates :
    (newStates measure cost admitted states choices).keys.Nodup :=
  nodup_keepAllBest List.nodup_nil

theorem mem_extensions_of_mem_newStates
    (hmem : entry ∈ newStates measure cost admitted states choices) :
    entry ∈ extensions cost admitted states choices := by
  have hget := Dict.get?_of_mem nodup_newStates hmem
  rcases get?_keepAllBest hget with hmem | hnone
  · exact hmem
  · cases hnone

theorem newStates_extend (hmeasure : ∀ first second,
      measure first ≤ measure second → first.1 ≤ second.1)
    {state : ℤ × (ℚ × List (Candidate M))}
    (hstate : state ∈ states) {choice : Candidate M}
    (hchoice : choice ∈ choices)
    (hadmitted : admitted (state.1 + cost choice) = true) :
    ∃ entry ∈ newStates measure cost admitted states choices,
      entry.1 = state.1 + cost choice ∧
        entry.2.1 ≤ state.2.1 + choice.predictedDamage := by
  have hmem : (state.1 + cost choice, (state.2.1 + choice.predictedDamage,
      state.2.2 ++ [choice])) ∈ extensions cost admitted states choices :=
    mem_extensions.mpr ⟨state, hstate, choice, hchoice, hadmitted, rfl⟩
  obtain ⟨kept, hkept, hle⟩ := @keepAllBest_best _ _ _ _ _ measure [] _ _ _ hmem
  exact ⟨_, Dict.mem_of_get? hkept, rfl, hmeasure _ _ hle⟩

/-- The new states stand for selections of one group more. -/
theorem Sound.newStates {groups : List (List (Candidate M))}
    {group : List (Candidate M)}
    (hsound : Sound cost Candidate.predictedDamage groups states)
    (hchoices : ∀ choice ∈ choices, choice ∈ group) :
    Sound cost Candidate.predictedDamage (groups ++ [group])
      (newStates measure cost admitted states choices) := by
  apply hsound.snoc hchoices
  intro entry hentry
  obtain ⟨state, hstate, choice, hchoice, -, heq⟩ :=
    mem_extensions.mp (mem_extensions_of_mem_newStates hentry)
  exact ⟨state, hstate, choice, hchoice, heq.symm⟩

theorem mem_of_mem_pruneStates (hmem : entry ∈ pruneStates states) :
    entry ∈ states :=
  (mem_sortBy _).mp (improving_sublist.mem hmem)

theorem pruneStates_dominates (hmem : entry ∈ states) :
    ∃ kept ∈ pruneStates states,
      kept.1 ≤ entry.1 ∧ kept.2.1 ≤ entry.2.1 := by
  exact improving_dominates (pairwise_sortBy Prod.fst states)
    ((mem_sortBy _).mpr hmem) (WithTop.coe_lt_top _)

end States

/-! ## The units, one after the other -/

section Units

variable {budget quantum byteBudget : ℤ} {states final : States M}
  {units done : List String} {unitId : String}

/-- The cost of a candidate in quanta. -/
def quanta (quantum : ℤ) (candidate : Candidate M) : ℤ :=
  candidate.storedBytes / quantum

/-- The states stand for the selections of the units done. -/
def Represents (candidates : List (Candidate M)) (budget quantum : ℤ)
    (done : List String) (states : States M) : Prop :=
  Sound (quanta quantum) Candidate.predictedDamage
      (done.map (ofUnit candidates)) states ∧
    Covers (quanta quantum) Candidate.predictedDamage (· ≤ ·) (· ≤ budget)
      (done.map (ofUnit candidates)) states ∧
    ∀ state ∈ states, state.1 ≤ budget

theorem represents_nil (hbudget : 0 ≤ budget) :
    Represents candidates budget quantum [] [(0, (0, []))] := by
  refine ⟨Sound.nil, Covers.nil le_refl, ?_⟩
  intro state hmem
  rw [List.mem_singleton.mp hmem]
  exact hbudget

theorem quanta_nonneg (hquantum : 1 ≤ quantum) {candidate : Candidate M}
    (hwell : candidate.WellFormed) : 0 ≤ quanta quantum candidate :=
  Int.ediv_nonneg hwell.2.2 (by omega)

theorem newStates_represents (hquantum : 1 ≤ quantum)
    (hwell : ∀ candidate ∈ candidates, candidate.WellFormed)
    (hstates : Represents candidates budget quantum done states) :
    Represents candidates budget quantum (done ++ [unitId])
      (newStates Prod.fst (quanta quantum) (fun used => decide (used ≤ budget)) states
        (paretoFrontier (ofUnit candidates unitId))) := by
  obtain ⟨hsound, hcovers, -⟩ := hstates
  have hgroups : (done ++ [unitId]).map (ofUnit candidates) =
      done.map (ofUnit candidates) ++ [ofUnit candidates unitId] := by
    rw [List.map_append, List.map_singleton]
  rw [Represents, hgroups]
  refine ⟨Sound.newStates hsound (fun _ => mem_of_mem_paretoFrontier), ?_, ?_⟩
  · have hfrontier : ∀ item ∈ ofUnit candidates unitId,
        ∃ choice ∈ paretoFrontier (ofUnit candidates unitId),
          quanta quantum choice ≤ quanta quantum item ∧
            choice.predictedDamage ≤ item.predictedDamage := by
      intro item hitem
      obtain ⟨choice, hchoice, hbytes, hdamage⟩ :=
        paretoFrontier_dominates hitem
      exact ⟨choice, hchoice, Int.ediv_le_ediv (by omega) hbytes, hdamage⟩
    refine hcovers.snoc (fun _ _ value hle => Int.add_le_add_right hle value)
      (fun _ _ _ => le_trans) (fun _ _ => le_trans) ?_ hfrontier ?_
    · intro item hitem value hle
      have hnonneg := quanta_nonneg hquantum
        (hwell item (mem_ofUnit.mp hitem).1)
      omega
    · intro state hstate choice hchoice hle
      obtain ⟨entry, hentry, hcost, hdamage⟩ :=
        @newStates_extend _ _ _ Prod.fst (quanta quantum)
          (fun used => decide (used ≤ budget)) _ _ (fun _ _ => id) _ hstate _
          hchoice (decide_eq_true hle)
      exact ⟨entry, hentry, hcost.le, hdamage⟩
  · intro entry hentry
    obtain ⟨state, -, choice, -, hadmitted, rfl⟩ :=
      mem_extensions.mp (mem_extensions_of_mem_newStates hentry)
    exact of_decide_eq_true hadmitted

theorem pruneStates_represents
    (hstates : Represents candidates budget quantum done states) :
    Represents candidates budget quantum done (pruneStates states) := by
  obtain ⟨hsound, hcovers, hbudget⟩ := hstates
  refine ⟨fun entry hmem => hsound entry (mem_of_mem_pruneStates hmem), ?_,
    fun entry hmem => hbudget entry (mem_of_mem_pruneStates hmem)⟩
  exact hcovers.prune (fun _ _ _ => le_trans)
    fun entry hmem => pruneStates_dominates hmem

theorem allocateUnit_eq_ok {next : States M}
    (hrun : allocateUnit candidates budget quantum states unitId = .ok next) :
    next = pruneStates (newStates Prod.fst (quanta quantum)
      (fun used => decide (used ≤ budget)) states
      (paretoFrontier (ofUnit candidates unitId))) := by
  simp only [allocateUnit, bind_eq_ok, require_eq_ok, pure_eq_ok] at hrun
  obtain ⟨-, -, hnext⟩ := hrun
  exact hnext.symm

/-- Whatever the loop ends with stands for all selections. -/
theorem allocateUnits_represents (hquantum : 1 ≤ quantum)
    (hwell : ∀ candidate ∈ candidates, candidate.WellFormed)
    (hstates : Represents candidates budget quantum done states)
    (hrun : units.foldlM (allocateUnit candidates budget quantum) states =
      .ok final) :
    Represents candidates budget quantum (done ++ units) final := by
  refine foldlM_prefix ?_ hrun hstates
  intro done unitId states next hround hbefore
  rw [allocateUnit_eq_ok hround]
  exact pruneStates_represents (newStates_represents hquantum hwell hbefore)

/-- The loop runs to its end when some selection fits. -/
theorem allocateUnits_succeeds (hquantum : 1 ≤ quantum)
    (hwell : ∀ candidate ∈ candidates, candidate.WellFormed)
    (hstates : Represents candidates budget quantum done states)
    (hselects : Selects selection ((done ++ units).map (ofUnit candidates)))
    (hfits : total (quanta quantum) selection ≤ budget) :
    ∃ final, units.foldlM (allocateUnit candidates budget quantum) states =
      .ok final := by
  have hnonneg : ∀ candidate ∈ selection, 0 ≤ quanta quantum candidate :=
    fun candidate hmem => quanta_nonneg hquantum
      (hwell candidate ((selects_ofUnit_iff.mp hselects).1 candidate hmem))
  refine foldlM_prefix_succeeds ?_ hstates
  intro before unitId after hsplit states hbefore
  have hnext := @newStates_represents _ _ _ _ _ _ unitId hquantum hwell hbefore
  -- The part of the selection for the units done is dominated.
  have hsome : newStates Prod.fst (quanta quantum)
      (fun used => decide (used ≤ budget)) states
      (paretoFrontier (ofUnit candidates unitId)) ≠ [] := by
    rw [hsplit, List.append_cons, List.map_append] at hselects
    obtain ⟨entry, hentry, -⟩ := hnext.2.1 _
      (List.forall₂_take_append _ _ _ hselects)
      ((total_take_le hnonneg _).trans hfits)
    exact List.ne_nil_of_mem hentry
  refine ⟨_, ?_, pruneStates_represents hnext⟩
  simp only [allocateUnit, bind_eq_ok, require_eq_ok, pure_eq_ok]
  exact ⟨(), hsome, rfl⟩

theorem allocateUnit_eq_error {failure : Failure}
    (hrun : allocateUnit candidates budget quantum states unitId =
      .error failure) : failure = .valueError := by
  simp only [allocateUnit, bind_eq_error, require_eq_error, pure_ne_error,
    and_false, exists_false, or_false] at hrun
  exact hrun.2.symm

end Units

/-! ## The allocation -/

section Allocation

variable {byteBudget quantum : ℤ} {allocation : Allocation M}
  {final : States M}

/-- The allocation is a feasible selection, with its sums, that no other one
improves on in damage, nor in bytes at the same damage. -/
structure Optimal (candidates : List (Candidate M)) (byteBudget : ℤ)
    (allocation : Allocation M) : Prop where
  feasible : Feasible candidates byteBudget allocation.choices
  storedBytes :
    allocation.storedBytes = total Candidate.storedBytes allocation.choices
  predictedDamage : allocation.predictedDamage =
    total Candidate.predictedDamage allocation.choices
  least : ∀ other, Feasible candidates byteBudget other →
    allocation.predictedDamage ≤ total Candidate.predictedDamage other ∧
      (allocation.predictedDamage = total Candidate.predictedDamage other →
        allocation.storedBytes ≤ total Candidate.storedBytes other)

/-- What `allocate` checks of its arguments. -/
structure Accepted (candidates : List (Candidate M)) (byteBudget quantum : ℤ) :
    Prop where
  quantum_pos : 1 ≤ quantum
  wellFormed : ∀ candidate ∈ candidates, candidate.WellFormed
  dvd_budget : quantum ∣ byteBudget
  dvd_bytes : ∀ candidate ∈ candidates, quantum ∣ candidate.storedBytes

theorem total_quanta
    (hdvd : ∀ candidate ∈ selection, quantum ∣ candidate.storedBytes) :
    quantum * total (quanta quantum) selection =
      total Candidate.storedBytes selection := by
  rw [total, ← List.sum_map_mul_left]
  congr 1
  apply List.map_congr_left
  intro candidate hmem
  exact Int.mul_ediv_cancel' (hdvd candidate hmem)

/-- A selection fits in bytes when it fits in quanta. -/
theorem fits_iff (haccepted : Accepted candidates byteBudget quantum)
    (hmem : ∀ candidate ∈ selection, candidate ∈ candidates) :
    total (quanta quantum) selection ≤ byteBudget / quantum ↔
      total Candidate.storedBytes selection ≤ byteBudget := by
  have hpos : 0 < quantum := haccepted.quantum_pos
  rw [Int.le_ediv_iff_mul_le hpos, mul_comm, total_quanta fun candidate hcand =>
    haccepted.dvd_bytes candidate (hmem candidate hcand)]

theorem Feasible.byteBudget_nonneg
    (haccepted : Accepted candidates byteBudget quantum)
    (hfeasible : Feasible candidates byteBudget selection) :
    0 ≤ byteBudget := by
  obtain ⟨hone, hfits⟩ := hfeasible
  have hnonneg : 0 ≤ total Candidate.storedBytes selection :=
    total_nonneg fun candidate hmem =>
      (haccepted.wellFormed candidate (hone.mem candidate hmem)).2.2
  exact hnonneg.trans hfits

/-- The states after the last unit. -/
def finalStates (candidates : List (Candidate M)) (byteBudget quantum : ℤ) :
    Except Failure (States M) :=
  (unitIds candidates).foldlM
    (allocateUnit candidates (byteBudget / quantum) quantum) [(0, (0, []))]

theorem finalStates_represents
    (haccepted : Accepted candidates byteBudget quantum)
    (hbudget : 0 ≤ byteBudget)
    (hrun : finalStates candidates byteBudget quantum = .ok final) :
    Represents candidates (byteBudget / quantum) quantum (unitIds candidates)
      final := by
  have hstart : 0 ≤ byteBudget / quantum :=
    Int.ediv_nonneg hbudget (by linarith [haccepted.quantum_pos])
  have hfinal := allocateUnits_represents haccepted.quantum_pos
    haccepted.wellFormed (represents_nil hstart) hrun
  rw [List.nil_append] at hfinal
  exact hfinal

theorem finalStates_succeeds
    (haccepted : Accepted candidates byteBudget quantum)
    (hfeasible : Feasible candidates byteBudget selection) :
    ∃ final, finalStates candidates byteBudget quantum = .ok final := by
  have hstart : 0 ≤ byteBudget / quantum :=
    Int.ediv_nonneg (hfeasible.byteBudget_nonneg haccepted)
      (by linarith [haccepted.quantum_pos])
  obtain ⟨ordered, hordered, hselects⟩ := hfeasible.1.exists_selects
  have hmem : ∀ candidate ∈ ordered, candidate ∈ candidates :=
    fun candidate hcand =>
      hfeasible.1.mem candidate (hordered.mem_iff.mp hcand)
  apply allocateUnits_succeeds haccepted.quantum_pos haccepted.wellFormed
    (represents_nil hstart) hselects
  rw [fits_iff haccepted hmem, total_perm hordered]
  exact hfeasible.2

/-- An entry of the last states is a feasible selection with its sums. -/
theorem Represents.feasible
    (haccepted : Accepted candidates byteBudget quantum)
    (hstates : Represents candidates (byteBudget / quantum) quantum
      (unitIds candidates) final)
    {state : ℤ × (ℚ × List (Candidate M))} (hmem : state ∈ final) :
    Feasible candidates byteBudget state.2.2 ∧
      state.1 = total (quanta quantum) state.2.2 ∧
      state.2.1 = total Candidate.predictedDamage state.2.2 := by
  obtain ⟨hselects, hused, hdamage⟩ := hstates.1 state hmem
  have hone := onePerUnit_of_selects hselects
  refine ⟨⟨hone, ?_⟩, hused, hdamage⟩
  rw [← fits_iff haccepted hone.mem, ← hused]
  exact hstates.2.2 state hmem

/-- Every feasible selection is dominated by an entry. -/
theorem Represents.dominates
    (haccepted : Accepted candidates byteBudget quantum)
    (hstates : Represents candidates (byteBudget / quantum) quantum
      (unitIds candidates) final)
    (hfeasible : Feasible candidates byteBudget selection) :
    ∃ state ∈ final, quantum * state.1 ≤ total Candidate.storedBytes selection ∧
      state.2.1 ≤ total Candidate.predictedDamage selection := by
  obtain ⟨hone, hfits⟩ := hfeasible
  obtain ⟨ordered, hordered, hselects⟩ := hone.exists_selects
  have hmem : ∀ candidate ∈ ordered, candidate ∈ candidates :=
    fun candidate hcand => hone.mem candidate (hordered.mem_iff.mp hcand)
  rw [← total_perm hordered] at hfits
  obtain ⟨state, hstate, hused, hdamage⟩ :=
    hstates.2.1 ordered hselects ((fits_iff haccepted hmem).mpr hfits)
  refine ⟨state, hstate, ?_, ?_⟩
  · rw [← total_perm hordered, ← total_quanta
      fun candidate hcand => haccepted.dvd_bytes candidate (hmem candidate hcand)]
    exact mul_le_mul_of_nonneg_left hused
      (by linarith [haccepted.quantum_pos])
  · rw [← total_perm hordered]
    exact hdamage

section

local instance quantaPreorder : Preorder ℤ := quantaOrder

/-- The last step of `allocate`. -/
def best (states : States M) : Except Failure (Allocation M) :=
  match states.argmin fun state => toLex (state.2.1, state.1) with
  | none => .error .valueError
  | some state => .ok {
      choices := state.2.2
      storedBytes := total Candidate.storedBytes state.2.2
      predictedDamage := state.2.1 }

end

theorem allocate_eq (haccepted : Accepted candidates byteBudget quantum)
    (hbudget : 0 ≤ byteBudget) (hsome : candidates ≠ []) :
    allocate candidates byteBudget quantum =
      finalStates candidates byteBudget quantum >>= best := by
  have hdvd : byteBudget % quantum = 0 ∧
      ∀ candidate ∈ candidates, candidate.storedBytes % quantum = 0 :=
    ⟨Int.emod_eq_zero_of_dvd haccepted.dvd_budget, fun candidate hmem =>
      Int.emod_eq_zero_of_dvd (haccepted.dvd_bytes candidate hmem)⟩
  simp only [allocate, require, if_pos (And.intro hbudget haccepted.quantum_pos),
    if_pos haccepted.wellFormed, if_neg hsome, if_pos hdvd]
  rfl

theorem allocate_nil (haccepted : Accepted (M := M) [] byteBudget quantum)
    (hbudget : 0 ≤ byteBudget) :
    allocate [] byteBudget quantum = .ok (⟨[], 0, 0⟩ : Allocation M) := by
  simp only [allocate, require, if_pos (And.intro hbudget haccepted.quantum_pos),
    if_pos haccepted.wellFormed]
  rfl

theorem optimal_nil (hbudget : 0 ≤ byteBudget) :
    Optimal [] byteBudget (⟨[], 0, 0⟩ : Allocation M) := by
  have hempty : ∀ other : List (Candidate M), Feasible [] byteBudget other →
      other = [] := by
    intro other hother
    exact List.eq_nil_iff_forall_not_mem.mpr fun candidate hmem =>
      List.not_mem_nil (hother.1.mem candidate hmem)
  refine ⟨⟨⟨?_, List.nodup_nil, ?_⟩, hbudget⟩, rfl, rfl, ?_⟩
  · exact fun candidate hmem => absurd hmem List.not_mem_nil
  · exact fun candidate hmem => absurd hmem List.not_mem_nil
  · intro other hother
    rw [hempty other hother]
    exact ⟨le_rfl, fun _ => le_rfl⟩

theorem best_optimal (haccepted : Accepted candidates byteBudget quantum)
    (hstates : Represents candidates (byteBudget / quantum) quantum
      (unitIds candidates) final)
    (hbest : best final = .ok allocation) :
    Optimal candidates byteBudget allocation := by
  rw [best] at hbest
  split at hbest
  · cases hbest
  rename_i state hargmin
  cases hbest
  obtain ⟨hfeasible, hused, hdamage⟩ :=
    hstates.feasible haccepted (List.argmin_mem hargmin)
  refine ⟨hfeasible, rfl, hdamage, ?_⟩
  intro other hother
  obtain ⟨entry, hentry, hbytes, hle⟩ := hstates.dominates haccepted hother
  have hleast := List.le_of_mem_argmin hentry hargmin
  rw [Prod.Lex.le_iff] at hleast
  dsimp only [ofLex_toLex] at hleast
  constructor
  · rcases hleast with hlt | ⟨heq, -⟩
    · exact hlt.le.trans hle
    · exact heq.le.trans hle
  · intro hsame
    rcases hleast with hlt | ⟨-, hcheaper⟩
    · exact absurd (hlt.trans_le hle) (hsame ▸ lt_irrefl _)
    · calc total Candidate.storedBytes state.2.2
          = quantum * state.1 := by
            rw [hused, total_quanta fun candidate hmem =>
              haccepted.dvd_bytes candidate (hfeasible.1.mem candidate hmem)]
        _ ≤ quantum * entry.1 := mul_le_mul_of_nonneg_left hcheaper
            (by linarith [haccepted.quantum_pos])
        _ ≤ total Candidate.storedBytes other := hbytes

theorem best_eq_error {failure : Failure} (hbest : best final = .error failure) :
    final = [] ∧ failure = .valueError := by
  rw [best] at hbest
  split at hbest
  · rename_i hnone
    cases hbest
    exact ⟨List.argmin_eq_none.mp hnone, rfl⟩
  · cases hbest

/-- Whatever `allocate` returns is optimal. -/
theorem allocate_eq_ok (haccepted : Accepted candidates byteBudget quantum)
    (hrun : allocate candidates byteBudget quantum = .ok allocation) :
    Optimal candidates byteBudget allocation := by
  have hbudget : 0 ≤ byteBudget := by
    simp only [allocate, bind_eq_ok, require_eq_ok] at hrun
    exact hrun.choose_spec.1.1
  by_cases hnil : candidates = []
  · subst hnil
    rw [allocate_nil haccepted hbudget] at hrun
    cases hrun
    exact optimal_nil hbudget
  · rw [allocate_eq haccepted hbudget hnil, bind_eq_ok] at hrun
    obtain ⟨final, hfinal, hbest⟩ := hrun
    exact best_optimal haccepted
      (finalStates_represents haccepted hbudget hfinal) hbest

theorem allocate_succeeds (haccepted : Accepted candidates byteBudget quantum)
    (hfeasible : Feasible candidates byteBudget selection) :
    ∃ allocation, allocate candidates byteBudget quantum = .ok allocation := by
  have hbudget := hfeasible.byteBudget_nonneg haccepted
  by_cases hnil : candidates = []
  · subst hnil
    exact ⟨_, allocate_nil haccepted hbudget⟩
  · obtain ⟨final, hfinal⟩ := finalStates_succeeds haccepted hfeasible
    have hstates := finalStates_represents haccepted hbudget hfinal
    obtain ⟨state, hstate, -⟩ := hstates.dominates haccepted hfeasible
    rw [allocate_eq haccepted hbudget hnil, hfinal]
    cases hbest : best final with
    | ok allocation => exact ⟨allocation, hbest⟩
    | error failure =>
        exact absurd (best_eq_error hbest).1 (List.ne_nil_of_mem hstate)

theorem allocate_eq_error {failure : Failure}
    (hrun : allocate candidates byteBudget quantum = .error failure) :
    failure = .valueError := by
  simp only [allocate, bind_eq_error, require_eq_error] at hrun
  rcases hrun with ⟨-, rfl⟩ | ⟨-, -, ⟨-, rfl⟩ | ⟨-, -, hrun⟩⟩
  · rfl
  · rfl
  split at hrun
  · exact absurd hrun pure_ne_error
  simp only [bind_eq_error, require_eq_error] at hrun
  rcases hrun with ⟨-, rfl⟩ | ⟨-, -, hrun⟩
  · rfl
  rcases hrun with hloop | ⟨final, -, hbest⟩
  · obtain ⟨unitId, -, states, hround⟩ := foldlM_eq_error hloop
    exact allocateUnit_eq_error hround
  · exact (best_eq_error hbest).2

/-- Where a feasible selection exists `allocate` returns a best one, and
otherwise it raises. -/
theorem allocate_optimal (hquantum : 1 ≤ quantum) (hbudget : quantum ∣ byteBudget)
    (hwellFormed : ∀ candidate ∈ candidates, candidate.WellFormed)
    (hbytes : ∀ candidate ∈ candidates, quantum ∣ candidate.storedBytes) :
    ((∃ selection, Feasible candidates byteBudget selection) →
      ∃ allocation, allocate candidates byteBudget quantum = .ok allocation ∧
        Optimal candidates byteBudget allocation) ∧
    ((¬∃ selection, Feasible candidates byteBudget selection) →
      allocate candidates byteBudget quantum = .error .valueError) := by
  have haccepted : Accepted candidates byteBudget quantum :=
    ⟨hquantum, hwellFormed, hbudget, hbytes⟩
  constructor
  · rintro ⟨selection, hfeasible⟩
    obtain ⟨allocation, hrun⟩ := allocate_succeeds haccepted hfeasible
    exact ⟨allocation, hrun, allocate_eq_ok haccepted hrun⟩
  · intro hnone
    cases hrun : allocate candidates byteBudget quantum with
    | ok allocation =>
        exact absurd ⟨_, (allocate_eq_ok haccepted hrun).feasible⟩ hnone
    | error failure => rw [allocate_eq_error hrun]

/-- Two units: a free choice against one that gains damage, and a dear one. -/
def twoUnits : List (Candidate Unit) :=
  [⟨"layer0", "k2", 0, 1 / 2, none⟩, ⟨"layer0", "k3", 4, -1 / 4, none⟩,
    ⟨"layer1", "k2", 2, 1, none⟩]

theorem allocate_optimal_twoUnits :
    ∃ allocation, allocate twoUnits 4 2 = .ok allocation ∧
      Optimal twoUnits 4 allocation := by
  refine (allocate_optimal (by decide) (by decide) (by decide) (by decide)).1
    ⟨[⟨"layer0", "k2", 0, 1 / 2, none⟩, ⟨"layer1", "k2", 2, 1, none⟩],
      ⟨?_, by decide, ?_⟩, by decide⟩
  · simp [twoUnits]
  · simp [twoUnits]

end Allocation

end GlmFlash.Alloc
