import GlmFlash.Encoder.ExactAllocation
import GlmFlash.Encoder.SequentialOptimum

/-!
# The exact allocator finds an optimum

Every curve may take any of the allowed bits, so the budget is always reached.
The only failure is a gain that overflows the decimal context.
-/

namespace GlmFlash.Encoder

open GlmFlash.Library

variable {curve : SensitivityCurve} {bits : ℕ}

theorem gainInteger_eq (curve : SensitivityCurve) (bits : ℕ) :
    gainInteger curve bits = score curve bits := by
  rw [gainInteger, SensitivityCurve.gain, bind_assoc]
  rfl

theorem gainInteger_outcome (curve : SensitivityCurve) (bits : ℕ) :
    gainInteger curve bits = .ok (scoreValue curve bits) ∨
      gainInteger curve bits = .error .overflow := by
  cases hrun : gainInteger curve bits with
  | ok value =>
      rw [gainInteger_eq] at hrun
      exact .inl (by rw [scoreValue, hrun])
  | error failure =>
      rw [gainInteger] at hrun
      simp only [SensitivityCurve.gain, bind_eq_error, pure_ne_error, and_false,
        exists_false, or_false] at hrun
      right
      congr 1
      rcases hrun with (hloss | ⟨_, _, hvalue⟩) | ⟨_, _, hscaled⟩
      · exact decimal_eq_error hloss
      · exact decimal_eq_error hvalue
      · exact decimal_eq_error hscaled

/-- Some gain of the curves overflows. -/
def Overflows (curves : List SensitivityCurve) (failure : Failure) : Prop :=
  failure = .overflow ∧
    ∃ curve ∈ curves, ∃ bits ∈ allowedBits, gainInteger curve bits = .error .overflow

/-! ## One row -/

def exactGroup (curve : SensitivityCurve) : List Choice :=
  allowedBits.map fun bits => (curve, bits)

/-- What the loops over the costs and the bits propose. -/
abbrev exactProposals (curve : SensitivityCurve) (scores : List (Option ℤ)) :
    List (ℕ × ℤ × (ℤ × ℕ)) :=
  proposals upgrade gain upgradeUnitsPerLayer mark scores (exactGroup curve)

theorem storeChoice_eq {row : List Cell} {newCost priorCost : ℕ} {candidate : ℤ}
    (hprior : priorCost < 2 ^ 15) (hbits : bits ∈ allowedBits) :
    storeChoice row newCost candidate priorCost bits =
      .ok (row.set newCost ⟨some candidate, (priorCost, bits)⟩) := by
  have hbyte : bits < 2 ^ 8 := by
    simp only [allowedBits, List.mem_cons, List.not_mem_nil, or_false] at hbits
    omega
  rw [storeChoice, require, if_pos hprior, require, if_pos hbyte]
  rfl

/-- Storing a better candidate is offering it. -/
theorem offer_eq {row : List Cell} {newCost : ℕ} {candidate : ℤ} {parent : ℤ × ℕ} :
    offer row (newCost, candidate, parent) =
      match (row.getD newCost ⟨none, (-1, 0)⟩).best with
      | none => row.set newCost ⟨some candidate, parent⟩
      | some incumbent =>
          if incumbent < candidate then row.set newCost ⟨some candidate, parent⟩
          else row := by
  rw [offer, List.modify_eq_set_getElem?, List.getD_eq_getElem?_getD]
  cases hget : row[newCost]? with
  | none =>
      have hlength := List.getElem?_eq_none_iff.mp hget
      exact (List.set_eq_of_length_le hlength).symm
  | some slot =>
      change row.set newCost (slot.offer candidate parent) = _
      rw [Option.getD_some, Slot.offer]
      cases hbest : slot.best with
      | none => rfl
      | some incumbent =>
          by_cases hlt : incumbent < candidate
          · simp only [if_pos hlt]
          · simp only [if_neg hlt]
            obtain ⟨hlength, rfl⟩ := List.getElem?_eq_some_iff.mp hget
            exact List.set_getElem_self hlength

/-- The row after an upgrade whose gain is known. -/
def offerUpgrade (curve : SensitivityCurve) (priorCost : ℕ) (priorScore : ℤ)
    (row : List Cell) (bits : ℕ) : List Cell :=
  if priorCost + upgrade (curve, bits) ≤ upgradeUnitsPerLayer then
    offer row (priorCost + upgrade (curve, bits), priorScore + gain (curve, bits),
      mark priorCost (curve, bits))
  else row

theorem addUpgrade_outcome {priorCost : ℕ} (hprior : priorCost < 2 ^ 15)
    (hbits : bits ∈ allowedBits) (priorScore : ℤ) (row : List Cell) :
    addUpgrade curve priorCost priorScore row bits =
        .ok (offerUpgrade curve priorCost priorScore row bits) ∨
      ∃ failure, addUpgrade curve priorCost priorScore row bits = .error failure ∧
        Overflows [curve] failure := by
  rw [addUpgrade, offerUpgrade]
  by_cases hcost : priorCost + upgrade (curve, bits) ≤ upgradeUnitsPerLayer
  · have hinside : ¬upgradeUnitsPerLayer < priorCost + (bits - floorBits) := not_lt.mpr hcost
    rw [if_pos hcost, if_neg hinside]
    cases gainInteger_outcome curve bits with
    | inl hgain =>
        left
        rw [hgain, offer_eq]
        change (match (row.getD (priorCost + upgrade (curve, bits)) ⟨none, (-1, 0)⟩).best with
          | none => _
          | some incumbent => _) = _
        cases (row.getD (priorCost + upgrade (curve, bits)) ⟨none, (-1, 0)⟩).best with
        | none => exact storeChoice_eq hprior hbits
        | some incumbent =>
            by_cases hlt : incumbent < priorScore + scoreValue curve bits
            · have hlt' : incumbent < priorScore + gain (curve, bits) := hlt
              simp only [if_pos hlt, if_pos hlt']
              exact storeChoice_eq hprior hbits
            · have hlt' : ¬incumbent < priorScore + gain (curve, bits) := hlt
              simp only [if_neg hlt, if_neg hlt']
              rfl
    | inr hgain =>
        right
        rw [hgain]
        exact ⟨.overflow, rfl, rfl, curve, List.mem_singleton_self curve, bits, hbits, hgain⟩
  · have houtside : upgradeUnitsPerLayer < priorCost + (bits - floorBits) := not_le.mp hcost
    rw [if_neg hcost, if_pos houtside]
    exact .inl rfl

/-- The upgrades of one cost are offered in turn. -/
theorem foldl_offerUpgrade (priorCost : ℕ) (priorScore : ℤ) (row : List Cell) :
    allowedBits.foldl (offerUpgrade curve priorCost priorScore) row =
      (((exactGroup curve).filter fun choice =>
        priorCost + upgrade choice ≤ upgradeUnitsPerLayer).map fun choice =>
          (priorCost + upgrade choice, priorScore + gain choice,
            mark priorCost choice)).foldl offer row := by
  rw [exactGroup, List.foldl_map, List.foldl_filter, List.foldl_map]
  congr 1
  funext row bits
  rw [offerUpgrade]
  simp only [decide_eq_true_eq]

theorem nextExactRow_outcome (curve : SensitivityCurve) {scores : List (Option ℤ)}
    (hlength : scores.length ≤ 2 ^ 15) :
    nextExactRow curve scores = .ok ((exactProposals curve scores).foldl offer blankRow) ∨
      ∃ failure, nextExactRow curve scores = .error failure ∧
        Overflows [curve] failure := by
  have hplain : (exactProposals curve scores).foldl offer blankRow =
      scores.zipIdx.foldl (fun row entry =>
        match entry.1 with
        | none => row
        | some priorScore => allowedBits.foldl (offerUpgrade curve entry.2 priorScore) row)
        blankRow := by
    rw [exactProposals, proposals, List.foldl_flatMap]
    congr 1
    funext row entry
    cases entry.1 with
    | none => rfl
    | some priorScore => exact (foldl_offerUpgrade entry.2 priorScore row).symm
  rw [hplain]
  apply foldlM_outcome
  rintro ⟨entry, priorCost⟩ hentry row
  cases entry with
  | none => exact .inl rfl
  | some priorScore =>
      have hprior : priorCost < scores.length := by
        have hget := List.mk_mem_zipIdx_iff_getElem?.mp hentry
        exact (List.getElem?_eq_some_iff.mp hget).1
      apply foldlM_outcome
      intro bits hbits row
      exact addUpgrade_outcome (hprior.trans_le hlength) hbits priorScore row

/-! ## All rows -/

variable {ordered : List SensitivityCurve} {rows : List (List Cell)}
  {scores : List (Option ℤ)}

abbrev FilledExactly (ordered : List SensitivityCurve) (rows : List (List Cell))
    (scores : List (Option ℤ)) : Prop :=
  FilledRows upgrade gain upgradeUnitsPerLayer mark (ordered.map exactGroup) rows scores

theorem le_two_iff (curve : SensitivityCurve) (amount : ℕ) :
    amount ≤ 2 ↔ ∃ choice ∈ exactGroup curve, upgrade choice = amount := by
  simp [exactGroup, allowedBits, upgrade, floorBits]
  omega

/-- Two upgrades for each curve reach the budget. -/
theorem exists_score_of_filled (hfilled : FilledExactly ordered rows scores)
    (hbudget : upgradeUnitsPerLayer ≤ 2 * ordered.length) :
    ∃ value, scores[upgradeUnitsPerLayer]? = some (some value) := by
  have hgroups : ∀ listed ∈ ordered.map exactGroup, ∀ amount,
      amount ≤ (fun _ : List Choice => 2) listed ↔
        ∃ choice ∈ listed, upgrade choice = amount := by
    intro listed hmem amount
    obtain ⟨curve, _, rfl⟩ := List.mem_map.mp hmem
    exact le_two_iff curve amount
  have hsum : upgradeUnitsPerLayer ≤
      ((ordered.map exactGroup).map fun _ : List Choice => 2).sum := by
    rw [List.map_const', List.length_map, List.sum_replicate_nat, Nat.mul_comm]
    exact hbudget
  obtain ⟨selection, hselects, hcost⟩ := (selects_total_iff hgroups _).mpr hsum
  obtain ⟨value, hvalue⟩ := hfilled.exact.reached selection hselects hcost.le
  rw [hcost] at hvalue
  exact ⟨value, hvalue⟩

theorem addExactRow_outcome (curve : SensitivityCurve) {done : List SensitivityCurve} {count : ℕ}
    (hfilled : FilledExactly done rows scores)
    (hbudget : upgradeUnitsPerLayer ≤ 2 * count) (hcount : done.length + 1 ≤ count) :
    (∃ rows' scores', addExactRow count (scores, rows) curve = .ok (scores', rows') ∧
      FilledExactly (done ++ [curve]) rows' scores') ∨
    ∃ failure, addExactRow count (scores, rows) curve = .error failure ∧
      Overflows [curve] failure := by
  have hlength : scores.length ≤ 2 ^ 15 := by
    rw [hfilled.length_scores]
    decide
  rw [addExactRow]
  cases nextExactRow_outcome curve hlength with
  | inr hraised =>
      obtain ⟨failure, hrun, hfailure⟩ := hraised
      rw [hrun]
      exact .inr ⟨failure, rfl, hfailure⟩
  | inl hrun =>
      left
      rw [hrun]
      set row := (exactProposals curve scores).foldl offer blankRow with hrow
      have hrowLength : row.length = upgradeUnitsPerLayer + 1 := by
        rw [hrow, length_foldl_offer]
        exact List.length_replicate
      have hnext : FilledExactly (done ++ [curve]) (rows ++ [row]) (row.map Slot.best) := by
        rw [FilledExactly, List.map_append, List.map_singleton]
        exact hfilled.snoc (exactGroup curve) hrowLength (best_foldl_offer _)
      refine ⟨_, _, ?_, hnext⟩
      change (require (¬((row.map Slot.best).getD upgradeUnitsPerLayer none = none ∧
        rows.length = count - 1)) Failure.assertionError >>= fun _ => _) = _
      rw [require, if_pos]
      · rfl
      · rintro ⟨hnone, hlast⟩
        rw [hfilled.length_rows, List.length_map] at hlast
        have hall : (done ++ [curve]).length = count := by
          rw [List.length_append, List.length_singleton]
          omega
        obtain ⟨value, hvalue⟩ := exists_score_of_filled hnext (hall ▸ hbudget)
        rw [List.getD_eq_getElem?_getD, hvalue] at hnone
        cases hnone

theorem fillExactRows_outcome (hbudget : upgradeUnitsPerLayer ≤ 2 * ordered.length) :
    (∃ rows scores, fillExactRows ordered = .ok (scores, rows) ∧
      FilledExactly ordered rows scores) ∨
    ∃ failure, fillExactRows ordered = .error failure ∧ Overflows ordered failure := by
  suffices hmore : ∀ rest done rows scores, done ++ rest = ordered →
      FilledExactly done rows scores →
      (∃ rows' scores', rest.foldlM (addExactRow ordered.length) (scores, rows) =
        .ok (scores', rows') ∧ FilledExactly ordered rows' scores') ∨
      ∃ failure, rest.foldlM (addExactRow ordered.length) (scores, rows) =
        .error failure ∧ Overflows ordered failure from
    hmore ordered [] [] initialScores rfl .nil
  intro rest
  induction rest with
  | nil =>
      intro done rows scores hsplit hfilled
      rw [List.append_nil] at hsplit
      subst hsplit
      exact .inl ⟨rows, scores, rfl, hfilled⟩
  | cons curve rest ih =>
      intro done rows scores hsplit hfilled
      have hcount : done.length + 1 ≤ ordered.length := by
        rw [← hsplit, List.length_append, List.length_cons]
        omega
      rw [List.foldlM_cons]
      cases addExactRow_outcome curve hfilled hbudget hcount with
      | inl hok =>
          obtain ⟨rows', scores', hrun, hnext⟩ := hok
          rw [hrun]
          refine ih (done ++ [curve]) rows' scores' ?_ hnext
          rw [List.append_assoc, List.singleton_append, hsplit]
      | inr hraised =>
          obtain ⟨failure, hrun, hoverflow, source, hsource, hbits⟩ := hraised
          rw [hrun]
          refine .inr ⟨failure, rfl, hoverflow, source, ?_, hbits⟩
          rw [List.mem_singleton.mp hsource, ← hsplit]
          exact List.mem_append_right _ List.mem_cons_self

/-! ## The order of the curves -/

/-- Lists of the same elements with the same distinct keys, in order, are equal. -/
theorem eq_of_perm_of_map_eq {A K : Type*} {key : A → K} {left right : List A}
    (hperm : left.Perm right) (hkeys : left.map key = right.map key)
    (hnodup : (left.map key).Nodup) : left = right := by
  have hlength : left.length = right.length := hperm.length_eq
  apply List.ext_getElem hlength
  intro index hleft hright
  have hsame : key left[index] = key right[index] := by
    have hget := congrArg (fun keys => keys[index]?) hkeys
    simpa [hleft, hright] using hget
  exact List.inj_on_of_nodup_map hnodup (List.getElem_mem hleft)
    (hperm.mem_iff.mpr (List.getElem_mem hright)) hsame

theorem orderExactCurves_of_perm {layer : ℕ} {curves : List SensitivityCurve}
    (hlayer : layer ∈ moeLayers)
    (hcurves : (curves.map SensitivityCurve.tensorId).Perm (layerTensors layer)) :
    orderExactCurves layer curves = orderCurves layer curves := by
  have hkeys : Dict.keys (curves.map fun curve => (curve.tensorId, curve)) =
      curves.map SensitivityCurve.tensorId := by
    rw [Dict.keys, List.map_map]
    rfl
  have hnodup : (Dict.keys (curves.map fun curve => (curve.tensorId, curve))).Nodup := by
    rw [hkeys]
    exact hcurves.nodup_iff.mpr (nodup_layerTensors layer)
  have hlength : (curves.map fun curve => (curve.tensorId, curve)).length =
      (layerTensors layer).length := by
    rw [← hcurves.length_eq, List.length_map, List.length_map]
  have hmem : (∀ tensor ∈ curves.map SensitivityCurve.tensorId,
      tensor ∈ layerTensors layer) ∧
        ∀ tensor ∈ layerTensors layer, tensor ∈ curves.map SensitivityCurve.tensorId :=
    ⟨fun tensor => hcurves.mem_iff.mp, fun tensor => hcurves.mem_iff.mpr⟩
  have hall : allLayerTensorIds layer = .ok (layerTensors layer) := by
    rw [allLayerTensorIds, require, if_pos hlayer]
    rfl
  rw [orderExactCurves, orderCurves, hall]
  change (require _ _ >>= fun _ => _) = (require _ _ >>= fun _ => _)
  rw [Dict.ofItems_eq hnodup, hkeys, require, if_pos ⟨hlength, hmem⟩, require,
    if_pos hmem]

/-- The order does not depend on how the curves are listed. -/
theorem orderExactCurves_eq_ok {layer : ℕ} {curves : List SensitivityCurve}
    (hlayer : layer ∈ moeLayers)
    (hcurves : (curves.map SensitivityCurve.tensorId).Perm (layerTensors layer)) :
    ∃ ordered, ordered.Perm curves ∧
      ordered.map SensitivityCurve.tensorId = layerTensors layer ∧
      ∀ listed, listed.Perm curves → orderExactCurves layer listed = .ok ordered := by
  obtain ⟨ordered, _, hordered, hids⟩ := orderCurves_of_perm hlayer hcurves
  refine ⟨ordered, hordered, hids, ?_⟩
  intro listed hlisted
  have hlistedIds := (hlisted.map SensitivityCurve.tensorId).trans hcurves
  obtain ⟨other, horder, hother, hotherIds⟩ := orderCurves_of_perm hlayer hlistedIds
  have hsame : other = ordered := by
    apply eq_of_perm_of_map_eq (hother.trans (hlisted.trans hordered.symm))
      (hotherIds.trans hids.symm)
    rw [hotherIds]
    exact nodup_layerTensors layer
  rw [orderExactCurves_of_perm hlayer hlistedIds, horder, hsame]

/-! ## The allocator -/

section Solve

variable {layer : ℕ} {curves : List SensitivityCurve} {iteration : ℕ}
  {probeSha256 : String}

theorem solveExact_of_filled (horder : orderExactCurves layer curves = .ok ordered)
    (hids : ordered.map SensitivityCurve.tensorId = layerTensors layer)
    (hfill : fillExactRows ordered = .ok (scores, rows))
    (hfilled : FilledExactly ordered rows scores)
    (hbudget : upgradeUnitsPerLayer ≤ 2 * ordered.length) :
    ∃ allocation, solveExactAllocation layer curves iteration probeSha256 =
        .ok allocation ∧ auditAllocation allocation.bits = .ok () ∧
      ∀ listed : List SensitivityCurve, ordered.Perm listed →
        OptimalOver (fun _ bits => bits ∈ allowedBits) listed allocation := by
  obtain ⟨value, hvalue⟩ := exists_score_of_filled hfilled hbudget
  have hgroups : ∀ listed ∈ ordered.map exactGroup, ∀ choice ∈ listed,
      choice.2 ∈ allowedBits := by
    intro listed hmem choice hchoice
    obtain ⟨curve, _, rfl⟩ := List.mem_map.mp hmem
    obtain ⟨bits, hbits, rfl⟩ := List.mem_map.mp hchoice
    exact hbits
  obtain ⟨selection, hselects, hcost, hgain, hback⟩ :=
    walkBack_eq_ok hfilled hgroups hvalue
  obtain ⟨hfst, hall⟩ := @selects_fst ordered (fun _ => allowedBits) selection hselects
  have haudit := auditAllocation_eq_ok hfst hids hall hcost
  have hbest : ∀ other : List Choice, Selects other (ordered.map exactGroup) →
      total upgrade other = upgradeUnitsPerLayer →
        total gain other ≤ total gain selection := by
    intro other hother hspent
    rw [hgain]
    exact (hfilled.exact.best _ _ hvalue).2 other hother hspent
  refine ⟨{
    layer := layer
    bits := bitsOf selection
    masses := (everyThird ordered).map SensitivityCurve.mass
    scoreInteger := value
    scoreScale := scoreScale
    upgradeUnits := upgradeUnitsPerLayer
    fixedPointIteration := iteration
    probeSha256 := probeSha256 }, ?_, haudit, ?_⟩
  · have hget : scores.getD upgradeUnitsPerLayer none = some value := by
      rw [List.getD_eq_getElem?_getD, hvalue, Option.getD_some]
    rw [solveExactAllocation, horder]
    change (fillExactRows ordered >>= _) = _
    rw [hfill, ok_bind]
    dsimp only
    rw [hget]
    change (walkBack rows >>= _) = _
    rw [hback]
    change (auditAllocation (Dict.ofItems _) >>= fun _ => _) = _
    rw [zip_eq_bitsOf hfst hids, haudit]
    rfl
  · intro listed hperm
    exact @optimalOver_of_selects ordered (fun _ => allowedBits) (fun _ _ hmem => hmem)
      selection hselects layer hids listed hperm hcost hbest _ rfl hgain.symm

end Solve

/-- In every order of the curves the allocator returns the same best allocation of
the budget, unless a gain overflows, and no assertion fails. -/
theorem solveExactAllocation_optimal (layer : ℕ) (curves : List SensitivityCurve)
    (iteration : ℕ) (probeSha256 : String) (hlayer : layer ∈ moeLayers)
    (hcurves : (curves.map SensitivityCurve.tensorId).Perm (layerTensors layer)) :
    ((∀ curve ∈ curves, ∀ bits ∈ allowedBits,
        gainInteger curve bits ≠ .error .overflow) →
      ∃ allocation, (∀ listed : List SensitivityCurve, listed.Perm curves →
          solveExactAllocation layer listed iteration probeSha256 = .ok allocation) ∧
        OptimalOver (fun _ bits => bits ∈ allowedBits) curves allocation ∧
        auditAllocation allocation.bits = .ok ()) ∧
    solveExactAllocation layer curves iteration probeSha256 ≠ .error .assertionError := by
  obtain ⟨ordered, hordered, hids, horder⟩ := orderExactCurves_eq_ok hlayer hcurves
  have hbudget : upgradeUnitsPerLayer ≤ 2 * ordered.length := by
    have hlength := congrArg List.length hids
    rw [List.length_map, length_layerTensors] at hlength
    rw [hlength]
    decide
  cases fillExactRows_outcome hbudget with
  | inl hok =>
      obtain ⟨rows, scores, hfill, hfilled⟩ := hok
      have hsolve (listed : List SensitivityCurve) (hlisted : listed.Perm curves) :=
        @solveExact_of_filled _ _ _ _ _ iteration probeSha256 (horder listed hlisted) hids
          hfill hfilled hbudget
      obtain ⟨allocation, hrun, haudit, hoptimal⟩ := hsolve curves (List.Perm.refl curves)
      refine ⟨fun _ => ⟨allocation, ?_, hoptimal curves hordered, haudit⟩, ?_⟩
      · intro listed hlisted
        rw [← hrun, solveExactAllocation, solveExactAllocation, horder listed hlisted,
          horder curves (List.Perm.refl curves)]
      · rw [hrun]
        rintro ⟨⟩
  | inr hraised =>
      obtain ⟨failure, hfill, rfl, curve, hcurve, bits, hbits, hoverflow⟩ := hraised
      constructor
      · intro hgains
        exact absurd hoverflow (hgains curve (hordered.mem_iff.mp hcurve) bits hbits)
      · rw [solveExactAllocation, horder curves (List.Perm.refl curves)]
        change (fillExactRows ordered >>= _) ≠ _
        rw [hfill]
        rintro ⟨⟩

/-! ## One curve for all tensors -/

theorem addUpgrade_overflow (tensor : TensorId) (row : List Cell) :
    addUpgrade (sampleCurve ((10 : ℚ) ^ (999999 : ℤ)) 10 tensor) 0 0 row 4 =
      .error .overflow := by
  rw [addUpgrade, if_neg (by decide), gainInteger_eq, score_overflow]
  rfl

theorem nextExactRow_overflow (tensor : TensorId) :
    ∃ failure, nextExactRow (sampleCurve ((10 : ℚ) ^ (999999 : ℤ)) 10 tensor)
      initialScores = .error failure := by
  rw [nextExactRow, initialScores, List.zipIdx_cons, List.foldlM_cons]
  change ∃ failure, (allowedBits.foldlM (addUpgrade _ 0 0) blankRow >>= _) = _
  rw [allowedBits, List.foldlM_cons]
  cases addUpgrade (sampleCurve ((10 : ℚ) ^ (999999 : ℤ)) 10 tensor) 0 0 blankRow 3 with
  | error failure => exact ⟨failure, rfl⟩
  | ok row =>
      change ∃ failure, ((addUpgrade _ 0 0 row 4 >>= _) >>= _) = _
      rw [addUpgrade_overflow]
      exact ⟨.overflow, rfl⟩

/-- A product beyond the decimal exponents is raised as an overflow. -/
theorem solveExact_raises_overflow : ∃ layer curves iteration probeSha256,
    layer ∈ moeLayers ∧
      (curves.map SensitivityCurve.tensorId).Perm (layerTensors layer) ∧
      (∀ curve ∈ curves, 0 ≤ curve.mass) ∧
      ¬∃ allocation, solveExactAllocation layer curves iteration probeSha256 =
        .ok allocation := by
  refine ⟨3, sampleCurves ((10 : ℚ) ^ (999999 : ℤ)) 10, 0, "", by decide,
    sampleCurves_perm _ _, ?_, ?_⟩
  · intro curve hmem
    obtain ⟨tensor, -, rfl⟩ := List.mem_map.mp hmem
    exact (zpow_pos (by norm_num) _).le
  · rintro ⟨allocation, hrun⟩
    obtain ⟨ordered, hordered, hids, horder⟩ :=
      orderExactCurves_eq_ok (by decide) (sampleCurves_perm ((10 : ℚ) ^ (999999 : ℤ)) 10)
    rw [solveExactAllocation, horder _ (List.Perm.refl _)] at hrun
    change (fillExactRows ordered >>= _) = _ at hrun
    cases ordered with
    | nil =>
        have hlength := congrArg List.length hids
        rw [length_layerTensors] at hlength
        cases hlength
    | cons curve rest =>
        obtain ⟨tensor, -, rfl⟩ :=
          List.mem_map.mp (hordered.mem_iff.mp List.mem_cons_self)
        obtain ⟨failure, hfailure⟩ := nextExactRow_overflow tensor
        rw [fillExactRows, List.foldlM_cons, addExactRow, hfailure] at hrun
        cases hrun

theorem gainInteger_sample (tensor : TensorId) (bits : ℕ) :
    ∃ value, gainInteger (sampleCurve 1 1 tensor) bits = .ok value := by
  have hloss : decimal ((sampleCurve 1 1 tensor).lossByBits floorBits -
      (sampleCurve 1 1 tensor).lossByBits bits) = .ok 0 ∨
    decimal ((sampleCurve 1 1 tensor).lossByBits floorBits -
      (sampleCurve 1 1 tensor).lossByBits bits) = .ok 1 := by
    change decimal (1 - if bits = 3 then 1 else 0) = _ ∨
      decimal (1 - if bits = 3 then 1 else 0) = _
    split
    · rw [sub_self]
      exact .inl decimal_zero
    · rw [sub_zero]
      exact .inr decimal_one
  rw [gainInteger, SensitivityCurve.gain]
  change ∃ value, ((decimal _ >>= fun loss => decimal (1 * loss)) >>= _) = .ok value
  cases hloss with
  | inl hzero =>
      rw [hzero, ok_bind, mul_zero, decimal_zero, ok_bind, zero_mul, decimal_zero]
      exact ⟨_, rfl⟩
  | inr hone =>
      rw [hone, ok_bind, mul_one, decimal_one, ok_bind, one_mul, decimal_scoreScale]
      exact ⟨_, rfl⟩

/-- Curves of mass one, listed in order and reversed. -/
theorem solveExactAllocation_optimal_unit :
    ∃ allocation, solveExactAllocation 3 (sampleCurves 1 1) 2 "" = .ok allocation ∧
      solveExactAllocation 3 (sampleCurves 1 1).reverse 2 "" = .ok allocation ∧
      OptimalOver (fun _ bits => bits ∈ allowedBits) (sampleCurves 1 1) allocation := by
  have hgains : ∀ curve ∈ sampleCurves 1 1, ∀ bits ∈ allowedBits,
      gainInteger curve bits ≠ .error .overflow := by
    intro curve hmem bits _ hoverflow
    obtain ⟨tensor, -, rfl⟩ := List.mem_map.mp hmem
    obtain ⟨value, hvalue⟩ := gainInteger_sample tensor bits
    rw [hvalue] at hoverflow
    cases hoverflow
  obtain ⟨allocation, hsame, hoptimal, _⟩ :=
    (solveExactAllocation_optimal 3 (sampleCurves 1 1) 2 "" (by decide)
      (sampleCurves_perm 1 1)).1 hgains
  exact ⟨allocation, hsame _ (List.Perm.refl _), hsame _ (List.reverse_perm _), hoptimal⟩

end GlmFlash.Encoder
