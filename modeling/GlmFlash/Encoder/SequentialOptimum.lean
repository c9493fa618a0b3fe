import GlmFlash.Encoder.SequentialAllocation
import GlmFlash.Library.BackPointers
import Mathlib.Data.List.ProdSigma

/-!
# The sequential allocator finds an optimum

The rows of the dynamic program are exact: a cost is reached when some
admissible assignment has it, and its score is the best one.  The back pointers
describe an assignment of the final score, so no assertion fails.  The budget
is reached exactly when the largest upgrades suffice for it.
-/

namespace GlmFlash.Encoder

open GlmFlash.Library

variable {curve : SensitivityCurve} {bits : ℕ}

/-- The steps to four and to five bits both have to help. -/
def Admissible (curve : SensitivityCurve) (bits : ℕ) : Prop :=
  bits = 3 ∨ bits = 4 ∧ curve.lossByBits 4 < curve.lossByBits 3 ∨
    bits = 5 ∧ curve.lossByBits 4 < curve.lossByBits 3 ∧
      curve.lossByBits 5 < curve.lossByBits 4

theorem mem_choices : bits ∈ choices curve ↔ Admissible curve bits := by
  rw [choices, Admissible]
  by_cases hfour : curve.lossByBits 4 < curve.lossByBits 3
  · by_cases hfive : curve.lossByBits 5 < curve.lossByBits 4
    · simp [hfour, hfive]
    · simp [hfour, hfive]
  · simp [hfour]

theorem mem_allowedBits (hadmissible : Admissible curve bits) :
    bits ∈ [3, 4, 5] := by
  rcases hadmissible with rfl | ⟨rfl, -⟩ | ⟨rfl, -⟩ <;> decide

/-- The most bits that a curve may be given above the floor. -/
def largestUpgrade (curve : SensitivityCurve) : ℕ :=
  ((choices curve).map fun bits => bits - floorBits).foldr max 0

/-- The score that counts for a choice. -/
def scoreValue (curve : SensitivityCurve) (bits : ℕ) : ℤ :=
  match score curve bits with
  | .ok value => value
  | .error _ => 0

/-- No score of the curve overflows. -/
def Scored (curve : SensitivityCurve) : Prop :=
  ∀ bits ∈ choices curve, score curve bits ≠ .error .overflow

theorem decimal_eq_error {value : ℚ} {failure : Failure}
    (hrun : decimal value = .error failure) : failure = .overflow := by
  rw [decimal] at hrun
  split at hrun
  · cases hrun
  · cases hrun
    rfl

theorem score_outcome (curve : SensitivityCurve) (bits : ℕ) :
    score curve bits = .ok (scoreValue curve bits) ∨
      score curve bits = .error .overflow := by
  cases hrun : score curve bits with
  | ok value => exact .inl (by simp only [scoreValue, hrun])
  | error failure =>
      right
      congr 1
      simp only [score, bind_eq_error, pure_ne_error, and_false, exists_false,
        or_false] at hrun
      rcases hrun with hloss | ⟨_, -, hvalue | ⟨_, -, hscaled⟩⟩
      · exact decimal_eq_error hloss
      · exact decimal_eq_error hvalue
      · exact decimal_eq_error hscaled

/-- Some score of the curves overflows. -/
def Unscored (curves : List SensitivityCurve) (failure : Failure) : Prop :=
  failure = .overflow ∧ ∃ curve ∈ curves, ¬Scored curve

/-! ## Choices as items -/

abbrev Choice := SensitivityCurve × ℕ

def group (curve : SensitivityCurve) : List Choice :=
  (choices curve).map fun bits => (curve, bits)

def upgrade (choice : Choice) : ℕ := choice.2 - floorBits

def gain (choice : Choice) : ℤ := scoreValue choice.1 choice.2

def mark (prior : ℕ) (choice : Choice) : ℤ × ℕ := (prior, choice.2)

/-- What the loops over the costs and the choices propose. -/
abbrev rowProposals (curve : SensitivityCurve) (scores : List (Option ℤ)) :
    List (ℕ × ℤ × (ℤ × ℕ)) :=
  proposals upgrade gain upgradeUnitsPerLayer mark scores (group curve)

theorem three_le_of_mem (hmem : bits ∈ choices curve) : floorBits ≤ bits := by
  rcases mem_choices.mp hmem with rfl | ⟨rfl, -⟩ | ⟨rfl, -⟩ <;> decide

/-- The choices of one cost are offered in turn, unless a score overflows. -/
theorem addChoices_outcome (curve : SensitivityCurve) (prior : ℕ) (priorScore : ℤ)
    (row : List Cell) :
    (choices curve).foldlM (addChoice curve prior priorScore) row =
        .ok ((((group curve).filter fun choice =>
            prior + upgrade choice ≤ upgradeUnitsPerLayer).map fun choice =>
              (prior + upgrade choice, priorScore + gain choice,
                mark prior choice)).foldl offer row) ∨
      ∃ failure, (choices curve).foldlM (addChoice curve prior priorScore) row =
        .error failure ∧ Unscored [curve] failure := by
  suffices hmore : ∀ listed : List ℕ, (∀ bits ∈ listed, bits ∈ choices curve) → ∀ row,
      listed.foldlM (addChoice curve prior priorScore) row =
          .ok (((((listed.map fun bits => (curve, bits)).filter fun choice =>
            prior + upgrade choice ≤ upgradeUnitsPerLayer).map fun choice =>
              (prior + upgrade choice, priorScore + gain choice,
                mark prior choice)).foldl offer row)) ∨
        ∃ failure, listed.foldlM (addChoice curve prior priorScore) row =
          .error failure ∧ Unscored [curve] failure from
    hmore _ (fun _ hmem => hmem) row
  intro listed hlisted
  induction listed with
  | nil => exact fun row => .inl rfl
  | cons bits listed ih =>
      intro row
      obtain ⟨hbits, hrest⟩ := List.forall_mem_cons.mp hlisted
      have hcost : prior + bits - floorBits = prior + (bits - floorBits) :=
        Nat.add_sub_assoc (three_le_of_mem hbits) prior
      have hdecide : decide (prior + upgrade (curve, bits) ≤
          upgradeUnitsPerLayer) = true ↔
            ¬upgradeUnitsPerLayer < prior + (bits - floorBits) := by
        rw [decide_eq_true_eq, not_lt]
        rfl
      rw [List.foldlM_cons, addChoice, List.map_cons, List.filter_cons, hcost]
      by_cases hover : upgradeUnitsPerLayer < prior + (bits - floorBits)
      · rw [if_pos hover, if_neg fun htrue => hdecide.mp htrue hover]
        exact ih hrest row
      · rw [if_neg hover, if_pos (hdecide.mpr hover)]
        cases score_outcome curve bits with
        | inl hscore =>
            rw [hscore]
            exact ih hrest _
        | inr hscore =>
            rw [hscore]
            refine .inr ⟨.overflow, rfl, rfl, curve, List.mem_singleton_self curve, ?_⟩
            exact fun hscored => hscored bits hbits hscore

theorem nextRow_outcome (curve : SensitivityCurve) (scores : List (Option ℤ)) :
    nextRow curve scores = .ok ((rowProposals curve scores).foldl offer blankRow) ∨
      ∃ failure, nextRow curve scores = .error failure ∧ Unscored [curve] failure := by
  rw [nextRow, rowProposals, proposals, List.foldl_flatMap]
  apply foldlM_outcome
  rintro ⟨entry, prior⟩ _ row
  cases entry with
  | none => exact .inl rfl
  | some priorScore => exact addChoices_outcome curve prior priorScore row

/-! ## Rows -/

/-- The rows of the curves that are done, and the last scores. -/
inductive Filled :
    List SensitivityCurve → List (List Cell) → List (Option ℤ) → Prop where
  | nil : Filled [] [] initialScores
  | snoc {done : List SensitivityCurve} {rows : List (List Cell)}
      {scores : List (Option ℤ)} (filled : Filled done rows scores)
      (curve : SensitivityCurve) {row : List Cell}
      (length : row.length = upgradeUnitsPerLayer + 1)
      (best : Best (rowProposals curve scores) row) :
      Filled (done ++ [curve]) (rows ++ [row]) (row.map Slot.best)

variable {done ordered : List SensitivityCurve} {rows : List (List Cell)}
  {scores : List (Option ℤ)}

theorem Filled.filledRows (hfilled : Filled done rows scores) :
    FilledRows upgrade gain upgradeUnitsPerLayer mark (done.map group) rows scores := by
  induction hfilled with
  | nil => exact .nil
  | snoc _ curve hlength hbest ih =>
      rw [List.map_append, List.map_singleton]
      exact ih.snoc (group curve) hlength hbest

theorem Filled.exact (hfilled : Filled done rows scores) :
    Exact upgrade gain upgradeUnitsPerLayer (done.map group) scores :=
  hfilled.filledRows.exact

theorem fillRows_outcome (ordered : List SensitivityCurve) :
    (∃ scores rows, fillRows ordered = .ok (scores, rows) ∧ Filled ordered rows scores) ∨
      ∃ failure, fillRows ordered = .error failure ∧ Unscored ordered failure := by
  cases hrun : fillRows ordered with
  | ok final =>
      obtain ⟨scores, rows⟩ := final
      refine .inl ⟨scores, rows, rfl, ?_⟩
      refine foldlM_run (fun done (state : List (Option ℤ) × List (List Cell)) =>
        Filled done state.2 state.1) ?_ hrun Filled.nil
      intro done curve state next hnext hfilled
      simp only [bind_eq_ok, pure_eq_ok] at hnext
      obtain ⟨row, hrow, rfl⟩ := hnext
      cases nextRow_outcome curve state.1 with
      | inl hok =>
          rw [hok] at hrow
          cases hrow
          refine hfilled.snoc curve ?_ (best_foldl_offer _)
          rw [length_foldl_offer]
          exact List.length_replicate
      | inr hraised =>
          obtain ⟨failure, herror, _⟩ := hraised
          rw [herror] at hrow
          cases hrow
  | error failure =>
      right
      obtain ⟨curve, hcurve, state, hround⟩ := foldlM_eq_error hrun
      simp only [bind_eq_error, pure_ne_error, and_false, exists_false, or_false] at hround
      cases nextRow_outcome curve state.1 with
      | inl hok =>
          rw [hok] at hround
          cases hround
      | inr hraised =>
          obtain ⟨other, herror, hoverflow, source, hsource, hunscored⟩ := hraised
          rw [herror] at hround
          cases hround
          rw [List.mem_singleton.mp hsource] at hunscored
          exact ⟨failure, rfl, hoverflow, curve, hcurve, hunscored⟩

/-- One step back, from a place to the parent it has. -/
theorem stepBack_eq {row : List Cell} {place prior : ℕ} {slot : Cell} {taken : List ℕ}
    (hslot : row[place]? = some slot) (hparent : slot.parent = ((prior : ℤ), bits))
    (hbits : bits ∈ [3, 4, 5]) :
    stepBack ((place : ℤ), taken) row = .ok ((prior : ℤ), taken ++ [bits]) := by
  rw [stepBack, Int.toNat_natCast, List.getD_eq_getElem?_getD, hslot, Option.getD_some,
    hparent]
  change (require (bits ∈ [3, 4, 5] ∧ (0 : ℤ) ≤ prior)
    Failure.assertionError >>= fun _ => _) = _
  rw [require, if_pos ⟨hbits, Int.natCast_nonneg prior⟩]
  rfl

/-- The back pointers of a reached budget describe a selection of its score. -/
theorem walkBack_eq_ok {groups : List (List Choice)}
    (hfilled : FilledRows upgrade gain upgradeUnitsPerLayer mark groups rows scores)
    (hbits : ∀ group ∈ groups, ∀ choice ∈ group, choice.2 ∈ allowedBits) {value : ℤ}
    (hvalue : scores[upgradeUnitsPerLayer]? = some (some value)) :
    ∃ selection : List Choice, Selects selection groups ∧
      total upgrade selection = upgradeUnitsPerLayer ∧ total gain selection = value ∧
      walkBack rows = .ok (selection.map Prod.snd) := by
  let position : ℕ → List Choice → ℤ × List ℕ := fun place taken =>
    ((place : ℤ), taken.map Prod.snd)
  have hstep : ∀ group ∈ groups, ∀ choice ∈ group, ∀ (row : List Cell) (slot : Cell)
      (prior : ℕ) (taken : List Choice),
      row[prior + upgrade choice]? = some slot → slot.parent = mark prior choice →
        stepBack (position (prior + upgrade choice) taken) row =
          .ok (position prior (taken ++ [choice])) := by
    intro group hgroup choice hchoice row slot prior taken hslot hparent
    have hstep := @stepBack_eq _ row _ _ slot (taken.map Prod.snd) hslot hparent
      (hbits group hgroup choice hchoice)
    rw [← List.map_singleton, ← List.map_append] at hstep
    exact hstep
  obtain ⟨selection, hselects, hcost, hgain, hwalk⟩ := hfilled.walk hstep hvalue []
  refine ⟨selection, hselects, hcost, hgain, ?_⟩
  change rows.reverse.foldlM stepBack ((upgradeUnitsPerLayer : ℤ), []) = _ at hwalk
  rw [walkBack, hwalk]
  change (require ((0 : ℤ) = 0) Failure.assertionError >>= fun _ => _) = _
  rw [require, if_pos rfl]
  change Except.ok (List.map Prod.snd ([] ++ selection.reverse)).reverse = _
  rw [List.nil_append, List.map_reverse, List.reverse_reverse]

/-! ## The budget -/

def largest (choices : List Choice) : ℕ := (choices.map upgrade).foldr max 0

theorem largest_group (curve : SensitivityCurve) :
    largest (group curve) = largestUpgrade curve := by
  rw [largest, group, List.map_map]
  rfl

theorem le_largest_iff (curve : SensitivityCurve) (amount : ℕ) :
    amount ≤ largest (group curve) ↔
      ∃ choice ∈ group curve, upgrade choice = amount := by
  rw [group, choices]
  split
  · split
    · simp [largest, upgrade, floorBits]
      omega
    · simp [largest, upgrade, floorBits]
      omega
  · simp [largest, upgrade, floorBits]
    omega

theorem getElem?_of_getD {place : ℕ} {value : ℤ}
    (hvalue : scores.getD place none = some value) :
    scores[place]? = some (some value) := by
  rw [List.getD_eq_getElem?_getD] at hvalue
  cases hget : scores[place]? with
  | none =>
      rw [hget] at hvalue
      cases hvalue
  | some entry =>
      rw [hget, Option.getD_some] at hvalue
      rw [hvalue]

theorem Filled.reached_iff (hfilled : Filled ordered rows scores) :
    (∃ value, scores.getD upgradeUnitsPerLayer none = some value) ↔
      upgradeUnitsPerLayer ≤ (ordered.map largestUpgrade).sum := by
  have hsum : ((ordered.map group).map largest).sum =
      (ordered.map largestUpgrade).sum := by
    rw [List.map_map]
    exact congrArg List.sum (List.map_congr_left fun curve _ => largest_group curve)
  have hgroups : ∀ choices ∈ ordered.map group, ∀ amount,
      amount ≤ largest choices ↔ ∃ choice ∈ choices, upgrade choice = amount := by
    intro choices hmem amount
    obtain ⟨curve, -, rfl⟩ := List.mem_map.mp hmem
    exact le_largest_iff curve amount
  rw [← hsum, ← selects_total_iff hgroups]
  constructor
  · rintro ⟨value, hvalue⟩
    obtain ⟨selection, hselects, hcost, -⟩ :=
      (hfilled.exact.best _ _ (getElem?_of_getD hvalue)).1
    exact ⟨selection, hselects, hcost⟩
  · rintro ⟨selection, hselects, hcost⟩
    obtain ⟨value, hvalue⟩ := hfilled.exact.reached selection hselects hcost.le
    rw [hcost] at hvalue
    exact ⟨value, by rw [List.getD_eq_getElem?_getD, hvalue, Option.getD_some]⟩

/-! ## Tensors -/

theorem layerTensors_eq (layer : ℕ) : layerTensors layer =
    (List.range numExperts ×ˢ projections).map fun pair =>
      ⟨layer, pair.1, pair.2⟩ := by
  change _ = (List.product _ _).map _
  rw [layerTensors, List.product, List.map_flatMap]
  exact List.flatMap_congr fun expert _ => (List.map_map ..).symm

theorem nodup_layerTensors (layer : ℕ) : (layerTensors layer).Nodup := by
  rw [layerTensors_eq]
  apply List.Nodup.map
  · intro left right heq
    simp only [TensorId.mk.injEq, true_and] at heq
    exact Prod.ext heq.1 heq.2
  · exact List.nodup_range.product (by decide)

theorem length_layerTensors (layer : ℕ) :
    (layerTensors layer).length = tensorsPerLayer := by
  rw [layerTensors_eq, List.length_map, List.length_product, List.length_range]
  rfl

theorem stops_slash (rest : List Char) : Stops ('/' :: rest) := by
  intro char hchar
  rw [← Option.some.inj hchar]
  rfl

theorem projectionName_injective : Function.Injective Projection.name := by
  intro left right heq
  cases left <;> cases right <;> first | rfl | exact absurd heq (by decide)

theorem key_injective : Function.Injective TensorId.key := by
  intro left right heq
  have hchars := (List.cons.inj (String.ofList_injective heq)).2
  obtain ⟨hlayer, hrest⟩ :=
    paddedNumeral_append_inj (stops_slash _) (stops_slash _) hchars
  obtain ⟨hexpert, hname⟩ := paddedNumeral_append_inj (stops_slash _)
    (stops_slash _) (List.cons.inj (List.cons.inj hrest).2).2
  have hprojection := projectionName_injective
    (String.toList_injective (List.cons.inj hname).2)
  cases left
  cases right
  simp only [TensorId.mk.injEq]
  exact ⟨hlayer, hexpert, hprojection⟩

theorem orderCurves_of_perm {layer : ℕ} {curves : List SensitivityCurve}
    (hlayer : layer ∈ moeLayers)
    (hcurves : (curves.map SensitivityCurve.tensorId).Perm (layerTensors layer)) :
    ∃ ordered, orderCurves layer curves = .ok ordered ∧
      ordered.Perm curves ∧
      ordered.map SensitivityCurve.tensorId = layerTensors layer := by
  obtain ⟨ordered, hordered, hids⟩ := exists_perm_map_eq hcurves
  refine ⟨ordered, ?_, hordered, hids⟩
  have hkeys : Dict.keys (curves.map fun curve => (curve.tensorId, curve)) =
      curves.map SensitivityCurve.tensorId := by
    rw [Dict.keys, List.map_map]
    rfl
  have hnodup : (Dict.keys (curves.map fun curve =>
      (curve.tensorId, curve))).Nodup := by
    rw [hkeys]
    exact hcurves.nodup_iff.mpr (nodup_layerTensors layer)
  have hget : ∀ curve ∈ ordered, Dict.get? (curves.map fun curve =>
      (curve.tensorId, curve)) curve.tensorId = some curve := by
    intro curve hmem
    exact Dict.get?_of_mem hnodup
      (List.mem_map.mpr ⟨curve, hordered.mem_iff.mp hmem, rfl⟩)
  simp only [orderCurves, allLayerTensorIds, bind_eq_ok, require_eq_ok,
    pure_eq_ok, Dict.ofItems_eq hnodup, hkeys]
  refine ⟨_, ⟨(), hlayer, rfl⟩, (), ⟨?_, ?_⟩, ?_⟩
  · exact fun tensor hmem => hcurves.mem_iff.mp hmem
  · exact fun tensor hmem => hcurves.mem_iff.mpr hmem
  · rw [← hids, List.filterMap_map]
    have hsome : ∀ curve ∈ ordered, ((Dict.get? (curves.map fun curve =>
        (curve.tensorId, curve))) ∘ SensitivityCurve.tensorId) curve =
          some curve := hget
    rw [List.filterMap_congr hsome, List.filterMap_some]

/-! ## Assignments -/

section Choices

variable {choicesOf : SensitivityCurve → List ℕ}

theorem selects_fst {selection : List Choice}
    (hselects : Selects selection
      (ordered.map fun curve => (choicesOf curve).map fun bits => (curve, bits))) :
    selection.map Prod.fst = ordered ∧
      ∀ choice ∈ selection, choice.2 ∈ choicesOf choice.1 := by
  induction ordered generalizing selection with
  | nil =>
      rw [List.forall₂_nil_right_iff.mp hselects]
      exact ⟨rfl, fun _ hmem => absurd hmem List.not_mem_nil⟩
  | cons curve ordered ih =>
      obtain ⟨choice, rest, hchoice, hrest, rfl⟩ :=
        List.forall₂_cons_right_iff.mp hselects
      obtain ⟨bits, hbits, rfl⟩ := List.mem_map.mp hchoice
      obtain ⟨hfst, hall⟩ := ih hrest
      rw [List.map_cons, hfst, List.forall_mem_cons]
      exact ⟨rfl, hbits, hall⟩

theorem selects_of_assignment {assignment : SensitivityCurve → ℕ}
    (hall : ∀ curve ∈ ordered, assignment curve ∈ choicesOf curve) :
    Selects (ordered.map fun curve => (curve, assignment curve))
      (ordered.map fun curve => (choicesOf curve).map fun bits => (curve, bits)) := by
  rw [Selects, List.forall₂_map_left_iff, List.forall₂_map_right_iff, List.forall₂_same]
  intro curve hmem
  exact List.mem_map.mpr ⟨_, hall curve hmem, rfl⟩

end Choices

theorem floorBits_le (hmem : bits ∈ allowedBits) : floorBits ≤ bits := by
  simp only [allowedBits, List.mem_cons, List.not_mem_nil, or_false] at hmem
  simp only [floorBits]
  omega

theorem sum_bits {selection : List Choice}
    (hall : ∀ choice ∈ selection, choice.2 ∈ allowedBits) :
    (selection.map Prod.snd).sum =
      selection.length * floorBits + total upgrade selection := by
  induction selection with
  | nil => rfl
  | cons choice selection ih =>
      obtain ⟨hchoice, hrest⟩ := List.forall_mem_cons.mp hall
      have hfloor : floorBits ≤ choice.2 := floorBits_le hchoice
      have htotal : total upgrade (choice :: selection) =
          (choice.2 - floorBits) + total upgrade selection := rfl
      rw [List.map_cons, List.sum_cons, ih hrest, htotal, List.length_cons,
        Nat.succ_mul]
      omega

/-- The bits by the keys of the tensors. -/
def bitsOf (selection : List Choice) : Dict String ℕ :=
  selection.map fun choice => (choice.1.tensorId.key, choice.2)

/-- The allocation spends the rate on steps that help, as well as possible. -/
structure OptimalAllocation (curves : List SensitivityCurve)
    (allocation : LayerAllocation) : Prop where
  keys : allocation.bits.keys.Perm
    (curves.map fun curve => curve.tensorId.key)
  rate : (allocation.bits.map Prod.snd).sum = targetBitUnitsPerLayer
  admissible : ∀ curve ∈ curves, ∃ bits,
    allocation.bits.get? curve.tensorId.key = some bits ∧ Admissible curve bits
  score : (curves.map fun curve => scoreValue curve
    ((allocation.bits.get? curve.tensorId.key).getD 0)).sum =
      allocation.scoreInteger
  optimal : ∀ assignment : SensitivityCurve → ℕ,
    (∀ curve ∈ curves, Admissible curve (assignment curve)) →
    (curves.map assignment).sum = targetBitUnitsPerLayer →
    (curves.map fun curve => scoreValue curve (assignment curve)).sum ≤
      allocation.scoreInteger

section Selection

variable {selection : List Choice} {layer : ℕ}
  (hfst : selection.map Prod.fst = ordered)
  (hids : ordered.map SensitivityCurve.tensorId = layerTensors layer)

section Keys

include hfst hids

theorem keys_bitsOf : (bitsOf selection).keys =
    (layerTensors layer).map TensorId.key := by
  rw [← hids, ← hfst, List.map_map, List.map_map]
  exact List.map_map ..

theorem nodup_bitsOf : (bitsOf selection).keys.Nodup := by
  rw [keys_bitsOf hfst hids]
  exact (nodup_layerTensors layer).map key_injective

theorem length_selection : selection.length = tensorsPerLayer := by
  have hlength := congrArg List.length (keys_bitsOf hfst hids)
  rwa [Dict.keys, bitsOf, List.length_map, List.length_map, List.length_map,
    length_layerTensors] at hlength

theorem zip_eq_bitsOf : Dict.ofItems
    ((ordered.map fun curve => curve.tensorId.key).zip
      (selection.map Prod.snd)) = bitsOf selection := by
  have hzip : (ordered.map fun curve => curve.tensorId.key).zip
      (selection.map Prod.snd) = bitsOf selection := by
    rw [← hfst, List.map_map, List.zip_map', bitsOf]
    rfl
  rw [hzip, Dict.ofItems_eq (nodup_bitsOf hfst hids)]

theorem get?_bitsOf {choice : Choice} (hmem : choice ∈ selection) :
    (bitsOf selection).get? choice.1.tensorId.key = some choice.2 :=
  Dict.get?_of_mem (nodup_bitsOf hfst hids)
    (List.mem_map.mpr ⟨choice, hmem, rfl⟩)

end Keys

variable (hall : ∀ choice ∈ selection, choice.2 ∈ allowedBits)
  (hcost : total upgrade selection = upgradeUnitsPerLayer)

include hfst hids hall hcost

theorem rate_bitsOf : ((bitsOf selection).map Prod.snd).sum = targetBitUnitsPerLayer := by
  have hrate : tensorsPerLayer * floorBits + upgradeUnitsPerLayer =
      targetBitUnitsPerLayer := by decide
  have hvalues : (bitsOf selection).map Prod.snd = selection.map Prod.snd :=
    List.map_map ..
  rw [hvalues, sum_bits hall, length_selection hfst hids, hcost, hrate]

theorem auditAllocation_eq_ok : auditAllocation (bitsOf selection) = .ok () := by
  have hbits : ∀ bits ∈ (bitsOf selection).map Prod.snd, bits ∈ allowedBits := by
    intro bits hmem
    rw [bitsOf, List.map_map] at hmem
    obtain ⟨choice, hchoice, rfl⟩ := List.mem_map.mp hmem
    exact hall choice hchoice
  have hupgrades : ((bitsOf selection).map Prod.snd).map
      (fun bits => bits - floorBits) = selection.map upgrade := by
    rw [bitsOf, List.map_map, List.map_map]
    rfl
  simp only [auditAllocation, bind_eq_ok, require_eq_ok]
  refine ⟨(), ?_, (), hbits, (), ?_, (), rate_bitsOf hfst hids hall hcost, ?_⟩
  · rw [bitsOf, List.length_map, length_selection hfst hids]
  · exact fun bits hmem => floorBits_le (hbits bits hmem)
  · rw [hupgrades]
    exact hcost

end Selection

/-- The allocation spends the rate on permitted bits, as well as possible. -/
structure OptimalOver (allowed : SensitivityCurve → ℕ → Prop)
    (curves : List SensitivityCurve) (allocation : LayerAllocation) : Prop where
  keys : allocation.bits.keys.Perm
    (curves.map fun curve => curve.tensorId.key)
  rate : (allocation.bits.map Prod.snd).sum = targetBitUnitsPerLayer
  permitted : ∀ curve ∈ curves, ∃ bits,
    allocation.bits.get? curve.tensorId.key = some bits ∧ allowed curve bits
  score : (curves.map fun curve => scoreValue curve
    ((allocation.bits.get? curve.tensorId.key).getD 0)).sum =
      allocation.scoreInteger
  optimal : ∀ assignment : SensitivityCurve → ℕ,
    (∀ curve ∈ curves, allowed curve (assignment curve)) →
    (curves.map assignment).sum = targetBitUnitsPerLayer →
    (curves.map fun curve => scoreValue curve (assignment curve)).sum ≤
      allocation.scoreInteger

/-- A best selection of the budget gives an optimal allocation. -/
theorem optimalOver_of_selects {choicesOf : SensitivityCurve → List ℕ}
    (hchoices : ∀ curve, ∀ bits ∈ choicesOf curve, bits ∈ allowedBits)
    {selection : List Choice} (hselects : Selects selection
      (ordered.map fun curve => (choicesOf curve).map fun bits => (curve, bits)))
    {layer : ℕ} (hids : ordered.map SensitivityCurve.tensorId = layerTensors layer)
    {curves : List SensitivityCurve} (hordered : ordered.Perm curves)
    (hcost : total upgrade selection = upgradeUnitsPerLayer)
    (hbest : ∀ other : List Choice, Selects other
        (ordered.map fun curve => (choicesOf curve).map fun bits => (curve, bits)) →
      total upgrade other = upgradeUnitsPerLayer →
        total gain other ≤ total gain selection)
    {allocation : LayerAllocation} (hbits : allocation.bits = bitsOf selection)
    (hscore : allocation.scoreInteger = total gain selection) :
    OptimalOver (fun curve bits => bits ∈ choicesOf curve) curves allocation := by
  obtain ⟨hfst, hall⟩ := selects_fst hselects
  have hallowed : ∀ choice ∈ selection, choice.2 ∈ allowedBits :=
    fun choice hmem => hchoices choice.1 choice.2 (hall choice hmem)
  have hlookup : ∀ curve ∈ ordered, ∃ bits,
      (bitsOf selection).get? curve.tensorId.key = some bits ∧
        bits ∈ choicesOf curve := by
    intro curve hmem
    rw [← hfst] at hmem
    obtain ⟨choice, hchoice, rfl⟩ := List.mem_map.mp hmem
    exact ⟨choice.2, get?_bitsOf hfst hids hchoice, hall choice hchoice⟩
  refine ⟨?_, ?_, ?_, ?_, ?_⟩
  · rw [hbits, keys_bitsOf hfst hids, ← hids, List.map_map]
    exact hordered.map _
  · rw [hbits]
    exact rate_bitsOf hfst hids hallowed hcost
  · intro curve hmem
    rw [hbits]
    exact hlookup curve (hordered.mem_iff.mpr hmem)
  · rw [hbits, hscore, ← (hordered.map _).sum_eq, ← hfst, List.map_map, total]
    apply congrArg List.sum
    apply List.map_congr_left
    intro choice hmem
    rw [Function.comp_apply, get?_bitsOf hfst hids hmem, Option.getD_some, gain]
  · intro assignment hpermitted hsum
    have hselected := selects_of_assignment fun curve hmem =>
      hpermitted curve (hordered.mem_iff.mp hmem)
    set other : List Choice := ordered.map fun curve => (curve, assignment curve)
      with hother
    obtain ⟨hfst', hall'⟩ := selects_fst hselected
    have hsnd : (other.map Prod.snd).sum = targetBitUnitsPerLayer := by
      rw [← hsum, ← (hordered.map assignment).sum_eq, hother, List.map_map]
      rfl
    have hspent : total upgrade other = upgradeUnitsPerLayer := by
      have hrate : tensorsPerLayer * floorBits + upgradeUnitsPerLayer =
          targetBitUnitsPerLayer := by decide
      rw [sum_bits fun choice hmem => hchoices choice.1 choice.2 (hall' choice hmem),
        length_selection hfst' hids, ← hrate] at hsnd
      exact Nat.add_left_cancel hsnd
    have hgain : total gain other =
        (ordered.map fun curve => scoreValue curve (assignment curve)).sum := by
      rw [total, hother, List.map_map]
      rfl
    rw [hscore, ← (hordered.map _).sum_eq, ← hgain]
    exact hbest other hselected hspent

/-! ## The allocator -/

variable {layer : ℕ} {curves : List SensitivityCurve} {probeSha256 : String}

theorem solve_unreached (horder : orderCurves layer curves = .ok ordered)
    (hfill : fillRows ordered = .ok (scores, rows))
    (hnone : scores.getD upgradeUnitsPerLayer none = none) :
    solveSequentialAllocation layer curves probeSha256 = .error .runtimeError := by
  rw [solveSequentialAllocation, horder]
  change (fillRows ordered >>= _) = _
  rw [hfill, ok_bind]
  dsimp only
  rw [hnone]

theorem solve_reached (horder : orderCurves layer curves = .ok ordered)
    (hordered : ordered.Perm curves)
    (hids : ordered.map SensitivityCurve.tensorId = layerTensors layer)
    (hfill : fillRows ordered = .ok (scores, rows))
    (hfilled : Filled ordered rows scores) {value : ℤ}
    (hvalue : scores.getD upgradeUnitsPerLayer none = some value) :
    ∃ allocation, solveSequentialAllocation layer curves probeSha256 =
      .ok allocation ∧ OptimalAllocation curves allocation := by
  have hscore : scores[upgradeUnitsPerLayer]? = some (some value) :=
    getElem?_of_getD hvalue
  have hallowed : ∀ curve, ∀ bits ∈ choices curve, bits ∈ allowedBits :=
    fun curve bits hmem => mem_allowedBits (mem_choices.mp hmem)
  have hgroups : ∀ listed ∈ ordered.map group, ∀ choice ∈ listed,
      choice.2 ∈ allowedBits := by
    intro listed hmem choice hchoice
    obtain ⟨curve, _, rfl⟩ := List.mem_map.mp hmem
    obtain ⟨bits, hbits, rfl⟩ := List.mem_map.mp hchoice
    exact hallowed curve bits hbits
  obtain ⟨selection, hselects, hcost, hgain, hback⟩ :=
    walkBack_eq_ok hfilled.filledRows hgroups hscore
  obtain ⟨hfst, hall⟩ := selects_fst hselects
  have hbest : ∀ other : List Choice, Selects other (ordered.map group) →
      total upgrade other = upgradeUnitsPerLayer →
        total gain other ≤ total gain selection := by
    intro other hother hspent
    rw [hgain]
    exact (hfilled.exact.best _ _ hscore).2 other hother hspent
  have hoptimal (allocation : LayerAllocation)
      (hbits : allocation.bits = bitsOf selection)
      (hscore : allocation.scoreInteger = total gain selection) :
      OptimalAllocation curves allocation := by
    have hover := optimalOver_of_selects hallowed hselects hids hordered hcost hbest
      hbits hscore
    simp only [mem_choices] at hover
    exact ⟨hover.keys, hover.rate, hover.permitted, hover.score, hover.optimal⟩
  refine ⟨{
    layer := layer
    bits := bitsOf selection
    masses := (everyThird ordered).map SensitivityCurve.mass
    scoreInteger := value
    scoreScale := scoreScale
    upgradeUnits := upgradeUnitsPerLayer
    fixedPointIteration := 0
    probeSha256 := probeSha256 }, ?_, hoptimal _ rfl hgain.symm⟩
  rw [solveSequentialAllocation, horder]
  change (fillRows ordered >>= _) = _
  rw [hfill, ok_bind]
  dsimp only
  rw [hvalue]
  change (walkBack rows >>= _) = _
  rw [hback]
  change (auditAllocation (Dict.ofItems _) >>= fun _ => _) = _
  rw [zip_eq_bitsOf hfst hids, auditAllocation_eq_ok hfst hids
    (fun choice hmem => hallowed choice.1 choice.2 (hall choice hmem)) hcost]
  rfl

/-! ## One curve for all tensors -/

theorem decimal_zero : decimal 0 = .ok 0 := by
  rw [decimal, DecimalContext.fix_zero]

theorem decimal_pow {exponent : ℤ} (hmin : -999999 ≤ exponent) :
    decimal ((10 : ℚ) ^ exponent) =
      if exponent ≤ 999999 then .ok ((10 : ℚ) ^ exponent)
      else .error .overflow := by
  rw [decimal, DecimalContext.fix_pow hmin (by decide)]
  by_cases hmax : exponent ≤ 999999
  · rw [if_pos hmax, if_pos (show exponent ≤ scoreContext.emax from hmax)]
  · rw [if_neg hmax, if_neg (show ¬exponent ≤ scoreContext.emax from hmax)]

/-- Three bits have the given loss, more bits have none. -/
def sampleCurve (mass loss : ℚ) (tensor : TensorId) : SensitivityCurve where
  tensorId := tensor
  mass := mass
  lossByBits := fun bits => if bits = 3 then loss else 0

def sampleCurves (mass loss : ℚ) : List SensitivityCurve :=
  (layerTensors 3).map (sampleCurve mass loss)

theorem sampleCurves_perm (mass loss : ℚ) :
    ((sampleCurves mass loss).map SensitivityCurve.tensorId).Perm
      (layerTensors 3) := by
  rw [sampleCurves, List.map_map]
  exact .of_eq (List.map_id _)

theorem choices_sample (mass : ℚ) {loss : ℚ} (tensor : TensorId) :
    choices (sampleCurve mass loss tensor) = if 0 < loss then [3, 4] else [3] :=
  rfl

theorem sum_sample (mass : ℚ) {loss : ℚ} (hloss : 0 < loss) :
    ((sampleCurves mass loss).map largestUpgrade).sum = tensorsPerLayer := by
  have hone : ∀ tensor ∈ layerTensors 3,
      (largestUpgrade ∘ sampleCurve mass loss) tensor = 1 := by
    intro tensor _
    rw [Function.comp_apply, largestUpgrade, choices_sample, if_pos hloss]
    rfl
  rw [sampleCurves, List.map_map, List.map_congr_left hone, List.map_const',
    List.sum_replicate, length_layerTensors]
  rfl

theorem score_floor (mass loss : ℚ) (tensor : TensorId) :
    score (sampleCurve mass loss tensor) 3 = .ok 0 := by
  have hloss : (sampleCurve mass loss tensor).lossByBits floorBits -
      (sampleCurve mass loss tensor).lossByBits 3 = 0 := sub_self _
  simp only [score, hloss, mul_zero, zero_mul, decimal_zero, bind_eq_ok,
    pure_eq_ok, Except.ok.injEq, exists_eq_left']
  exact roundHalfEven_intCast 0

theorem score_four (mass loss : ℚ) (tensor : TensorId) :
    score (sampleCurve mass loss tensor) 4 = (do
      let loss ← decimal loss
      let value ← decimal (mass * loss)
      let scaled ← decimal (value * scoreScale)
      return roundHalfEven scaled) := by
  have hloss : (sampleCurve mass loss tensor).lossByBits floorBits -
      (sampleCurve mass loss tensor).lossByBits 4 = loss := sub_zero _
  rw [score, hloss]
  rfl

theorem decimal_one : decimal 1 = .ok 1 :=
  (decimal_pow (by decide : (-999999 : ℤ) ≤ 0)).trans (if_pos (by decide))

theorem decimal_scoreScale : decimal (scoreScale : ℚ) = .ok (scoreScale : ℚ) := by
  have hpow := decimal_pow (by decide : (-999999 : ℤ) ≤ 15)
  have hscale : (10 : ℚ) ^ (15 : ℤ) = (scoreScale : ℚ) := by
    rw [scoreScale, Nat.cast_pow]
    rfl
  rwa [if_pos (by decide), hscale] at hpow

/-- The score of a step that helps by one, for a mass of one. -/
theorem score_four_one {loss : ℚ} (hloss : loss = 0 ∨ loss = 1) (tensor : TensorId) :
    ∃ value, score (sampleCurve 1 loss tensor) 4 = .ok value := by
  rw [score_four]
  rcases hloss with rfl | rfl
  · rw [decimal_zero, ok_bind, mul_zero, decimal_zero, ok_bind, zero_mul, decimal_zero]
    exact ⟨_, rfl⟩
  · rw [decimal_one, ok_bind, mul_one, decimal_one, ok_bind, one_mul, decimal_scoreScale]
    exact ⟨_, rfl⟩

theorem scored_sample {loss : ℚ} (hloss : loss = 0 ∨ loss = 1)
    (tensor : TensorId) : Scored (sampleCurve 1 loss tensor) := by
  intro bits hmem hoverflow
  rw [choices_sample] at hmem
  have hbits : bits = 3 ∨ bits = 4 := by
    split at hmem
    · simpa using hmem
    · exact .inl (List.mem_singleton.mp hmem)
  rcases hbits with rfl | rfl
  · rw [score_floor] at hoverflow
    cases hoverflow
  · obtain ⟨value, hfour⟩ := score_four_one hloss tensor
    rw [hfour] at hoverflow
    cases hoverflow

/-- A mass of this size overflows with the loss that it is multiplied with. -/
theorem score_overflow (tensor : TensorId) :
    score (sampleCurve ((10 : ℚ) ^ (999999 : ℤ)) 10 tensor) 4 =
      .error .overflow := by
  have hten : decimal 10 = .ok 10 := by
    have hpow := decimal_pow (by decide : (-999999 : ℤ) ≤ 1)
    rw [zpow_one, if_pos (by decide)] at hpow
    exact hpow
  have hproduct : (10 : ℚ) ^ (999999 : ℤ) * 10 = 10 ^ (1000000 : ℤ) :=
    (zpow_add_one₀ (by norm_num) _).symm
  rw [score_four, hten]
  change (decimal ((10 : ℚ) ^ (999999 : ℤ) * 10) >>= _) = _
  rw [hproduct, decimal_pow (by decide), if_neg (by decide)]
  rfl

theorem nextRow_overflow (tensor : TensorId) :
    nextRow (sampleCurve ((10 : ℚ) ^ (999999 : ℤ)) 10 tensor) initialScores =
      .error .overflow := by
  have hfirst (row : List Cell) : ∃ next, addChoice (sampleCurve
      ((10 : ℚ) ^ (999999 : ℤ)) 10 tensor) 0 0 row 3 = .ok next := by
    rw [addChoice, if_neg (by decide), score_floor]
    exact ⟨_, rfl⟩
  have hsecond (row : List Cell) : addChoice (sampleCurve
      ((10 : ℚ) ^ (999999 : ℤ)) 10 tensor) 0 0 row 4 = .error .overflow := by
    rw [addChoice, if_neg (by decide), score_overflow]
    rfl
  obtain ⟨next, hnext⟩ := hfirst blankRow
  rw [nextRow, initialScores, List.zipIdx_cons, List.foldlM_cons]
  change ((choices _).foldlM (addChoice _ 0 0) blankRow >>= _) = _
  rw [choices_sample, if_pos (by norm_num), List.foldlM_cons, hnext]
  change ((addChoice _ 0 0 next 4 >>= _) >>= _) = _
  rw [hsecond]
  rfl

theorem solve_overflow (probeSha256 : String) :
    solveSequentialAllocation 3 (sampleCurves ((10 : ℚ) ^ (999999 : ℤ)) 10)
      probeSha256 = .error .overflow := by
  obtain ⟨ordered, horder, hordered, hids⟩ :=
    orderCurves_of_perm (by decide) (sampleCurves_perm ((10 : ℚ) ^ (999999 : ℤ)) 10)
  have hne : ordered ≠ [] := by
    intro hempty
    rw [hempty] at hids
    have hlength := congrArg List.length hids
    rw [length_layerTensors] at hlength
    cases hlength
  obtain ⟨curve, rest, rfl⟩ := List.exists_cons_of_ne_nil hne
  obtain ⟨tensor, -, hcurve⟩ :=
    List.mem_map.mp (hordered.mem_iff.mp List.mem_cons_self)
  rw [solveSequentialAllocation, horder]
  change (fillRows (curve :: rest) >>= _) = _
  rw [fillRows, List.foldlM_cons, ← hcurve, nextRow_overflow]
  rfl

/-- Unless a score overflows, the budget is spent exactly and optimally, or the
measured steps cannot spend it.  No assertion fails. -/
theorem solveSequentialAllocation_optimal (layer : ℕ)
    (curves : List SensitivityCurve) (probeSha256 : String)
    (hlayer : layer ∈ moeLayers)
    (hcurves : (curves.map SensitivityCurve.tensorId).Perm (layerTensors layer)) :
    ((∀ curve ∈ curves, Scored curve) →
      (solveSequentialAllocation layer curves probeSha256 = .error .runtimeError ↔
        (curves.map largestUpgrade).sum < upgradeUnitsPerLayer) ∧
      (upgradeUnitsPerLayer ≤ (curves.map largestUpgrade).sum →
        ∃ allocation, solveSequentialAllocation layer curves probeSha256 =
          .ok allocation ∧ OptimalAllocation curves allocation)) ∧
    solveSequentialAllocation layer curves probeSha256 ≠
      .error .assertionError := by
  obtain ⟨ordered, horder, hordered, hids⟩ := orderCurves_of_perm hlayer hcurves
  cases fillRows_outcome ordered with
  | inr hraised =>
      obtain ⟨failure, hfill, rfl, curve, hcurve, hunscored⟩ := hraised
      constructor
      · exact fun hscored => absurd (hscored curve (hordered.mem_iff.mp hcurve)) hunscored
      · rw [solveSequentialAllocation, horder]
        change (fillRows ordered >>= _) ≠ _
        rw [hfill]
        rintro ⟨⟩
  | inl hok =>
      obtain ⟨scores, rows, hfill, hfilled⟩ := hok
      have hreached := hfilled.reached_iff
      rw [(hordered.map largestUpgrade).sum_eq] at hreached
      cases hvalue : scores.getD upgradeUnitsPerLayer none with
      | none =>
          have hshort : (curves.map largestUpgrade).sum < upgradeUnitsPerLayer := by
            rw [← not_le, ← hreached, hvalue]
            rintro ⟨value, hsome⟩
            cases hsome
          have hrun := @solve_unreached _ _ _ _ _ probeSha256 horder hfill hvalue
          rw [hrun]
          refine ⟨fun _ => ⟨⟨fun _ => hshort, fun _ => rfl⟩, ?_⟩, ?_⟩
          · exact fun hle => absurd hle (not_le.mpr hshort)
          · rintro ⟨⟩
      | some value =>
          have hlong := hreached.mp ⟨value, hvalue⟩
          obtain ⟨allocation, hrun, hoptimal⟩ :=
            @solve_reached _ _ _ _ _ probeSha256 horder hordered hids hfill hfilled
              _ hvalue
          rw [hrun]
          refine ⟨fun _ => ⟨⟨(by rintro ⟨⟩), ?_⟩, ?_⟩, ?_⟩
          · exact fun hlt => absurd hlong (not_le.mpr hlt)
          · exact fun _ => ⟨allocation, rfl, hoptimal⟩
          · rintro ⟨⟩

/-- A product beyond the decimal exponents is raised as an overflow, although
the upgrades suffice for the budget. -/
theorem solve_raises_overflow : ∃ layer curves probeSha256,
    layer ∈ moeLayers ∧
      (curves.map SensitivityCurve.tensorId).Perm (layerTensors layer) ∧
      (∀ curve ∈ curves, 0 ≤ curve.mass) ∧
      upgradeUnitsPerLayer ≤ (curves.map largestUpgrade).sum ∧
      ¬∃ allocation, solveSequentialAllocation layer curves probeSha256 =
        .ok allocation := by
  refine ⟨3, sampleCurves ((10 : ℚ) ^ (999999 : ℤ)) 10, "", by decide,
    sampleCurves_perm _ _, ?_, ?_, ?_⟩
  · intro curve hmem
    obtain ⟨tensor, -, rfl⟩ := List.mem_map.mp hmem
    exact (zpow_pos (by norm_num) _).le
  · rw [sum_sample _ (by norm_num)]
    decide
  · rintro ⟨allocation, hrun⟩
    rw [solve_overflow] at hrun
    cases hrun

/-- Curves that help once, and curves that do not help. -/
theorem solveSequentialAllocation_optimal_one :
    (∃ allocation, solveSequentialAllocation 3 (sampleCurves 1 1) "" =
      .ok allocation ∧ OptimalAllocation (sampleCurves 1 1) allocation) ∧
    solveSequentialAllocation 3 (sampleCurves 1 0) "" = .error .runtimeError := by
  have hscored (loss : ℚ) (hloss : loss = 0 ∨ loss = 1) :
      ∀ curve ∈ sampleCurves 1 loss, Scored curve := by
    intro curve hmem
    obtain ⟨tensor, -, rfl⟩ := List.mem_map.mp hmem
    exact scored_sample hloss tensor
  have hnone : ((sampleCurves 1 0).map largestUpgrade).sum <
      upgradeUnitsPerLayer := by
    have hzero : ∀ tensor ∈ layerTensors 3,
        (largestUpgrade ∘ sampleCurve 1 0) tensor = 0 := fun _ _ => rfl
    rw [sampleCurves, List.map_map, List.map_congr_left hzero, List.map_const',
      List.sum_replicate, nsmul_zero]
    decide
  constructor
  · refine ((solveSequentialAllocation_optimal 3 (sampleCurves 1 1) "" (by decide)
      (sampleCurves_perm 1 1)).1 (hscored 1 (.inr rfl))).2 ?_
    rw [sum_sample 1 one_pos]
    decide
  · exact ((solveSequentialAllocation_optimal 3 (sampleCurves 1 0) "" (by decide)
      (sampleCurves_perm 1 0)).1 (hscored 0 (.inl rfl))).1.mpr hnone

end GlmFlash.Encoder
