import GlmFlash.Worker.DraftBudget
import Mathlib.Algebra.Order.BigOperators.Group.List
import Mathlib.Tactic.Linarith

/-!
# Rows of draft slots

Running products of probabilities descend, so a request verifies a prefix of
its drafts.  A masked row is worth `⊥` as soon as its prefix leaves the drafts
of the request.  The counts that are read off the flattened rows are the
counts of each row.
-/

namespace GlmFlash.Worker.AdaptiveVerification

open GlmFlash.Library

/-! ## Running sums and products -/

/-- The sums of the first values, from none to all of them. -/
def prefixSums {A : Type} [AddMonoid A] (values : List A) : List A :=
  (List.range (values.length + 1)).map fun count => (values.take count).sum

theorem cons_accumulate_add {A : Type} [AddMonoid A] (start : A) (values : List A) :
    start :: accumulate (· + ·) start values =
      (prefixSums values).map (start + ·) := by
  induction values generalizing start with
  | nil =>
      rw [accumulate, prefixSums, List.length_nil, List.range_one, List.map_map]
      simp
  | cons value values ih =>
      have hrange : List.range (values.length + 1 + 1) =
          0 :: (List.range (values.length + 1)).map Nat.succ := List.range_succ_eq_map
      rw [accumulate, ih, prefixSums, prefixSums, List.length_cons, hrange,
        List.map_cons, List.map_cons, List.map_map, List.map_map, List.map_map,
        List.take_zero, List.sum_nil, add_zero]
      congr 1
      apply List.map_congr_left
      intro count _
      change start + value + (values.take count).sum =
        start + ((value :: values).take (count + 1)).sum
      rw [List.take_succ_cons, List.sum_cons, add_assoc]

theorem zero_cons_cumsum {A : Type} [AddMonoid A] (values : List A) :
    0 :: cumsum values = prefixSums values := by
  rw [cumsum, cons_accumulate_add]
  conv_rhs => rw [← List.map_id (prefixSums values)]
  apply List.map_congr_left
  intro value _
  exact zero_add value

theorem length_accumulate {A : Type} (operation : A → A → A) (start : A)
    (values : List A) :
    (accumulate operation start values).length = values.length := by
  induction values generalizing start with
  | nil => rfl
  | cons value values ih => rw [accumulate, List.length_cons, ih, List.length_cons]

/-- Running products of probabilities do not grow. -/
theorem accumulate_mul_le {start : ℚ} {values : List ℚ} (hstart : 0 ≤ start)
    (hvalues : ∀ value ∈ values, 0 ≤ value ∧ value ≤ 1) :
    (∀ product ∈ accumulate (· * ·) start values, product ≤ start) ∧
      (accumulate (· * ·) start values).Pairwise (· ≥ ·) := by
  induction values generalizing start with
  | nil => exact ⟨List.forall_mem_nil _, .nil⟩
  | cons value values ih =>
      obtain ⟨⟨hnonneg, hone⟩, hrest⟩ := List.forall_mem_cons.mp hvalues
      obtain ⟨hle, hpairs⟩ := ih (mul_nonneg hstart hnonneg) hrest
      have hproduct : start * value ≤ start := mul_le_of_le_one_right hstart hone
      constructor
      · intro product hmem
        rw [accumulate, List.mem_cons] at hmem
        cases hmem with
        | inl heq => exact heq ▸ hproduct
        | inr hmem => exact (hle product hmem).trans hproduct
      · rw [accumulate]
        exact .cons hle hpairs

theorem pairwise_cumprod {values : List ℚ}
    (hvalues : ∀ value ∈ values, 0 ≤ value ∧ value ≤ 1) :
    (cumprod values).Pairwise (· ≥ ·) :=
  (accumulate_mul_le zero_le_one hvalues).2

/-! ## The largest value -/

theorem argmaxFrom_spec (best : ℚ) (bestIndex index : ℕ) (values : List ℚ) :
    (argmaxFrom best bestIndex index values = bestIndex ∧
        ∀ value ∈ values, value ≤ best) ∨
      ∃ offset value, argmaxFrom best bestIndex index values = index + offset ∧
        values[offset]? = some value ∧ best ≤ value ∧
          ∀ other ∈ values, other ≤ value := by
  induction values generalizing best bestIndex index with
  | nil => exact .inl ⟨rfl, List.forall_mem_nil _⟩
  | cons value values ih =>
      rw [argmaxFrom]
      split
      · rename_i hlt
        right
        cases ih value index (index + 1) with
        | inl hkept =>
            exact ⟨0, value, hkept.1, rfl, hlt.le,
              List.forall_mem_cons.mpr ⟨le_rfl, hkept.2⟩⟩
        | inr hlater =>
            obtain ⟨offset, largest, heq, hget, hle, hall⟩ := hlater
            refine ⟨offset + 1, largest, ?_, hget, hlt.le.trans hle,
              List.forall_mem_cons.mpr ⟨hle, hall⟩⟩
            rw [heq, Nat.add_assoc, Nat.add_comm 1]
      · rename_i hnot
        have hle := not_lt.mp hnot
        cases ih best bestIndex (index + 1) with
        | inl hkept =>
            exact .inl ⟨hkept.1, List.forall_mem_cons.mpr ⟨hle, hkept.2⟩⟩
        | inr hlater =>
            obtain ⟨offset, largest, heq, hget, hbest, hall⟩ := hlater
            refine .inr ⟨offset + 1, largest, ?_, hget, hbest,
              List.forall_mem_cons.mpr ⟨hle.trans hbest, hall⟩⟩
            rw [heq, Nat.add_assoc, Nat.add_comm 1]

/-- No value is larger than the one at `argmax`. -/
theorem argmax_spec {values : List ℚ} (hne : values ≠ []) :
    ∃ largest, values[argmax values]? = some largest ∧
      ∀ value ∈ values, value ≤ largest := by
  cases values with
  | nil => exact absurd rfl hne
  | cons first values =>
      cases argmaxFrom_spec first 0 1 values with
      | inl hkept =>
          refine ⟨first, ?_, List.forall_mem_cons.mpr ⟨le_rfl, hkept.2⟩⟩
          rw [argmax, hkept.1]
          rfl
      | inr hlater =>
          obtain ⟨offset, largest, heq, hget, hle, hall⟩ := hlater
          refine ⟨largest, ?_, List.forall_mem_cons.mpr ⟨hle, hall⟩⟩
          rw [argmax, heq, Nat.add_comm, List.getElem?_cons_succ]
          exact hget

/-! ## Drafts of a request -/

theorem filter_zipIdx_lt {A : Type} (values : List A) (count offset : ℕ) :
    ((values.zipIdx offset).filter fun entry => entry.2 < offset + count).map
      Prod.fst = values.take count := by
  induction values generalizing count offset with
  | nil => cases count <;> rfl
  | cons value values ih =>
      rw [List.zipIdx_cons, List.filter_cons]
      cases count with
      | zero =>
          rw [if_neg (by simp), List.take_zero, Nat.add_zero]
          rw [List.filter_eq_nil_iff.mpr]
          · rfl
          · intro entry hmem
            have hle := List.le_snd_of_mem_zipIdx hmem
            simp only [decide_eq_true_eq, not_lt]
            exact (Nat.le_succ offset).trans hle
      | succ count =>
          rw [if_pos (by simp), List.map_cons, List.take_succ_cons, ← ih count (offset + 1)]
          simp only [Nat.add_assoc, Nat.add_comm 1]

theorem validEntries_eq_take (survival : List ℚ) (scheduledDrafts : ℕ) :
    validEntries survival scheduledDrafts = survival.take scheduledDrafts := by
  have heq := filter_zipIdx_lt survival scheduledDrafts 0
  rwa [Nat.zero_add] at heq

theorem maskedRow_eq (survival : List ℚ) (capacity : ℕ) :
    maskedRow survival capacity =
      (survival.take capacity).map (↑) ++
        List.replicate (survival.length - capacity) ⊥ := by
  apply List.ext_getElem
  · rw [maskedRow, List.length_map, List.length_zipIdx, List.length_append,
      List.length_map, List.length_take, List.length_replicate]
    omega
  · intro step hleft hright
    rw [maskedRow, List.length_map, List.length_zipIdx] at hleft
    rw [List.getElem_append]
    simp only [maskedRow, List.getElem_map, List.getElem_zipIdx, Nat.zero_add,
      List.length_map, List.length_take, List.getElem_take, List.getElem_replicate]
    by_cases hcapacity : capacity ≤ step
    · rw [if_pos hcapacity, dif_neg]
      omega
    · rw [if_neg hcapacity, dif_pos]
      omega

theorem pairwise_maskedRow {survival : List ℚ} (hsorted : survival.Pairwise (· ≥ ·))
    (capacity : ℕ) : (maskedRow survival capacity).Pairwise (· ≥ ·) := by
  rw [maskedRow_eq, List.pairwise_append]
  refine ⟨?_, List.pairwise_replicate.mpr (.inr le_rfl), ?_⟩
  · apply List.Pairwise.map _ _ (hsorted.sublist (List.take_sublist _ _))
    intro left right hle
    exact WithBot.coe_le_coe.mpr hle
  · intro value _ other hother
    rw [List.eq_of_mem_replicate hother]
    exact bot_le

theorem sum_map_coe (values : List ℚ) :
    (values.map ((↑) : ℚ → WithBot ℚ)).sum = ↑values.sum := by
  induction values with
  | nil => rfl
  | cons value values ih =>
      rw [List.map_cons, List.sum_cons, List.sum_cons, ih, WithBot.coe_add]

theorem sum_take_maskedRow_of_le {survival : List ℚ} {capacity count : ℕ}
    (hcapacity : capacity ≤ survival.length) (hcount : count ≤ capacity) :
    ((maskedRow survival capacity).take count).sum = ↑(survival.take count).sum := by
  have hlength : count ≤ ((survival.take capacity).map
      ((↑) : ℚ → WithBot ℚ)).length := by
    rw [List.length_map, List.length_take_of_le hcapacity]
    exact hcount
  rw [maskedRow_eq, List.take_append_of_le_length hlength, ← List.map_take,
    List.take_take, Nat.min_eq_left hcount, sum_map_coe]

/-- A prefix that leaves the drafts of its request is worth nothing. -/
theorem sum_take_maskedRow_of_lt {survival : List ℚ} {capacity count : ℕ}
    (hcapacity : capacity < count) (hcount : count ≤ survival.length) :
    ((maskedRow survival capacity).take count).sum = ⊥ := by
  have hlength : ((survival.take capacity).map
      ((↑) : ℚ → WithBot ℚ)).length = capacity := by
    rw [List.length_map, List.length_take_of_le (hcapacity.le.trans hcount)]
  obtain ⟨extra, rfl⟩ := Nat.exists_eq_add_of_lt hcapacity
  obtain ⟨masked, hmasked⟩ : ∃ masked, survival.length - capacity = masked + 1 :=
    ⟨survival.length - capacity - 1, by omega⟩
  rw [maskedRow_eq, List.take_append, List.take_of_length_le (by omega), hlength,
    List.sum_append, hmasked, List.replicate_succ]
  have hextra : capacity + extra + 1 - capacity = extra + 1 := by omega
  rw [hextra, List.take_succ_cons, List.sum_cons, WithBot.bot_add, WithBot.add_bot]

/-! ## Drafts of a batch -/

/-- The prefixes stay within the drafts of their requests. -/
def Within (counts capacities : List ℕ) : Prop :=
  List.Forall₂ (· ≤ ·) counts capacities

theorem Within.eq_of_sum_eq {counts capacities : List ℕ}
    (hwithin : Within counts capacities) (hsum : counts.sum = capacities.sum) :
    counts = capacities := by
  induction hwithin with
  | nil => rfl
  | @cons count capacity counts capacities hle hrest ih =>
      have hsums : counts.sum ≤ capacities.sum := hrest.sum_le_sum
      rw [List.sum_cons, List.sum_cons] at hsum
      have hcount : count = capacity := by omega
      rw [hcount, ih (by omega)]

/-- Any smaller number of drafts can be taken. -/
theorem exists_within {capacities : List ℕ} {total : ℕ}
    (htotal : total ≤ capacities.sum) :
    ∃ counts, Within counts capacities ∧ counts.sum = total := by
  induction capacities generalizing total with
  | nil =>
      rw [List.sum_nil, Nat.le_zero] at htotal
      exact ⟨[], .nil, htotal.symm⟩
  | cons capacity capacities ih =>
      rw [List.sum_cons] at htotal
      obtain ⟨counts, hwithin, hsum⟩ := ih (Nat.sub_le_iff_le_add'.mpr htotal)
      by_cases hall : total ≤ capacity
      · refine ⟨total :: counts, .cons hall hwithin, ?_⟩
        rw [List.sum_cons, hsum, Nat.sub_eq_zero_of_le hall, Nat.add_zero]
      · refine ⟨capacity :: counts, .cons le_rfl hwithin, ?_⟩
        rw [List.sum_cons, hsum]
        omega

/-- Rows have a value for each step, and drafts a step each. -/
def Fits (rows : List (List ℚ)) (capacities : List ℕ) : Prop :=
  List.Forall₂ (fun row capacity => capacity ≤ row.length) rows capacities

theorem bounded_masked {rows : List (List ℚ)} {counts capacities : List ℕ}
    (hfits : Fits rows capacities) (hwithin : Within counts capacities) :
    Bounded (List.zipWith maskedRow rows capacities) counts := by
  induction hfits generalizing counts with
  | nil =>
      cases hwithin
      exact .nil
  | cons hcapacity _ ih =>
      cases hwithin with
      | cons hle hrest =>
          refine .cons ?_ (ih hrest)
          rw [maskedRow, List.length_map, List.length_zipIdx]
          exact hle.trans hcapacity

theorem prefixValue_masked {rows : List (List ℚ)} {counts capacities : List ℕ}
    (hfits : Fits rows capacities) (hwithin : Within counts capacities) :
    prefixValue (List.zipWith maskedRow rows capacities) counts =
      ↑(prefixValue rows counts) := by
  induction hfits generalizing counts with
  | nil =>
      cases hwithin
      rfl
  | cons hcapacity _ ih =>
      cases hwithin with
      | cons hle hrest =>
          rw [List.zipWith_cons_cons, prefixValue, prefixValue, ih hrest,
            sum_take_maskedRow_of_le hcapacity hle, WithBot.coe_add]

/-- Prefixes of masked rows that are worth something stay within the drafts. -/
theorem within_of_prefixValue_ne_bot {rows : List (List ℚ)}
    {counts capacities : List ℕ} (hfits : Fits rows capacities)
    (hbounded : Bounded (List.zipWith maskedRow rows capacities) counts)
    (hvalue : prefixValue (List.zipWith maskedRow rows capacities) counts ≠ ⊥) :
    Within counts capacities := by
  induction hfits generalizing counts with
  | nil =>
      cases hbounded
      exact .nil
  | @cons row capacity rows capacities hcapacity _ ih =>
      rw [List.zipWith_cons_cons] at hbounded hvalue
      cases hbounded with
      | @cons count _ counts _ hcount hrest =>
          rw [prefixValue] at hvalue
          rw [maskedRow, List.length_map, List.length_zipIdx] at hcount
          refine .cons ?_ (ih hrest ?_)
          · by_contra hlt
            apply hvalue
            rw [sum_take_maskedRow_of_lt (not_le.mp hlt) hcount, WithBot.bot_add]
          · intro hbot
            apply hvalue
            rw [hbot, WithBot.add_bot]

/-- The chosen slots of each row, read off all slots. -/
theorem map_count_eq_pickCounts {A : Type} {rows : List (List A)} {numSteps : ℕ}
    (hlength : ∀ row ∈ rows, row.length = numSteps) (chosen : ℕ → Bool) :
    ((List.range rows.length).map fun req =>
        (((((List.range rows.flatten.length).map chosen).drop (req * numSteps)).take
          numSteps).count true)) = pickCounts chosen rows := by
  induction rows generalizing chosen with
  | nil => rfl
  | cons row rows ih =>
      obtain ⟨hrow, hrows⟩ := List.forall_mem_cons.mp hlength
      have hsplit : (List.range (row :: rows).flatten.length).map chosen =
          (List.range numSteps).map chosen ++
            (List.range rows.flatten.length).map fun index => chosen (index + numSteps) := by
        rw [List.flatten_cons, List.length_append, hrow, List.range_add, List.map_append,
          List.map_map]
        simp only [Function.comp_def, Nat.add_comm]
      have hfirst : ((List.range numSteps).map chosen).length = numSteps := by
        rw [List.length_map, List.length_range]
      rw [List.length_cons, List.range_succ_eq_map, List.map_cons, List.map_map, hsplit,
        pickCounts]
      congr 1
      · rw [Nat.zero_mul, List.drop_zero, List.take_left' hfirst, length_pick, hrow,
          List.count_eq_countP, List.countP_map, List.countP_eq_length_filter]
        congr 2
        funext index
        simp
      · rw [hrow, ← ih hrows]
        apply List.map_congr_left
        intro req _
        simp only [Function.comp_apply, Nat.succ_mul]
        rw [Nat.add_comm, ← List.drop_drop, List.drop_left' hfirst]

end GlmFlash.Worker.AdaptiveVerification
