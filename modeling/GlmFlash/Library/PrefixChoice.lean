import Mathlib.Algebra.BigOperators.Group.List.Basic
import Mathlib.Algebra.Order.BigOperators.Group.List
import Mathlib.Data.List.Sort
import Mathlib.Data.List.Forall2
import Mathlib.Data.List.Perm.Subperm
import Mathlib.Algebra.GroupWithZero.Nat

/-!
# Best prefixes of descending rows

Rows of values descend.  Taking a prefix of each row, with a given number of
values in all, is best when the values are the largest of all rows together.
A choice of the largest values need not be one of prefixes, where values are
equal; the numbers that it takes of each row are the best prefixes all the
same.
-/

namespace GlmFlash.Library

variable {A : Type*}

/-! ## Choices by position -/

/-- The values at the chosen positions. -/
def pick (chosen : ℕ → Bool) : List A → List A
  | [] => []
  | value :: values =>
      if chosen 0 then value :: pick (fun index => chosen (index + 1)) values
      else pick (fun index => chosen (index + 1)) values

/-- How many values are chosen of each row, by positions in all rows. -/
def pickCounts (chosen : ℕ → Bool) : List (List A) → List ℕ
  | [] => []
  | row :: rows => (pick chosen row).length ::
      pickCounts (fun index => chosen (index + row.length)) rows

theorem pick_sublist (chosen : ℕ → Bool) (values : List A) :
    (pick chosen values).Sublist values := by
  induction values generalizing chosen with
  | nil => exact List.Sublist.refl _
  | cons value values ih =>
      rw [pick]
      split
      · exact (ih _).cons_cons value
      · exact (ih _).cons value

/-- What is chosen and what is left are the values. -/
theorem pick_append_perm (chosen : ℕ → Bool) (values : List A) :
    values.Perm (pick chosen values ++ pick (fun index => !chosen index) values) := by
  induction values generalizing chosen with
  | nil => exact List.Perm.refl _
  | cons value values ih =>
      rw [pick, pick]
      cases chosen 0 with
      | true => exact (ih _).cons value
      | false => exact ((ih _).cons value).trans List.perm_middle.symm

theorem pick_append (chosen : ℕ → Bool) (left right : List A) :
    pick chosen (left ++ right) =
      pick chosen left ++ pick (fun index => chosen (index + left.length)) right := by
  induction left generalizing chosen with
  | nil => rfl
  | cons value left ih =>
      rw [List.cons_append, pick, pick, ih]
      simp only [List.length_cons, Nat.add_assoc]
      split
      · rfl
      · rfl

theorem mem_pick {chosen : ℕ → Bool} {values : List A} {value : A} :
    value ∈ pick chosen values ↔
      ∃ index, chosen index = true ∧ values[index]? = some value := by
  induction values generalizing chosen with
  | nil => simp [pick]
  | cons first values ih =>
      have hsplit : (∃ index, chosen index = true ∧
          (first :: values)[index]? = some value) ↔
          (chosen 0 = true ∧ value = first) ∨ ∃ index,
            chosen (index + 1) = true ∧ values[index]? = some value := by
        constructor
        · rintro ⟨index, hchosen, hget⟩
          cases index with
          | zero => exact .inl ⟨hchosen, (Option.some.inj hget).symm⟩
          | succ index => exact .inr ⟨index, hchosen, hget⟩
        · rintro (⟨hchosen, rfl⟩ | ⟨index, hchosen, hget⟩)
          · exact ⟨0, hchosen, rfl⟩
          · exact ⟨index + 1, hchosen, hget⟩
      rw [hsplit, pick, ← ih]
      cases chosen 0 with
      | true => rw [if_pos rfl, List.mem_cons, eq_self, true_and]
      | false => rw [if_neg Bool.false_ne_true]; simp

theorem sum_pickCounts (chosen : ℕ → Bool) (rows : List (List A)) :
    (pickCounts chosen rows).sum = (pick chosen rows.flatten).length := by
  induction rows generalizing chosen with
  | nil => rfl
  | cons row rows ih =>
      rw [pickCounts, List.sum_cons, ih, List.flatten_cons, pick_append,
        List.length_append]

/-- The positions of the largest values, as a search for them may give them:
which of equal values are taken is left open. -/
structure IsTopk [LE A] (values : List A) (count : ℕ) (winners : List ℕ) : Prop where
  nodup : winners.Nodup
  length : winners.length = count
  lt : ∀ index ∈ winners, index < values.length
  le : ∀ index ∈ winners, ∀ other, other ∉ winners → ∀ value value',
    values[index]? = some value → values[other]? = some value' → value' ≤ value

theorem length_pick (chosen : ℕ → Bool) (values : List A) :
    (pick chosen values).length =
      ((List.range values.length).filter chosen).length := by
  induction values generalizing chosen with
  | nil => rfl
  | cons value values ih =>
      rw [List.length_cons, List.range_succ_eq_map, List.filter_cons,
        List.filter_map, pick]
      cases chosen 0 with
      | true =>
          rw [if_pos rfl, if_pos rfl, List.length_cons, List.length_cons,
            List.length_map, ih]
          rfl
      | false =>
          rw [if_neg Bool.false_ne_true, if_neg Bool.false_ne_true, List.length_map,
            ih]
          rfl

theorem length_pick_mem {values : List A} {winners : List ℕ} (hnodup : winners.Nodup)
    (hlt : ∀ index ∈ winners, index < values.length) :
    (pick (fun index => decide (index ∈ winners)) values).length =
      winners.length := by
  rw [length_pick]
  apply List.Perm.length_eq
  rw [List.perm_ext_iff_of_nodup (List.nodup_range.filter _) hnodup]
  intro index
  rw [List.mem_filter, List.mem_range, decide_eq_true_eq]
  exact and_iff_right_of_imp (hlt index)

/-- Sorting the positions by their values is one such search. -/
def sortedTopk [LinearOrder A] (values : List A) (count : ℕ) : List ℕ :=
  ((values.zipIdx.insertionSort fun left right => right.1 ≤ left.1).take count).map
    Prod.snd

theorem isTopk_sortedTopk [LinearOrder A] {values : List A} {count : ℕ}
    (hcount : count ≤ values.length) :
    IsTopk values count (sortedTopk values count) := by
  let sorted := values.zipIdx.insertionSort fun left right => right.1 ≤ left.1
  have hperm : sorted.Perm values.zipIdx := List.perm_insertionSort _ _
  have hsorted : sorted.Pairwise fun left right => right.1 ≤ left.1 := by
    have htotal : Std.Total fun left right : A × ℕ => right.1 ≤ left.1 :=
      ⟨fun left right => le_total right.1 left.1⟩
    have htrans : IsTrans (A × ℕ) fun left right => right.1 ≤ left.1 :=
      ⟨fun _ _ _ hle hle' => hle'.trans hle⟩
    exact List.pairwise_insertionSort _ _
  have hget (entry : A × ℕ) : entry ∈ sorted ↔ values[entry.2]? = some entry.1 := by
    rw [hperm.mem_iff, List.mem_zipIdx_iff_getElem?]
  have hnodup : (sorted.map Prod.snd).Nodup := by
    rw [(hperm.map Prod.snd).nodup_iff, List.zipIdx_map_snd]
    exact List.nodup_range'
  refine ⟨?_, ?_, ?_, ?_⟩
  · rw [sortedTopk, List.map_take]
    exact hnodup.sublist (List.take_sublist _ _)
  · rw [sortedTopk, List.length_map, List.length_take, hperm.length_eq,
      List.length_zipIdx]
    exact Nat.min_eq_left hcount
  · intro index hmem
    obtain ⟨entry, hentry, rfl⟩ := List.mem_map.mp hmem
    have hvalue := (hget entry).mp (List.mem_of_mem_take hentry)
    exact (List.getElem?_eq_some_iff.mp hvalue).1
  · intro index hmem other hother value value' hvalue hvalue'
    obtain ⟨entry, hentry, rfl⟩ := List.mem_map.mp hmem
    have hentry' := (hget entry).mp (List.mem_of_mem_take hentry)
    have hrest : (value', other) ∈ sorted.drop count := by
      have hmem' : (value', other) ∈ sorted.take count ++ sorted.drop count := by
        rw [List.take_append_drop]
        exact (hget _).mpr hvalue'
      apply (List.mem_append.mp hmem').resolve_left
      exact fun hin => hother (List.mem_map_of_mem hin)
    rw [hentry'] at hvalue
    cases hvalue
    have hpairs : (sorted.take count ++ sorted.drop count).Pairwise
        fun left right => right.1 ≤ left.1 := by
      rw [List.take_append_drop]
      exact hsorted
    exact (List.pairwise_append.mp hpairs).2.2 entry hentry _ hrest

/-! ## Largest values -/

section Sums

variable [LinearOrder A] [AddCommMonoid A] [IsOrderedAddMonoid A]

/-- The first values of a descending list have the largest sum. -/
theorem sum_le_sum_take {values chosen : List A}
    (hsorted : values.Pairwise (· ≥ ·)) (hchosen : chosen.Subperm values) :
    chosen.sum ≤ (values.take chosen.length).sum := by
  induction values generalizing chosen with
  | nil =>
      rw [List.subperm_nil.mp hchosen]
      exact le_rfl
  | cons largest values ih =>
      obtain ⟨hlargest, hrest⟩ := List.pairwise_cons.mp hsorted
      cases hnil : chosen with
      | nil => exact le_rfl
      | cons first others =>
          rw [← hnil]
          have herased : (chosen.erase largest).Subperm values := by
            have herase := hchosen.erase largest
            rwa [List.erase_cons_head] at herase
          obtain ⟨value, hmem, hle, hlater⟩ : ∃ value ∈ chosen, value ≤ largest ∧
              (chosen.erase value).Subperm values := by
            by_cases hin : largest ∈ chosen
            · exact ⟨largest, hin, le_rfl, herased⟩
            · rw [List.erase_of_not_mem hin] at herased
              have hfirst : first ∈ chosen := hnil ▸ List.mem_cons_self
              exact ⟨first, hfirst, hlargest first (herased.subset hfirst),
                List.erase_sublist.subperm.trans herased⟩
          have hlength : (chosen.erase value).length + 1 = chosen.length := by
            rw [List.length_erase_of_mem hmem]
            exact Nat.sub_add_cancel (List.length_pos_of_mem hmem)
          calc chosen.sum
              = value + (chosen.erase value).sum := by
                rw [← List.sum_cons, (List.perm_cons_erase hmem).sum_eq]
            _ ≤ largest + (values.take (chosen.erase value).length).sum :=
                add_le_add hle (ih hrest hlater)
            _ = ((largest :: values).take chosen.length).sum := by
                rw [← hlength, List.take_succ_cons, List.sum_cons]

/-- The values from the largest to the smallest. -/
def descending (values : List A) : List A :=
  (values.insertionSort (· ≤ ·)).reverse

omit [AddCommMonoid A] [IsOrderedAddMonoid A] in
theorem descending_perm (values : List A) : (descending values).Perm values :=
  (List.reverse_perm _).trans (List.perm_insertionSort _ _)

omit [AddCommMonoid A] [IsOrderedAddMonoid A] in
theorem pairwise_descending (values : List A) :
    (descending values).Pairwise (· ≥ ·) :=
  List.pairwise_reverse.mpr (List.pairwise_insertionSort _ _)

/-- The sum of the `count` largest values. -/
def largestSum (values : List A) (count : ℕ) : A :=
  ((descending values).take count).sum

theorem sum_le_largestSum {values chosen : List A} (hchosen : chosen.Subperm values) :
    chosen.sum ≤ largestSum values chosen.length :=
  sum_le_sum_take (pairwise_descending values)
    (hchosen.trans (descending_perm values).symm.subperm)

omit [IsOrderedAddMonoid A] in
/-- A choice that leaves out no larger value has the largest sum. -/
theorem largestSum_of_split {values chosen others : List A}
    (hperm : values.Perm (chosen ++ others))
    (hlargest : ∀ value ∈ chosen, ∀ other ∈ others, other ≤ value) :
    largestSum values chosen.length = chosen.sum := by
  have hsorted : (descending chosen ++ descending others).Pairwise (· ≥ ·) := by
    rw [List.pairwise_append]
    refine ⟨pairwise_descending chosen, pairwise_descending others, ?_⟩
    intro value hvalue other hother
    exact hlargest value ((descending_perm chosen).mem_iff.mp hvalue) other
      ((descending_perm others).mem_iff.mp hother)
  have heq : descending values = descending chosen ++ descending others := by
    refine @List.Perm.eq_of_pairwise A (· ≥ ·) _ _ ?_ ?_ ?_ ?_
    · intro left right _ _ hle hge
      exact le_antisymm hge hle
    · exact pairwise_descending values
    · exact hsorted
    · exact (descending_perm values).trans (hperm.trans
        ((descending_perm chosen).append (descending_perm others)).symm)
  rw [largestSum, heq, ← (descending_perm chosen).length_eq, List.take_left,
    (descending_perm chosen).sum_eq]

/-! ## Prefixes of rows -/

/-- The sum of a prefix of each row. -/
def prefixValue : List (List A) → List ℕ → A
  | row :: rows, count :: counts => (row.take count).sum + prefixValue rows counts
  | _, _ => 0

/-- No prefix is longer than its row. -/
def Bounded (rows : List (List A)) (counts : List ℕ) : Prop :=
  List.Forall₂ (fun count row => count ≤ row.length) counts rows

/-- The prefixes, one after the other. -/
def prefixes : List (List A) → List ℕ → List A
  | row :: rows, count :: counts => row.take count ++ prefixes rows counts
  | _, _ => []

omit [LinearOrder A] [IsOrderedAddMonoid A] in
theorem sum_prefixes (rows : List (List A)) (counts : List ℕ) :
    (prefixes rows counts).sum = prefixValue rows counts := by
  induction rows generalizing counts with
  | nil => cases counts <;> rfl
  | cons row rows ih =>
      cases counts with
      | nil => rfl
      | cons count counts =>
          rw [prefixes, List.sum_append, ih, prefixValue]

omit [LinearOrder A] [AddCommMonoid A] [IsOrderedAddMonoid A] in
theorem prefixes_sublist (rows : List (List A)) (counts : List ℕ) :
    (prefixes rows counts).Sublist rows.flatten := by
  induction rows generalizing counts with
  | nil => cases counts <;> exact List.nil_sublist _
  | cons row rows ih =>
      cases counts with
      | nil => exact List.nil_sublist _
      | cons count counts => exact (List.take_sublist count row).append (ih counts)

omit [LinearOrder A] [AddCommMonoid A] [IsOrderedAddMonoid A] in
theorem length_prefixes {rows : List (List A)} {counts : List ℕ}
    (hbounded : Bounded rows counts) :
    (prefixes rows counts).length = counts.sum := by
  induction hbounded with
  | nil => rfl
  | cons hcount _ ih =>
      rw [prefixes, List.length_append, ih, List.length_take, Nat.min_eq_left hcount,
        List.sum_cons]

theorem prefixValue_le_largestSum {rows : List (List A)} {counts : List ℕ}
    (hbounded : Bounded rows counts) :
    prefixValue rows counts ≤ largestSum rows.flatten counts.sum := by
  have hle := sum_le_largestSum (prefixes_sublist rows counts).subperm
  rwa [sum_prefixes, length_prefixes hbounded] at hle

omit [LinearOrder A] [AddCommMonoid A] [IsOrderedAddMonoid A] in
theorem bounded_pickCounts (chosen : ℕ → Bool) (rows : List (List A)) :
    Bounded rows (pickCounts chosen rows) := by
  induction rows generalizing chosen with
  | nil => exact .nil
  | cons row rows ih => exact .cons (pick_sublist chosen row).length_le (ih _)

/-- Of a descending row a prefix is at least as good as any choice. -/
theorem sum_pick_le_prefixValue {rows : List (List A)}
    (hsorted : ∀ row ∈ rows, row.Pairwise (· ≥ ·)) (chosen : ℕ → Bool) :
    (pick chosen rows.flatten).sum ≤ prefixValue rows (pickCounts chosen rows) := by
  induction rows generalizing chosen with
  | nil => exact le_rfl
  | cons row rows ih =>
      obtain ⟨hrow, hrows⟩ := List.forall_mem_cons.mp hsorted
      rw [List.flatten_cons, pick_append, List.sum_append, pickCounts, prefixValue]
      exact add_le_add (sum_le_sum_take hrow (pick_sublist chosen row).subperm)
        (ih hrows _)

/-- The numbers that the largest values take of each row are the best prefixes. -/
theorem IsTopk.best {rows : List (List A)} {count : ℕ} {winners : List ℕ}
    (hwinners : IsTopk rows.flatten count winners)
    (hsorted : ∀ row ∈ rows, row.Pairwise (· ≥ ·)) :
    (pickCounts (fun index => decide (index ∈ winners)) rows).sum = count ∧
      prefixValue rows (pickCounts (fun index => decide (index ∈ winners)) rows) =
        largestSum rows.flatten count := by
  have hsum : (pickCounts (fun index => decide (index ∈ winners)) rows).sum =
      count := by
    rw [sum_pickCounts, length_pick_mem hwinners.nodup hwinners.lt, hwinners.length]
  have hlargest : ∀ value ∈ pick (fun index => decide (index ∈ winners)) rows.flatten,
      ∀ other ∈ pick (fun index => !decide (index ∈ winners)) rows.flatten,
        other ≤ value := by
    intro value hvalue other hother
    obtain ⟨index, hmem, hget⟩ := mem_pick.mp hvalue
    obtain ⟨index', hmem', hget'⟩ := mem_pick.mp hother
    rw [Bool.not_eq_true', decide_eq_false_iff_not] at hmem'
    exact hwinners.le index (of_decide_eq_true hmem) index' hmem' value other hget
      hget'
  refine ⟨hsum, le_antisymm ?_ ?_⟩
  · rw [← hsum]
    exact prefixValue_le_largestSum (bounded_pickCounts _ rows)
  · rw [← hsum, sum_pickCounts, largestSum_of_split (pick_append_perm _ _) hlargest]
    exact sum_pick_le_prefixValue hsorted _

/-- Some prefixes have the largest sum. -/
theorem exists_best {rows : List (List A)} {count : ℕ}
    (hsorted : ∀ row ∈ rows, row.Pairwise (· ≥ ·))
    (hcount : count ≤ rows.flatten.length) :
    ∃ counts, Bounded rows counts ∧ counts.sum = count ∧
      prefixValue rows counts = largestSum rows.flatten count := by
  obtain ⟨hsum, hvalue⟩ := (isTopk_sortedTopk hcount).best hsorted
  exact ⟨_, bounded_pickCounts _ rows, hsum, hvalue⟩

end Sums

end GlmFlash.Library
