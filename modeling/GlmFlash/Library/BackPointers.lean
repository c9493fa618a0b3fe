import GlmFlash.Library.BestSlots
import GlmFlash.Library.Outcome

/-!
# Walks along back pointers

The rows of a table are filled one group after the other, each from the scores
of the one before.  From a score in the last row, the parents lead back to the
start along a selection of this cost and score.
-/

namespace GlmFlash.Library

universe u

variable {A M P : Type*} [LinearOrder M] [AddCommMonoid M]
  {cost : A → ℕ} {gain : A → M} {budget : ℕ} {mark : ℕ → A → P}

/-- The rows of the groups that are done, and the last scores. -/
inductive FilledRows (cost : A → ℕ) (gain : A → M) (budget : ℕ) (mark : ℕ → A → P) :
    List (List A) → List (List (Slot M P)) → List (Option M) → Prop where
  | nil : FilledRows cost gain budget mark [] [] (some 0 :: List.replicate budget none)
  | snoc {groups : List (List A)} {rows : List (List (Slot M P))}
      {scores : List (Option M)} (filled : FilledRows cost gain budget mark groups rows scores)
      (group : List A) {row : List (Slot M P)} (length : row.length = budget + 1)
      (best : Best (proposals cost gain budget mark scores group) row) :
      FilledRows cost gain budget mark (groups ++ [group]) (rows ++ [row])
        (row.map Slot.best)

variable {groups : List (List A)} {rows : List (List (Slot M P))}
  {scores : List (Option M)}

theorem FilledRows.exact [IsOrderedAddMonoid M]
    (hfilled : FilledRows cost gain budget mark groups rows scores) :
    Exact cost gain budget groups scores := by
  induction hfilled with
  | nil => exact Exact.nil
  | snoc _ group hlength hbest ih => exact ih.snoc hlength hbest

theorem FilledRows.length_rows
    (hfilled : FilledRows cost gain budget mark groups rows scores) :
    rows.length = groups.length := by
  induction hfilled with
  | nil => rfl
  | snoc _ group _ _ ih => rw [List.length_append, List.length_append, ih]; rfl

theorem FilledRows.length_scores
    (hfilled : FilledRows cost gain budget mark groups rows scores) :
    scores.length = budget + 1 := by
  cases hfilled with
  | nil => rw [List.length_cons, List.length_replicate]
  | snoc _ group hlength _ => rw [List.length_map, hlength]

/-- A step goes from a place to its parent and notes the choice.  From a reached
place, the steps lead to the start along a selection of its cost and score. -/
theorem FilledRows.walk {E : Type*} {S : Type u} {step : S → List (Slot M P) → Except E S}
    {position : ℕ → List A → S}
    (hfilled : FilledRows cost gain budget mark groups rows scores)
    (hstep : ∀ group ∈ groups, ∀ choice ∈ group, ∀ row slot prior taken,
      row[prior + cost choice]? = some slot → slot.parent = mark prior choice →
        step (position (prior + cost choice) taken) row =
          .ok (position prior (taken ++ [choice])))
    {place : ℕ} {value : M} (hvalue : scores[place]? = some (some value))
    (taken : List A) :
    ∃ selection, Selects selection groups ∧ total cost selection = place ∧
      total gain selection = value ∧
      rows.reverse.foldlM step (position place taken) =
        .ok (position 0 (taken ++ selection.reverse)) := by
  induction hfilled generalizing place value taken with
  | nil =>
      cases place with
      | zero =>
          cases hvalue
          refine ⟨[], .nil, rfl, rfl, ?_⟩
          rw [List.reverse_nil, List.reverse_nil, List.append_nil]
          rfl
      | succ place =>
          have hnone := List.eq_of_mem_replicate (List.mem_of_getElem? hvalue)
          cases hnone
  | @snoc groups rows scores hfilled group row hlength hbest ih =>
      rw [List.getElem?_map, Option.map_eq_some_iff] at hvalue
      obtain ⟨slot, hslot, hvalue⟩ := hvalue
      obtain ⟨prior, earlier, choice, hearlier, hchoice, rfl, rfl, hparent⟩ :=
        parent_of_best hbest hslot hvalue
      have hbefore := fun group hgroup => hstep group (List.mem_append_left _ hgroup)
      obtain ⟨selection, hselects, hcost, hgain, hwalk⟩ :=
        ih hbefore hearlier (taken ++ [choice])
      refine ⟨selection ++ [choice], ?_, ?_, ?_, ?_⟩
      · exact selects_snoc.mpr ⟨selection, choice, rfl, hselects, hchoice⟩
      · rw [total_append, total_singleton, hcost]
      · rw [total_append, total_singleton, hgain]
      · have hlast := hstep group (List.mem_append_right _ List.mem_cons_self) choice
          hchoice row slot prior taken hslot hparent
        rw [List.reverse_append, List.reverse_singleton, List.singleton_append,
          List.foldlM_cons, hlast]
        refine hwalk.trans ?_
        rw [List.reverse_append, List.reverse_singleton, List.append_assoc]

end GlmFlash.Library
