import GlmFlash.Library.MultipleChoice
import Mathlib.Data.List.Basic
import Mathlib.Algebra.GroupWithZero.Nat

/-!
# Exact costs with back pointers

A row has one slot for each cost up to the budget.  A slot keeps the best value
it was offered, the first one among equals, and where it came from.  A row that
was offered every extension of an exact row is exact for one group more, and
its parents lead back to a selection of the slot's cost and value.
-/

namespace GlmFlash.Library

structure Slot (M P : Type*) where
  best : Option M
  parent : P

variable {A M P : Type*} [LinearOrder M]

def Slot.offer (slot : Slot M P) (value : M) (parent : P) : Slot M P :=
  match slot.best with
  | none => ⟨some value, parent⟩
  | some incumbent => if incumbent < value then ⟨some value, parent⟩ else slot

/-- Offer a value and its parent to the slot at a place. -/
def offer (row : List (Slot M P)) (proposal : ℕ × M × P) : List (Slot M P) :=
  row.modify proposal.1 fun slot => slot.offer proposal.2.1 proposal.2.2

/-- The slot has the best of what was proposed for a place. -/
def Slot.IsBest (slot : Slot M P) (place : ℕ) (proposals : List (ℕ × M × P)) :
    Prop :=
  (slot.best = none ∧ ∀ proposal ∈ proposals, proposal.1 ≠ place) ∨
    ∃ value, slot.best = some value ∧ (place, value, slot.parent) ∈ proposals ∧
      ∀ proposal ∈ proposals, proposal.1 = place → proposal.2.1 ≤ value

def Best (proposals : List (ℕ × M × P)) (row : List (Slot M P)) : Prop :=
  ∀ place (slot : Slot M P), row[place]? = some slot →
    slot.IsBest place proposals

section Offers

variable {row : List (Slot M P)} {proposals : List (ℕ × M × P)}
  {proposal : ℕ × M × P} {slot : Slot M P} {place : ℕ} {value : M} {parent : P}

theorem Slot.IsBest.other (hslot : slot.IsBest place proposals)
    (hplace : proposal.1 ≠ place) :
    slot.IsBest place (proposals ++ [proposal]) := by
  rcases hslot with ⟨hnone, hall⟩ | ⟨value, hvalue, hmem, hall⟩
  · refine .inl ⟨hnone, fun other hother => ?_⟩
    rcases List.mem_append.mp hother with hearlier | hlast
    · exact hall other hearlier
    · exact List.mem_singleton.mp hlast ▸ hplace
  · refine .inr ⟨value, hvalue, List.mem_append_left _ hmem, ?_⟩
    intro other hother hsame
    rcases List.mem_append.mp hother with hearlier | hlast
    · exact hall other hearlier hsame
    · exact absurd (List.mem_singleton.mp hlast ▸ hsame) hplace

/-- A new best value is at least every value before it. -/
theorem Slot.isBest_new (hall : ∀ other ∈ proposals, other.1 = place →
      other.2.1 ≤ value) :
    Slot.IsBest ⟨some value, parent⟩ place
      (proposals ++ [(place, value, parent)]) := by
  refine .inr ⟨value, rfl, List.mem_append_right _ List.mem_cons_self, ?_⟩
  intro other hother hsame
  rcases List.mem_append.mp hother with hearlier | hlast
  · exact hall other hearlier hsame
  · rw [List.mem_singleton.mp hlast]

theorem Slot.IsBest.offer (hslot : slot.IsBest place proposals) :
    (slot.offer value parent).IsBest place
      (proposals ++ [(place, value, parent)]) := by
  rcases hslot with ⟨hnone, hall⟩ | ⟨incumbent, hvalue, hmem, hall⟩
  · rw [Slot.offer, hnone]
    exact Slot.isBest_new fun other hother hsame =>
      absurd hsame (hall other hother)
  · rw [Slot.offer, hvalue]
    dsimp only
    by_cases hlt : incumbent < value
    · rw [if_pos hlt]
      exact Slot.isBest_new fun other hother hsame =>
        (hall other hother hsame).trans hlt.le
    · rw [if_neg hlt]
      refine .inr ⟨incumbent, hvalue, List.mem_append_left _ hmem, ?_⟩
      intro other hother hsame
      rcases List.mem_append.mp hother with hearlier | hlast
      · exact hall other hearlier hsame
      · rw [List.mem_singleton.mp hlast]
        exact not_lt.mp hlt

theorem Best.blank {blank : P} (count : ℕ) :
    Best [] (List.replicate count (⟨none, blank⟩ : Slot M P)) := by
  intro place slot hslot
  rw [List.eq_of_mem_replicate (List.mem_of_getElem? hslot)]
  exact .inl ⟨rfl, fun _ hnone => absurd hnone List.not_mem_nil⟩

theorem Best.offer (hbest : Best proposals row) :
    Best (proposals ++ [proposal]) (offer row proposal) := by
  intro place slot hslot
  rw [Library.offer, List.getElem?_modify] at hslot
  obtain ⟨before, hbefore, rfl⟩ := Option.map_eq_some_iff.mp hslot
  by_cases hplace : proposal.1 = place
  · rw [if_pos hplace, ← hplace]
    exact (hplace ▸ hbest place before hbefore).offer
  · rw [if_neg hplace]
    exact (hbest place before hbefore).other hplace

theorem length_foldl_offer (row : List (Slot M P)) :
    (proposals.foldl offer row).length = row.length := by
  induction proposals generalizing row with
  | nil => rfl
  | cons proposal proposals ih =>
      rw [List.foldl_cons, ih]
      exact List.length_modify _ _ _

theorem best_foldl_offer {blank : P} (count : ℕ) :
    Best proposals (proposals.foldl offer
      (List.replicate count (⟨none, blank⟩ : Slot M P))) := by
  suffices hmore : ∀ done row, Best done row →
      Best (done ++ proposals) (proposals.foldl offer row) from
    hmore [] _ (Best.blank count)
  induction proposals with
  | nil =>
      intro done row hbest
      rwa [List.append_nil]
  | cons proposal proposals ih =>
      intro done row hbest
      have hrest := ih (done ++ [proposal]) _ hbest.offer
      rwa [List.append_assoc, List.singleton_append] at hrest

end Offers

/-! ## Rows of exact costs -/

section Rows

variable [AddCommMonoid M] [IsOrderedAddMonoid M] (cost : A → ℕ) (gain : A → M)
  (budget : ℕ)

/-- The best value of a cost, and that no selection of the cost is better. -/
def IsBest (groups : List (List A)) (place : ℕ) (value : M) : Prop :=
  (∃ selection, Selects selection groups ∧ total cost selection = place ∧
    total gain selection = value) ∧
  ∀ selection, Selects selection groups → total cost selection = place →
    total gain selection ≤ value

/-- The row has the best value of every cost up to the budget that some
selection has. -/
structure Exact (groups : List (List A)) (scores : List (Option M)) : Prop where
  best : ∀ place value, scores[place]? = some (some value) →
    IsBest cost gain groups place value
  reached : ∀ selection, Selects selection groups →
    total cost selection ≤ budget →
      ∃ value, scores[total cost selection]? = some (some value)

/-- What is proposed for the next row: each score with each choice that stays
within the budget, and how it was reached. -/
def proposals (mark : ℕ → A → P) (scores : List (Option M)) (choices : List A) :
    List (ℕ × M × P) :=
  scores.zipIdx.flatMap fun entry =>
    match entry.1 with
    | none => []
    | some score =>
        (choices.filter fun choice => entry.2 + cost choice ≤ budget).map
          fun choice => (entry.2 + cost choice, score + gain choice,
            mark entry.2 choice)

variable {cost gain budget} {mark : ℕ → A → P} {groups : List (List A)}
  {group : List A} {scores : List (Option M)}

omit [LinearOrder M] [IsOrderedAddMonoid M] in
theorem mem_proposals {proposal : ℕ × M × P} :
    proposal ∈ proposals cost gain budget mark scores group ↔
      ∃ prior score choice, scores[prior]? = some (some score) ∧
        choice ∈ group ∧ prior + cost choice ≤ budget ∧
        proposal = (prior + cost choice, score + gain choice,
          mark prior choice) := by
  rw [proposals, List.mem_flatMap]
  constructor
  · rintro ⟨⟨entry, prior⟩, hentry, hmem⟩
    rw [List.mk_mem_zipIdx_iff_getElem?] at hentry
    cases entry with
    | none => exact absurd hmem List.not_mem_nil
    | some score =>
        obtain ⟨choice, hchoice, rfl⟩ := List.mem_map.mp hmem
        obtain ⟨hgroup, hcost⟩ := List.mem_filter.mp hchoice
        exact ⟨prior, score, choice, hentry, hgroup, of_decide_eq_true hcost, rfl⟩
  · rintro ⟨prior, score, choice, hscore, hgroup, hcost, rfl⟩
    refine ⟨(some score, prior), List.mk_mem_zipIdx_iff_getElem?.mpr hscore, ?_⟩
    exact List.mem_map.mpr ⟨choice,
      List.mem_filter.mpr ⟨hgroup, decide_eq_true hcost⟩, rfl⟩

omit [IsOrderedAddMonoid M] in
theorem Exact.nil : Exact cost gain budget []
    (some (0 : M) :: List.replicate budget none) where
  best := by
    intro place value hvalue
    cases place with
    | zero =>
        cases hvalue
        refine ⟨⟨[], .nil, rfl, rfl⟩, fun selection hselects _ => ?_⟩
        rw [List.forall₂_nil_right_iff.mp hselects]
        exact le_rfl
    | succ place =>
        have hnone := List.eq_of_mem_replicate (List.mem_of_getElem? hvalue)
        cases hnone
  reached := by
    intro selection hselects _
    rw [List.forall₂_nil_right_iff.mp hselects]
    exact ⟨0, rfl⟩

omit [IsOrderedAddMonoid M] in
/-- A slot with a value came from a choice and an earlier score. -/
theorem parent_of_best {row : List (Slot M P)}
    (hbest : Best (proposals cost gain budget mark scores group) row)
    {place : ℕ} {slot : Slot M P} (hslot : row[place]? = some slot) {value : M}
    (hvalue : slot.best = some value) :
    ∃ prior score choice, scores[prior]? = some (some score) ∧
      choice ∈ group ∧ place = prior + cost choice ∧
      value = score + gain choice ∧ slot.parent = mark prior choice := by
  rcases hbest place slot hslot with ⟨hnone, -⟩ | ⟨other, hother, hmem, -⟩
  · rw [hnone] at hvalue
    cases hvalue
  · rw [hother, Option.some.injEq] at hvalue
    obtain ⟨prior, score, choice, hscore, hgroup, -, heq⟩ := mem_proposals.mp hmem
    simp only [Prod.mk.injEq] at heq
    exact ⟨prior, score, choice, hscore, hgroup, heq.1, hvalue ▸ heq.2.1, heq.2.2⟩

/-- The row that was offered all proposals is exact for one group more. -/
theorem Exact.snoc (hexact : Exact cost gain budget groups scores)
    {row : List (Slot M P)} (hlength : row.length = budget + 1)
    (hbest : Best (proposals cost gain budget mark scores group) row) :
    Exact cost gain budget (groups ++ [group]) (row.map Slot.best) := by
  have hproposed : ∀ init item, Selects init groups → item ∈ group →
      total cost init + cost item ≤ budget → ∃ score, total gain init ≤ score ∧
        (total cost init + cost item, score + gain item,
          mark (total cost init) item) ∈
            proposals cost gain budget mark scores group := by
    intro init item hinit hitem hcost
    obtain ⟨score, hscore⟩ :=
      hexact.reached init hinit ((Nat.le_add_right _ _).trans hcost)
    exact ⟨score, (hexact.best _ _ hscore).2 init hinit rfl,
      mem_proposals.mpr ⟨_, _, _, hscore, hitem, hcost, rfl⟩⟩
  constructor
  · intro place value hvalue
    rw [List.getElem?_map, Option.map_eq_some_iff] at hvalue
    obtain ⟨slot, hslot, hvalue⟩ := hvalue
    constructor
    · obtain ⟨prior, score, choice, hscore, hchoice, rfl, rfl, -⟩ :=
        parent_of_best hbest hslot hvalue
      obtain ⟨init, hinit, hcost, hgain⟩ := (hexact.best _ _ hscore).1
      refine ⟨init ++ [choice],
        selects_snoc.mpr ⟨init, choice, rfl, hinit, hchoice⟩, ?_, ?_⟩
      · rw [total_append, total_singleton, hcost]
      · rw [total_append, total_singleton, hgain]
    · intro selection hselects hplace
      obtain ⟨init, item, rfl, hinit, hitem⟩ := selects_snoc.mp hselects
      rw [total_append, total_singleton] at hplace ⊢
      have hinside : place ≤ budget := by
        obtain ⟨hlt, -⟩ := List.getElem?_eq_some_iff.mp hslot
        rw [hlength] at hlt
        exact Nat.le_of_lt_succ hlt
      obtain ⟨score, hscore, hmem⟩ :=
        hproposed init item hinit hitem (hplace.trans_le hinside)
      rcases hbest place slot hslot with ⟨hnone, -⟩ | ⟨other, hother, -, hall⟩
      · rw [hnone] at hvalue
        cases hvalue
      · rw [hother, Option.some.injEq] at hvalue
        rw [← hvalue]
        exact (add_le_add_left hscore _).trans (hall _ hmem hplace)
  · intro selection hselects hcost
    obtain ⟨init, item, rfl, hinit, hitem⟩ := selects_snoc.mp hselects
    rw [total_append, total_singleton] at hcost ⊢
    obtain ⟨score, -, hmem⟩ := hproposed init item hinit hitem hcost
    have hlt : total cost init + cost item < row.length := by
      rw [hlength]
      exact Nat.lt_succ_of_le hcost
    rw [List.getElem?_map, List.getElem?_eq_getElem hlt, Option.map_some]
    rcases hbest _ _ (List.getElem?_eq_getElem hlt) with
      ⟨-, hnone⟩ | ⟨value, hvalue, -⟩
    · exact absurd rfl (hnone _ hmem)
    · exact ⟨value, congrArg some hvalue⟩

end Rows

/-- When the costs of every group are the numbers up to its largest, those of
the selections are the numbers up to the sum. -/
theorem selects_total_iff {cost : A → ℕ} {largest : List A → ℕ}
    {groups : List (List A)}
    (hgroups : ∀ group ∈ groups, ∀ amount,
      amount ≤ largest group ↔ ∃ choice ∈ group, cost choice = amount)
    (place : ℕ) :
    (∃ selection, Selects selection groups ∧ total cost selection = place) ↔
      place ≤ (groups.map largest).sum := by
  induction groups generalizing place with
  | nil =>
      constructor
      · rintro ⟨selection, hselects, rfl⟩
        rw [List.forall₂_nil_right_iff.mp hselects]
        exact le_rfl
      · intro hplace
        exact ⟨[], .nil, (Nat.le_zero.mp hplace).symm⟩
  | cons group groups ih =>
      obtain ⟨hgroup, hrest⟩ := List.forall_mem_cons.mp hgroups
      rw [List.map_cons, List.sum_cons]
      constructor
      · rintro ⟨selection, hselects, rfl⟩
        cases hselects with
        | @cons choice _ rest _ hchoice hselected =>
            have hfirst := (hgroup _).mpr ⟨choice, hchoice, rfl⟩
            have hlater := (ih hrest _).mp ⟨rest, hselected, rfl⟩
            exact Nat.add_le_add hfirst hlater
      · intro hplace
        obtain ⟨choice, hchoice, hcost⟩ := (hgroup (min place (largest group))).mp
          (min_le_right _ _)
        obtain ⟨rest, hselected, htotal⟩ :=
          (ih hrest (place - min place (largest group))).mpr (by omega)
        refine ⟨choice :: rest, .cons hchoice hselected, ?_⟩
        change cost choice + total cost rest = place
        rw [hcost, htotal, Nat.add_sub_cancel' (min_le_left _ _)]

end GlmFlash.Library
