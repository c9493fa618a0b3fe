import Mathlib.Algebra.BigOperators.Group.List.Basic
import Mathlib.Algebra.Order.BigOperators.Group.List
import Mathlib.Data.List.Forall2
import Mathlib.Data.List.Perm.Basic

/-!
# Multiple-choice selections

A selection takes one item of each group.  A table of entries, each a cost, a
damage and the selection they belong to, stands for all selections when it
dominates them: some entry is related in cost and no worse in damage.  The
relation on costs is `≤` where a cheaper entry may replace a dearer one, and
`=` where every cost is to be kept.
-/

namespace GlmFlash.Library

variable {A C D : Type*}

/-- One item of each group, in order. -/
abbrev Selects (selection : List A) (groups : List (List A)) : Prop :=
  List.Forall₂ (· ∈ ·) selection groups

def total [AddCommMonoid C] (value : A → C) (selection : List A) : C :=
  (selection.map value).sum

@[simp]
theorem total_nil [AddCommMonoid C] (value : A → C) : total value [] = 0 := rfl

@[simp]
theorem total_append [AddCommMonoid C] (value : A → C)
    (first second : List A) :
    total value (first ++ second) =
      total value first + total value second := by
  simp [total]

@[simp]
theorem total_singleton [AddCommMonoid C] (value : A → C) (item : A) :
    total value [item] = value item := by
  simp [total]

theorem total_nonneg [AddCommMonoid C] [PartialOrder C] [IsOrderedAddMonoid C]
    {value : A → C} {selection : List A}
    (hnonneg : ∀ item ∈ selection, 0 ≤ value item) :
    0 ≤ total value selection := by
  apply List.sum_nonneg
  intro amount hamount
  obtain ⟨item, hitem, rfl⟩ := List.mem_map.mp hamount
  exact hnonneg item hitem

theorem total_take_le [AddCommMonoid C] [PartialOrder C]
    [IsOrderedAddMonoid C] {value : A → C} {selection : List A}
    (hnonneg : ∀ item ∈ selection, 0 ≤ value item) (count : ℕ) :
    total value (selection.take count) ≤ total value selection := by
  have hrest : 0 ≤ total value (selection.drop count) :=
    total_nonneg fun item hmem => hnonneg item (List.mem_of_mem_drop hmem)
  calc total value (selection.take count)
      ≤ total value (selection.take count) +
          total value (selection.drop count) := le_add_of_nonneg_right hrest
    _ = total value selection := by
      rw [← total_append, List.take_append_drop]

theorem total_perm [AddCommMonoid C] {value : A → C}
    {first second : List A} (hperm : first.Perm second) :
    total value first = total value second :=
  (hperm.map value).sum_eq

theorem total_flatMap [AddCommMonoid C] {B : Type*} {value : A → C}
    {function : B → List A} (items : List B) :
    total value (items.flatMap function) =
      total (fun item => total value (function item)) items := by
  induction items with
  | nil => rfl
  | cons item items ih =>
      rw [List.flatMap_cons, total_append, ih]
      rfl

theorem total_add [AddCommMonoid C] (first second : A → C)
    (items : List A) :
    total (fun item => first item + second item) items =
      total first items + total second items :=
  List.sum_map_add

/-- What relates the values one by one relates their totals. -/
theorem total_forall₂ [AddCommMonoid C] {B : Type*} {related : C → C → Prop}
    (hzero : related 0 0) (hadd : ∀ first first' second second',
      related first first' → related second second' →
        related (first + second) (first' + second'))
    {value : A → C} {value' : B → C} {items : List A} {items' : List B}
    (hall : List.Forall₂ (fun item item' => related (value item) (value' item'))
      items items') :
    related (total value items) (total value' items') := by
  induction hall with
  | nil => exact hzero
  | cons hfirst _ ih => exact hadd _ _ _ _ hfirst ih

/-- A list is put together from the parts that its owners have. -/
theorem flatMap_filter_perm {B : Type*} [DecidableEq B] {owner : A → Option B}
    {owners : List B} {items : List A} (hnodup : owners.Nodup)
    (howned : ∀ item ∈ items, ∃ name ∈ owners, owner item = some name) :
    (owners.flatMap fun name =>
      items.filter fun item => decide (owner item = some name)).Perm items := by
  induction owners generalizing items with
  | nil =>
      have hempty : items = [] := by
        apply List.eq_nil_iff_forall_not_mem.mpr
        intro item hmem
        obtain ⟨name, hname, -⟩ := howned item hmem
        exact List.not_mem_nil hname
      rw [hempty]
      exact List.Perm.refl []
  | cons name owners ih =>
      obtain ⟨hnotin, hrest⟩ := List.nodup_cons.mp hnodup
      have hothers := @ih
        (items.filter fun item => !decide (owner item = some name)) hrest (by
          intro item hmem
          rw [List.mem_filter, Bool.not_eq_true', decide_eq_false_iff_not] at hmem
          obtain ⟨other, hother, howner⟩ := howned item hmem.1
          rcases List.mem_cons.mp hother with rfl | hother
          · exact absurd howner hmem.2
          · exact ⟨other, hother, howner⟩)
      have hparts : ∀ other ∈ owners,
          (items.filter fun item => !decide (owner item = some name)).filter
              (fun item => decide (owner item = some other)) =
            items.filter fun item => decide (owner item = some other) := by
        intro other hother
        rw [List.filter_filter]
        apply List.filter_congr
        intro item _
        have hne : other ≠ name := fun heq => hnotin (heq ▸ hother)
        by_cases howner : owner item = some other
        · simp [howner, hne]
        · simp [howner]
      rw [List.flatMap_cons, ← List.flatMap_congr hparts]
      exact (hothers.append_left _).trans
        (List.filter_append_perm _ items)

theorem exists_forall₂ {B : Type*} {relation : A → B → Prop} {items : List A}
    (hall : ∀ item ∈ items, ∃ other, relation item other) :
    ∃ others, List.Forall₂ relation items others := by
  induction items with
  | nil => exact ⟨[], .nil⟩
  | cons item items ih =>
      obtain ⟨other, hother⟩ := hall item List.mem_cons_self
      obtain ⟨others, hothers⟩ := ih fun later hlater =>
        hall later (List.mem_cons_of_mem item hlater)
      exact ⟨other :: others, .cons hother hothers⟩

theorem selects_snoc {selection : List A} {groups : List (List A)}
    {group : List A} :
    Selects selection (groups ++ [group]) ↔
      ∃ init item, selection = init ++ [item] ∧ Selects init groups ∧
        item ∈ group := by
  constructor
  · intro hselects
    induction groups generalizing selection with
    | nil =>
        obtain ⟨item, rest, hitem, hrest, rfl⟩ :=
          List.forall₂_cons_right_iff.mp hselects
        rw [List.forall₂_nil_right_iff] at hrest
        subst hrest
        exact ⟨[], item, rfl, .nil, hitem⟩
    | cons first groups ih =>
        obtain ⟨head, rest, hhead, hrest, rfl⟩ :=
          List.forall₂_cons_right_iff.mp hselects
        obtain ⟨init, item, rfl, hinit, hitem⟩ := ih hrest
        exact ⟨head :: init, item, rfl, .cons hhead hinit, hitem⟩
  · rintro ⟨init, item, rfl, hinit, hitem⟩
    exact List.rel_append hinit (.cons hitem .nil)

/-- A list can be put in any order of its keys. -/
theorem exists_perm_map_eq {B : Type*} {key : A → B} {items : List A}
    {keys : List B} (hperm : (items.map key).Perm keys) :
    ∃ ordered : List A, ordered.Perm items ∧ ordered.map key = keys := by
  have hkeyed : List.Forall₂ (fun value item => value = key item)
      (items.map key) items := by
    rw [List.forall₂_map_left_iff, List.forall₂_same]
    exact fun _ _ => rfl
  obtain ⟨ordered, hordered, hitems⟩ := List.perm_comp_forall₂ hperm.symm hkeyed
  refine ⟨ordered, hitems, ?_⟩
  have heq : List.Forall₂ Eq keys (ordered.map key) :=
    List.forall₂_map_right_iff.mpr hordered
  rw [List.forall₂_eq_eq_eq] at heq
  exact heq.symm

/-! ## Tables -/

section Tables

variable [AddCommMonoid C] [AddCommMonoid D] [PartialOrder D]
  {cost : A → C} {damage : A → D} {related : C → C → Prop}
  {within : C → Prop} {groups : List (List A)} {group choices : List A}
  {table next kept : List (C × (D × List A))}

/-- Every entry belongs to a selection and has its cost and damage. -/
def Sound (cost : A → C) (damage : A → D) (groups : List (List A))
    (table : List (C × (D × List A))) : Prop :=
  ∀ entry ∈ table, Selects entry.2.2 groups ∧
    entry.1 = total cost entry.2.2 ∧ entry.2.1 = total damage entry.2.2

/-- Every selection of an admitted cost is dominated by an entry. -/
def Covers (cost : A → C) (damage : A → D) (related : C → C → Prop)
    (within : C → Prop) (groups : List (List A))
    (table : List (C × (D × List A))) : Prop :=
  ∀ selection, Selects selection groups → within (total cost selection) →
    ∃ entry ∈ table, related entry.1 (total cost selection) ∧
      entry.2.1 ≤ total damage selection

omit [PartialOrder D] in
theorem Sound.nil : Sound cost damage [] [(0, (0, []))] := by
  intro entry hentry
  rw [List.mem_singleton.mp hentry]
  exact ⟨.nil, rfl, rfl⟩

theorem Covers.nil (hrefl : ∀ value, related value value) :
    Covers cost damage related within [] [(0, (0, []))] := by
  intro selection hselects _
  have hempty : selection = [] := List.forall₂_nil_right_iff.mp hselects
  subst hempty
  exact ⟨_, List.mem_singleton_self _, hrefl 0, le_rfl⟩

omit [PartialOrder D] in
/-- Each new entry extends an old one by a choice. -/
theorem Sound.snoc (hsound : Sound cost damage groups table)
    (hchoices : ∀ choice ∈ choices, choice ∈ group)
    (hnext : ∀ entry ∈ next, ∃ before ∈ table, ∃ choice ∈ choices,
      entry = (before.1 + cost choice,
        (before.2.1 + damage choice, before.2.2 ++ [choice]))) :
    Sound cost damage (groups ++ [group]) next := by
  intro entry hentry
  obtain ⟨before, hbefore, choice, hchoice, rfl⟩ := hnext entry hentry
  obtain ⟨hselects, hcost, hdamage⟩ := hsound before hbefore
  refine ⟨selects_snoc.mpr
    ⟨before.2.2, choice, rfl, hselects, hchoices choice hchoice⟩, ?_, ?_⟩
  · rw [total_append, total_singleton, ← hcost]
  · rw [total_append, total_singleton, ← hdamage]

/-- A selection of one group more is an old one, which an entry dominates,
and an item, which a choice dominates; their sum dominates it. -/
theorem Covers.snoc [IsOrderedAddMonoid D]
    (hadd : ∀ left right value, related left right →
      related (left + value) (right + value))
    (htrans : ∀ first second third, related first second →
      related second third → related first third)
    (hwithin : ∀ left right, related left right → within right → within left)
    (hearlier : ∀ item ∈ group, ∀ value, within (value + cost item) →
      within value)
    (hcovers : Covers cost damage related within groups table)
    (hchoices : ∀ item ∈ group, ∃ choice ∈ choices,
      related (cost choice) (cost item) ∧ damage choice ≤ damage item)
    (hnext : ∀ before ∈ table, ∀ choice ∈ choices,
      within (before.1 + cost choice) →
        ∃ entry ∈ next, related entry.1 (before.1 + cost choice) ∧
          entry.2.1 ≤ before.2.1 + damage choice) :
    Covers cost damage related within (groups ++ [group]) next := by
  intro selection hselects hin
  obtain ⟨init, item, rfl, hinit, hitem⟩ := selects_snoc.mp hselects
  rw [total_append, total_singleton] at hin ⊢
  rw [total_append, total_singleton]
  obtain ⟨before, hbefore, hcost, hdamage⟩ :=
    hcovers init hinit (hearlier item hitem _ hin)
  obtain ⟨choice, hchoice, hcost', hdamage'⟩ := hchoices item hitem
  have hsum : related (before.1 + cost choice) (total cost init + cost item) := by
    have hleft := hadd _ _ (cost choice) hcost
    have hright := hadd _ _ (total cost init) hcost'
    rw [add_comm (cost choice), add_comm (cost item)] at hright
    exact htrans _ _ _ hleft hright
  obtain ⟨entry, hentry, hrelated, hle⟩ :=
    hnext before hbefore choice hchoice (hwithin _ _ hsum hin)
  exact ⟨entry, hentry, htrans _ _ _ hrelated hsum,
    hle.trans (add_le_add hdamage hdamage')⟩

/-- Dropping dominated entries loses nothing. -/
theorem Covers.prune
    (htrans : ∀ first second third, related first second →
      related second third → related first third)
    (hcovers : Covers cost damage related within groups table)
    (hkept : ∀ entry ∈ table, ∃ other ∈ kept,
      related other.1 entry.1 ∧ other.2.1 ≤ entry.2.1) :
    Covers cost damage related within groups kept := by
  intro selection hselects hin
  obtain ⟨entry, hentry, hcost, hdamage⟩ := hcovers selection hselects hin
  obtain ⟨other, hother, hcost', hdamage'⟩ := hkept entry hentry
  exact ⟨other, hother, htrans _ _ _ hcost' hcost, hdamage'.trans hdamage⟩

end Tables

end GlmFlash.Library
