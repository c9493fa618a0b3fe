import GlmFlash.Library.Dict
import Mathlib.Order.WithBot

/-!
# Keeping the best

Two ways to thin a search space.  `keepBest` keeps one value for each key of a
dictionary, the first one of least measure.  `improving` walks a sorted list
and keeps the items whose measure is below all earlier ones; what it drops is
dominated by something it keeps.
-/

namespace GlmFlash.Library

section Sorting

variable {A K : Type*} [LinearOrder K] (key : A → K) {items : List A}

/-- A stable sort by key. -/
def sortBy (items : List A) : List A :=
  items.mergeSort fun first second => decide (key first ≤ key second)

theorem sortBy_perm (items : List A) : (sortBy key items).Perm items :=
  List.mergeSort_perm _ _

@[simp]
theorem mem_sortBy {item : A} : item ∈ sortBy key items ↔ item ∈ items :=
  (sortBy_perm key items).mem_iff

theorem pairwise_sortBy (items : List A) :
    (sortBy key items).Pairwise fun first second =>
      key first ≤ key second := by
  have htrans : ∀ first second third : A,
      decide (key first ≤ key second) = true →
      decide (key second ≤ key third) = true →
        decide (key first ≤ key third) = true := by
    intro first second third hleft hright
    rw [decide_eq_true_eq] at hleft hright ⊢
    exact hleft.trans hright
  have htotal : ∀ first second : A, (decide (key first ≤ key second) ||
      decide (key second ≤ key first)) = true := by
    intro first second
    rw [Bool.or_eq_true, decide_eq_true_eq, decide_eq_true_eq]
    exact le_total _ _
  exact (List.pairwise_mergeSort htrans htotal items).imp of_decide_eq_true

end Sorting

section KeepBest

variable {K V M : Type*} [DecidableEq K] [LinearOrder M] (measure : V → M)

/-- Take the value unless the key has one that is at most as large. -/
def keepBest (dict : Dict K V) (item : K × V) : Dict K V :=
  match dict.get? item.1 with
  | none => dict.set item.1 item.2
  | some previous =>
      if measure item.2 < measure previous then dict.set item.1 item.2
      else dict

def keepAllBest (dict : Dict K V) (items : List (K × V)) : Dict K V :=
  items.foldl (keepBest measure) dict

variable {measure} {dict : Dict K V} {item : K × V} {items : List (K × V)}
  {key : K} {value : V}

theorem get?_keepBest (hget : (keepBest measure dict item).get? key = some value) :
    item = (key, value) ∨ dict.get? key = some value := by
  rw [keepBest] at hget
  have hset : (dict.set item.1 item.2).get? key = some value →
      item = (key, value) ∨ dict.get? key = some value := by
    intro hset
    by_cases hkey : key = item.1
    · subst hkey
      rw [Dict.get?_set_self, Option.some.injEq] at hset
      exact .inl (Prod.ext rfl hset)
    · rw [Dict.get?_set_of_ne hkey] at hset
      exact .inr hset
  split at hget
  · exact hset hget
  · split at hget
    · exact hset hget
    · exact .inr hget

variable (measure)

/-- The item is kept, or something at most as large stands under its key. -/
theorem keepBest_self (dict : Dict K V) (item : K × V) :
    ∃ kept, (keepBest measure dict item).get? item.1 = some kept ∧
      measure kept ≤ measure item.2 := by
  rw [keepBest]
  split
  · exact ⟨item.2, Dict.get?_set_self, le_rfl⟩
  · rename_i previous hprevious
    split
    · exact ⟨item.2, Dict.get?_set_self, le_rfl⟩
    · rename_i hnot
      exact ⟨previous, hprevious, not_lt.mp hnot⟩

theorem keepBest_mono (item : K × V) (hget : dict.get? key = some value) :
    ∃ kept, (keepBest measure dict item).get? key = some kept ∧
      measure kept ≤ measure value := by
  rw [keepBest]
  by_cases hkey : key = item.1
  · subst hkey
    rw [hget]
    dsimp only
    split
    · rename_i hlt
      exact ⟨item.2, Dict.get?_set_self, hlt.le⟩
    · exact ⟨value, hget, le_rfl⟩
  · split
    · exact ⟨value, by rw [Dict.get?_set_of_ne hkey, hget], le_rfl⟩
    · split
      · exact ⟨value, by rw [Dict.get?_set_of_ne hkey, hget], le_rfl⟩
      · exact ⟨value, hget, le_rfl⟩

variable {measure}

theorem nodup_keepBest (hnodup : dict.keys.Nodup) :
    (keepBest measure dict item).keys.Nodup := by
  rw [keepBest]
  split
  · exact Dict.nodup_keys_set hnodup
  · split
    · exact Dict.nodup_keys_set hnodup
    · exact hnodup

theorem nodup_keepAllBest (hnodup : dict.keys.Nodup) :
    (keepAllBest measure dict items).keys.Nodup := by
  induction items generalizing dict with
  | nil => exact hnodup
  | cons item items ih => exact ih (nodup_keepBest hnodup)

theorem get?_keepAllBest
    (hget : (keepAllBest measure dict items).get? key = some value) :
    (key, value) ∈ items ∨ dict.get? key = some value := by
  induction items generalizing dict with
  | nil => exact .inr hget
  | cons item items ih =>
      rcases ih hget with hmem | hbefore
      · exact .inl (List.mem_cons_of_mem item hmem)
      · rcases get?_keepBest hbefore with rfl | hget
        · exact .inl List.mem_cons_self
        · exact .inr hget

variable (measure)

theorem keepAllBest_mono (items : List (K × V)) (hget : dict.get? key = some value) :
    ∃ kept, (keepAllBest measure dict items).get? key = some kept ∧
      measure kept ≤ measure value := by
  induction items generalizing dict value with
  | nil => exact ⟨value, hget, le_rfl⟩
  | cons item items ih =>
      obtain ⟨first, hfirst, hle⟩ := keepBest_mono measure item hget
      obtain ⟨kept, hkept, hle'⟩ := ih hfirst
      exact ⟨kept, hkept, hle'.trans hle⟩

theorem keepAllBest_best (hmem : (key, value) ∈ items) :
    ∃ kept, (keepAllBest measure dict items).get? key = some kept ∧
      measure kept ≤ measure value := by
  induction items generalizing dict with
  | nil => cases hmem
  | cons item items ih =>
      rcases List.mem_cons.mp hmem with rfl | htail
      · obtain ⟨first, hfirst, hle⟩ :=
          keepBest_self measure dict (key, value)
        obtain ⟨kept, hkept, hle'⟩ :=
          keepAllBest_mono measure items hfirst
        exact ⟨kept, hkept, hle'.trans hle⟩
      · exact ih htail

end KeepBest

section Improving

variable {A C D : Type*} [LinearOrder D] (measure : A → D)

/-- The items whose measure is below `best` and all earlier ones. -/
def improving (best : WithTop D) : List A → List A
  | [] => []
  | item :: items =>
      if (measure item : WithTop D) < best then
        item :: improving (measure item) items
      else improving best items

variable {measure} {best : WithTop D} {items : List A} {item : A}

theorem improving_sublist :
    (improving measure best items).Sublist items := by
  induction items generalizing best with
  | nil => exact List.Sublist.refl []
  | cons item items ih =>
      rw [improving]
      split
      · exact ih.cons_cons item
      · exact ih.cons item

variable [Preorder C] {cost : A → C}

/-- In a list sorted by cost, every item is dominated by a kept one. -/
theorem improving_dominates
    (hsorted : items.Pairwise fun first second => cost first ≤ cost second)
    (hmem : item ∈ items) (hbest : (measure item : WithTop D) < best) :
    ∃ kept ∈ improving measure best items,
      cost kept ≤ cost item ∧ measure kept ≤ measure item := by
  induction items generalizing best with
  | nil => cases hmem
  | cons head items ih =>
      obtain ⟨hhead, hrest⟩ := List.pairwise_cons.mp hsorted
      rw [improving]
      rcases List.mem_cons.mp hmem with rfl | htail
      · rw [if_pos hbest]
        exact ⟨item, List.mem_cons_self, le_rfl, le_rfl⟩
      · by_cases hkeep : (measure head : WithTop D) < best
        · rw [if_pos hkeep]
          by_cases hle : measure head ≤ measure item
          · exact ⟨head, List.mem_cons_self, hhead item htail, hle⟩
          · obtain ⟨kept, hkept, hdominates⟩ := ih hrest htail
              (WithTop.coe_lt_coe.mpr (not_le.mp hle))
            exact ⟨kept, List.mem_cons_of_mem head hkept, hdominates⟩
        · rw [if_neg hkeep]
          exact ih hrest htail hbest

end Improving

end GlmFlash.Library
