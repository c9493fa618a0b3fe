import GlmFlash.Library.Dict
import Mathlib.Algebra.BigOperators.Group.List.Basic
import Mathlib.Algebra.GroupWithZero.Nat

/-!
# Dictionaries in the order of use

A cache that moves an item to the end of its dictionary whenever it is used has
the item that was unused for longest in front.  It is kept small by dropping
items from the front, until few enough are left or until they are small enough.
-/

namespace GlmFlash.Library.Dict

variable {K V : Type*} [DecidableEq K]

/-- `dict.pop(key, None)` -/
def erase (dict : Dict K V) (key : K) : Dict K V :=
  dict.filter fun item => item.1 ≠ key

/-- `dict.move_to_end(key)` of a key that is there. -/
def moveToEnd (dict : Dict K V) (key : K) : Dict K V :=
  match dict.get? key with
  | none => dict
  | some value => dict.erase key ++ [(key, value)]

variable {dict : Dict K V} {key : K} {value : V} {item : K × V}

theorem erase_sublist : (dict.erase key).Sublist dict :=
  List.filter_sublist

theorem not_mem_keys_erase : key ∉ keys (dict.erase key) := by
  intro hmem
  obtain ⟨item, hitem, heq⟩ := List.mem_map.mp hmem
  exact of_decide_eq_true (List.mem_filter.mp hitem).2 heq

theorem erase_of_not_mem (hnew : key ∉ keys dict) : dict.erase key = dict := by
  apply List.filter_eq_self.mpr
  intro item hitem
  apply decide_eq_true
  intro heq
  exact hnew (List.mem_map.mpr ⟨item, hitem, heq⟩)

/-- An item can be taken out and put at the end. -/
theorem perm_erase_append (hget : dict.get? key = some value)
    (hnodup : (keys dict).Nodup) : dict.Perm (dict.erase key ++ [(key, value)]) := by
  induction dict with
  | nil => cases hget
  | cons item rest ih =>
      obtain ⟨hnotin, hrest⟩ := List.nodup_cons.mp hnodup
      by_cases hitem : item.1 = key
      · rw [get?, if_pos hitem] at hget
        have hdropped : ¬decide (item.1 ≠ key) = true :=
          fun h => (of_decide_eq_true h : item.1 ≠ key) hitem
        have herase : erase (item :: rest) key = erase rest key :=
          List.filter_cons_of_neg hdropped
        have hpair : (key, value) = item :=
          Prod.ext hitem.symm (Option.some.inj hget).symm
        rw [herase, erase_of_not_mem (hitem ▸ hnotin), hpair]
        exact (List.perm_append_singleton item rest).symm
      · rw [get?, if_neg hitem] at hget
        have herase : erase (item :: rest) key = item :: erase rest key :=
          List.filter_cons_of_pos (decide_eq_true hitem)
        rw [herase, List.cons_append]
        exact (ih hget hrest).cons item

theorem moveToEnd_perm (hnodup : (keys dict).Nodup) (key : K) :
    (dict.moveToEnd key).Perm dict := by
  rw [moveToEnd]
  split
  · exact List.Perm.refl dict
  · rename_i value hget
    exact (perm_erase_append hget hnodup).symm

theorem mem_of_mem_set (hmem : item ∈ dict.set key value) :
    item = (key, value) ∨ item ∈ dict := by
  induction dict with
  | nil => exact .inl (List.mem_singleton.mp hmem)
  | cons first rest ih =>
      rw [set] at hmem
      split at hmem
      · rcases List.mem_cons.mp hmem with hnew | hold
        · exact .inl hnew
        · exact .inr (List.mem_cons_of_mem first hold)
      · rcases List.mem_cons.mp hmem with rfl | hlater
        · exact .inr List.mem_cons_self
        · exact (ih hlater).imp_right (List.mem_cons_of_mem first)

/-! ## Few enough items -/

omit [DecidableEq K] in
/-- `while len(dict) > limit: dict.popitem(last=False)` -/
def trim (limit : ℕ) : Dict K V → Dict K V
  | [] => []
  | item :: rest => if limit < (item :: rest).length then trim limit rest else item :: rest

omit [DecidableEq K] in
theorem trim_suffix (limit : ℕ) (dict : Dict K V) : trim limit dict <:+ dict := by
  induction dict with
  | nil => exact List.suffix_refl []
  | cons item rest ih =>
      rw [trim]
      split
      · exact ih.trans (List.suffix_cons item rest)
      · exact List.suffix_refl _

omit [DecidableEq K] in
theorem length_trim_le (limit : ℕ) (dict : Dict K V) :
    (trim limit dict).length ≤ limit := by
  induction dict with
  | nil => exact Nat.zero_le limit
  | cons item rest ih =>
      rw [trim]
      split
      · exact ih
      · rename_i hfits
        exact Nat.le_of_not_lt hfits

/-! ## Small enough items -/

section

variable (bytes : V → ℕ)

omit [DecidableEq K] in
/-- The bytes of all items. -/
def total (dict : Dict K V) : ℕ := (dict.map fun item => bytes item.2).sum

omit [DecidableEq K] in
@[simp]
theorem total_nil : total bytes ([] : Dict K V) = 0 := rfl

omit [DecidableEq K] in
@[simp]
theorem total_cons (item : K × V) (dict : Dict K V) :
    total bytes (item :: dict) = bytes item.2 + total bytes dict := rfl

omit [DecidableEq K] in
theorem total_append (dict other : Dict K V) :
    total bytes (dict ++ other) = total bytes dict + total bytes other := by
  rw [total, List.map_append, List.sum_append, ← total, ← total]

omit [DecidableEq K] in
theorem total_perm {dict other : Dict K V} (hperm : dict.Perm other) :
    total bytes dict = total bytes other :=
  (hperm.map _).sum_eq

variable {E : Type*}

omit [DecidableEq K] in
/-- `while size > limit: size -= bytes(dict.popitem(last=False))`, which fails
when nothing is left to drop. -/
def evict (failure : E) (limit : ℕ) : Dict K V → ℤ → Except E (Dict K V × ℤ)
  | [], size => if limit < size then .error failure else .ok ([], size)
  | item :: rest, size =>
      if limit < size then evict failure limit rest (size - bytes item.2)
      else .ok (item :: rest, size)

omit [DecidableEq K] in
/-- With the true size, dropping ends within the limit. -/
theorem evict_total (failure : E) (limit : ℕ) (dict : Dict K V) :
    ∃ kept, evict bytes failure limit dict (total bytes dict) =
        .ok (kept, (total bytes kept : ℤ)) ∧
      kept <:+ dict ∧ total bytes kept ≤ limit := by
  induction dict with
  | nil =>
      refine ⟨[], ?_, List.suffix_refl [], Nat.zero_le limit⟩
      have hempty : ¬(limit : ℤ) < ((total bytes ([] : Dict K V) : ℕ) : ℤ) :=
        fun h => Nat.not_lt_zero limit (Int.ofNat_lt.mp h)
      rw [evict, if_neg hempty]
  | cons item rest ih =>
      by_cases hlarge : limit < total bytes (item :: rest)
      · obtain ⟨kept, hkept, hsuffix, hfits⟩ := ih
        refine ⟨kept, ?_, hsuffix.trans (List.suffix_cons item rest), hfits⟩
        rw [evict, if_pos (Int.ofNat_lt.mpr hlarge)]
        have hsize : ((total bytes (item :: rest) : ℕ) : ℤ) - bytes item.2 =
            total bytes rest := by
          rw [total_cons]
          omega
        rw [hsize]
        exact hkept
      · refine ⟨item :: rest, ?_, List.suffix_refl _, Nat.le_of_not_lt hlarge⟩
        rw [evict, if_neg fun h => hlarge (Int.ofNat_lt.mp h)]

end

end GlmFlash.Library.Dict
