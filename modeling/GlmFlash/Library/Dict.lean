import Mathlib.Data.List.Basic
import Mathlib.Data.List.Nodup

/-!
# Dictionaries in insertion order

A dictionary is the list of its items.  A new key goes to the end and an old
one keeps its place.
-/

namespace GlmFlash.Library

abbrev Dict (K V : Type*) := List (K × V)

namespace Dict

variable {K V : Type*} [DecidableEq K]

def get? (dict : Dict K V) (key : K) : Option V :=
  match dict with
  | [] => none
  | item :: rest => if item.1 = key then some item.2 else get? rest key

def set (dict : Dict K V) (key : K) (value : V) : Dict K V :=
  match dict with
  | [] => [(key, value)]
  | item :: rest =>
      if item.1 = key then (key, value) :: rest
      else item :: set rest key value

def keys (dict : Dict K V) : List K :=
  dict.map Prod.fst

variable {dict : Dict K V} {key other : K} {value : V}

@[simp]
theorem get?_nil : get? ([] : Dict K V) key = none := rfl

@[simp]
theorem get?_set_self : (dict.set key value).get? key = some value := by
  induction dict with
  | nil => simp [set, get?]
  | cons item rest ih =>
      by_cases hitem : item.1 = key
      · simp [set, get?, hitem]
      · simp [set, get?, hitem, ih]

@[simp]
theorem get?_set_of_ne (hne : other ≠ key) :
    (dict.set key value).get? other = dict.get? other := by
  induction dict with
  | nil => simp [set, get?, hne.symm]
  | cons item rest ih =>
      by_cases hitem : item.1 = key
      · simp [set, get?, hitem, hne.symm]
      · by_cases hother : item.1 = other
        · simp [set, get?, hother, hne]
        · simp [set, get?, hitem, hother, ih]

theorem mem_keys_set :
    other ∈ keys (dict.set key value) ↔ other = key ∨ other ∈ keys dict := by
  induction dict with
  | nil => simp [set, keys]
  | cons item rest ih =>
      by_cases hitem : item.1 = key
      · simp [set, keys, hitem]
      · simp only [set, if_neg hitem, keys, List.map_cons, List.mem_cons]
        rw [keys, keys] at ih
        rw [ih]
        tauto

theorem nodup_keys_set (hnodup : (keys dict).Nodup) :
    (keys (dict.set key value)).Nodup := by
  induction dict with
  | nil => simp [set, keys]
  | cons item rest ih =>
      obtain ⟨hnotin, hrest⟩ := List.nodup_cons.mp hnodup
      by_cases hitem : item.1 = key
      · simp only [set, if_pos hitem]
        exact List.nodup_cons.mpr ⟨hitem ▸ hnotin, hrest⟩
      · simp only [set, if_neg hitem]
        refine List.nodup_cons.mpr ⟨?_, ih hrest⟩
        intro hmem
        exact (mem_keys_set.mp hmem).elim hitem hnotin

theorem mem_of_get? (hget : dict.get? key = some value) :
    (key, value) ∈ dict := by
  induction dict with
  | nil => cases hget
  | cons item rest ih =>
      rw [get?] at hget
      split at hget
      · rename_i hitem
        cases hget
        exact List.mem_cons.mpr (.inl (Prod.ext hitem.symm rfl))
      · exact List.mem_cons_of_mem item (ih hget)

theorem get?_of_mem (hnodup : (keys dict).Nodup)
    (hmem : (key, value) ∈ dict) : dict.get? key = some value := by
  induction dict with
  | nil => cases hmem
  | cons item rest ih =>
      obtain ⟨hnotin, hrest⟩ := List.nodup_cons.mp hnodup
      rcases List.mem_cons.mp hmem with rfl | htail
      · simp [get?]
      · have hne : item.1 ≠ key := fun heq =>
          hnotin (List.mem_map.mpr ⟨_, htail, heq.symm⟩)
        rw [get?, if_neg hne]
        exact ih hrest htail

theorem mem_keys_iff : key ∈ keys dict ↔ ∃ value, dict.get? key = some value := by
  induction dict with
  | nil => simp [keys]
  | cons item rest ih =>
      rw [keys] at ih
      by_cases hitem : item.1 = key
      · simp [keys, get?, hitem]
      · rw [keys, List.map_cons, List.mem_cons, ih, get?, if_neg hitem]
        constructor
        · exact fun h => h.resolve_left fun heq => hitem heq.symm
        · exact .inr

theorem get?_eq_none_iff : dict.get? key = none ↔ key ∉ keys dict := by
  rw [mem_keys_iff, not_exists, Option.eq_none_iff_forall_ne_some]

theorem get?_append {items : Dict K V} :
    get? (dict ++ items) key = (dict.get? key).or (items.get? key) := by
  induction dict with
  | nil => rfl
  | cons item rest ih =>
      by_cases hitem : item.1 = key
      · simp [get?, hitem]
      · simpa only [List.cons_append, get?, if_neg hitem] using ih

theorem set_eq_append (hnew : key ∉ keys dict) :
    dict.set key value = dict ++ [(key, value)] := by
  induction dict with
  | nil => rfl
  | cons item rest ih =>
      rw [keys, List.map_cons, List.mem_cons, not_or] at hnew
      rw [set, if_neg (Ne.symm hnew.1), ih hnew.2, List.cons_append]

/-- `dict.setdefault(key, value)` -/
def setDefault (dict : Dict K V) (key : K) (value : V) : Dict K V :=
  if key ∈ keys dict then dict else dict ++ [(key, value)]

theorem get?_setDefault : (dict.setDefault key value).get? other =
    (dict.get? other).or (if other = key then some value else none) := by
  by_cases hold : key ∈ keys dict
  · rw [setDefault, if_pos hold]
    by_cases heq : other = key
    · obtain ⟨found, hfound⟩ := mem_keys_iff.mp hold
      rw [heq, hfound, Option.some_or]
    · rw [if_neg heq, Option.or_none]
  · rw [setDefault, if_neg hold, get?_append]
    by_cases heq : other = key
    · simp [get?, heq]
    · simp [get?, heq, Ne.symm heq]

theorem mem_keys_setDefault :
    other ∈ keys (dict.setDefault key value) ↔
      other = key ∨ other ∈ keys dict := by
  by_cases hold : key ∈ keys dict
  · rw [setDefault, if_pos hold]
    exact ⟨.inr, fun h => h.elim (fun heq => heq ▸ hold) id⟩
  · rw [setDefault, if_neg hold, ← set_eq_append hold, mem_keys_set]

theorem nodup_keys_setDefault (hnodup : (keys dict).Nodup) :
    (keys (dict.setDefault key value)).Nodup := by
  by_cases hold : key ∈ keys dict
  · rwa [setDefault, if_pos hold]
  · rw [setDefault, if_neg hold, ← set_eq_append hold]
    exact nodup_keys_set hnodup

/-- `dict.update(items)` -/
def update (dict : Dict K V) (items : List (K × V)) : Dict K V :=
  items.foldl (fun dict item => dict.set item.1 item.2) dict

theorem get?_update {items : List (K × V)} (hitems : (keys items).Nodup) :
    (dict.update items).get? key = (get? items key).or (dict.get? key) := by
  induction items generalizing dict with
  | nil => rfl
  | cons item items ih =>
      obtain ⟨hnotin, hrest⟩ := List.nodup_cons.mp hitems
      rw [update, List.foldl_cons, ← update, ih hrest]
      by_cases hitem : item.1 = key
      · have hnone : get? items key = none :=
          get?_eq_none_iff.mpr (hitem ▸ hnotin)
        rw [hnone, get?, if_pos hitem, ← hitem, get?_set_self, Option.none_or,
          Option.some_or]
      · rw [get?_set_of_ne (Ne.symm hitem), get?, if_neg hitem]

theorem get?_update_of_not_mem {items : List (K × V)}
    (hnew : key ∉ keys items) : (dict.update items).get? key = dict.get? key := by
  induction items generalizing dict with
  | nil => rfl
  | cons item items ih =>
      rw [keys, List.map_cons, List.mem_cons, not_or] at hnew
      rw [update, List.foldl_cons, ← update, ih hnew.2,
        get?_set_of_ne hnew.1]

theorem mem_keys_update {items : List (K × V)} :
    key ∈ keys (dict.update items) ↔ key ∈ keys items ∨ key ∈ keys dict := by
  induction items generalizing dict with
  | nil => simp [update, keys]
  | cons item items ih =>
      have hcons : key ∈ keys (item :: items) ↔ key = item.1 ∨ key ∈ keys items :=
        List.mem_cons
      rw [update, List.foldl_cons, ← update, ih, mem_keys_set, hcons]
      tauto

theorem get?_filter (keep : K → Bool) :
    get? (dict.filter fun item => keep item.1) key =
      if keep key then dict.get? key else none := by
  induction dict with
  | nil => simp
  | cons item rest ih =>
      rw [List.filter_cons]
      by_cases hitem : item.1 = key
      · subst hitem
        by_cases hkeep : keep item.1 = true
        · simp [hkeep, get?]
        · rw [if_neg hkeep, ih, if_neg hkeep, if_neg hkeep]
      · by_cases hkeep : keep item.1 = true
        · rw [if_pos hkeep, get?, if_neg hitem, ih, get?, if_neg hitem]
        · rw [if_neg hkeep, ih, get?, if_neg hitem]

theorem nodup_keys_update {items : List (K × V)}
    (hnodup : (keys dict).Nodup) : (keys (dict.update items)).Nodup := by
  induction items generalizing dict with
  | nil => exact hnodup
  | cons item items ih => exact ih (nodup_keys_set hnodup)

theorem update_append {items : List (K × V)} (hnodup : (keys items).Nodup)
    (hnew : ∀ key ∈ keys items, key ∉ keys dict) :
    dict.update items = dict ++ items := by
  induction items generalizing dict with
  | nil => exact (List.append_nil dict).symm
  | cons item items ih =>
      obtain ⟨hnotin, hrest⟩ := List.nodup_cons.mp hnodup
      rw [update, List.foldl_cons, ← update,
        set_eq_append (hnew item.1 List.mem_cons_self), ih hrest]
      · rw [List.append_assoc, List.singleton_append]
      · intro key hkey hmem
        rw [keys, List.map_append, List.mem_append] at hmem
        rcases hmem with hold | hlast
        · exact hnew key (List.mem_cons_of_mem item.1 hkey) hold
        · exact hnotin (List.mem_singleton.mp hlast ▸ hkey)

/-- `dict(items)` -/
def ofItems (items : List (K × V)) : Dict K V :=
  update [] items

theorem update_ofItems {items more : List (K × V)} :
    (ofItems items).update more = ofItems (items ++ more) :=
  List.foldl_append.symm

theorem nodup_keys_ofItems {items : List (K × V)} :
    (keys (ofItems items)).Nodup :=
  nodup_keys_update List.nodup_nil

theorem ofItems_eq {items : List (K × V)} (hitems : (keys items).Nodup) :
    ofItems items = items := by
  rw [ofItems, update_append hitems fun _ _ => List.not_mem_nil,
    List.nil_append]

section

variable {W : Type*}

omit [DecidableEq K]

/-- The dictionary with its values changed. -/
def mapValues (function : V → W) (dict : Dict K V) : Dict K W :=
  dict.map fun item => (item.1, function item.2)

@[simp]
theorem keys_mapValues (function : V → W) :
    keys (dict.mapValues function) = keys dict := by
  rw [keys, mapValues, List.map_map]
  rfl

@[simp]
theorem get?_mapValues [DecidableEq K] (function : V → W) :
    (dict.mapValues function).get? key = (dict.get? key).map function := by
  induction dict with
  | nil => rfl
  | cons item rest ih =>
      by_cases hitem : item.1 = key
      · simp [mapValues, get?, hitem]
      · simpa [mapValues, get?, hitem] using ih

theorem mapValues_setDefault [DecidableEq K] (function : V → W) :
    (dict.setDefault key value).mapValues function =
      (dict.mapValues function).setDefault key (function value) := by
  rw [setDefault, setDefault, keys_mapValues]
  split
  · rfl
  · rw [mapValues, List.map_append]
    rfl

end

/-- A dictionary with distinct keys is read alike in any order. -/
theorem get?_perm {other : Dict K V} (hperm : dict.Perm other)
    (hnodup : (keys dict).Nodup) : dict.get? key = get? other key := by
  have hother : (keys other).Nodup := (hperm.map Prod.fst).nodup_iff.mp hnodup
  cases hget : get? other key with
  | some value =>
      exact get?_of_mem hnodup (hperm.mem_iff.mpr (mem_of_get? hget))
  | none =>
      rw [get?_eq_none_iff] at hget ⊢
      exact fun hmem => hget ((hperm.map Prod.fst).mem_iff.mp hmem)

end Dict

end GlmFlash.Library
