import Mathlib.Data.List.AList
import Mathlib.Tactic.Ring
import Mathlib.Algebra.BigOperators.Group.List.Basic

/-!
# Keyed rows and their occurrence counts

A table is a finite map from keys to lists.  A reference-counting argument
needs one number about it: how often an item occurs in all rows together.
The lemmas below say how that number moves when one row is replaced or
dropped, so that a proof about an operation on one row never looks at the
other rows.
-/

namespace GlmFlash.Library

/-- A finite map from keys to lists of items. -/
abbrev Tables (K A : Type*) := AList fun _ : K => List A

namespace Tables

variable {K A : Type*} [DecidableEq K]

/-- The row of a key, empty when the key is absent. -/
def row (tables : Tables K A) (key : K) : List A :=
  (tables.lookup key).getD []

def setRow (tables : Tables K A) (key : K) (items : List A) : Tables K A :=
  tables.insert key items

def dropRow (tables : Tables K A) (key : K) : Tables K A :=
  tables.erase key

@[simp]
theorem row_empty (key : K) : row (∅ : Tables K A) key = [] := by
  simp [row]

@[simp]
theorem row_setRow_self (tables : Tables K A) (key : K) (items : List A) :
    (tables.setRow key items).row key = items := by
  simp [row, setRow]

@[simp]
theorem row_setRow_ne (tables : Tables K A) {key other : K}
    (hne : other ≠ key) (items : List A) :
    (tables.setRow key items).row other = tables.row other := by
  simp [row, setRow, AList.lookup_insert_ne hne]

@[simp]
theorem row_dropRow_self (tables : Tables K A) (key : K) :
    (tables.dropRow key).row key = [] := by
  simp [row, dropRow]

@[simp]
theorem row_dropRow_ne (tables : Tables K A) {key other : K}
    (hne : other ≠ key) :
    (tables.dropRow key).row other = tables.row other := by
  simp [row, dropRow, AList.lookup_erase_ne hne]

variable [DecidableEq A]

/-- How often an item occurs in all rows together. -/
def occurrences (tables : Tables K A) (item : A) : ℕ :=
  (tables.entries.map fun entry => entry.2.count item).sum

omit [DecidableEq K] in
@[simp]
theorem occurrences_empty (item : A) :
    occurrences (∅ : Tables K A) item = 0 := by
  simp [occurrences]

private theorem sum_kerase (entries : List (Sigma fun _ : K => List A))
    (key : K) (item : A) :
    ((entries.kerase key).map fun entry => entry.2.count item).sum +
        ((entries.dlookup key).getD []).count item =
      (entries.map fun entry => entry.2.count item).sum := by
  induction entries with
  | nil => simp
  | cons head tail ih =>
      by_cases hkey : key = head.1
      · subst hkey
        obtain ⟨headKey, headRow⟩ := head
        simp [List.kerase_cons_eq, List.dlookup_cons_eq, Nat.add_comm]
      · rw [List.kerase_cons_ne hkey]
        have hlookup : (head :: tail).dlookup key = tail.dlookup key := by
          obtain ⟨headKey, headRow⟩ := head
          exact List.dlookup_cons_ne _ _ hkey
        rw [hlookup, List.map_cons, List.map_cons, List.sum_cons,
          List.sum_cons, ← ih]
        ring

/-- Replacing a row trades the occurrences of the old row for those of the
new one. -/
theorem occurrences_setRow (tables : Tables K A) (key : K) (items : List A)
    (item : A) :
    (tables.setRow key items).occurrences item + (tables.row key).count item =
      tables.occurrences item + items.count item := by
  have hsum := sum_kerase tables.entries key item
  simp only [occurrences, setRow, row, AList.entries_insert, AList.lookup,
    List.map_cons, List.sum_cons]
  omega

theorem occurrences_dropRow (tables : Tables K A) (key : K) (item : A) :
    (tables.dropRow key).occurrences item + (tables.row key).count item =
      tables.occurrences item := by
  have hsum := sum_kerase tables.entries key item
  exact hsum

/-- One row never holds more occurrences than the whole table. -/
theorem count_row_le (tables : Tables K A) (key : K) (item : A) :
    (tables.row key).count item ≤ tables.occurrences item := by
  have hsum := occurrences_dropRow tables key item
  omega

theorem occurrences_eq_zero {tables : Tables K A}
    (hempty : ∀ key, tables.row key = []) (item : A) :
    tables.occurrences item = 0 := by
  rw [occurrences, List.sum_eq_zero_iff_forall_eq_nat]
  intro amount hamount
  obtain ⟨⟨key, items⟩, hentry, rfl⟩ := List.mem_map.mp hamount
  have hlookup : tables.lookup key = some items :=
    AList.mem_lookup_iff.mpr hentry
  have hrow : tables.row key = items := by
    rw [row, hlookup]
    rfl
  rw [hempty key] at hrow
  simp [← hrow]

end Tables

/-- Taking one list out of a collection takes its items out. -/
theorem count_flatten_eraseIdx {A : Type*} [DecidableEq A]
    (rows : List (List A)) (index : ℕ) (item : A) :
    (rows.eraseIdx index).flatten.count item +
        (rows.getD index []).count item = rows.flatten.count item := by
  induction rows generalizing index with
  | nil => simp
  | cons head tail ih =>
      cases index with
      | zero =>
          simp only [List.eraseIdx_cons_zero, List.getD_cons_zero,
            List.flatten_cons, List.count_append]
          omega
      | succ index =>
          have htail := ih index
          simp only [List.eraseIdx_cons_succ, List.getD_cons_succ,
            List.flatten_cons, List.count_append]
          omega

/-! ## Replacing one position of a row -/

variable {A : Type*} [DecidableEq A]

theorem count_set_add {items : List A} {index : ℕ} {old : A}
    (hold : items[index]? = some old) (new item : A) :
    (items.set index new).count item + [old].count item =
      items.count item + [new].count item := by
  induction items generalizing index with
  | nil => simp at hold
  | cons head tail ih =>
      cases index with
      | zero =>
          simp only [List.getElem?_cons_zero, Option.some.injEq] at hold
          simp only [List.set_cons_zero, List.count_cons, List.count_nil, hold]
          omega
      | succ index =>
          have htail := ih (by simpa using hold)
          simp only [List.set_cons_succ, List.count_cons, List.count_nil]
            at htail ⊢
          omega

theorem count_replicate_ne {item filler : A} (hne : item ≠ filler)
    (length : ℕ) : (List.replicate length filler).count item = 0 := by
  apply List.count_eq_zero_of_not_mem
  intro hmem
  exact hne (List.eq_of_mem_replicate hmem)

end GlmFlash.Library
