import Mathlib.Data.List.Basic

/-!
# Masks over ranges

A mask over a range of indices is a list of booleans, filled by assignments at
offsets from the start of the range.  A mask that a predicate of the index
gives can be put together from pieces of the range, wherever the range is cut.
-/

namespace GlmFlash.Library

/-- `mask[index] = True`, for each of the indices. -/
def setAll (mask : List Bool) (indices : List ℕ) : List Bool :=
  indices.foldl (fun mask index => mask.set index true) mask

theorem getElem?_setAll (mask : List Bool) (indices : List ℕ) (index : ℕ) :
    (setAll mask indices)[index]? =
      mask[index]?.map (· || decide (index ∈ indices)) := by
  induction indices generalizing mask with
  | nil =>
      simp [setAll]
  | cons first indices ih =>
      refine (ih _).trans ?_
      rw [List.getElem?_set]
      by_cases hfirst : first = index
      · subst hfirst
        by_cases hlt : first < mask.length
        · simp [hlt]
        · simp [hlt]
      · simp [hfirst, Ne.symm hfirst]

/-- The mask of a predicate. -/
def maskOf (selects : ℕ → Bool) (start stop : ℕ) : List Bool :=
  (List.range' start (stop - start)).map selects

variable {selects selects' : ℕ → Bool} {start stop : ℕ}

theorem length_maskOf : (maskOf selects start stop).length = stop - start := by
  rw [maskOf, List.length_map, List.length_range']

theorem getElem?_maskOf {offset : ℕ} (hoffset : offset < stop - start) :
    (maskOf selects start stop)[offset]? = some (selects (start + offset)) := by
  rw [maskOf, List.getElem?_map, List.getElem?_range' hoffset, Nat.one_mul]
  rfl

theorem maskOf_congr (heq : ∀ index, start ≤ index → index < stop →
    selects index = selects' index) :
    maskOf selects start stop = maskOf selects' start stop := by
  apply List.map_congr_left
  intro index hmem
  rw [List.mem_range'_1] at hmem
  exact heq index hmem.1 (by omega)

theorem maskOf_false :
    maskOf (fun _ => false) start stop = List.replicate (stop - start) false := by
  rw [maskOf, List.map_const', List.length_range']

theorem maskOf_true :
    maskOf (fun _ => true) start stop = List.replicate (stop - start) true := by
  rw [maskOf, List.map_const', List.length_range']

/-- Assignments at offsets from the start of the range. -/
theorem setAll_maskOf {indices : List ℕ} {added : ℕ → Bool}
    (hadded : ∀ offset, offset < stop - start →
      (offset ∈ indices ↔ added (start + offset) = true)) :
    setAll (maskOf selects start stop) indices =
      maskOf (fun index => selects index || added index) start stop := by
  apply List.ext_getElem?
  intro offset
  rw [getElem?_setAll]
  by_cases hoffset : offset < stop - start
  · rw [getElem?_maskOf hoffset, getElem?_maskOf hoffset, Option.map_some]
    congr 2
    rw [Bool.eq_iff_iff, decide_eq_true_eq]
    exact hadded offset hoffset
  · have hnone (selects : ℕ → Bool) :
        (maskOf selects start stop)[offset]? = none := by
      rw [List.getElem?_eq_none_iff, length_maskOf]
      exact Nat.le_of_not_lt hoffset
    rw [hnone, hnone]
    rfl

/-! ## Pieces -/

theorem maskOf_append {middle : ℕ} (hstart : start ≤ middle) (hstop : middle ≤ stop) :
    maskOf selects start middle ++ maskOf selects middle stop =
      maskOf selects start stop := by
  have hrange : List.range' start (middle - start) ++
      List.range' middle (stop - middle) = List.range' start (stop - start) := by
    have hmiddle : middle = start + 1 * (middle - start) := by omega
    have hlength : stop - start = (middle - start) + (stop - middle) := by omega
    rw [hlength, ← List.range'_append, ← hmiddle]
  rw [maskOf, maskOf, ← List.map_append, hrange, maskOf]

/-- The pieces of a range that is cut at the given points. -/
def pieces (start : ℕ) : List ℕ → List (ℕ × ℕ)
  | [] => []
  | cut :: cuts => (start, cut) :: pieces cut cuts

/-- The end of the last piece. -/
def lastCut (start : ℕ) : List ℕ → ℕ
  | [] => start
  | cut :: cuts => lastCut cut cuts

theorem le_lastCut {cuts : List ℕ} (hcuts : (start :: cuts).Pairwise (· ≤ ·)) :
    start ≤ lastCut start cuts := by
  induction cuts generalizing start with
  | nil => exact Nat.le_refl start
  | cons cut cuts ih =>
      obtain ⟨hstart, hrest⟩ := List.pairwise_cons.mp hcuts
      exact Nat.le_trans (hstart cut List.mem_cons_self) (ih hrest)

theorem maskOf_pieces {cuts : List ℕ} (hcuts : (start :: cuts).Pairwise (· ≤ ·)) :
    (pieces start cuts).flatMap (fun piece => maskOf selects piece.1 piece.2) =
      maskOf selects start (lastCut start cuts) := by
  induction cuts generalizing start with
  | nil =>
      rw [pieces, lastCut, maskOf, Nat.sub_self]
      rfl
  | cons cut cuts ih =>
      obtain ⟨hstart, hrest⟩ := List.pairwise_cons.mp hcuts
      rw [pieces, List.flatMap_cons, ih hrest, lastCut]
      exact maskOf_append (hstart cut List.mem_cons_self) (le_lastCut hrest)

end GlmFlash.Library
