import Mathlib.Data.List.Nodup
import Mathlib.Logic.Function.Basic

/-!
# Loops that change a state and may raise

A loop stops at the round that raises, and what the rounds before it changed
stays changed.
-/

namespace GlmFlash.Library

variable {S A E : Type*}

def runAll (round : S → A → S × Except E Unit) : S → List A → S × Except E Unit
  | state, [] => (state, .ok ())
  | state, item :: items =>
      match round state item with
      | (next, .ok _) => runAll round next items
      | (next, .error failure) => (next, .error failure)

section

variable {round : S → A → S × Except E Unit} {state next final : S} {item : A}
  {items : List A}

theorem runAll_nil : runAll round state [] = (state, .ok ()) :=
  rfl

theorem runAll_cons (hround : round state item = (next, .ok ())) :
    runAll round state (item :: items) = runAll round next items := by
  rw [runAll, hround]

end

/-! ## Cells -/

variable {I V W : Type*} [DecidableEq I]

/-- A round changes one cell. -/
def modifyCell (round : I → V → V × Except E Unit) (cells : I → V) (index : I) :
    (I → V) × Except E Unit :=
  (Function.update cells index (round index (cells index)).1, (round index (cells index)).2)

/-- When no round raises, each cell that has a turn is changed once. -/
theorem runAll_modifyCell {round : I → V → V × Except E Unit} {cells next : I → V}
    {indices : List I} (hnodup : indices.Nodup)
    (hround : ∀ index ∈ indices, round index (cells index) = (next index, .ok ())) :
    runAll (modifyCell round) cells indices =
      ((fun index => if index ∈ indices then next index else cells index), .ok ()) := by
  induction indices generalizing cells with
  | nil => simp [runAll]
  | cons first indices ih =>
      obtain ⟨hnew, hrest⟩ := List.nodup_cons.mp hnodup
      have hfirst := hround first List.mem_cons_self
      have hstep : modifyCell round cells first =
          (Function.update cells first (next first), .ok ()) := by
        rw [modifyCell, hfirst]
      have hlater : ∀ index ∈ indices,
          round index (Function.update cells first (next first) index) =
            (next index, .ok ()) := by
        intro index hmem
        have hne : index ≠ first := by
          rintro rfl
          exact hnew hmem
        rw [Function.update_of_ne hne]
        exact hround index (List.mem_cons_of_mem first hmem)
      rw [runAll_cons hstep, ih hrest hlater, Prod.mk.injEq]
      refine ⟨?_, rfl⟩
      funext index
      by_cases hindex : index = first
      · rw [hindex, if_neg hnew, if_pos List.mem_cons_self, Function.update_self]
      · simp [hindex]

end GlmFlash.Library
