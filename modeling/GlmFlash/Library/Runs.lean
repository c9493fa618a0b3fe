import GlmFlash.Library.Outcome

/-!
# Runs of a fallible machine

A machine takes one operation at a time and may fail, which ends the run.  An
invariant is proved for one step and then holds of every state a run reaches.
Some machines keep an invariant only while the environment plays along:
`Along` says that a condition on state and operation holds before each step
that the run takes.
-/

namespace GlmFlash.Library

universe u

variable {E O : Type*} {S : Type u}

/-- Operations one after the other. -/
def runSteps (step : S → O → Except E S) (state : S) :
    List O → Except E S
  | [] => .ok state
  | operation :: operations => do
      let state ← step state operation
      runSteps step state operations

/-- The condition holds before each step of the run. -/
def Along (step : S → O → Except E S) (condition : S → O → Prop)
    (state : S) : List O → Prop
  | [] => True
  | operation :: operations =>
      condition state operation ∧
        ∀ next, step state operation = .ok next →
          Along step condition next operations

variable {step : S → O → Except E S}

instance decidableAlong {condition : S → O → Prop}
    [∀ state operation, Decidable (condition state operation)] :
    ∀ (state : S) (operations : List O),
      Decidable (Along step condition state operations)
  | _, [] => .isTrue trivial
  | state, operation :: operations =>
      match hstep : step state operation with
      | .error _ =>
          decidable_of_iff (condition state operation) (by
            simp [Along, hstep])
      | .ok next =>
          have : Decidable (Along step condition next operations) :=
            decidableAlong next operations
          decidable_of_iff (condition state operation ∧
            Along step condition next operations) (by simp [Along, hstep])

theorem runSteps_cons_eq_ok {state final : S} {operation : O}
    {operations : List O} :
    runSteps step state (operation :: operations) = .ok final ↔
      ∃ next, step state operation = .ok next ∧
        runSteps step next operations = .ok final := by
  simp only [runSteps, bind_eq_ok]

/-- An invariant that every step keeps under the condition. -/
theorem runSteps_invariant_along {invariant : S → Prop}
    {condition : S → O → Prop}
    (hstep : ∀ state operation next, condition state operation →
      step state operation = .ok next → invariant state → invariant next)
    {state final : S} {operations : List O}
    (hrun : runSteps step state operations = .ok final)
    (halong : Along step condition state operations)
    (hstart : invariant state) : invariant final := by
  induction operations generalizing state with
  | nil =>
      simp only [runSteps, Except.ok.injEq] at hrun
      exact hrun ▸ hstart
  | cons operation operations ih =>
      obtain ⟨next, hfirst, hrest⟩ := runSteps_cons_eq_ok.mp hrun
      exact ih hrest (halong.2 next hfirst)
        (hstep _ _ _ halong.1 hfirst hstart)

/-- An invariant that every step keeps. -/
theorem runSteps_invariant {invariant : S → Prop}
    (hstep : ∀ state operation next, step state operation = .ok next →
      invariant state → invariant next)
    {state final : S} {operations : List O}
    (hrun : runSteps step state operations = .ok final)
    (hstart : invariant state) : invariant final := by
  have halong : Along step (fun _ _ => True) state operations := by
    clear hrun hstart
    induction operations generalizing state with
    | nil => trivial
    | cons operation operations ih => exact ⟨trivial, fun next _ => ih⟩
  exact runSteps_invariant_along (fun _ _ _ _ => hstep _ _ _) hrun halong
    hstart

/-- A machine that can always get on reaches its goal. -/
theorem exists_run_of_decreasing {M : Type*} [Preorder M] [WellFoundedLT M]
    {invariant goal : S → Prop} {allowed : O → Prop} (measure : S → M)
    (hstep : ∀ state, invariant state → ¬goal state →
      ∃ operation next, allowed operation ∧
        step state operation = .ok next ∧ invariant next ∧
          measure next < measure state)
    {state : S} (hstart : invariant state) :
    ∃ operations final, (∀ operation ∈ operations, allowed operation) ∧
      runSteps step state operations = .ok final ∧ invariant final ∧
        goal final := by
  induction hmeasure : measure state using WellFoundedLT.induction generalizing
    state with
  | ind value ih =>
      by_cases hgoal : goal state
      · exact ⟨[], state, fun _ hmem => absurd hmem List.not_mem_nil, rfl,
          hstart, hgoal⟩
      · obtain ⟨operation, next, hallowed, hfirst, hnext, hlt⟩ :=
          hstep state hstart hgoal
        obtain ⟨operations, final, hall, hrest, hfinal⟩ :=
          ih (measure next) (hmeasure ▸ hlt) hnext rfl
        refine ⟨operation :: operations, final, ?_,
          runSteps_cons_eq_ok.mpr ⟨next, hfirst, hrest⟩, hfinal⟩
        intro other hother
        rcases List.mem_cons.mp hother with rfl | hother
        · exact hallowed
        · exact hall other hother

end GlmFlash.Library
