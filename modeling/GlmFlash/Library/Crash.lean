import Mathlib.Data.List.Basic
import Mathlib.Logic.Function.Basic

/-!
# Programs that may stop

A program performs effects that last, and looks at the state in between.  It
can run to its end, or stop after any number of effects.  What holds at every
point where it can stop is proved effect by effect; a write is as many effects
as it has bytes.
-/

namespace GlmFlash.Library

/-- A program of lasting effects. -/
inductive Program (S E A : Type) where
  | done (result : Except E A)
  | act (effect : S → S) (next : Program S E A)
  | look (next : S → Program S E A)

namespace Program

variable {S E A B : Type}

/-- The result of a program that runs to its end, and the state it leaves. -/
def finish : Program S E A → S → Except E A × S
  | done result, state => (result, state)
  | act effect next, state => next.finish (effect state)
  | look next, state => (next state).finish state

/-- The state after the first effects. -/
def stop : Program S E A → ℕ → S → S
  | done _, _, state => state
  | act _ _, 0, state => state
  | act effect next, count + 1, state => next.stop count (effect state)
  | look next, count, state => (next state).stop count state

/-- One effect for each item, and then the rest. -/
def writeAll (put : B → S → S) (items : List B) (next : Program S E A) :
    Program S E A :=
  items.foldr (fun item rest => .act (put item) rest) next

/-- The property holds wherever the program stops. -/
def Always (property : S → Prop) (program : Program S E A) (state : S) : Prop :=
  ∀ count, property (program.stop count state)

variable {property : S → Prop} {program next : Program S E A} {state : S}
  {put : B → S → S} {items : List B}

@[simp]
theorem finish_writeAll : (writeAll put items next).finish state =
    next.finish (items.foldl (fun state item => put item state) state) := by
  induction items generalizing state with
  | nil => rfl
  | cons item items ih => exact ih

@[simp]
theorem stop_zero : program.stop 0 state = state := by
  induction program generalizing state with
  | done result => rfl
  | act effect next _ => rfl
  | look next ih => exact ih state

theorem stop_writeAll_of_le {count : ℕ} (hle : count ≤ items.length) :
    (writeAll put items next).stop count state =
      (items.take count).foldl (fun state item => put item state) state := by
  induction items generalizing state count with
  | nil =>
      rw [List.length_nil, Nat.le_zero] at hle
      rw [hle, stop_zero]
      rfl
  | cons item items ih =>
      cases count with
      | zero => rfl
      | succ count => exact ih (Nat.le_of_succ_le_succ hle)

theorem stop_writeAll_add (count : ℕ) :
    (writeAll put items next).stop (items.length + count) state =
      next.stop count
        (items.foldl (fun state item => put item state) state) := by
  induction items generalizing state with
  | nil =>
      rw [List.length_nil, Nat.zero_add]
      rfl
  | cons item items ih =>
      rw [List.length_cons, Nat.add_right_comm]
      exact ih

/-! ## Rules for what holds wherever a program stops -/

theorem always_done {result : Except E A} (hstate : property state) :
    Always property (done result : Program S E A) state :=
  fun _ => hstate

theorem always_act {effect : S → S} (hstate : property state)
    (hnext : Always property next (effect state)) :
    Always property (act effect next) state := by
  intro count
  cases count with
  | zero => exact hstate
  | succ count => exact hnext count

theorem always_look {next : S → Program S E A}
    (hnext : Always property (next state) state) :
    Always property (look next) state :=
  hnext

theorem always_writeAll (hwritten : ∀ count ≤ items.length,
      property ((items.take count).foldl (fun state item => put item state)
        state))
    (hnext : Always property next
      (items.foldl (fun state item => put item state) state)) :
    Always property (writeAll put items next) state := by
  intro count
  by_cases hle : count ≤ items.length
  · rw [stop_writeAll_of_le hle]
    exact hwritten count hle
  · obtain ⟨more, rfl⟩ := Nat.exists_eq_add_of_le (Nat.le_of_not_le hle)
    rw [stop_writeAll_add]
    exact hnext more

end Program

end GlmFlash.Library
