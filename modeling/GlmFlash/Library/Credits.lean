import GlmFlash.Library.Outcome

/-!
# Loops that spend from a supply

A loop over cells threads a state with a finite supply, and every round may
take from it.  To show that the whole loop gets through it is enough to give
each cell a number of credits: a cell that affords its round within its
credits, in every state that has grown from the present one, hands the unspent
rest to the next loop.  If the supply covers the credits of all cells at the
start, no round runs short, whatever the others take.
-/

namespace GlmFlash.Library

universe u

/-- A state with a supply.  What a round relies on survives growth. -/
structure Supply (S : Type u) where
  sound : S → Prop
  grows : S → S → Prop
  free : S → ℤ
  refl : ∀ state, grows state state
  trans : ∀ {first second third}, grows first second → grows second third →
    grows first third

variable {E : Type*} {A B S : Type u} (supply : Supply S)

/-- From every sound state grown from `state` whose supply covers `credits`,
the round succeeds, stays sound and leaves the unspent credits to `post`. -/
def Supply.Affords (round : S → A → Except E (S × A × B))
    (post : S → A → ℕ → Prop) (state : S) (cell : A) (credits : ℕ) : Prop :=
  ∀ start, supply.grows state start → supply.sound start →
    (credits : ℤ) ≤ supply.free start →
    ∃ final cell' result, ∃ rest : ℕ,
      round start cell = .ok (final, cell', result) ∧ supply.sound final ∧
      supply.grows start final ∧
      supply.free start - credits ≤ supply.free final - rest ∧
      post final cell' rest

variable {supply} {round : S → A → Except E (S × A × B)}
  {post : S → A → ℕ → Prop}

theorem Supply.Affords.grow {state later : S} {cell : A} {credits : ℕ}
    (hgrows : supply.grows state later)
    (haffords : supply.Affords round post state cell credits) :
    supply.Affords round post later cell credits := by
  intro start hlater
  exact haffords start (supply.trans hgrows hlater)

/-- More credits never hurt when the surplus can be handed on. -/
theorem Supply.Affords.mono {state : S} {cell : A} {credits more : ℕ}
    (hmore : credits ≤ more)
    (hpost : ∀ final cell' rest surplus, post final cell' rest →
      post final cell' (rest + surplus))
    (haffords : supply.Affords round post state cell credits) :
    supply.Affords round post state cell more := by
  intro start hgrows hsound hfree
  obtain ⟨final, cell', result, rest, hround, hfinal, hgrown, hspent, hnext⟩ :=
    haffords start hgrows hsound (by omega)
  refine ⟨final, cell', result, rest + (more - credits), hround, hfinal,
    hgrown, ?_, hpost _ _ _ _ hnext⟩
  push_cast [hmore]
  omega

/-- A loop whose cells all afford their round gets through. -/
theorem threadCells_affords
    (hpost : ∀ state later cell credits, supply.grows state later →
      post state cell credits → post later cell credits)
    {state : S} {cells : List A} {credits : List ℕ}
    (hcells : List.Forall₂ (supply.Affords round post state) cells credits)
    (hsound : supply.sound state)
    (hfree : (credits.sum : ℤ) ≤ supply.free state) :
    ∃ final cells' results rests,
      threadCells round state cells = .ok (final, cells', results) ∧
        supply.sound final ∧ supply.grows state final ∧
        supply.free state - credits.sum ≤ supply.free final - rests.sum ∧
        List.Forall₂ (post final) cells' rests := by
  induction cells generalizing state credits with
  | nil =>
      cases hcells
      exact ⟨state, [], [], [], rfl, hsound, supply.refl state, le_rfl, .nil⟩
  | cons cell cells ih =>
      cases hcells with
      | @cons _ amount _ amounts hhead htail =>
          rw [List.sum_cons] at hfree
          obtain ⟨middle, cell', result, rest, hround, hmiddle, hgrown, hspent,
            hdone⟩ := hhead state (supply.refl state) hsound (by
              omega)
          obtain ⟨final, cells', results, rests, hloop, hfinal, hgrows, hrest,
            hcells'⟩ := ih (htail.imp fun _ _ hcell => hcell.grow hgrown)
              hmiddle (by
                omega)
          refine ⟨final, cell' :: cells', result :: results, rest :: rests,
            ?_, hfinal, supply.trans hgrown hgrows, ?_, ?_⟩
          · rw [threadCells_cons_eq_ok]
            exact ⟨_, _, _, _, _, hround, hloop, rfl, rfl⟩
          · simp only [List.sum_cons]
            omega
          · exact .cons (hpost _ _ _ _ hgrows hdone) hcells'

/-- Bills that are natural numbers and together stay below a bound serve as
credits, each of them below the bound. -/
theorem exists_credits {post : A → ℕ → Prop} {bound : ℤ}
    {bills : List (A × ℤ)}
    (hbills : ∀ bill ∈ bills, ∃ credits : ℕ, bill.2 = credits ∧
      ((credits : ℤ) ≤ bound → post bill.1 credits))
    (hsum : (bills.map Prod.snd).sum ≤ bound) :
    ∃ credits : List ℕ, (credits.sum : ℤ) = (bills.map Prod.snd).sum ∧
      List.Forall₂ post (bills.map Prod.fst) credits := by
  induction bills generalizing bound with
  | nil => exact ⟨[], rfl, .nil⟩
  | cons bill bills ih =>
      obtain ⟨amount, hamount, hpost⟩ := hbills bill List.mem_cons_self
      have hrest := fun other hmem =>
        hbills other (List.mem_cons_of_mem bill hmem)
      rw [List.map_cons, List.sum_cons, hamount] at hsum
      obtain ⟨credits, hcredits, hcells⟩ := ih hrest (by omega)
      refine ⟨amount :: credits, ?_, .cons (hpost (by omega)) hcells⟩
      rw [List.sum_cons, List.map_cons, List.sum_cons, hamount, ← hcredits]
      exact Nat.cast_add _ _

end GlmFlash.Library
