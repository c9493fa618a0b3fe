import Mathlib.Data.List.Basic
import Mathlib.Logic.Function.Basic
import Mathlib.Algebra.BigOperators.Group.List.Basic
import Mathlib.Tactic.Linarith

/-!
# Fallible computations and threaded loops

Operations that can raise return `Except`.  Their proofs take a successful run
apart step by step, so the one inversion below replaces every unfolding of the
monad.  A loop over cells that also threads a shared state is `threadCells`.
Its rule is a frame rule: when each round preserves a resource predicate
relative to an arbitrary frame, the loop preserves it relative to the sum over
all cells.
-/

namespace GlmFlash.Library

universe u

variable {E : Type*} {A B S : Type u}

theorem bind_eq_ok {run : Except E A} {next : A → Except E B} {value : B} :
    (run >>= next) = .ok value ↔
      ∃ middle, run = .ok middle ∧ next middle = .ok value := by
  cases run with
  | error failure => simp [bind, Except.bind]
  | ok middle => simp [bind, Except.bind]

theorem ok_bind (value : A) (next : A → Except E B) :
    (Except.ok value >>= next) = next value :=
  rfl

@[simp]
theorem pure_eq_ok {value result : A} :
    (pure value : Except E A) = .ok result ↔ value = result := by
  simp [pure, Except.pure]

theorem exists_of_isOk {result : Except E A} (hok : result.isOk = true) :
    ∃ value, result = .ok value := by
  cases result with
  | ok value => exact ⟨value, rfl⟩
  | error failure => cases hok

theorem toOption_eq_of_iff {left right : Except E A}
    (hsame : ∀ value, left = .ok value ↔ right = .ok value) :
    left.toOption = right.toOption := by
  cases left with
  | ok value => rw [(hsame value).mp rfl]
  | error failure =>
      cases right with
      | error other => rfl
      | ok value => exact absurd ((hsame value).mpr rfl) (by rintro ⟨⟩)

/-- An assertion: continue when the condition holds, fail otherwise. -/
def require (condition : Prop) [Decidable condition] (failure : E) :
    Except E Unit :=
  if condition then .ok () else .error failure

@[simp]
theorem require_eq_ok {condition : Prop} [Decidable condition] {failure : E}
    {token : Unit} :
    require condition failure = .ok token ↔ condition := by
  unfold require
  split <;> simp_all

theorem bind_eq_error {run : Except E A} {next : A → Except E B}
    {failure : E} :
    (run >>= next) = .error failure ↔
      run = .error failure ∨
        ∃ middle, run = .ok middle ∧ next middle = .error failure := by
  cases run with
  | error other => simp [bind, Except.bind]
  | ok middle => simp [bind, Except.bind]

@[simp]
theorem pure_ne_error {value : A} {failure : E} :
    (pure value : Except E A) ≠ .error failure := by
  rintro ⟨⟩

@[simp]
theorem require_eq_error {condition : Prop} [Decidable condition]
    {failure other : E} :
    require condition failure = .error other ↔
      ¬condition ∧ failure = other := by
  unfold require
  split <;> simp_all

/-- Run one operation over every cell from left to right, threading a shared
state and collecting the results. -/
def threadCells (round : S → A → Except E (S × A × B)) (state : S) :
    List A → Except E (S × List A × List B)
  | [] => .ok (state, [], [])
  | cell :: cells => do
      let (state, cell, result) ← round state cell
      let (state, cells, results) ← threadCells round state cells
      return (state, cell :: cells, result :: results)

variable {round : S → A → Except E (S × A × B)}

theorem threadCells_cons_eq_ok {state final : S} {cell : A}
    {cells cells' : List A} {results : List B} :
    threadCells round state (cell :: cells) = .ok (final, cells', results) ↔
      ∃ middle cell' result rest others,
        round state cell = .ok (middle, cell', result) ∧
          threadCells round middle cells = .ok (final, rest, others) ∧
          cells' = cell' :: rest ∧ results = result :: others := by
  simp only [threadCells, bind_eq_ok, pure_eq_ok, Prod.exists, Prod.mk.injEq]
  constructor
  · rintro ⟨middle, cell', result, hround, last, rest, others, hrest, rfl, rfl,
      rfl⟩
    exact ⟨middle, cell', result, rest, others, hround, hrest, rfl, rfl⟩
  · rintro ⟨middle, cell', result, rest, others, hround, hrest, rfl, rfl⟩
    exact ⟨middle, cell', result, hround, final, rest, others, hrest, rfl, rfl,
      rfl⟩

/-- What holds of each cell, its successor and its result holds along the
whole loop, when it does not depend on the shared state. -/
theorem threadCells_forall₂ {relation : A → A → Prop}
    (hround : ∀ state cell final cell' result,
      round state cell = .ok (final, cell', result) → relation cell cell')
    {state final : S} {cells cells' : List A} {results : List B}
    (hrun : threadCells round state cells = .ok (final, cells', results)) :
    List.Forall₂ relation cells cells' := by
  induction cells generalizing state cells' results with
  | nil =>
      simp only [threadCells, Except.ok.injEq, Prod.mk.injEq] at hrun
      rw [← hrun.2.1]
      exact .nil
  | cons cell cells ih =>
      obtain ⟨middle, cell', result, rest, others, hfirst, hrest, rfl, rfl⟩ :=
        threadCells_cons_eq_ok.mp hrun
      exact .cons (hround _ _ _ _ _ hfirst) (ih hrest)

/-- An invariant of the shared state that every round preserves. -/
theorem threadCells_invariant {invariant : S → Prop}
    (hround : ∀ state cell final cell' result,
      round state cell = .ok (final, cell', result) →
        invariant state → invariant final)
    {state final : S} {cells cells' : List A} {results : List B}
    (hrun : threadCells round state cells = .ok (final, cells', results))
    (hstate : invariant state) : invariant final := by
  induction cells generalizing state cells' results with
  | nil =>
      simp only [threadCells, Except.ok.injEq, Prod.mk.injEq] at hrun
      exact hrun.1 ▸ hstate
  | cons cell cells ih =>
      obtain ⟨middle, cell', result, rest, others, hfirst, hrest, -, -⟩ :=
        threadCells_cons_eq_ok.mp hrun
      exact ih hrest (hround _ _ _ _ _ hfirst hstate)

/-- A loop whose rounds only read the shared state. -/
theorem threadCells_readOnly {state final : S} {cells cells' : List A}
    {results : List B}
    (hkeep : ∀ cell final cell' result,
      round state cell = .ok (final, cell', result) → final = state)
    (hrun : threadCells round state cells = .ok (final, cells', results)) :
    final = state ∧ ∃ outcomes : List (A × B),
      List.Forall₂ (fun cell outcome =>
        round state cell = .ok (state, outcome.1, outcome.2)) cells outcomes ∧
      cells' = outcomes.map Prod.fst ∧ results = outcomes.map Prod.snd := by
  induction cells generalizing cells' results with
  | nil =>
      simp only [threadCells, Except.ok.injEq, Prod.mk.injEq] at hrun
      obtain ⟨rfl, rfl, rfl⟩ := hrun
      exact ⟨rfl, [], .nil, rfl, rfl⟩
  | cons cell cells ih =>
      obtain ⟨middle, cell', result, rest, others, hfirst, hrest, rfl, rfl⟩ :=
        threadCells_cons_eq_ok.mp hrun
      have hmiddle := hkeep _ _ _ _ hfirst
      subst hmiddle
      obtain ⟨hfinal, outcomes, houtcomes, rfl, rfl⟩ := ih hrest
      exact ⟨hfinal, (cell', result) :: outcomes, .cons hfirst houtcomes, rfl,
        rfl⟩

theorem threadCells_of_readOnly {state : S} {cells : List A}
    {outcomes : List (A × B)}
    (hrounds : List.Forall₂ (fun cell outcome =>
      round state cell = .ok (state, outcome.1, outcome.2)) cells outcomes) :
    threadCells round state cells =
      .ok (state, outcomes.map Prod.fst, outcomes.map Prod.snd) := by
  induction hrounds with
  | nil => rfl
  | cons hhead _ ih =>
      rw [threadCells_cons_eq_ok]
      exact ⟨_, _, _, _, _, hhead, ih, rfl, rfl⟩

theorem forall₂_trans {C : Type*} {relation : C → C → Prop}
    (htrans : ∀ first second third, relation first second →
      relation second third → relation first third)
    {first second third : List C}
    (hfirst : List.Forall₂ relation first second)
    (hsecond : List.Forall₂ relation second third) :
    List.Forall₂ relation first third := by
  induction hfirst generalizing third with
  | nil =>
      cases hsecond
      exact .nil
  | cons hhead _ ih =>
      cases hsecond with
      | cons hhead' htail' =>
          exact .cons (htrans _ _ _ hhead hhead') (ih htail')

theorem forall₂_mem_left {C D : Type*} {relation : C → D → Prop}
    {left : List C} {right : List D}
    (hpairs : List.Forall₂ relation left right) {item : C}
    (hmem : item ∈ left) : ∃ other ∈ right, relation item other := by
  induction hpairs with
  | nil => cases hmem
  | cons hhead _ ih =>
      cases hmem with
      | head => exact ⟨_, List.mem_cons_self, hhead⟩
      | tail _ hrest =>
          obtain ⟨other, hother, hrelation⟩ := ih hrest
          exact ⟨other, List.mem_cons_of_mem _ hother, hrelation⟩

theorem forall₂_mem_right {C D : Type*} {relation : C → D → Prop}
    {left : List C} {right : List D}
    (hpairs : List.Forall₂ relation left right) {item : D}
    (hmem : item ∈ right) : ∃ other ∈ left, relation other item :=
  forall₂_mem_left hpairs.flip hmem

/-- Frame rule for a loop over cells.  `holds state amount` says that the
state accounts for `amount`; `share cell` is what one cell contributes. -/
theorem threadCells_frame {I : Type*} {holds : S → (I → ℕ) → Prop}
    {share : A → I → ℕ}
    (hround : ∀ state cell final cell' result (frame : I → ℕ),
      round state cell = .ok (final, cell', result) →
        holds state (fun item => frame item + share cell item) →
          holds final (fun item => frame item + share cell' item))
    {state final : S} {cells cells' : List A} {results : List B}
    (hrun : threadCells round state cells = .ok (final, cells', results))
    (frame : I → ℕ)
    (hstate : holds state fun item =>
      frame item + (cells.map fun cell => share cell item).sum) :
    holds final fun item =>
      frame item + (cells'.map fun cell => share cell item).sum := by
  induction cells generalizing state cells' results frame with
  | nil =>
      simp only [threadCells, Except.ok.injEq, Prod.mk.injEq] at hrun
      obtain ⟨rfl, rfl, -⟩ := hrun
      exact hstate
  | cons cell cells ih =>
      obtain ⟨middle, cell', result, rest, others, hfirst, hrest, rfl, rfl⟩ :=
        threadCells_cons_eq_ok.mp hrun
      have hmiddle := hround _ _ _ _ _
        (fun item => frame item + (cells.map fun cell => share cell item).sum)
        hfirst (by
          convert hstate using 2
          simp only [List.map_cons, List.sum_cons]
          omega)
      have hfinal := ih hrest (fun item => frame item + share cell' item) (by
        convert hmiddle using 2
        omega)
      convert hfinal using 2
      simp only [List.map_cons, List.sum_cons]
      omega

/-- Each result of a fallible map comes from an element. -/
theorem mem_mapM_ok {C D : Type u} {function : C → Except E D}
    {elements : List C} {results : List D} {result : D}
    (hrun : elements.mapM function = .ok results) (hmem : result ∈ results) :
    ∃ element ∈ elements, function element = .ok result := by
  induction elements generalizing results with
  | nil =>
      rw [List.mapM_nil, pure_eq_ok] at hrun
      rw [← hrun] at hmem
      cases hmem
  | cons element elements ih =>
      simp only [List.mapM_cons, bind_eq_ok, pure_eq_ok] at hrun
      obtain ⟨first, hfirst, rest, hrest, rfl⟩ := hrun
      rcases List.mem_cons.mp hmem with rfl | hlater
      · exact ⟨element, List.mem_cons_self, hfirst⟩
      · obtain ⟨source, hsource, hresult⟩ := ih hrest hlater
        exact ⟨source, List.mem_cons_of_mem element hsource, hresult⟩

/-- An invariant of a fallible fold, which may use the element at hand. -/
theorem foldlM_invariant {C D : Type u} {round : D → C → Except E D}
    {invariant : D → Prop} {elements : List C}
    (hround : ∀ element ∈ elements, ∀ state next,
      round state element = .ok next → invariant state → invariant next)
    {state final : D} (hrun : elements.foldlM round state = .ok final)
    (hstart : invariant state) : invariant final := by
  induction elements generalizing state with
  | nil =>
      rw [List.foldlM_nil, pure_eq_ok] at hrun
      exact hrun ▸ hstart
  | cons element elements ih =>
      rw [List.foldlM_cons, bind_eq_ok] at hrun
      obtain ⟨next, hfirst, hrest⟩ := hrun
      exact ih (fun later hlater => hround later
        (List.mem_cons_of_mem element hlater)) hrest
        (hround element List.mem_cons_self state next hfirst hstart)

/-- What one element establishes and the others keep holds in the end. -/
theorem foldlM_establishes {C D : Type u} {round : D → C → Except E D}
    {property : D → Prop} {elements : List C} {target : C}
    (hmem : target ∈ elements)
    (hestablish : ∀ state next, round state target = .ok next →
      property next)
    (hkeep : ∀ element ∈ elements, ∀ state next,
      round state element = .ok next → property state → property next)
    {state final : D} (hrun : elements.foldlM round state = .ok final) :
    property final := by
  induction elements generalizing state with
  | nil => cases hmem
  | cons element elements ih =>
      rw [List.foldlM_cons, bind_eq_ok] at hrun
      obtain ⟨next, hfirst, hrest⟩ := hrun
      have hkeepRest : ∀ later ∈ elements, ∀ state next,
          round state later = .ok next → property state → property next :=
        fun later hlater => hkeep later
          (List.mem_cons_of_mem element hlater)
      rcases List.mem_cons.mp hmem with rfl | hlater
      · exact foldlM_invariant hkeepRest hrest
          (hestablish state next hfirst)
      · exact ih hlater hkeepRest hrest

/-- A loop runs to its end when its invariant lets every round run. -/
theorem foldlM_succeeds {C D : Type u} {round : D → C → Except E D}
    {invariant : D → Prop} {elements : List C}
    (hround : ∀ element ∈ elements, ∀ state, invariant state →
      ∃ next, round state element = .ok next ∧ invariant next)
    {state : D} (hstart : invariant state) :
    ∃ final, elements.foldlM round state = .ok final ∧ invariant final := by
  induction elements generalizing state with
  | nil => exact ⟨state, rfl, hstart⟩
  | cons element elements ih =>
      obtain ⟨next, hfirst, hnext⟩ :=
        hround element List.mem_cons_self state hstart
      obtain ⟨final, hrest, hfinal⟩ := ih
        (fun other hmem => hround other (List.mem_cons_of_mem element hmem))
        hnext
      refine ⟨final, ?_, hfinal⟩
      rw [List.foldlM_cons, hfirst]
      exact hrest

/-- An invariant of a fallible fold that speaks of the elements done. -/
theorem foldlM_prefix {C D : Type u} {round : D → C → Except E D}
    {invariant : List C → D → Prop}
    (hround : ∀ done element state next, round state element = .ok next →
      invariant done state → invariant (done ++ [element]) next)
    {done elements : List C} {state final : D}
    (hrun : elements.foldlM round state = .ok final)
    (hstart : invariant done state) : invariant (done ++ elements) final := by
  induction elements generalizing done state with
  | nil =>
      rw [List.foldlM_nil, pure_eq_ok] at hrun
      rw [List.append_nil, ← hrun]
      exact hstart
  | cons element elements ih =>
      rw [List.foldlM_cons, bind_eq_ok] at hrun
      obtain ⟨next, hfirst, hrest⟩ := hrun
      have hfinal := ih hrest (hround done element state next hfirst hstart)
      rw [List.append_assoc, List.singleton_append] at hfinal
      exact hfinal

/-- The same for a fold from its start. -/
theorem foldlM_run {C D : Type u} {round : D → C → Except E D}
    (invariant : List C → D → Prop)
    (hround : ∀ done element state next, round state element = .ok next →
      invariant done state → invariant (done ++ [element]) next)
    {elements : List C} {state final : D}
    (hrun : elements.foldlM round state = .ok final)
    (hstart : invariant [] state) : invariant elements final :=
  foldlM_prefix hround hrun hstart

/-- What the last state says of the state before a round, and of its element. -/
theorem foldlM_backwards {C D : Type u} {round : D → C → Except E D}
    {good : D → Prop} {found : C → Prop}
    (hround : ∀ state element next, round state element = .ok next →
      good next → good state ∧ found element)
    {elements : List C} {state final : D}
    (hrun : elements.foldlM round state = .ok final) (hgood : good final) :
    good state ∧ ∀ element ∈ elements, found element := by
  refine foldlM_run (fun done (reached : D) => good reached →
    good state ∧ ∀ element ∈ done, found element) ?_ hrun
    (fun hstart => ⟨hstart, fun element hmem => by cases hmem⟩) hgood
  intro done element before next hstep hbefore hnext
  obtain ⟨hstate, helement⟩ := hround before element next hstep hnext
  obtain ⟨hstart, hdone⟩ := hbefore hstate
  refine ⟨hstart, fun other hother => ?_⟩
  rcases List.mem_append.mp hother with hearlier | hlast
  · exact hdone other hearlier
  · exact List.mem_singleton.mp hlast ▸ helement

/-- A fold runs to its end, and keeps its invariant, when the invariant lets
every round run. -/
theorem foldlM_prefix_total {C D : Type u} {round : D → C → Except E D}
    (invariant : List C → D → Prop) {done elements : List C}
    (hround : ∀ before element after, done ++ elements =
        before ++ element :: after → ∀ state, invariant before state →
      ∃ next, round state element = .ok next ∧
        invariant (before ++ [element]) next)
    {state : D} (hstart : invariant done state) :
    ∃ final, elements.foldlM round state = .ok final ∧
      invariant (done ++ elements) final := by
  induction elements generalizing done state with
  | nil =>
      rw [List.append_nil]
      exact ⟨state, rfl, hstart⟩
  | cons element elements ih =>
      obtain ⟨next, hfirst, hnext⟩ :=
        hround done element elements rfl state hstart
      have hsplit : done ++ [element] ++ elements = done ++ element :: elements := by
        rw [List.append_assoc, List.singleton_append]
      obtain ⟨final, hrest, hfinal⟩ := ih (hsplit ▸ hround) hnext
      rw [hsplit] at hfinal
      refine ⟨final, ?_, hfinal⟩
      rw [List.foldlM_cons, hfirst]
      exact hrest

theorem foldlM_prefix_succeeds {C D : Type u} {round : D → C → Except E D}
    {invariant : List C → D → Prop} {done elements : List C}
    (hround : ∀ before element after, done ++ elements =
        before ++ element :: after → ∀ state, invariant before state →
      ∃ next, round state element = .ok next ∧
        invariant (before ++ [element]) next)
    {state : D} (hstart : invariant done state) :
    ∃ final, elements.foldlM round state = .ok final := by
  obtain ⟨final, hrun, -⟩ := foldlM_prefix_total invariant hround hstart
  exact ⟨final, hrun⟩

/-- The same for a fold that cannot fail. -/
theorem foldl_prefix {C D : Type*} {round : D → C → D}
    {invariant : List C → D → Prop}
    (hround : ∀ done element state, invariant done state →
      invariant (done ++ [element]) (round state element))
    {done elements : List C} {state : D} (hstart : invariant done state) :
    invariant (done ++ elements) (elements.foldl round state) := by
  induction elements generalizing done state with
  | nil =>
      rw [List.append_nil]
      exact hstart
  | cons element elements ih =>
      have hfinal := ih (hround done element state hstart)
      rw [List.append_assoc, List.singleton_append] at hfinal
      exact hfinal

/-- A loop fails as one of its rounds does. -/
theorem foldlM_eq_error {C D : Type u} {round : D → C → Except E D}
    {elements : List C} {state : D} {failure : E}
    (hrun : elements.foldlM round state = .error failure) :
    ∃ element ∈ elements, ∃ before, round before element = .error failure := by
  induction elements generalizing state with
  | nil => exact absurd hrun pure_ne_error
  | cons element elements ih =>
      rw [List.foldlM_cons, bind_eq_error] at hrun
      rcases hrun with hfirst | ⟨next, -, hrest⟩
      · exact ⟨element, List.mem_cons_self, state, hfirst⟩
      · obtain ⟨later, hlater, before, hround⟩ := ih hrest
        exact ⟨later, List.mem_cons_of_mem element hlater, before, hround⟩

/-- A loop of checks passes when each of them does. -/
theorem forM_eq_ok {C : Type u} {check : C → Except E Unit} {items : List C} :
    items.forM check = .ok () ↔ ∀ item ∈ items, check item = .ok () := by
  induction items with
  | nil => exact iff_of_true rfl (by rintro _ ⟨⟩)
  | cons first items ih =>
      rw [List.forall_mem_cons, ← ih]
      change (check first >>= fun _ => items.forM check) = _ ↔ _
      rw [bind_eq_ok]
      constructor
      · rintro ⟨⟨⟩, hfirst, hrest⟩
        exact ⟨hfirst, hrest⟩
      · rintro ⟨hfirst, hrest⟩
        exact ⟨(), hfirst, hrest⟩

/-- The results of a fallible map stand in the order of the elements. -/
theorem forall₂_of_mapM {C D : Type u} {function : C → Except E D}
    {elements : List C} {results : List D}
    (hrun : elements.mapM function = .ok results) :
    List.Forall₂ (fun element result => function element = .ok result)
      elements results := by
  induction elements generalizing results with
  | nil =>
      rw [List.mapM_nil, pure_eq_ok] at hrun
      rw [← hrun]
      exact .nil
  | cons element elements ih =>
      simp only [List.mapM_cons, bind_eq_ok, pure_eq_ok] at hrun
      obtain ⟨first, hfirst, rest, hrest, rfl⟩ := hrun
      exact .cons hfirst (ih hrest)

theorem mapM_succeeds {C D : Type u} {function : C → Except E D}
    {elements : List C}
    (hall : ∀ element ∈ elements, ∃ result, function element = .ok result) :
    ∃ results, elements.mapM function = .ok results ∧
      List.Forall₂ (fun element result => function element = .ok result)
        elements results := by
  induction elements with
  | nil => exact ⟨[], rfl, .nil⟩
  | cons element elements ih =>
      obtain ⟨first, hfirst⟩ := hall element List.mem_cons_self
      obtain ⟨rest, hrest, hforall⟩ := ih fun other hmem =>
        hall other (List.mem_cons_of_mem element hmem)
      refine ⟨first :: rest, ?_, .cons hfirst hforall⟩
      rw [List.mapM_cons, hfirst]
      change (elements.mapM function >>= fun rest => pure (first :: rest)) = _
      rw [hrest]
      rfl

/-- A loop computes the plain fold, unless a round raises. -/
theorem foldlM_outcome {C D : Type u} {round : D → C → Except E D}
    (plain : D → C → D) {raised : E → Prop} {elements : List C}
    (hround : ∀ element ∈ elements, ∀ state,
      round state element = .ok (plain state element) ∨
        ∃ failure, round state element = .error failure ∧ raised failure) (state : D) :
    elements.foldlM round state = .ok (elements.foldl plain state) ∨
      ∃ failure, elements.foldlM round state = .error failure ∧ raised failure := by
  induction elements generalizing state with
  | nil => exact .inl rfl
  | cons element elements ih =>
      rw [List.foldlM_cons]
      cases hround element List.mem_cons_self state with
      | inl hfirst =>
          rw [hfirst]
          exact ih (fun later hlater => hround later
            (List.mem_cons_of_mem element hlater)) _
      | inr hraised =>
          obtain ⟨failure, hfirst, hfailure⟩ := hraised
          rw [hfirst]
          exact .inr ⟨failure, rfl, hfailure⟩

end GlmFlash.Library
