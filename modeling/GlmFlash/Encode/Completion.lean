import GlmFlash.Encode.QueueRuns
import Mathlib.Algebra.Order.BigOperators.Group.List
import Mathlib.Data.Prod.Lex
import Mathlib.Order.WellFounded

/-!
# When a parent that returns 0 has encoded its layers

An invocation of `run_parent` can complete the layers that nobody has claimed
before it and that the queue file lists, with at least one worker.  A layer
that a dead worker has claimed, or that an older queue file leaves out, stays
unencoded while the parent returns 0.
-/

namespace GlmFlash.Encode

open GlmFlash.Library

variable {state next final : State} {pid : ℕ} {action : Action}
  {layer : ℕ} {invocation : Invocation}

/-- When a parent returns 0, the layers it was asked for are encoded. -/
def State.Complete (state : State) : Prop :=
  ∀ invocation ∈ state.parent, state.returns invocation →
    ∀ layer ∈ invocation.layers, layer ∈ state.encoded

/-- What an invocation needs of the state it starts from. -/
def CanComplete (state : State) (layers : List ℕ) (workers : ℤ) : Prop :=
  ∀ layer ∈ layers, layer ∈ state.encoded ∨
    0 < workers ∧ layer ∈ state.queue.getD layers ∧ layer ∉ state.claimed

/-- Every invocation starts from a state that it can complete. -/
def Completable (state : State) : Action → Prop
  | .runParent spec workers => ∀ layers, parseLayers spec = .ok layers →
      CanComplete state layers workers
  | _ => True

/-! ## Enough for completion -/

/-- A layer asked for and not encoded can only be claimed by a worker of this
invocation. -/
def Promise (state : State) : Prop :=
  ∀ invocation ∈ state.parent, ∀ layer ∈ invocation.layers,
    layer ∈ state.encoded ∨
      0 < invocation.workers ∧ layer ∈ state.queued ∧
        ∀ claim ∈ state.claims, claim.1 = layer →
          claim.2 ∈ invocation.pids

/-- A live worker belongs to the invocation that waits. -/
theorem Invariant.mem_pids (hinvariant : Invariant state)
    {phase : Phase} (hphase : state.processes[pid]? = some phase)
    (hlive : phase.ended = false) (hparent : state.parent = some invocation) :
    pid ∈ invocation.pids := by
  obtain ⟨hlt, -⟩ := List.getElem?_eq_some_iff.mp hphase
  have hown := hinvariant.own invocation hparent
  rw [Invocation.pids, List.mem_range'_1]
  refine ⟨?_, hown ▸ hlt⟩
  by_contra hearlier
  have hended := hinvariant.earlier pid phase hphase (by
    intro other hother
    rw [hparent, Option.mem_some_iff] at hother
    exact hother ▸ not_le.mp hearlier)
  rw [hlive] at hended
  cases hended

theorem Promise.move {before after : Phase} (hinvariant : Invariant state)
    (hpromise : Promise state) (hmoves : Moves state pid before after next)
    (hencoded : ∀ layer ∈ state.encoded, layer ∈ next.encoded)
    (hnew : ∀ claim ∈ next.claims, claim ∈ state.claims ∨ claim.2 = pid) :
    Promise next := by
  intro invocation hparent layer hlayer
  rw [hmoves.parent] at hparent
  rcases hpromise invocation hparent layer hlayer with
    hdone | ⟨hworkers, hqueued, hclaims⟩
  · exact .inl (hencoded layer hdone)
  · refine .inr ⟨hworkers, ?_, ?_⟩
    · rw [State.queued, hmoves.queue]
      exact hqueued
    · intro claim hclaim heq
      rcases hnew claim hclaim with hbefore | hpid
      · exact hclaims claim hbefore heq
      · rw [hpid]
        exact hinvariant.mem_pids hmoves.stands hmoves.live hparent

theorem Promise.step (hinvariant : Invariant state) (hpromise : Promise state)
    (hcondition : Completable state action)
    (hstep : step state action = .ok next) : Promise next := by
  cases action with
  | runParent spec workers =>
      obtain ⟨layers, hlayers, -, rfl⟩ := runParent_eq_ok hstep
      intro invocation hparent layer hlayer
      cases hparent
      refine (hcondition layers hlayers layer hlayer).imp_right ?_
      rintro ⟨hworkers, hqueued, hfree⟩
      refine ⟨Int.lt_toNat.mpr hworkers, hqueued, ?_⟩
      intro claim hclaim heq
      exact absurd (heq ▸ List.mem_map_of_mem hclaim) hfree
  | advance pid =>
      cases advance_cases hstep with
      | poll layers _ hmoves =>
          exact hpromise.move hinvariant hmoves (fun _ => id) fun _ => .inl
      | exhaust hmoves =>
          exact hpromise.move hinvariant hmoves (fun _ => id) fun _ => .inl
      | pass layer rest _ hmoves =>
          exact hpromise.move hinvariant hmoves (fun _ => id) fun _ => .inl
      | claim layer rest _ hmoves =>
          refine hpromise.move hinvariant hmoves (fun _ => id) ?_
          intro claim hclaim
          rcases List.mem_append.mp hclaim with hbefore | hlast
          · exact .inl hbefore
          · rw [List.mem_singleton.mp hlast]
            exact .inr rfl
      | finish layer hmoves =>
          exact hpromise.move hinvariant hmoves
            (fun _ => List.mem_append_left _) fun _ => .inl
  | crash pid =>
      obtain ⟨before, hmoves, hclaims, hencoded⟩ := crash_moves hstep
      refine hpromise.move hinvariant hmoves ?_ ?_
      · rw [hencoded]
        exact fun _ => id
      · rw [hclaims]
        exact fun _ => .inl
  | wait =>
      simp only [Encode.step, bind_eq_ok, require_eq_ok, pure_eq_ok] at hstep
      obtain ⟨-, -, rfl⟩ := hstep
      rintro _ ⟨⟩
  | interrupt =>
      simp only [Encode.step, bind_eq_ok, require_eq_ok, pure_eq_ok] at hstep
      obtain ⟨-, -, rfl⟩ := hstep
      rintro _ ⟨⟩

/-- All workers have returned 0, so each has seen every layer claimed, and no
claim of theirs is open. -/
theorem Promise.complete (hinvariant : Invariant state)
    (hpromise : Promise state) : state.Complete := by
  intro invocation hparent hreturns layer hlayer
  rcases hpromise invocation hparent layer hlayer with
    hdone | ⟨hworkers, hqueued, hclaims⟩
  · exact hdone
  have hfirst : invocation.firstWorker ∈ invocation.pids := by
    rw [Invocation.pids, List.mem_range'_1]
    exact ⟨le_rfl, Nat.lt_add_of_pos_right hworkers⟩
  have hclaimed := hinvariant.exits _ (hreturns _ hfirst) layer hqueued
  obtain ⟨claim, hclaim, rfl⟩ := List.mem_map.mp hclaimed
  have hexited := hreturns _ (hclaims claim hclaim rfl)
  rcases hinvariant.pending claim hclaim with hdone | hrunning | hdead
  · exact hdone
  · rw [hexited] at hrunning
    cases hrunning
  · rw [hexited] at hdead
    cases hdead

theorem along_complete {actions : List Action} (hinvariant : Invariant state)
    (hpromise : Promise state)
    (halong : Along step Completable state actions)
    (hrun : runSteps step state actions = .ok final) : final.Complete := by
  have hboth : Invariant final ∧ Promise final :=
    @runSteps_invariant_along _ _ _ step
      (fun state => Invariant state ∧ Promise state) Completable
      (fun state action next hcondition hstep hboth =>
        ⟨step_invariant hboth.1 hstep, hboth.2.step hboth.1 hcondition hstep⟩)
      _ _ _ hrun halong ⟨hinvariant, hpromise⟩
  exact hboth.2.complete hboth.1

/-! ## What completion needs -/

/-- A layer that no worker will encode. -/
structure Stuck (layer : ℕ) (state : State) : Prop where
  unencoded : layer ∉ state.encoded
  claimed : layer ∈ state.queued → layer ∈ state.claimed
  idle : ∀ pid : ℕ, state.processes[pid]? ≠ some (.encoding layer)

theorem Stuck.move {before after : Phase} (hstuck : Stuck layer state)
    (hmoves : Moves state pid before after next)
    (hafter : after ≠ .encoding layer)
    (hclaims : ∀ claim ∈ state.claims, claim ∈ next.claims)
    (hencoded : layer ∉ next.encoded) : Stuck layer next := by
  refine ⟨hencoded, ?_, ?_⟩
  · intro hqueued
    rw [State.queued, hmoves.queue] at hqueued
    obtain ⟨claim, hclaim, heq⟩ := List.mem_map.mp (hstuck.claimed hqueued)
    rw [← heq]
    exact List.mem_map_of_mem (hclaims claim hclaim)
  · intro other hother
    rw [hmoves.getElem?_processes] at hother
    split at hother
    · exact hafter (Option.some.inj hother)
    · exact hstuck.idle other hother

theorem Stuck.advance (hinvariant : Invariant state)
    (hstuck : Stuck layer state) (hstep : advance state pid = .ok next) :
    Stuck layer next := by
  cases advance_cases hstep with
  | poll layers _ hmoves =>
      exact hstuck.move hmoves (by rintro ⟨⟩) (fun _ => id)
        hstuck.unencoded
  | exhaust hmoves =>
      exact hstuck.move hmoves (by rintro ⟨⟩) (fun _ => id)
        hstuck.unencoded
  | pass other rest _ hmoves =>
      exact hstuck.move hmoves (by rintro ⟨⟩) (fun _ => id)
        hstuck.unencoded
  | claim other rest hfree hmoves =>
      refine hstuck.move hmoves ?_ (fun _ => List.mem_append_left _)
        hstuck.unencoded
      intro heq
      cases heq
      exact hfree (hstuck.claimed
        ((hinvariant.tries pid _ hmoves.stands).1 layer List.mem_cons_self))
  | finish other hmoves =>
      refine hstuck.move hmoves (by rintro ⟨⟩) (fun _ => id) ?_
      intro hmem
      rcases List.mem_append.mp hmem with hbefore | hlast
      · exact hstuck.unencoded hbefore
      · rw [List.mem_singleton.mp hlast] at hstuck
        exact hstuck.idle pid hmoves.stands

/-! ### Letting the workers run -/

/-- The layers of the queue that are free. -/
def State.free (state : State) : ℕ :=
  (state.queued.filter fun layer => decide (layer ∉ state.claimed)).length

/-- How far a worker is from its end, while no layer is claimed. -/
def Phase.weight (queued : ℕ) : Phase → ℕ
  | .polling => queued + 2
  | .claiming rest => rest.length + 1
  | .encoding _ => queued + 3
  | .exited | .crashed => 0

def State.weight (state : State) (invocation : Invocation) : ℕ :=
  (invocation.pids.map fun pid =>
    (state.processes[pid]?.elim 0 (Phase.weight state.queued.length))).sum

def State.remaining (invocation : Invocation) (state : State) : ℕ ×ₗ ℕ :=
  toLex (state.free, state.weight invocation)

/-- The invocation waits, and none of its workers has crashed. -/
structure Waits (invocation : Invocation) (state : State) : Prop where
  parent : state.parent = some invocation
  running : ∀ pid ∈ invocation.pids, ∃ phase,
    state.processes[pid]? = some phase ∧ phase ≠ .crashed

theorem Waits.move {before after : Phase} (hwaits : Waits invocation state)
    (hmoves : Moves state pid before after next) (hafter : after ≠ .crashed) :
    Waits invocation next := by
  refine ⟨hmoves.parent.trans hwaits.parent, ?_⟩
  intro other hother
  rw [hmoves.getElem?_processes]
  split
  · exact ⟨after, rfl, hafter⟩
  · exact hwaits.running other hother

/-- A step that claims nothing lessens the weight. -/
theorem weight_lt {before after : Phase}
    (hmoves : Moves state pid before after next)
    (hpid : pid ∈ invocation.pids)
    (hweight : after.weight state.queued.length <
      before.weight state.queued.length) :
    next.weight invocation < state.weight invocation := by
  have hqueued : next.queued = state.queued := by
    rw [State.queued, hmoves.queue, State.queued]
  rw [State.weight, State.weight, hqueued]
  apply List.sum_lt_sum
  · intro other _
    rw [hmoves.getElem?_processes]
    split
    · rename_i hsame
      rw [hsame, hmoves.stands]
      exact hweight.le
    · exact le_rfl
  · refine ⟨pid, hpid, ?_⟩
    rw [hmoves.getElem?_processes, if_pos rfl, hmoves.stands]
    exact hweight

theorem remaining_lt {before after : Phase}
    (hmoves : Moves state pid before after next)
    (hclaims : next.claims = state.claims) (hpid : pid ∈ invocation.pids)
    (hweight : after.weight state.queued.length <
      before.weight state.queued.length) :
    next.remaining invocation < state.remaining invocation := by
  have hfree : next.free = state.free := by
    rw [State.free, State.free, State.queued, hmoves.queue, State.claimed,
      hclaims]
    rfl
  rw [State.remaining, State.remaining, hfree, Prod.Lex.toLex_lt_toLex]
  exact .inr ⟨rfl, weight_lt hmoves hpid hweight⟩

/-- A claim takes a free layer. -/
theorem free_lt (hqueued : layer ∈ state.queued) (hfree : layer ∉ state.claimed)
    (hnext : next.queue = state.queue)
    (hclaims : next.claims = state.claims ++ [(layer, pid)]) :
    next.free < state.free := by
  have hclaimed : ∀ other, other ∈ next.claimed ↔
      other ∈ state.claimed ∨ other = layer := by
    intro other
    rw [State.claimed, hclaims, List.map_append, List.mem_append,
      List.map_singleton, List.mem_singleton, State.claimed]
  have hfilter : next.queued.filter (fun other =>
      decide (other ∉ next.claimed)) =
      (state.queued.filter fun other => decide (other ∉ state.claimed)).filter
        fun other => decide (other ∉ next.claimed) := by
    rw [List.filter_filter, State.queued, hnext, State.queued]
    apply List.filter_congr
    intro other _
    rw [← Bool.decide_and, decide_eq_decide]
    constructor
    · exact fun hnot => ⟨hnot, fun hmem => hnot ((hclaimed other).mpr (.inl hmem))⟩
    · exact And.left
  rw [State.free, hfilter, State.free, List.length_filter_lt_length_iff_exists]
  refine ⟨layer, List.mem_filter.mpr ⟨hqueued, decide_eq_true hfree⟩, ?_⟩
  rw [decide_eq_true_eq, not_not]
  exact (hclaimed layer).mpr (.inr rfl)

/-- A worker that has not returned can get on. -/
theorem exists_advance (hinvariant : Invariant state)
    (hwaits : Waits invocation state) (hpid : pid ∈ invocation.pids)
    (hrunning : state.processes[pid]? ≠ some .exited) :
    ∃ next, advance state pid = .ok next ∧ Waits invocation next ∧
      next.remaining invocation < state.remaining invocation := by
  obtain ⟨phase, hphase, halive⟩ := hwaits.running pid hpid
  have hstep : ∃ next, advance state pid = .ok next := by
    rw [advance, hphase]
    cases phase with
    | polling =>
        have hsome : state.queue ≠ none := hinvariant.queue_isSome fun hempty => by
          rw [hempty] at hphase
          cases hphase
        cases hqueue : state.queue with
        | none => exact absurd hqueue hsome
        | some layers => exact ⟨_, rfl⟩
    | claiming rest =>
        cases rest with
        | nil => exact ⟨_, rfl⟩
        | cons layer rest =>
            dsimp only
            split
            · exact ⟨_, rfl⟩
            · exact ⟨_, rfl⟩
    | encoding layer => exact ⟨_, rfl⟩
    | exited => exact absurd hphase hrunning
    | crashed => exact absurd rfl halive
  obtain ⟨next, hnext⟩ := hstep
  refine ⟨next, hnext, ?_⟩
  cases advance_cases hnext with
  | poll layers hqueue hmoves =>
      refine ⟨hwaits.move hmoves (by rintro ⟨⟩),
        remaining_lt hmoves rfl hpid ?_⟩
      rw [State.queued, hqueue]
      exact Nat.lt_succ_self _
  | exhaust hmoves =>
      exact ⟨hwaits.move hmoves (by rintro ⟨⟩),
        remaining_lt hmoves rfl hpid (Nat.succ_pos _)⟩
  | pass layer rest _ hmoves =>
      exact ⟨hwaits.move hmoves (by rintro ⟨⟩),
        remaining_lt hmoves rfl hpid (Nat.lt_succ_self _)⟩
  | claim layer rest hfree hmoves =>
      refine ⟨hwaits.move hmoves (by rintro ⟨⟩), ?_⟩
      rw [State.remaining, State.remaining, Prod.Lex.toLex_lt_toLex]
      refine .inl ?_
      exact free_lt ((hinvariant.tries pid _ hmoves.stands).1 layer
        List.mem_cons_self) hfree rfl rfl
  | finish layer hmoves =>
      exact ⟨hwaits.move hmoves (by rintro ⟨⟩),
        remaining_lt hmoves rfl hpid (Nat.lt_succ_self _)⟩

def Action.isAdvance : Action → Prop
  | .advance _ => True
  | _ => False

/-- Without crashes the parent comes to return 0, and a stuck layer stays. -/
theorem exists_return (hinvariant : Invariant state)
    (hwaits : Waits invocation state) (hstuck : Stuck layer state) :
    ∃ actions final, (∀ action ∈ actions, action.isAdvance) ∧
      runSteps step state actions = .ok final ∧
      final.parent = some invocation ∧ final.returns invocation ∧
      layer ∉ final.encoded := by
  have hrun := @exists_run_of_decreasing _ _ _ step _ _ _
    (fun state => Invariant state ∧ Waits invocation state ∧ Stuck layer state)
    (fun state => state.returns invocation) Action.isAdvance
    (State.remaining invocation) ?_ state ⟨hinvariant, hwaits, hstuck⟩
  · obtain ⟨actions, final, hall, hrun, ⟨-, hfinal, hstill⟩, hreturns⟩ := hrun
    exact ⟨actions, final, hall, hrun, hfinal.parent, hreturns,
      hstill.unencoded⟩
  · intro state ⟨hinvariant, hwaits, hstuck⟩ hnot
    rw [State.returns] at hnot
    push Not at hnot
    obtain ⟨pid, hpid, hrunning⟩ := hnot
    obtain ⟨next, hnext, hnextWaits, hlt⟩ :=
      exists_advance hinvariant hwaits hpid hrunning
    exact ⟨.advance pid, next, trivial, hnext,
      ⟨hinvariant.advance hnext, hnextWaits, hstuck.advance hinvariant hnext⟩,
      hlt⟩

/-- The actions that start no other invocation. -/
def Action.startsNone : Action → Prop
  | .runParent _ _ => False
  | _ => True

/-- In whatever way an invocation goes on, it is complete when it returns. -/
def AlwaysComplete (state : State) (spec : List LayerPart) (workers : ℤ) :
    Prop :=
  ∀ actions final, (∀ action ∈ actions, action.startsNone) →
    runSteps step state (.runParent spec workers :: actions) = .ok final →
      final.Complete

theorem along_of_startsNone {actions : List Action}
    (hall : ∀ action ∈ actions, action.startsNone) :
    Along step Completable state actions := by
  induction actions generalizing state with
  | nil => trivial
  | cons action actions ih =>
      have hrest : ∀ other ∈ actions, other.startsNone := fun other hmem =>
        hall other (List.mem_cons_of_mem action hmem)
      refine ⟨?_, fun next _ => ih hrest⟩
      cases action with
      | runParent spec workers => cases hall _ List.mem_cons_self
      | advance pid => trivial
      | crash pid => trivial
      | wait => trivial
      | interrupt => trivial

variable {spec : List LayerPart} {workers : ℤ} {layers : List ℕ}

theorem alwaysComplete_of_canComplete (hinvariant : Invariant state)
    (hidle : state.parent = none) (hspec : parseLayers spec = .ok layers)
    (hcan : CanComplete state layers workers) :
    AlwaysComplete state spec workers := by
  intro actions final hall hrun
  have hpromise : Promise state := by
    intro invocation hparent
    rw [hidle] at hparent
    cases hparent
  have hfirst : Completable state (.runParent spec workers) := by
    intro layers' hlayers'
    rw [hspec] at hlayers'
    cases hlayers'
    exact hcan
  have halong : Along step Completable state (.runParent spec workers :: actions) :=
    ⟨hfirst, fun next _ => along_of_startsNone hall⟩
  exact along_complete hinvariant hpromise halong hrun

theorem canComplete_of_alwaysComplete (hinvariant : Invariant state)
    (hidle : state.parent = none) (hspec : parseLayers spec = .ok layers)
    (halways : AlwaysComplete state spec workers) :
    CanComplete state layers workers := by
  intro layer hlayer
  by_contra hnot
  rw [not_or] at hnot
  obtain ⟨hunencoded, hcannot⟩ := hnot
  have hstart : ∃ next, runParent state spec workers = .ok next := by
    simp only [runParent, bind_eq_ok, require_eq_ok, pure_eq_ok]
    exact ⟨_, (), hidle, layers, hspec, rfl⟩
  obtain ⟨next, hnext⟩ := hstart
  have hinvariant' := hinvariant.runParent hnext
  obtain ⟨layers', hlayers', -, heq⟩ := runParent_eq_ok hnext
  rw [hspec] at hlayers'
  cases hlayers'
  have hended : ∀ (pid : ℕ) (phase : Phase),
      state.processes[pid]? = some phase → phase.ended = true := by
    intro pid phase hphase
    apply hinvariant.earlier pid phase hphase
    intro invocation hparent
    rw [hidle] at hparent
    cases hparent
  have hwaits : Waits ⟨layers, state.processes.length, workers.toNat⟩ next := by
    rw [heq]
    refine ⟨rfl, ?_⟩
    intro pid hpid
    rw [Invocation.pids, List.mem_range'_1] at hpid
    refine ⟨.polling, ?_, by rintro ⟨⟩⟩
    rw [List.getElem?_append_right hpid.1, List.getElem?_replicate, if_pos]
    exact Nat.sub_lt_left_of_lt_add hpid.1 hpid.2
  by_cases hworkers : 0 < workers
  · have hstuck : Stuck layer next := by
      rw [heq]
      refine ⟨hunencoded, ?_, ?_⟩
      · intro hqueued
        by_contra hfree
        exact hcannot ⟨hworkers, hqueued, hfree⟩
      · intro pid hphase
        rcases getElem?_append_polling hphase with hbefore | ⟨-, hnew⟩
        · cases hended pid _ hbefore
        · cases hnew
    obtain ⟨actions, final, hall, hrun, hparent, hreturns, hstill⟩ :=
      exists_return hinvariant' hwaits hstuck
    have hnone : ∀ action ∈ actions, action.startsNone := by
      intro action hmem
      have hadvance := hall action hmem
      cases action with
      | advance pid => trivial
      | _ => cases hadvance
    have hcomplete := halways actions final hnone
      (runSteps_cons_eq_ok.mpr ⟨next, hnext, hrun⟩)
    exact hstill (hcomplete _ hparent hreturns layer hlayer)
  · -- Without workers the parent returns at once.
    have hcomplete := halways [] next (fun _ hmem => absurd hmem List.not_mem_nil)
      (runSteps_cons_eq_ok.mpr ⟨next, hnext, rfl⟩)
    have hreturns : next.returns ⟨layers, state.processes.length,
        workers.toNat⟩ := by
      intro pid hpid
      rw [Invocation.pids, List.mem_range'_1] at hpid
      dsimp only at hpid
      omega
    have hdone := hcomplete _ hwaits.parent hreturns layer hlayer
    rw [heq] at hdone
    exact hunencoded hdone

/-- No layer is claimed by two workers in any run.  In every run whose
invocations start from states that they can complete, a parent that returns 0
has encoded its layers; and from a state that an invocation cannot complete,
some run of it returns 0 and has not. -/
theorem queue_complete_iff {actions : List Action}
    (hrun : runSteps step .initial actions = .ok state) :
    state.claimed.Nodup ∧
      (Along step Completable .initial actions → state.Complete) ∧
      ∀ spec workers layers, state.parent = none →
        parseLayers spec = .ok layers →
          (AlwaysComplete state spec workers ↔
            CanComplete state layers workers) := by
  have hinvariant := reachable_invariant hrun
  refine ⟨hinvariant.claimed_nodup, ?_, ?_⟩
  · intro halong
    exact along_complete invariant_initial (by rintro _ ⟨⟩)
      halong hrun
  · intro spec workers layers hidle hspec
    exact ⟨canComplete_of_alwaysComplete hinvariant hidle hspec,
      alwaysComplete_of_canComplete hinvariant hidle hspec⟩

/-- Two workers encode a layer each, the second after it found the first one claimed,
and return. -/
def cleanRun : List Action :=
  [.runParent [.range 3 4] 2, .advance 0, .advance 1, .advance 0, .advance 1,
    .advance 1, .advance 0, .advance 0, .advance 0, .advance 0, .advance 0,
    .advance 1, .advance 1, .advance 1, .advance 1, .advance 1]

/-- The state after it. -/
def cleanState : State where
  queue := some [3, 4]
  claims := [(3, 0), (4, 1)]
  encoded := [3, 4]
  processes := [.exited, .exited]
  parent := some ⟨[3, 4], 0, 2⟩

theorem queue_complete_iff_cleanRun :
    runSteps step .initial cleanRun = .ok cleanState ∧
      cleanState.claimed.Nodup ∧ cleanState.Complete := by
  have hlayers : parseLayers [.range 3 4] = .ok [3, 4] := by decide +kernel
  have hrun : runSteps step .initial cleanRun = .ok cleanState := by decide +kernel
  obtain ⟨hnodup, hcomplete, -⟩ := queue_complete_iff hrun
  refine ⟨hrun, hnodup, hcomplete ⟨?_, fun next _ => along_of_startsNone ?_⟩⟩
  · intro layers hparsed layer hlayer
    rw [hlayers] at hparsed
    cases hparsed
    exact .inr ⟨two_pos, hlayer, List.not_mem_nil⟩
  · simp only [List.forall_mem_cons, Action.startsNone, true_and]
    exact fun action hmem => absurd hmem List.not_mem_nil

/-- The worker dies after its claim.  The next invocation finds the layer
claimed. -/
def crashedRun : List Action :=
  [.runParent [.single 3] 1, .advance 0, .advance 0, .crash 0, .wait,
    .runParent [.single 3] 1, .advance 1, .advance 1, .advance 1]

theorem crashedRun_incomplete :
    ∃ state, runSteps step .initial crashedRun = .ok state ∧
      ¬state.Complete := by
  refine ⟨⟨some [3], [(3, 0)], [], [.crashed, .exited], some ⟨[3], 1, 1⟩⟩, rfl,
    ?_⟩
  intro hcomplete
  have hencoded := hcomplete ⟨[3], 1, 1⟩ rfl (by decide) 3
    (List.mem_singleton_self 3)
  exact List.not_mem_nil hencoded

end GlmFlash.Encode
