import GlmFlash.Encode.LayerQueue

/-!
# Runs of the layer queue

No two workers claim one layer, whatever happens.  When a parent returns 0,
each worker of its has seen every marker of the queue made, but a marker only
says that some worker claimed the layer: one that has died may have made it.
-/

namespace GlmFlash.Encode

open GlmFlash.Library

variable {state next final : State} {pid other : ℕ} {phase before after : Phase}

/-- The layers of the queue file. -/
def State.queued (state : State) : List ℕ := state.queue.getD []

/-! ## Steps of one worker -/

/-- A worker goes from one phase to another. -/
structure Moves (state : State) (pid : ℕ) (before after : Phase)
    (next : State) : Prop where
  stands : state.processes[pid]? = some before
  live : before.ended = false
  processes : next.processes = state.processes.set pid after
  queue : next.queue = state.queue
  parent : next.parent = state.parent

theorem Moves.getElem?_processes (hmoves : Moves state pid before after next) :
    next.processes[other]? =
      if other = pid then some after else state.processes[other]? := by
  obtain ⟨hlt, -⟩ := List.getElem?_eq_some_iff.mp hmoves.stands
  rw [hmoves.processes, List.getElem?_set]
  by_cases hother : pid = other
  · rw [if_pos hother, if_pos hlt, if_pos hother.symm]
  · rw [if_neg hother, if_neg fun heq => hother heq.symm]

/-- What a step of a worker does. -/
inductive WorkerStep (state : State) (pid : ℕ) : State → Prop where
  | poll (layers : List ℕ) (hqueue : state.queue = some layers)
      (hmoves : Moves state pid .polling (.claiming layers)
        (state.setPhase pid (.claiming layers))) :
      WorkerStep state pid (state.setPhase pid (.claiming layers))
  | exhaust (hmoves : Moves state pid (.claiming []) .exited
        (state.setPhase pid .exited)) :
      WorkerStep state pid (state.setPhase pid .exited)
  | pass (layer : ℕ) (rest : List ℕ) (hclaimed : layer ∈ state.claimed)
      (hmoves : Moves state pid (.claiming (layer :: rest)) (.claiming rest)
        (state.setPhase pid (.claiming rest))) :
      WorkerStep state pid (state.setPhase pid (.claiming rest))
  | claim (layer : ℕ) (rest : List ℕ) (hfree : layer ∉ state.claimed)
      (hmoves : Moves state pid (.claiming (layer :: rest)) (.encoding layer)
        { state.setPhase pid (.encoding layer) with
          claims := state.claims ++ [(layer, pid)] }) :
      WorkerStep state pid { state.setPhase pid (.encoding layer) with
        claims := state.claims ++ [(layer, pid)] }
  | finish (layer : ℕ)
      (hmoves : Moves state pid (.encoding layer) .polling
        { state.setPhase pid .polling with
          encoded := state.encoded ++ [layer] }) :
      WorkerStep state pid { state.setPhase pid .polling with
        encoded := state.encoded ++ [layer] }

theorem advance_cases (hstep : advance state pid = .ok next) :
    WorkerStep state pid next := by
  rw [advance] at hstep
  split at hstep
  · rename_i hphase
    split at hstep
    · cases hstep
    · rename_i layers hqueue
      cases hstep
      exact .poll layers hqueue ⟨hphase, rfl, rfl, rfl, rfl⟩
  · rename_i hphase
    cases hstep
    exact .exhaust ⟨hphase, rfl, rfl, rfl, rfl⟩
  · rename_i layer rest hphase
    split at hstep
    · rename_i hclaimed
      cases hstep
      exact .pass layer rest hclaimed ⟨hphase, rfl, rfl, rfl, rfl⟩
    · rename_i hfree
      cases hstep
      exact .claim layer rest hfree ⟨hphase, rfl, rfl, rfl, rfl⟩
  · rename_i layer hphase
    cases hstep
    exact .finish layer ⟨hphase, rfl, rfl, rfl, rfl⟩
  · cases hstep

/-! ## The invariant -/

structure Invariant (state : State) : Prop where
  /-- No layer is claimed twice. -/
  claimed_nodup : state.claimed.Nodup
  queue_isSome : state.processes ≠ [] → state.queue ≠ none
  /-- A worker tries layers of the queue, and has seen the others claimed. -/
  tries : ∀ (pid : ℕ) (rest : List ℕ),
    state.processes[pid]? = some (.claiming rest) →
      (∀ layer ∈ rest, layer ∈ state.queued) ∧
        ∀ layer ∈ state.queued, layer ∈ rest ∨ layer ∈ state.claimed
  exits : ∀ pid : ℕ, state.processes[pid]? = some .exited →
    ∀ layer ∈ state.queued, layer ∈ state.claimed
  /-- A claimed layer is encoded, or being encoded, or its worker died. -/
  pending : ∀ claim ∈ state.claims, claim.1 ∈ state.encoded ∨
    state.processes[claim.2]? = some (.encoding claim.1) ∨
      state.processes[claim.2]? = some .crashed
  /-- The workers of earlier invocations have ended. -/
  earlier : ∀ (pid : ℕ) (phase : Phase), state.processes[pid]? = some phase →
    (∀ invocation ∈ state.parent, pid < invocation.firstWorker) →
      phase.ended = true
  own : ∀ invocation ∈ state.parent,
    invocation.firstWorker + invocation.workers = state.processes.length

theorem invariant_initial : Invariant .initial := by
  refine ⟨List.nodup_nil, fun hne => absurd rfl hne, ?_, ?_, ?_, ?_, ?_⟩
  all_goals simp [State.initial]

/-- A step of one worker keeps the invariant when what it says about the
phase it enters and about new claims holds. -/
theorem Invariant.move (hinvariant : Invariant state)
    (hmoves : Moves state pid before after next)
    (hnodup : next.claimed.Nodup)
    (hgrows : ∀ claim ∈ state.claims, claim ∈ next.claims)
    (hencoded : ∀ layer ∈ state.encoded, layer ∈ next.encoded)
    (hnew : ∀ claim ∈ next.claims, claim ∈ state.claims ∨
      claim.2 = pid ∧ after = .encoding claim.1)
    (hold : ∀ layer, before = .encoding layer →
      layer ∈ next.encoded ∨ after = .crashed)
    (htries : ∀ rest, after = .claiming rest →
      (∀ layer ∈ rest, layer ∈ state.queued) ∧
        ∀ layer ∈ state.queued, layer ∈ rest ∨ layer ∈ next.claimed)
    (hexits : after = .exited → ∀ layer ∈ state.queued, layer ∈ next.claimed) :
    Invariant next := by
  have hqueued : next.queued = state.queued := by
    rw [State.queued, hmoves.queue, State.queued]
  have hclaimed : ∀ layer ∈ state.claimed, layer ∈ next.claimed := by
    intro layer hmem
    obtain ⟨claim, hclaim, rfl⟩ := List.mem_map.mp hmem
    exact List.mem_map_of_mem (hgrows claim hclaim)
  refine ⟨hnodup, ?_, ?_, ?_, ?_, ?_, ?_⟩
  · intro _
    rw [hmoves.queue]
    apply hinvariant.queue_isSome
    intro hempty
    have hstands := hmoves.stands
    rw [hempty] at hstands
    cases hstands
  · intro other rest hother
    rw [hqueued]
    rw [hmoves.getElem?_processes] at hother
    split at hother
    · exact htries rest (Option.some.inj hother)
    · obtain ⟨hsub, hseen⟩ := hinvariant.tries other rest hother
      exact ⟨hsub, fun layer hmem =>
        (hseen layer hmem).imp_right (hclaimed layer)⟩
  · intro other hother
    rw [hqueued]
    rw [hmoves.getElem?_processes] at hother
    split at hother
    · exact hexits (Option.some.inj hother)
    · exact fun layer hmem =>
        hclaimed layer (hinvariant.exits other hother layer hmem)
  · intro claim hclaim
    rw [hmoves.getElem?_processes]
    rcases hnew claim hclaim with hbefore | ⟨hpid, hafter⟩
    · rcases hinvariant.pending claim hbefore with hdone | hrunning | hdead
      · exact .inl (hencoded _ hdone)
      · by_cases hsame : claim.2 = pid
        · rw [if_pos hsame]
          rw [hsame, hmoves.stands] at hrunning
          exact (hold claim.1 (Option.some.inj hrunning)).imp_right
            fun hcrashed => .inr (congrArg some hcrashed)
        · rw [if_neg hsame]
          exact .inr (.inl hrunning)
      · by_cases hsame : claim.2 = pid
        · rw [hsame, hmoves.stands] at hdead
          have hlive := hmoves.live
          rw [Option.some.inj hdead] at hlive
          cases hlive
        · rw [if_neg hsame]
          exact .inr (.inr hdead)
    · rw [if_pos hpid]
      exact .inr (.inl (congrArg some hafter))
  · intro other phase hother hearlier
    rw [hmoves.getElem?_processes] at hother
    rw [hmoves.parent] at hearlier
    split at hother
    · rename_i hsame
      subst hsame
      -- The worker that moves is not one of an earlier invocation.
      have hended := hinvariant.earlier other before hmoves.stands hearlier
      rw [hmoves.live] at hended
      cases hended
    · exact hinvariant.earlier other phase hother hearlier
  · intro invocation hparent
    rw [hmoves.parent] at hparent
    rw [hmoves.processes, List.length_set]
    exact hinvariant.own invocation hparent

theorem Invariant.advance (hinvariant : Invariant state)
    (hstep : advance state pid = .ok next) : Invariant next := by
  cases advance_cases hstep with
  | poll layers hqueue hmoves =>
      refine hinvariant.move hmoves hinvariant.claimed_nodup (fun _ => id)
        (fun _ => id) (fun _ => .inl) (by rintro _ ⟨⟩) ?_
        (by rintro ⟨⟩)
      intro rest heq
      cases heq
      have hqueued : state.queued = layers := by
        rw [State.queued, hqueue, Option.getD_some]
      rw [hqueued]
      exact ⟨fun _ => id, fun _ => .inl⟩
  | exhaust hmoves =>
      refine hinvariant.move hmoves hinvariant.claimed_nodup (fun _ => id)
        (fun _ => id) (fun _ => .inl) (by rintro _ ⟨⟩)
        (by rintro _ ⟨⟩) ?_
      intro _ layer hmem
      exact ((hinvariant.tries pid [] hmoves.stands).2 layer hmem).resolve_left
        List.not_mem_nil
  | pass layer rest hclaimed hmoves =>
      refine hinvariant.move hmoves hinvariant.claimed_nodup (fun _ => id)
        (fun _ => id) (fun _ => .inl) (by rintro _ ⟨⟩) ?_
        (by rintro ⟨⟩)
      intro rest' heq
      cases heq
      obtain ⟨hsub, hseen⟩ := hinvariant.tries pid _ hmoves.stands
      refine ⟨fun other hmem => hsub other (List.mem_cons_of_mem layer hmem), ?_⟩
      intro other hmem
      rcases hseen other hmem with hrest | hother
      · rcases List.mem_cons.mp hrest with rfl | hrest
        · exact .inr hclaimed
        · exact .inl hrest
      · exact .inr hother
  | claim layer rest hfree hmoves =>
      refine hinvariant.move hmoves ?_ (fun _ => List.mem_append_left _)
        (fun _ => id) ?_ (by rintro _ ⟨⟩) (by rintro _ ⟨⟩)
        (by rintro ⟨⟩)
      · rw [State.claimed, List.map_append]
        exact List.nodup_append.mpr ⟨hinvariant.claimed_nodup,
          List.nodup_singleton _, fun first hfirst second hsecond heq => by
            rw [List.map_singleton, List.mem_singleton] at hsecond
            rw [heq, hsecond] at hfirst
            exact hfree hfirst⟩
      · intro claim hclaim
        rcases List.mem_append.mp hclaim with hbefore | hlast
        · exact .inl hbefore
        · rw [List.mem_singleton.mp hlast]
          exact .inr ⟨rfl, rfl⟩
  | finish layer hmoves =>
      refine hinvariant.move hmoves hinvariant.claimed_nodup (fun _ => id)
        (fun _ => List.mem_append_left _) (fun _ => .inl) ?_
        (by rintro _ ⟨⟩) (by rintro ⟨⟩)
      intro other heq
      cases heq
      exact .inl (List.mem_append_right _ (List.mem_singleton_self _))

/-! ## Every step -/

theorem crash_moves (hstep : step state (.crash pid) = .ok next) :
    ∃ before, Moves state pid before .crashed next ∧
      next.claims = state.claims ∧ next.encoded = state.encoded := by
  simp only [step, bind_eq_ok, require_eq_ok, pure_eq_ok] at hstep
  obtain ⟨-, ⟨before, hbefore, hlive⟩, rfl⟩ := hstep
  exact ⟨before, ⟨hbefore, hlive, rfl, rfl, rfl⟩, rfl, rfl⟩

theorem Invariant.crash (hinvariant : Invariant state)
    (hstep : step state (.crash pid) = .ok next) : Invariant next := by
  obtain ⟨before, hmoves, hclaims, hencoded⟩ := crash_moves hstep
  have hclaimed : next.claimed = state.claimed := by
    rw [State.claimed, hclaims, State.claimed]
  refine hinvariant.move hmoves (hclaimed ▸ hinvariant.claimed_nodup) ?_ ?_ ?_
    (fun _ _ => .inr rfl) (by rintro _ ⟨⟩) (by rintro ⟨⟩)
  · rw [hclaims]
    exact fun _ => id
  · rw [hencoded]
    exact fun _ => id
  · rw [hclaims]
    exact fun _ => .inl

/-- All workers have ended when those of the invocation have. -/
theorem Invariant.all_ended (hinvariant : Invariant state)
    {invocation : Invocation} (hparent : state.parent = some invocation)
    (hended : ∀ pid ∈ invocation.pids,
      ∃ phase ∈ state.processes[pid]?, phase.ended = true)
    (hphase : state.processes[pid]? = some phase) : phase.ended = true := by
  by_cases hearlier : pid < invocation.firstWorker
  · apply hinvariant.earlier pid phase hphase
    intro other hother
    rw [hparent, Option.mem_some_iff] at hother
    exact hother ▸ hearlier
  · obtain ⟨hlt, -⟩ := List.getElem?_eq_some_iff.mp hphase
    have hown := hinvariant.own invocation hparent
    have hmem : pid ∈ invocation.pids := by
      rw [Invocation.pids, List.mem_range'_1]
      exact ⟨not_lt.mp hearlier, hown ▸ hlt⟩
    obtain ⟨found, hfound, hfoundEnded⟩ := hended pid hmem
    rw [hphase, Option.mem_some_iff] at hfound
    exact hfound ▸ hfoundEnded

theorem Invariant.wait (hinvariant : Invariant state)
    (hstep : step state .wait = .ok next) : Invariant next := by
  simp only [step, bind_eq_ok, require_eq_ok, pure_eq_ok] at hstep
  obtain ⟨-, ⟨invocation, hparent, hended⟩, rfl⟩ := hstep
  refine ⟨hinvariant.claimed_nodup, hinvariant.queue_isSome, hinvariant.tries,
    hinvariant.exits, hinvariant.pending, ?_, by rintro _ ⟨⟩⟩
  intro pid phase hphase _
  exact hinvariant.all_ended hparent hended hphase

theorem Invariant.interrupt (hinvariant : Invariant state)
    (hstep : step state .interrupt = .ok next) : Invariant next := by
  simp only [step, bind_eq_ok, require_eq_ok, pure_eq_ok] at hstep
  obtain ⟨-, -, rfl⟩ := hstep
  -- A phase afterwards is an ended one from before, or the crash.
  have hphases : ∀ (pid : ℕ) (phase : Phase),
      (state.processes.map fun phase =>
        if phase.ended then phase else .crashed)[pid]? = some phase →
      phase.ended = true ∧
        (phase = .crashed ∨ state.processes[pid]? = some phase) := by
    intro pid phase hphase
    rw [List.getElem?_map, Option.map_eq_some_iff] at hphase
    obtain ⟨before, hbefore, heq⟩ := hphase
    split at heq
    · rename_i hended
      subst heq
      exact ⟨hended, .inr hbefore⟩
    · subst heq
      exact ⟨rfl, .inl rfl⟩
  refine ⟨hinvariant.claimed_nodup, ?_, ?_, ?_, ?_, ?_,
    by rintro _ ⟨⟩⟩
  · intro hne
    exact hinvariant.queue_isSome fun hempty => hne (by rw [hempty]; rfl)
  · intro pid rest hphase
    cases (hphases pid _ hphase).1
  · intro pid hphase
    rcases (hphases pid _ hphase).2 with hcrashed | hbefore
    · cases hcrashed
    · exact hinvariant.exits pid hbefore
  · intro claim hclaim
    rcases hinvariant.pending claim hclaim with hdone | hrunning | hdead
    · exact .inl hdone
    · refine .inr (.inr ?_)
      rw [List.getElem?_map, hrunning]
      rfl
    · refine .inr (.inr ?_)
      rw [List.getElem?_map, hdead]
      rfl
  · intro pid phase hphase _
    exact (hphases pid phase hphase).1

theorem runParent_eq_ok {spec : List LayerPart} {workers : ℤ}
    (hstep : runParent state spec workers = .ok next) :
    ∃ layers, parseLayers spec = .ok layers ∧ state.parent = none ∧
      next = { state with
        queue := some (state.queue.getD layers)
        processes := state.processes ++ List.replicate workers.toNat .polling
        parent := some ⟨layers, state.processes.length, workers.toNat⟩ } := by
  simp only [runParent, bind_eq_ok, require_eq_ok, pure_eq_ok] at hstep
  obtain ⟨-, hparent, layers, hlayers, rfl⟩ := hstep
  exact ⟨layers, hlayers, hparent, rfl⟩

/-- A process of the state that an invocation starts from, or a new one. -/
theorem getElem?_append_polling {workers : ℕ}
    (hphase : (state.processes ++ List.replicate workers .polling)[pid]? =
      some phase) :
    state.processes[pid]? = some phase ∨
      state.processes.length ≤ pid ∧ phase = .polling := by
  by_cases hlt : pid < state.processes.length
  · rw [List.getElem?_append_left hlt] at hphase
    exact .inl hphase
  · rw [List.getElem?_append_right (not_lt.mp hlt), List.getElem?_replicate]
      at hphase
    split at hphase
    · exact .inr ⟨not_lt.mp hlt, (Option.some.inj hphase).symm⟩
    · cases hphase

theorem Invariant.runParent (hinvariant : Invariant state)
    {spec : List LayerPart} {workers : ℤ}
    (hstep : runParent state spec workers = .ok next) : Invariant next := by
  obtain ⟨layers, -, hparent, rfl⟩ := runParent_eq_ok hstep
  -- The queue file is kept when a process could have read it.
  have hqueued : ∀ (pid : ℕ) (phase : Phase),
      state.processes[pid]? = some phase →
        state.queue.getD layers = state.queued := by
    intro pid phase hphase
    have hsome : state.queue ≠ none := by
      apply hinvariant.queue_isSome
      intro hempty
      rw [hempty] at hphase
      cases hphase
    cases hqueue : state.queue with
    | none => exact absurd hqueue hsome
    | some queue => rw [State.queued, hqueue, Option.getD_some, Option.getD_some]
  refine ⟨hinvariant.claimed_nodup, (by rintro _ ⟨⟩), ?_, ?_, ?_,
    ?_, ?_⟩
  · intro pid rest hphase
    rcases getElem?_append_polling hphase with hbefore | ⟨-, hnew⟩
    · have hkept := hqueued pid _ hbefore
      rw [State.queued, Option.getD_some, hkept]
      exact hinvariant.tries pid rest hbefore
    · cases hnew
  · intro pid hphase
    rcases getElem?_append_polling hphase with hbefore | ⟨-, hnew⟩
    · have hkept := hqueued pid _ hbefore
      rw [State.queued, Option.getD_some, hkept]
      exact hinvariant.exits pid hbefore
    · cases hnew
  · have hkeep : ∀ (pid : ℕ) (phase : Phase),
        state.processes[pid]? = some phase →
          (state.processes ++ List.replicate workers.toNat .polling)[pid]? =
            some phase := by
      intro pid phase hphase
      obtain ⟨hlt, -⟩ := List.getElem?_eq_some_iff.mp hphase
      rw [List.getElem?_append_left hlt, hphase]
    intro claim hclaim
    exact (hinvariant.pending claim hclaim).imp_right
      (Or.imp (hkeep _ _) (hkeep _ _))
  · intro pid phase hphase hearlier
    rcases getElem?_append_polling hphase with hbefore | ⟨hle, -⟩
    · apply hinvariant.earlier pid phase hbefore
      intro invocation hnone
      rw [hparent] at hnone
      cases hnone
    · exact absurd (hearlier _ rfl) (not_lt.mpr hle)
  · intro invocation hsome
    cases hsome
    rw [List.length_append, List.length_replicate]

theorem step_invariant {action : Action} (hinvariant : Invariant state)
    (hstep : step state action = .ok next) : Invariant next := by
  cases action with
  | runParent spec workers => exact hinvariant.runParent hstep
  | advance pid => exact hinvariant.advance hstep
  | crash pid => exact hinvariant.crash hstep
  | wait => exact hinvariant.wait hstep
  | interrupt => exact hinvariant.interrupt hstep

/-- Every state of every run satisfies the invariant. -/
theorem reachable_invariant {actions : List Action}
    (hrun : runSteps step .initial actions = .ok final) : Invariant final :=
  runSteps_invariant (fun _ _ _ hstep hinvariant =>
    step_invariant hinvariant hstep) hrun invariant_initial

end GlmFlash.Encode
