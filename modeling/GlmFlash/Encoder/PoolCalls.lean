import GlmFlash.Encoder.ArrivalOrder
import Mathlib.Data.Int.Order.Basic

/-!
# Calls of the process pool

A call divides its experts among their owners and gathers the answers of real
workers.  What it returns does not depend on the order in which they arrive.
A message that no worker owes it closes the pool for good.
-/

namespace GlmFlash.Encoder.ProcessPool

open GlmFlash.Library

variable {S P V : Type}

/-! ## The parts of a call -/

/-- The experts and the assignment domain are sets, and the domain has all experts. -/
structure Call.Assigned (call : Call P) : Prop where
  nodup : call.experts.Nodup
  domain_nodup : ∀ assignment, call.payload.assignmentDomain = some assignment →
    assignment.Nodup
  mem_domain : ∀ assignment, call.payload.assignmentDomain = some assignment →
    ∀ expert ∈ call.experts, expert ∈ assignment

def Call.sorted (call : Call P) : List ℤ :=
  call.experts.insertionSort fun left right => left ≤ right

theorem Call.mem_sorted {call : Call P} {expert : ℤ} :
    expert ∈ call.sorted ↔ expert ∈ call.experts :=
  (List.perm_insertionSort _ _).mem_iff

theorem Call.Assigned.nodup_sorted {call : Call P} (hassigned : call.Assigned) :
    call.sorted.Nodup :=
  (List.perm_insertionSort _ _).nodup_iff.mpr hassigned.nodup

theorem Call.sort_sorted (call : Call P) :
    call.sorted.insertionSort (fun left right => left ≤ right) = call.sorted := by
  apply List.Pairwise.insertionSort_eq
  exact List.pairwise_insertionSort _ _

namespace Pool

variable (pool : Pool) (call : Call P)

/-- The worker that owns an expert in a call. -/
def own (expert : ℤ) : ℤ := owner pool.workers call.payload.assignmentDomain expert

def partition (rank : ℕ) : List ℤ :=
  call.sorted.filter fun expert =>
    owner pool.workers call.payload.assignmentDomain expert = rank

/-- The job of a call whose experts are divided. -/
def jobOf : Job where
  number := pool.job + 1
  operation := call.operation
  domain := call.sorted
  expected := expectedOf ((List.range pool.workers).map (pool.partition call))

theorem start_eq (hassigned : call.Assigned) :
    pool.start call = .ok (pool.jobOf call) := by
  have hpositive : 1 ≤ pool.workers := Nat.le_of_succ_le pool.two_le
  have hparts : stableExpertPartitions call.sorted pool.workers
      call.payload.assignmentDomain =
        .ok ((List.range pool.workers).map (pool.partition call)) := by
    rw [stableExpertPartitions, call.sort_sorted, require, if_pos hpositive]
    change (require _ _ >>= fun _ => _) = _
    rw [require, if_pos hassigned.nodup_sorted]
    have hpartition : (List.range pool.workers).map (pool.partition call) =
        (List.range pool.workers).map fun rank => call.sorted.filter fun expert =>
          owner pool.workers call.payload.assignmentDomain expert = rank := rfl
    rw [hpartition]
    cases hdomain : call.payload.assignmentDomain with
    | none => rfl
    | some assignment =>
        have hmem : ∀ expert ∈ call.sorted, expert ∈ assignment := fun expert hexpert =>
          hassigned.mem_domain assignment hdomain expert (Call.mem_sorted.mp hexpert)
        change (require _ _ >>= fun _ => require _ _ >>= fun _ => _) = _
        rw [require, if_pos (hassigned.domain_nodup assignment hdomain)]
        change (require _ _ >>= fun _ => _) = _
        rw [require, if_pos hmem]
        rfl
  change (stableExpertPartitions call.sorted pool.workers
    call.payload.assignmentDomain >>= fun _ => _) = _
  rw [hparts]
  rfl

theorem mem_expectedOf {partitions : List (List ℤ)} {rank : ℤ} {part : List ℤ} :
    (rank, part) ∈ expectedOf partitions ↔
      ∃ index : ℕ, rank = index ∧ partitions[index]? = some part ∧ part ≠ [] := by
  rw [expectedOf, List.mem_map]
  constructor
  · rintro ⟨entry, hentry, heq⟩
    obtain ⟨hmem, hne⟩ := List.mem_filter.mp hentry
    cases heq
    exact ⟨entry.2, rfl, List.mem_zipIdx_iff_getElem?.mp hmem, of_decide_eq_true hne⟩
  · rintro ⟨index, rfl, hget, hne⟩
    refine ⟨(part, index), List.mem_filter.mpr ⟨?_, decide_eq_true hne⟩, rfl⟩
    exact List.mem_zipIdx_iff_getElem?.mpr hget

theorem nodup_expectedOf (partitions : List (List ℤ)) :
    (Dict.keys (expectedOf partitions)).Nodup := by
  have hindexes : (partitions.zipIdx.map Prod.snd).Nodup := by
    rw [List.zipIdx_map_snd]
    exact List.nodup_range'
  have hkeys : Dict.keys (expectedOf partitions) =
      ((partitions.zipIdx.filter fun entry => entry.1 ≠ []).map Prod.snd).map
        ((↑) : ℕ → ℤ) := by
    rw [Dict.keys, expectedOf, List.map_map, List.map_map]
    rfl
  rw [hkeys]
  apply List.Nodup.map Nat.cast_injective
  exact hindexes.sublist (List.filter_sublist.map Prod.snd)

/-- The part of a worker: the experts that it owns, if there are any. -/
theorem get?_expected {rank : ℤ} {part : List ℤ} :
    (pool.jobOf call).expected.get? rank = some part ↔
      ∃ index < pool.workers, rank = (index : ℕ) ∧ pool.partition call index = part ∧
        part ≠ [] := by
  have hmem : (pool.jobOf call).expected.get? rank = some part ↔
      (rank, part) ∈ (pool.jobOf call).expected :=
    ⟨Dict.mem_of_get?, Dict.get?_of_mem (nodup_expectedOf _)⟩
  rw [hmem]
  change (rank, part) ∈ expectedOf _ ↔ _
  rw [mem_expectedOf]
  constructor
  · rintro ⟨index, hrank, hget, hne⟩
    rw [List.getElem?_map, Option.map_eq_some_iff] at hget
    obtain ⟨index', hindex, hpart⟩ := hget
    obtain ⟨hlt, hindex'⟩ := List.getElem?_eq_some_iff.mp hindex
    rw [List.length_range] at hlt
    rw [List.getElem_range] at hindex'
    exact ⟨index, hlt, hrank, hindex' ▸ hpart, hne⟩
  · rintro ⟨index, hlt, hrank, hpart, hne⟩
    refine ⟨index, hrank, ?_, hne⟩
    rw [List.getElem?_map, List.getElem?_range hlt, ← hpart]
    rfl

theorem owner_lt (expert : ℤ) :
    owner pool.workers call.payload.assignmentDomain expert < pool.workers := by
  have hpositive : 0 < pool.workers := Nat.zero_lt_of_lt pool.two_le
  unfold owner
  split
  · have hlt := Int.emod_lt_of_pos expert (Int.natCast_pos.mpr hpositive)
    have hnonneg := Int.emod_nonneg expert (Int.natCast_pos.mpr hpositive).ne'
    omega
  · exact Nat.mod_lt _ hpositive

theorem divided (hassigned : call.Assigned) :
    (pool.jobOf call).Divided (pool.own call) where
  nodup := nodup_expectedOf _
  mem_domain := by
    intro expert
    constructor
    · intro hmem
      have hpart : expert ∈ pool.partition call
          (owner pool.workers call.payload.assignmentDomain expert) :=
        List.mem_filter.mpr ⟨hmem, decide_eq_true rfl⟩
      refine ⟨_, (pool.get?_expected call).mpr
        ⟨_, pool.owner_lt call expert, rfl, rfl, ?_⟩, hpart⟩
      exact List.ne_nil_of_mem hpart
    · rintro ⟨part, hpart, hmem⟩
      obtain ⟨index, _, _, rfl, _⟩ := (pool.get?_expected call).mp hpart
      exact (List.mem_filter.mp hmem).1
  owned := by
    intro rank part hpart expert hmem
    obtain ⟨index, _, rfl, rfl, _⟩ := (pool.get?_expected call).mp hpart
    have howner := of_decide_eq_true (List.mem_filter.mp hmem).2
    exact congrArg _ howner
  nodup_part := by
    intro rank part hpart
    obtain ⟨index, _, _, rfl, _⟩ := (pool.get?_expected call).mp hpart
    exact hassigned.nodup_sorted.filter _

variable {pool call}

end Pool

/-! ## Workers -/

namespace Service

variable (service : Service S P V)

theorem map_fst_values {operation : String} {payload : Payload P} {state next : S}
    {experts : List ℤ} {values : List (ℤ × V)}
    (hvalues : service.values operation payload state experts = .ok (next, values)) :
    values.map Prod.fst = experts := by
  induction experts generalizing state next values with
  | nil =>
      cases hvalues
      rfl
  | cons expert experts ih =>
      simp only [Service.values, bind_eq_ok, pure_eq_ok] at hvalues
      obtain ⟨⟨middle, value⟩, _, ⟨last, rest⟩, hrest, heq⟩ := hvalues
      cases heq
      rw [List.map_cons, ih hrest]

/-- The values of a task, none where it fails. -/
def valuesOf (fleet : ℤ → S) (call : Call P) (rank : ℤ) (part : List ℤ) :
    List (ℤ × V) :=
  match service.values call.operation call.payload (fleet rank) part with
  | .ok (_, values) => values
  | .error _ => []

/-- The answers of the workers of a pool. -/
def answers (fleet : ℤ → S) (pool : Pool) (call : Call P) (rank : ℤ) : List (ℤ × V) :=
  service.valuesOf fleet call rank (((pool.jobOf call).expected.get? rank).getD [])

/-- Every worker computes its task. -/
def Computes (fleet : ℤ → S) (pool : Pool) (call : Call P) : Prop :=
  ∀ task ∈ call.tasks (pool.jobOf call), ∃ state values,
    service.values task.operation task.payload (fleet task.rank) task.experts =
      .ok (state, values)

variable {service} {fleet : ℤ → S} {pool : Pool} {call : Call P}

theorem Computes.answers_eq (hcomputes : service.Computes fleet pool call) {rank : ℤ}
    {part : List ℤ} (hpart : (pool.jobOf call).expected.get? rank = some part) :
    ∃ state, service.values call.operation call.payload (fleet rank) part =
      .ok (state, service.answers fleet pool call rank) := by
  obtain ⟨state, values, hvalues⟩ :=
    hcomputes _ (List.mem_map_of_mem (Dict.mem_of_get? hpart))
  refine ⟨state, ?_⟩
  change service.values call.operation call.payload (fleet rank) part = _ at hvalues
  rw [answers, hpart, Option.getD_some, valuesOf, hvalues]

theorem Computes.fitting (hcomputes : service.Computes fleet pool call) :
    (pool.jobOf call).Fitting (service.answers fleet pool call)
      (Dict.keys (pool.jobOf call).expected) := by
  intro rank hrank
  obtain ⟨part, hpart⟩ := Dict.mem_keys_iff.mp hrank
  obtain ⟨state, hvalues⟩ := hcomputes.answers_eq hpart
  rw [hpart, service.map_fst_values hvalues]

end Service

/-! ## Any order of arrival -/

/-- The pairs that a call returns: its experts in order, each with the value that
its owner computes for it. -/
structure Served (service : Service S P V) (fleet : ℤ → S) (pool : Pool)
    (call : Call P) (pairs : List (ℤ × V)) : Prop where
  experts : pairs.map Prod.fst = call.sorted
  computed : ∀ pair ∈ pairs, ∃ task ∈ call.tasks (pool.jobOf call),
    task.rank = pool.own call pair.1 ∧ ∃ state values,
      service.values task.operation task.payload (fleet task.rank) task.experts =
        .ok (state, values) ∧ pair ∈ values

theorem Service.Computes.served {service : Service S P V} {fleet : ℤ → S} {pool : Pool}
    {call : Call P} (hcomputes : service.Computes fleet pool call)
    (hassigned : call.Assigned) :
    Served service fleet pool call ((pool.jobOf call).pairs (pool.own call)
      (service.answers fleet pool call)) := by
  have hdivided := pool.divided call hassigned
  refine ⟨hdivided.map_fst_pairs hcomputes.fitting, ?_⟩
  intro pair hpair
  obtain ⟨hmem, hanswer⟩ := Job.mem_pairs hpair
  obtain ⟨part, hpart, _⟩ := (hdivided.mem_domain pair.1).mp hmem
  obtain ⟨state, hvalues⟩ := hcomputes.answers_eq hpart
  exact ⟨_, List.mem_map_of_mem (Dict.mem_of_get? hpart), rfl, state, _, hvalues, hanswer⟩

end GlmFlash.Encoder.ProcessPool
