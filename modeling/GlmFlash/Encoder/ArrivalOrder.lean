import GlmFlash.Encoder.ProcessPool
import Mathlib.Logic.Function.Basic

/-!
# Arrival order of worker results

While a call waits, what it has stored are the answers of the workers it no
longer waits for.  Each answer is stored under experts that no other worker
owns, so the order of the answers leaves no trace.
-/

namespace GlmFlash.Encoder.ProcessPool

open GlmFlash.Library

variable {V : Type}

/-! ## Storing answers -/

/-- The experts of a job are divided among their owners. -/
structure Job.Divided (job : Job) (own : ℤ → ℤ) : Prop where
  nodup : (Dict.keys job.expected).Nodup
  mem_domain : ∀ expert, expert ∈ job.domain ↔
    ∃ part, job.expected.get? (own expert) = some part ∧ expert ∈ part
  owned : ∀ rank part, job.expected.get? rank = some part →
    ∀ expert ∈ part, own expert = rank
  nodup_part : ∀ rank part, job.expected.get? rank = some part → part.Nodup

/-- A worker answers with its own experts. -/
def Job.Fitting (job : Job) (answers : ℤ → List (ℤ × V)) (ranks : List ℤ) : Prop :=
  ∀ rank ∈ ranks, job.expected.get? rank = some ((answers rank).map Prod.fst)

/-- What is stored are the answers of the workers that are not waited for. -/
structure Job.Holds (job : Job) (own : ℤ → ℤ) (answers : ℤ → List (ℤ × V))
    (collected : Collected V) : Prop where
  stored : ∀ expert ∈ job.domain, own expert ∉ collected.waiting →
    collected.received.get? expert = Dict.get? (answers (own expert)) expert
  absent : ∀ expert, expert ∉ job.domain ∨ own expert ∈ collected.waiting →
    collected.received.get? expert = none

/-- The pairs of a job, each answered by the owner of its expert. -/
def Job.pairs (job : Job) (own : ℤ → ℤ) (answers : ℤ → List (ℤ × V)) : List (ℤ × V) :=
  job.domain.filterMap fun expert =>
    (Dict.get? (answers (own expert)) expert).map (expert, ·)

def Job.results (job : Job) (answers : ℤ → List (ℤ × V)) (ranks : List ℤ) :
    List (Message V) :=
  ranks.map fun rank =>
    .result rank job.number job.operation (some (answers rank))

namespace Job

variable {job : Job} {own : ℤ → ℤ} {answers : ℤ → List (ℤ × V)}
variable {collected : Collected V}

/-- Nothing else is accepted. -/
theorem accept_eq_ok {message : Message V} {next : Collected V}
    (haccept : job.accept collected message = .ok next) :
    ∃ rank values, message = .result rank job.number job.operation (some values) ∧
      rank ∈ collected.waiting ∧
      job.expected.get? rank = some (values.map Prod.fst) ∧
      next.waiting = collected.waiting.erase rank := by
  cases message with
  | ready rank => cases haccept
  | fatal rank traceback => cases haccept
  | error rank number operation traceback => cases haccept
  | result rank number operation values =>
      simp only [accept, bind_eq_ok, require_eq_ok] at haccept
      obtain ⟨_, rfl, _, ⟨hrank, rfl⟩, haccept⟩ := haccept
      cases values with
      | none => cases haccept
      | some values =>
          simp only [bind_eq_ok, require_eq_ok, pure_eq_ok] at haccept
          obtain ⟨_, hpart, received, _, rfl⟩ := haccept
          exact ⟨rank, values, rfl, hrank, hpart, rfl⟩

/-- The owner of an expert answers it. -/
theorem Divided.exists_answer (hdivided : job.Divided own)
    (hfitting : job.Fitting answers (Dict.keys job.expected)) {expert : ℤ}
    (hmem : expert ∈ job.domain) :
    ∃ value, Dict.get? (answers (own expert)) expert = some value := by
  obtain ⟨part, hpart, hexpert⟩ := (hdivided.mem_domain expert).mp hmem
  have hfits := hfitting (own expert) (Dict.mem_keys_iff.mpr ⟨part, hpart⟩)
  rw [hpart] at hfits
  apply Dict.mem_keys_iff.mp
  rw [Dict.keys, ← Option.some.inj hfits]
  exact hexpert

theorem Divided.map_fst_pairs (hdivided : job.Divided own)
    (hfitting : job.Fitting answers (Dict.keys job.expected)) :
    (job.pairs own answers).map Prod.fst = job.domain := by
  rw [pairs, List.map_filterMap]
  conv_rhs => rw [← List.filterMap_some (l := job.domain)]
  apply List.filterMap_congr
  intro expert hmem
  obtain ⟨value, hvalue⟩ := hdivided.exists_answer hfitting hmem
  rw [hvalue]
  rfl

theorem mem_pairs {pair : ℤ × V} (hmem : pair ∈ job.pairs own answers) :
    pair.1 ∈ job.domain ∧ pair ∈ answers (own pair.1) := by
  obtain ⟨expert, hexpert, hpair⟩ := List.mem_filterMap.mp hmem
  obtain ⟨value, hvalue, rfl⟩ := Option.map_eq_some_iff.mp hpair
  exact ⟨hexpert, Dict.mem_of_get? hvalue⟩

/-- The messages that a call does not take as an answer, after those before. -/
inductive Bad (job : Job) (before : List (Message V)) : Message V → Prop
  | ready {rank : ℤ} : Bad job before (.ready rank)
  | fatal {rank : ℤ} {traceback : String} : Bad job before (.fatal rank traceback)
  | error {rank number : ℤ} {operation traceback : String} :
      Bad job before (.error rank number operation traceback)
  | otherJob {rank number : ℤ} {operation : String} {values : Option (List (ℤ × V))}
      (hnumber : number ≠ job.number) :
      Bad job before (.result rank number operation values)
  | otherOperation {rank number : ℤ} {operation : String}
      {values : Option (List (ℤ × V))} (hoperation : operation ≠ job.operation) :
      Bad job before (.result rank number operation values)
  | wrongRank {rank number : ℤ} {operation : String} {values : Option (List (ℤ × V))}
      (hrank : rank ∉ Dict.keys job.expected) :
      Bad job before (.result rank number operation values)
  | duplicateRank {rank number number' : ℤ} {operation operation' : String}
      {values values' : Option (List (ℤ × V))}
      (hbefore : Message.result rank number' operation' values' ∈ before) :
      Bad job before (.result rank number operation values)
  | wrongExperts {rank number : ℤ} {operation : String}
      {values : Option (List (ℤ × V))}
      (hexperts : values.map (List.map Prod.fst) ≠ job.expected.get? rank) :
      Bad job before (.result rank number operation values)

theorem Bad.refused {before : List (Message V)} {message : Message V}
    (hbad : job.Bad before message) (hsub : collected.waiting ⊆ Dict.keys job.expected)
    (hread : ∀ rank number operation values,
      Message.result rank number operation values ∈ before →
        rank ∉ collected.waiting) :
    ∃ failure, job.accept collected message = .error failure := by
  cases haccept : job.accept collected message with
  | error failure => exact ⟨failure, rfl⟩
  | ok next =>
      obtain ⟨rank, values, rfl, hrank, hpart, _⟩ := accept_eq_ok haccept
      cases hbad with
      | otherJob hnumber => exact absurd rfl hnumber
      | otherOperation hoperation => exact absurd rfl hoperation
      | wrongRank hwrong => exact absurd (hsub hrank) hwrong
      | duplicateRank hbefore => exact absurd hrank (hread rank _ _ _ hbefore)
      | wrongExperts hexperts => exact absurd hpart.symm hexperts

end Job

end GlmFlash.Encoder.ProcessPool
