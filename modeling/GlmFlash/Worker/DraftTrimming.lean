import GlmFlash.Worker.DraftRows

/-!
# Optimal draft trimming

The budget of a batch is chosen over all prefixes of its drafts: for a given
number of drafts the largest survivals are the best prefixes, and the budget
is the best number.  The device spends the same budget on the largest current
survivals, which are again the best prefixes.
-/

namespace GlmFlash.Worker.AdaptiveVerification

open GlmFlash.Library

/-! ## Best prefixes -/

/-- The drafts with the largest total survival, of all prefixes with the same
number of drafts. -/
structure Best (rows : List (List ℚ)) (capacities : List ℕ) (total : ℕ)
    (counts : List ℕ) : Prop where
  within : Within counts capacities
  sum : counts.sum = total
  le : ∀ other, Within other capacities → other.sum = total →
    prefixValue rows other ≤ prefixValue rows counts

theorem best_capacities (rows : List (List ℚ)) (capacities : List ℕ) :
    Best rows capacities capacities.sum capacities := by
  refine ⟨List.forall₂_same.mpr fun _ _ => le_rfl, rfl, ?_⟩
  intro other hwithin hsum
  rw [hwithin.eq_of_sum_eq hsum]

theorem within_zero (counts : List ℕ) :
    Within (List.replicate counts.length 0) counts := by
  induction counts with
  | nil => exact .nil
  | cons count counts ih => exact .cons (Nat.zero_le count) ih

theorem best_zero (rows : List (List ℚ)) (capacities : List ℕ) :
    Best rows capacities 0 (List.replicate capacities.length 0) := by
  have hzero : (List.replicate capacities.length 0).sum = 0 := by simp
  refine ⟨within_zero capacities, hzero, ?_⟩
  intro other hwithin hsum
  have hbelow : Within (List.replicate capacities.length 0) other := by
    rw [← hwithin.length_eq]
    exact within_zero other
  rw [hbelow.eq_of_sum_eq (hzero.trans hsum.symm)]

/-- A search for the largest values, among at least as many. -/
def FindsTopk (topk : List (WithBot ℚ) → ℕ → List ℕ) : Prop :=
  ∀ values count, count ≤ values.length → IsTopk values count (topk values count)

theorem sum_le_length_flatten {rows : List (List ℚ)} {capacities : List ℕ}
    (hfits : Fits rows capacities) :
    capacities.sum ≤ (List.zipWith maskedRow rows capacities).flatten.length := by
  induction hfits with
  | nil => exact le_rfl
  | cons hcapacity _ ih =>
      rw [List.sum_cons, List.zipWith_cons_cons, List.flatten_cons, List.length_append,
        maskedRow, List.length_map, List.length_zipIdx]
      exact Nat.add_le_add hcapacity ih

/-- The device admits the best prefixes. -/
theorem best_assignDraftTokenBudget {topk : List (WithBot ℚ) → ℕ → List ℕ}
    (htopk : FindsTopk topk) {numSteps : ℕ} (confidences : Confidences numSteps)
    {slots capacities : List ℕ} {draftBudget : ℕ}
    (hfits : Fits (slots.map fun slot => cumprod (confidences.row slot)) capacities)
    (hbudget : draftBudget ≤ capacities.sum) :
    Best (slots.map fun slot => cumprod (confidences.row slot)) capacities draftBudget
      (assignDraftTokenBudget topk confidences.row slots capacities draftBudget
        numSteps) := by
  let rows := slots.map fun slot => cumprod (confidences.row slot)
  let masked := List.zipWith maskedRow rows capacities
  let admitted := pickCounts
    (fun index => decide (index ∈ topk masked.flatten draftBudget)) masked
  have hmasked : ∀ row ∈ masked, row.length = numSteps ∧ row.Pairwise (· ≥ ·) := by
    intro row hmem
    obtain ⟨req, hreq, rfl⟩ := List.mem_iff_getElem.mp hmem
    rw [List.getElem_zipWith, List.getElem_map]
    constructor
    · rw [maskedRow, List.length_map, List.length_zipIdx, cumprod, length_accumulate,
        confidences.length_row]
    · exact pairwise_maskedRow (pairwise_cumprod (confidences.mem_row _)) _
  have hassign : assignDraftTokenBudget topk confidences.row slots capacities
      draftBudget numSteps = admitted :=
    map_count_eq_pickCounts (fun row hmem => (hmasked row hmem).1) _
  have hwinners := htopk masked.flatten draftBudget
    (hbudget.trans (sum_le_length_flatten hfits))
  obtain ⟨hsum, hvalue⟩ := hwinners.best fun row hmem => (hmasked row hmem).2
  have hlargest (other : List ℕ) (hother : Within other capacities)
      (hothers : other.sum = draftBudget) :
      ((prefixValue rows other : ℚ) : WithBot ℚ) ≤ prefixValue masked admitted := by
    have hbounded : Bounded masked other := by
      apply bounded_masked hfits
      exact hother
    rw [← prefixValue_masked hfits hother, hvalue, ← hothers]
    exact prefixValue_le_largestSum hbounded
  have hwithin : Within admitted capacities := by
    obtain ⟨other, hother, hothers⟩ := exists_within hbudget
    apply within_of_prefixValue_ne_bot hfits (bounded_pickCounts _ masked)
    intro hbot
    have hle := hlargest other hother hothers
    rw [hbot, le_bot_iff] at hle
    exact WithBot.coe_ne_bot hle
  rw [hassign]
  refine ⟨hwithin, hsum, ?_⟩
  intro other hother hothers
  have hle := hlargest other hother hothers
  rw [prefixValue_masked hfits hwithin] at hle
  exact WithBot.coe_le_coe.mp hle

/-! ## The budget of a batch -/

section Batches

variable {R : Type} [DecidableEq R]

/-- A batch whose drafts are trimmed, and cost tables that reach its sizes. -/
structure Batch (manager : Manager R) where
  numTokensPerReq : Dict R ℕ
  draftTokens : Dict R (List ℤ)
  draftCostMs : List ℚ
  verifyCostMs : List ℚ
  nodup : (Dict.keys numTokensPerReq).Nodup
  drafts_le_steps : ∀ reqId ∈ Dict.keys numTokensPerReq,
    numDrafts draftTokens reqId ≤ manager.numSpeculativeSteps
  drafts_le_tokens : ∀ item ∈ numTokensPerReq, numDrafts draftTokens item.1 ≤ item.2
  costTables : manager.costTables = some (draftCostMs, verifyCostMs)
  cost_pos : ∀ cost ∈ draftCostMs ++ verifyCostMs, 0 < cost
  reqs_lt : (Dict.keys numTokensPerReq).length < draftCostMs.length
  tokens_lt : (numTokensPerReq.map Prod.snd).sum < verifyCostMs.length
  logits_le : (Dict.keys numTokensPerReq).length * manager.numBonusTokens ≤
    manager.maxTotalLogits

namespace Batch

variable {manager : Manager R} (batch : Batch manager)

def reqIds : List R := Dict.keys batch.numTokensPerReq

def drafts (reqId : R) : ℕ := numDrafts batch.draftTokens reqId

def tokens (reqId : R) : ℕ := (batch.numTokensPerReq.get? reqId).getD 0

def nonDrafts (reqId : R) : ℕ := batch.tokens reqId - batch.drafts reqId

/-- The survivals of a request's draft slots, by the given confidences. -/
def survival (confidences : Confidences manager.numSpeculativeSteps) (reqId : R) :
    List ℚ :=
  cumprod (confidences.row (manager.reqStates.reqIdToIndex reqId))

/-- The requests whose last scheduled token is sampled from. -/
def numSampling : ℕ :=
  batch.reqIds.countP fun reqId =>
    manager.reqStates.prefillLen (manager.reqStates.reqIdToIndex reqId) ≤
      manager.reqStates.numComputedTokens (manager.reqStates.reqIdToIndex reqId) +
        batch.nonDrafts reqId

def numNonDrafts : ℕ := (batch.reqIds.map batch.nonDrafts).sum

/-- The cost of a batch with a number of drafts. -/
def cost (drafts : ℕ) : ℚ :=
  batch.draftCostMs.getD batch.reqIds.length 0 +
    batch.verifyCostMs.getD (batch.numNonDrafts + drafts) 0

/-- Expected accepted tokens per cost, when each request verifies a prefix of its
drafts. -/
def acceptedPerCost (counts : List ℕ) : ℚ :=
  (batch.numSampling +
      prefixValue (batch.reqIds.map (survival manager.staleConfidences)) counts) /
    batch.cost counts.sum

/-- Prefixes of the scheduled drafts whose logits fit. -/
structure Feasible (counts : List ℕ) : Prop where
  within : Within counts (batch.reqIds.map batch.drafts)
  logits : batch.reqIds.length * manager.numBonusTokens + counts.sum ≤
    manager.maxTotalLogits

variable {batch}

theorem get?_tokens {reqId : R} (hmem : reqId ∈ batch.reqIds) :
    batch.numTokensPerReq.get? reqId = some (batch.tokens reqId) := by
  obtain ⟨count, hcount⟩ := Dict.mem_keys_iff.mp hmem
  rw [tokens, hcount]
  rfl

theorem drafts_le {reqId : R} (hmem : reqId ∈ batch.reqIds) :
    batch.drafts reqId ≤ batch.tokens reqId :=
  batch.drafts_le_tokens _ (Dict.mem_of_get? (get?_tokens hmem))

variable (batch)

theorem map_tokens :
    batch.numTokensPerReq.map Prod.snd = batch.reqIds.map batch.tokens := by
  rw [reqIds, Dict.keys, List.map_map]
  apply List.map_congr_left
  intro item hmem
  rw [Function.comp_apply, tokens, Dict.get?_of_mem batch.nodup hmem]
  rfl

theorem drafts_add_nonDrafts {reqIds : List R} (hmem : ∀ reqId ∈ reqIds,
      reqId ∈ batch.reqIds) :
    (reqIds.map batch.drafts).sum + (reqIds.map batch.nonDrafts).sum =
      (reqIds.map batch.tokens).sum := by
  rw [← List.sum_map_add]
  congr 1
  apply List.map_congr_left
  intro reqId hreq
  exact Nat.add_sub_cancel' (drafts_le (hmem reqId hreq))

theorem fits (confidences : Confidences manager.numSpeculativeSteps) {reqIds : List R}
    (hmem : ∀ reqId ∈ reqIds, reqId ∈ batch.reqIds) :
    Fits (reqIds.map (survival confidences)) (reqIds.map batch.drafts) := by
  rw [Fits, List.forall₂_map_left_iff, List.forall₂_map_right_iff, List.forall₂_same]
  intro reqId hreq
  rw [survival, cumprod, length_accumulate, confidences.length_row]
  exact batch.drafts_le_steps reqId (hmem reqId hreq)

/-- The stale survivals of the scheduled drafts. -/
def staleRows : List (List ℚ) :=
  batch.reqIds.map fun reqId =>
    (survival manager.staleConfidences reqId).take (batch.drafts reqId)

def maxDraftBudget : ℕ :=
  min (batch.reqIds.map batch.drafts).sum
    (manager.maxTotalLogits - batch.reqIds.length * manager.numBonusTokens)

/-- The best ratio with a number of drafts. -/
def bestPerCost (drafts : ℕ) : ℚ :=
  (batch.numSampling + largestSum batch.staleRows.flatten drafts) / batch.cost drafts

def budget : ℕ :=
  argmax ((List.range (batch.maxDraftBudget + 1)).map batch.bestPerCost)

def batchBudget : BatchBudget R where
  numDraftsPerReq := List.zip batch.reqIds (batch.reqIds.map batch.drafts)
  numNonDraftTokensPerReq := List.zip batch.reqIds (batch.reqIds.map batch.nonDrafts)
  draftBudget := batch.budget

theorem map_length_staleRows :
    batch.staleRows.map List.length = batch.reqIds.map batch.drafts := by
  rw [staleRows, List.map_map]
  apply List.map_congr_left
  intro reqId hmem
  rw [Function.comp_apply, survival, List.length_take, cumprod, length_accumulate,
    manager.staleConfidences.length_row]
  exact Nat.min_eq_left (batch.drafts_le_steps reqId hmem)

theorem length_staleRows :
    batch.staleRows.flatten.length = (batch.reqIds.map batch.drafts).sum := by
  rw [List.length_flatten, map_length_staleRows]

theorem estimates_eq :
    (batch.numSampling : ℚ) ::
        (cumsum ((descending batch.staleRows.flatten).take batch.maxDraftBudget)).map
          (batch.numSampling + ·) =
      (List.range (batch.maxDraftBudget + 1)).map fun drafts =>
        batch.numSampling + largestSum batch.staleRows.flatten drafts := by
  let scores := (descending batch.staleRows.flatten).take batch.maxDraftBudget
  have hlength : scores.length = batch.maxDraftBudget := by
    rw [List.length_take, (descending_perm _).length_eq, length_staleRows]
    exact Nat.min_eq_left (Nat.min_le_left _ _)
  have hfirst : (batch.numSampling : ℚ) ::
      (cumsum scores).map ((batch.numSampling : ℚ) + ·) =
        (prefixSums scores).map ((batch.numSampling : ℚ) + ·) := by
    rw [← zero_cons_cumsum, List.map_cons, add_zero]
  rw [hfirst, prefixSums, hlength, List.map_map]
  apply List.map_congr_left
  intro drafts hmem
  have hle : drafts ≤ batch.maxDraftBudget :=
    Nat.le_of_lt_succ (List.mem_range.mp hmem)
  rw [Function.comp_apply, List.take_take, Nat.min_eq_left hle, largestSum]

theorem numNonDrafts_add_lt :
    batch.numNonDrafts + batch.maxDraftBudget < batch.verifyCostMs.length := by
  have htokens := batch.tokens_lt
  rw [map_tokens, ← drafts_add_nonDrafts batch fun _ hmem => hmem] at htokens
  have hmax : batch.maxDraftBudget ≤ (batch.reqIds.map batch.drafts).sum :=
    Nat.min_le_left _ _
  rw [numNonDrafts]
  omega

theorem costs_eq :
    ((batch.verifyCostMs.drop batch.numNonDrafts).take (batch.maxDraftBudget + 1)).map
        (batch.draftCostMs.getD batch.reqIds.length 0 + ·) =
      (List.range (batch.maxDraftBudget + 1)).map batch.cost := by
  have hlt := batch.numNonDrafts_add_lt
  apply List.ext_getElem
  · rw [List.length_map, List.length_take, List.length_drop, List.length_map,
      List.length_range]
    omega
  · intro drafts hleft hright
    rw [List.length_map, List.length_range] at hright
    rw [List.getElem_map, List.getElem_map, List.getElem_take, List.getElem_drop,
      List.getElem_range, cost, @List.getD_eq_getElem?_getD _ batch.verifyCostMs,
      List.getElem?_eq_getElem, Option.getD_some]

/-- The code computes the budget of the batch. -/
theorem getNumTokens_eq :
    manager.getNumTokens batch.numTokensPerReq batch.draftTokens =
      .ok ({ manager with batchBudget := some batch.batchBudget },
        batch.numNonDrafts + batch.budget) := by
  have hnonDrafts : List.zipWith (· - ·) (batch.numTokensPerReq.map Prod.snd)
      (batch.reqIds.map (numDrafts batch.draftTokens)) =
        batch.reqIds.map batch.nonDrafts := by
    rw [map_tokens, List.zipWith_map, List.zipWith_self]
    rfl
  have hrows : List.zipWith validEntries ((batch.reqIds.map
      manager.reqStates.reqIdToIndex).map fun slot =>
        cumprod (manager.staleConfidences.row slot))
      (batch.reqIds.map (numDrafts batch.draftTokens)) = batch.staleRows := by
    rw [List.map_map, List.zipWith_map, List.zipWith_self, staleRows]
    apply List.map_congr_left
    intro reqId _
    exact validEntries_eq_take _ _
  have hsampling : (List.zip (batch.reqIds.map manager.reqStates.reqIdToIndex)
      (batch.reqIds.map batch.nonDrafts)).countP (fun request =>
        manager.reqStates.prefillLen request.1 ≤
          manager.reqStates.numComputedTokens request.1 + request.2) =
      batch.numSampling := by
    rw [List.zip_map', List.countP_map]
    rfl
  have hcost : batch.draftCostMs[batch.reqIds.length]? =
      some (batch.draftCostMs.getD batch.reqIds.length 0) := by
    have hlt : batch.reqIds.length < batch.draftCostMs.length := batch.reqs_lt
    rw [List.getD_eq_getElem?_getD, List.getElem?_eq_getElem hlt, Option.getD_some]
  have hratios : List.zipWith (· / ·)
      ((List.range (batch.maxDraftBudget + 1)).map fun drafts =>
        (batch.numSampling : ℚ) + largestSum batch.staleRows.flatten drafts)
      ((List.range (batch.maxDraftBudget + 1)).map batch.cost) =
      (List.range (batch.maxDraftBudget + 1)).map batch.bestPerCost := by
    rw [List.zipWith_map, List.zipWith_self]
    rfl
  have hkeys : Dict.keys batch.numTokensPerReq = batch.reqIds := rfl
  have hdrafts : batch.reqIds.map (numDrafts batch.draftTokens) =
      batch.reqIds.map batch.drafts := rfl
  have hmax : min (batch.reqIds.map batch.drafts).sum
      (manager.maxTotalLogits - batch.reqIds.length * manager.numBonusTokens) =
        batch.maxDraftBudget := rfl
  have htotal : (batch.reqIds.map batch.nonDrafts).sum = batch.numNonDrafts := rfl
  rw [hdrafts] at hnonDrafts hrows
  simp only [Manager.getNumTokens, batch.costTables, hkeys, hdrafts, hnonDrafts, hrows,
    hsampling, hcost, hmax, htotal, estimates_eq, costs_eq, hratios, List.length_map]
  rw [require, if_pos trivial]
  rfl

theorem budget_spec :
    batch.budget ≤ batch.maxDraftBudget ∧ ∀ drafts ≤ batch.maxDraftBudget,
      batch.bestPerCost drafts ≤ batch.bestPerCost batch.budget := by
  have hne : (List.range (batch.maxDraftBudget + 1)).map batch.bestPerCost ≠ [] := by
    rw [List.range_succ_eq_map]
    exact List.cons_ne_nil _ _
  obtain ⟨largest, hget, hall⟩ := argmax_spec hne
  rw [List.getElem?_map, Option.map_eq_some_iff] at hget
  obtain ⟨drafts, hdrafts, rfl⟩ := hget
  obtain ⟨hlt, hrange⟩ := List.getElem?_eq_some_iff.mp hdrafts
  rw [List.length_range] at hlt
  rw [List.getElem_range] at hrange
  refine ⟨Nat.le_of_lt_succ hlt, ?_⟩
  intro other hother
  rw [budget, hrange]
  apply hall
  exact List.mem_map_of_mem (List.mem_range.mpr (Nat.lt_succ_of_le hother))

theorem cost_pos_of_le {drafts : ℕ} (hdrafts : drafts ≤ batch.maxDraftBudget) :
    0 < batch.cost drafts := by
  have hverify := batch.numNonDrafts_add_lt
  have hreqs : batch.reqIds.length < batch.draftCostMs.length := batch.reqs_lt
  rw [cost, List.getD_eq_getElem?_getD, List.getElem?_eq_getElem hreqs,
    List.getD_eq_getElem?_getD, List.getElem?_eq_getElem (by omega), Option.getD_some,
    Option.getD_some]
  apply add_pos
  · exact batch.cost_pos _ (List.mem_append_left _ (List.getElem_mem _))
  · exact batch.cost_pos _ (List.mem_append_right _ (List.getElem_mem _))

theorem bounded_staleRows {counts : List ℕ} :
    Bounded batch.staleRows counts ↔ Within counts (batch.reqIds.map batch.drafts) := by
  rw [Within, ← map_length_staleRows, List.forall₂_map_right_iff]
  rfl

theorem prefixValue_staleRows {counts : List ℕ} {reqIds : List R}
    (hwithin : Within counts (reqIds.map batch.drafts)) :
    prefixValue (reqIds.map fun reqId =>
        (survival manager.staleConfidences reqId).take (batch.drafts reqId)) counts =
      prefixValue (reqIds.map (survival manager.staleConfidences)) counts := by
  induction reqIds generalizing counts with
  | nil => rfl
  | cons reqId reqIds ih =>
      cases hwithin with
      | cons hle hrest =>
          rw [List.map_cons, List.map_cons, prefixValue, prefixValue, ih hrest,
            List.take_take, Nat.min_eq_left hle]

variable {batch}

theorem Feasible.sum_le {counts : List ℕ} (hfeasible : batch.Feasible counts) :
    counts.sum ≤ batch.maxDraftBudget := by
  have hsum : counts.sum ≤ (batch.reqIds.map batch.drafts).sum :=
    hfeasible.within.sum_le_sum
  exact Nat.le_min.mpr ⟨hsum, Nat.le_sub_of_add_le' hfeasible.logits⟩

theorem feasible_iff {counts : List ℕ} :
    batch.Feasible counts ↔ Within counts (batch.reqIds.map batch.drafts) ∧
      counts.sum ≤ batch.maxDraftBudget := by
  constructor
  · intro hfeasible
    exact ⟨hfeasible.within, hfeasible.sum_le⟩
  · rintro ⟨hwithin, hsum⟩
    have hlogits : batch.reqIds.length * manager.numBonusTokens ≤
      manager.maxTotalLogits := batch.logits_le
    rw [maxDraftBudget] at hsum
    exact ⟨hwithin, by omega⟩

theorem Feasible.acceptedPerCost_le {counts : List ℕ}
    (hfeasible : batch.Feasible counts) :
    batch.acceptedPerCost counts ≤ batch.bestPerCost counts.sum := by
  have hvalue : prefixValue (batch.reqIds.map (survival manager.staleConfidences))
      counts ≤ largestSum batch.staleRows.flatten counts.sum := by
    rw [← prefixValue_staleRows batch hfeasible.within]
    exact prefixValue_le_largestSum (batch.bounded_staleRows.mpr hfeasible.within)
  rw [acceptedPerCost, bestPerCost]
  apply div_le_div_of_nonneg_right _ (batch.cost_pos_of_le hfeasible.sum_le).le
  exact add_le_add_right hvalue _

/-- Some prefixes of the budget's total are the best of all feasible prefixes. -/
theorem exists_optimal : ∃ best, batch.Feasible best ∧ best.sum = batch.budget ∧
    ∀ other, batch.Feasible other →
      batch.acceptedPerCost other ≤ batch.acceptedPerCost best := by
  have hsorted : ∀ row ∈ batch.staleRows, row.Pairwise (· ≥ ·) := by
    intro row hmem
    obtain ⟨reqId, _, rfl⟩ := List.mem_map.mp hmem
    exact (pairwise_cumprod (manager.staleConfidences.mem_row _)).sublist
      (List.take_sublist _ _)
  obtain ⟨hbudget, hbest⟩ := batch.budget_spec
  have hlength : batch.budget ≤ batch.staleRows.flatten.length := by
    rw [length_staleRows]
    exact hbudget.trans (Nat.min_le_left _ _)
  obtain ⟨best, hbounded, hsum, hvalue⟩ := Library.exists_best hsorted hlength
  have hwithin := batch.bounded_staleRows.mp hbounded
  have hfeasible : batch.Feasible best :=
    feasible_iff.mpr ⟨hwithin, hsum.trans_le hbudget⟩
  refine ⟨best, hfeasible, hsum, ?_⟩
  intro other hother
  calc batch.acceptedPerCost other
      ≤ batch.bestPerCost other.sum := hother.acceptedPerCost_le
    _ ≤ batch.bestPerCost batch.budget := hbest _ hother.sum_le
    _ = batch.acceptedPerCost best := by
      rw [acceptedPerCost, bestPerCost, hsum, ← prefixValue_staleRows batch hwithin,
        ← hvalue]
      rfl

end Batch

end Batches

end GlmFlash.Worker.AdaptiveVerification
