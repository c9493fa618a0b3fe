import GlmFlash.Worker.DraftTrimming
import Mathlib.Data.Prod.Lex
import Mathlib.Order.BooleanAlgebra.Basic
import Mathlib.Tactic.NormNum

/-!
# Trimmed batches

One budget is laid out three times: as a number of tokens, evenly over the
requests on the host, and by the current survivals on the device, in an order
of the requests that has those with drafts first.  The three layouts have the
same total.
-/

namespace GlmFlash.Worker.AdaptiveVerification

open GlmFlash.Library

variable {R : Type} [DecidableEq R]

/-! ## The order of a batch -/

/-- The key of `sort_batch_req_ids`. -/
def batchKey (numTokensPerReq : Dict R ℕ) (draftTokens : Dict R (List ℤ))
    (decodeQueryLen : ℕ) (reqId : R) : Bool ×ₗ Bool ×ₗ ℕ :=
  let num := (numTokensPerReq.get? reqId).getD 0
  toLex (decide (numDrafts draftTokens reqId = 0),
    toLex (decide (num ≠ decodeQueryLen), num))

def sortBatchReqIds (numTokensPerReq : Dict R ℕ) (draftTokens : Dict R (List ℤ))
    (decodeQueryLen : ℕ) : List R :=
  (Dict.keys numTokensPerReq).insertionSort fun left right =>
    batchKey numTokensPerReq draftTokens decodeQueryLen left ≤
      batchKey numTokensPerReq draftTokens decodeQueryLen right

/-- Requests with drafts lead those without. -/
def DraftsFirst (counts : List ℕ) : Prop :=
  counts.Pairwise fun left right => 0 < right → 0 < left

theorem sortBatchReqIds_perm (numTokensPerReq : Dict R ℕ)
    (draftTokens : Dict R (List ℤ)) (decodeQueryLen : ℕ) :
    (sortBatchReqIds numTokensPerReq draftTokens decodeQueryLen).Perm
      (Dict.keys numTokensPerReq) :=
  List.perm_insertionSort _ _

theorem draftsFirst_sortBatchReqIds (numTokensPerReq : Dict R ℕ)
    (draftTokens : Dict R (List ℤ)) (decodeQueryLen : ℕ) :
    DraftsFirst ((sortBatchReqIds numTokensPerReq draftTokens decodeQueryLen).map
      (numDrafts draftTokens)) := by
  let key := batchKey numTokensPerReq draftTokens decodeQueryLen
  have htotal : Std.Total fun left right : R => key left ≤ key right :=
    ⟨fun left right => le_total (key left) (key right)⟩
  have htrans : IsTrans R fun left right => key left ≤ key right :=
    ⟨fun _ _ _ hle hle' => hle'.trans' hle⟩
  have hsorted := List.pairwise_insertionSort (fun left right => key left ≤ key right)
    (Dict.keys numTokensPerReq)
  rw [DraftsFirst, List.pairwise_map]
  apply hsorted.imp
  intro left right hle hright
  rw [Nat.pos_iff_ne_zero] at hright ⊢
  intro hleft
  have hfirst : (decide (numDrafts draftTokens left = 0)) ≤
      decide (numDrafts draftTokens right = 0) :=
    Prod.Lex.monotone_fst _ _ hle
  rw [decide_eq_true hleft, decide_eq_false hright] at hfirst
  exact absurd hfirst (by decide)

/-! ## The host -/

theorem sum_range_lt {bound total : ℕ} (value : ℕ) (hbound : bound ≤ total) :
    ((List.range total).map fun req => if req < bound then value else 0).sum =
      bound * value := by
  obtain ⟨rest, rfl⟩ := Nat.exists_eq_add_of_le hbound
  have hfirst : ((List.range bound).map fun req => if req < bound then value else 0) =
      List.replicate bound value := by
    rw [List.eq_replicate_iff, List.length_map, List.length_range]
    refine ⟨rfl, ?_⟩
    intro count hmem
    obtain ⟨req, hreq, rfl⟩ := List.mem_map.mp hmem
    exact if_pos (List.mem_range.mp hreq)
  have hrest : ((List.range rest).map fun req =>
      if bound + req < bound then value else 0) = List.replicate rest 0 := by
    rw [List.eq_replicate_iff, List.length_map, List.length_range]
    refine ⟨rfl, ?_⟩
    intro count hmem
    obtain ⟨req, _, rfl⟩ := List.mem_map.mp hmem
    exact if_neg (Nat.not_lt_of_le (Nat.le_add_right bound req))
  rw [List.range_add, List.map_append, List.map_map, List.sum_append, hfirst,
    Function.comp_def, hrest, List.sum_replicate, List.sum_replicate]
  simp

theorem length_draftLensCpu (budget requests total : ℕ) :
    (draftLensCpu budget requests total).length = total := by
  rw [draftLensCpu, List.length_map, List.length_range]

/-- The even split spends all of the budget. -/
theorem sum_draftLensCpu {budget requests total : ℕ} (hrequests : 0 < requests)
    (htotal : requests ≤ total) : (draftLensCpu budget requests total).sum = budget := by
  have hrest := (Nat.mod_lt budget hrequests).le.trans htotal
  rw [draftLensCpu, List.sum_map_add, sum_range_lt _ htotal, sum_range_lt _ hrest, mul_one]
  exact Nat.div_add_mod budget requests

theorem all_take_of_draftsFirst {counts : List ℕ} (hfirst : DraftsFirst counts) :
    (((counts.map fun count => decide (0 < count)).take
      ((counts.map fun count => decide (0 < count)).count true)).all id) = true := by
  induction hfirst with
  | nil => rfl
  | @cons count counts hbefore _ ih =>
      rw [List.map_cons]
      by_cases hcount : 0 < count
      · rw [decide_eq_true hcount, List.count_cons_self, List.take_succ_cons,
          List.all_cons, ih]
        rfl
      · have hrest : ∀ flag ∈ counts.map (fun count => decide (0 < count)),
            ¬flag = true := by
          intro flag hmem
          obtain ⟨later, hlater, rfl⟩ := List.mem_map.mp hmem
          rw [decide_eq_true_eq]
          exact fun hpos => hcount (hbefore later hlater hpos)
        have hnone : (counts.map fun count => decide (0 < count)).count true = 0 :=
          List.count_eq_zero.mpr fun hmem => hrest true hmem rfl
        rw [decide_eq_false hcount, List.count_cons_of_ne Bool.false_ne_true, hnone,
          List.take_zero]
        rfl

theorem count_pos_of_sum_pos {counts : List ℕ} (hsum : 0 < counts.sum) :
    0 < (counts.map fun count => decide (0 < count)).count true := by
  rw [List.count_pos_iff, List.mem_map]
  by_contra hnone
  have hzero : ∀ count ∈ counts, count = 0 := by
    intro count hmem
    by_contra hne
    exact hnone ⟨count, hmem, decide_eq_true (Nat.pos_of_ne_zero hne)⟩
  rw [List.sum_eq_zero hzero] at hsum
  exact hsum.false

theorem sum_sub_of_within {drafts tokens : List ℕ} (hwithin : Within drafts tokens) :
    (List.zipWith (· - ·) tokens drafts).sum + drafts.sum = tokens.sum := by
  induction hwithin with
  | nil => rfl
  | @cons draft token drafts tokens hle _ ih =>
      rw [List.zipWith_cons_cons, List.sum_cons, List.sum_cons, List.sum_cons]
      omega

omit [DecidableEq R] in
/-- The token counts of the host add up to the budget and what is not drafts. -/
theorem compactBatch_total (manager : Manager R) {batchBudget : BatchBudget R}
    (hbudget : manager.batchBudget = some batchBudget) {drafts tokens : List ℕ}
    (hwithin : Within drafts tokens) (hfirst : DraftsFirst drafts)
    (hle : batchBudget.draftBudget ≤ drafts.sum) (cuNumLogits : List ℕ) :
    ∃ counts logits, manager.compactBatch drafts tokens cuNumLogits =
        .ok (counts, logits) ∧
      counts.sum = (List.zipWith (· - ·) tokens drafts).sum + batchBudget.draftBudget := by
  rw [Manager.compactBatch, hbudget]
  by_cases hall : batchBudget.draftBudget = drafts.sum
  · refine ⟨tokens, cuNumLogits, if_pos hall, ?_⟩
    rw [hall, sum_sub_of_within hwithin]
  · by_cases hzero : batchBudget.draftBudget = 0
    · refine ⟨_, _, (if_neg hall).trans (if_pos hzero), ?_⟩
      rw [hzero, Nat.add_zero]
    · let requests := (drafts.map fun count => decide (0 < count)).count true
      let nonDrafts := List.zipWith (· - ·) tokens drafts
      let lens := draftLensCpu batchBudget.draftBudget requests nonDrafts.length
      have hrequests : 0 < requests :=
        count_pos_of_sum_pos ((Nat.pos_of_ne_zero hzero).trans_le hle)
      have hlength : requests ≤ nonDrafts.length := by
        rw [List.length_zipWith, ← hwithin.length_eq, Nat.min_self]
        exact List.count_le_length.trans_eq (List.length_map _)
      refine ⟨List.zipWith (· + ·) nonDrafts lens, cuNumLogits,
        (if_neg hall).trans ((if_neg hzero).trans ?_), ?_⟩
      · change (require _ _ >>= fun _ => require _ _ >>= fun _ => _) = _
        rw [require, if_pos (all_take_of_draftsFirst hfirst), require,
          if_pos hrequests.ne']
        rfl
      · have hlens : nonDrafts.length = lens.length := (length_draftLensCpu _ _ _).symm
        rw [← List.sum_add_sum_eq_sum_zipWith_of_length_eq _ _ hlens,
          sum_draftLensCpu hrequests hlength]

/-! ## The device -/

theorem lookUp_eq {counts : Dict R ℕ} {reqIds : List R} {count : R → ℕ}
    (hget : ∀ reqId ∈ reqIds, counts.get? reqId = some (count reqId)) :
    Manager.lookUp counts reqIds = .ok (reqIds.map count) := by
  induction reqIds with
  | nil => rfl
  | cons reqId reqIds ih =>
      obtain ⟨hfirst, hrest⟩ := List.forall_mem_cons.mp hget
      have htail := ih hrest
      rw [Manager.lookUp] at htail ⊢
      rw [List.mapM_cons, htail, hfirst]
      rfl

theorem get?_zip_map {keys : List R} (count : R → ℕ) {key : R} (hmem : key ∈ keys) :
    Dict.get? (List.zip keys (keys.map count)) key = some (count key) := by
  induction keys with
  | nil => cases hmem
  | cons first keys ih =>
      rw [List.map_cons, List.zip_cons_cons, Dict.get?]
      by_cases heq : first = key
      · rw [if_pos heq, heq]
      · rw [if_neg heq]
        exact ih ((List.mem_cons.mp hmem).resolve_left (Ne.symm heq))

/-- The drafts that the device admits, and what its arrays say of them. -/
structure Admits {manager : Manager R} (batch : Batch manager) (budget : ℕ)
    (reqIds : List R) (numTokens : ℕ) (arrays : Manager.DeviceArrays)
    (admitted : List ℕ) : Prop where
  best : Best (reqIds.map (Batch.survival manager.confidenceProbs))
    (reqIds.map batch.drafts) budget admitted
  draftBudget : arrays.draftBudget = budget
  cuNumLogits : arrays.cuNumLogits =
    prefixSums (admitted.map (· + manager.numBonusTokens))
  queryStartLoc : arrays.queryStartLoc =
    prefixSums (List.zipWith (· + ·) admitted (reqIds.map batch.nonDrafts)) ++
      List.replicate (manager.maxNumReqs - reqIds.length) numTokens
  last : arrays.queryStartLoc.getLast? = some numTokens

theorem getLast?_prefixSums_append (values : List ℕ) (padding : ℕ) :
    (prefixSums values ++ List.replicate padding values.sum).getLast? =
      some values.sum := by
  cases padding with
  | zero =>
      rw [List.replicate_zero, List.append_nil, prefixSums, List.range_succ,
        List.map_append, List.map_singleton, List.getLast?_concat, List.take_length]
  | succ padding =>
      rw [List.replicate_succ', ← List.append_assoc, List.getLast?_concat]

section Batches

variable {manager : Manager R} (batch : Batch manager)

/-- The device ends with the best prefixes, also where it does not rank. -/
theorem best_batchDraftCapacity {topk : List (WithBot ℚ) → ℕ → List ℕ}
    (htopk : FindsTopk topk) {reqIds : List R}
    (hmem : ∀ reqId ∈ reqIds, reqId ∈ batch.reqIds) {budget : ℕ}
    (hbudget : budget ≤ (reqIds.map batch.drafts).sum) :
    Best (reqIds.map (Batch.survival manager.confidenceProbs)) (reqIds.map batch.drafts)
      budget (manager.batchDraftCapacity topk
        (reqIds.map manager.reqStates.reqIdToIndex) (reqIds.map batch.drafts) budget) := by
  have hrows : (reqIds.map manager.reqStates.reqIdToIndex).map (fun slot =>
      cumprod (manager.confidenceProbs.row slot)) =
        reqIds.map (Batch.survival manager.confidenceProbs) := by
    rw [List.map_map]
    rfl
  rw [Manager.batchDraftCapacity]
  split
  · rename_i hzero
    have hlength : (reqIds.map manager.reqStates.reqIdToIndex).length =
        (reqIds.map batch.drafts).length := by
      rw [List.length_map, List.length_map]
    rw [hzero, hlength]
    exact best_zero _ _
  · split
    · have hbest := best_assignDraftTokenBudget htopk manager.confidenceProbs
        (hrows ▸ batch.fits manager.confidenceProbs hmem) hbudget
      rwa [hrows] at hbest
    · rename_i hnot
      rw [Nat.le_antisymm hbudget (not_lt.mp hnot)]
      exact best_capacities _ _

theorem reallocateDrafts_admits {topk : List (WithBot ℚ) → ℕ → List ℕ}
    (htopk : FindsTopk topk) {reqIds : List R} (hperm : reqIds.Perm batch.reqIds) :
    ∃ arrays admitted,
      { manager with batchBudget := some batch.batchBudget }.reallocateDrafts topk
          reqIds (reqIds.map manager.reqStates.reqIdToIndex) =
        .ok ({ manager with batchBudget := none }, arrays) ∧
      Admits batch batch.budget reqIds (batch.numNonDrafts + batch.budget) arrays
        admitted := by
  have hmem : ∀ reqId ∈ reqIds, reqId ∈ batch.reqIds := fun _ hreq =>
    hperm.mem_iff.mp hreq
  have hdrafts : Manager.lookUp batch.batchBudget.numDraftsPerReq reqIds =
      .ok (reqIds.map batch.drafts) :=
    lookUp_eq fun reqId hreq => get?_zip_map batch.drafts (hmem reqId hreq)
  have hnonDrafts : Manager.lookUp batch.batchBudget.numNonDraftTokensPerReq reqIds =
      .ok (reqIds.map batch.nonDrafts) :=
    lookUp_eq fun reqId hreq => get?_zip_map batch.nonDrafts (hmem reqId hreq)
  have htotal : (reqIds.map batch.nonDrafts).sum = batch.numNonDrafts :=
    (hperm.map batch.nonDrafts).sum_eq
  have hbudget : batch.budget ≤ (reqIds.map batch.drafts).sum := by
    rw [(hperm.map batch.drafts).sum_eq]
    exact batch.budget_spec.1.trans (Nat.min_le_left _ _)
  have hbest := best_batchDraftCapacity batch htopk hmem hbudget
  let admitted := manager.batchDraftCapacity topk
    (reqIds.map manager.reqStates.reqIdToIndex) (reqIds.map batch.drafts) batch.budget
  let lens := List.zipWith (· + ·) admitted (reqIds.map batch.nonDrafts)
  let numTokens := batch.numNonDrafts + batch.budget
  let arrays : Manager.DeviceArrays :=
    { cuNumLogits := 0 :: cumsum (admitted.map (· + manager.numBonusTokens))
      queryStartLoc := 0 :: cumsum lens ++
        List.replicate (manager.maxNumReqs - reqIds.length) numTokens
      draftBudget := batch.budget }
  have hlens : lens.sum = numTokens := by
    have hlength : admitted.length = (reqIds.map batch.nonDrafts).length := by
      rw [hbest.within.length_eq, List.length_map, List.length_map]
    rw [← List.sum_add_sum_eq_sum_zipWith_of_length_eq _ _ hlength, hbest.sum, htotal,
      Nat.add_comm]
  have hstart : arrays.queryStartLoc = prefixSums lens ++
      List.replicate (manager.maxNumReqs - reqIds.length) numTokens := by
    rw [← zero_cons_cumsum]
  refine ⟨arrays, admitted, ?_, hbest, rfl, zero_cons_cumsum _, hstart, ?_⟩
  · rw [Manager.reallocateDrafts]
    change (Manager.lookUp batch.batchBudget.numDraftsPerReq reqIds >>= fun _ => _) = _
    rw [hdrafts]
    change (Manager.lookUp batch.batchBudget.numNonDraftTokensPerReq reqIds >>=
      fun _ => _) = _
    rw [hnonDrafts]
    change Except.ok (_, _) = _
    rw [htotal, List.length_map]
    rfl
  · have hlast := getLast?_prefixSums_append lens (manager.maxNumReqs - reqIds.length)
    rw [hlens] at hlast
    rw [hstart]
    exact hlast

theorem trimDrafts_admits {topk : List (WithBot ℚ) → ℕ → List ℕ}
    (htopk : FindsTopk topk) {reqIds : List R} (hperm : reqIds.Perm batch.reqIds)
    (hfirst : DraftsFirst (reqIds.map batch.drafts)) :
    ∃ counts arrays admitted,
      { manager with batchBudget := some batch.batchBudget }.trimDrafts topk reqIds
          batch.numTokensPerReq batch.draftTokens = .ok (counts, arrays) ∧
      counts.sum = batch.numNonDrafts + batch.budget ∧
      Admits batch batch.budget reqIds (batch.numNonDrafts + batch.budget) arrays
        admitted := by
  let chosen : Manager R := { manager with batchBudget := some batch.batchBudget }
  have hmem : ∀ reqId ∈ reqIds, reqId ∈ batch.reqIds := fun _ hreq =>
    hperm.mem_iff.mp hreq
  have htokens : Manager.lookUp batch.numTokensPerReq reqIds =
      .ok (reqIds.map batch.tokens) :=
    lookUp_eq fun reqId hreq => Batch.get?_tokens (hmem reqId hreq)
  have hwithin : Within (reqIds.map batch.drafts) (reqIds.map batch.tokens) := by
    rw [Within, List.forall₂_map_left_iff, List.forall₂_map_right_iff, List.forall₂_same]
    intro reqId hreq
    exact Batch.drafts_le (hmem reqId hreq)
  have hbudget : batch.budget ≤ (reqIds.map batch.drafts).sum := by
    rw [(hperm.map batch.drafts).sum_eq]
    exact batch.budget_spec.1.trans (Nat.min_le_left _ _)
  have hnonDrafts : (List.zipWith (· - ·) (reqIds.map batch.tokens)
      (reqIds.map batch.drafts)).sum = batch.numNonDrafts := by
    rw [List.zipWith_map, List.zipWith_self]
    exact (hperm.map batch.nonDrafts).sum_eq
  obtain ⟨counts, logits, hcompact, hsum⟩ := compactBatch_total chosen rfl hwithin hfirst
    hbudget (0 :: cumsum ((reqIds.map batch.drafts).map (· + manager.numBonusTokens)))
  obtain ⟨arrays, admitted, hreallocate, hadmits⟩ :=
    reallocateDrafts_admits batch htopk hperm
  refine ⟨counts, arrays, admitted, ?_, hsum.trans (congrArg (· + _) hnonDrafts), hadmits⟩
  rw [Manager.trimDrafts, htokens]
  change (chosen.compactBatch (reqIds.map batch.drafts) (reqIds.map batch.tokens)
    (0 :: cumsum ((reqIds.map batch.drafts).map (· + manager.numBonusTokens))) >>=
      fun _ => _) = _
  rw [hcompact]
  change (chosen.reallocateDrafts topk reqIds
    (reqIds.map manager.reqStates.reqIdToIndex) >>= fun _ => _) = _
  rw [hreallocate]
  rfl

/-- The budget is the best over all feasible prefixes; the device then admits the
best prefixes of that budget, and all layouts of the batch agree on its size. -/
theorem draft_trimming_optimal {topk : List (WithBot ℚ) → ℕ → List ℕ}
    (htopk : FindsTopk topk) :
    ∃ chosen numTokens budget,
      manager.getNumTokens batch.numTokensPerReq batch.draftTokens =
        .ok (chosen, numTokens) ∧
      chosen.batchBudget.map BatchBudget.draftBudget = some budget ∧
      (∃ best, batch.Feasible best ∧ best.sum = budget ∧ ∀ other, batch.Feasible other →
        batch.acceptedPerCost other ≤ batch.acceptedPerCost best) ∧
      ∀ reqIds : List R, reqIds.Perm batch.reqIds →
        DraftsFirst (reqIds.map batch.drafts) →
        ∃ counts arrays admitted,
          chosen.trimDrafts topk reqIds batch.numTokensPerReq batch.draftTokens =
            .ok (counts, arrays) ∧
          counts.sum = numTokens ∧
          Admits batch budget reqIds numTokens arrays admitted := by
  refine ⟨_, _, _, batch.getNumTokens_eq, rfl, Batch.exists_optimal, ?_⟩
  intro reqIds hperm hfirst
  exact trimDrafts_admits batch htopk hperm hfirst

end Batches

/-- A manager for two requests with three steps each. -/
def twoRowManager : Manager Bool where
  reqStates :=
    { reqIdToIndex := fun reqId => if reqId then 1 else 0
      numComputedTokens := fun _ => 7
      prefillLen := fun _ => 5 }
  numSpeculativeSteps := 3
  numBonusTokens := 1
  maxTotalLogits := 5
  maxNumReqs := 4
  costTables := some ([1, 1, 1], [1, 1, 1, 2, 2, 2, 2, 3])
  staleConfidences :=
    { row := fun _ => [1, 0, 1]
      length_row := fun _ => rfl
      mem_row := fun _ => by decide }
  confidenceProbs :=
    { row := fun slot => if slot = 0 then [1 / 2, 1 / 2, 1] else [1 / 4, 1, 1]
      length_row := by
        intro slot
        split <;> rfl
      mem_row := by
        intro slot
        split
        · norm_num
        · norm_num }
  batchBudget := none

/-- One request has no drafts, the other two. -/
def twoRowBatch : Batch twoRowManager where
  numTokensPerReq := [(false, 1), (true, 3)]
  draftTokens := [(true, [11, 12])]
  draftCostMs := [1, 1, 1]
  verifyCostMs := [1, 1, 1, 2, 2, 2, 2, 3]
  nodup := by decide
  drafts_le_steps := by decide
  drafts_le_tokens := by decide
  costTables := rfl
  cost_pos := by decide
  reqs_lt := by decide
  tokens_lt := by decide
  logits_le := by decide

theorem draft_trimming_optimal_two : ∃ chosen numTokens budget counts arrays admitted,
    twoRowManager.getNumTokens twoRowBatch.numTokensPerReq twoRowBatch.draftTokens =
      .ok (chosen, numTokens) ∧
    chosen.trimDrafts sortedTopk (sortBatchReqIds twoRowBatch.numTokensPerReq
      twoRowBatch.draftTokens 4) twoRowBatch.numTokensPerReq
      twoRowBatch.draftTokens = .ok (counts, arrays) ∧
    counts.sum = numTokens ∧
    Admits twoRowBatch budget (sortBatchReqIds twoRowBatch.numTokensPerReq
      twoRowBatch.draftTokens 4) numTokens arrays admitted := by
  obtain ⟨chosen, numTokens, budget, hchosen, _, _, htrims⟩ :=
    draft_trimming_optimal twoRowBatch fun _ _ => isTopk_sortedTopk
  obtain ⟨counts, arrays, admitted, htrim, hsum, hadmits⟩ :=
    htrims (sortBatchReqIds twoRowBatch.numTokensPerReq twoRowBatch.draftTokens 4)
      (sortBatchReqIds_perm _ _ _) (draftsFirst_sortBatchReqIds _ _ _)
  exact ⟨chosen, numTokens, budget, counts, arrays, admitted, hchosen, htrim, hsum,
    hadmits⟩

end GlmFlash.Worker.AdaptiveVerification
