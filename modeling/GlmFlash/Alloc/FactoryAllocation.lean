import GlmFlash.Alloc.GlobalDp
import Mathlib.Data.Finset.Dedup
import Mathlib.Data.Finset.Image

/-!
# Allocation across candidate factories

`factory_allocation.py`: an inner knapsack for every coupling group and
compatibility domain, and an outer one that takes a profile of one domain for
each group.  Where the budget is to be filled exactly, neither level may drop
a cost because a cheaper one does less damage.
-/

namespace GlmFlash.Alloc

open GlmFlash.Library

structure CouplingMetadata where
  couplingGroupId : String
  compatibilityDomainSha256 : String
  fixedSharedBytes : ℤ
  domainFixedDamage : ℚ

abbrev FactoryCandidate := Candidate CouplingMetadata

/-- A row of the ledger's units. -/
structure CandidateUnit where
  unitId : String
  couplingGroupId : String

/-- What `build_factory_union` hands over.  It raises unless there are units,
of distinct names, and every proposal has a positive byte cost. -/
structure FactoryUnion where
  units : List CandidateUnit
  allocatorCandidates : List FactoryCandidate
  units_ne_nil : units ≠ []
  units_nodup : (units.map CandidateUnit.unitId).Nodup
  groups_ne_empty : ∀ unit ∈ units, unit.couplingGroupId ≠ ""
  bytes_pos : ∀ candidate ∈ allocatorCandidates, 0 < candidate.storedBytes

/-! ## The inner frontier -/

section InternalFrontier

variable {M : Type}

def bestByCost (candidates : List (Candidate M)) : List (Candidate M) :=
  (keepAllBest
    (fun candidate => toLex (candidate.predictedDamage, candidate.choiceId)) []
    (candidates.map fun candidate => (candidate.storedBytes, candidate))).map
      Prod.snd

/-- The body of the loop over the units. -/
def frontierUnit (candidates : List (Candidate M)) (preserveEveryCost : Bool)
    (states : States M) (unitId : String) : States M :=
  let choices := if preserveEveryCost then bestByCost (ofUnit candidates unitId)
    else paretoFrontier (ofUnit candidates unitId)
  let nextStates := keepAllBest Prod.fst []
    (extensions Candidate.storedBytes (fun _ => true) states choices)
  if preserveEveryCost then nextStates else pruneStates nextStates

def internalStates (candidates : List (Candidate M))
    (preserveEveryCost : Bool) : States M :=
  (unitIds candidates).foldl (frontierUnit candidates preserveEveryCost)
    [(0, (0, []))]

def internalProfile (state : ℤ × (ℚ × List (Candidate M))) :
    Candidate (List (Candidate M)) where
  unitId := "internal-profile"
  choiceId := "private-" ++ toString state.1
  storedBytes := state.1
  predictedDamage := state.2.1
  metadata := some state.2.2

def internalFrontier (candidates : List (Candidate M))
    (expectedUnits : Finset String) (quantum : ℤ) (preserveEveryCost : Bool) :
    Except Failure (List (Candidate (List (Candidate M)))) :=
  if (candidates.map Candidate.unitId).toFinset ≠ expectedUnits then return []
  else do
    require (1 ≤ quantum ∧
      ∀ candidate ∈ candidates, candidate.storedBytes % quantum = 0) .valueError
    return (sortBy Prod.fst (internalStates candidates preserveEveryCost)).map
      internalProfile

end InternalFrontier

/-! ## Domains -/

/-- `(group, domain)` -/
abbrev DomainKey := String ×ₗ String

def CouplingMetadata.key (metadata : CouplingMetadata) : DomainKey :=
  toLex (metadata.couplingGroupId, metadata.compatibilityDomainSha256)

def domainKey (candidate : FactoryCandidate) : Option DomainKey :=
  candidate.metadata.map CouplingMetadata.key

/-- `[0-9a-f]{64}` -/
def isSha256 (text : String) : Prop :=
  text.length = 64 ∧ ∀ char ∈ text.toList,
    ('0' ≤ char ∧ char ≤ '9') ∨ ('a' ≤ char ∧ char ≤ 'f')

instance (text : String) : Decidable (isSha256 text) :=
  @instDecidableAnd _ _ _ (List.decidableBAll _ _)

/-- What `_candidate_metadata` and the first loop check of one candidate. -/
def CouplingMetadata.Valid (metadata : CouplingMetadata)
    (units : List CandidateUnit) (unitId : String) : Prop :=
  metadata.couplingGroupId ≠ "" ∧
    isSha256 metadata.compatibilityDomainSha256 ∧
    0 ≤ metadata.fixedSharedBytes ∧
    ∃ unit ∈ units, unit.unitId = unitId ∧
      unit.couplingGroupId = metadata.couplingGroupId

instance (metadata : CouplingMetadata) (units : List CandidateUnit)
    (unitId : String) : Decidable (metadata.Valid units unitId) :=
  inferInstanceAs (Decidable (_ ∧ _ ∧ _ ∧ _))

/-- `by_group_domain[key]` -/
def ofDomain (candidates : List FactoryCandidate) (key : DomainKey) :
    List FactoryCandidate :=
  candidates.filter fun candidate => decide (domainKey candidate = some key)

/-- `sorted(by_group_domain)` -/
def domainKeys (candidates : List FactoryCandidate) : List DomainKey :=
  sortBy id (candidates.filterMap domainKey).dedup

/-- The metadata of the first candidate of a domain, which `setdefault`
records. -/
def domainMetadata (candidates : List FactoryCandidate) (key : DomainKey) :
    Option CouplingMetadata :=
  (ofDomain candidates key).head?.bind Candidate.metadata

/-- `fixed_costs[key]` -/
def fixedCost (candidates : List FactoryCandidate) (key : DomainKey) : ℤ :=
  (domainMetadata candidates key).elim 0 CouplingMetadata.fixedSharedBytes

/-- `fixed_damages[key]` -/
def fixedDamage (candidates : List FactoryCandidate) (key : DomainKey) : ℚ :=
  (domainMetadata candidates key).elim 0 CouplingMetadata.domainFixedDamage

/-- The checks of the loop over the candidates. -/
def CheckedCandidate (union : FactoryUnion) (candidate : FactoryCandidate) :
    Prop :=
  ∃ metadata ∈ candidate.metadata,
    metadata.Valid union.units candidate.unitId ∧
      metadata.fixedSharedBytes =
        fixedCost union.allocatorCandidates metadata.key ∧
      metadata.domainFixedDamage =
        fixedDamage union.allocatorCandidates metadata.key

instance (union : FactoryUnion) (candidate : FactoryCandidate) :
    Decidable (CheckedCandidate union candidate) :=
  match hmetadata : candidate.metadata with
  | none => .isFalse fun ⟨_, hmem, _⟩ => by
      rw [hmetadata] at hmem
      cases hmem
  | some metadata =>
      decidable_of_iff (metadata.Valid union.units candidate.unitId ∧
        metadata.fixedSharedBytes =
          fixedCost union.allocatorCandidates metadata.key ∧
        metadata.domainFixedDamage =
          fixedDamage union.allocatorCandidates metadata.key)
        ⟨fun hchecks => ⟨metadata, hmetadata, hchecks⟩, fun ⟨_, hmem, hchecks⟩ => by
          rw [hmetadata] at hmem
          cases hmem
          exact hchecks⟩

/-- `units_by_group[group]` -/
def unitsOfGroup (units : List CandidateUnit) (group : String) :
    Finset String :=
  ((units.filter fun unit => decide (unit.couplingGroupId = group)).map
    CandidateUnit.unitId).toFinset

/-! ## The outer candidates -/

structure ChoiceBody where
  couplingGroupId : String
  compatibilityDomainSha256 : String
  fixedSharedBytes : ℤ
  privatePayloadBytes : ℤ
  selectedChoiceIds : List String
  domainFixedDamage : ℚ

structure ProfileMetadata where
  body : ChoiceBody
  choiceSha256 : String
  selectedCandidates : List FactoryCandidate

abbrev Profile := Candidate ProfileMetadata

/-- `profile.metadata["selected_candidates"]` -/
def Profile.selectedCandidates (profile : Profile) : List FactoryCandidate :=
  profile.metadata.elim [] ProfileMetadata.selectedCandidates

variable (hashJson : ChoiceBody → String)

def outerCandidate (candidates : List FactoryCandidate) (key : DomainKey)
    (profile : Candidate (List FactoryCandidate)) : Profile :=
  let selected := profile.metadata.getD []
  let fixed := fixedCost candidates key
  let fixedDamage := fixedDamage candidates key
  let choiceBody : ChoiceBody := {
    couplingGroupId := (ofLex key).1
    compatibilityDomainSha256 := (ofLex key).2
    fixedSharedBytes := fixed
    privatePayloadBytes := profile.storedBytes
    selectedChoiceIds := selected.map Candidate.choiceId
    domainFixedDamage := fixedDamage }
  let choiceSha := hashJson choiceBody
  { unitId := (ofLex key).1
    choiceId := (ofLex key).1 ++ "." ++
      String.ofList ((ofLex key).2.toList.take 16) ++ "." ++
      String.ofList (choiceSha.toList.take 16)
    storedBytes := fixed + profile.storedBytes
    predictedDamage := profile.predictedDamage + fixedDamage
    metadata := some ⟨choiceBody, choiceSha, selected⟩ }

/-- The body of the loop over the domains. -/
def domainCandidates (union : FactoryUnion) (quantum : ℤ)
    (requireExactBudget : Bool) (key : DomainKey) :
    Except Failure (List Profile) := do
  require (fixedCost union.allocatorCandidates key % quantum = 0) .valueError
  let profiles ← internalFrontier (ofDomain union.allocatorCandidates key)
    (unitsOfGroup union.units (ofLex key).1) quantum requireExactBudget
  return profiles.map (outerCandidate hashJson union.allocatorCandidates key)

def outerCandidates (union : FactoryUnion) (quantum : ℤ)
    (requireExactBudget : Bool) : Except Failure (List Profile) := do
  let profiles ← (domainKeys union.allocatorCandidates).mapM
    (domainCandidates hashJson union quantum requireExactBudget)
  return profiles.flatten

/-! ## The outer knapsack -/

/-- The body of the loop over the groups, where the budget is to be filled. -/
def exactGroup (outer : List Profile) (byteBudget : ℤ)
    (states : States ProfileMetadata) (group : String) :
    Except Failure (States ProfileMetadata) := do
  let nextStates := keepAllBest
    (fun value => toLex (value.1, value.2.map Candidate.choiceId)) []
    (extensions Candidate.storedBytes (fun used => decide (used ≤ byteBudget))
      states (ofUnit outer group))
  require (nextStates ≠ []) .valueError
  return nextStates

def allocateExactly (outer : List Profile) (byteBudget : ℤ) :
    Except Failure (Allocation ProfileMetadata) := do
  let states ← (unitIds outer).foldlM (exactGroup outer byteBudget)
    [(0, (0, []))]
  match Dict.get? states byteBudget with
  | none => .error .valueError
  | some exact => return {
      choices := exact.2
      storedBytes := byteBudget
      predictedDamage := exact.1 }

def allocateOuter (requireExactBudget : Bool) (outer : List Profile)
    (byteBudget quantum : ℤ) : Except Failure (Allocation ProfileMetadata) :=
  if requireExactBudget then allocateExactly outer byteBudget
  else allocate outer byteBudget quantum

structure CoupledFactoryAllocation where
  allocation : Allocation ProfileMetadata
  selectedCandidates : List FactoryCandidate

def allocateFactoryUnion (union : FactoryUnion) (byteBudget quantum : ℤ)
    (requireExactBudget : Bool) : Except Failure CoupledFactoryAllocation := do
  require (0 ≤ byteBudget ∧ 1 ≤ quantum ∧ byteBudget % quantum = 0) .valueError
  require (union.units ≠ []) .valueError
  require ((∀ unit ∈ union.units, unit.couplingGroupId ≠ "") ∧
    (union.units.map CandidateUnit.unitId).Nodup) .valueError
  require (∀ candidate ∈ union.allocatorCandidates,
    CheckedCandidate union candidate) .valueError
  let outer ← outerCandidates hashJson union quantum requireExactBudget
  require (∀ unit ∈ union.units, ∃ profile ∈ outer,
    profile.unitId = unit.couplingGroupId) .valueError
  let result ← allocateOuter requireExactBudget outer byteBudget quantum
  let selectedPrivate := result.choices.flatMap Profile.selectedCandidates
  require ((selectedPrivate.map Candidate.unitId).toFinset =
    (union.units.map CandidateUnit.unitId).toFinset) .runtimeError
  return ⟨result, selectedPrivate⟩

end GlmFlash.Alloc
