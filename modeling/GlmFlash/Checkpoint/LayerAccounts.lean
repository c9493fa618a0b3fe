import GlmFlash.Checkpoint.InstalledLayer
import GlmFlash.Library.Text
import Mathlib.Algebra.BigOperators.Group.List.Lemmas

/-!
# What an accepted layer guarantees

The loop of `installed_cost_breakdown` is followed slot by slot, and what
`verify_installed_layer` checks is collected in one statement.
-/

namespace GlmFlash.Checkpoint

open GlmFlash.Library

/-! ## Slots -/

/-- One deployed object of one choice. -/
abbrev Slot := Choice × Role

namespace Slot

def ref (slot : Slot) : ObjectRef := slot.1.objects.ref slot.2

def scope (slot : Slot) : Scope := slot.1.vectorTopology.scope slot.2

def privateSlot (slot : Slot) : PrivateSlot where
  expert := slot.1.expert
  projection := slot.1.projection
  role := slot.2
  sha256 := slot.ref.sha256
  bytes := slot.ref.bytes

/-- The slot holds this shared object. -/
def Holds (slot : Slot) (object : SharedObject) : Prop :=
  slot.scope = .layerShared ∧
    sharedGroup slot.1.projection slot.2 = .ok object.sharedGroup ∧
    object.sha256 = slot.ref.sha256 ∧ object.bytes = slot.ref.bytes

theorem Holds.unique {slot : Slot} {object other : SharedObject}
    (hobject : slot.Holds object) (hother : slot.Holds other) :
    object = other := by
  obtain ⟨-, hgroup, hsha, hbytes⟩ := hobject
  obtain ⟨-, hgroup', hsha', hbytes'⟩ := hother
  ext
  · exact Except.ok.inj (hgroup.symm.trans hgroup')
  · rw [hsha, hsha']
  · rw [hbytes, hbytes']

end Slot

def choiceSlots (choice : Choice) : List Slot :=
  payloadRoles.map fun role => (choice, role)

def layerSlots (choices : List Choice) : List Slot :=
  choices.flatMap choiceSlots

/-- The charges of the slots done so far. -/
structure Accounts (slots : List Slot) (charges : Charges) : Prop where
  privateSlots : charges.privateSlots =
    (slots.filter fun slot => slot.scope = .expertPrivate).map
      Slot.privateSlot
  nodup : (Dict.keys charges.sharedObjects).Nodup
  legal : ∀ slot ∈ slots, slot.scope = .layerShared →
    ∃ object, slot.Holds object ∧
      charges.sharedObjects.get? object.sharedGroup = some object
  origin : ∀ group object, charges.sharedObjects.get? group = some object →
    object.sharedGroup = group ∧ ∃ slot ∈ slots, slot.Holds object

theorem accounts_nil : Accounts []
    { logical := 0, privateSlots := [], sharedObjects := [],
      deploymentObjects := [] } where
  privateSlots := rfl
  nodup := List.nodup_nil
  legal := fun _ hmem => absurd hmem List.not_mem_nil
  origin := by rintro _ _ ⟨⟩

section

variable {slots : List Slot} {charges next : Charges} {choice : Choice}
  {role : Role}

theorem chargeRole_accounts (haccounts : Accounts slots charges)
    (hrun : chargeRole choice charges role = .ok next) :
    Accounts (slots ++ [(choice, role)]) next ∧
      next.logical = charges.logical := by
  cases hscope : choice.vectorTopology.scope role with
  | expertPrivate =>
      simp only [chargeRole, hscope, pure_eq_ok] at hrun
      subst hrun
      refine ⟨⟨?_, haccounts.nodup, ?_, ?_⟩, rfl⟩
      · have hslot : Slot.scope (choice, role) = .expertPrivate := hscope
        rw [List.filter_append, List.map_append, ← haccounts.privateSlots]
        simp [hslot, Slot.privateSlot, Slot.ref]
      · intro slot hmem hshared
        rcases List.mem_append.mp hmem with hbefore | hlast
        · exact haccounts.legal slot hbefore hshared
        · rw [List.mem_singleton.mp hlast] at hshared
          cases hscope.symm.trans hshared
      · intro group object hget
        obtain ⟨hgroup, slot, hmem, hholds⟩ := haccounts.origin group object hget
        exact ⟨hgroup, slot, List.mem_append_left _ hmem, hholds⟩
  | layerShared =>
      simp only [chargeRole, hscope, bind_eq_ok, require_eq_ok, pure_eq_ok]
        at hrun
      obtain ⟨group, hgroup, -, hsame, rfl⟩ := hrun
      have hslot : Slot.scope (choice, role) = .layerShared := hscope
      -- what the group holds once this slot has been charged
      obtain ⟨object, hobject⟩ : ∃ object,
          (charges.sharedObjects.setDefault group {
            sharedGroup := group
            sha256 := (choice.objects.ref role).sha256
            bytes := (choice.objects.ref role).bytes }).get? group =
              some object := by
        rw [Dict.get?_setDefault, if_pos rfl]
        cases charges.sharedObjects.get? group with
        | none => exact ⟨_, rfl⟩
        | some object => exact ⟨object, rfl⟩
      obtain ⟨hbytes, hsha⟩ := hsame object hobject
      have hown : object.sharedGroup = group := by
        rw [Dict.get?_setDefault, if_pos rfl] at hobject
        cases hbefore : charges.sharedObjects.get? group with
        | none =>
            rw [hbefore, Option.none_or, Option.some.injEq] at hobject
            rw [← hobject]
        | some incumbent =>
            rw [hbefore, Option.some_or, Option.some.injEq] at hobject
            rw [← hobject]
            exact (haccounts.origin group incumbent hbefore).1
      have hholds : Slot.Holds (choice, role) object :=
        ⟨hscope, by rw [hown]; exact hgroup, hsha, hbytes⟩
      refine ⟨⟨?_, Dict.nodup_keys_setDefault haccounts.nodup, ?_, ?_⟩, rfl⟩
      · rw [List.filter_append, List.map_append, ← haccounts.privateSlots]
        simp [hslot]
      · intro slot hmem hshared
        rcases List.mem_append.mp hmem with hbefore | hlast
        · obtain ⟨earlier, hearlier, hget⟩ :=
            haccounts.legal slot hbefore hshared
          refine ⟨earlier, hearlier, ?_⟩
          rw [Dict.get?_setDefault, hget, Option.some_or]
        · refine ⟨object, ?_, ?_⟩
          · rw [List.mem_singleton.mp hlast]
            exact hholds
          · rw [hown]
            exact hobject
      · intro other found hget
        by_cases hother : other = group
        · rw [hother, hobject, Option.some.injEq] at hget
          rw [← hget, hother]
          exact ⟨hown, _, List.mem_append_right _ List.mem_cons_self, hholds⟩
        · rw [Dict.get?_setDefault, if_neg hother, Option.or_none] at hget
          obtain ⟨hfound, slot, hmem, hslot⟩ :=
            haccounts.origin other found hget
          exact ⟨hfound, slot, List.mem_append_left _ hmem, hslot⟩

theorem chargeChoice_accounts (haccounts : Accounts slots charges)
    (hrun : chargeChoice charges choice = .ok next) :
    Accounts (slots ++ choiceSlots choice) next ∧
      next.logical = charges.logical + choice.logicalPayloadBytes ∧
      choice.logicalPayloadBytes = choice.objects.logicalBytes := by
  simp only [chargeChoice, bind_eq_ok, require_eq_ok] at hrun
  obtain ⟨-, hlogical, hroles⟩ := hrun
  have hdone := foldlM_run
    (fun done state =>
      Accounts (slots ++ done.map fun role => (choice, role)) state ∧
        state.logical = charges.logical + choice.logicalPayloadBytes)
    (fun done role state next hround hstate => by
      obtain ⟨hnext, hsame⟩ := chargeRole_accounts hstate.1 hround
      rw [List.map_append, ← List.append_assoc]
      exact ⟨hnext, hsame.trans hstate.2⟩) hroles ?_
  · exact ⟨hdone.1, hdone.2, hlogical⟩
  · rw [List.map_nil, List.append_nil, hlogical]
    exact ⟨⟨haccounts.privateSlots, haccounts.nodup, haccounts.legal,
      haccounts.origin⟩, rfl⟩

end

theorem charges_of_choices {choices : List Choice} {charges : Charges}
    (hrun : choices.foldlM chargeChoice
      { logical := 0, privateSlots := [], sharedObjects := [],
        deploymentObjects := [] } = .ok charges) :
    Accounts (layerSlots choices) charges ∧
      charges.logical = (choices.map (·.logicalPayloadBytes)).sum ∧
      ∀ choice ∈ choices,
        choice.logicalPayloadBytes = choice.objects.logicalBytes :=
  foldlM_run
    (fun done state => Accounts (layerSlots done) state ∧
      state.logical = (done.map (·.logicalPayloadBytes)).sum ∧
      ∀ choice ∈ done,
        choice.logicalPayloadBytes = choice.objects.logicalBytes)
    (fun done choice state next hround hstate => by
      obtain ⟨haccounts, hlogical, hchoice⟩ :=
        chargeChoice_accounts hstate.1 hround
      refine ⟨?_, ?_, ?_⟩
      · rw [layerSlots, List.flatMap_append, List.flatMap_singleton]
        exact haccounts
      · rw [hlogical, hstate.2.1, List.map_append, List.sum_append,
          List.map_singleton, List.sum_singleton]
      · intro other hmem
        rcases List.mem_append.mp hmem with hbefore | hlast
        · exact hstate.2.2 other hbefore
        · rw [List.mem_singleton.mp hlast]
          exact hchoice)
    hrun
    ⟨accounts_nil, rfl, fun _ hmem => absurd hmem List.not_mem_nil⟩

/-! ## Costs -/

/-- The bytes of the private ones among these slots. -/
def privateBytes (slots : List Slot) : ℤ :=
  ((slots.filter fun slot => slot.scope = .expertPrivate).map
    fun slot => slot.ref.bytes).sum

/-- A cost that charges these slots: the private ones one by one, the shared
ones once for each group. -/
structure CostOf (slots : List Slot) (cost : CostBody) : Prop where
  privateSlots : cost.semanticExpertPrivateSlots =
    (slots.filter fun slot => slot.scope = .expertPrivate).map
      Slot.privateSlot
  privateBytes : cost.semanticExpertPrivateBytes = privateBytes slots
  groups : (cost.semanticLayerSharedObjects.map (·.sharedGroup)).Nodup
  shared : ∀ object, object ∈ cost.semanticLayerSharedObjects ↔
    ∃ slot ∈ slots, slot.Holds object
  legal : ∀ slot ∈ slots, slot.scope = .layerShared →
    ∃ object, slot.Holds object
  sharedBytes : cost.semanticLayerSharedBytes =
    (cost.semanticLayerSharedObjects.map (·.bytes)).sum
  allocated : cost.allocatedPayloadBytes =
    cost.semanticExpertPrivateBytes + cost.semanticLayerSharedBytes

theorem Accounts.costOf {slots : List Slot} {charges : Charges}
    (haccounts : Accounts slots charges) : CostOf slots charges.costBody := by
  have hperm : charges.costBody.semanticLayerSharedObjects.Perm
      (charges.sharedObjects.map Prod.snd) := List.perm_insertionSort _ _
  have hgroup : ∀ item ∈ charges.sharedObjects,
      item.2.sharedGroup = item.1 := fun item hmem =>
    (haccounts.origin item.1 item.2
      (Dict.get?_of_mem haccounts.nodup hmem)).1
  have hgroups : (charges.sharedObjects.map Prod.snd).map (·.sharedGroup) =
      Dict.keys charges.sharedObjects := by
    rw [List.map_map]
    exact List.map_congr_left hgroup
  constructor
  · exact haccounts.privateSlots
  · change (charges.privateSlots.map (·.bytes)).sum = _
    rw [haccounts.privateSlots, List.map_map]
    rfl
  · rw [(hperm.map _).nodup_iff, hgroups]
    exact haccounts.nodup
  · intro object
    rw [hperm.mem_iff]
    constructor
    · intro hmem
      obtain ⟨item, hitem, rfl⟩ := List.mem_map.mp hmem
      exact (haccounts.origin item.1 item.2
        (Dict.get?_of_mem haccounts.nodup hitem)).2
    · rintro ⟨slot, hslot, hholds⟩
      obtain ⟨found, hfound, hget⟩ := haccounts.legal slot hslot hholds.1
      rw [hholds.unique hfound]
      exact List.mem_map.mpr ⟨_, Dict.mem_of_get? hget, rfl⟩
  · intro slot hslot hshared
    obtain ⟨object, hholds, -⟩ := haccounts.legal slot hslot hshared
    exact ⟨object, hholds⟩
  · have hsum := (hperm.map (·.bytes)).sum_eq
    rw [List.map_map] at hsum
    exact hsum.symm
  · rfl

/-! ## Accepted layers -/

/-- What holds of a manifest that `verify_installed_layer` returns. -/
structure AcceptedLayer (hashing : LayerHashing) (root : InstalledRoot)
    (manifest : Manifest) : Prop where
  stored : root.manifest = some manifest
  objects : ∀ choice ∈ manifest.choices, ∀ role, ∃ raw,
    verify hashing.toHashing root.store (choice.objects.ref role) = .ok raw
  layer : ∀ choice ∈ manifest.choices, choice.layer = manifest.layer
  nodup : (manifest.choices.map choiceKey).Nodup
  logical : ∀ choice ∈ manifest.choices,
    choice.logicalPayloadBytes = choice.objects.logicalBytes
  cost : CostOf (layerSlots manifest.choices)
    manifest.costBreakdown.toCostBody
  allocated : manifest.allocatedPayloadBytes =
    manifest.costBreakdown.allocatedPayloadBytes

theorem mapM_verifyChoice {hashing : Hashing} {store : PayloadStore}
    {choices verified : List Choice}
    (hrun : choices.mapM (verifyChoice hashing store) = .ok verified) :
    verified = choices := by
  have hpairs := (forall₂_of_mapM hrun).imp fun _ _ hverify =>
    (verifyChoice_eq_ok hverify).1.symm
  exact (List.forall₂_eq_eq_eq ▸ hpairs).symm

theorem verifyInstalledLayer_eq_ok {hashing : LayerHashing}
    {root : InstalledRoot} {manifest : Manifest}
    (hrun : verifyInstalledLayer hashing root = .ok manifest) :
    AcceptedLayer hashing root manifest := by
  cases hstored : root.manifest with
  | none => simp [verifyInstalledLayer, hstored] at hrun
  | some stored =>
      simp only [verifyInstalledLayer, hstored, bind_eq_ok, require_eq_ok,
        pure_eq_ok] at hrun
      obtain ⟨-, -, -, -, -, -, -, -, -, -, choices, hchoices, -, hsame, -,
        hnodup, -, -, -, -, -, -, -, -, -, -, -, -, cost, hcost, -,
        ⟨hstoredCost, -, hallocated, -⟩, rfl⟩ := hrun
      have hverified := forall₂_of_mapM hchoices
      cases mapM_verifyChoice hchoices
      simp only [installedCostBreakdown, bind_eq_ok, pure_eq_ok] at hcost
      obtain ⟨charges, hcharges, rfl⟩ := hcost
      obtain ⟨haccounts, -, hlogical⟩ := charges_of_choices hcharges
      refine ⟨hstored, ?_, fun choice hmem => (hsame choice hmem).1, hnodup,
        hlogical,
        by rw [hstoredCost]; exact haccounts.costOf, ?_⟩
      · intro choice hmem
        obtain ⟨_, _, hverify⟩ := forall₂_mem_left hverified hmem
        exact (verifyChoice_eq_ok hverify).2
      · rw [hallocated, hstoredCost]

/-! ## Sealed layers -/

theorem isHash_padded {number : ℕ} (hnumber : number < 1000003) :
    isHash (String.ofList (paddedNumeral 64 number)) = true := by
  have hlength : (numeral number).length ≤ 64 := by
    rw [numeral_eq_toDigits, Nat.length_toDigits_le_iff (by decide) (by decide)]
    exact hnumber.trans (by decide)
  rw [isHash, decide_eq_true_eq]
  refine ⟨?_, List.all_eq_true.mpr fun char hchar => ?_⟩
  · rw [String.length_ofList, paddedNumeral, List.length_append,
      List.length_replicate, Nat.sub_add_cancel hlength]
  · rw [String.toList_ofList] at hchar
    rw [isDigit_of_mem_paddedNumeral hchar, Bool.true_or]

/-- A choice of an expert with vectors of its own and the checksums of its objects. -/
def sealedChoice (hashing : LayerHashing) (store : PayloadStore)
    (layer expert : ℕ) (projection : Projection) (bits : ℤ)
    (objects : ChoiceObjects) : Choice :=
  let body : ChoiceBody := {
    schema := choiceSchema
    layer := layer
    expert := expert
    projection := projection
    choiceId := projection.name
    bits := bits
    predecessorStateHash := hashing.sha256 [2]
    objects := objects
    packedHashSchema := packedHashSchema
    packedSha256 := packedPayloadSha256 hashing.toHashing fun role =>
      (store.get? (objects.ref role).path).getD []
    reconstructionSha256 := objects.reconstruction.sha256
    logicalPayloadBytes := objects.logicalBytes
    vectorTopology := { suh := .expertPrivate, svh := .expertPrivate }
    provenance := [] }
  { body with choiceSha256 := hashing.sha256 (hashing.choiceJson body) }

def noCharges : Charges where
  logical := 0
  privateSlots := []
  sharedObjects := []
  deploymentObjects := []

def chargedCost (choices : List Choice) : CostBody :=
  ((choices.foldlM chargeChoice noCharges).toOption.getD noCharges).costBody

/-- The layer of such choices. -/
def sealedManifest (hashing : LayerHashing) (layer : ℕ) (choices : List Choice) :
    Manifest :=
  let cost := chargedCost choices
  let body : ManifestBody := {
    schema := installedSchema
    layer := layer
    predecessorStateHash := hashing.sha256 [2]
    sourceCheckpointSha256 := hashing.sha256 [3]
    fitSha256 := hashing.sha256 [4]
    candidateLedgerSha256 := hashing.sha256 [5]
    choices := choices
    logicalPayloadBytes := cost.codecReportedLogicalBytes
    allocatedPayloadBytes := cost.allocatedPayloadBytes
    costBreakdown := { cost with
      costBreakdownSha256 := hashing.sha256 (hashing.costJson cost) }
    physicalDeploymentObjectBytes := cost.physicalDeploymentBytes
    physicalObjectBytes := physicalBytes choices
    sharedObjectSha256 := []
    choiceSha256 := choices.map (·.choiceSha256) }
  { body with
    installedCheckpointSha256 := hashing.sha256 (hashing.manifestJson body) }

section Sealed

variable {hashing : LayerHashing} {store : PayloadStore} {layer : ℕ}
  (hhash : ∀ bytes, isHash (hashing.sha256 bytes) = true)
include hhash

theorem verifyChoice_sealed {objects : ChoiceObjects} {raws : List Bytes}
    (hobjects : objects.values.mapM (verify hashing.toHashing store) = .ok raws)
    (expert : ℕ) (projection : Projection) (bits : ℤ) :
    verifyChoice hashing.toHashing store
        (sealedChoice hashing store layer expert projection bits objects) =
      .ok (sealedChoice hashing store layer expert projection bits objects) := by
  simp only [verifyChoice, bind_eq_ok, require_eq_ok, pure_eq_ok]
  exact ⟨(), rfl, (), rfl, (), hhash _, (), rfl, _, hobjects, (), ⟨rfl, rfl⟩,
    trivial⟩

theorem verifyInstalledLayer_sealed {choices : List Choice} (hne : choices ≠ [])
    (hverified : choices.mapM (verifyChoice hashing.toHashing store) = .ok choices)
    (hlayer : ∀ choice ∈ choices, choice.layer = layer ∧
      choice.predecessorStateHash = hashing.sha256 [2])
    (hkeys : (choices.map choiceKey).Nodup) (hsorted : choices.Pairwise keyLe)
    (hshared : sharedHashes choices = [])
    (hcharges : (choices.foldlM chargeChoice noCharges).isOk = true) :
    verifyInstalledLayer hashing
        ⟨some (sealedManifest hashing layer choices), store⟩ =
      .ok (sealedManifest hashing layer choices) := by
  have hcost : installedCostBreakdown hashing choices =
      .ok (sealedManifest hashing layer choices).costBreakdown := by
    obtain ⟨charges, hcharges⟩ := exists_of_isOk hcharges
    have hbody : chargedCost choices = charges.costBody := by
      rw [chargedCost, hcharges]
      rfl
    rw [installedCostBreakdown]
    change (choices.foldlM chargeChoice noCharges >>= fun charges => _) = _
    rw [hcharges, ok_bind, ← hbody]
    rfl
  simp only [verifyInstalledLayer, bind_eq_ok, require_eq_ok, pure_eq_ok]
  refine ⟨(), rfl, (), hhash _, (), rfl, (), ⟨hhash _, hhash _, hhash _, hhash _⟩,
    (), hne, _, hverified, (), hlayer, (), hkeys, (), hsorted.insertionSort_eq.symm,
    (), rfl, (), ?_, (), ?_, (), ?_, (), rfl, _, hcost, (), ⟨rfl, rfl, rfl, rfl⟩,
    trivial⟩
  · rw [hshared]
    exact fun item hitem => by cases hitem
  · rw [hshared]
    exact .nil
  · rw [hshared]
    rfl

end Sealed

/-! ## A small layer -/

/-- Checksums of 64 digits. -/
def sampleHashing : LayerHashing where
  sha256 := fun bytes => String.ofList (paddedNumeral 64
    (bytes.foldl (fun sum byte => (257 * sum + byte.toNat) % 1000003) 7))
  choiceJson := fun choice => ascii choice.choiceId
  costJson := fun cost => ascii (toString cost.allocatedPayloadBytes)
  manifestJson := fun manifest => ascii (toString manifest.layer)

theorem isHash_sample (bytes : Bytes) :
    isHash (sampleHashing.sha256 bytes) = true := by
  have hsmall (sum : ℕ) (hsum : sum < 1000003) : bytes.foldl (fun sum byte =>
      (257 * sum + byte.toNat) % 1000003) sum < 1000003 := by
    induction bytes generalizing sum with
    | nil => exact hsum
    | cons byte bytes ih => exact ih _ (Nat.mod_lt _ (by decide))
  exact isHash_padded (hsmall 7 (by decide))

def sampleRef (dtype : String) : ObjectRef where
  sha256 := sampleHashing.sha256 [1, 0]
  bytes := 2
  dtype := dtype
  shape := [1]
  path := objectPath (sampleHashing.sha256 [1, 0])

def sampleStore : PayloadStore :=
  [(objectPath (sampleHashing.sha256 [1, 0]), [1, 0])]

def sampleChoice : Choice :=
  sealedChoice sampleHashing sampleStore 0 0 .downProj 3 {
    trellis := sampleRef "int16"
    suh := sampleRef "float16"
    svh := sampleRef "float16"
    reconstruction := sampleRef "float16" }

/-- A layer with one projection of one expert. -/
def sampleManifest : Manifest :=
  sealedManifest sampleHashing 0 [sampleChoice]

def sampleRoot : InstalledRoot where
  manifest := some sampleManifest
  store := sampleStore

theorem verify_sampleRef {dtype : String} (hdtype : dtype ∈ Dict.keys itemSizes) :
    verify sampleHashing.toHashing sampleStore (sampleRef dtype) = .ok [1, 0] := by
  have hstored : sampleStore.get? (sampleRef dtype).path = some [1, 0] := if_pos rfl
  have hbytes : 0 ≤ (sampleRef dtype).bytes := Int.natCast_nonneg 2
  simp only [verify, bind_eq_ok, require_eq_ok, hstored, pure_eq_ok]
  exact ⟨(), isHash_sample _, (), ⟨rfl, hdtype, hbytes⟩, (), ⟨rfl, rfl⟩,
    trivial⟩

theorem verifyInstalledLayer_sample :
    verifyInstalledLayer sampleHashing sampleRoot = .ok sampleManifest := by
  have hint := @verify_sampleRef "int16" (by decide)
  have hfloat := @verify_sampleRef "float16" (by decide)
  have hobjects : sampleChoice.objects.values.mapM
      (verify sampleHashing.toHashing sampleStore) =
        .ok [[1, 0], [1, 0], [1, 0], [1, 0]] := by
    change [sampleRef "int16", sampleRef "float16", sampleRef "float16",
      sampleRef "float16"].mapM _ = _
    simp only [List.mapM_cons, List.mapM_nil, hint, hfloat]
    rfl
  have hchoice : verifyChoice sampleHashing.toHashing sampleStore sampleChoice =
      .ok sampleChoice := verifyChoice_sealed isHash_sample hobjects 0 .downProj 3
  have hchoices : [sampleChoice].mapM (verifyChoice sampleHashing.toHashing sampleStore) =
      .ok [sampleChoice] := by
    rw [List.mapM_cons, hchoice]
    rfl
  refine verifyInstalledLayer_sealed isHash_sample (List.cons_ne_nil _ _) hchoices ?_
    (List.nodup_singleton _) (List.pairwise_singleton _ _) rfl rfl
  intro choice hmem
  rw [List.mem_singleton.mp hmem]
  exact ⟨rfl, rfl⟩

end GlmFlash.Checkpoint
