import GlmFlash.Checkpoint.BtxRows
import GlmFlash.Checkpoint.LayerAccounts

/-!
# Representable layers

What a compatible report says of each installed layer: its inventory is dense, its gate
and up projections share a rate, and its rates are among those that have codes.
-/

namespace GlmFlash.Checkpoint.Btx

open GlmFlash.Library

/-! ## Choices of a verified layer -/

section Choices

variable {hashing : LayerHashing} {root : InstalledRoot} {manifest : Manifest}
  {choices : Choices}

theorem find_eq_ok {expert : ℕ} {projection : Projection} {choice : Choice} :
    choices.find expert projection = .ok choice ↔
      choices.get? (expert, projection) = some choice := by
  rw [Choices.find]
  cases choices.get? (expert, projection) with
  | none => simp
  | some found => simp

theorem layerChoices_eq_ok (hfound : layerChoices hashing root = .ok (manifest, choices)) :
    verifyInstalledLayer hashing root = .ok manifest ∧
      choices = manifest.choices.map fun choice => (choiceKey choice, choice) := by
  simp only [layerChoices, bind_eq_ok, fromStore_eq_ok, pure_eq_ok, Prod.mk.injEq] at hfound
  obtain ⟨found, hverify, rfl, rfl⟩ := hfound
  have hkeys : (Dict.keys (found.choices.map fun choice =>
      (choiceKey choice, choice))).Nodup := by
    rw [Dict.keys, List.map_map]
    exact (verifyInstalledLayer_eq_ok hverify).nodup
  exact ⟨hverify, Dict.ofItems_eq hkeys⟩

/-- The choices of a verified layer stand under their own keys. -/
theorem mem_of_find {expert : ℕ} {projection : Projection} {choice : Choice}
    (hfound : layerChoices hashing root = .ok (manifest, choices))
    (hchoice : choices.find expert projection = .ok choice) :
    choice ∈ manifest.choices ∧ choice.projection = projection := by
  obtain ⟨-, rfl⟩ := layerChoices_eq_ok hfound
  obtain ⟨found, hmem, heq⟩ :=
    List.mem_map.mp (Dict.mem_of_get? (find_eq_ok.mp hchoice))
  rw [Prod.mk.injEq, choiceKey, Prod.mk.injEq] at heq
  obtain ⟨⟨-, hprojection⟩, rfl⟩ := heq
  exact ⟨hmem, hprojection⟩

theorem experts_ne_nil (hfound : layerChoices hashing root = .ok (manifest, choices)) :
    choices.experts ≠ [] := by
  obtain ⟨hverify, rfl⟩ := layerChoices_eq_ok hfound
  have hchoices : manifest.choices ≠ [] := by
    cases hstored : root.manifest with
    | none => simp [verifyInstalledLayer, hstored] at hverify
    | some stored =>
        simp only [verifyInstalledLayer, hstored, bind_eq_ok, require_eq_ok, pure_eq_ok]
          at hverify
        obtain ⟨-, -, -, -, -, -, -, -, -, hchoices, -, -, -, -, -, -, -, -, -, -, -, -, -, -,
          -, -, -, -, -, -, -, -, rfl⟩ := hverify
        exact hchoices
  obtain ⟨first, hfirst⟩ := List.exists_mem_of_ne_nil _ hchoices
  intro hnone
  have hmem : first.expert ∈
      Choices.experts (manifest.choices.map fun choice => (choiceKey choice, choice)) := by
    rw [Choices.experts, (List.perm_insertionSort _ _).mem_iff, List.mem_dedup, Dict.keys,
      List.map_map, List.map_map]
    exact List.mem_map_of_mem hfirst
  rw [hnone] at hmem
  cases hmem

theorem Choices.Dense.find (hdense : choices.Dense) {expert : ℕ}
    (hexpert : expert ∈ choices.experts) (projection : Projection) :
    ∃ choice, choices.find expert projection = .ok choice := by
  obtain ⟨choice, hchoice⟩ := Dict.mem_keys_iff.mp
    (hdense.2.1 (expert, projection) (mem_expectedKeys.mpr hexpert))
  exact ⟨choice, find_eq_ok.mpr hchoice⟩

end Choices

/-! ## The survey -/

/-- All matrices of an installed layer have its sizes, and the store holds what
`put_choice` made of them. -/
def StoredLayer (format : BtxFormat) (root : InstalledRoot) (hidden intermediate : ℕ) : Prop :=
  ∀ manifest, verifyInstalledLayer format.toLayerHashing root = .ok manifest →
    ∀ choice ∈ manifest.choices, WellStored format root.store hidden intermediate choice

@[simp]
theorem Survey.fail_failures_eq_nil {survey : Survey} {condition : Prop} [Decidable condition]
    {message : String} :
    (survey.fail condition message).failures = [] ↔ survey.failures = [] ∧ ¬ condition := by
  rw [Survey.fail]
  by_cases hcondition : condition
  · simp [hcondition]
  · simp [hcondition]

@[simp]
theorem Survey.fail_geometry (survey : Survey) (condition : Prop) [Decidable condition]
    (message : String) : (survey.fail condition message).geometry = survey.geometry := by
  rw [Survey.fail]
  split <;> rfl

@[simp]
theorem Survey.fail_observedBits (survey : Survey) (condition : Prop) [Decidable condition]
    (message : String) :
    (survey.fail condition message).observedBits = survey.observedBits := by
  rw [Survey.fail]
  split <;> rfl

section Survey

variable {format : BtxFormat} {root : InstalledRoot} {choices : Choices}
  {hidden intermediate : ℕ}

/-- What one expert adds to a survey without failures. -/
structure Surveyed (choices : Choices) (observedBits : List ℤ) (expert : ℕ) : Prop where
  shared : ∀ gate up, choices.find expert .gateProj = .ok gate →
    choices.find expert .upProj = .ok up → gate.bits = up.bits
  observed : ∀ projection choice, choices.find expert projection = .ok choice →
    choice.bits ∈ observedBits

theorem Surveyed.mono {observedBits more : List ℤ} {expert : ℕ}
    (hsurveyed : Surveyed choices observedBits expert) (hmore : observedBits ⊆ more) :
    Surveyed choices more expert :=
  ⟨hsurveyed.shared, fun projection choice hchoice =>
    hmore (hsurveyed.observed projection choice hchoice)⟩

theorem surveyExpert_eq_ok {store : PayloadStore} {layer numExperts expert : ℕ}
    {state next : LayerSurvey}
    (hstored : ∀ choice, choices.find expert .gateProj = .ok choice →
      WellStored format store hidden intermediate choice ∧ choice.projection = .gateProj)
    (hrun : surveyExpert format.toLayerHashing store layer numExperts choices state expert =
      .ok next) :
    next.layerGeometry = some ⟨numExperts, hidden, intermediate⟩ ∧
      next.survey.geometry = state.survey.geometry ∧
      state.survey.observedBits ⊆ next.survey.observedBits ∧
      (next.survey.failures = [] → state.survey.failures = [] ∧
        Surveyed choices next.survey.observedBits expert) := by
  simp only [surveyExpert, bind_eq_ok, fromStore_eq_ok, pure_eq_ok] at hrun
  obtain ⟨gate, hgate, up, hup, down, hdown, gateTensor, hload, -, -, -, -, found, hhidden,
    other, hintermediate, rfl⟩ := hrun
  obtain ⟨hwell, hprojection⟩ := hstored gate hgate
  obtain ⟨tensor, hload', hshape⟩ := hwell.reconstruction
  cases hload.symm.trans hload'
  rw [hprojection] at hshape
  rw [hshape] at hhidden hintermediate
  cases hhidden
  cases hintermediate
  refine ⟨rfl, ?_, ?_, fun hfailures => ?_⟩
  · simp only [Survey.fail_geometry]
  · intro rate hrate
    simp only [Survey.fail_observedBits, List.mem_insert_iff]
    exact .inr (.inr (.inr hrate))
  · simp only [Survey.fail_failures_eq_nil, not_not] at hfailures
    refine ⟨hfailures.1.1, ?_, ?_⟩
    · intro gate' up' hgate' hup'
      cases hgate.symm.trans hgate'
      cases hup.symm.trans hup'
      exact hfailures.2
    · intro projection choice hchoice
      simp only [Survey.fail_observedBits, List.mem_insert_iff]
      cases projection with
      | gateProj =>
          cases hgate.symm.trans hchoice
          exact .inr (.inr (.inl rfl))
      | upProj =>
          cases hup.symm.trans hchoice
          exact .inr (.inl rfl)
      | downProj =>
          cases hdown.symm.trans hchoice
          exact .inl rfl

theorem surveyExperts_eq_ok {store : PayloadStore} {layer numExperts : ℕ}
    {state final : LayerSurvey} {experts : List ℕ}
    (hstored : ∀ expert choice, choices.find expert .gateProj = .ok choice →
      WellStored format store hidden intermediate choice ∧ choice.projection = .gateProj)
    (hrun : experts.foldlM
      (surveyExpert format.toLayerHashing store layer numExperts choices) state = .ok final) :
    (experts ≠ [] → final.layerGeometry = some ⟨numExperts, hidden, intermediate⟩) ∧
      final.survey.geometry = state.survey.geometry ∧
      state.survey.observedBits ⊆ final.survey.observedBits ∧
      (final.survey.failures = [] → state.survey.failures = [] ∧
        ∀ expert ∈ experts, Surveyed choices final.survey.observedBits expert) := by
  induction experts generalizing state with
  | nil =>
      rw [List.foldlM_nil, pure_eq_ok] at hrun
      subst hrun
      exact ⟨fun hne => absurd rfl hne, rfl, List.Subset.refl _, fun hfailures =>
        ⟨hfailures, fun expert hexpert => by cases hexpert⟩⟩
  | cons expert experts ih =>
      rw [List.foldlM_cons, bind_eq_ok] at hrun
      obtain ⟨next, hfirst, hrest⟩ := hrun
      obtain ⟨hgeometry, hkept, hbits, hclean⟩ :=
        surveyExpert_eq_ok (hstored expert) hfirst
      obtain ⟨hgeometry', hkept', hbits', hclean'⟩ := ih hrest
      refine ⟨fun _ => ?_, hkept'.trans hkept, List.Subset.trans hbits hbits',
        fun hfailures => ?_⟩
      · by_cases hmore : experts = []
        · subst hmore
          rw [List.foldlM_nil, pure_eq_ok] at hrest
          exact hrest ▸ hgeometry
        · exact hgeometry' hmore
      · obtain ⟨hnext, hlater⟩ := hclean' hfailures
        obtain ⟨hstate, hthis⟩ := hclean hnext
        refine ⟨hstate, fun other hother => ?_⟩
        rcases List.mem_cons.mp hother with rfl | hmem
        · exact hthis.mono hbits'
        · exact hlater other hmem

/-- What a survey without failures says of a layer. -/
structure Accepted (format : BtxFormat) (root : InstalledRoot) (geometry : Option Geometry)
    (observedBits : List ℤ) (manifest : Manifest) (choices : Choices) : Prop where
  found : layerChoices format.toLayerHashing root = .ok (manifest, choices)
  dense : choices.Dense
  whole : ∀ sizes ∈ geometry, ¬ sizes.Ragged
  sizes : ∀ hidden intermediate, StoredLayer format root hidden intermediate →
    geometry = some ⟨choices.experts.length, hidden, intermediate⟩
  surveyed : ∀ expert ∈ choices.experts, Surveyed choices observedBits expert

theorem Accepted.mono {geometry : Option Geometry} {observedBits more : List ℤ}
    {manifest : Manifest} (haccepted : Accepted format root geometry observedBits manifest choices)
    (hmore : observedBits ⊆ more) : Accepted format root geometry more manifest choices :=
  { haccepted with
    surveyed := fun expert hexpert => (haccepted.surveyed expert hexpert).mono hmore }

/-- The sizes of a layer are those of the survey, unless one of them fails. -/
theorem closeLayer_failures {layer : ℕ} {state : LayerSurvey} {sizes : Geometry}
    (hgeometry : state.layerGeometry = some sizes)
    (hfailures : (closeLayer layer state).failures = []) :
    state.survey.failures = [] ∧ ¬ sizes.Ragged ∧
      (closeLayer layer state).geometry = some sizes ∧
      (state.survey.geometry = none ∨ state.survey.geometry = some sizes) := by
  have hclean : (state.survey.failures = [] ∧ ¬ sizes.Ragged) ∧
      ¬ (state.survey.geometry ≠ none ∧ state.survey.geometry ≠ some sizes) := by
    simp only [closeLayer, Survey.fail_failures_eq_nil, Survey.fail_geometry, hgeometry,
      Option.mem_def, Option.some.injEq, exists_eq_left'] at hfailures
    exact hfailures
  have hsame : state.survey.geometry = none ∨ state.survey.geometry = some sizes := by
    by_contra hother
    rw [not_or] at hother
    exact hclean.2 hother
  refine ⟨hclean.1.1, hclean.1.2, ?_, hsame⟩
  simp only [closeLayer, Survey.fail_geometry, hgeometry]
  rcases hsame with hnone | hsome
  · rw [hnone, Option.none_or]
  · rw [hsome, Option.some_or]

theorem surveyLayer_eq_ok {survey next : Survey}
    (hstored : StoredLayer format root hidden intermediate)
    (hrun : surveyLayer format.toLayerHashing survey root = .ok next)
    (hfailures : next.failures = []) :
    survey.failures = [] ∧ survey.observedBits ⊆ next.observedBits ∧
      (survey.geometry = none ∨ survey.geometry = next.geometry) ∧
      ∃ manifest choices,
        Accepted format root next.geometry next.observedBits manifest choices := by
  simp only [surveyLayer, bind_eq_ok] at hrun
  obtain ⟨⟨manifest, choices⟩, hfound, hrun⟩ := hrun
  by_cases hdense : choices.Dense
  · simp only [hdense, if_true, bind_eq_ok, pure_eq_ok] at hrun
    obtain ⟨state, hexperts, rfl⟩ := hrun
    have hwell : ∀ expert choice, choices.find expert .gateProj = .ok choice →
        WellStored format root.store hidden intermediate choice ∧
          choice.projection = .gateProj := by
      intro expert choice hchoice
      obtain ⟨hmem, hprojection⟩ := mem_of_find hfound hchoice
      exact ⟨hstored manifest (layerChoices_eq_ok hfound).1 choice hmem, hprojection⟩
    obtain ⟨hgeometry, hkept, hbits, hclean⟩ := surveyExperts_eq_ok hwell hexperts
    obtain ⟨hstate, hwhole, hsizes, hsame⟩ :=
      closeLayer_failures (hgeometry (experts_ne_nil hfound)) hfailures
    obtain ⟨hsurvey, hsurveyed⟩ := hclean hstate
    have hobserved : (closeLayer manifest.layer state).observedBits =
        state.survey.observedBits := by
      simp only [closeLayer, Survey.fail_observedBits]
    rw [hkept] at hsame
    refine ⟨hsurvey, hobserved ▸ hbits, hsizes ▸ hsame, manifest, choices, hfound, hdense, ?_,
      ?_, hobserved ▸ hsurveyed⟩
    · intro sizes hmem
      cases hsizes.symm.trans hmem
      exact hwhole
    · intro hidden' intermediate' hstored'
      have hwell' : ∀ expert choice, choices.find expert .gateProj = .ok choice →
          WellStored format root.store hidden' intermediate' choice ∧
            choice.projection = .gateProj := fun expert choice hchoice =>
        ⟨hstored' manifest (layerChoices_eq_ok hfound).1 choice (mem_of_find hfound hchoice).1,
          (hwell expert choice hchoice).2⟩
      rw [hsizes, ← hgeometry (experts_ne_nil hfound)]
      exact (surveyExperts_eq_ok hwell' hexperts).1 (experts_ne_nil hfound)
  · simp only [hdense, if_false, pure_eq_ok] at hrun
    subst hrun
    rw [Survey.fail_failures_eq_nil] at hfailures
    exact absurd trivial hfailures.2

/-- A survey of many layers. -/
theorem surveyLayers_eq_ok {roots : List InstalledRoot} {survey final : Survey}
    (hstored : ∀ root ∈ roots, ∃ hidden intermediate, StoredLayer format root hidden intermediate)
    (hrun : roots.foldlM (surveyLayer format.toLayerHashing) survey = .ok final)
    (hfailures : final.failures = []) :
    survey.failures = [] ∧ survey.observedBits ⊆ final.observedBits ∧
      (survey.geometry = none ∨ survey.geometry = final.geometry) ∧
      ∀ root ∈ roots, ∃ manifest choices,
        Accepted format root final.geometry final.observedBits manifest choices := by
  induction roots generalizing survey with
  | nil =>
      rw [List.foldlM_nil, pure_eq_ok] at hrun
      subst hrun
      exact ⟨hfailures, List.Subset.refl _, .inr rfl, fun root hroot => by cases hroot⟩
  | cons root roots ih =>
      rw [List.foldlM_cons, bind_eq_ok] at hrun
      obtain ⟨next, hfirst, hrest⟩ := hrun
      obtain ⟨hnext, hbits, hgeometry, hlater⟩ :=
        ih (fun other hother => hstored other (List.mem_cons_of_mem root hother)) hrest
      obtain ⟨hidden, intermediate, hlayer⟩ := hstored root List.mem_cons_self
      obtain ⟨hsurvey, hbits', hgeometry', manifest, choices, haccepted⟩ :=
        surveyLayer_eq_ok hlayer hfirst hnext
      have hsizes := haccepted.sizes hidden intermediate hlayer
      have hkept : next.geometry = final.geometry := by
        rcases hgeometry with hnone | hsame
        · rw [hsizes] at hnone
          cases hnone
        · exact hsame
      rw [hkept] at hgeometry' haccepted
      refine ⟨hsurvey, List.Subset.trans hbits' hbits, hgeometry', fun other hother => ?_⟩
      rcases List.mem_cons.mp hother with rfl | hmem
      · exact ⟨manifest, choices, haccepted.mono hbits⟩
      · exact hlater other hmem

end Survey

/-! ## A compatible report -/

/-- The rate of a choice. -/
def Choices.bitsAt (choices : Choices) (expert : ℕ) (projection : Projection) : ℕ :=
  ((choices.get? (expert, projection)).map (·.bits.toNat)).getD 0

def Choices.rates (choices : Choices) (expert : ℕ) : Paired where
  fc1 := choices.bitsAt expert .gateProj
  fc2 := choices.bitsAt expert .downProj

theorem bitsAt_eq {choices : Choices} {expert : ℕ} {projection : Projection} {choice : Choice}
    (hchoice : choices.find expert projection = .ok choice) :
    choices.bitsAt expert projection = choice.bits.toNat := by
  rw [Choices.bitsAt, find_eq_ok.mp hchoice]
  rfl

/-- What the container needs to know of an installed layer: the experts by number, each
with three choices at its rates. -/
structure Representable (format : BtxFormat) (root : InstalledRoot) (geometry : Geometry)
    (declared : RateStructure) (uniformBits : Option ℤ) (manifest : Manifest)
    (choices : Choices) : Prop where
  found : layerChoices format.toLayerHashing root = .ok (manifest, choices)
  experts : choices.experts = List.range geometry.numExperts
  nonempty : 0 < geometry.numExperts
  whole : ¬ geometry.Ragged
  finds : ∀ expert < geometry.numExperts, ∀ projection, ∃ choice,
    choices.find expert projection = .ok choice ∧ choice.projection = projection ∧
      choice.bits = (choices.rates expert).rate projection ∧
      WellStored format root.store geometry.hiddenSize geometry.intermediateSize choice
  coded : AllCoded geometry.numExperts choices.rates
  uniform : declared = .uniform → ∃ rate, Coded rate ∧ uniformBits = some (rate : ℤ) ∧
    ∀ expert < geometry.numExperts, choices.rates expert = ⟨rate, rate⟩
  paired : declared = .perExpertPair → ∀ expert < geometry.numExperts,
    ((choices.rates expert).fc1 = 3 ∨ (choices.rates expert).fc1 = 4) ∧
      ((choices.rates expert).fc2 = 3 ∨ (choices.rates expert).fc2 = 4)

/-- The rates that a layer may have under a declared structure. -/
def BitsAllowed (declared : RateStructure) (uniformBits : Option ℤ) (observedBits : List ℤ) :
    Prop :=
  match declared with
  | .uniform => ∃ rate, Coded rate ∧ uniformBits = some (rate : ℤ) ∧
      ∀ bits ∈ observedBits, bits = rate
  | .perExpertPair => ∀ bits ∈ observedBits, bits = 3 ∨ bits = 4

section Compatible

variable {format : BtxFormat} {roots : List InstalledRoot} {requireFused : Bool}
  {degrees : List ℤ} {report : Report}

theorem closeSurvey_geometry (survey : Survey) :
    (closeSurvey survey requireFused degrees).geometry = survey.geometry := by
  simp only [closeSurvey, Survey.fail_geometry]

theorem closeSurvey_compatible {survey : Survey}
    (hcompatible : (closeSurvey survey requireFused degrees).compatible = true) :
    survey.failures = [] ∧ ∀ declared,
      (closeSurvey survey requireFused degrees).rateStructure = some declared →
        BitsAllowed declared (closeSurvey survey requireFused degrees).uniformBits
          survey.observedBits := by
  simp only [closeSurvey, List.isEmpty_iff, List.append_eq_nil_iff,
    Survey.fail_failures_eq_nil, Survey.fail_observedBits] at hcompatible
  obtain ⟨⟨⟨⟨⟨⟨hfailures, -⟩, hpair⟩, huniform⟩, -⟩, -⟩, -⟩ := hcompatible
  refine ⟨hfailures, fun declared hdeclared => ?_⟩
  change survey.structures.head? = some declared at hdeclared
  cases declared with
  | uniform =>
      rw [not_and, not_not] at huniform
      have hrate := huniform hdeclared
      change BitsAllowed .uniform (if survey.structures.head? = some .uniform ∧
        survey.observedBits.length = 1 then survey.observedBits.head? else none) _
      by_cases hone : survey.observedBits.length = 1
      · rw [if_pos ⟨hdeclared, hone⟩] at hrate ⊢
        obtain ⟨bits, hbits⟩ := List.length_eq_one_iff.mp hone
        rw [hbits] at hrate ⊢
        have hcoded : bits = 3 ∨ bits = 4 ∨ bits = 5 ∨ bits = 6 := by
          simpa using hrate
        have hnat : ∃ rate : ℕ, Coded rate ∧ bits = rate := by
          rcases hcoded with rfl | rfl | rfl | rfl
          · exact ⟨3, .inl rfl, rfl⟩
          · exact ⟨4, .inr (.inl rfl), rfl⟩
          · exact ⟨5, .inr (.inr (.inl rfl)), rfl⟩
          · exact ⟨6, .inr (.inr (.inr rfl)), rfl⟩
        obtain ⟨rate, hcode, rfl⟩ := hnat
        exact ⟨rate, hcode, rfl, fun other hother => List.mem_singleton.mp hother⟩
      · rw [if_neg (fun hboth => hone hboth.2)] at hrate
        simp at hrate
  | perExpertPair =>
      intro bits hbits
      by_contra hother
      rw [not_or] at hother
      exact hpair ⟨hdeclared, bits, hbits, hother⟩

theorem btxCompatibilityReport_eq_ok
    (hrun : btxCompatibilityReport format roots requireFused degrees = .ok report) :
    ∃ survey, roots.foldlM (surveyLayer format.toLayerHashing) emptySurvey = .ok survey ∧
      report.toReportBody = closeSurvey survey requireFused degrees := by
  simp only [btxCompatibilityReport, bind_eq_ok, pure_eq_ok] at hrun
  obtain ⟨survey, hsurvey, rfl⟩ := hrun
  exact ⟨survey, hsurvey, rfl⟩

/-- A layer that the survey accepts has rates with codes. -/
theorem Accepted.representable {root : InstalledRoot} {geometry : Geometry}
    {observedBits : List ℤ} {manifest : Manifest} {choices : Choices}
    {declared : RateStructure} {uniformBits : Option ℤ} {hidden intermediate : ℕ}
    (haccepted : Accepted format root (some geometry) observedBits manifest choices)
    (hallowed : BitsAllowed declared uniformBits observedBits)
    (hstored : StoredLayer format root hidden intermediate) :
    Representable format root geometry declared uniformBits manifest choices := by
  have hsizes := Option.some.inj (haccepted.sizes hidden intermediate hstored)
  have hexperts : choices.experts = List.range geometry.numExperts := by
    rw [hsizes]
    exact haccepted.dense.2.2
  have hmem : ∀ {expert}, expert < geometry.numExperts → expert ∈ choices.experts := by
    intro expert hexpert
    rw [hexperts]
    exact List.mem_range.mpr hexpert
  have hnatural : ∀ bits ∈ observedBits, bits = (bits.toNat : ℤ) ∧ Coded bits.toNat := by
    intro bits hbits
    cases declared with
    | uniform =>
        obtain ⟨rate, hrate, -, hall⟩ := hallowed
        rw [hall bits hbits, Int.toNat_natCast]
        exact ⟨rfl, hrate⟩
    | perExpertPair =>
        rcases hallowed bits hbits with rfl | rfl
        · exact ⟨rfl, .inl rfl⟩
        · exact ⟨rfl, .inr (.inl rfl)⟩
  have hobserved : ∀ {expert projection choice}, expert < geometry.numExperts →
      choices.find expert projection = .ok choice → choice.bits ∈ observedBits :=
    fun hexpert hchoice => (haccepted.surveyed _ (hmem hexpert)).observed _ _ hchoice
  have hrates : ∀ {expert projection choice}, expert < geometry.numExperts →
      choices.find expert projection = .ok choice →
        (choices.rates expert).rate projection = choice.bits.toNat := by
    intro expert projection choice hexpert hchoice
    cases projection with
    | upProj =>
        obtain ⟨gate, hgate⟩ := haccepted.dense.find (hmem hexpert) .gateProj
        rw [Paired.rate, Choices.rates, bitsAt_eq hgate,
          (haccepted.surveyed expert (hmem hexpert)).shared gate choice hgate hchoice]
    | _ => exact bitsAt_eq hchoice
  have hall : ∀ {expert}, expert < geometry.numExperts → ∀ projection, ∃ bits ∈ observedBits,
      bits = ((choices.rates expert).rate projection : ℤ) ∧
        Coded ((choices.rates expert).rate projection) := by
    intro expert hexpert projection
    obtain ⟨choice, hchoice⟩ := haccepted.dense.find (hmem hexpert) projection
    have hbits := hobserved hexpert hchoice
    rw [hrates hexpert hchoice]
    exact ⟨choice.bits, hbits, hnatural _ hbits⟩
  refine ⟨haccepted.found, hexperts, ?_, haccepted.whole geometry rfl, ?_, ?_, ?_, ?_⟩
  · rw [hsizes]
    exact List.length_pos_of_ne_nil (experts_ne_nil haccepted.found)
  · intro expert hexpert projection
    obtain ⟨choice, hchoice⟩ := haccepted.dense.find (hmem hexpert) projection
    obtain ⟨hstoredChoice, hprojection⟩ := mem_of_find haccepted.found hchoice
    refine ⟨choice, hchoice, hprojection, ?_, ?_⟩
    · rw [hrates hexpert hchoice]
      exact (hnatural _ (hobserved hexpert hchoice)).1
    · rw [hsizes]
      exact hstored manifest (layerChoices_eq_ok haccepted.found).1 choice hstoredChoice
  · intro expert hexpert
    obtain ⟨-, -, -, hgate⟩ := hall hexpert .gateProj
    obtain ⟨-, -, -, hdown⟩ := hall hexpert .downProj
    exact ⟨hgate, hdown⟩
  · rintro rfl
    obtain ⟨rate, hrate, huniform, hsame⟩ := hallowed
    refine ⟨rate, hrate, huniform, fun expert hexpert => ?_⟩
    have heq : ∀ projection, (choices.rates expert).rate projection = rate := by
      intro projection
      obtain ⟨bits, hbits, hat, -⟩ := hall hexpert projection
      exact Int.ofNat.inj (hat.symm.trans (hsame bits hbits))
    exact Paired.mk.injEq _ _ _ _ ▸ ⟨heq .gateProj, heq .downProj⟩
  · rintro rfl expert hexpert
    have hpair : ∀ projection, (choices.rates expert).rate projection = 3 ∨
        (choices.rates expert).rate projection = 4 := by
      intro projection
      obtain ⟨bits, hbits, hat, -⟩ := hall hexpert projection
      have heither := hallowed bits hbits
      omega
    exact ⟨hpair .gateProj, hpair .downProj⟩

/-- Every layer of a compatible report can be represented. -/
theorem representable_of_compatible {geometry : Geometry} {declared : RateStructure}
    (hstored : ∀ root ∈ roots, ∃ hidden intermediate, StoredLayer format root hidden intermediate)
    (hrun : btxCompatibilityReport format roots requireFused degrees = .ok report)
    (hcompatible : report.compatible = true) (hgeometry : report.geometry = some geometry)
    (hdeclared : report.rateStructure = some declared) {root : InstalledRoot}
    (hroot : root ∈ roots) :
    ∃ manifest choices,
      Representable format root geometry declared report.uniformBits manifest choices := by
  obtain ⟨survey, hsurvey, hbody⟩ := btxCompatibilityReport_eq_ok hrun
  rw [hbody] at hcompatible hgeometry hdeclared ⊢
  obtain ⟨hfailures, hallowed⟩ := closeSurvey_compatible hcompatible
  obtain ⟨-, -, -, haccepted⟩ := surveyLayers_eq_ok hstored hsurvey hfailures
  rw [closeSurvey_geometry] at hgeometry
  rw [hgeometry] at haccepted
  obtain ⟨manifest, choices, hlayer⟩ := haccepted root hroot
  obtain ⟨hidden, intermediate, hstoredLayer⟩ := hstored root hroot
  exact ⟨manifest, choices, hlayer.representable (hallowed declared hdeclared) hstoredLayer⟩

end Compatible

end GlmFlash.Checkpoint.Btx
