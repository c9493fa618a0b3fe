import GlmFlash.Checkpoint.BtxEmission

/-!
# Shapes that an emission needs

The store looks at the vectors of a choice beside its reconstruction, but at no trellis, and
the report takes the sizes of a layer from its last expert.  Only the assembly finds out:
it fails unless all trellises of a layer have the shape of one geometry.
-/

namespace GlmFlash.Checkpoint.Btx

open GlmFlash.Library

/-! ## What is stored, and of which shape -/

/-- What `put_choice` checks of the tensors of a choice, with vectors of finite numbers. -/
structure PutChoice (format : BtxFormat) (store : PayloadStore) (rows columns : ℕ)
    (choice : Choice) : Prop where
  reconstruction : ∃ tensor,
    loadTensor format.toHashing store choice.objects.reconstruction = .ok tensor ∧
      tensor.shape = [rows, columns]
  trellis : ∃ tensor, loadTensor format.toHashing store choice.objects.trellis = .ok tensor ∧
    tensor.dtype = "int16"
  suh : ∃ tensor, loadTensor format.toHashing store choice.objects.suh = .ok tensor ∧
    HalfVector tensor columns
  svh : ∃ tensor, loadTensor format.toHashing store choice.objects.svh = .ok tensor ∧
    HalfVector tensor rows

def PutLayer (format : BtxFormat) (root : InstalledRoot) : Prop :=
  ∀ manifest, verifyInstalledLayer format.toLayerHashing root = .ok manifest →
    ∀ choice ∈ manifest.choices, ∃ rows columns,
      PutChoice format root.store rows columns choice

/-- The reconstruction and the trellis of a choice have the shapes of a geometry. -/
structure Shaped (format : BtxFormat) (store : PayloadStore) (hidden intermediate : ℕ)
    (choice : Choice) : Prop where
  reconstruction : ∀ tensor,
    loadTensor format.toHashing store choice.objects.reconstruction = .ok tensor →
      tensor.shape = reconstructionShape choice.projection hidden intermediate
  trellis : ∀ tensor, loadTensor format.toHashing store choice.objects.trellis = .ok tensor →
    (tensor.shape.map Int.ofNat : List ℤ) =
      expectedShape choice.projection hidden intermediate choice.bits

def ShapedLayer (format : BtxFormat) (root : InstalledRoot) (hidden intermediate : ℕ) : Prop :=
  ∀ manifest, verifyInstalledLayer format.toLayerHashing root = .ok manifest →
    ∀ choice ∈ manifest.choices, Shaped format root.store hidden intermediate choice

theorem PutChoice.wellStored {format : BtxFormat} {store : PayloadStore} {choice : Choice}
    {rows columns hidden intermediate : ℕ} (hput : PutChoice format store rows columns choice)
    (hshaped : Shaped format store hidden intermediate choice) :
    WellStored format store hidden intermediate choice := by
  obtain ⟨reconstruction, hreconstruction, hsizes⟩ := hput.reconstruction
  obtain ⟨trellis, htrellis, hdtype⟩ := hput.trellis
  have hshape := hshaped.reconstruction _ hreconstruction
  have hsides : reconstructionShape choice.projection hidden intermediate = [rows, columns] :=
    hshape.symm.trans hsizes
  refine ⟨⟨_, hreconstruction, hshape⟩, ⟨_, htrellis, hdtype, hshaped.trellis _ htrellis⟩, ?_, ?_⟩
  · rw [hsides]
    exact hput.suh
  · rw [hsides]
    exact hput.svh

theorem storedLayer_of_shaped {format : BtxFormat} {root : InstalledRoot}
    {hidden intermediate : ℕ} (hput : PutLayer format root)
    (hshaped : ShapedLayer format root hidden intermediate) :
    StoredLayer format root hidden intermediate := by
  intro manifest hverify choice hchoice
  obtain ⟨rows, columns, hstored⟩ := hput manifest hverify choice hchoice
  exact hstored.wellStored (hshaped manifest hverify choice hchoice)

/-! ## What the report has seen -/

section Report

variable {format : BtxFormat}

/-- The matrices of an expert fit those of its gate. -/
def FitsGate (format : BtxFormat) (store : PayloadStore) (choices : Choices) (expert : ℕ) :
    Prop :=
  ∀ gate tensor intermediate hidden, choices.find expert .gateProj = .ok gate →
    loadTensor format.toHashing store gate.objects.reconstruction = .ok tensor →
      tensor.shape = [intermediate, hidden] →
        ∀ projection choice other, choices.find expert projection = .ok choice →
          loadTensor format.toHashing store choice.objects.reconstruction = .ok other →
            other.shape = reconstructionShape projection hidden intermediate

theorem fitsGate_of_survey {store : PayloadStore} {layer numExperts expert : ℕ}
    {choices : Choices} {state next : LayerSurvey}
    (hrun : surveyExpert format.toLayerHashing store layer numExperts choices state expert =
      .ok next) (hfailures : next.survey.failures = []) :
    state.survey.failures = [] ∧ FitsGate format store choices expert := by
  simp only [surveyExpert, bind_eq_ok, fromStore_eq_ok, pure_eq_ok] at hrun
  obtain ⟨gate, hgate, up, hup, down, hdown, gateTensor, hload, upTensor, hupLoad, downTensor,
    hdownLoad, found, hhidden, other, hintermediate, rfl⟩ := hrun
  simp only [Survey.fail_failures_eq_nil, not_or, not_not] at hfailures
  refine ⟨hfailures.1.1, ?_⟩
  intro gate' tensor intermediate hidden hgate' hload' hshape projection choice matrix hchoice
    hmatrix
  cases hgate.symm.trans hgate'
  cases hload.symm.trans hload'
  rw [hshape] at hhidden hintermediate
  cases hhidden
  cases hintermediate
  cases projection with
  | gateProj =>
      cases hgate.symm.trans hchoice
      cases hload.symm.trans hmatrix
      exact hshape
  | upProj =>
      cases hup.symm.trans hchoice
      cases hupLoad.symm.trans hmatrix
      exact hfailures.1.2.1
  | downProj =>
      cases hdown.symm.trans hchoice
      cases hdownLoad.symm.trans hmatrix
      exact hfailures.1.2.2

theorem fitsGate_of_layer {survey next : Survey} {root : InstalledRoot}
    (hrun : surveyLayer format.toLayerHashing survey root = .ok next)
    (hfailures : next.failures = []) :
    survey.failures = [] ∧ ∃ manifest choices,
      layerChoices format.toLayerHashing root = .ok (manifest, choices) ∧
        ∀ expert ∈ choices.experts, FitsGate format root.store choices expert := by
  simp only [surveyLayer, bind_eq_ok] at hrun
  obtain ⟨⟨manifest, choices⟩, hfound, hrun⟩ := hrun
  by_cases hdense : choices.Dense
  · simp only [hdense, if_true, bind_eq_ok, pure_eq_ok] at hrun
    obtain ⟨state, hexperts, rfl⟩ := hrun
    have hstate : state.survey.failures = [] := by
      simp only [closeLayer, Survey.fail_failures_eq_nil] at hfailures
      exact hfailures.1.1
    obtain ⟨hsurvey, hfits⟩ := foldlM_backwards
      (fun _ _ _ hstep hnext => fitsGate_of_survey hstep hnext) hexperts hstate
    exact ⟨hsurvey, manifest, choices, hfound, hfits⟩
  · simp only [hdense, if_false, pure_eq_ok] at hrun
    subst hrun
    rw [Survey.fail_failures_eq_nil] at hfailures
    exact absurd trivial hfailures.2

theorem fitsGate_of_compatible {roots : List InstalledRoot} {requireFused : Bool}
    {degrees : List ℤ} {report : Report}
    (hreport : btxCompatibilityReport format roots requireFused degrees = .ok report)
    (hcompatible : report.compatible = true) {root : InstalledRoot} (hroot : root ∈ roots) :
    ∃ manifest choices, layerChoices format.toLayerHashing root = .ok (manifest, choices) ∧
      ∀ expert ∈ choices.experts, FitsGate format root.store choices expert := by
  obtain ⟨survey, hsurvey, hbody⟩ := btxCompatibilityReport_eq_ok hreport
  rw [hbody] at hcompatible
  obtain ⟨-, hlayers⟩ := foldlM_backwards (fun _ _ _ hstep hnext => fitsGate_of_layer hstep hnext)
    hsurvey (closeSurvey_compatible hcompatible).1
  exact hlayers root hroot

end Report

/-! ## What the assembly has seen -/

section Assembly

variable {format : BtxFormat} {conversion : HalfConversion} {store : PayloadStore}
  {choices : Choices} {declared : RateStructure} {rowAlignment : ℕ}
  {tensors : Dict String Tensor} {kinds : List String}

/-- What an assembly that returns has gone through. -/
structure Traversed (format : BtxFormat) (conversion : HalfConversion) (store : PayloadStore)
    (choices : Choices) (hidden intermediate : ℕ) (tensors : Dict String Tensor) : Prop where
  experts : choices.experts = List.range choices.experts.length
  first : ∃ gate tensor, choices.find (choices.experts.headD 0) .gateProj = .ok gate ∧
    loadTensor format.toHashing store gate.objects.reconstruction = .ok tensor ∧
      tensor.shape = [intermediate, hidden]
  slots : 0 < intermediate / atomChannels
  vectors : ∃ vectors tables,
    choices.experts.mapM (loadVectors format conversion store choices
      (intermediate / atomChannels)) = .ok vectors ∧
    hiddenTables vectors = .ok tables ∧ tensors.get? "gate_suh" = tables.head?
  row : ∃ stride rowSize row, packRow format store choices choices.experts hidden intermediate
    stride rowSize 0 = .ok row

theorem traversed_of_run
    (hrun : assembleLayer format conversion store choices declared rowAlignment =
      .ok (tensors, kinds)) :
    ∃ hidden intermediate,
      Traversed format conversion store choices hidden intermediate tensors := by
  simp only [assembleLayer, bind_eq_ok, require_eq_ok, fromStore_eq_ok] at hrun
  obtain ⟨-, -, gate, hgate, tensor, hload, -, hleast, -, hmost, intermediate, hintermediate,
    hidden, hhidden, -, hexperts, rated, -, rowSizes, hrowSizes, stride, hstride, vectors,
    hvectors, rotations, -, tables, htables, rows, hrows, atoms, -, hresult⟩ := hrun
  have hshape : tensor.shape = [intermediate, hidden] := by
    obtain ⟨first, second, hpair⟩ := List.length_eq_two.mp (le_antisymm hmost hleast)
    rw [hpair] at hintermediate hhidden ⊢
    cases hintermediate
    cases hhidden
    rfl
  have hslots : 0 < intermediate / atomChannels := by
    apply Nat.pos_of_ne_zero
    intro hzero
    rw [hzero, List.range_zero, List.mapM_nil, pure_eq_ok] at hrowSizes
    subst hrowSizes
    simp only [rowStride, bind_eq_ok, require_eq_ok] at hstride
    exact hstride.choose_spec.1 rfl
  have hgateTable : tensors.get? "gate_suh" = tables.head? := by
    cases declared with
    | uniform =>
        rw [pure_eq_ok, Prod.mk.injEq] at hresult
        obtain ⟨rfl, -⟩ := hresult
        cases tables with
        | nil => rfl
        | cons gate rest => rfl
    | perExpertPair =>
        simp only [bind_eq_ok, pure_eq_ok, Prod.mk.injEq] at hresult
        obtain ⟨fc1, -, fc2, -, rfl, -⟩ := hresult
        cases tables with
        | nil => rfl
        | cons gate rest => rfl
  obtain ⟨row, -, hrow⟩ := forall₂_mem_left (forall₂_of_mapM hrows) (List.mem_range.mpr hslots)
  exact ⟨hidden, intermediate, hexperts, ⟨gate, tensor, hgate, hload, hshape⟩, hslots,
    ⟨vectors, tables, hvectors, htables, hgateTable⟩, ⟨stride, _, row, hrow⟩⟩

theorem trellis_of_planes {choice : Choice} {projection : Projection}
    {slot hidden intermediate : ℕ} {planes : Tensor × Tensor} {trellis : Tensor}
    (hrun : trellisPlanes format store choice projection slot hidden intermediate = .ok planes)
    (hload : loadTensor format.toHashing store choice.objects.trellis = .ok trellis) :
    (trellis.shape.map Int.ofNat : List ℤ) =
      expectedShape projection hidden intermediate choice.bits := by
  by_contra hother
  rw [trellisPlanes, hload] at hrun
  simp only [fromStore, ok_bind, ne_eq, hother, not_false_eq_true, if_true] at hrun
  cases hrun

/-- Every trellis of a packed row has the expected shape. -/
theorem Traversed.trellis {hidden intermediate : ℕ}
    (htraversed : Traversed format conversion store choices hidden intermediate tensors)
    {expert : ℕ} (hexpert : expert ∈ choices.experts) {projection : Projection} {choice : Choice}
    (hchoice : choices.find expert projection = .ok choice) {trellis : Tensor}
    (hload : loadTensor format.toHashing store choice.objects.trellis = .ok trellis) :
    (trellis.shape.map Int.ofNat : List ℤ) =
      expectedShape projection hidden intermediate choice.bits := by
  obtain ⟨stride, rowSize, row, hrow⟩ := htraversed.row
  simp only [packRow, bind_eq_ok] at hrow
  obtain ⟨packing, hpacking, -⟩ := hrow
  obtain ⟨-, hkeys⟩ := @foldlM_backwards _ _ _ _ (fun _ => True)
    (fun key : ℕ × Projection => ∃ choice planes, choices.find key.1 key.2 = .ok choice ∧
      trellisPlanes format store choice key.2 0 hidden intermediate = .ok planes)
    (fun _ key _ hstep _ => by
      simp only [packProjection, bind_eq_ok] at hstep
      obtain ⟨choice, hfind, planes, hplanes, -⟩ := hstep
      exact ⟨trivial, choice, planes, hfind, hplanes⟩) _ _ _ hpacking trivial
  obtain ⟨found, planes, hfound, hplanes⟩ :=
    hkeys (expert, projection) (mem_expectedKeys.mpr hexpert)
  cases hfound.symm.trans hchoice
  exact trellis_of_planes hplanes hload

/-! ## Vectors -/

theorem loadHalf_eq {ref : ObjectRef} {tensor : Tensor}
    (hload : loadTensor format.toHashing store ref = .ok tensor)
    (hdtype : tensor.dtype = "float16") :
    loadHalf format conversion store ref = .ok tensor := by
  rw [loadHalf, hload, fromStore, ok_bind, half, if_pos hdtype]
  rfl

/-- The vector of a choice along the hidden channels. -/
def hiddenVector : Projection → ChoiceObjects → ObjectRef
  | .downProj, objects => objects.svh
  | _, objects => objects.suh

def ExpertVectors.hidden (vectors : ExpertVectors) : Projection → Tensor
  | .gateProj => vectors.gateHidden
  | .upProj => vectors.upHidden
  | .downProj => vectors.downHidden

theorem hidden_of_load {slots expert : ℕ} {vectors : ExpertVectors}
    (hrun : loadVectors format conversion store choices slots expert = .ok vectors)
    (projection : Projection) :
    ∃ choice, choices.find expert projection = .ok choice ∧
      loadHalf format conversion store (hiddenVector projection choice.objects) =
        .ok (vectors.hidden projection) := by
  simp only [loadVectors, bind_eq_ok, pure_eq_ok] at hrun
  obtain ⟨gate, hgate, up, hup, down, hdown, gateHidden, hgateHidden, upHidden, hupHidden,
    downHidden, hdownHidden, rotations, -, rfl⟩ := hrun
  cases projection with
  | gateProj => exact ⟨gate, hgate, hgateHidden⟩
  | upProj => exact ⟨up, hup, hupHidden⟩
  | downProj => exact ⟨down, hdown, hdownHidden⟩

/-- The vector of a gate along the slots fills them. -/
theorem gateSlots_of_load {slots expert : ℕ} {vectors : ExpertVectors} {gate : Choice}
    {vector : Tensor} {rows : ℕ}
    (hrun : loadVectors format conversion store choices slots expert = .ok vectors)
    (hgate : choices.find expert .gateProj = .ok gate)
    (hload : loadTensor format.toHashing store gate.objects.svh = .ok vector)
    (hvector : HalfVector vector rows) : rows = slots * atomChannels := by
  simp only [loadVectors, bind_eq_ok, List.mapM_cons] at hrun
  obtain ⟨found, hfound, up, -, down, -, -, -, -, -, -, -, rotations,
    ⟨first, ⟨loaded, hloaded, _, hprod, -⟩, -⟩, -⟩ := hrun
  rw [require_eq_ok] at hprod
  cases hfound.symm.trans hgate
  cases hloaded.symm.trans (loadHalf_eq hload hvector.dtype)
  rwa [hvector.shape, List.prod_singleton] at hprod

theorem shape_of_stack {rows : List Tensor} {table : Tensor} (hrun : stack rows = .ok table) :
    ∃ first, rows.head? = some first ∧ table.shape = rows.length :: first.shape ∧
      ∀ row ∈ rows, row.shape = first.shape := by
  cases rows with
  | nil => cases hrun
  | cons first later =>
      simp only [stack, bind_eq_ok, require_eq_ok, tensorOf] at hrun
      obtain ⟨-, hshapes, hrun⟩ := hrun
      split at hrun
      · cases hrun
        exact ⟨first, rfl, rfl, List.forall_mem_cons.mpr ⟨rfl, hshapes⟩⟩
      · cases hrun

theorem stack_of_hiddenTables {vectors : List ExpertVectors} {tables : List Tensor}
    (hrun : hiddenTables vectors = .ok tables) :
    ∃ gate up down, stack (vectors.map (·.gateHidden)) = .ok gate ∧
      tables = if [vectors.map (·.gateHidden), vectors.map (·.upHidden),
          vectors.map (·.downHidden)].all sameRows = true then
        [vectors.map (·.gateHidden), vectors.map (·.upHidden),
          vectors.map (·.downHidden)].filterMap (·.head?)
      else [gate, up, down] := by
  simp only [hiddenTables, List.mapM_cons, List.mapM_nil, bind_eq_ok, pure_eq_ok] at hrun
  obtain ⟨stacked, ⟨gate, hgate, later, ⟨up, hup, last, ⟨down, hdown, none, rfl, rfl⟩, rfl⟩, rfl⟩,
    hrun⟩ := hrun
  refine ⟨gate, up, down, hgate, ?_⟩
  split at hrun
  · rename_i hsame
    rw [pure_eq_ok] at hrun
    rw [if_pos hsame, hrun]
  · rename_i hsame
    rw [pure_eq_ok] at hrun
    rw [if_neg hsame, hrun]

/-! ## Layers of one geometry -/

section Layer

variable {root : InstalledRoot} {manifest : Manifest} {hidden intermediate : ℕ}
  (hput : PutLayer format root)
  (hfound : layerChoices format.toLayerHashing root = .ok (manifest, choices))
  (htraversed :
    Traversed format conversion root.store choices hidden intermediate tensors)
include hput hfound htraversed

/-- The gate of every expert has the sides of the first. -/
theorem Traversed.gate {expert : ℕ} (hexpert : expert ∈ choices.experts) :
    ∃ gate tensor, choices.find expert .gateProj = .ok gate ∧
      loadTensor format.toHashing root.store gate.objects.reconstruction = .ok tensor ∧
      tensor.shape = [intermediate, hidden] := by
  obtain ⟨vectors, tables, hvectors, htables, -⟩ := htraversed.vectors
  obtain ⟨table, -, -, htable, -⟩ := stack_of_hiddenTables htables
  obtain ⟨first, -, -, hsame⟩ := shape_of_stack htable
  have hpairs := forall₂_of_mapM hvectors
  have hverify := (layerChoices_eq_ok hfound).1
  -- rows fill the slots, columns are those of the stacked vectors
  have hsides : ∀ expert ∈ choices.experts, ∃ gate tensor columns,
      choices.find expert .gateProj = .ok gate ∧
        loadTensor format.toHashing root.store gate.objects.reconstruction = .ok tensor ∧
        tensor.shape = [intermediate / atomChannels * atomChannels, columns] ∧
        [columns] = first.shape := by
    intro expert hexpert
    obtain ⟨own, hown, hload⟩ := forall₂_mem_left hpairs hexpert
    obtain ⟨gate, hgate, hhidden⟩ := hidden_of_load hload .gateProj
    obtain ⟨rows, columns, hstored⟩ := hput manifest hverify gate (mem_of_find hfound hgate).1
    obtain ⟨tensor, htensor, hshape⟩ := hstored.reconstruction
    obtain ⟨along, halong, hslots⟩ := hstored.svh
    obtain ⟨across, hacross, hcolumns⟩ := hstored.suh
    rw [gateSlots_of_load hload hgate halong hslots] at hshape
    refine ⟨gate, tensor, columns, hgate, htensor, hshape, ?_⟩
    cases hhidden.symm.trans (loadHalf_eq hacross hcolumns.dtype)
    rw [← hcolumns.shape]
    exact hsame _ (List.mem_map_of_mem hown)
  have hhead : choices.experts.headD 0 ∈ choices.experts := by
    cases hexperts : choices.experts with
    | nil => exact absurd hexperts (experts_ne_nil hfound)
    | cons head later => exact List.mem_cons_self
  obtain ⟨gate, tensor, hgate, hload, hshape⟩ := htraversed.first
  obtain ⟨gate', tensor', columns, hgate', hload', hshape', hcolumns⟩ := hsides _ hhead
  cases hgate.symm.trans hgate'
  cases hload.symm.trans hload'
  rw [hshape, List.cons.injEq, List.cons.injEq] at hshape'
  obtain ⟨hrows, rfl, -⟩ := hshape'
  obtain ⟨own, matrix, columns, hown, hmatrix, hsize, hother⟩ := hsides expert hexpert
  refine ⟨own, matrix, hown, hmatrix, ?_⟩
  rw [hsize, ← hrows, List.singleton_inj.mp (hother.trans hcolumns.symm)]

theorem Traversed.shapedLayer
    (hfits : ∀ expert ∈ choices.experts, FitsGate format root.store choices expert) :
    ShapedLayer format root hidden intermediate := by
  intro other hother choice hmem
  obtain ⟨hverify, hchoices⟩ := layerChoices_eq_ok hfound
  cases hverify.symm.trans hother
  have hentry : (choiceKey choice, choice) ∈ choices := by
    rw [hchoices]
    exact List.mem_map.mpr ⟨choice, hmem, rfl⟩
  have hkeys : (Dict.keys choices).Nodup := by
    rw [hchoices, Dict.keys, List.map_map]
    exact (verifyInstalledLayer_eq_ok hverify).nodup
  have hfind : choices.find choice.expert choice.projection = .ok choice :=
    find_eq_ok.mpr (Dict.get?_of_mem hkeys hentry)
  have hexpert : choice.expert ∈ choices.experts := by
    rw [Choices.experts, (List.perm_insertionSort _ _).mem_iff, List.mem_dedup, Dict.keys,
      List.map_map]
    exact List.mem_map.mpr ⟨_, hentry, rfl⟩
  obtain ⟨gate, tensor, hgate, hload, hshape⟩ := htraversed.gate hput hfound hexpert
  exact ⟨fun matrix hmatrix => hfits _ hexpert gate tensor intermediate hidden hgate hload hshape
      choice.projection choice matrix hfind hmatrix,
    fun trellis htrellis => htraversed.trellis hexpert hfind htrellis⟩

end Layer

/-! ## Shared hidden vectors -/

/-- All experts of a layer have the hidden vectors of its first expert. -/
def SharesHidden (format : BtxFormat) (store : PayloadStore) (choices : Choices) : Prop :=
  ∀ expert ∈ choices.experts, ∀ projection first choice firstVector vector,
    choices.find 0 projection = .ok first → choices.find expert projection = .ok choice →
      loadTensor format.toHashing store (hiddenVector projection first.objects) =
          .ok firstVector →
        loadTensor format.toHashing store (hiddenVector projection choice.objects) =
            .ok vector →
          sameNumbers vector.data firstVector.data = true

/-- In every layer the experts share their hidden vectors, or in none. -/
def OneTopology (format : BtxFormat) (roots : List InstalledRoot) : Prop :=
  ∃ perExpert : Bool, ∀ root ∈ roots, ∀ manifest choices,
    layerChoices format.toLayerHashing root = .ok (manifest, choices) →
      (SharesHidden format root.store choices ↔ perExpert = false)

theorem sameRows_iff {vectors : List ExpertVectors} :
    [vectors.map (·.gateHidden), vectors.map (·.upHidden),
        vectors.map (·.downHidden)].all sameRows = true ↔
      ∀ projection, sameRows (vectors.map fun expert => expert.hidden projection) = true := by
  simp only [List.all_cons, List.all_nil, Bool.and_true, Bool.and_eq_true]
  constructor
  · rintro ⟨hgate, hup, hdown⟩ projection
    cases projection with
    | gateProj => exact hgate
    | upProj => exact hup
    | downProj => exact hdown
  · exact fun hall => ⟨hall .gateProj, hall .upProj, hall .downProj⟩

section Shared

variable {root : InstalledRoot} {geometry : Geometry} {uniformBits : Option ℤ}
  {manifest : Manifest}
  (hlayer : Representable format root geometry declared uniformBits manifest choices)
include hlayer

theorem hidden_stored {expert : ℕ} (hexpert : expert < geometry.numExperts)
    {projection : Projection} {choice : Choice}
    (hchoice : choices.find expert projection = .ok choice) :
    ∃ vector, loadTensor format.toHashing root.store (hiddenVector projection choice.objects) =
        .ok vector ∧ HalfVector vector geometry.hiddenSize := by
  obtain ⟨found, hfound, hprojection, -, hstored⟩ := hlayer.finds expert hexpert projection
  cases hfound.symm.trans hchoice
  cases projection with
  | gateProj =>
      have hsuh := hstored.suh
      rwa [hprojection] at hsuh
  | upProj =>
      have hsuh := hstored.suh
      rwa [hprojection] at hsuh
  | downProj =>
      have hsvh := hstored.svh
      rwa [hprojection] at hsvh

/-- The loaded vectors of an expert are those that are stored. -/
theorem hidden_loaded {slots expert : ℕ} {vectors : ExpertVectors}
    (hexpert : expert < geometry.numExperts)
    (hrun : loadVectors format conversion root.store choices slots expert = .ok vectors)
    (projection : Projection) :
    ∃ choice, choices.find expert projection = .ok choice ∧
      loadTensor format.toHashing root.store (hiddenVector projection choice.objects) =
        .ok (vectors.hidden projection) ∧
      HalfVector (vectors.hidden projection) geometry.hiddenSize := by
  obtain ⟨choice, hchoice, hload⟩ := hidden_of_load hrun projection
  obtain ⟨vector, hvector, hhalf⟩ := hidden_stored hlayer hexpert hchoice
  cases hload.symm.trans (loadHalf_eq hvector hhalf.dtype)
  exact ⟨choice, hchoice, hvector, hhalf⟩

theorem sharesHidden_iff {slots : ℕ} {vectors : List ExpertVectors}
    (hvectors : choices.experts.mapM (loadVectors format conversion root.store choices slots) =
      .ok vectors) :
    SharesHidden format root.store choices ↔
      ∀ projection, sameRows (vectors.map fun expert => expert.hidden projection) = true := by
  have hpairs := forall₂_of_mapM hvectors
  have hmem : ∀ {expert}, expert ∈ choices.experts → expert < geometry.numExperts := by
    intro expert hexpert
    rw [hlayer.experts] at hexpert
    exact List.mem_range.mp hexpert
  obtain ⟨later, hzero⟩ : ∃ later, choices.experts = 0 :: later := by
    rw [hlayer.experts]
    obtain ⟨count, hcount⟩ := Nat.exists_eq_succ_of_ne_zero hlayer.nonempty.ne'
    rw [hcount, List.range_succ_eq_map]
    exact ⟨_, rfl⟩
  have hfirst : 0 ∈ choices.experts := by
    rw [hzero]
    exact List.mem_cons_self
  obtain ⟨first, rest, rfl, hfirstLoad⟩ : ∃ first rest, vectors = first :: rest ∧
      loadVectors format conversion root.store choices slots 0 = .ok first := by
    rw [hzero] at hpairs
    cases hpairs with
    | cons hhead _ => exact ⟨_, _, rfl, hhead⟩
  have hrows : ∀ projection,
      sameRows ((first :: rest).map fun expert => expert.hidden projection) = true ↔
        ∀ own ∈ first :: rest, sameNumbers (own.hidden projection).data
          (first.hidden projection).data = true := by
    intro projection
    rw [List.map_cons, sameRows, List.all_eq_true, List.forall_mem_cons, List.forall_mem_cons,
      List.forall_mem_map]
  simp only [hrows]
  constructor
  · intro hshares projection own hown
    obtain ⟨gate, hgate, hgateLoad, -⟩ := hidden_loaded hlayer (hmem hfirst) hfirstLoad projection
    obtain ⟨expert, hexpert, hload⟩ := forall₂_mem_right hpairs hown
    obtain ⟨choice, hchoice, hchoiceLoad, -⟩ :=
      hidden_loaded hlayer (hmem hexpert) hload projection
    exact hshares expert hexpert projection gate choice _ _ hgate hchoice hgateLoad hchoiceLoad
  · intro hsame expert hexpert projection gate choice firstVector vector hgate hchoice hgateLoad
      hchoiceLoad
    obtain ⟨own, hown, hload⟩ := forall₂_mem_left hpairs hexpert
    obtain ⟨gate', hgate', hgateLoad', -⟩ :=
      hidden_loaded hlayer (hmem hfirst) hfirstLoad projection
    obtain ⟨choice', hchoice', hchoiceLoad', -⟩ :=
      hidden_loaded hlayer (hmem hexpert) hload projection
    cases hgate.symm.trans hgate'
    cases hchoice.symm.trans hchoice'
    cases hgateLoad.symm.trans hgateLoad'
    cases hchoiceLoad.symm.trans hchoiceLoad'
    exact hsame projection own hown

/-- The gate table is a vector exactly when the hidden vectors are shared. -/
theorem gateTable_vector_iff {hidden intermediate : ℕ}
    (htraversed :
      Traversed format conversion root.store choices hidden intermediate tensors) {gate : Tensor}
    (hgate : tensors.get? "gate_suh" = some gate) :
    SharesHidden format root.store choices ↔ decide (gate.shape.length = 2) = false := by
  obtain ⟨vectors, tables, hvectors, htables, hhead⟩ := htraversed.vectors
  obtain ⟨stacked, up, down, hstack, rfl⟩ := stack_of_hiddenTables htables
  obtain ⟨first, hfirst, hshape, -⟩ := shape_of_stack hstack
  have hflat : ∃ length, first.shape = [length] := by
    have hmem := List.mem_of_mem_head? hfirst
    obtain ⟨own, hown, rfl⟩ := List.mem_map.mp hmem
    obtain ⟨expert, hexpert, hload⟩ := forall₂_mem_right (forall₂_of_mapM hvectors) hown
    rw [hlayer.experts] at hexpert
    obtain ⟨-, -, -, hhalf⟩ := hidden_loaded hlayer (List.mem_range.mp hexpert) hload .gateProj
    exact ⟨_, hhalf.shape⟩
  obtain ⟨length, hlength⟩ := hflat
  rw [sharesHidden_iff hlayer hvectors, ← sameRows_iff]
  rw [hgate] at hhead
  by_cases hsame : [vectors.map (·.gateHidden), vectors.map (·.upHidden),
      vectors.map (·.downHidden)].all sameRows = true
  · rw [if_pos hsame, List.filterMap_cons_some hfirst, List.head?_cons, Option.some_inj] at hhead
    rw [hhead, hlength]
    exact iff_of_true hsame rfl
  · rw [if_neg hsame, List.head?_cons, Option.some_inj] at hhead
    rw [hhead, hshape, hlength]
    exact iff_of_false hsame Bool.noConfusion

end Shared

end Assembly

end GlmFlash.Checkpoint.Btx
