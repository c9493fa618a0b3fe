import GlmFlash.Checkpoint.BtxShapes

/-!
# The container gives back what was installed

An emitted container passes its own audit, and every plane of every installed layer is
unpacked from it unchanged.
-/

namespace GlmFlash.Checkpoint.Btx

open GlmFlash.Library

section Directory

variable {format : ContainerFormat} {geometry : Geometry} {declared : RateStructure}
  {uniformBits : Option ℤ} {rowAlignment : ℕ} {layers : List Emitted} {emission : BtxEmission}

/-! ## The files -/

theorem btxLayerFileName_take (layer : ℕ) :
    (btxLayerFileName layer).toList.take 10 = "btx-layer-".toList :=
  (congrArg (List.take 10) String.toList_ofList).trans (List.take_left' (by decide))

theorem manifestName_ne (layer : ℕ) : manifestName ≠ btxLayerFileName layer := by
  intro heq
  have htake := btxLayerFileName_take layer
  rw [← heq] at htake
  exact absurd htake (by decide)

theorem accountingName_ne (layer : ℕ) : accountingName ≠ btxLayerFileName layer := by
  intro heq
  have htake := btxLayerFileName_take layer
  rw [← heq] at htake
  exact absurd htake (by decide)

/-- The directory of a container. -/
def containerFiles (emission : BtxEmission) (manifest : BtxManifest) (accounting : Accounting) :
    BtxDirectory :=
  (emission.files.set manifestName (.manifest manifest)).set accountingName
    (.accounting accounting)

variable {manifest : BtxManifest} {accounting : Accounting}

theorem get?_accountingName : (containerFiles emission manifest accounting).get? accountingName =
    some (.accounting accounting) :=
  Dict.get?_set_self

theorem get?_manifestName : (containerFiles emission manifest accounting).get? manifestName =
    some (.manifest manifest) := by
  rw [containerFiles, Dict.get?_set_of_ne (by decide)]
  exact Dict.get?_set_self

/-- Each layer has its file. -/
theorem get?_layerFile (hgathered : Gathered format geometry layers emission)
    (hnodup : (layers.map (·.layer)).Nodup) {emitted : Emitted} (hmem : emitted ∈ layers) :
    (containerFiles emission manifest accounting).get? (btxLayerFileName emitted.layer) =
      some (emitted.file geometry) := by
  have hkeys : (Dict.keys emission.files).Nodup := by
    rw [hgathered.files, Dict.keys, List.map_map]
    have hnames := hnodup.map btxLayerFileName_injective
    rwa [List.map_map] at hnames
  rw [containerFiles, Dict.get?_set_of_ne (accountingName_ne _).symm,
    Dict.get?_set_of_ne (manifestName_ne _).symm]
  apply Dict.get?_of_mem hkeys
  rw [hgathered.files]
  exact List.mem_map_of_mem hmem

theorem keys_containerFiles (hgathered : Gathered format geometry layers emission) :
    Dict.keys (containerFiles emission manifest accounting) =
      (layers.map fun emitted => btxLayerFileName emitted.layer) ++
        [manifestName, accountingName] := by
  have hkeys : Dict.keys emission.files =
      layers.map fun emitted => btxLayerFileName emitted.layer := by
    rw [hgathered.files, Dict.keys, List.map_map]
    rfl
  have hmanifest : manifestName ∉ Dict.keys emission.files := by
    rw [hkeys]
    intro hmem
    obtain ⟨emitted, -, heq⟩ := List.mem_map.mp hmem
    exact manifestName_ne _ heq.symm
  have haccounting : accountingName ∉
      Dict.keys (emission.files.set manifestName (.manifest manifest)) := by
    rw [Dict.set_eq_append hmanifest, Dict.keys, List.map_append, List.mem_append, not_or]
    have hother : accountingName ∉ [manifestName] := by decide
    refine ⟨?_, hother⟩
    change accountingName ∉ Dict.keys emission.files
    rw [hkeys]
    intro hmem
    obtain ⟨emitted, -, heq⟩ := List.mem_map.mp hmem
    exact accountingName_ne _ heq.symm
  rw [containerFiles, Dict.set_eq_append haccounting, Dict.set_eq_append hmanifest, Dict.keys,
    List.map_append, List.map_append, ← hkeys, List.append_assoc]
  rfl

/-! ## The manifest -/

/-- The entries of the manifest before they are sorted. -/
def layerEntries (format : ContainerFormat) (geometry : Geometry) (layers : List Emitted) :
    Dict String LayerRef :=
  layers.map fun emitted => (toString emitted.layer, emitted.ref format geometry)

theorem toString_injective : Function.Injective (toString : ℕ → String) := by
  intro left right heq
  have hdigits := congrArg String.toList heq
  rw [toList_toString, toList_toString] at hdigits
  exact numeral_injective hdigits

theorem nodup_layerEntries (hnodup : (layers.map (·.layer)).Nodup) :
    (Dict.keys (layerEntries format geometry layers)).Nodup := by
  rw [layerEntries, Dict.keys, List.map_map]
  have hnames := hnodup.map toString_injective
  rwa [List.map_map] at hnames

theorem manifest_layers (hgathered : Gathered format geometry layers emission) :
    (btxManifest geometry declared uniformBits rowAlignment emission).layers =
      sortKeys (layerEntries format geometry layers) := by
  change sortKeys (emission.layers.map _) = _
  rw [hgathered.refs, List.map_map]
  rfl

/-- A manifest of representable layers is accepted. -/
theorem strictManifest_ok (hgathered : Gathered format geometry layers emission)
    (hwhole : ¬ geometry.Ragged)
    (huniform : declared = .uniform → ∃ rate, Coded rate ∧ uniformBits = some (rate : ℤ)) :
    strictManifest (btxManifest geometry declared uniformBits rowAlignment emission) =
      .ok () := by
  have hrates : (btxManifest geometry declared uniformBits rowAlignment emission).rates =
        .perExpertPair (sortedNames emission.observedKinds) ∨
      ∃ rate, Coded rate ∧
        (btxManifest geometry declared uniformBits rowAlignment emission).rates =
          .uniform (rate : ℤ) := by
    cases declared with
    | uniform =>
        obtain ⟨rate, hrate, rfl⟩ := huniform rfl
        exact .inr ⟨rate, hrate, rfl⟩
    | perExpertPair => exact .inl rfl
  have hgeometry : geometry.slots * 32 = geometry.intermediateSize ∧
      geometry.hiddenSize % 16 = 0 := by
    refine ⟨slots_mul hwhole, ?_⟩
    rw [Geometry.Ragged, not_or, not_not] at hwhole
    exact hwhole.1
  have hkeys : ∀ name, name ∈ Dict.keys
      (btxManifest geometry declared uniformBits rowAlignment emission).layers ↔
        name ∈ layers.map fun emitted => toString emitted.layer := by
    intro name
    rw [manifest_layers hgathered, Dict.keys,
      ((sortKeys_perm (layerEntries format geometry layers)).map Prod.fst).mem_iff, layerEntries,
      List.map_map]
    rfl
  have hindices : ∀ name, name ∈
      (btxManifest geometry declared uniformBits rowAlignment
        emission).geometry.moeLayerIndices.map (fun layer => toString layer) ↔
        name ∈ layers.map fun emitted => toString emitted.layer := by
    intro name
    change name ∈ ((Dict.keys emission.layers).insertionSort (· ≤ ·)).map toString ↔ _
    rw [((List.perm_insertionSort _ (Dict.keys emission.layers)).map toString).mem_iff,
      hgathered.refs, Dict.keys, List.map_map, List.map_map]
    rfl
  have hcovered : ∀ left right : String → Prop, (∀ name, left name ↔ name ∈
      layers.map fun emitted => toString emitted.layer) →
        (∀ name, right name ↔ name ∈ layers.map fun emitted => toString emitted.layer) →
          ∀ name, left name → right name :=
    fun left right hleft hright name hname => (hright name).mpr ((hleft name).mp hname)
  rw [strictManifest, require, if_pos ⟨rfl, rfl, rfl, rfl⟩, ok_bind, require,
    if_pos ⟨rfl, hgeometry.1, hgeometry.2⟩, ok_bind]
  rcases hrates with hpair | ⟨rate, hrate, hrates⟩
  · rw [hpair]
    dsimp only
    rw [require, if_pos, ok_bind, require, if_pos]
    · exact ⟨hcovered _ _ hkeys hindices, hcovered _ _ hindices hkeys⟩
    · intro kind hkind
      exact hgathered.known kind ((List.perm_insertionSort _ _).mem_iff.mp hkind)
  · rw [hrates]
    dsimp only
    rw [require, if_pos, ok_bind, require, if_pos]
    · exact ⟨hcovered _ _ hkeys hindices, hcovered _ _ hindices hkeys⟩
    · rw [Coded] at hrate
      omega

/-! ## The audit -/

variable {roots : List InstalledRoot}

theorem savedTensors {format : BtxFormat} {store : PayloadStore} {choices : Choices}
    {perExpert : Bool} {tensors : Dict String Tensor} {metadata : Dict String String}
    (hassembled : Assembled format store choices geometry declared rowAlignment perExpert
      tensors) :
    (saveFile metadata tensors).tensors = tensors := by
  apply Dict.ofItems_eq
  rw [hassembled.names]
  cases declared with
  | uniform => decide
  | perExpertPair => decide

theorem sameItems_self {items : Dict String String} (hnodup : (Dict.keys items).Nodup) :
    SameItems items items :=
  ⟨fun _ hitem => Dict.get?_of_mem hnodup hitem, fun _ hitem => Dict.get?_of_mem hnodup hitem⟩

theorem assembled_required {format : BtxFormat} {store : PayloadStore} {choices : Choices}
    {perExpert : Bool} {tensors : Dict String Tensor} {manifest : BtxManifest}
    (hassembled : Assembled format store choices geometry declared rowAlignment perExpert
      tensors)
    (hmanifest : Declares manifest geometry declared uniformBits rowAlignment perExpert) :
    Dict.keys tensors = requiredTensors manifest.rates := by
  rw [hassembled.names]
  cases declared with
  | uniform =>
      rw [hmanifest.uniform rfl]
      rfl
  | perExpertPair =>
      obtain ⟨kinds, hkinds⟩ := hmanifest.paired rfl
      rw [hkinds]
      rfl

theorem nodup_layerMetadata (geometry : Geometry) (layer : String) :
    (Dict.keys (layerMetadata geometry layer)).Nodup :=
  show ["schema", "codebook", "layer", "num_experts", "hidden_size", "intermediate_size",
    "atom_channels"].Nodup by decide

/-- The bytes of a stored layer are counted, and nothing is found. -/
theorem auditBtxLayer_ok {root : InstalledRoot} {choices : Choices} {emitted : Emitted}
    {directory : BtxDirectory} {manifest : BtxManifest} {state : AuditState}
    (halign : 0 < rowAlignment)
    (hemits : Emits format geometry declared uniformBits rowAlignment root choices emitted)
    (hmanifest : Declares manifest geometry declared uniformBits rowAlignment
      emitted.perExpert)
    (hfile : directory.get? (btxLayerFileName emitted.layer) = some (emitted.file geometry)) :
    auditBtxLayer format directory manifest state
        (toString emitted.layer, emitted.ref format geometry) =
      .ok { state with
        tensorPayloadBytes := state.tensorPayloadBytes + tensorBytesTotal emitted.tensors
        containerBytes :=
          state.containerBytes + (format.contents (emitted.file geometry)).length } := by
  obtain ⟨installed, -, hlayer⟩ := hemits.representable
  have hsaved := @savedTensors geometry _ _ _ _ _ _ _
    (layerMetadata geometry (toString emitted.layer)) hemits.assembled
  have hmetadata : SameItems
      (saveFile (layerMetadata geometry (toString emitted.layer)) emitted.tensors).metadata
      (layerMetadata manifest.geometry.toGeometry (toString emitted.layer)) := by
    rw [hmanifest.sizes]
    exact sameItems_self (nodup_layerMetadata geometry (toString emitted.layer))
  have hnames : SameNames (Dict.keys emitted.tensors) (requiredTensors manifest.rates) := by
    rw [assembled_required hemits.assembled hmanifest]
    exact ⟨fun _ hname => hname, fun _ hname => hname⟩
  have htensors := auditTensors_ok hmanifest (toString emitted.layer) halign hlayer
    hemits.assembled
  rw [auditBtxLayer]
  simp only [Emitted.ref, hfile, ne_eq, not_true_eq_false, if_false, Emitted.file, hsaved,
    hnames, if_true, htensors, ok_bind]
  rw [findingUnless_of hmetadata, List.append_nil, List.append_nil]
  rfl

/-- The loop over the entries adds up the bytes of their layers. -/
theorem auditLayers_ok {directory : BtxDirectory} {manifest : BtxManifest}
    {entries : Dict String LayerRef} {tensorBytes fileBytes : String × LayerRef → ℕ}
    (hentries : ∀ entry ∈ entries, ∀ state, auditBtxLayer format directory manifest state entry =
      .ok { state with
        tensorPayloadBytes := state.tensorPayloadBytes + tensorBytes entry
        containerBytes := state.containerBytes + fileBytes entry })
    (state : AuditState) :
    entries.foldlM (auditBtxLayer format directory manifest) state =
      .ok { state with
        tensorPayloadBytes := state.tensorPayloadBytes + (entries.map tensorBytes).sum
        containerBytes := state.containerBytes + (entries.map fileBytes).sum } := by
  induction entries generalizing state with
  | nil => rfl
  | cons entry entries ih =>
      rw [List.foldlM_cons, hentries entry List.mem_cons_self, ok_bind,
        ih fun other hother => hentries other (List.mem_cons_of_mem entry hother)]
      simp only [List.map_cons, List.sum_cons, Nat.add_assoc]

/-- The tensors and the bytes of a reference's file. -/
def storedTensorBytes (directory : BtxDirectory) (entry : String × LayerRef) : ℕ :=
  match directory.get? entry.2.file with
  | some (.container stored) => tensorBytesTotal stored.tensors
  | _ => 0

def storedFileBytes (format : ContainerFormat) (directory : BtxDirectory)
    (entry : String × LayerRef) : ℕ :=
  ((directory.get? entry.2.file).map fun file => (format.contents file).length).getD 0

/-- What the emission writes last. -/
def sealedAccounting (format : ContainerFormat) (verified : List Manifest) (allocated : ℤ)
    (emission : BtxEmission) (manifest : BtxManifest) : Accounting :=
  let body := accountingBody verified allocated emission
    (format.sha256 (format.contents (.manifest manifest)))
  { body with accountingSha256 := format.sha256 (format.accountingJson body) }

/-- A container whose layers are all represented. -/
structure Contains (format : ContainerFormat) (geometry : Geometry) (declared : RateStructure)
    (uniformBits : Option ℤ) (rowAlignment : ℕ) (roots : List InstalledRoot)
    (layers : List Emitted) (emission : BtxEmission) (manifest : BtxManifest)
    (directory : BtxDirectory) : Prop where
  emits : EmitsAll format geometry declared uniformBits rowAlignment roots layers
  gathered : Gathered format geometry layers emission
  nodup : (layers.map (·.layer)).Nodup
  header : manifest = btxManifest geometry declared uniformBits rowAlignment emission
  stored : ∃ verified allocated, directory = containerFiles emission manifest
    (sealedAccounting format verified allocated emission manifest)

variable {directory : BtxDirectory}

section Contained

variable
  (hcontains : Contains format geometry declared uniformBits rowAlignment roots layers emission
    manifest directory)
include hcontains

theorem Contains.entry (halign : 0 < rowAlignment) {entry : String × LayerRef}
    (hentry : entry ∈ manifest.layers) (state : AuditState) :
    auditBtxLayer format directory manifest state entry = .ok { state with
      tensorPayloadBytes := state.tensorPayloadBytes + storedTensorBytes directory entry
      containerBytes := state.containerBytes + storedFileBytes format directory entry } := by
  obtain ⟨verified, allocated, hdirectory⟩ := hcontains.stored
  rw [hcontains.header, manifest_layers hcontains.gathered,
    (sortKeys_perm (layerEntries format geometry layers)).mem_iff] at hentry
  obtain ⟨emitted, hemitted, rfl⟩ := List.mem_map.mp hentry
  have hfile : directory.get? (btxLayerFileName emitted.layer) =
      some (emitted.file geometry) := by
    rw [hdirectory]
    exact get?_layerFile hcontains.gathered hcontains.nodup hemitted
  obtain ⟨root, -, choices, hemits⟩ := forall₂_mem_right hcontains.emits hemitted
  have hmanifest : Declares manifest geometry declared uniformBits rowAlignment
      emitted.perExpert := by
    rw [hcontains.header]
    exact declares_of_gathered hcontains.gathered hemitted
  have htensors : storedTensorBytes directory
      (toString emitted.layer, emitted.ref format geometry) =
        tensorBytesTotal emitted.tensors := by
    rw [storedTensorBytes, Emitted.ref, hfile, Emitted.file]
    dsimp only
    rw [savedTensors hemits.assembled]
  have hbytes : storedFileBytes format directory
      (toString emitted.layer, emitted.ref format geometry) =
        (format.contents (emitted.file geometry)).length := by
    rw [storedFileBytes, Emitted.ref, hfile]
    rfl
  rw [htensors, hbytes]
  exact auditBtxLayer_ok halign hemits hmanifest hfile

/-- The totals of the entries are those that the emission counted. -/
theorem Contains.totals :
    (manifest.layers.map (storedTensorBytes directory)).sum = emission.tensorPayloadBytes ∧
      (manifest.layers.map (storedFileBytes format directory)).sum =
        emission.containerBytes := by
  obtain ⟨verified, allocated, hdirectory⟩ := hcontains.stored
  have hsum : ∀ (size : String × LayerRef → ℕ), (manifest.layers.map size).sum =
      (layers.map fun emitted =>
        size (toString emitted.layer, emitted.ref format geometry)).sum := by
    intro size
    rw [hcontains.header, manifest_layers hcontains.gathered,
      ((sortKeys_perm (layerEntries format geometry layers)).map size).sum_eq, layerEntries,
      List.map_map]
    rfl
  have hfile : ∀ emitted ∈ layers, directory.get? (btxLayerFileName emitted.layer) =
      some (emitted.file geometry) := by
    intro emitted hemitted
    rw [hdirectory]
    exact get?_layerFile hcontains.gathered hcontains.nodup hemitted
  rw [hsum, hsum, hcontains.gathered.tensorBytes, hcontains.gathered.containerBytes]
  constructor
  · apply congrArg List.sum
    apply List.map_congr_left
    intro emitted hemitted
    obtain ⟨root, -, choices, hemits⟩ := forall₂_mem_right hcontains.emits hemitted
    rw [storedTensorBytes, Emitted.ref, hfile emitted hemitted, Emitted.file]
    dsimp only
    rw [savedTensors hemits.assembled]
  · apply congrArg List.sum
    apply List.map_congr_left
    intro emitted hemitted
    rw [storedFileBytes, Emitted.ref, hfile emitted hemitted]
    rfl

theorem Contains.readManifest (hwhole : ¬ geometry.Ragged)
    (huniform : declared = .uniform → ∃ rate, Coded rate ∧ uniformBits = some (rate : ℤ)) :
    readBtxManifest directory = .ok manifest := by
  obtain ⟨verified, allocated, rfl⟩ := hcontains.stored
  have hstrict : strictManifest manifest = .ok () := by
    rw [hcontains.header]
    exact strictManifest_ok hcontains.gathered hwhole huniform
  rw [readBtxManifest, get?_manifestName]
  dsimp only
  rw [hstrict]
  rfl

theorem Contains.files :
    SameNames (Dict.keys directory)
      (manifestName :: accountingName :: manifest.layers.map (·.2.file)) := by
  obtain ⟨verified, allocated, rfl⟩ := hcontains.stored
  have hentries : ∀ name, name ∈ manifest.layers.map (·.2.file) ↔
      name ∈ layers.map fun emitted => btxLayerFileName emitted.layer := by
    intro name
    rw [hcontains.header, manifest_layers hcontains.gathered,
      ((sortKeys_perm (layerEntries format geometry layers)).map _).mem_iff, layerEntries,
      List.map_map]
    rfl
  rw [keys_containerFiles hcontains.gathered]
  constructor
  · intro name hname
    rw [List.mem_cons, List.mem_cons, hentries]
    simp only [List.mem_append, List.mem_cons, List.not_mem_nil, or_false] at hname
    tauto
  · intro name hname
    rw [List.mem_cons, List.mem_cons, hentries] at hname
    simp only [List.mem_append, List.mem_cons, List.not_mem_nil, or_false]
    tauto

/-- The audit of a container finds only what the runtime reader does. -/
theorem Contains.audit (halign : 0 < rowAlignment) (hwhole : ¬ geometry.Ragged)
    (huniform : declared = .uniform → ∃ rate, Coded rate ∧ uniformBits = some (rate : ℤ))
    (runtimeReader : Option (BtxDirectory → Bool)) (requireRuntimeReader : Bool) :
    auditOfficialBtxCheckpoint format directory runtimeReader requireRuntimeReader =
      .ok ⟨(auditRuntime directory runtimeReader requireRuntimeReader).isEmpty,
        auditRuntime directory runtimeReader requireRuntimeReader,
        some (format.sha256 (format.contents (.manifest manifest)))⟩ := by
  have hmanifest := hcontains.readManifest hwhole huniform
  have hfiles := hcontains.files
  obtain ⟨htensors, hbytes⟩ := hcontains.totals
  have hrun := auditLayers_ok (fun entry hentry => hcontains.entry halign hentry) ⟨[], 0, 0⟩
  rw [htensors, hbytes, Nat.zero_add, Nat.zero_add] at hrun
  have haccounting : auditAccounting format directory
      (format.sha256 (format.contents (.manifest manifest)))
      ⟨[], emission.tensorPayloadBytes, emission.containerBytes⟩ = [] := by
    obtain ⟨verified, allocated, rfl⟩ := hcontains.stored
    rw [auditAccounting, get?_accountingName]
    simp only [sealedAccounting, accountingBody, ne_eq, not_true_eq_false, if_false]
  rw [auditOfficialBtxCheckpoint, hmanifest]
  dsimp only
  rw [findingUnless_of hfiles, hrun, ok_bind]
  dsimp only
  rw [haccounting, List.nil_append, List.nil_append]
  rfl

end Contained

end Directory

/-! ## The emission -/

section Emission

variable {format : ContainerFormat} {roots : List InstalledRoot} {requireFused : Bool}
  {rowAlignment : ℕ} {degrees : List ℤ} {expected : Option ℤ} {manifest : BtxManifest}
  {directory : BtxDirectory}

/-- The layers of the roots have different numbers. -/
def DistinctLayers (hashing : LayerHashing) (roots : List InstalledRoot) : Prop :=
  roots.Pairwise fun first second => ∀ installed other,
    verifyInstalledLayer hashing first = .ok installed →
      verifyInstalledLayer hashing second = .ok other → installed.layer ≠ other.layer

theorem emit_eq_ok
    (hrun : emitOfficialBtxCheckpoint format roots requireFused rowAlignment degrees expected =
      .ok (manifest, directory)) :
    ∃ report geometry declared verified allocated emission,
      btxCompatibilityReport format.toBtxFormat roots requireFused degrees = .ok report ∧
      report.compatible = true ∧ report.geometry = some geometry ∧
      report.rateStructure = some declared ∧
      roots.foldlM (emitBtxLayer format geometry declared rowAlignment) emptyBtxEmission =
        .ok emission ∧
      manifest = btxManifest geometry declared report.uniformBits rowAlignment emission ∧
      directory = containerFiles emission manifest
        (sealedAccounting format verified allocated emission manifest) := by
  simp only [emitOfficialBtxCheckpoint, bind_eq_ok, require_eq_ok] at hrun
  obtain ⟨report, hreport, -, hcompatible, verified, -, -, -, hrun⟩ := hrun
  cases hgeometry : report.geometry with
  | none => simp only [hgeometry] at hrun; cases hrun
  | some geometry =>
      cases hdeclared : report.rateStructure with
      | none => simp only [hgeometry, hdeclared] at hrun; cases hrun
      | some declared =>
          simp only [hgeometry, hdeclared, bind_eq_ok, pure_eq_ok, Prod.mk.injEq] at hrun
          obtain ⟨emission, hemission, rfl, rfl⟩ := hrun
          exact ⟨report, geometry, declared, verified, _, emission, hreport, hcompatible,
            hgeometry, hdeclared, hemission, rfl, rfl⟩

/-- The roots with what the container stores of them. -/
theorem emitsAll_of_representable {geometry : Geometry} {declared : RateStructure}
    {uniformBits : Option ℤ} (halign : 0 < rowAlignment)
    (hlayers : ∀ root ∈ roots, ∃ installed choices,
      Representable format.toBtxFormat root geometry declared uniformBits installed choices) :
    ∃ layers, EmitsAll format geometry declared uniformBits rowAlignment roots layers := by
  induction roots with
  | nil => exact ⟨[], .nil⟩
  | cons root roots ih =>
      obtain ⟨layers, hemits⟩ := ih fun other hother =>
        hlayers other (List.mem_cons_of_mem root hother)
      obtain ⟨installed, choices, hlayer⟩ := hlayers root List.mem_cons_self
      obtain ⟨emitted, -, hemitted⟩ := emits_of_representable halign hlayer
      exact ⟨emitted :: layers, .cons ⟨choices, hemitted⟩ hemits⟩

/-- Different layers of the roots are stored under different numbers. -/
theorem nodup_of_distinct {geometry : Geometry} {declared : RateStructure}
    {uniformBits : Option ℤ} {layers : List Emitted}
    (hemits : EmitsAll format geometry declared uniformBits rowAlignment roots layers)
    (hdistinct : DistinctLayers format.toLayerHashing roots) :
    (layers.map (·.layer)).Nodup := by
  induction hemits with
  | nil => exact List.nodup_nil
  | cons hfirst hrest ih =>
      obtain ⟨hnew, hlater⟩ := List.pairwise_cons.mp hdistinct
      refine List.nodup_cons.mpr ⟨fun hmem => ?_, ih hlater⟩
      obtain ⟨later, hmemLater, heq⟩ := List.mem_map.mp hmem
      obtain ⟨choices, hemitted⟩ := hfirst
      obtain ⟨installed, hnumber, hlayer⟩ := hemitted.representable
      obtain ⟨other, hother, otherChoices, hemitsLater⟩ := forall₂_mem_right hrest hmemLater
      obtain ⟨otherInstalled, hotherNumber, hotherLayer⟩ := hemitsLater.representable
      exact hnew other hother installed otherInstalled (layerChoices_eq_ok hlayer.found).1
        (layerChoices_eq_ok hotherLayer.found).1
        (hnumber.trans (heq.symm.trans hotherNumber.symm))

theorem ne_nil_of_geometry {report : Report} {geometry : Geometry}
    (hreport : btxCompatibilityReport format.toBtxFormat roots requireFused degrees =
      .ok report) (hgeometry : report.geometry = some geometry) : roots ≠ [] := by
  rintro rfl
  obtain ⟨survey, hsurvey, hbody⟩ := btxCompatibilityReport_eq_ok hreport
  rw [List.foldlM_nil, pure_eq_ok] at hsurvey
  rw [hbody, closeSurvey_geometry, ← hsurvey] at hgeometry
  cases hgeometry

/-- The root of a container's layer. -/
theorem emitted_of_root {geometry : Geometry} {declared : RateStructure}
    {uniformBits : Option ℤ} {layers : List Emitted} {root : InstalledRoot}
    {installed : Manifest} {choices : Choices}
    (hemits : EmitsAll format geometry declared uniformBits rowAlignment roots layers)
    (hroot : root ∈ roots)
    (hfound : layerChoices format.toLayerHashing root = .ok (installed, choices)) :
    ∃ emitted ∈ layers, emitted.layer = installed.layer ∧
      Representable format.toBtxFormat root geometry declared uniformBits installed choices ∧
      Assembled format.toBtxFormat root.store choices geometry declared rowAlignment
        emitted.perExpert emitted.tensors := by
  obtain ⟨emitted, hemitted, found, hfoundEmits⟩ := forall₂_mem_left hemits hroot
  obtain ⟨other, hnumber, hlayer⟩ := hfoundEmits.representable
  obtain ⟨rfl, rfl⟩ := Prod.mk.inj (Except.ok.inj (hlayer.found.symm.trans hfound))
  exact ⟨emitted, hemitted, hnumber.symm, hlayer, hfoundEmits.assembled⟩

theorem Contains.unpack {geometry : Geometry} {declared : RateStructure}
    {uniformBits : Option ℤ} {layers : List Emitted} {emission : BtxEmission}
    (hcontains : Contains format geometry declared uniformBits rowAlignment roots layers emission
      manifest directory)
    (hmanifest : readBtxManifest directory = .ok manifest) {emitted : Emitted}
    (hemitted : emitted ∈ layers)
    (hsaved : ∀ metadata, (saveFile metadata emitted.tensors).tensors = emitted.tensors)
    (slot expert : ℕ) (projection : Projection) (plane : Plane) :
    unpackOfficialBtxPlane directory emitted.layer slot expert projection plane =
      unpackPlane manifest emitted.tensors slot expert projection plane := by
  obtain ⟨verified, allocated, hdirectory⟩ := hcontains.stored
  have hentry : manifest.layers.get? (toString emitted.layer) =
      some (emitted.ref format geometry) := by
    rw [hcontains.header, manifest_layers hcontains.gathered,
      get?_sortKeys (nodup_layerEntries hcontains.nodup)]
    exact Dict.get?_of_mem (nodup_layerEntries hcontains.nodup) (List.mem_map_of_mem hemitted)
  have hfile : directory.get? (emitted.ref format geometry).file =
      some (emitted.file geometry) := by
    rw [hdirectory]
    exact get?_layerFile hcontains.gathered hcontains.nodup hemitted
  rw [unpackOfficialBtxPlane, hmanifest, ok_bind, hentry]
  dsimp only
  rw [pure_bind, hfile, Emitted.file]
  dsimp only
  rw [pure_bind, hsaved]

/-- An emission has found the shapes of one geometry in every layer. -/
theorem shaped_of_emission {report : Report} {geometry : Geometry} {declared : RateStructure}
    {start emission : BtxEmission} (hput : ∀ root ∈ roots, PutLayer format.toBtxFormat root)
    (hreport : btxCompatibilityReport format.toBtxFormat roots requireFused degrees =
      .ok report) (hcompatible : report.compatible = true)
    (hemission : roots.foldlM (emitBtxLayer format geometry declared rowAlignment) start =
      .ok emission) :
    ∀ root ∈ roots, ∃ hidden intermediate,
      ShapedLayer format.toBtxFormat root hidden intermediate := by
  intro root hroot
  obtain ⟨manifest, choices, hfound, hfits⟩ :=
    fitsGate_of_compatible hreport hcompatible hroot
  obtain ⟨-, hassembled⟩ := @foldlM_backwards _ _ _ _ (fun _ => True)
    (fun root : InstalledRoot => ∃ found assembled,
      layerChoices format.toLayerHashing root = .ok found ∧
        assembleLayer format.toBtxFormat format.toHalfConversion root.store found.2 declared
          rowAlignment = .ok assembled)
    (fun _ root _ hstep _ => by
      simp only [emitBtxLayer, bind_eq_ok] at hstep
      obtain ⟨found, hfound, assembled, hassembled, -⟩ := hstep
      exact ⟨trivial, found, assembled, hfound, hassembled⟩) _ _ _ hemission trivial
  obtain ⟨found, assembled, hother, hrun⟩ := hassembled root hroot
  cases hother.symm.trans hfound
  obtain ⟨hidden, intermediate, htraversed⟩ := traversed_of_run hrun
  exact ⟨hidden, intermediate, htraversed.shapedLayer (hput root hroot) hfound hfits⟩

theorem storedLayers_of_shaped (hput : ∀ root ∈ roots, PutLayer format.toBtxFormat root)
    (hshaped : ∀ root ∈ roots, ∃ hidden intermediate,
      ShapedLayer format.toBtxFormat root hidden intermediate) :
    ∀ root ∈ roots, ∃ hidden intermediate,
      StoredLayer format.toBtxFormat root hidden intermediate := by
  intro root hroot
  obtain ⟨hidden, intermediate, hlayer⟩ := hshaped root hroot
  exact ⟨hidden, intermediate, storedLayer_of_shaped (hput root hroot) hlayer⟩

/-- Whatever is emitted from stored layers passes the audit, but for what the runtime reader
answers, and every plane of every layer is unpacked as it was installed. -/
theorem btx_round_trip (hput : ∀ root ∈ roots, PutLayer format.toBtxFormat root)
    (hdistinct : DistinctLayers format.toLayerHashing roots)
    (halign : 0 < rowAlignment) (heven : 2 ∣ rowAlignment)
    (hrun : emitOfficialBtxCheckpoint format roots requireFused rowAlignment degrees expected =
      .ok (manifest, directory)) :
    (∀ runtimeReader requireRuntimeReader,
      auditOfficialBtxCheckpoint format directory runtimeReader requireRuntimeReader =
        .ok ⟨(auditRuntime directory runtimeReader requireRuntimeReader).isEmpty,
          auditRuntime directory runtimeReader requireRuntimeReader,
          some (format.sha256 (format.contents (.manifest manifest)))⟩) ∧
    ∀ root ∈ roots, ∀ installed choices,
      layerChoices format.toLayerHashing root = .ok (installed, choices) →
        ∀ slot < manifest.geometry.atomSlots, ∀ expert < manifest.geometry.numExperts,
          ∀ projection plane, ∃ planes,
            slotPlanes format.toBtxFormat root.store choices manifest.geometry.toGeometry slot
              (expert, projection) = .ok planes ∧
            unpackOfficialBtxPlane directory installed.layer slot expert projection plane =
              .ok (plane.of planes) := by
  obtain ⟨report, geometry, declared, verified, allocated, emission, hreport, hcompatible,
    hgeometry, hdeclared, hemission, rfl, hdirectory⟩ := emit_eq_ok hrun
  have hstored := storedLayers_of_shaped hput
    (shaped_of_emission hput hreport hcompatible hemission)
  have hlayers : ∀ root ∈ roots, ∃ installed choices, Representable format.toBtxFormat root
      geometry declared report.uniformBits installed choices := fun root hroot =>
    representable_of_compatible hstored hreport hcompatible hgeometry hdeclared hroot
  obtain ⟨layers, hemits⟩ := emitsAll_of_representable halign hlayers
  have hnodup := nodup_of_distinct hemits hdistinct
  rw [foldlM_emitBtxLayer hemits] at hemission
  have hgathered : Gathered format geometry layers emission :=
    gathered_of_run gathered_nil hnodup hemission
  have hcontains : Contains format geometry declared report.uniformBits rowAlignment roots layers
      emission (btxManifest geometry declared report.uniformBits rowAlignment emission)
      directory := ⟨hemits, hgathered, hnodup, rfl, verified, allocated, hdirectory⟩
  obtain ⟨first, hfirst⟩ := List.exists_mem_of_ne_nil _ (ne_nil_of_geometry hreport hgeometry)
  obtain ⟨firstInstalled, firstChoices, hfirstLayer⟩ := hlayers first hfirst
  have huniform : declared = .uniform →
      ∃ rate, Coded rate ∧ report.uniformBits = some (rate : ℤ) := by
    intro hdeclaredUniform
    obtain ⟨rate, hrate, hbits, -⟩ := hfirstLayer.uniform hdeclaredUniform
    exact ⟨rate, hrate, hbits⟩
  refine ⟨hcontains.audit halign hfirstLayer.whole huniform, ?_⟩
  intro root hroot installed choices hfound slot hslot expert hexpert projection plane
  obtain ⟨emitted, hemitted, hnumber, hlayer, hassembled⟩ :=
    emitted_of_root hemits hroot hfound
  refine ⟨_, (slotPlanes_ok hlayer hslot hexpert projection).1, ?_⟩
  rw [← hnumber, hcontains.unpack (hcontains.readManifest hfirstLayer.whole huniform) hemitted
    (fun metadata => savedTensors hassembled)]
  exact unpackPlane_ok heven hlayer hassembled (declares_of_gathered hgathered hemitted) hslot
    hexpert projection plane

/-! ## When something is emitted -/

theorem Emits.sharesHidden {geometry : Geometry} {declared : RateStructure}
    {uniformBits : Option ℤ} {root : InstalledRoot} {choices : Choices} {emitted : Emitted}
    (hemits : Emits format geometry declared uniformBits rowAlignment root choices emitted) :
    SharesHidden format.toBtxFormat root.store choices ↔ emitted.perExpert = false := by
  obtain ⟨manifest, -, hlayer⟩ := hemits.representable
  obtain ⟨-, gate, -, -, hgate, htopology⟩ := hemits.topology
  obtain ⟨hidden, intermediate, htraversed⟩ := traversed_of_run hemits.run
  rw [← htopology]
  exact gateTable_vector_iff hlayer htraversed hgate

theorem oneTopology_iff {geometry : Geometry} {declared : RateStructure}
    {uniformBits : Option ℤ} {layers : List Emitted}
    (hemits : EmitsAll format geometry declared uniformBits rowAlignment roots layers) :
    OneTopology format.toBtxFormat roots ↔
      ∃ perExpert, ∀ emitted ∈ layers, emitted.perExpert = perExpert := by
  constructor
  · rintro ⟨perExpert, hsame⟩
    refine ⟨perExpert, fun emitted hemitted => ?_⟩
    obtain ⟨root, hroot, choices, hfound⟩ := forall₂_mem_right hemits hemitted
    obtain ⟨manifest, -, hlayer⟩ := hfound.representable
    have hshares := hsame root hroot manifest choices hlayer.found
    have htopology := hfound.sharesHidden.symm.trans hshares
    exact Bool.eq_iff_iff.mpr (by simpa using not_congr htopology)
  · rintro ⟨perExpert, hsame⟩
    refine ⟨perExpert, fun root hroot manifest choices hchoices => ?_⟩
    obtain ⟨emitted, hemitted, own, hown⟩ := forall₂_mem_left hemits hroot
    obtain ⟨other, -, hlayer⟩ := hown.representable
    obtain ⟨rfl, rfl⟩ := Prod.mk.inj (Except.ok.inj (hlayer.found.symm.trans hchoices))
    rw [hown.sharesHidden, hsame emitted hemitted]

/-- Layers of one topology in a compatible report are emitted. -/
theorem emitted_of_oneTopology {report : Report} {verified : List Manifest}
    {geometry : Geometry} {declared : RateStructure}
    (hstored : ∀ root ∈ roots, ∃ hidden intermediate,
      StoredLayer format.toBtxFormat root hidden intermediate) (halign : 0 < rowAlignment)
    (hreport : btxCompatibilityReport format.toBtxFormat roots requireFused degrees =
      .ok report)
    (hverified : roots.mapM (fun root =>
      fromStore (verifyInstalledLayer format.toLayerHashing root)) = .ok verified)
    (hcompatible : report.compatible = true)
    (hcost : ∀ bytes ∈ expected, (verified.map (·.allocatedPayloadBytes)).sum = bytes)
    (hgeometry : report.geometry = some geometry)
    (hdeclared : report.rateStructure = some declared)
    (htopology : OneTopology format.toBtxFormat roots) :
    ∃ container, emitOfficialBtxCheckpoint format roots requireFused rowAlignment degrees
      expected = .ok container := by
  have hlayers : ∀ root ∈ roots, ∃ installed choices, Representable format.toBtxFormat root
      geometry declared report.uniformBits installed choices := fun root hroot =>
    representable_of_compatible hstored hreport hcompatible hgeometry hdeclared hroot
  obtain ⟨layers, hemits⟩ := emitsAll_of_representable halign hlayers
  obtain ⟨perExpert, hsame⟩ := (oneTopology_iff hemits).mp htopology
  obtain ⟨emission, hemission⟩ := @foldlM_addEmitted_succeeds format geometry layers
    emptyBtxEmission perExpert hsame rfl
  rw [← foldlM_emitBtxLayer hemits] at hemission
  rw [emitOfficialBtxCheckpoint, hreport, ok_bind, require, if_pos hcompatible, ok_bind,
    hverified, ok_bind]
  dsimp only
  rw [require, if_pos hcost, ok_bind, hgeometry, hdeclared]
  dsimp only
  rw [hemission]
  exact ⟨_, rfl⟩

/-- The layers of a compatible report are emitted exactly when their cost is the expected one,
the matrices and trellises of each layer have one geometry, and the layers one topology. -/
theorem btx_emitted_iff {report : Report} {verified : List Manifest}
    (hput : ∀ root ∈ roots, PutLayer format.toBtxFormat root) (halign : 0 < rowAlignment)
    (hreport : btxCompatibilityReport format.toBtxFormat roots requireFused degrees =
      .ok report)
    (hverified : roots.mapM (fun root =>
      fromStore (verifyInstalledLayer format.toLayerHashing root)) = .ok verified) :
    (∃ container, emitOfficialBtxCheckpoint format roots requireFused rowAlignment degrees
        expected = .ok container) ↔
      report.compatible = true ∧ report.geometry ≠ none ∧ report.rateStructure ≠ none ∧
      (∀ bytes ∈ expected, (verified.map (·.allocatedPayloadBytes)).sum = bytes) ∧
      (∀ root ∈ roots, ∃ hidden intermediate,
        ShapedLayer format.toBtxFormat root hidden intermediate) ∧
      OneTopology format.toBtxFormat roots := by
  constructor
  · rintro ⟨⟨manifest, directory⟩, hrun⟩
    obtain ⟨found, geometry, declared, -, -, emission, hfound, hcompatible, hgeometry,
      hdeclared, hemission, -, -⟩ := emit_eq_ok hrun
    cases hreport.symm.trans hfound
    have hshaped := shaped_of_emission hput hreport hcompatible hemission
    have hstored := storedLayers_of_shaped hput hshaped
    have hlayers : ∀ root ∈ roots, ∃ installed choices, Representable format.toBtxFormat root
        geometry declared report.uniformBits installed choices := fun root hroot =>
      representable_of_compatible hstored hreport hcompatible hgeometry hdeclared hroot
    obtain ⟨layers, hemits⟩ := emitsAll_of_representable halign hlayers
    rw [foldlM_emitBtxLayer hemits] at hemission
    refine ⟨hcompatible, by simp [hgeometry], by simp [hdeclared], ?_, hshaped,
      (oneTopology_iff hemits).mpr (topology_of_run hemission)⟩
    simp only [emitOfficialBtxCheckpoint, hreport, hverified, bind_eq_ok, require_eq_ok] at hrun
    obtain ⟨other, hother, -, -, others, hothers, -, hcost, -⟩ := hrun
    cases hother
    cases hothers
    exact hcost
  · rintro ⟨hcompatible, hsizes, hrates, hcost, hshaped, htopology⟩
    obtain ⟨geometry, hgeometry⟩ := Option.ne_none_iff_exists'.mp hsizes
    obtain ⟨declared, hdeclared⟩ := Option.ne_none_iff_exists'.mp hrates
    have hstored := storedLayers_of_shaped hput hshaped
    exact emitted_of_oneTopology hstored halign hreport hverified hcompatible hcost hgeometry
      hdeclared htopology

end Emission

/-! ## A small container -/

/-- Lengths as checksums. -/
def lengthHashing : LayerHashing where
  sha256 := fun bytes => String.ofList (paddedNumeral 64 (bytes.length % 1000003))
  choiceJson := fun choice => ascii choice.choiceId
  costJson := fun cost => ascii (toString cost.allocatedPayloadBytes)
  manifestJson := fun manifest => ascii (toString manifest.layer)

/-- Bytes that differ from place to place and make up finite numbers. -/
def patternBytes (size : ℕ) : Bytes :=
  (List.range size).map fun index => UInt8.ofNat (index % 60)

def sampleSha (size : ℕ) : String :=
  String.ofList (paddedNumeral 64 size)

/-- The shapes of an expert with 16 hidden and 256 intermediate channels. -/
def sampleShape (rate : ℕ) : Projection → Role → List ℕ
  | .downProj, .trellis => [16, 1, 16 * rate]
  | .downProj, .suh => [256]
  | .downProj, .svh => [16]
  | .downProj, .reconstruction => [16, 256]
  | _, .trellis => [1, 16, 16 * rate]
  | _, .suh => [16]
  | _, .svh => [256]
  | _, .reconstruction => [256, 16]

def sampleType : Role → String
  | .trellis => "int16"
  | _ => "float16"

def sampleSize (rate : ℕ) (projection : Projection) (role : Role) : ℕ :=
  (sampleShape rate projection role).prod * 2

def sampleRef (rate : ℕ) (projection : Projection) (role : Role) : ObjectRef :=
  { sha256 := sampleSha (sampleSize rate projection role)
    bytes := sampleSize rate projection role
    dtype := sampleType role
    shape := sampleShape rate projection role
    path := objectPath (sampleSha (sampleSize rate projection role)) }

/-- Two vectors, a trellis for each of two rates and a reconstruction. -/
def sampleSizes : List ℕ := [32, 512, 1536, 2048, 8192]

def sampleStore : PayloadStore :=
  sampleSizes.map fun size =>
    (objectPath (sampleSha size), patternBytes size)

def sampleObjects (rate : ℕ) (projection : Projection) : ChoiceObjects where
  trellis := sampleRef rate projection .trellis
  suh := sampleRef rate projection .suh
  svh := sampleRef rate projection .svh
  reconstruction := sampleRef rate projection .reconstruction

/-- The first expert has the rate 3, the second the rate 4. -/
def sampleChoice (layer expert : ℕ) (projection : Projection) : Choice :=
  sealedChoice lengthHashing sampleStore layer expert projection (3 + expert)
    (sampleObjects (3 + expert) projection)

def sampleChoices (layer : ℕ) : List Choice :=
  [0, 1].flatMap fun expert =>
    [Projection.downProj, .gateProj, .upProj].map (sampleChoice layer expert)

def sampleKeys : List (ℕ × Projection) :=
  [(0, .downProj), (0, .gateProj), (0, .upProj), (1, .downProj), (1, .gateProj), (1, .upProj)]

def sampleManifest (layer : ℕ) : Manifest :=
  sealedManifest lengthHashing layer (sampleChoices layer)

def sampleRoot (layer : ℕ) : InstalledRoot where
  manifest := some (sampleManifest layer)
  store := sampleStore

def sampleRoots : List InstalledRoot :=
  [sampleRoot 0, sampleRoot 1]

def sampleFormat : ContainerFormat where
  toLayerHashing := lengthHashing
  reportJson := fun body => ascii (toString body.layers.length)
  convert := id
  contents := fun _ => []
  accountingJson := fun body => ascii (toString body.officialEmittedTensorPayloadBytes)

/-! ### Its objects -/

theorem isHash_length (bytes : Bytes) : isHash (lengthHashing.sha256 bytes) = true :=
  isHash_padded (Nat.mod_lt _ (by decide))

theorem length_patternBytes (size : ℕ) : (patternBytes size).length = size := by
  rw [patternBytes, List.length_map, List.length_range]

theorem sha256_pattern {size : ℕ} (hsize : size ∈ sampleSizes) :
    lengthHashing.sha256 (patternBytes size) = sampleSha size := by
  have hsmall : ∀ size ∈ sampleSizes, size < 1000003 := by decide
  change String.ofList (paddedNumeral 64 ((patternBytes size).length % 1000003)) = _
  rw [length_patternBytes, Nat.mod_eq_of_lt (hsmall size hsize)]
  rfl

/-- The pattern makes up numbers below infinity. -/
theorem finite_pattern (count : ℕ) : allFinite (patternBytes (count * 2)) = true := by
  have hpairs : patternBytes (count * 2) = (List.range count).flatMap fun index =>
      [UInt8.ofNat (2 * index % 60), UInt8.ofNat ((2 * index + 1) % 60)] := by
    rw [patternBytes]
    induction count with
    | zero => rfl
    | succ count ih =>
        rw [Nat.succ_mul, List.range_succ, List.range_succ, List.map_append, List.map_append, ih,
          List.range_succ, List.flatMap_append, List.append_assoc, Nat.mul_comm count]
        rfl
  have hfinite : ∀ high < 60, UInt8.ofNat high &&& 0x7C ≠ 0x7C := by decide
  have hpair : ∀ low high : ℕ, FiniteHalves [UInt8.ofNat low, UInt8.ofNat (high % 60)] := by
    intro low high
    refine ⟨Nat.mod_self 2, ?_⟩
    change (_ != _ && true) = true
    rw [Bool.and_true, bne_iff_ne]
    exact hfinite _ (Nat.mod_lt _ (by decide))
  rw [hpairs]
  exact (FiniteHalves.flatMap fun index _ => hpair _ _).finite

section Objects

variable {rate : ℕ} (hrate : rate = 3 ∨ rate = 4) (projection : Projection) (role : Role)
include hrate

theorem sampleSize_mem : sampleSize rate projection role ∈ sampleSizes := by
  rcases hrate with rfl | rfl <;> cases projection <;> cases role <;> decide

theorem get?_sampleStore :
    sampleStore.get? (sampleRef rate projection role).path =
      some (patternBytes (sampleSize rate projection role)) := by
  have hkeys : (Dict.keys sampleStore).Nodup := by
    rw [Dict.keys, sampleStore, List.map_map]
    change (sampleSizes.map fun size => objectPath (sampleSha size)).Nodup
    decide
  exact Dict.get?_of_mem hkeys
    (List.mem_map.mpr ⟨_, sampleSize_mem hrate projection role, rfl⟩)

theorem verify_sampleRef :
    verify lengthHashing.toHashing sampleStore (sampleRef rate projection role) =
      .ok (patternBytes (sampleSize rate projection role)) := by
  have hsha := sha256_pattern (sampleSize_mem hrate projection role)
  have hhash : isHash (sampleRef rate projection role).sha256 = true :=
    (congrArg isHash hsha).symm.trans (isHash_length _)
  have hdtype : (sampleRef rate projection role).dtype ∈ Dict.keys itemSizes :=
    Dict.mem_keys_iff.mpr ⟨2, by cases role <;> rfl⟩
  have hbytes : ((patternBytes (sampleSize rate projection role)).length : ℤ) =
      (sampleRef rate projection role).bytes := congrArg Int.ofNat (length_patternBytes _)
  have hsize : 0 ≤ (sampleRef rate projection role).bytes := Int.natCast_nonneg _
  rw [verify, require, if_pos hhash, ok_bind, require, if_pos ⟨rfl, hdtype, hsize⟩, ok_bind,
    get?_sampleStore hrate]
  dsimp only
  rw [require, if_pos ⟨hbytes, hsha⟩, ok_bind]
  rfl

theorem loadTensor_sampleRef :
    ∃ tensor, loadTensor lengthHashing.toHashing sampleStore (sampleRef rate projection role) =
        .ok tensor ∧
      tensor.dtype = sampleType role ∧ tensor.shape = sampleShape rate projection role ∧
      tensor.data = patternBytes (sampleSize rate projection role) := by
  have hpositive : ∀ size ∈ sampleSizes, size ≠ 0 := by decide
  have hne : patternBytes (sampleSize rate projection role) ≠ [] := by
    rw [← List.length_pos_iff_ne_nil, length_patternBytes]
    exact Nat.pos_of_ne_zero (hpositive _ (sampleSize_mem hrate projection role))
  have hitem : itemSizes.get? (sampleRef rate projection role).dtype = some 2 := by
    cases role <;> rfl
  have hlength : (patternBytes (sampleSize rate projection role)).length =
      (sampleRef rate projection role).shape.prod * 2 := length_patternBytes _
  rw [loadTensor, verify_sampleRef hrate, ok_bind, require, if_pos hne, ok_bind, hitem]
  dsimp only
  rw [dif_pos hlength]
  exact ⟨_, rfl, rfl, rfl, rfl⟩

theorem halfVector_sample (hrole : sampleType role = "float16") {length : ℕ}
    (hlength : sampleShape rate projection role = [length]) :
    ∃ tensor, loadTensor lengthHashing.toHashing sampleStore (sampleRef rate projection role) =
      .ok tensor ∧ HalfVector tensor length := by
  obtain ⟨tensor, hload, hdtype, hshape, hdata⟩ := loadTensor_sampleRef hrate projection role
  refine ⟨tensor, hload, hdtype.trans hrole, hshape.trans hlength, ?_⟩
  rw [hdata]
  exact finite_pattern _

end Objects

/-! ### Its layers -/

theorem mem_sampleChoices {layer : ℕ} {choice : Choice} :
    choice ∈ sampleChoices layer ↔
      ∃ expert < 2, ∃ projection, choice = sampleChoice layer expert projection := by
  have hexperts : ∀ expert, expert ∈ [0, 1] ↔ expert < 2 := by
    intro expert
    rw [List.mem_pair]
    omega
  have hall : ∀ projection, projection ∈ [Projection.downProj, .gateProj, .upProj] := by
    intro projection
    cases projection <;> decide
  simp only [sampleChoices, List.mem_flatMap, List.mem_map, hexperts, hall, true_and, eq_comm]

theorem verifyChoice_sample (layer : ℕ) {expert : ℕ} (hexpert : expert < 2)
    (projection : Projection) :
    verifyChoice lengthHashing.toHashing sampleStore (sampleChoice layer expert projection) =
      .ok (sampleChoice layer expert projection) := by
  have hrate : 3 + expert = 3 ∨ 3 + expert = 4 := by omega
  have hobjects : (sampleChoice layer expert projection).objects.values.mapM
      (verify lengthHashing.toHashing sampleStore) =
        .ok ([Role.trellis, .suh, .svh, .reconstruction].map fun role =>
          patternBytes (sampleSize (3 + expert) projection role)) := by
    change ([Role.trellis, .suh, .svh, .reconstruction].map
      (sampleRef (3 + expert) projection)).mapM (verify lengthHashing.toHashing sampleStore) = _
    simp only [List.map_cons, List.map_nil, List.mapM_cons, List.mapM_nil,
      verify_sampleRef hrate]
    rfl
  exact verifyChoice_sealed isHash_length hobjects expert projection (3 + expert)

theorem verify_sample (layer : ℕ) :
    verifyInstalledLayer lengthHashing (sampleRoot layer) = .ok (sampleManifest layer) := by
  have hchoices : (sampleChoices layer).mapM (verifyChoice lengthHashing.toHashing sampleStore) =
      .ok (sampleChoices layer) := by
    simp only [sampleChoices, List.flatMap_cons, List.flatMap_nil, List.map_cons, List.map_nil,
      List.cons_append, List.nil_append, List.mapM_cons, List.mapM_nil,
      verifyChoice_sample layer Nat.zero_lt_two, verifyChoice_sample layer Nat.one_lt_two]
    rfl
  have hkeys : ((sampleChoices layer).map choiceKey).Nodup :=
    show sampleKeys.Nodup by decide
  have hsorted : ((sampleChoices layer).map choiceKey).Pairwise fun left right =>
      left.1 < right.1 ∨ left.1 = right.1 ∧ left.2.name ≤ right.2.name :=
    show sampleKeys.Pairwise fun left right =>
      left.1 < right.1 ∨ left.1 = right.1 ∧ left.2.name ≤ right.2.name by decide
  refine verifyInstalledLayer_sealed isHash_length (List.cons_ne_nil _ _) hchoices ?_ hkeys
    (List.pairwise_map.mp hsorted :) rfl rfl
  intro choice hchoice
  obtain ⟨expert, -, projection, rfl⟩ := mem_sampleChoices.mp hchoice
  exact ⟨rfl, rfl⟩

def sampleFound (layer : ℕ) : Choices :=
  (sampleChoices layer).map fun choice => (choiceKey choice, choice)

theorem layerChoices_sample (layer : ℕ) :
    layerChoices lengthHashing (sampleRoot layer) =
      .ok (sampleManifest layer, sampleFound layer) := by
  rw [layerChoices, verify_sample]
  rfl

theorem find_sample (layer : ℕ) {expert : ℕ} (hexpert : expert < 2) (projection : Projection) :
    (sampleFound layer).find expert projection = .ok (sampleChoice layer expert projection) := by
  obtain rfl | rfl : expert = 0 ∨ expert = 1 := by omega
  · cases projection <;> rfl
  · cases projection <;> rfl

theorem experts_sample (layer : ℕ) : (sampleFound layer).experts = [0, 1] :=
  show ([0, 0, 0, 1, 1, 1] : List ℕ).dedup.insertionSort (· ≤ ·) = [0, 1] by decide

theorem putLayer_sample (layer : ℕ) : PutLayer sampleFormat.toBtxFormat (sampleRoot layer) := by
  intro manifest hverify choice hchoice
  cases hverify.symm.trans (verify_sample layer)
  obtain ⟨expert, hexpert, projection, rfl⟩ := mem_sampleChoices.mp hchoice
  have hrate : 3 + expert = 3 ∨ 3 + expert = 4 := by omega
  obtain ⟨reconstruction, hreconstruction, -, hshape, -⟩ :=
    loadTensor_sampleRef hrate projection .reconstruction
  obtain ⟨trellis, htrellis, hdtype, -, -⟩ := loadTensor_sampleRef hrate projection .trellis
  cases projection with
  | downProj => exact ⟨16, 256, ⟨_, hreconstruction, hshape⟩, ⟨_, htrellis, hdtype⟩,
      halfVector_sample hrate .downProj .suh rfl rfl,
      halfVector_sample hrate .downProj .svh rfl rfl⟩
  | gateProj => exact ⟨256, 16, ⟨_, hreconstruction, hshape⟩, ⟨_, htrellis, hdtype⟩,
      halfVector_sample hrate .gateProj .suh rfl rfl,
      halfVector_sample hrate .gateProj .svh rfl rfl⟩
  | upProj => exact ⟨256, 16, ⟨_, hreconstruction, hshape⟩, ⟨_, htrellis, hdtype⟩,
      halfVector_sample hrate .upProj .suh rfl rfl,
      halfVector_sample hrate .upProj .svh rfl rfl⟩

theorem shapedLayer_sample (layer : ℕ) :
    ShapedLayer sampleFormat.toBtxFormat (sampleRoot layer) 16 256 := by
  intro manifest hverify choice hchoice
  cases hverify.symm.trans (verify_sample layer)
  obtain ⟨expert, hexpert, projection, rfl⟩ := mem_sampleChoices.mp hchoice
  have hrate : 3 + expert = 3 ∨ 3 + expert = 4 := by omega
  constructor
  · intro tensor hload
    obtain ⟨own, hown, -, hshape, -⟩ := loadTensor_sampleRef hrate projection .reconstruction
    cases hload.symm.trans hown
    cases projection <;> exact hshape
  · intro tensor hload
    obtain ⟨own, hown, -, hshape, -⟩ := loadTensor_sampleRef hrate projection .trellis
    cases hload.symm.trans hown
    rw [hshape]
    obtain rfl | rfl : expert = 0 ∨ expert = 1 := by omega
    · cases projection <;> rfl
    · cases projection <;> rfl

theorem mem_sampleRoots {root : InstalledRoot} :
    root ∈ sampleRoots ↔ ∃ layer < 2, root = sampleRoot layer := by
  rw [sampleRoots, List.mem_pair]
  constructor
  · rintro (rfl | rfl)
    · exact ⟨0, Nat.zero_lt_two, rfl⟩
    · exact ⟨1, Nat.one_lt_two, rfl⟩
  · rintro ⟨layer, hlayer, rfl⟩
    obtain rfl | rfl : layer = 0 ∨ layer = 1 := by omega
    · exact .inl rfl
    · exact .inr rfl

/-- The experts of both layers share their hidden vectors. -/
theorem oneTopology_sample :
    OneTopology sampleFormat.toBtxFormat sampleRoots := by
  have hshares : ∀ layer,
      SharesHidden sampleFormat.toBtxFormat sampleStore (sampleFound layer) := by
    intro layer expert hexpert projection first choice firstVector vector hfirst hchoice
      hfirstLoad hload
    have hsmall : expert < 2 := by
      rw [experts_sample] at hexpert
      exact (show ∀ expert ∈ [0, 1], expert < 2 by decide) expert hexpert
    cases hfirst.symm.trans (find_sample layer Nat.zero_lt_two projection)
    cases hchoice.symm.trans (find_sample layer hsmall projection)
    have hdata : ∀ expert < 2, ∀ vector, loadTensor lengthHashing.toHashing sampleStore
        (hiddenVector projection (sampleChoice layer expert projection).objects) = .ok vector →
          vector.data = patternBytes 32 := by
      intro expert hsmall vector hload
      have hrate : 3 + expert = 3 ∨ 3 + expert = 4 := by omega
      obtain ⟨suh, hsuh, -, -, hsuhData⟩ := loadTensor_sampleRef hrate projection .suh
      obtain ⟨svh, hsvh, -, -, hsvhData⟩ := loadTensor_sampleRef hrate projection .svh
      cases projection with
      | downProj =>
          cases hload.symm.trans hsvh
          exact hsvhData
      | gateProj =>
          cases hload.symm.trans hsuh
          exact hsuhData
      | upProj =>
          cases hload.symm.trans hsuh
          exact hsuhData
    rw [hdata expert hsmall vector hload, hdata 0 Nat.zero_lt_two firstVector hfirstLoad]
    decide
  refine ⟨false, fun root hroot manifest choices hfound => iff_of_true ?_ rfl⟩
  obtain ⟨layer, -, rfl⟩ := mem_sampleRoots.mp hroot
  cases hfound.symm.trans (layerChoices_sample layer)
  exact hshares layer

/-! ### Its report -/

theorem surveyExpert_sample (layer : ℕ) {expert : ℕ} (hexpert : expert < 2)
    (state : LayerSurvey) :
    surveyExpert lengthHashing sampleStore layer 2 (sampleFound layer) state expert = .ok {
      survey := { state.survey with
        observedBits := state.survey.observedBits.insert (3 + expert : ℤ)
        observedRatePairs :=
          state.survey.observedRatePairs.insert ((3 + expert : ℤ), (3 + expert : ℤ)) }
      layerRates := state.layerRates ++ [((3 + expert : ℤ), (3 + expert : ℤ))]
      layerGeometry := some ⟨2, 16, 256⟩ } := by
  have hrate : 3 + expert = 3 ∨ 3 + expert = 4 := by omega
  obtain ⟨gate, hgate, -, hgateShape, -⟩ := loadTensor_sampleRef hrate .gateProj .reconstruction
  obtain ⟨up, hup, -, hupShape, -⟩ := loadTensor_sampleRef hrate .upProj .reconstruction
  obtain ⟨down, hdown, -, hdownShape, -⟩ := loadTensor_sampleRef hrate .downProj .reconstruction
  rw [surveyExpert, find_sample layer hexpert, ok_bind, find_sample layer hexpert, ok_bind,
    find_sample layer hexpert, ok_bind]
  change (fromStore (loadTensor lengthHashing.toHashing sampleStore
    (sampleRef (3 + expert) .gateProj .reconstruction)) >>= fun gateShape =>
      fromStore (loadTensor lengthHashing.toHashing sampleStore
        (sampleRef (3 + expert) .upProj .reconstruction)) >>= fun upShape =>
          fromStore (loadTensor lengthHashing.toHashing sampleStore
            (sampleRef (3 + expert) .downProj .reconstruction)) >>= fun downShape => _) = _
  rw [hgate, hup, hdown]
  have hinsert : ((state.survey.observedBits.insert (3 + expert : ℤ)).insert
      (3 + expert : ℤ)).insert (3 + expert : ℤ) =
        state.survey.observedBits.insert (3 + expert : ℤ) := by
    rw [List.insert_of_mem List.mem_insert_self, List.insert_of_mem List.mem_insert_self]
  simp only [fromStore, ok_bind, hgateShape, hupShape, hdownShape]
  rw [← hinsert]
  obtain rfl | rfl : expert = 0 ∨ expert = 1 := by omega
  · rfl
  · rfl

theorem surveyLayer_sample (layer : ℕ) (survey : Survey) :
    surveyLayer lengthHashing survey (sampleRoot layer) = .ok (closeLayer layer {
      survey := { survey with
        observedBits := (survey.observedBits.insert 3).insert 4
        observedRatePairs := (survey.observedRatePairs.insert (3, 3)).insert (4, 4) }
      layerRates := [(3, 3), (4, 4)]
      layerGeometry := some ⟨2, 16, 256⟩ }) := by
  have hdense : (sampleFound layer).Dense := by
    rw [Choices.Dense, experts_sample]
    change (∀ key ∈ sampleKeys, key ∈ expectedKeys [0, 1]) ∧
      (∀ key ∈ expectedKeys [0, 1], key ∈ sampleKeys) ∧ [0, 1] = List.range 2
    decide
  rw [surveyLayer, layerChoices_sample, ok_bind]
  dsimp only
  rw [if_pos hdense, experts_sample, List.foldlM_cons]
  change (surveyExpert lengthHashing sampleStore layer 2 (sampleFound layer) _ 0 >>=
    fun state => _) >>= _ = _
  rw [surveyExpert_sample layer Nat.zero_lt_two, ok_bind, List.foldlM_cons]
  change (surveyExpert lengthHashing sampleStore layer 2 (sampleFound layer) _ 1 >>=
    fun state => _) >>= _ = _
  rw [surveyExpert_sample layer Nat.one_lt_two]
  rfl

def sampleSurvey : Survey where
  failures := []
  layers := [0, 1]
  geometry := some ⟨2, 16, 256⟩
  structures := [.perExpertPair]
  observedBits := [4, 3]
  observedRatePairs := [(4, 4), (3, 3)]

theorem report_sample : ∃ report,
    btxCompatibilityReport sampleFormat.toBtxFormat sampleRoots false [1] =
        .ok report ∧
      report.compatible = true ∧ report.geometry = some ⟨2, 16, 256⟩ ∧
      report.rateStructure = some .perExpertPair := by
  have hsurvey : sampleRoots.foldlM (surveyLayer lengthHashing) emptySurvey =
      .ok sampleSurvey := by
    rw [sampleRoots, List.foldlM_cons, surveyLayer_sample, ok_bind, List.foldlM_cons,
      surveyLayer_sample, ok_bind]
    rfl
  refine ⟨{ closeSurvey sampleSurvey false [1] with
    reportSha256 := lengthHashing.sha256 (sampleFormat.reportJson
      (closeSurvey sampleSurvey false [1])) }, ?_, rfl, rfl, rfl⟩
  rw [btxCompatibilityReport]
  change (sampleRoots.foldlM (surveyLayer lengthHashing) emptySurvey >>=
    fun survey => _) = _
  rw [hsurvey]
  rfl

theorem verified_sample : sampleRoots.mapM (fun root =>
    fromStore (verifyInstalledLayer sampleFormat.toLayerHashing root)) =
      .ok [sampleManifest 0, sampleManifest 1] := by
  change [sampleRoot 0, sampleRoot 1].mapM (fun root =>
    fromStore (verifyInstalledLayer lengthHashing root)) = _
  rw [List.mapM_cons, verify_sample, List.mapM_cons, verify_sample]
  rfl

theorem put_sample : ∀ root ∈ sampleRoots, PutLayer sampleFormat.toBtxFormat root := by
  intro root hroot
  obtain ⟨layer, -, rfl⟩ := mem_sampleRoots.mp hroot
  exact putLayer_sample layer

theorem shaped_sample : ∀ root ∈ sampleRoots, ∃ hidden intermediate,
    ShapedLayer sampleFormat.toBtxFormat root hidden intermediate := by
  intro root hroot
  obtain ⟨layer, -, rfl⟩ := mem_sampleRoots.mp hroot
  exact ⟨16, 256, shapedLayer_sample layer⟩

theorem distinct_sample :
    DistinctLayers sampleFormat.toLayerHashing sampleRoots := by
  refine List.pairwise_pair.mpr fun installed other hinstalled hother => ?_
  cases hinstalled.symm.trans (verify_sample 0)
  cases hother.symm.trans (verify_sample 1)
  exact Nat.zero_ne_one

/-- Two layers of two experts, the rates 3 and 4, are emitted and read back. -/
theorem btx_round_trip_sample : ∃ manifest directory,
    emitOfficialBtxCheckpoint sampleFormat sampleRoots false 4096 [1] none =
        .ok (manifest, directory) ∧
      auditOfficialBtxCheckpoint sampleFormat directory none false = .ok ⟨true, [],
        some (sampleFormat.sha256 (sampleFormat.contents (.manifest manifest)))⟩ ∧
      ∀ layer < 2, ∀ slot < manifest.geometry.atomSlots,
        ∀ expert < manifest.geometry.numExperts, ∀ projection plane, ∃ planes,
          slotPlanes sampleFormat.toBtxFormat sampleStore (sampleFound layer)
            manifest.geometry.toGeometry slot (expert, projection) = .ok planes ∧
          unpackOfficialBtxPlane directory layer slot expert projection plane =
            .ok (plane.of planes) := by
  obtain ⟨report, hreport, hcompatible, hgeometry, hdeclared⟩ := report_sample
  have hstored := storedLayers_of_shaped put_sample shaped_sample
  obtain ⟨⟨manifest, directory⟩, hrun⟩ := @emitted_of_oneTopology _ _ _ 4096 _ none _ _ _ _
    hstored (by decide) hreport verified_sample hcompatible (fun bytes hbytes => by cases hbytes)
    hgeometry hdeclared oneTopology_sample
  obtain ⟨haudit, hunpack⟩ := btx_round_trip put_sample distinct_sample (by decide) ⟨2048, rfl⟩
    hrun
  refine ⟨manifest, directory, hrun, haudit none false, fun layer hlayer => ?_⟩
  exact hunpack _ (mem_sampleRoots.mpr ⟨layer, hlayer, rfl⟩) (sampleManifest layer)
    (sampleFound layer) (layerChoices_sample layer)

theorem btx_emitted_iff_sample : ∃ container,
    emitOfficialBtxCheckpoint sampleFormat sampleRoots false 4096 [1]
      (some 28032) = .ok container := by
  obtain ⟨report, hreport, hcompatible, hgeometry, hdeclared⟩ := report_sample
  have hcost : ∀ bytes ∈ some (28032 : ℤ),
      ([sampleManifest 0, sampleManifest 1].map (·.allocatedPayloadBytes)).sum = bytes := by
    intro bytes hbytes
    cases hbytes
    rfl
  exact (btx_emitted_iff put_sample (by decide) hreport verified_sample).mpr ⟨hcompatible,
    by simp [hgeometry], by simp [hdeclared], hcost, shaped_sample, oneTopology_sample⟩

end GlmFlash.Checkpoint.Btx
