import GlmFlash.Checkpoint.BtxReading
import GlmFlash.Checkpoint.AssembledFiles

/-!
# The layers of a container

The loop over the installed layers fails exactly where the topology of the hidden vectors
changes; else every layer has a file of its own, and the totals are those of the files.
-/

namespace GlmFlash.Checkpoint.Btx

open GlmFlash.Library

/-- An assembled layer with its number. -/
structure Emitted where
  layer : ℕ
  tensors : Dict String Tensor
  kinds : List String
  perExpert : Bool
  known : ∀ kind ∈ kinds, kind ∈ Dict.keys pairCodes

section Emission

variable {format : ContainerFormat} {geometry : Geometry} {declared : RateStructure}
  {uniformBits : Option ℤ} {rowAlignment : ℕ}

/-- What the container stores of an installed layer. -/
structure Emits (format : ContainerFormat) (geometry : Geometry) (declared : RateStructure)
    (uniformBits : Option ℤ) (rowAlignment : ℕ) (root : InstalledRoot) (choices : Choices)
    (emitted : Emitted) : Prop where
  representable : ∃ manifest, manifest.layer = emitted.layer ∧
    Representable format.toBtxFormat root geometry declared uniformBits manifest choices
  assembled : Assembled format.toBtxFormat root.store choices geometry declared rowAlignment
    emitted.perExpert emitted.tensors
  run : assembleLayer format.toBtxFormat format.toHalfConversion root.store choices declared
    rowAlignment = .ok (emitted.tensors, emitted.kinds)

def Emitted.file (emitted : Emitted) (geometry : Geometry) : BtxFile :=
  .container (saveFile (layerMetadata geometry (toString emitted.layer)) emitted.tensors)

/-- The reference of a layer's file. -/
def Emitted.ref (emitted : Emitted) (format : ContainerFormat) (geometry : Geometry) :
    LayerRef where
  file := btxLayerFileName emitted.layer
  sha256 := format.sha256 (format.contents (emitted.file geometry))

/-- One layer more, if its topology is that of the layers before it. -/
def addEmitted (format : ContainerFormat) (geometry : Geometry) (emission : BtxEmission)
    (emitted : Emitted) : Except BtxFailure BtxEmission := do
  require (emission.perExpertHidden.getD emitted.perExpert = emitted.perExpert)
    (.valueError topologyMessage)
  return {
    files := emission.files.set (btxLayerFileName emitted.layer) (emitted.file geometry)
    layers := emission.layers.set emitted.layer (emitted.ref format geometry)
    observedKinds := emitted.kinds.foldl (fun kinds kind => kinds.insert kind)
      emission.observedKinds
    perExpertHidden := some emitted.perExpert
    tensorPayloadBytes := emission.tensorPayloadBytes + tensorBytesTotal emitted.tensors
    containerBytes :=
      emission.containerBytes + (format.contents (emitted.file geometry)).length }

theorem emits_of_representable {root : InstalledRoot} {manifest : Manifest} {choices : Choices}
    (halign : 0 < rowAlignment)
    (hlayer : Representable format.toBtxFormat root geometry declared uniformBits manifest
      choices) :
    ∃ emitted, emitted.layer = manifest.layer ∧
      Emits format geometry declared uniformBits rowAlignment root choices emitted := by
  obtain ⟨perExpert, tensors, kinds, hrun, hassembled, hkinds⟩ :=
    @assembleLayer_ok _ format.toHalfConversion _ _ _ _ _ _ _ hlayer halign
  exact ⟨⟨manifest.layer, tensors, kinds, perExpert, hkinds⟩, rfl,
    ⟨⟨manifest, rfl, hlayer⟩, hassembled, hrun⟩⟩

/-- The topology is read off the first hidden table. -/
theorem Emits.topology {root : InstalledRoot} {choices : Choices} {emitted : Emitted}
    (hemits : Emits format geometry declared uniformBits rowAlignment root choices emitted) :
    ∃ installed gate, installed.layer = emitted.layer ∧
      layerChoices format.toLayerHashing root = .ok (installed, choices) ∧
      emitted.tensors.get? "gate_suh" = some gate ∧
      decide (gate.shape.length = 2) = emitted.perExpert := by
  obtain ⟨installed, hnumber, hlayer⟩ := hemits.representable
  obtain ⟨gate, hgate, htable⟩ := hemits.assembled.hidden "gate_suh" (by decide)
  refine ⟨installed, gate, hnumber, hlayer.found, hgate, ?_⟩
  rw [htable.shape, Geometry.hiddenSizes]
  cases emitted.perExpert with
  | false => rfl
  | true => rfl

theorem emitBtxLayer_eq {root : InstalledRoot} {choices : Choices} {emitted : Emitted}
    (hemits : Emits format geometry declared uniformBits rowAlignment root choices emitted)
    (emission : BtxEmission) :
    emitBtxLayer format geometry declared rowAlignment emission root =
      addEmitted format geometry emission emitted := by
  obtain ⟨manifest, gate, hnumber, hfound, hgate, htopology⟩ := hemits.topology
  rw [emitBtxLayer, hfound, ok_bind]
  dsimp only
  rw [hemits.run, ok_bind]
  dsimp only
  rw [hgate]
  dsimp only
  rw [pure_bind, htopology, hnumber]
  rfl

/-- Every installed layer with what the container stores of it. -/
abbrev EmitsAll (format : ContainerFormat) (geometry : Geometry) (declared : RateStructure)
    (uniformBits : Option ℤ) (rowAlignment : ℕ) (roots : List InstalledRoot)
    (layers : List Emitted) : Prop :=
  List.Forall₂ (fun root emitted => ∃ choices,
    Emits format geometry declared uniformBits rowAlignment root choices emitted) roots layers

theorem foldlM_emitBtxLayer {roots : List InstalledRoot} {layers : List Emitted}
    (hemits : EmitsAll format geometry declared uniformBits rowAlignment roots layers)
    (emission : BtxEmission) :
    roots.foldlM (emitBtxLayer format geometry declared rowAlignment) emission =
      layers.foldlM (addEmitted format geometry) emission := by
  induction hemits generalizing emission with
  | nil => rfl
  | cons hfirst _ ih =>
      obtain ⟨choices, hemitted⟩ := hfirst
      rw [List.foldlM_cons, List.foldlM_cons, emitBtxLayer_eq hemitted]
      exact bind_congr ih

/-! ## What has been written -/

/-- The files and totals of some layers. -/
structure Gathered (format : ContainerFormat) (geometry : Geometry) (layers : List Emitted)
    (emission : BtxEmission) : Prop where
  files : emission.files = layers.map fun emitted =>
    (btxLayerFileName emitted.layer, emitted.file geometry)
  refs : emission.layers = layers.map fun emitted =>
    (emitted.layer, emitted.ref format geometry)
  known : ∀ kind ∈ emission.observedKinds, kind ∈ Dict.keys pairCodes
  topology : ∀ emitted ∈ layers, emission.perExpertHidden = some emitted.perExpert
  tensorBytes : emission.tensorPayloadBytes =
    (layers.map fun emitted => tensorBytesTotal emitted.tensors).sum
  containerBytes : emission.containerBytes =
    (layers.map fun emitted => (format.contents (emitted.file geometry)).length).sum

theorem gathered_nil : Gathered format geometry [] emptyBtxEmission where
  files := rfl
  refs := rfl
  known := fun kind hkind => by cases hkind
  topology := fun emitted hemitted => by cases hemitted
  tensorBytes := rfl
  containerBytes := rfl

theorem mem_insertAll {names more : List String} {name : String} :
    name ∈ more.foldl (fun names name => names.insert name) names ↔
      name ∈ more ∨ name ∈ names := by
  induction more generalizing names with
  | nil => simp
  | cons first more ih => rw [List.foldl_cons, ih, List.mem_insert_iff, List.mem_cons, or_left_comm,
      or_assoc]

theorem btxLayerFileName_injective : Function.Injective btxLayerFileName := by
  intro left right heq
  have hpadded := List.append_cancel_left (String.ofList_injective heq)
  exact paddedNumeral_injective 5 ((List.append_left_inj _).mp hpadded)

theorem Gathered.add {layers : List Emitted} {emission next : BtxEmission} {emitted : Emitted}
    (hgathered : Gathered format geometry layers emission)
    (hnew : emitted.layer ∉ layers.map (·.layer))
    (hrun : addEmitted format geometry emission emitted = .ok next) :
    Gathered format geometry (layers ++ [emitted]) next := by
  simp only [addEmitted, bind_eq_ok, require_eq_ok, pure_eq_ok] at hrun
  obtain ⟨-, hsame, rfl⟩ := hrun
  have hfiles : btxLayerFileName emitted.layer ∉ Dict.keys emission.files := by
    rw [hgathered.files, Dict.keys, List.map_map]
    intro hmem
    obtain ⟨other, hother, heq⟩ := List.mem_map.mp hmem
    exact hnew (List.mem_map.mpr ⟨other, hother, btxLayerFileName_injective heq⟩)
  have hlayers : emitted.layer ∉ Dict.keys emission.layers := by
    rw [hgathered.refs, Dict.keys, List.map_map]
    exact hnew
  constructor
  · rw [List.map_append, ← hgathered.files]
    exact Dict.set_eq_append hfiles
  · rw [List.map_append, ← hgathered.refs]
    exact Dict.set_eq_append hlayers
  · intro kind hkind
    rcases mem_insertAll.mp hkind with hthis | hbefore
    · exact emitted.known kind hthis
    · exact hgathered.known kind hbefore
  · intro other hother
    rcases List.mem_append.mp hother with hbefore | hthis
    · have htopology := hgathered.topology other hbefore
      rw [htopology, Option.getD_some] at hsame
      rw [hsame]
    · rw [List.mem_singleton.mp hthis]
  · rw [List.map_append, List.sum_append, ← hgathered.tensorBytes, List.map_singleton,
      List.sum_singleton]
  · rw [List.map_append, List.sum_append, ← hgathered.containerBytes, List.map_singleton,
      List.sum_singleton]

theorem gathered_of_run {done layers : List Emitted} {emission final : BtxEmission}
    (hgathered : Gathered format geometry done emission)
    (hnodup : ((done ++ layers).map (·.layer)).Nodup)
    (hrun : layers.foldlM (addEmitted format geometry) emission = .ok final) :
    Gathered format geometry (done ++ layers) final := by
  induction layers generalizing done emission with
  | nil =>
      rw [List.foldlM_nil, pure_eq_ok] at hrun
      rw [List.append_nil, ← hrun]
      exact hgathered
  | cons emitted layers ih =>
      rw [List.foldlM_cons, bind_eq_ok] at hrun
      obtain ⟨next, hfirst, hrest⟩ := hrun
      have hsplit : done ++ emitted :: layers = done ++ [emitted] ++ layers := by
        rw [List.append_assoc, List.singleton_append]
      have hnew : emitted.layer ∉ done.map (·.layer) := by
        rw [List.map_append, List.nodup_append'] at hnodup
        intro hmem
        exact hnodup.2.2 hmem List.mem_cons_self
      rw [hsplit] at hnodup ⊢
      exact ih (hgathered.add hnew hfirst) hnodup hrest

/-- Layers of one topology are all written. -/
theorem foldlM_addEmitted_succeeds {layers : List Emitted} {emission : BtxEmission}
    {perExpert : Bool} (hsame : ∀ emitted ∈ layers, emitted.perExpert = perExpert)
    (hstart : emission.perExpertHidden.getD perExpert = perExpert) :
    ∃ final, layers.foldlM (addEmitted format geometry) emission = .ok final := by
  induction layers generalizing emission with
  | nil => exact ⟨emission, rfl⟩
  | cons emitted layers ih =>
      have hfirst := hsame emitted List.mem_cons_self
      rw [List.foldlM_cons, addEmitted, hfirst, require, if_pos hstart]
      exact ih (fun other hother => hsame other (List.mem_cons_of_mem emitted hother)) rfl

/-- Layers that are written have one topology. -/
theorem topology_of_run {layers : List Emitted} {final : BtxEmission}
    (hrun : layers.foldlM (addEmitted format geometry) emptyBtxEmission = .ok final) :
    ∃ perExpert, ∀ emitted ∈ layers, emitted.perExpert = perExpert := by
  have hround : ∀ done emitted state next, addEmitted format geometry state emitted = .ok next →
      (∀ earlier ∈ done, state.perExpertHidden = some earlier.perExpert) →
        ∀ earlier ∈ done ++ [emitted], next.perExpertHidden = some earlier.perExpert := by
    intro done emitted state next hadd hbefore earlier hearlier
    simp only [addEmitted, bind_eq_ok, require_eq_ok, pure_eq_ok] at hadd
    obtain ⟨-, hsame, rfl⟩ := hadd
    rcases List.mem_append.mp hearlier with hdone | hthis
    · rw [hbefore earlier hdone, Option.getD_some] at hsame
      rw [hsame]
    · rw [List.mem_singleton.mp hthis]
  have hfinal := foldlM_run (fun done (state : BtxEmission) => ∀ earlier ∈ done,
    state.perExpertHidden = some (Emitted.perExpert earlier)) hround hrun
    (fun earlier hearlier => by cases hearlier)
  refine ⟨final.perExpertHidden.getD false, fun emitted hemitted => ?_⟩
  rw [hfinal emitted hemitted, Option.getD_some]

/-- What the manifest says of the layers. -/
theorem declares_of_gathered {layers : List Emitted} {emission : BtxEmission}
    (hgathered : Gathered format geometry layers emission) {emitted : Emitted}
    (hmem : emitted ∈ layers) :
    Declares (btxManifest geometry declared uniformBits rowAlignment emission) geometry declared
      uniformBits rowAlignment emitted.perExpert where
  sizes := rfl
  atomSlots := rfl
  uniform := by rintro rfl; rfl
  paired := by rintro rfl; exact ⟨_, rfl⟩
  hidden := by
    change emission.perExpertHidden.getD false = _
    rw [hgathered.topology emitted hmem, Option.getD_some]
  alignment := rfl

end Emission

end GlmFlash.Checkpoint.Btx
