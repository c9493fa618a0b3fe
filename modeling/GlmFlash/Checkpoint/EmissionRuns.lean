import GlmFlash.Checkpoint.EmittedFiles

/-!
# The loops of the assembly

Writing a file overlays its tensors on the earlier ones in the index and in the
recorded hashes.  The two loops write the emitted files one after the other.
-/

namespace GlmFlash.Checkpoint

open GlmFlash.Library

variable {format : CheckpointFormat}

/-- The saved tensors are readable as bytes, and the bytes are the table's. -/
def Stores (tensors : Dict String Tensor) (table : Table) : Prop :=
  tensors.mapValues tensorBytes = table.mapValues .ok

/-- The files are written: the index and the hashes follow the last file that
holds a name. -/
structure Wrote (format : CheckpointFormat) (files : List (String × Table))
    (emission : Emission) : Prop where
  names : (files.map Prod.fst).Nodup
  index : ∀ name, emission.weightMap.get? name =
    (owner files name).map Prod.fst
  indexNodup : (Dict.keys emission.weightMap).Nodup
  hashes : ∀ name, emission.tensorHashes.get? name =
    (owner files name).map fun found => format.sha256 found.2
  hashesNodup : (Dict.keys emission.tensorHashes).Nodup
  saved : ∀ table ∈ files, ∃ file,
    emission.directory.get? table.1 = some (.tensors file) ∧
      Stores file.tensors table.2
  only : ∀ name ∈ Dict.keys emission.directory, name ∈ files.map Prod.fst
  directoryNodup : (Dict.keys emission.directory).Nodup

theorem wrote_nil : Wrote format [] emptyEmission where
  names := List.nodup_nil
  index := fun _ => rfl
  indexNodup := List.nodup_nil
  hashes := fun _ => rfl
  hashesNodup := List.nodup_nil
  saved := fun _ hmem => absurd hmem List.not_mem_nil
  only := fun _ hmem => absurd hmem List.not_mem_nil
  directoryNodup := List.nodup_nil

theorem hashTensors_eq_ok {hashes final : Dict String String}
    {tensors : Dict String Tensor}
    (hrun : hashTensors format hashes tensors = .ok final) :
    Stores tensors (tableOf tensors) ∧
      final = hashes.update ((tableOf tensors).mapValues format.sha256) := by
  induction tensors generalizing hashes with
  | nil =>
      rw [hashTensors, List.foldlM_nil, pure_eq_ok] at hrun
      exact ⟨rfl, hrun.symm⟩
  | cons item tensors ih =>
      simp only [hashTensors, List.foldlM_cons, bind_eq_ok, tensorSha256,
        pure_eq_ok] at hrun
      obtain ⟨_, ⟨_, ⟨bytes, hbytes, rfl⟩, rfl⟩, hrest⟩ := hrun
      obtain ⟨hstores, hfinal⟩ := ih hrest
      cases tensorBytes_eq_ok hbytes
      refine ⟨?_, hfinal⟩
      change (item.1, tensorBytes item.2) :: Dict.mapValues tensorBytes tensors =
        (item.1, .ok item.2.data) :: _
      rw [hbytes, hstores]
      rfl

/-- Writing one more file. -/
theorem Wrote.write {files : List (String × Table)} {emission : Emission}
    {name : String} {saved : TensorFile} {hashes : Dict String String}
    (hwrote : Wrote format files emission) (hnew : name ∉ files.map Prod.fst)
    (hrun : hashTensors format emission.tensorHashes saved.tensors = .ok hashes)
    (next : Emission)
    (hdirectory : next.directory =
      emission.directory.set name (.tensors saved))
    (hindex : next.weightMap = emission.weightMap.update
      (saved.tensors.mapValues fun _ => name))
    (hhashes : next.tensorHashes = hashes) :
    Wrote format (files ++ [(name, tableOf saved.tensors)]) next := by
  obtain ⟨hstores, hfinal⟩ := hashTensors_eq_ok hrun
  have howner : ∀ key, owner (files ++ [(name, tableOf saved.tensors)]) key =
      ((saved.tensors.get? key).map fun tensor => (name, tensor.data)).or
        (owner files key) := by
    intro key
    rw [owner_append_singleton, tableOf, Dict.get?_mapValues, Option.map_map]
    rfl
  constructor
  · rw [List.map_append, List.map_singleton]
    exact List.nodup_append.mpr ⟨hwrote.names, List.nodup_singleton name,
      fun other hother last hlast heq => by
        have hname : other = name := heq.trans (List.mem_singleton.mp hlast)
        exact hnew (hname ▸ hother)⟩
  · intro key
    rw [hindex, Dict.get?_update (by simpa using saved.nodup), howner,
      Dict.get?_mapValues, hwrote.index key]
    cases saved.tensors.get? key <;> rfl
  · rw [hindex]
    exact Dict.nodup_keys_update hwrote.indexNodup
  · intro key
    rw [hhashes, hfinal, Dict.get?_update
      (by simpa [tableOf] using saved.nodup), howner, tableOf,
      Dict.get?_mapValues, Dict.get?_mapValues, hwrote.hashes key]
    cases saved.tensors.get? key <;> rfl
  · rw [hhashes, hfinal]
    exact Dict.nodup_keys_update hwrote.hashesNodup
  · intro table hmem
    rw [hdirectory]
    rcases List.mem_append.mp hmem with hearlier | hlast
    · have hne : table.1 ≠ name := fun heq =>
        hnew (List.mem_map.mpr ⟨table, hearlier, heq⟩)
      rw [Dict.get?_set_of_ne hne]
      exact hwrote.saved table hearlier
    · rw [List.mem_singleton.mp hlast]
      exact ⟨saved, Dict.get?_set_self, hstores⟩
  · intro key hmem
    rw [hdirectory, Dict.mem_keys_set] at hmem
    rw [List.map_append, List.mem_append]
    rcases hmem with rfl | hold
    · exact .inr List.mem_cons_self
    · exact .inl (hwrote.only key hold)
  · rw [hdirectory]
    exact Dict.nodup_keys_set hwrote.directoryNodup

/-! ## Carriers -/

theorem saveFile_tensors (metadata : Dict String String)
    {tensors : Dict String Tensor} (hnodup : (Dict.keys tensors).Nodup) :
    (saveFile metadata tensors).tensors = tensors :=
  Dict.ofItems_eq hnodup

theorem nodup_keptTensors {layers : List ℕ} {tensors : Dict String Tensor}
    (hnodup : (Dict.keys tensors).Nodup) :
    (Dict.keys (keptTensors layers tensors)).Nodup :=
  hnodup.sublist (List.filter_sublist.map Prod.fst)

theorem emitCarrier_wrote {source : SourceCheckpoint} {layers : List ℕ}
    {files : List (String × Table)} {emission next : Emission}
    {shard : String × ℕ} (hwrote : Wrote format files emission)
    (hnew : carrierName shard.2 ∉ files.map Prod.fst)
    (hrun : emitCarrier format source layers emission shard = .ok next) :
    Wrote format (files ++ carrierTables source layers shard) next ∧
      next.layers = emission.layers ∧ next.units = emission.units ∧
      next.logicalPayloadBytes = emission.logicalPayloadBytes := by
  simp only [emitCarrier, bind_eq_ok] at hrun
  obtain ⟨file, hfile, hashes, hhashes, hnext⟩ := hrun
  have hopen : source.tensorsOf shard.1 = file.tensors := by
    rw [SourceCheckpoint.tensorsOf, hfile]
  rw [carrierTables, hopen]
  split at hnext
  · rename_i hempty
    have hnil : keptTensors layers file.tensors = [] := by simpa using hempty
    rw [hnil] at hhashes
    rw [if_pos hempty, List.append_nil]
    simp only [hashTensors, List.foldlM_nil, pure_eq_ok] at hhashes hnext
    rw [← hnext, ← hhashes]
    exact ⟨hwrote, rfl, rfl, rfl⟩
  · rename_i hempty
    rw [pure_eq_ok] at hnext
    have hsaved := saveFile_tensors
      [("schema", internalCheckpointSchema), ("role", "bf16-carrier")]
      (@nodup_keptTensors layers _ file.nodup)
    rw [← hsaved] at hhashes
    have hindex : next.weightMap = emission.weightMap.update
        ((saveFile [("schema", internalCheckpointSchema),
          ("role", "bf16-carrier")] (keptTensors layers
            file.tensors)).tensors.mapValues fun _ => carrierName shard.2) := by
      rw [hsaved, ← hnext]
      rfl
    have hwritten := hwrote.write hnew hhashes next (by rw [← hnext]) hindex
      (by rw [← hnext])
    rw [hsaved] at hwritten
    rw [if_neg hempty]
    refine ⟨hwritten, ?_, ?_, ?_⟩ <;> rw [← hnext]

/-! ## Layers -/

/-- The tensors of these slots are placed under their keys.  Tensors of one
key have the same hash, so they are the same object of the store. -/
structure Placed (format : CheckpointFormat) (store : PayloadStore)
    (layer : ℕ) (slots : List Slot) (tensors : Dict String Tensor) :
    Prop where
  table : tableOf tensors = layerTable store layer slots
  nodup : (Dict.keys tensors).Nodup
  stored : ∀ key tensor, tensors.get? key = some tensor →
    store.get? (objectPath (format.sha256 tensor.data)) = some tensor.data
  slots : ∀ slot ∈ slots,
    verify format.toHashing store slot.ref = .ok (slot.bytes store) ∧
      (layerTable store layer slots).get? (slot.key layer) =
        some (slot.bytes store)

theorem placed_nil {store : PayloadStore} {layer : ℕ} :
    Placed format store layer [] [] where
  table := rfl
  nodup := List.nodup_nil
  stored := by rintro _ _ ⟨⟩
  slots := fun _ hmem => absurd hmem List.not_mem_nil

section

variable {store : PayloadStore} {layer : ℕ} {choice : Choice} {role : Role}
  {slots : List Slot}

theorem placeRole_eq_ok
    {placed next : Dict String Tensor × Dict Role String}
    (hrun : placeRole format store layer choice placed role = .ok next) :
    ∃ value, loadTensor format.toHashing store
          (Slot.ref (choice, role)) = .ok value ∧
      next = (placed.1.setDefault (Slot.key (choice, role) layer) value,
        placed.2.set role (Slot.key (choice, role) layer)) ∧
      ∀ incumbent,
        placed.1.get? (Slot.key (choice, role) layer) = some incumbent →
          format.sha256 incumbent.data = format.sha256 value.data := by
  simp only [placeRole, bind_eq_ok] at hrun
  obtain ⟨value, hload, hrest⟩ := hrun
  refine ⟨value, hload, ?_⟩
  have hkey : Slot.key (choice, role) layer =
      payloadKey layer choice.expert choice.projection role
        (choice.vectorTopology.scope role) :=
    rfl
  rw [hkey]
  cases hget : placed.1.get? (payloadKey layer choice.expert choice.projection role
      (choice.vectorTopology.scope role)) with
  | none =>
      simp only [hget, pure_eq_ok] at hrest
      exact ⟨hrest.symm, by rintro _ ⟨⟩⟩
  | some incumbent =>
      simp only [hget, bind_eq_ok, tensorSha256, require_eq_ok, pure_eq_ok]
        at hrest
      obtain ⟨_, ⟨held, hheld, rfl⟩, _, ⟨own, hown, rfl⟩, -, hsame, hnext⟩ :=
        hrest
      refine ⟨hnext.symm, fun other hother => ?_⟩
      rw [← Option.some.inj hother, ← tensorBytes_eq_ok hheld, hsame,
        tensorBytes_eq_ok hown]

theorem Placed.step {tensors : Dict String Tensor} {value : Tensor}
    (hplaced : Placed format store layer slots tensors)
    (hload : loadTensor format.toHashing store
      (Slot.ref (choice, role)) = .ok value)
    (hsame : ∀ incumbent,
      tensors.get? (Slot.key (choice, role) layer) = some incumbent →
        format.sha256 incumbent.data = format.sha256 value.data) :
    Placed format store layer (slots ++ [(choice, role)])
      (tensors.setDefault (Slot.key (choice, role) layer) value) := by
  have hverify := loadTensor_eq_ok hload
  obtain ⟨-, hvalue, -, hsha⟩ := verify_eq_ok hverify
  have hbytes : Slot.bytes (choice, role) store = value.data := by
    rw [Slot.bytes, hvalue, Option.getD_some]
  have htable : layerTable store layer (slots ++ [(choice, role)]) =
      (layerTable store layer slots).setDefault
        (Slot.key (choice, role) layer) value.data := by
    rw [layerTable, List.foldl_append, ← layerTable, ← hbytes]
    rfl
  constructor
  · rw [htable, ← hplaced.table, tableOf, Dict.mapValues_setDefault]
    rfl
  · exact Dict.nodup_keys_setDefault hplaced.nodup
  · intro key tensor hget
    rw [Dict.get?_setDefault] at hget
    cases hold : tensors.get? key with
    | some held =>
        rw [hold, Option.some_or, Option.some.injEq] at hget
        rw [← hget]
        exact hplaced.stored key held hold
    | none =>
        rw [hold, Option.none_or] at hget
        split at hget
        · rw [← Option.some.inj hget, hsha]
          exact hvalue
        · cases hget
  · intro slot hmem
    rw [htable, Dict.get?_setDefault]
    rcases List.mem_append.mp hmem with hearlier | hlast
    · obtain ⟨hslot, hheld⟩ := hplaced.slots slot hearlier
      rw [hheld, Option.some_or]
      exact ⟨hslot, rfl⟩
    · rw [List.mem_singleton.mp hlast, hbytes, if_pos rfl]
      refine ⟨hverify, ?_⟩
      rw [← hplaced.table, tableOf, Dict.get?_mapValues]
      cases hold : tensors.get? (Slot.key (choice, role) layer) with
      | none => rfl
      | some incumbent =>
          -- equal hashes name one object of the store
          have hheld := hplaced.stored _ _ hold
          rw [hsame incumbent hold, hsha, hvalue, Option.some.injEq] at hheld
          rw [hheld]
          rfl

/-- The payload keys of a choice. -/
def choiceKeys (layer : ℕ) (choice : Choice) : Dict Role String :=
  payloadRoles.map fun role => (role, Slot.key (choice, role) layer)

/-- The unit of a choice. -/
def choiceUnit (layer : ℕ) (choice : Choice) : String × UnitRecord :=
  (unitName layer choice.expert choice.projection,
    unitRecord layer choice (choiceKeys layer choice))

theorem placeRole_placed {placed next : Dict String Tensor × Dict Role String}
    (hplaced : Placed format store layer slots placed.1)
    (hrun : placeRole format store layer choice placed role = .ok next) :
    Placed format store layer (slots ++ [(choice, role)]) next.1 ∧
      next.2 = placed.2.set role (Slot.key (choice, role) layer) := by
  obtain ⟨value, hload, rfl, hsame⟩ := placeRole_eq_ok hrun
  exact ⟨hplaced.step hload hsame, rfl⟩

theorem placeChoice_placed {state next : Dict String Tensor × Emission}
    (hplaced : Placed format store layer slots state.1)
    (hrun : placeChoice format store layer state choice = .ok next) :
    Placed format store layer (slots ++ choiceSlots choice) next.1 ∧
      next.2 = { state.2 with
        logicalPayloadBytes :=
          state.2.logicalPayloadBytes + choice.logicalPayloadBytes
        choiceHashes := state.2.choiceHashes ++ [choice.choiceSha256]
        units := state.2.units.set (choiceUnit layer choice).1
          (choiceUnit layer choice).2 } := by
  simp only [placeChoice, payloadRoles, List.foldlM_cons, List.foldlM_nil,
    bind_eq_ok, pure_eq_ok] at hrun
  obtain ⟨last, ⟨first, hfirst, second, hsecond, third, hthird, rfl⟩, rfl⟩ :=
    hrun
  obtain ⟨htrellis, hkeys⟩ := placeRole_placed hplaced hfirst
  obtain ⟨hsuh, hkeys'⟩ := placeRole_placed htrellis hsecond
  obtain ⟨hsvh, hkeys''⟩ := placeRole_placed hsuh hthird
  refine ⟨?_, ?_⟩
  · rw [List.append_assoc, List.append_assoc] at hsvh
    exact hsvh
  · rw [hkeys'', hkeys', hkeys]
    rfl

end

theorem placeChoices_placed {store : PayloadStore} {layer : ℕ}
    {choices : List Choice} {emission : Emission}
    {next : Dict String Tensor × Emission}
    (hrun : choices.foldlM (placeChoice format store layer) ([], emission) =
      .ok next) :
    Placed format store layer (layerSlots choices) next.1 ∧
      next.2 = { emission with
        logicalPayloadBytes := emission.logicalPayloadBytes +
          (choices.map (·.logicalPayloadBytes)).sum
        choiceHashes := emission.choiceHashes ++ choices.map (·.choiceSha256)
        units := emission.units.update (choices.map (choiceUnit layer)) } :=
  foldlM_run
    (fun done state =>
      Placed format store layer (layerSlots done) state.1 ∧
        state.2 = { emission with
          logicalPayloadBytes := emission.logicalPayloadBytes +
            (done.map (·.logicalPayloadBytes)).sum
          choiceHashes := emission.choiceHashes ++ done.map (·.choiceSha256)
          units := emission.units.update (done.map (choiceUnit layer)) })
    (fun done choice state next hround hstate => by
      obtain ⟨hplaced, hnext⟩ := placeChoice_placed hstate.1 hround
      refine ⟨?_, ?_⟩
      · rw [layerSlots, List.flatMap_append, List.flatMap_singleton]
        exact hplaced
      · rw [hnext, hstate.2]
        simp only [List.map_append, List.map_singleton, List.sum_append,
          List.sum_singleton, List.append_assoc, Dict.update,
          List.foldl_append, List.foldl_cons, List.foldl_nil, add_assoc])
    hrun
    ⟨placed_nil, by
      simp only [List.map_nil, List.sum_nil, add_zero, List.append_nil]
      rfl⟩

/-- Writing one layer. -/
theorem emitLayer_wrote {files : List (String × Table)}
    {emission next : Emission} {item : Installed}
    (hwrote : Wrote format files emission)
    (hnew : layerFileName item.2.layer ∉ files.map Prod.fst)
    (hrun : emitLayer format emission item = .ok next) :
    Wrote format (files ++ [installedTable item]) next ∧
      next.units = emission.units.update
        (item.2.choices.map (choiceUnit item.2.layer)) ∧
      next.logicalPayloadBytes = emission.logicalPayloadBytes +
        (item.2.choices.map (·.logicalPayloadBytes)).sum ∧
      (∃ record, record.allocatedPayloadBytes = item.2.allocatedPayloadBytes ∧
        next.layers = emission.layers.set (toString item.2.layer) record) ∧
      ∃ tensors, Placed format item.1.store item.2.layer
        (layerSlots item.2.choices) tensors := by
  simp only [emitLayer, bind_eq_ok, pure_eq_ok] at hrun
  obtain ⟨⟨tensors, middle⟩, hchoices, hashes, hhashes, hnext⟩ := hrun
  obtain ⟨hplaced, rfl⟩ := placeChoices_placed hchoices
  have hsaved := saveFile_tensors [("schema", internalCheckpointSchema),
    ("layer", toString item.2.layer)] hplaced.nodup
  have hwritten := hwrote.write hnew hhashes next (by rw [← hnext])
    (by rw [← hnext]; rfl) (by rw [← hnext])
  rw [hsaved, hplaced.table] at hwritten
  refine ⟨hwritten, by rw [← hnext], by rw [← hnext],
    ⟨layerRecord format item.2 (.tensors (saveFile
      [("schema", internalCheckpointSchema),
        ("layer", toString item.2.layer)] tensors)), rfl, by rw [← hnext]⟩,
    tensors, hplaced⟩

/-! ## Both loops -/

theorem carrierTables_name {source : SourceCheckpoint} {layers : List ℕ}
    {shard : String × ℕ} {table : String × Table}
    (hmem : table ∈ carrierTables source layers shard) :
    table.1 = carrierName shard.2 := by
  rw [carrierTables] at hmem
  split at hmem
  · cases hmem
  · rw [List.mem_singleton.mp hmem]

theorem emitCarriers_wrote {source : SourceCheckpoint} {layers : List ℕ}
    {shards : List (String × ℕ)} {next : Emission}
    (hnodup : (shards.map Prod.snd).Nodup)
    (hrun : shards.foldlM (emitCarrier format source layers) emptyEmission =
      .ok next) :
    Wrote format (shards.flatMap (carrierTables source layers)) next ∧
      next.layers = [] ∧ next.units = [] ∧ next.logicalPayloadBytes = 0 := by
  refine foldlM_run (fun done state => (done.map Prod.snd).Nodup →
    Wrote format (done.flatMap (carrierTables source layers)) state ∧
      state.layers = [] ∧ state.units = [] ∧ state.logicalPayloadBytes = 0)
    ?_ hrun (fun _ => ⟨wrote_nil, rfl, rfl, rfl⟩) hnodup
  intro done shard state next hround hstate hdone
  rw [List.map_append, List.map_singleton] at hdone
  obtain ⟨hbefore, -, hdisjoint⟩ := List.nodup_append.mp hdone
  obtain ⟨hwrote, hlayers, hunits, hlogical⟩ := hstate hbefore
  have hnew : carrierName shard.2 ∉
      (done.flatMap (carrierTables source layers)).map Prod.fst := by
    intro hmem
    obtain ⟨table, htable, hname⟩ := List.mem_map.mp hmem
    obtain ⟨earlier, hearlier, hheld⟩ := List.mem_flatMap.mp htable
    rw [carrierTables_name hheld] at hname
    exact hdisjoint _ (List.mem_map_of_mem hearlier) _ List.mem_cons_self
      (carrierName_injective hname)
  obtain ⟨hwritten, hsame, hsame', hsame''⟩ := emitCarrier_wrote hwrote hnew hround
  rw [List.flatMap_append, List.flatMap_singleton]
  exact ⟨hwritten, hsame.trans hlayers, hsame'.trans hunits,
    hsame''.trans hlogical⟩

/-- The units of the installed layers, in the order of writing. -/
def installedUnits (installed : List Installed) : Dict String UnitRecord :=
  installed.flatMap fun item => item.2.choices.map (choiceUnit item.2.layer)

/-- The layers are written after these files, with their records. -/
structure WroteLayers (format : CheckpointFormat)
    (files : List (String × Table)) (installed : List Installed)
    (emission : Emission) : Prop where
  wrote : Wrote format (files ++ installed.map installedTable) emission
  units : emission.units = Dict.ofItems (installedUnits installed)
  logical : emission.logicalPayloadBytes = (installed.map fun item =>
    (item.2.choices.map (·.logicalPayloadBytes)).sum).sum
  layers : Dict.keys emission.layers =
    installed.map fun item => toString item.2.layer
  allocated : (emission.layers.map (·.2.allocatedPayloadBytes)).sum =
    (installed.map fun item => item.2.allocatedPayloadBytes).sum
  placed : ∀ item ∈ installed, ∃ tensors, Placed format item.1.store
    item.2.layer (layerSlots item.2.choices) tensors

theorem emitLayers_wrote {files : List (String × Table)}
    {installed : List Installed} {emission next : Emission}
    (hwrote : Wrote format files emission)
    (hlayers : emission.layers = []) (hunits : emission.units = [])
    (hlogical : emission.logicalPayloadBytes = 0)
    (hcarriers : ∀ table ∈ files, ∃ index, table.1 = carrierName index)
    (hnodup : (installedLayers installed).Nodup)
    (hrun : installed.foldlM (emitLayer format) emission = .ok next) :
    WroteLayers format files installed next := by
  refine foldlM_run (fun done state => (installedLayers done).Nodup →
    WroteLayers format files done state) ?_ hrun ?_ hnodup
  · intro done item state next hround hstate hdone
    rw [installedLayers, List.map_append, List.map_singleton] at hdone
    obtain ⟨hbefore, -, hdisjoint⟩ := List.nodup_append.mp hdone
    have hprior := hstate hbefore
    have hfresh : ∀ other ∈ done, other.2.layer ≠ item.2.layer :=
      fun other hother => hdisjoint _ (List.mem_map_of_mem hother) _
        List.mem_cons_self
    have hnew : layerFileName item.2.layer ∉
        (files ++ done.map installedTable).map Prod.fst := by
      intro hmem
      rw [List.map_append, List.mem_append] at hmem
      rcases hmem with hcarrier | hlayer
      · obtain ⟨table, htable, hname⟩ := List.mem_map.mp hcarrier
        obtain ⟨index, hindex⟩ := hcarriers table htable
        exact carrierName_ne_layerFileName _ _ (hindex.symm.trans hname)
      · obtain ⟨table, htable, hname⟩ := List.mem_map.mp hlayer
        obtain ⟨other, hother, rfl⟩ := List.mem_map.mp htable
        exact hfresh other hother (layerFileName_injective hname)
    obtain ⟨hwritten, hunits', hlogical', ⟨record, hrecord, hlayers'⟩, hplaced⟩ :=
      emitLayer_wrote hprior.wrote hnew hround
    have hnewLayer : toString item.2.layer ∉ Dict.keys state.layers := by
      rw [hprior.layers]
      intro hmem
      obtain ⟨other, hother, hname⟩ := List.mem_map.mp hmem
      exact hfresh other hother
        (numeral_injective (congrArg String.toList hname))
    constructor
    · rw [List.map_append, List.map_singleton, ← List.append_assoc]
      exact hwritten
    · rw [hunits', hprior.units, Dict.update_ofItems, installedUnits,
        installedUnits, List.flatMap_append, List.flatMap_singleton]
    · rw [hlogical', hprior.logical, List.map_append, List.sum_append,
        List.map_singleton, List.sum_singleton]
    · rw [hlayers', Dict.set_eq_append hnewLayer, Dict.keys, List.map_append,
        ← Dict.keys, hprior.layers, List.map_append]
      rfl
    · rw [hlayers', Dict.set_eq_append hnewLayer, List.map_append,
        List.sum_append, hprior.allocated, List.map_append, List.sum_append,
        List.map_singleton, List.map_singleton, hrecord]
    · intro other hother
      rcases List.mem_append.mp hother with hearlier | hlast
      · exact hprior.placed other hearlier
      · rw [List.mem_singleton.mp hlast]
        exact hplaced
  · intro _
    exact {
      wrote := by rw [List.map_nil, List.append_nil]; exact hwrote
      units := hunits
      logical := hlogical
      layers := by rw [hlayers]; rfl
      allocated := by rw [hlayers]; rfl
      placed := fun _ hmem => absurd hmem List.not_mem_nil }

end GlmFlash.Checkpoint
