import GlmFlash.Checkpoint.EmissionRuns

/-!
# The assembled directory

Copied files may take the place of emitted ones; the index, the configurations
and the manifest are written last.  The file part of the audit then finds
nothing.
-/

namespace GlmFlash.Checkpoint

open GlmFlash.Library

variable {format : CheckpointFormat} {source : SourceCheckpoint}
  {shards : List String}

/-! ## Sorted dictionaries -/

section

variable {V : Type}

theorem sortKeys_perm (dict : Dict String V) : (sortKeys dict).Perm dict :=
  List.perm_insertionSort _ dict

theorem nodup_keys_sortKeys {dict : Dict String V}
    (hnodup : (Dict.keys dict).Nodup) : (Dict.keys (sortKeys dict)).Nodup :=
  ((sortKeys_perm dict).map Prod.fst).nodup_iff.mpr hnodup

theorem get?_sortKeys {dict : Dict String V}
    (hnodup : (Dict.keys dict).Nodup) (key : String) :
    (sortKeys dict).get? key = dict.get? key :=
  Dict.get?_perm (sortKeys_perm dict) (nodup_keys_sortKeys hnodup)

theorem sortKeys_sortKeys (dict : Dict String V) :
    sortKeys (sortKeys dict) = sortKeys dict := by
  have htotal : Std.Total fun left right : String × V => left.1 ≤ right.1 :=
    ⟨fun left right => le_total left.1 right.1⟩
  have htrans : IsTrans (String × V) fun left right => left.1 ≤ right.1 :=
    ⟨fun _ _ _ => le_trans⟩
  exact (List.pairwise_insertionSort _ dict).insertionSort_eq

end

theorem CheckpointBody.sortKeys_sortKeys (body : CheckpointBody) :
    body.sortKeys.sortKeys = body.sortKeys := by
  simp only [CheckpointBody.sortKeys, Checkpoint.sortKeys_sortKeys]

/-! ## Copied files -/

theorem mem_toList_joined (directory name : String) :
    '/' ∈ (directory ++ "/" ++ name).toList := by
  rw [String.toList_append, String.toList_append]
  exact List.mem_append_left _ (List.mem_append_right _ (by decide))

/-- Copying touches a plain name only where a file of this name is copied. -/
theorem copyAssets_get? {entries : Dict String Entry} {name : String}
    {before final : Directory} (hnodup : (Dict.keys entries).Nodup)
    (hname : '/' ∉ name.toList)
    (hrun : entries.foldlM copyAsset before = .ok final) :
    final.get? name = (entryFile entries name).or (before.get? name) := by
  induction entries generalizing before with
  | nil =>
      rw [List.foldlM_nil, pure_eq_ok] at hrun
      rw [← hrun]
      rfl
  | cons entry entries ih =>
      rw [List.foldlM_cons, bind_eq_ok] at hrun
      obtain ⟨middle, hfirst, hrest⟩ := hrun
      obtain ⟨hnotin, hnodup'⟩ := List.nodup_cons.mp hnodup
      have hfinal := ih hnodup' hrest
      have hothers : entry.1 = name → entryFile entries name = none := by
        intro heq
        have hnone : Dict.get? entries name = none :=
          Dict.get?_eq_none_iff.mpr (heq ▸ hnotin)
        rw [entryFile, hnone]
      have hskip : entry.1 ≠ name →
          entryFile (entry :: entries) name = entryFile entries name := by
        intro hne
        rw [entryFile, entryFile, Dict.get?, if_neg hne]
      obtain ⟨own, kind⟩ := entry
      cases kind with
      | file file =>
          have hmiddle : before.set own file = middle := Except.ok.inj hfirst
          rw [hfinal, ← hmiddle]
          by_cases heq : own = name
          · subst heq
            rw [hothers rfl, Option.none_or, Dict.get?_set_self, entryFile,
              Dict.get?, if_pos rfl]
            rfl
          · rw [hskip heq, Dict.get?_set_of_ne (Ne.symm heq)]
      | directory files =>
          have hmiddle : middle.get? name = before.get? name := by
            simp only [copyAsset] at hfirst
            split at hfirst
            · cases hfirst
            · rw [← Except.ok.inj hfirst, Dict.get?_update_of_not_mem]
              intro hmem
              obtain ⟨joined, hjoined, hname'⟩ := List.mem_map.mp hmem
              obtain ⟨item, -, rfl⟩ := List.mem_map.mp hjoined
              rw [← hname'] at hname
              exact hname (mem_toList_joined _ _)
          rw [hfinal, hmiddle]
          by_cases heq : own = name
          · subst heq
            rw [hothers rfl, entryFile, Dict.get?, if_pos rfl]
          · rw [hskip heq]

theorem copyAssets_nodup {entries : Dict String Entry}
    {before final : Directory} (hnodup : (Dict.keys before).Nodup)
    (hrun : entries.foldlM copyAsset before = .ok final) :
    (Dict.keys final).Nodup := by
  refine @foldlM_invariant _ _ _ copyAsset
    (fun directory => (Dict.keys directory).Nodup) entries ?_ _ _ hrun hnodup
  intro entry _ state next hround hstate
  obtain ⟨own, kind⟩ := entry
  cases kind with
  | file file =>
      rw [← (Except.ok.inj hround : state.set own file = next)]
      exact Dict.nodup_keys_set hstate
  | directory files =>
      simp only [copyAsset] at hround
      split at hround
      · cases hround
      · rw [← Except.ok.inj hround]
        exact Dict.nodup_keys_update hstate

theorem entryFile_assets (name : String) :
    entryFile (assets source shards) name = copiedFile source shards name := by
  have hnodup : (Dict.keys (source.entries.filter fun entry =>
      decide (entry.1 ∉ shards ++ generatedNames))).Nodup :=
    source.nodup.sublist (List.filter_sublist.map Prod.fst)
  have hget : (assets source shards).get? name =
      if name ∉ shards ++ generatedNames then source.entries.get? name
      else none := by
    rw [assets, get?_sortKeys hnodup,
      Dict.get?_filter fun name => decide (name ∉ shards ++ generatedNames)]
    simp only [decide_eq_true_eq]
  rw [copiedFile]
  by_cases hname : name ∈ shards ++ generatedNames
  · rw [if_neg (not_not.mpr hname)] at hget
    rw [if_pos hname, entryFile, hget]
  · rw [if_pos hname] at hget
    rw [if_neg hname, entryFile, entryFile, hget]

theorem nodup_assets : (Dict.keys (assets source shards)).Nodup :=
  nodup_keys_sortKeys
    (source.nodup.sublist (List.filter_sublist.map Prod.fst))

/-! ## Emitted names -/

/-- The names of the files that the two loops write. -/
def IsEmittedName (name : String) : Prop :=
  (∃ index, name = carrierName index) ∨ ∃ layer, name = layerFileName layer

theorem isEmittedName_of_mem {installed : List Installed}
    {table : String × Table}
    (hmem : table ∈ emittedFiles source shards installed) :
    IsEmittedName table.1 := by
  rcases List.mem_append.mp hmem with hcarrier | hlayer
  · obtain ⟨shard, -, hshard⟩ := List.mem_flatMap.mp hcarrier
    exact .inl ⟨shard.2, carrierTables_name hshard⟩
  · obtain ⟨item, -, rfl⟩ := List.mem_map.mp hlayer
    exact .inr ⟨item.2.layer, rfl⟩

theorem IsEmittedName.slash {name : String} (hname : IsEmittedName name) :
    '/' ∉ name.toList := by
  rcases hname with ⟨index, rfl⟩ | ⟨layer, rfl⟩
  · exact slash_not_mem_carrierName index
  · exact slash_not_mem_layerFileName layer

theorem IsEmittedName.not_generated {name : String}
    (hname : IsEmittedName name) : name ∉ generatedNames := by
  intro hmem
  rcases hname with ⟨index, rfl⟩ | ⟨layer, rfl⟩
  · have hstem : ∀ other ∈ generatedNames,
        other.toList.take 8 ≠ "carrier-".toList := by decide
    exact hstem _ hmem (carrierName_take index)
  · have hstem : ∀ other ∈ generatedNames,
        other.toList.take 18 ≠ "btx-experts-layer-".toList := by decide
    exact hstem _ hmem (layerFileName_take layer)

/-! ## The whole assembly -/

/-- A run of the assembly: the layers it verified, the state of its loops and
the copied directory. -/
structure Assembly (format : CheckpointFormat) (source : SourceCheckpoint)
    (shards : List String) (installed : List Installed) (emission : Emission)
    (directory : Directory) (manifest : CheckpointManifest) : Prop where
  accepted : ∀ item ∈ installed,
    AcceptedLayer format.toLayerHashing item.1 item.2
  layers : (installedLayers installed).Nodup
  wrote : WroteLayers format ((shards.zipIdx 1).flatMap
    (carrierTables source (installedLayers installed))) installed emission
  written : ∃ copied fields,
    (assets source shards).foldlM copyAsset emission.directory = .ok copied ∧
    manifest.files = (writeIndex format fields manifest.formatVersion
      emission.weightMap copied).mapValues (fileRow format) ∧
    directory = writeManifest format manifest (writeIndex format fields
      manifest.formatVersion emission.weightMap copied)
  sealed : manifest = sealBody format manifest.toCheckpointBody
  schema : manifest.schema = internalCheckpointSchema
  manifestLayers : manifest.layers = emission.layers
  units : manifest.units = emission.units
  logical : manifest.logicalPayloadBytes = emission.logicalPayloadBytes
  allocated : manifest.allocatedPayloadBytes =
    (installed.map fun item => item.2.allocatedPayloadBytes).sum
  hashes : manifest.tensorPayloadSha256 = sortKeys emission.tensorHashes

theorem verifyInstalledLayers_eq_ok {roots : List InstalledRoot}
    {installed : List Installed}
    (hrun : verifyInstalledLayers format roots = .ok installed) :
    ∀ item ∈ installed, AcceptedLayer format.toLayerHashing item.1 item.2 := by
  intro item hmem
  obtain ⟨root, -, hroot⟩ := mem_mapM_ok hrun hmem
  simp only [bind_eq_ok, pure_eq_ok] at hroot
  obtain ⟨manifest, hverify, rfl⟩ := hroot
  exact verifyInstalledLayer_eq_ok hverify

theorem nodup_zipIdx (shards : List String) :
    ((shards.zipIdx 1).map Prod.snd).Nodup := by
  rw [List.zipIdx_map_snd]
  exact List.nodup_range'

theorem emit_eq_ok {roots : List InstalledRoot} {destination : Directory}
    {formatVersion : String} {expected : Option ℤ} {directory : Directory}
    {manifest : CheckpointManifest} {weightMap : Dict String String}
    {installed : List Installed}
    (hrun : emitInternalQwenCheckpoint format source roots destination
      formatVersion expected = .ok (directory, manifest))
    (hinstalled : verifyInstalledLayers format roots = .ok installed)
    (hshards : sourceIndex source = .ok (weightMap, shards)) :
    ∃ emission, Assembly format source shards installed emission directory
      manifest := by
  simp only [emitInternalQwenCheckpoint, bind_eq_ok, require_eq_ok, hinstalled,
    Except.ok.injEq, hshards, exists_eq_left'] at hrun
  obtain ⟨-, hlayers, -, -, -, -, -, -, carriers, hcarriers, emission,
    hemission, copied, hcopied, hrun⟩ := hrun
  have hnodup : (installedLayers installed).Nodup := by
    rw [installedLayers, hlayers]
    exact (List.perm_insertionSort _ _).nodup_iff.mpr (List.nodup_dedup _)
  obtain ⟨hwrote, hnone, hnone', hnone''⟩ :=
    emitCarriers_wrote (nodup_zipIdx shards) hcarriers
  have hwritten := emitLayers_wrote hwrote hnone hnone' hnone''
    (fun table hmem => by
      obtain ⟨shard, -, hshard⟩ := List.mem_flatMap.mp hmem
      exact ⟨shard.2, carrierTables_name hshard⟩) hnodup hemission
  cases hconfig : source.read "config.json" with
  | none => simp [hconfig] at hrun
  | some file =>
      cases file with
      | config fields =>
          simp only [hconfig, pure_eq_ok, Prod.mk.injEq] at hrun
          obtain ⟨rfl, rfl⟩ := hrun
          exact ⟨emission, {
            accepted := verifyInstalledLayers_eq_ok hinstalled
            layers := hnodup
            wrote := hwritten
            written := ⟨copied, fields, hcopied, rfl, rfl⟩
            sealed := rfl
            schema := rfl
            manifestLayers := rfl
            units := rfl
            logical := rfl
            allocated := rfl
            hashes := rfl }⟩
      | raw _ => simp [hconfig] at hrun
      | tensors _ => simp [hconfig] at hrun
      | index _ => simp [hconfig] at hrun
      | manifest _ => simp [hconfig] at hrun
      | sealLine _ => simp [hconfig] at hrun

/-! ## The final directory -/

theorem writeIndex_get? {fields : Dict String ConfigValue}
    {formatVersion name : String} {weightMap : Dict String String}
    {directory : Directory}
    (hname : name ∉ ["config.json", "quantization_config.json", indexName]) :
    (writeIndex format fields formatVersion weightMap directory).get? name =
      directory.get? name := by
  simp only [List.mem_cons, List.not_mem_nil, or_false, not_or] at hname
  rw [writeIndex, Dict.get?_set_of_ne hname.2.2, Dict.get?_set_of_ne hname.2.1,
    Dict.get?_set_of_ne hname.1]

theorem writeIndex_nodup {fields : Dict String ConfigValue}
    {formatVersion : String} {weightMap : Dict String String}
    {directory : Directory} (hnodup : (Dict.keys directory).Nodup) :
    (Dict.keys (writeIndex format fields formatVersion weightMap
      directory)).Nodup :=
  Dict.nodup_keys_set (Dict.nodup_keys_set (Dict.nodup_keys_set hnodup))

namespace Assembly

variable {installed : List Installed} {emission : Emission}
  {directory : Directory} {manifest : CheckpointManifest}

/-- The manifest as it is read back. -/
def stored (manifest : CheckpointManifest) : CheckpointManifest :=
  { manifest with toCheckpointBody := manifest.toCheckpointBody.sortKeys }

/-- Before the manifest is written. -/
theorem copied_get? {copied : Directory} {name : String}
    (hcopied : (assets source shards).foldlM copyAsset emission.directory =
      .ok copied) (hslash : '/' ∉ name.toList) :
    copied.get? name =
      (copiedFile source shards name).or (emission.directory.get? name) := by
  rw [copyAssets_get? nodup_assets hslash hcopied, entryFile_assets]

variable (hassembly : Assembly format source shards installed emission
  directory manifest)
include hassembly

theorem emission_name {name : String}
    (hname : name ∈ Dict.keys emission.directory) : IsEmittedName name := by
  obtain ⟨table, htable, rfl⟩ :=
    List.mem_map.mp (hassembly.wrote.wrote.only name hname)
  exact isEmittedName_of_mem htable

theorem get?_emitted {name : String} (hname : IsEmittedName name) :
    directory.get? name =
      (copiedFile source shards name).or (emission.directory.get? name) := by
  obtain ⟨copied, fields, hcopied, -, rfl⟩ := hassembly.written
  have hgenerated := hname.not_generated
  simp only [generatedNames, List.mem_cons, List.not_mem_nil, or_false,
    not_or] at hgenerated
  obtain ⟨hindex, hconfig, hquantization, hmanifest, hseal⟩ := hgenerated
  rw [writeManifest, Dict.get?_set_of_ne hseal, Dict.get?_set_of_ne hmanifest,
    writeIndex_get? (by simp [hindex, hconfig, hquantization]),
    copied_get? hcopied hname.slash]

theorem readIndex_eq : ∃ index, readIndex directory = .ok index ∧
    index.weightMap = sortKeys emission.weightMap := by
  obtain ⟨copied, fields, -, -, rfl⟩ := hassembly.written
  rw [readIndex, writeManifest, Dict.get?_set_of_ne (by decide),
    Dict.get?_set_of_ne (by decide), writeIndex, Dict.get?_set_self]
  exact ⟨_, rfl, rfl⟩

theorem readManifest_eq : readManifest directory = .ok (stored manifest) := by
  obtain ⟨copied, fields, -, -, rfl⟩ := hassembly.written
  rw [readManifest, writeManifest, Dict.get?_set_of_ne (by decide),
    Dict.get?_set_self]
  rfl

theorem readSealLine_eq : readSealLine directory =
    .ok (fileRow format (.manifest (stored manifest))).sha256 := by
  obtain ⟨copied, fields, -, -, rfl⟩ := hassembly.written
  rw [readSealLine, writeManifest, Dict.get?_set_self]
  rfl

/-- No manifest is there before it is written. -/
theorem not_mem_manifest {copied : Directory}
    {fields : Dict String ConfigValue} {formatVersion name : String}
    (hcopied : (assets source shards).foldlM copyAsset emission.directory =
      .ok copied)
    (hname : name ∈ ["BTX_MANIFEST.json", "BTX_MANIFEST.sha256"]) :
    name ∉ Dict.keys (writeIndex format fields formatVersion
      emission.weightMap copied) := by
  have hplain : ∀ name ∈ ["BTX_MANIFEST.json", "BTX_MANIFEST.sha256"],
      '/' ∉ name.toList ∧ name ∈ generatedNames ∧
        name ∉ ["config.json", "quantization_config.json", indexName] := by
    decide
  obtain ⟨hslash, hgenerated, hconfig⟩ := hplain name hname
  have hcopiedFile : copiedFile source shards name = none :=
    if_pos (List.mem_append_right _ hgenerated)
  rw [← Dict.get?_eq_none_iff, writeIndex_get? hconfig,
    copied_get? hcopied hslash, hcopiedFile, Option.none_or,
    Dict.get?_eq_none_iff]
  exact fun hmem => (hassembly.emission_name hmem).not_generated hgenerated

/-- The seals, the file set and the file rows are in order. -/
theorem auditFiles_eq_nil : auditFiles format directory (stored manifest)
    (.manifest (stored manifest))
    (fileRow format (.manifest (stored manifest))).sha256 = [] := by
  obtain ⟨copied, fields, hcopied, hfiles, hdirectory⟩ := hassembly.written
  have hnodup : (Dict.keys (writeIndex format fields manifest.formatVersion
      emission.weightMap copied)).Nodup :=
    writeIndex_nodup
      (copyAssets_nodup hassembly.wrote.wrote.directoryNodup hcopied)
  have hnew : ∀ name ∈ ["BTX_MANIFEST.json", "BTX_MANIFEST.sha256"],
      name ∉ Dict.keys (writeIndex format fields manifest.formatVersion
        emission.weightMap copied) :=
    fun name hname => hassembly.not_mem_manifest hcopied hname
  generalize writeIndex format fields manifest.formatVersion
    emission.weightMap copied = before at hfiles hdirectory hnodup hnew
  have hkeys : ∀ name, name ∈ Dict.keys (stored manifest).files ↔
      name ∈ Dict.keys before := by
    intro name
    have hperm := (sortKeys_perm manifest.files).map Prod.fst
    rw [stored, CheckpointBody.sortKeys, Dict.keys, hperm.mem_iff, ← Dict.keys,
      hfiles, Dict.keys_mapValues]
  have hseal : format.sha256 (format.checkpointJson
      (stored manifest).toCheckpointBody.sortKeys) =
        (stored manifest).manifestSha256 := by
    rw [stored, CheckpointBody.sortKeys_sortKeys]
    exact (congrArg CheckpointManifest.manifestSha256 hassembly.sealed).symm
  simp only [auditFiles, List.append_eq_nil_iff, List.flatMap_eq_nil_iff,
    findingIf_eq_nil, not_not]
  refine ⟨⟨⟨⟨hassembly.schema, hseal⟩, trivial⟩, ?_, ?_⟩, ?_⟩
  · intro name hname
    rw [hdirectory, writeManifest, Dict.mem_keys_set, Dict.mem_keys_set]
    rcases List.mem_append.mp hname with hfile | hlast
    · exact .inr (.inr ((hkeys name).mp hfile))
    · simp only [List.mem_cons, List.not_mem_nil, or_false] at hlast
      exact hlast.symm.imp_right .inl
  · intro name hname
    rw [hdirectory, writeManifest, Dict.mem_keys_set, Dict.mem_keys_set] at hname
    rcases hname with rfl | rfl | hold
    · exact List.mem_append_right _ (by simp)
    · exact List.mem_append_right _ (by simp)
    · exact List.mem_append_left _ ((hkeys name).mpr hold)
  · intro item hitem
    have hmem : item ∈ manifest.files := (sortKeys_perm _).mem_iff.mp hitem
    rw [hfiles] at hmem
    obtain ⟨⟨name, file⟩, hfile, rfl⟩ := List.mem_map.mp hmem
    have hold : name ∈ Dict.keys before :=
      List.mem_map.mpr ⟨(name, file), hfile, rfl⟩
    have hmanifest : name ≠ "BTX_MANIFEST.json" := fun heq =>
      hnew name (by simp [heq]) hold
    have hsealLine : name ≠ "BTX_MANIFEST.sha256" := fun heq =>
      hnew name (by simp [heq]) hold
    rw [hdirectory, writeManifest, Dict.get?_set_of_ne hsealLine,
      Dict.get?_set_of_ne hmanifest, Dict.get?_of_mem hnodup hfile]
    rfl

end Assembly

end GlmFlash.Checkpoint
