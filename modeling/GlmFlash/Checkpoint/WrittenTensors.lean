import GlmFlash.Checkpoint.AssembledFiles

/-!
# Written tensors

Every tensor that is written comes from a shard or from a layer.  The index places a name
where it is written last, and so the inputs tell what each file is to be left with.
-/

namespace GlmFlash.Checkpoint

open GlmFlash.Library

variable {format : CheckpointFormat} {source : SourceCheckpoint}
  {shards : List String} {installed : List Installed} {emission : Emission}
  {directory : Directory} {manifest : CheckpointManifest}

/-! ## Where emitted tensors come from -/

theorem mem_keys_layerTable {store : PayloadStore} {layer : ℕ} {name : String}
    {slots : List Slot} (hmem : name ∈ Dict.keys (layerTable store layer slots)) :
    ∃ slot ∈ slots, slot.key layer = name := by
  induction slots using List.reverseRecOn with
  | nil => cases hmem
  | append_singleton slots slot ih =>
      rw [layerTable, List.foldl_append, ← layerTable, List.foldl_cons,
        List.foldl_nil, Dict.mem_keys_setDefault] at hmem
      rcases hmem with rfl | hold
      · exact ⟨slot, List.mem_append_right _ List.mem_cons_self, rfl⟩
      · obtain ⟨other, hother, hname⟩ := ih hold
        exact ⟨other, List.mem_append_left _ hother, hname⟩

theorem carrierTables_get? {layers : List ℕ} {shard : String × ℕ}
    {table : String × Table} {name : String} {bytes : Bytes}
    (hmem : table ∈ carrierTables source layers shard)
    (hget : table.2.get? name = some bytes) :
    dropped layers name = false ∧ ∃ tensor,
      (source.tensorsOf shard.1).get? name = some tensor ∧
        tensor.data = bytes := by
  rw [carrierTables] at hmem
  split at hmem
  · cases hmem
  · rw [List.mem_singleton.mp hmem, tableOf, Dict.get?_mapValues,
      Option.map_eq_some_iff, keptTensors,
      Dict.get?_filter fun name => !dropped layers name] at hget
    obtain ⟨tensor, htensor, hbytes⟩ := hget
    split at htensor
    · rename_i hkept
      exact ⟨by simpa using hkept, tensor, htensor, hbytes⟩
    · cases htensor

theorem exists_carrierTable {shard name : String} {tensor : Tensor}
    (hshard : shard ∈ shards)
    (hget : (source.tensorsOf shard).get? name = some tensor)
    (hkept : dropped (installedLayers installed) name = false) :
    ∃ table ∈ emittedFiles source shards installed,
      table.2.get? name = some tensor.data := by
  obtain ⟨index, hindex⟩ : ∃ index, (shard, index) ∈ shards.zipIdx 1 := by
    rw [← List.zipIdx_map_fst 1 shards] at hshard
    obtain ⟨item, hitem, rfl⟩ := List.mem_map.mp hshard
    exact ⟨item.2, hitem⟩
  have hheld : (keptTensors (installedLayers installed)
      (source.tensorsOf shard)).get? name = some tensor := by
    rw [keptTensors, Dict.get?_filter fun name =>
      !dropped (installedLayers installed) name, hkept]
    exact hget
  have hne : ¬(keptTensors (installedLayers installed)
      (source.tensorsOf shard)).isEmpty = true := by
    intro hempty
    rw [List.isEmpty_iff.mp hempty] at hheld
    cases hheld
  refine ⟨(carrierName index, tableOf (keptTensors (installedLayers installed)
    (source.tensorsOf shard))), List.mem_append_left _
      (List.mem_flatMap.mpr ⟨(shard, index), hindex, ?_⟩), ?_⟩
  · rw [carrierTables, if_neg hne]
    exact List.mem_cons_self
  · rw [tableOf, Dict.get?_mapValues, hheld]
    rfl

/-! ## Settled files -/

/-- What the file of this name holds after the copying, by name: the bytes, or
how their reading fails. -/
def occupant (source : SourceCheckpoint) (shards : List String)
    (files : List (String × Table)) (name : String) :
    Option (Dict String (Except Failure Bytes)) :=
  match copiedFile source shards name with
  | some (.tensors file) =>
      some (file.tensors.mapValues tensorBytes)
  | some _ => none
  | none => (Dict.get? files name).map (Dict.mapValues .ok)

/-- What is held is just these tensors. -/
def Fills (held : Dict String (Except Failure Bytes))
    (tensors : String → Bytes → Prop) : Prop :=
  (∀ name bytes, tensors name bytes → held.get? name = some (.ok bytes)) ∧
    ∀ name ∈ Dict.keys held, ∃ bytes, tensors name bytes

/-- Tensors of one name agree, and every file is left with the tensors of which
it is the last. -/
structure Settled (source : SourceCheckpoint) (shards : List String)
    (installed : List Installed) : Prop where
  agree : ∀ first ∈ emittedFiles source shards installed,
    ∀ second ∈ emittedFiles source shards installed, ∀ name bytes bytes',
      first.2.get? name = some bytes → second.2.get? name = some bytes' →
        bytes = bytes'
  settled : ∀ table ∈ emittedFiles source shards installed,
    ∃ held, occupant source shards
        (emittedFiles source shards installed) table.1 = some held ∧
      Fills held fun name bytes =>
        owner (emittedFiles source shards installed) name =
          some (table.1, bytes)

theorem replica_iff {file : File} {tensors : String → Bytes → Prop} :
    Replica file tensors ↔ ∃ held, file = .tensors held ∧
      Fills (held.tensors.mapValues tensorBytes) tensors := by
  apply exists_congr
  intro held
  apply and_congr_right
  intro _
  constructor
  · rintro ⟨hheld, hfound⟩
    refine ⟨fun name bytes htensor => ?_, fun name hname => ?_⟩
    · obtain ⟨tensor, hget, hbytes⟩ := hfound name bytes htensor
      rw [Dict.get?_mapValues, hget, Option.map_some, hbytes]
    · rw [Dict.keys_mapValues] at hname
      obtain ⟨tensor, hget⟩ := Dict.mem_keys_iff.mp hname
      obtain ⟨bytes, htensor, -⟩ := hheld name tensor hget
      exact ⟨bytes, htensor⟩
  · rintro ⟨hfound, hheld⟩
    refine ⟨fun name tensor hget => ?_, fun name bytes htensor => ?_⟩
    · have hname : name ∈ Dict.keys (held.tensors.mapValues tensorBytes) := by
        rw [Dict.keys_mapValues]
        exact Dict.mem_keys_iff.mpr ⟨tensor, hget⟩
      obtain ⟨bytes, htensor⟩ := hheld name hname
      have hbytes := hfound name bytes htensor
      rw [Dict.get?_mapValues, hget, Option.map_some, Option.some.injEq] at hbytes
      exact ⟨bytes, htensor, hbytes⟩
    · have hget := hfound name bytes htensor
      rwa [Dict.get?_mapValues, Option.map_eq_some_iff] at hget

/-- The file of a table is left with its last tensors when it keeps no other
one, or when the file that is copied over it holds just these. -/
theorem occupant_fills_iff {files : List (String × Table)}
    {table : String × Table} (hget : Dict.get? files table.1 = some table.2)
    {last : String → Bytes → Prop}
    (hlast : ∀ name bytes, last name bytes → table.2.get? name = some bytes) :
    (∃ held, occupant source shards files table.1 = some held ∧
        Fills held last) ↔
      (copiedFile source shards table.1 = none →
          ∀ name bytes, table.2.get? name = some bytes → last name bytes) ∧
        ∀ file, copiedFile source shards table.1 = some file →
          Replica file last := by
  rw [occupant]
  cases hcopied : copiedFile source shards table.1 with
  | none =>
      rw [hget, Option.map_some]
      constructor
      · rintro ⟨held, ⟨⟩, -, hheld⟩
        refine ⟨fun _ name bytes hname => ?_, by rintro _ ⟨⟩⟩
        obtain ⟨bytes', hfound⟩ := hheld name (by
          rw [Dict.keys_mapValues]
          exact Dict.mem_keys_iff.mpr ⟨bytes, hname⟩)
        rwa [Option.some.inj (hname.symm.trans (hlast name bytes' hfound))]
      · rintro ⟨hall, -⟩
        refine ⟨_, rfl, fun name bytes hname => ?_, fun name hname => ?_⟩
        · rw [Dict.get?_mapValues, hlast name bytes hname]
          rfl
        · rw [Dict.keys_mapValues] at hname
          obtain ⟨bytes, hbytes⟩ := Dict.mem_keys_iff.mp hname
          exact ⟨bytes, hall rfl name bytes hbytes⟩
  | some file =>
      constructor
      · rintro ⟨held, hheld, hfills⟩
        refine ⟨by rintro ⟨⟩, ?_⟩
        rintro _ ⟨⟩
        cases file with
        | tensors found =>
            cases hheld
            exact replica_iff.mpr ⟨found, rfl, hfills⟩
        | raw _ => cases hheld
        | config _ => cases hheld
        | index _ => cases hheld
        | manifest _ => cases hheld
        | sealLine _ => cases hheld
      · rintro ⟨-, hreplica⟩
        obtain ⟨held, rfl, hfills⟩ := replica_iff.mp (hreplica file rfl)
        exact ⟨_, rfl, hfills⟩

namespace Assembly

variable (hassembly : Assembly format source shards installed emission
  directory manifest)
include hassembly

theorem wroteFiles :
    Wrote format (emittedFiles source shards installed) emission :=
  hassembly.wrote.wrote

/-! ## Slots -/

theorem installedTable_get? {item : Installed} {slot : Slot}
    (hitem : item ∈ installed) (hslot : slot ∈ layerSlots item.2.choices) :
    (installedTable item).2.get? (slot.key item.2.layer) =
      some (slot.bytes item.1.store) := by
  obtain ⟨tensors, hplaced⟩ := hassembly.wrote.placed item hitem
  exact (hplaced.slots slot hslot).2

/-- What is written comes from a source tensor that is kept or from a slot. -/
theorem emitted_origin {table : String × Table} {name : String} {bytes : Bytes}
    (hmem : table ∈ emittedFiles source shards installed)
    (hget : table.2.get? name = some bytes) :
    (dropped (installedLayers installed) name = false ∧ ∃ shard ∈ shards,
      ∃ tensor, (source.tensorsOf shard).get? name = some tensor ∧
        tensor.data = bytes) ∨
    ∃ item ∈ installed, ∃ slot ∈ layerSlots item.2.choices,
      slot.key item.2.layer = name ∧ slot.bytes item.1.store = bytes := by
  rcases List.mem_append.mp hmem with hcarrier | hlayer
  · obtain ⟨shard, hshard, htable⟩ := List.mem_flatMap.mp hcarrier
    obtain ⟨hkept, tensor, htensor, hbytes⟩ := carrierTables_get? htable hget
    exact .inl ⟨hkept, shard.1, List.fst_mem_of_mem_zipIdx hshard, tensor,
      htensor, hbytes⟩
  · obtain ⟨item, hitem, rfl⟩ := List.mem_map.mp hlayer
    obtain ⟨slot, hslot, rfl⟩ :=
      mem_keys_layerTable (Dict.mem_keys_iff.mpr ⟨bytes, hget⟩)
    rw [hassembly.installedTable_get? hitem hslot] at hget
    exact .inr ⟨item, hitem, slot, hslot, rfl, Option.some.inj hget⟩

theorem not_dropped_of_emitted {table : String × Table} {name : String}
    {bytes : Bytes} (hmem : table ∈ emittedFiles source shards installed)
    (hget : table.2.get? name = some bytes) :
    dropped (installedLayers installed) name = false := by
  rcases hassembly.emitted_origin hmem hget with
    ⟨hkept, -⟩ | ⟨item, -, slot, -, rfl, -⟩
  · exact hkept
  · rw [dropped, Slot.key, stackedExpert_payloadKey]
    rfl

theorem store_get? {item : Installed} {choice : Choice} (role : Role)
    (hitem : item ∈ installed) (hchoice : choice ∈ item.2.choices) :
    item.1.store.get? (choice.objects.ref role).path =
        some (Slot.bytes (choice, role) item.1.store) ∧
      (Slot.bytes (choice, role) item.1.store).length =
        (choice.objects.ref role).bytes := by
  obtain ⟨raw, hraw⟩ :=
    (hassembly.accepted item hitem).objects choice hchoice role
  obtain ⟨hpath, hstored, hlength, -⟩ := verify_eq_ok hraw
  have hbytes : Slot.bytes (choice, role) item.1.store = raw := by
    rw [Slot.bytes, Slot.ref, hstored, Option.getD_some]
  rw [hpath, hbytes]
  exact ⟨hstored, hlength⟩

/-! ## Tables -/

theorem installedTable_get?_iff {item : Installed} (hitem : item ∈ installed)
    {name : String} {bytes : Bytes} :
    (installedTable item).2.get? name = some bytes ↔ Supplies item name bytes := by
  constructor
  · intro hget
    obtain ⟨slot, hslot, rfl⟩ :=
      mem_keys_layerTable (Dict.mem_keys_iff.mpr ⟨bytes, hget⟩)
    rw [hassembly.installedTable_get? hitem hslot] at hget
    obtain ⟨choice, hchoice, hown⟩ := List.mem_flatMap.mp hslot
    obtain ⟨role, hrole, rfl⟩ := List.mem_map.mp hown
    rw [← Option.some.inj hget]
    exact ⟨choice, hchoice, role, hrole, rfl,
      (hassembly.store_get? role hitem hchoice).1⟩
  · rintro ⟨choice, hchoice, role, hrole, rfl, hstored⟩
    have hslot : (choice, role) ∈ layerSlots item.2.choices :=
      List.mem_flatMap.mpr ⟨choice, hchoice, List.mem_map_of_mem hrole⟩
    have hget := hassembly.installedTable_get? hitem hslot
    rw [(hassembly.store_get? role hitem hchoice).1] at hstored
    exact hget.trans hstored

/-- The key of an object tells its layer. -/
theorem eq_of_supplies {item other : Installed} (hitem : item ∈ installed)
    (hother : other ∈ installed) {name : String} {bytes bytes' : Bytes}
    (hfirst : Supplies item name bytes) (hsecond : Supplies other name bytes') :
    item = other := by
  obtain ⟨choice, -, role, -, rfl, -⟩ := hfirst
  obtain ⟨choice', -, role', -, hname, -⟩ := hsecond
  exact List.inj_on_of_nodup_map hassembly.layers hitem hother
    (payloadKey_layer hname).symm

omit hassembly in
theorem carrierTables_get?_iff {shard : String × ℕ} {table : String × Table}
    (hmem : table ∈ carrierTables source (installedLayers installed) shard)
    {name : String} {bytes : Bytes} :
    table.2.get? name = some bytes ↔
      Carries source installed shard.1 name bytes := by
  constructor
  · exact carrierTables_get? hmem
  · rintro ⟨hkept, tensor, htensor, rfl⟩
    rw [carrierTables] at hmem
    split at hmem
    · cases hmem
    · rw [List.mem_singleton.mp hmem, tableOf, Dict.get?_mapValues, keptTensors,
        Dict.get?_filter fun name => !dropped (installedLayers installed) name,
        hkept]
      exact congrArg (Option.map Tensor.data) htensor

omit hassembly in
theorem carrierTables_ne_nil {shard : String × ℕ} {table : String × Table}
    (hmem : table ∈ carrierTables source (installedLayers installed) shard) :
    ∃ name bytes, table.2.get? name = some bytes := by
  rw [carrierTables] at hmem
  split at hmem
  · cases hmem
  · rename_i hne
    rw [List.mem_singleton.mp hmem]
    cases hkept : keptTensors (installedLayers installed)
        (source.tensorsOf shard.1) with
    | nil =>
        rw [hkept] at hne
        exact absurd rfl hne
    | cons item rest =>
        exact ⟨item.1, item.2.data, if_pos rfl⟩

omit hassembly in
theorem exists_carrierTables {shard : String × ℕ} {name : String} {bytes : Bytes}
    (hcarries : Carries source installed shard.1 name bytes) :
    ∃ table, table ∈ carrierTables source (installedLayers installed) shard := by
  obtain ⟨hkept, tensor, htensor, -⟩ := hcarries
  have hheld : (keptTensors (installedLayers installed)
      (source.tensorsOf shard.1)).get? name = some tensor := by
    rw [keptTensors, Dict.get?_filter fun name =>
      !dropped (installedLayers installed) name, hkept]
    exact htensor
  have hne : ¬(keptTensors (installedLayers installed)
      (source.tensorsOf shard.1)).isEmpty = true := by
    intro hempty
    rw [List.isEmpty_iff.mp hempty] at hheld
    cases hheld
  rw [carrierTables, if_neg hne]
  exact ⟨_, List.mem_cons_self⟩

/-- What is written under a name. -/
theorem written_iff {name : String} {bytes : Bytes} :
    (∃ table ∈ emittedFiles source shards installed,
        table.2.get? name = some bytes) ↔
      (∃ shard ∈ shards, Carries source installed shard name bytes) ∨
        ∃ item ∈ installed, Supplies item name bytes := by
  constructor
  · rintro ⟨table, htable, hget⟩
    rcases List.mem_append.mp htable with hcarrier | hlayer
    · obtain ⟨shard, hshard, hmem⟩ := List.mem_flatMap.mp hcarrier
      exact .inl ⟨shard.1, List.fst_mem_of_mem_zipIdx hshard,
        (carrierTables_get?_iff hmem).mp hget⟩
    · obtain ⟨item, hitem, rfl⟩ := List.mem_map.mp hlayer
      exact .inr ⟨item, hitem, (hassembly.installedTable_get?_iff hitem).mp hget⟩
  · rintro (⟨shard, hshard, hcarries⟩ | ⟨item, hitem, hsupplies⟩)
    · obtain ⟨hkept, tensor, htensor, rfl⟩ := hcarries
      exact exists_carrierTable hshard htensor hkept
    · exact ⟨installedTable item,
        List.mem_append_right _ (List.mem_map_of_mem hitem),
        (hassembly.installedTable_get?_iff hitem).mpr hsupplies⟩

/-! ## Last writers -/

theorem owner_layers {name file : String} {bytes : Bytes} :
    owner (installed.map installedTable) name = some (file, bytes) ↔
      ∃ item ∈ installed, file = layerFileName item.2.layer ∧
        Supplies item name bytes := by
  constructor
  · intro howner
    obtain ⟨table, htable, rfl, hget⟩ := mem_of_owner howner
    obtain ⟨item, hitem, rfl⟩ := List.mem_map.mp htable
    exact ⟨item, hitem, rfl, (hassembly.installedTable_get?_iff hitem).mp hget⟩
  · rintro ⟨item, hitem, rfl, hsupplies⟩
    have hmem : installedTable item ∈ installed.map installedTable :=
      List.mem_map_of_mem hitem
    have hget := (hassembly.installedTable_get?_iff hitem).mpr hsupplies
    refine @owner_eq_some _ _ _ _ _ name (installedTable item) bytes hmem hget ?_
    intro other hother held hget
    obtain ⟨item', hitem', rfl⟩ := List.mem_map.mp hother
    rw [hassembly.eq_of_supplies hitem hitem' hsupplies
      ((hassembly.installedTable_get?_iff hitem').mp hget)]

omit hassembly in
/-- A carrier is written before another one. -/
def Precedes (first second : String × Table) : Prop :=
  ∃ index later, index < later ∧ first.1 = carrierName index ∧
    second.1 = carrierName later

omit hassembly in
theorem precedes_asymm (first second : String × Table)
    (hfirst : Precedes first second) : ¬Precedes second first := by
  rintro ⟨index, later, hlt, hsecond, hname⟩
  obtain ⟨index', later', hlt', hname', hsecond'⟩ := hfirst
  have hlow := carrierName_injective (hsecond.symm.trans hsecond')
  have hhigh := carrierName_injective (hname.symm.trans hname')
  omega

omit hassembly in
theorem precedes_carriers : ((shards.zipIdx 1).flatMap
    (carrierTables source (installedLayers installed))).Pairwise Precedes := by
  have hnumbers : ((shards.zipIdx 1).map Prod.snd).Pairwise (· < ·) := by
    rw [List.zipIdx_map_snd]
    exact List.pairwise_lt_range'
  refine List.pairwise_flatMap.mpr ⟨?_, (List.pairwise_map.mp hnumbers).imp ?_⟩
  · intro shard _
    rw [carrierTables]
    split
    · exact List.Pairwise.nil
    · exact List.pairwise_singleton _ _
  · intro shard later hlt first hfirst second hsecond
    exact ⟨shard.2, later.2, hlt, carrierTables_name hfirst,
      carrierTables_name hsecond⟩

omit hassembly in
theorem owner_carriers {name file : String} {bytes : Bytes} :
    owner ((shards.zipIdx 1).flatMap
        (carrierTables source (installedLayers installed))) name =
          some (file, bytes) ↔
      ∃ shard index, (shard, index) ∈ shards.zipIdx 1 ∧
        file = carrierName index ∧ Carries source installed shard name bytes ∧
          ∀ other later, (other, later) ∈ shards.zipIdx 1 → index < later →
            ∀ held, ¬Carries source installed other name held := by
  rw [owner_eq_some_iff precedes_carriers precedes_asymm]
  constructor
  · rintro ⟨table, htable, rfl, hget, hlast⟩
    obtain ⟨⟨shard, index⟩, hshard, hmem⟩ := List.mem_flatMap.mp htable
    have hfirst : table.1 = carrierName index :=
      @carrierTables_name source _ (shard, index) table hmem
    refine ⟨shard, index, hshard, hfirst,
      (@carrierTables_get?_iff source installed (shard, index) table hmem name
        bytes).mp hget, ?_⟩
    intro other later hother hlt held hcarries
    obtain ⟨second, hsecond⟩ := @exists_carrierTables source installed
      (other, later) name held hcarries
    have hname : second.1 = carrierName later :=
      @carrierTables_name source _ (other, later) second hsecond
    have hnone := hlast second (List.mem_flatMap.mpr ⟨_, hother, hsecond⟩)
      ⟨index, later, hlt, hfirst, hname⟩
    rw [(@carrierTables_get?_iff source installed (other, later) second hsecond
      name held).mpr hcarries] at hnone
    cases hnone
  · rintro ⟨shard, index, hshard, rfl, hcarries, hlast⟩
    obtain ⟨table, hmem⟩ := @exists_carrierTables source installed
      (shard, index) name bytes hcarries
    have hlabel : table.1 = carrierName index :=
      @carrierTables_name source _ (shard, index) table hmem
    refine ⟨table, List.mem_flatMap.mpr ⟨_, hshard, hmem⟩, hlabel,
      (@carrierTables_get?_iff source installed (shard, index) table hmem name
        bytes).mpr hcarries, ?_⟩
    rintro second hsecond ⟨number, later, hlt, hfirst, hname⟩
    obtain ⟨⟨other, later'⟩, hother, hmem'⟩ := List.mem_flatMap.mp hsecond
    have hlabel' : second.1 = carrierName later' :=
      @carrierTables_name source _ (other, later') second hmem'
    have hindex : index = number := carrierName_injective (hlabel.symm.trans hfirst)
    have hlater : later' = later := carrierName_injective (hlabel'.symm.trans hname)
    subst hindex hlater
    refine Option.eq_none_iff_forall_ne_some.mpr fun held hheld => ?_
    exact hlast other later' hother hlt held
      ((@carrierTables_get?_iff source installed (other, later') second hmem' name
        held).mp hheld)

/-- The last writer of a name: its layer, or the last shard that carries it. -/
theorem owner_emittedFiles {name file : String} {bytes : Bytes} :
    owner (emittedFiles source shards installed) name = some (file, bytes) ↔
      (∃ item ∈ installed, file = layerFileName item.2.layer ∧
          Supplies item name bytes) ∨
        ∃ shard index, (shard, index) ∈ shards.zipIdx 1 ∧
          file = carrierName index ∧ Carries source installed shard name bytes ∧
            LastCarried source shards installed index name := by
  rw [emittedFiles, owner_append]
  cases hlayers : owner (installed.map installedTable) name with
  | some found =>
      obtain ⟨label, held⟩ := found
      obtain ⟨item, hitem, rfl, hsupplies⟩ := hassembly.owner_layers.mp hlayers
      rw [Option.some_or, Option.some.injEq, Prod.mk.injEq]
      constructor
      · rintro ⟨rfl, rfl⟩
        exact .inl ⟨item, hitem, rfl, hsupplies⟩
      · rintro (⟨other, hother, rfl, hsupplies'⟩ | ⟨_, _, _, _, _, -, hnone⟩)
        · have hsame := hlayers.symm.trans
            (hassembly.owner_layers.mpr ⟨other, hother, rfl, hsupplies'⟩)
          rwa [Option.some.injEq, Prod.mk.injEq] at hsame
        · exact absurd hsupplies (hnone item hitem _)
  | none =>
      have hnone : ∀ item ∈ installed, ∀ held, ¬Supplies item name held := by
        intro item hitem held hsupplies
        rw [hassembly.owner_layers.mpr ⟨item, hitem, rfl, hsupplies⟩] at hlayers
        cases hlayers
      rw [Option.none_or, owner_carriers]
      constructor
      · rintro ⟨shard, index, hshard, hfile, hcarries, hlast⟩
        exact .inr ⟨shard, index, hshard, hfile, hcarries, hlast, hnone⟩
      · rintro (⟨item, hitem, -, hsupplies⟩ |
          ⟨shard, index, hshard, hfile, hcarries, hlast, -⟩)
        · exact absurd hsupplies (hnone item hitem _)
        · exact ⟨shard, index, hshard, hfile, hcarries, hlast⟩

/-! ## Complete inputs -/

omit hassembly in
theorem eq_of_mem_zipIdx {first second : String} {index : ℕ}
    (hfirst : (first, index) ∈ shards.zipIdx 1)
    (hsecond : (second, index) ∈ shards.zipIdx 1) : first = second :=
  congrArg Prod.fst
    (List.inj_on_of_nodup_map (nodup_zipIdx shards) hfirst hsecond rfl)

theorem owner_carrier {shard : String} {index : ℕ}
    (hshard : (shard, index) ∈ shards.zipIdx 1) {name : String} {bytes : Bytes} :
    owner (emittedFiles source shards installed) name =
        some (carrierName index, bytes) ↔
      Carries source installed shard name bytes ∧
        LastCarried source shards installed index name := by
  rw [hassembly.owner_emittedFiles]
  constructor
  · rintro (⟨item, -, hname, -⟩ | ⟨other, later, hother, hname, hcarries, hlast⟩)
    · exact absurd hname (carrierName_ne_layerFileName _ _)
    · obtain rfl : index = later := carrierName_injective hname
      rw [eq_of_mem_zipIdx hshard hother]
      exact ⟨hcarries, hlast⟩
  · rintro ⟨hcarries, hlast⟩
    exact .inr ⟨shard, index, hshard, rfl, hcarries, hlast⟩

theorem owner_layer {item : Installed} (hitem : item ∈ installed)
    {name : String} {bytes : Bytes} :
    owner (emittedFiles source shards installed) name =
        some (layerFileName item.2.layer, bytes) ↔ Supplies item name bytes := by
  rw [hassembly.owner_emittedFiles]
  constructor
  · rintro (⟨other, hother, hname, hsupplies⟩ | ⟨_, _, -, hname, -⟩)
    · have hlayer : item.2.layer = other.2.layer := layerFileName_injective hname
      rwa [List.inj_on_of_nodup_map hassembly.layers hitem hother hlayer]
    · exact absurd hname.symm (carrierName_ne_layerFileName _ _)
  · intro hsupplies
    exact .inl ⟨item, hitem, rfl, hsupplies⟩

theorem settled_carrier_iff {shard : String} {index : ℕ}
    (hshard : (shard, index) ∈ shards.zipIdx 1) {table : String × Table}
    (hmem : table ∈ carrierTables source (installedLayers installed) (shard, index)) :
    (∃ held, occupant source shards
          (emittedFiles source shards installed) table.1 = some held ∧
        Fills held fun name bytes =>
          owner (emittedFiles source shards installed) name =
            some (table.1, bytes)) ↔
      (copiedFile source shards (carrierName index) = none →
        ∀ name bytes, Carries source installed shard name bytes →
          LastCarried source shards installed index name) ∧
      ∀ file, copiedFile source shards (carrierName index) = some file →
        Replica file fun name bytes =>
          Carries source installed shard name bytes ∧
            LastCarried source shards installed index name := by
  have hlabel : table.1 = carrierName index :=
    @carrierTables_name source _ (shard, index) table hmem
  have hwritten : table ∈ emittedFiles source shards installed :=
    List.mem_append_left _ (List.mem_flatMap.mpr ⟨_, hshard, hmem⟩)
  have hget := Dict.get?_of_mem hassembly.wroteFiles.names hwritten
  have htable : ∀ name bytes, table.2.get? name = some bytes ↔
      Carries source installed shard name bytes := fun name bytes =>
    @carrierTables_get?_iff source installed (shard, index) table hmem name bytes
  rw [occupant_fills_iff hget]
  · simp only [hlabel, hassembly.owner_carrier hshard, htable]
    apply and_congr_left'
    apply imp_congr_right
    intro _
    exact forall₂_congr fun name bytes =>
      ⟨fun hall hcarries => (hall hcarries).2, fun hall hcarries =>
        ⟨hcarries, hall hcarries⟩⟩
  · intro name bytes howner
    rw [hlabel, hassembly.owner_carrier hshard] at howner
    exact (htable name bytes).mpr howner.1

theorem settled_layer_iff {item : Installed} (hitem : item ∈ installed)
    {table : String × Table} (hmem : table = installedTable item) :
    (∃ held, occupant source shards
          (emittedFiles source shards installed) table.1 = some held ∧
        Fills held fun name bytes =>
          owner (emittedFiles source shards installed) name =
            some (table.1, bytes)) ↔
      ∀ file, copiedFile source shards (layerFileName item.2.layer) = some file →
        Replica file (Supplies item) := by
  have hlabel : table.1 = layerFileName item.2.layer := by
    rw [hmem, installedTable]
  have hwritten : table ∈ emittedFiles source shards installed := by
    rw [hmem]
    exact List.mem_append_right _ (List.mem_map_of_mem hitem)
  have hget := Dict.get?_of_mem hassembly.wroteFiles.names hwritten
  have htable : ∀ name bytes, table.2.get? name = some bytes ↔
      Supplies item name bytes := by
    intro name bytes
    rw [hmem, hassembly.installedTable_get?_iff hitem]
  rw [occupant_fills_iff hget]
  · simp only [hlabel, hassembly.owner_layer hitem, htable]
    apply and_iff_right
    intro _ name bytes hsupplies
    exact hsupplies
  · intro name bytes howner
    rw [hlabel, hassembly.owner_layer hitem] at howner
    exact (htable name bytes).mpr howner

/-- The inputs are complete when the stacked tensors are covered and the files
are settled. -/
theorem complete_iff : Complete source shards installed ↔
    (∀ shard ∈ shards, ∀ name tensor,
      (source.tensorsOf shard).get? name = some tensor →
        dropped (installedLayers installed) name = true →
          Replaced installed name tensor) ∧
    Settled source shards installed := by
  constructor
  · intro hcomplete
    refine ⟨hcomplete.covered, ?_, ?_⟩
    · intro first hfirst second hsecond name bytes bytes' hget hget'
      exact hcomplete.agree name bytes bytes'
        (hassembly.written_iff.mp ⟨first, hfirst, hget⟩)
        (hassembly.written_iff.mp ⟨second, hsecond, hget'⟩)
    · intro table htable
      rcases List.mem_append.mp htable with hcarrier | hlayer
      · obtain ⟨⟨shard, index⟩, hshard, hmem⟩ := List.mem_flatMap.mp hcarrier
        refine (hassembly.settled_carrier_iff hshard hmem).mpr
          ⟨hcomplete.once shard index hshard, fun file =>
            hcomplete.carriers shard index file hshard ?_⟩
        obtain ⟨name, bytes, hget⟩ := carrierTables_ne_nil hmem
        exact ⟨name, bytes, (@carrierTables_get?_iff source installed
          (shard, index) table hmem name bytes).mp hget⟩
      · obtain ⟨item, hitem, rfl⟩ := List.mem_map.mp hlayer
        exact (hassembly.settled_layer_iff hitem rfl).mpr
          (hcomplete.layers item hitem)
  · rintro ⟨hcovered, hagree, hsettled⟩
    have hcarrier : ∀ shard index name bytes, (shard, index) ∈ shards.zipIdx 1 →
        Carries source installed shard name bytes → ∃ table ∈ carrierTables source
          (installedLayers installed) (shard, index),
            table ∈ emittedFiles source shards installed := by
      intro shard index name bytes hshard hcarries
      obtain ⟨table, hmem⟩ := @exists_carrierTables source installed
        (shard, index) name bytes hcarries
      exact ⟨table, hmem,
        List.mem_append_left _ (List.mem_flatMap.mpr ⟨_, hshard, hmem⟩)⟩
    refine ⟨hcovered, ?_, ?_, ?_, ?_⟩
    · intro name bytes bytes' hfirst hsecond
      obtain ⟨first, hmem, hget⟩ := hassembly.written_iff.mpr hfirst
      obtain ⟨second, hmem', hget'⟩ := hassembly.written_iff.mpr hsecond
      exact hagree first hmem second hmem' name bytes bytes' hget hget'
    · intro shard index hshard hnone name bytes hcarries
      obtain ⟨table, hmem, hwritten⟩ := hcarrier shard index name bytes hshard hcarries
      exact ((hassembly.settled_carrier_iff hshard hmem).mp
        (hsettled table hwritten)).1 hnone name bytes hcarries
    · rintro shard index file hshard ⟨name, bytes, hcarries⟩ hcopied
      obtain ⟨table, hmem, hwritten⟩ := hcarrier shard index name bytes hshard hcarries
      exact ((hassembly.settled_carrier_iff hshard hmem).mp
        (hsettled table hwritten)).2 file hcopied
    · intro item hitem
      exact (hassembly.settled_layer_iff hitem rfl).mp
        (hsettled _ (List.mem_append_right _ (List.mem_map_of_mem hitem)))

end Assembly

end GlmFlash.Checkpoint
