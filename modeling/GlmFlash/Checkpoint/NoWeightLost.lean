import GlmFlash.Checkpoint.AuditRuns
import GlmFlash.Checkpoint.WrittenTensors

/-!
# No weight is lost, exactly when

The assembled checkpoint holds every weight, and its audit finds nothing, if
and only if the stacked tensors that were dropped are covered by choices and
every emitted file is left with the tensors that the index places in it.
-/

namespace GlmFlash.Checkpoint

open GlmFlash.Library

variable {format : CheckpointFormat} {source : SourceCheckpoint}
  {shards : List String} {installed : List Installed} {emission : Emission}
  {directory : Directory} {manifest : CheckpointManifest}

/-- What a file of the directory holds, by name. -/
def contentsAt (directory : Directory) (file : String) :
    Option (Dict String (Except Failure Bytes)) :=
  match openTensors directory file with
  | .ok held => some (held.tensors.mapValues tensorBytes)
  | .error _ => none

theorem contentsAt_eq_some {file : String}
    {contents : Dict String (Except Failure Bytes)} :
    contentsAt directory file = some contents ↔
      ∃ held, openTensors directory file = .ok held ∧
        held.tensors.mapValues tensorBytes = contents := by
  rw [contentsAt]
  cases openTensors directory file with
  | ok held => simp
  | error failure => simp

theorem mem_sortedSet {names : List String} {name : String} :
    name ∈ sortedSet names ↔ name ∈ names := by
  rw [sortedSet, List.mem_insertionSort, List.mem_dedup]

theorem nodup_sortedSet {names : List String} : (sortedSet names).Nodup :=
  (List.perm_insertionSort _ _).nodup_iff.mpr (List.nodup_dedup names)

namespace Assembly

variable (hassembly : Assembly format source shards installed emission
  directory manifest)
include hassembly

/-! ## Files -/

theorem contentsAt_eq {table : String × Table}
    (hmem : table ∈ emittedFiles source shards installed) :
    contentsAt directory table.1 = occupant source shards
      (emittedFiles source shards installed) table.1 := by
  have hget := hassembly.get?_emitted (isEmittedName_of_mem hmem)
  rw [contentsAt, openTensors, occupant]
  cases hcopied : copiedFile source shards table.1 with
  | some file =>
      rw [hcopied, Option.some_or] at hget
      rw [hget]
      cases file <;> rfl
  | none =>
      obtain ⟨saved, hsaved, hstores⟩ := hassembly.wroteFiles.saved table hmem
      rw [hcopied, Option.none_or, hsaved] at hget
      have htable : Dict.get? (emittedFiles source shards installed) table.1 =
          some table.2 := Dict.get?_of_mem hassembly.wroteFiles.names hmem
      rw [hget, htable]
      exact congrArg some hstores

/-- The index places a name in the last file that is written with it. -/
theorem index_get? {index : Index} (hindex : readIndex directory = .ok index)
    (name : String) : index.weightMap.get? name =
      (owner (emittedFiles source shards installed) name).map Prod.fst := by
  obtain ⟨found, hfound, hmap⟩ := hassembly.readIndex_eq
  cases Except.ok.inj (hindex.symm.trans hfound)
  rw [hmap, get?_sortKeys hassembly.wroteFiles.indexNodup,
    hassembly.wroteFiles.index name]

theorem index_nodup {index : Index} (hindex : readIndex directory = .ok index) :
    (Dict.keys index.weightMap).Nodup := by
  obtain ⟨found, hfound, hmap⟩ := hassembly.readIndex_eq
  cases Except.ok.inj (hindex.symm.trans hfound)
  rw [hmap]
  exact nodup_keys_sortKeys hassembly.wroteFiles.indexNodup

theorem present_iff {name : String} {bytes : Bytes} :
    Present directory name bytes ↔ ∃ file held contents,
      owner (emittedFiles source shards installed) name = some (file, held) ∧
        contentsAt directory file = some contents ∧
        contents.get? name = some (.ok bytes) := by
  constructor
  · rintro ⟨index, file, held, tensor, hindex, hfile, hopen, hget, hbytes⟩
    rw [hassembly.index_get? hindex, Option.map_eq_some_iff] at hfile
    obtain ⟨⟨label, value⟩, howner, rfl⟩ := hfile
    refine ⟨label, value, _, howner,
      contentsAt_eq_some.mpr ⟨held, hopen, rfl⟩, ?_⟩
    rw [Dict.get?_mapValues, hget, Option.map_some, hbytes]
  · rintro ⟨file, value, contents, howner, hcontents, hget⟩
    obtain ⟨index, hindex, -⟩ := hassembly.readIndex_eq
    obtain ⟨held, hopen, rfl⟩ := contentsAt_eq_some.mp hcontents
    rw [Dict.get?_mapValues, Option.map_eq_some_iff] at hget
    obtain ⟨tensor, htensor, hbytes⟩ := hget
    refine ⟨index, file, held, tensor, hindex, ?_, hopen, htensor, hbytes⟩
    rw [hassembly.index_get? hindex, howner]
    rfl

theorem present_unique {name : String} {bytes bytes' : Bytes}
    (hfirst : Present directory name bytes)
    (hsecond : Present directory name bytes') : bytes = bytes' := by
  obtain ⟨file, held, contents, howner, hcontents, hget⟩ :=
    hassembly.present_iff.mp hfirst
  obtain ⟨file', held', contents', howner', hcontents', hget'⟩ :=
    hassembly.present_iff.mp hsecond
  cases howner.symm.trans howner'
  cases hcontents.symm.trans hcontents'
  exact Except.ok.inj (Option.some.inj (hget.symm.trans hget'))

/-! ## Units -/

theorem nodup_installedUnits :
    (Dict.keys (installedUnits installed)).Nodup := by
  rw [Dict.keys, installedUnits, List.map_flatMap]
  refine List.nodup_flatMap.mpr ⟨?_, ?_⟩
  · intro item hitem
    have hkeys := (hassembly.accepted item hitem).nodup
    rw [List.map_map]
    refine (List.pairwise_map.mp hkeys).map _ ?_
    intro first second hne heq
    obtain ⟨-, hexpert, hprojection⟩ := unitName_inj heq
    exact hne (Prod.ext hexpert hprojection)
  · refine (List.pairwise_map.mp hassembly.layers).imp ?_
    intro first second hne name hfirst hsecond
    simp only [List.map_map, List.mem_map] at hfirst hsecond
    obtain ⟨choice, -, rfl⟩ := hfirst
    obtain ⟨other, -, hname⟩ := hsecond
    exact hne (unitName_inj hname).1.symm

theorem units_eq : manifest.units = installedUnits installed := by
  rw [hassembly.units, hassembly.wrote.units,
    Dict.ofItems_eq hassembly.nodup_installedUnits]

theorem units_get? {item : Installed} {choice : Choice}
    (hitem : item ∈ installed) (hchoice : choice ∈ item.2.choices) :
    manifest.units.get?
        (unitName item.2.layer choice.expert choice.projection) =
      some (unitRecord item.2.layer choice
        (choiceKeys item.2.layer choice)) := by
  rw [hassembly.units_eq]
  exact Dict.get?_of_mem hassembly.nodup_installedUnits
    (List.mem_flatMap.mpr ⟨item, hitem, List.mem_map_of_mem hchoice⟩)

omit hassembly in
theorem choiceKeys_get? (layer : ℕ) (choice : Choice) {role : Role}
    (hrole : role ∈ payloadRoles) :
    (choiceKeys layer choice).get? role =
      some (Slot.key (choice, role) layer) := by
  cases role <;> first | rfl | exact absurd hrole (by decide)

/-! ## What the promise requires -/

omit hassembly in
theorem not_replaced_of_kept {name : String} {tensor : Tensor}
    (hkept : dropped (installedLayers installed) name = false) :
    ¬Replaced installed name tensor := by
  rintro ⟨layer, family, hname, item, hitem, rfl, -⟩
  rw [dropped, hname] at hkept
  have hmem : item.2.layer ∈ installedLayers installed :=
    List.mem_map_of_mem hitem
  simp [hmem] at hkept

theorem present_of_emitted
    (hlost : NoWeightLost format source shards installed directory manifest)
    {table : String × Table} {name : String} {bytes : Bytes}
    (hmem : table ∈ emittedFiles source shards installed)
    (hget : table.2.get? name = some bytes) : Present directory name bytes := by
  rcases hassembly.emitted_origin hmem hget with
    ⟨hkept, shard, hshard, tensor, htensor, rfl⟩ |
      ⟨item, hitem, slot, hslot, rfl, rfl⟩
  · exact (hlost.carried shard hshard name tensor htensor).resolve_right
      (not_replaced_of_kept hkept)
  · obtain ⟨choice, hchoice, hown⟩ := List.mem_flatMap.mp hslot
    obtain ⟨role, hrole, rfl⟩ := List.mem_map.mp hown
    obtain ⟨unit, hunit, hkeys⟩ := hlost.choices item hitem choice hchoice
    cases (hassembly.units_get? hitem hchoice).symm.trans hunit
    obtain ⟨key, raw, hkey, hraw, hpresent⟩ := hkeys role hrole
    cases (choiceKeys_get? item.2.layer choice hrole).symm.trans hkey
    cases (hassembly.store_get? role hitem hchoice).1.symm.trans hraw
    exact hpresent

theorem fills_of_noWeightLost
    (hlost : NoWeightLost format source shards installed directory manifest)
    {table : String × Table}
    (hmem : table ∈ emittedFiles source shards installed) :
    ∃ held, occupant source shards
        (emittedFiles source shards installed) table.1 = some held ∧
      Fills held fun name bytes =>
        owner (emittedFiles source shards installed) name =
          some (table.1, bytes) := by
  obtain ⟨index, hindex, hbijection⟩ := hlost.index
  obtain ⟨held, hopen, hnames⟩ :=
    hbijection table.1 (.inr (List.mem_map_of_mem hmem))
  have hcontents := contentsAt_eq_some.mpr ⟨held, hopen, rfl⟩
  refine ⟨_, (hassembly.contentsAt_eq hmem).symm.trans hcontents, ?_, ?_⟩
  · intro name bytes howner
    obtain ⟨other, hother, -, hget⟩ := mem_of_owner howner
    obtain ⟨file, value, contents, howner', hcontents', hheld⟩ :=
      hassembly.present_iff.mp (hassembly.present_of_emitted hlost hother hget)
    cases howner.symm.trans howner'
    cases hcontents.symm.trans hcontents'
    exact hheld
  · intro name hname
    rw [Dict.keys_mapValues, hnames, hassembly.index_get? hindex,
      Option.map_eq_some_iff] at hname
    obtain ⟨⟨file, bytes⟩, hfound, rfl⟩ := hname
    exact ⟨bytes, hfound⟩

theorem complete_of_noWeightLost
    (hlost : NoWeightLost format source shards installed directory manifest) :
    Complete source shards installed := by
  refine hassembly.complete_iff.mpr ⟨?_, ?_, fun table =>
    hassembly.fills_of_noWeightLost hlost⟩
  · intro shard hshard name tensor htensor hdropped
    refine (hlost.carried shard hshard name tensor htensor).resolve_left ?_
    intro hpresent
    obtain ⟨file, held, -, howner, -, -⟩ := hassembly.present_iff.mp hpresent
    obtain ⟨table, htable, -, hget⟩ := mem_of_owner howner
    rw [hassembly.not_dropped_of_emitted htable hget] at hdropped
    cases hdropped
  · intro first hfirst second hsecond name bytes bytes' hget hget'
    exact hassembly.present_unique
      (hassembly.present_of_emitted hlost hfirst hget)
      (hassembly.present_of_emitted hlost hsecond hget')

/-! ## What the condition gives -/

variable (hsettled : Settled source shards installed)
include hsettled

/-- A file that is written holds just the tensors of which it is the last. -/
theorem contents_of_written {table : String × Table}
    (hmem : table ∈ emittedFiles source shards installed) :
    ∃ contents, contentsAt directory table.1 = some contents ∧
      (∀ name bytes, owner (emittedFiles source shards installed) name =
          some (table.1, bytes) → contents.get? name = some (.ok bytes)) ∧
      ∀ name, name ∈ Dict.keys contents ↔ ∃ bytes,
        owner (emittedFiles source shards installed) name =
          some (table.1, bytes) := by
  obtain ⟨contents, hoccupant, hfound, hheld⟩ := hsettled.settled table hmem
  refine ⟨contents, ?_, hfound, fun name => ⟨hheld name, ?_⟩⟩
  · rw [hassembly.contentsAt_eq hmem]
    exact hoccupant
  · rintro ⟨bytes, howner⟩
    exact Dict.mem_keys_iff.mpr ⟨_, hfound name bytes howner⟩

/-- The file that the index names for a tensor holds it. -/
theorem contents_of_owner {name file : String} {bytes : Bytes}
    (howner : owner (emittedFiles source shards installed) name =
      some (file, bytes)) :
    ∃ contents, contentsAt directory file = some contents ∧
      contents.get? name = some (.ok bytes) ∧
      ∀ other, other ∈ Dict.keys contents ↔ ∃ bytes',
        owner (emittedFiles source shards installed) other =
          some (file, bytes') := by
  obtain ⟨table, htable, rfl, -⟩ := mem_of_owner howner
  obtain ⟨contents, hcontents, hfound, hkeys⟩ :=
    hassembly.contents_of_written hsettled htable
  exact ⟨contents, hcontents, hfound name bytes howner, hkeys⟩

theorem present_of_settled {table : String × Table} {name : String}
    {bytes : Bytes} (hmem : table ∈ emittedFiles source shards installed)
    (hget : table.2.get? name = some bytes) : Present directory name bytes := by
  obtain ⟨file, held, howner⟩ := exists_owner hmem hget
  obtain ⟨other, hother, -, hheld⟩ := mem_of_owner howner
  cases hsettled.agree table hmem other hother name bytes held hget hheld
  obtain ⟨contents, hcontents, hbytes, -⟩ :=
    hassembly.contents_of_owner hsettled howner
  exact hassembly.present_iff.mpr
    ⟨file, bytes, contents, howner, hcontents, hbytes⟩

theorem present_of_slot {item : Installed} {slot : Slot}
    (hitem : item ∈ installed) (hslot : slot ∈ layerSlots item.2.choices) :
    Present directory (slot.key item.2.layer) (slot.bytes item.1.store) :=
  hassembly.present_of_settled hsettled
    (List.mem_append_right _ (List.mem_map_of_mem hitem))
    (hassembly.installedTable_get? hitem hslot)

/-- Every file that the index names holds just what the index places in it,
with the recorded hashes. -/
theorem indexed_files {index : Index}
    (hindex : readIndex directory = .ok index) {file : String}
    (hfile : file ∈ index.weightMap.map Prod.snd) :
    ∃ held, Hashed format directory (stored manifest) file held ∧
      ∀ name, name ∈ Dict.keys held.tensors ↔
        index.weightMap.get? name = some file := by
  obtain ⟨⟨name, own⟩, hitem, rfl⟩ := List.mem_map.mp hfile
  have hname := Dict.get?_of_mem (hassembly.index_nodup hindex) hitem
  rw [hassembly.index_get? hindex, Option.map_eq_some_iff] at hname
  obtain ⟨⟨label, bytes⟩, howner, rfl⟩ := hname
  obtain ⟨contents, hcontents, -, hkeys⟩ :=
    hassembly.contents_of_owner hsettled howner
  obtain ⟨held, hopen, rfl⟩ := contentsAt_eq_some.mp hcontents
  have howned : ∀ other, other ∈ Dict.keys held.tensors ↔
      index.weightMap.get? other = some label := by
    intro other
    rw [← Dict.keys_mapValues tensorBytes, hkeys, hassembly.index_get? hindex,
      Option.map_eq_some_iff]
    constructor
    · rintro ⟨bytes', hother⟩
      exact ⟨_, hother, rfl⟩
    · rintro ⟨found, hfound, hlabel⟩
      exact ⟨found.2, by rw [hfound, ← hlabel]⟩
  refine ⟨held, ⟨hopen, fun other tensor htensor => ?_⟩, howned⟩
  have hother := (howned other).mp (Dict.mem_keys_iff.mpr ⟨tensor, htensor⟩)
  rw [hassembly.index_get? hindex, Option.map_eq_some_iff] at hother
  obtain ⟨⟨label', bytes'⟩, howner', hlabel⟩ := hother
  cases hlabel
  obtain ⟨contents', hcontents', hbytes', -⟩ :=
    hassembly.contents_of_owner hsettled howner'
  cases hcontents.symm.trans hcontents'
  rw [Dict.get?_mapValues, htensor, Option.map_some, Option.some.injEq]
    at hbytes'
  refine ⟨format.sha256 bytes', ?_, ?_⟩
  · rw [tensorSha256, hbytes']
    rfl
  · have hhashes : (stored manifest).tensorPayloadSha256 =
        sortKeys (sortKeys emission.tensorHashes) :=
      congrArg sortKeys hassembly.hashes
    rw [hhashes, sortKeys_sortKeys,
      get?_sortKeys hassembly.wroteFiles.hashesNodup,
      hassembly.wroteFiles.hashes other, howner']
    rfl

theorem sized_of_scan {index : Index} {scan : Scan}
    (hindex : readIndex directory = .ok index)
    (hscan : ∀ name file, index.weightMap.get? name = some file →
      file ∈ sortedSet (index.weightMap.map Prod.snd) →
        scan.observed.get? name = some file ∧
          ∃ held tensor, openTensors directory file = .ok held ∧
            held.tensors.get? name = some tensor ∧
            scan.tensorNbytes.get? name = some tensor.nbytes)
    {item : Installed} {slot : Slot} (hitem : item ∈ installed)
    (hslot : slot ∈ layerSlots item.2.choices) :
    Sized scan.tensorNbytes item.2.layer slot := by
  obtain ⟨index', file, held, tensor, hindex', hfile, hopen, hget, hbytes⟩ :=
    hassembly.present_of_slot hsettled hitem hslot
  cases Except.ok.inj (hindex.symm.trans hindex')
  obtain ⟨-, held', tensor', hopen', hget', hsize⟩ := hscan _ file hfile
    (mem_sortedSet.mpr (List.mem_map.mpr ⟨_, Dict.mem_of_get? hfile, rfl⟩))
  cases Except.ok.inj (hopen.symm.trans hopen')
  cases hget.symm.trans hget'
  refine ⟨tensor.nbytes, hsize, ?_⟩
  obtain ⟨choice, hchoice, hown⟩ := List.mem_flatMap.mp hslot
  obtain ⟨role, -, rfl⟩ := List.mem_map.mp hown
  rw [tensor.nbytes_eq, ← tensorBytes_eq_ok hbytes]
  exact (hassembly.store_get? role hitem hchoice).2

/-- The audit finds nothing. -/
theorem audit_of_settled : ∃ report,
    auditInternalQwenCheckpoint format directory none false = .ok report ∧
      report.ok = true ∧
      report.logicalPayloadBytes = manifest.logicalPayloadBytes ∧
      report.allocatedPayloadBytes = manifest.allocatedPayloadBytes := by
  obtain ⟨index, hindex, -⟩ := hassembly.readIndex_eq
  obtain ⟨scan, hscan, hfailures, hobserved, hplaced, hothers⟩ :=
    @scanShards_ok format directory (stored manifest) index.weightMap
      (sortedSet (index.weightMap.map Prod.snd))
      { failures := [], observed := [], tensorNbytes := [] }
      nodup_sortedSet
      (fun file hfile => hassembly.indexed_files hsettled hindex
        (mem_sortedSet.mp hfile))
      (fun _ _ _ _ => List.not_mem_nil) List.nodup_nil
  have hsized : ∀ item ∈ installed, ∀ slot ∈ layerSlots item.2.choices,
      Sized scan.tensorNbytes item.2.layer slot := fun item hitem slot hslot =>
    hassembly.sized_of_scan hsettled hindex hplaced hitem hslot
  -- the index and what was observed are one dictionary
  have hsame : ∀ name,
      scan.observed.get? name = index.weightMap.get? name := by
    intro name
    cases hname : index.weightMap.get? name with
    | none =>
        rw [(hothers name fun _ _ heq => by rw [hname] at heq; cases heq).1]
        rfl
    | some file =>
        exact (hplaced name file hname (mem_sortedSet.mpr
          (List.mem_map.mpr ⟨_, Dict.mem_of_get? hname, rfl⟩))).1
  have hitems : SameItems scan.observed index.weightMap :=
    ⟨fun item hitem => by
      rw [← hsame, Dict.get?_of_mem hobserved hitem],
    fun item hitem => by
      rw [hsame, Dict.get?_of_mem (hassembly.index_nodup hindex) hitem]⟩
  -- the units of the manifest, in their sorted order
  obtain ⟨units, hperm, hunits⟩ : ∃ units : List (ℕ × Choice),
      units.Perm (installedPairs installed) ∧ (stored manifest).units =
        units.map fun unit => choiceUnit unit.1 unit.2 := by
    refine exists_map_of_perm ?_
    have hstored : (stored manifest).units.Perm manifest.units :=
      sortKeys_perm _
    rw [hassembly.units_eq] at hstored
    refine hstored.trans (List.Perm.of_eq ?_)
    rw [installedUnits, installedPairs, List.map_flatMap]
    simp only [List.map_map, Function.comp_def]
  have hunit : ∀ unit ∈ units, ∃ item ∈ installed,
      item.2.layer = unit.1 ∧ unit.2 ∈ item.2.choices := fun unit hmem =>
    mem_installedPairs (hperm.mem_iff.mp hmem)
  obtain ⟨totals, hrun, htotals, hlogical⟩ := @auditUnits_totals
    scan.tensorNbytes units
    (fun unit hmem slot hslot => by
      obtain ⟨item, hitem, hlayer, hchoice⟩ := hunit unit hmem
      rw [← hlayer]
      exact hsized item hitem slot
        (List.mem_flatMap.mpr ⟨unit.2, hchoice, hslot⟩))
    (fun unit hmem slot hslot => by
      obtain ⟨item, hitem, -, hchoice⟩ := hunit unit hmem
      exact (hassembly.accepted item hitem).cost.legal slot
        (List.mem_flatMap.mpr ⟨unit.2, hchoice, hslot⟩))
    (fun unit hmem => by
      obtain ⟨item, hitem, -, hchoice⟩ := hunit unit hmem
      exact (hassembly.accepted item hitem).logical unit.2 hchoice)
  have hdeclared : ((stored manifest).layers.map fun item =>
      item.2.allocatedPayloadBytes).sum = manifest.allocatedPayloadBytes := by
    rw [hassembly.allocated, ← hassembly.wrote.allocated]
    have hlayers : (stored manifest).layers = sortKeys emission.layers :=
      congrArg sortKeys hassembly.manifestLayers
    rw [hlayers]
    exact ((sortKeys_perm _).map _).sum_eq
  have hlogicalTotal : totals.logical = manifest.logicalPayloadBytes := by
    rw [hlogical, hassembly.logical, hassembly.wrote.logical,
      (hperm.map _).sum_eq, installedPairs, List.map_flatMap, List.flatMap_def,
      List.sum_flatten, List.map_map]
    simp only [Function.comp_def, List.map_map]
  have hallocated : totals.allocated = manifest.allocatedPayloadBytes := by
    rw [allocated_totals hassembly.accepted hassembly.layers hsized hperm
      htotals, hassembly.allocated]
  refine ⟨{
    ok := true
    failures := []
    unitCount := (stored manifest).units.length
    logicalPayloadBytes := manifest.logicalPayloadBytes
    allocatedPayloadBytes := manifest.allocatedPayloadBytes
    manifestSha256 := manifest.manifestSha256 }, ?_, rfl, rfl, rfl⟩
  rw [← hunits] at hrun
  simp only [auditInternalQwenCheckpoint, bind_eq_ok, pure_eq_ok,
    hassembly.readManifest_eq, hassembly.readSealLine_eq, hindex, hscan,
    auditRuntime, Except.ok.injEq, exists_eq_left']
  have hnothing : auditFiles format directory (stored manifest)
      (.manifest (stored manifest))
      (fileRow format (.manifest (stored manifest))).sha256 ++ scan.failures ++
    findingIf (¬SameItems scan.observed index.weightMap) .indexBijection ++
    findingIf ((stored manifest).allocatedPayloadBytes ≠
      ((stored manifest).layers.map fun item =>
        item.2.allocatedPayloadBytes).sum) .allocatedPayloadParity ++
    (auditUnits scan.tensorNbytes (stored manifest).units).2 ++
    findingIf ((stored manifest).logicalPayloadBytes ≠
      (auditUnits scan.tensorNbytes (stored manifest).units).1.logical)
      .logicalPayloadParity ++
    findingIf ((stored manifest).allocatedPayloadBytes ≠
      (auditUnits scan.tensorNbytes (stored manifest).units).1.allocated)
      .emittedAllocatorParity ++
    findingIf (false = true) .runtimeReaderUnavailable = [] := by
    simp only [List.append_eq_nil_iff, findingIf_eq_nil, not_not, hrun]
    exact ⟨⟨⟨⟨⟨⟨⟨hassembly.auditFiles_eq_nil, hfailures⟩, hitems⟩,
      hdeclared.symm⟩, trivial⟩, hlogicalTotal.symm⟩, hallocated.symm⟩,
      Bool.false_ne_true⟩
  rw [hnothing]
  rfl

/-- The index says of every written file what it holds. -/
theorem index_of_settled : ∃ index, readIndex directory = .ok index ∧
    ∀ file, file ∈ index.weightMap.map Prod.snd ∨
        file ∈ (emittedFiles source shards installed).map Prod.fst →
      ∃ held, openTensors directory file = .ok held ∧
        ∀ name, name ∈ Dict.keys held.tensors ↔
          index.weightMap.get? name = some file := by
  obtain ⟨index, hindex, -⟩ := hassembly.readIndex_eq
  refine ⟨index, hindex, ?_⟩
  rintro file (hfile | hfile)
  · obtain ⟨held, ⟨hopen, -⟩, hnames⟩ :=
      hassembly.indexed_files hsettled hindex hfile
    exact ⟨held, hopen, hnames⟩
  · obtain ⟨table, htable, rfl⟩ := List.mem_map.mp hfile
    obtain ⟨contents, hcontents, -, hkeys⟩ :=
      hassembly.contents_of_written hsettled htable
    obtain ⟨held, hopen, rfl⟩ := contentsAt_eq_some.mp hcontents
    refine ⟨held, hopen, fun name => ?_⟩
    rw [← Dict.keys_mapValues tensorBytes, hkeys, hassembly.index_get? hindex,
      Option.map_eq_some_iff]
    constructor
    · rintro ⟨bytes, howner⟩
      exact ⟨_, howner, rfl⟩
    · rintro ⟨found, hfound, hlabel⟩
      exact ⟨found.2, by rw [hfound, ← hlabel]⟩

omit hsettled in
theorem noWeightLost_of_complete (hcomplete : Complete source shards installed) :
    NoWeightLost format source shards installed directory manifest := by
  obtain ⟨hcovered, hsettled⟩ := hassembly.complete_iff.mp hcomplete
  constructor
  · intro shard hshard name tensor htensor
    by_cases hdropped : dropped (installedLayers installed) name = true
    · exact .inr (hcovered shard hshard name tensor htensor hdropped)
    · obtain ⟨table, htable, hget⟩ := exists_carrierTable hshard htensor
        (Bool.not_eq_true _ ▸ hdropped)
      exact .inl (hassembly.present_of_settled hsettled htable hget)
  · intro item hitem choice hchoice
    refine ⟨_, hassembly.units_get? hitem hchoice, fun role hrole => ?_⟩
    exact ⟨_, _, choiceKeys_get? item.2.layer choice hrole,
      (hassembly.store_get? role hitem hchoice).1,
      hassembly.present_of_slot hsettled hitem
        (List.mem_flatMap.mpr ⟨choice, hchoice, mem_choiceSlots hrole⟩)⟩
  · exact hassembly.index_of_settled hsettled
  · exact hassembly.audit_of_settled hsettled

omit hsettled in
/-- The inputs are complete when dropped tensors are covered, every tensor is
carried once and no copied file takes the name of an emitted one. -/
theorem complete_of_distinct
    (hcovered : ∀ shard ∈ shards, ∀ name tensor,
      (source.tensorsOf shard).get? name = some tensor →
        dropped (installedLayers installed) name = true →
          Replaced installed name tensor)
    (honce : ∀ shard index, (shard, index) ∈ shards.zipIdx 1 →
      ∀ name bytes, Carries source installed shard name bytes →
        LastCarried source shards installed index name)
    (hcarriers : ∀ shard index, (shard, index) ∈ shards.zipIdx 1 →
      copiedFile source shards (carrierName index) = none)
    (hlayers : ∀ item ∈ installed,
      copiedFile source shards (layerFileName item.2.layer) = none) :
    Complete source shards installed := by
  have hnumber : ∀ shard ∈ shards, ∃ index, (shard, index) ∈ shards.zipIdx 1 := by
    intro shard hshard
    rw [← List.zipIdx_map_fst 1 shards] at hshard
    obtain ⟨⟨_, index⟩, hmem, rfl⟩ := List.mem_map.mp hshard
    exact ⟨index, hmem⟩
  refine ⟨hcovered, ?_, fun shard index hshard _ => honce shard index hshard, ?_, ?_⟩
  · rintro name bytes bytes' (⟨shard, hshard, hcarries⟩ | ⟨item, hitem, hsupplies⟩)
      (⟨other, hother, hcarries'⟩ | ⟨item', hitem', hsupplies'⟩)
    · obtain ⟨index, hindex⟩ := hnumber shard hshard
      obtain ⟨later, hlater⟩ := hnumber other hother
      rcases Nat.lt_trichotomy index later with hlt | rfl | hgt
      · exact absurd hcarries' ((honce shard index hindex name bytes hcarries).1
          other later hlater hlt bytes')
      · obtain rfl := eq_of_mem_zipIdx hindex hlater
        obtain ⟨-, tensor, htensor, rfl⟩ := hcarries
        obtain ⟨-, tensor', htensor', rfl⟩ := hcarries'
        rw [Option.some.inj (htensor.symm.trans htensor')]
      · exact absurd hcarries ((honce other later hlater name bytes' hcarries').1
          shard index hindex hgt bytes)
    · obtain ⟨index, hindex⟩ := hnumber shard hshard
      exact absurd hsupplies'
        ((honce shard index hindex name bytes hcarries).2 item' hitem' bytes')
    · obtain ⟨later, hlater⟩ := hnumber other hother
      exact absurd hsupplies
        ((honce other later hlater name bytes' hcarries').2 item hitem bytes)
    · obtain rfl := hassembly.eq_of_supplies hitem hitem' hsupplies hsupplies'
      have hget := (hassembly.installedTable_get?_iff hitem).mpr hsupplies
      have hget' := (hassembly.installedTable_get?_iff hitem).mpr hsupplies'
      exact Option.some.inj (hget.symm.trans hget')
  · intro shard index file hshard _ hcopied
    rw [hcarriers shard index hshard] at hcopied
    cases hcopied
  · intro item hitem file hcopied
    rw [hlayers item hitem] at hcopied
    cases hcopied

end Assembly

/-- Whenever the assembly returns, no weight is lost and the audit finds
nothing if and only if the inputs are complete. -/
theorem noWeightLost_iff {roots : List InstalledRoot} {destination : Directory}
    {formatVersion : String} {expected : Option ℤ}
    {weightMap : Dict String String}
    (hrun : emitInternalQwenCheckpoint format source roots destination
      formatVersion expected = .ok (directory, manifest))
    (hinstalled : verifyInstalledLayers format roots = .ok installed)
    (hshards : sourceIndex source = .ok (weightMap, shards)) :
    NoWeightLost format source shards installed directory manifest ↔
      Complete source shards installed := by
  obtain ⟨emission, hassembly⟩ := emit_eq_ok hrun hinstalled hshards
  exact ⟨hassembly.complete_of_noWeightLost, hassembly.noWeightLost_of_complete⟩

/-! ## A small checkpoint -/

def sampleFormat : CheckpointFormat where
  toLayerHashing := sampleHashing
  contents := fun _ => []
  checkpointJson := fun body => ascii (toString body.allocatedPayloadBytes)

def sampleStacked (experts : ℕ) : Tensor where
  dtype := "uint8"
  itemSize := 1
  shape := [experts]
  data := List.replicate experts 7
  length_data := by
    rw [List.length_replicate, List.prod_singleton, Nat.mul_one]

/-- A source with a stacked tensor of so many experts, another tensor and a
tokenizer. -/
def sampleSource (experts : ℕ) : SourceCheckpoint where
  entries := [
    ("config.json", .file (.config [])),
    ("model.safetensors", .file (.tensors {
      metadata := []
      tensors := [("model.layers.0.mlp.experts.down_proj", sampleStacked experts),
        ("model.norm.weight", sampleStacked 3)]
      nodup := show ["model.layers.0.mlp.experts.down_proj",
        "model.norm.weight"].Nodup by decide })),
    ("tokenizer.json", .file (.raw []))]
  nodup := show ["config.json", "model.safetensors", "tokenizer.json"].Nodup by
    decide

theorem stackedExpert_sample :
    stackedExpert "model.layers.0.mlp.experts.down_proj" =
      some (0, .downProj) := by
  decide +kernel

theorem verifyInstalledLayers_sample :
    verifyInstalledLayers sampleFormat [sampleRoot] =
      .ok [(sampleRoot, sampleManifest)] := by
  have hlayer : verifyInstalledLayer sampleFormat.toLayerHashing sampleRoot =
      .ok sampleManifest := verifyInstalledLayer_sample
  simp only [verifyInstalledLayers, List.mapM_cons, List.mapM_nil, hlayer]
  rfl

theorem sourceIndex_sample (experts : ℕ) : sourceIndex (sampleSource experts) =
    .ok ([("model.layers.0.mlp.experts.down_proj", "model.safetensors"),
      ("model.norm.weight", "model.safetensors")], ["model.safetensors"]) := by
  rfl

theorem tensorsOf_sample (experts : ℕ) :
    (sampleSource experts).tensorsOf "model.safetensors" =
      [("model.layers.0.mlp.experts.down_proj", sampleStacked experts),
        ("model.norm.weight", sampleStacked 3)] := by
  rfl

theorem dropped_sample :
    dropped [0] "model.layers.0.mlp.experts.down_proj" = true := by
  rw [dropped, stackedExpert_sample]
  rfl

/-- Nothing is lost with one expert, and the second one of two is. -/
theorem second_expert_is_lost : ∃ directory manifest,
    emitInternalQwenCheckpoint sampleFormat (sampleSource 2) [sampleRoot]
      [] "1" none = .ok (directory, manifest) ∧
    ¬NoWeightLost sampleFormat (sampleSource 2) ["model.safetensors"]
      [(sampleRoot, sampleManifest)] directory manifest := by
  have hok : (emitInternalQwenCheckpoint sampleFormat (sampleSource 2) [sampleRoot]
      [] "1" none).isOk = true := by
    decide +kernel
  obtain ⟨⟨directory, manifest⟩, hrun⟩ := exists_of_isOk hok
  obtain ⟨emission, hassembly⟩ :=
    emit_eq_ok hrun verifyInstalledLayers_sample (sourceIndex_sample 2)
  refine ⟨directory, manifest, hrun, fun hlost => ?_⟩
  obtain ⟨layer, family, hname, item, hitem, -, experts, rest, hshape, hcovers⟩ :=
    (hassembly.complete_of_noWeightLost hlost).covered _ List.mem_cons_self _
      (sampleStacked 2) (by rw [tensorsOf_sample]; rfl) dropped_sample
  rw [stackedExpert_sample] at hname
  cases hname
  cases List.mem_singleton.mp hitem
  cases hshape
  exact absurd (hcovers 1 Nat.one_lt_two .downProj List.mem_cons_self) (by decide)

/-- With one expert the layer covers the stacked tensor, and the other tensor is
carried. -/
theorem noWeightLost_sample : ∃ directory manifest,
    emitInternalQwenCheckpoint sampleFormat (sampleSource 1) [sampleRoot]
      [] "1" none = .ok (directory, manifest) ∧
    NoWeightLost sampleFormat (sampleSource 1) ["model.safetensors"]
      [(sampleRoot, sampleManifest)] directory manifest := by
  have hok : (emitInternalQwenCheckpoint sampleFormat (sampleSource 1) [sampleRoot]
      [] "1" none).isOk = true := by
    decide +kernel
  obtain ⟨⟨directory, manifest⟩, hrun⟩ := exists_of_isOk hok
  refine ⟨directory, manifest, hrun, ?_⟩
  refine (noWeightLost_iff hrun verifyInstalledLayers_sample
    (sourceIndex_sample 1)).mpr ?_
  obtain ⟨emission, hassembly⟩ :=
    emit_eq_ok hrun verifyInstalledLayers_sample (sourceIndex_sample 1)
  have hheld : ∀ {name tensor}, ((sampleSource 1).tensorsOf
      "model.safetensors").get? name = some tensor →
        name = "model.layers.0.mlp.experts.down_proj" ∧ tensor = sampleStacked 1 ∨
          name = "model.norm.weight" := by
    intro name tensor hget
    have hmem := Dict.mem_of_get? hget
    rw [tensorsOf_sample, List.mem_cons, List.mem_singleton, Prod.mk.injEq,
      Prod.mk.injEq] at hmem
    exact hmem.imp_right And.left
  refine hassembly.complete_of_distinct ?_ ?_ ?_ ?_
  · intro shard hshard name tensor htensor hdropped
    rw [List.mem_singleton.mp hshard] at htensor
    rcases hheld htensor with ⟨rfl, rfl⟩ | rfl
    · exact ⟨0, .downProj, stackedExpert_sample, _, List.mem_cons_self, rfl, 1, [],
        rfl, by decide⟩
    · exact absurd hdropped (by decide +kernel)
  · rintro shard index hshard name bytes ⟨hkept, tensor, htensor, -⟩
    obtain ⟨rfl, rfl⟩ := Prod.mk.inj (List.mem_singleton.mp hshard)
    rcases hheld htensor with ⟨rfl, rfl⟩ | rfl
    · rw [installedLayers, List.map_singleton, sampleManifest, sealedManifest,
        dropped_sample] at hkept
      cases hkept
    · refine ⟨?_, ?_⟩
      · intro other later hother hlt
        obtain ⟨-, rfl⟩ := Prod.mk.inj (List.mem_singleton.mp hother)
        exact absurd hlt (Nat.lt_irrefl 1)
      · rintro item hitem bytes' ⟨choice, hchoice, role, hrole, hname, -⟩
        rw [List.mem_singleton.mp hitem] at hchoice hname
        revert hname
        revert role
        cases List.mem_singleton.mp hchoice
        decide +kernel
  · intro shard index hshard
    obtain ⟨rfl, rfl⟩ := Prod.mk.inj (List.mem_singleton.mp hshard)
    decide +kernel
  · intro item hitem
    rw [List.mem_singleton.mp hitem]
    decide +kernel

end GlmFlash.Checkpoint
