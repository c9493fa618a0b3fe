import GlmFlash.Encoder.StageJournal

/-!
# What the journal's file holds

Reading the file that a journal wrote gives its seals with sorted keys.  They
are equal to the ones written, and the journal that was read would be written
as the same bytes.
-/

namespace GlmFlash.Encoder.StageJournal

open GlmFlash.Library

variable {runtime : Runtime} {recipe : Dict String Json} {stage : StageSeal}

/-! ## Seals -/

/-- A seal of JSON values: keys are distinct and floats are written as such. -/
structure StageSeal.Valid (stage : StageSeal) : Prop where
  unique : (Json.object stage.asdict).uniqueKeys = true
  written : (Json.object stage.asdict).Written

/-- The seal as it is read back. -/
def StageSeal.canonical (stage : StageSeal) : StageSeal where
  name := stage.name
  inputSha256 := sortedFields stage.inputSha256
  outputSha256 := sortedFields stage.outputSha256
  metadata := sortedFields stage.metadata

theorem asdict_keys (stage : StageSeal) : (stage.asdict.map Prod.fst).Nodup := by
  change (["name", "input_sha256", "output_sha256", "metadata"] :
    List String).Nodup
  decide

theorem asdict_canonical (stage : StageSeal) :
    stage.canonical.asdict = Dict.mapValues Json.sortKeys stage.asdict := by
  simp only [StageSeal.asdict, StageSeal.canonical, Dict.mapValues, List.map_cons,
    List.map_nil, Json.sortKeys_object]
  rfl

theorem StageSeal.Valid.canonical (hstage : stage.Valid) :
    stage.canonical.Valid := by
  have hperm : (sortedFields stage.asdict).Perm stage.canonical.asdict := by
    rw [asdict_canonical]
    exact sortedFields_perm stage.asdict
  have hunique := Json.uniqueKeys_sortKeys hstage.unique
  have hwritten := hstage.written.sortKeys
  rw [Json.sortKeys_object] at hunique hwritten
  constructor
  · rw [Json.uniqueKeys_object] at hunique ⊢
    exact ⟨asdict_keys _, fun field hmem => hunique.2 field (hperm.mem_iff.mpr hmem)⟩
  · cases hwritten with
    | object hfields =>
        exact .object fun field hmem => hfields field (hperm.mem_iff.mpr hmem)

theorem sortKeys_canonical (stage : StageSeal) :
    (Json.object stage.canonical.asdict).sortKeys =
      (Json.object stage.asdict).sortKeys := by
  have hfields (fields : Dict String Json) :
      (Json.object (sortedFields fields)).sortKeys =
        (Json.object fields).sortKeys := by
    rw [← Json.sortKeys_object, Json.sortKeys_sortKeys]
  rw [Json.sortKeys_object, Json.sortKeys_object, sortedFields, sortedFields,
    sortFields_eq_mapValues, sortFields_eq_mapValues]
  simp only [StageSeal.asdict, StageSeal.canonical, Dict.mapValues,
    List.map_cons, List.map_nil, hfields]

theorem sameSeal_refl (stage : StageSeal) : sameSeal runtime stage stage = true :=
  runtime.same_refl _

theorem sameSeal_canonical (stage : StageSeal) :
    sameSeal runtime stage.canonical stage = true := by
  have hstage := runtime.same_sortKeys (.object stage.asdict)
  have hcanonical := runtime.same_sortKeys (.object stage.canonical.asdict)
  rw [sortKeys_canonical] at hcanonical
  exact runtime.same_trans _ _ _ (runtime.same_symm _ _ hcanonical) hstage

theorem readSeal_sorted (stage : StageSeal) :
    readSeal (Json.object stage.asdict).sortKeys = .ok stage.canonical := by
  have hget (key : String) : Dict.get? (sortedFields stage.asdict) key =
      (stage.asdict.get? key).map Json.sortKeys :=
    get?_sortedFields (asdict_keys stage) key
  have hname : stage.asdict.get? "name" = some (.text stage.name) := rfl
  have hinput : stage.asdict.get? "input_sha256" =
      some (.object stage.inputSha256) := rfl
  have houtput : stage.asdict.get? "output_sha256" =
      some (.object stage.outputSha256) := rfl
  have hmetadata : stage.asdict.get? "metadata" =
      some (.object stage.metadata) := rfl
  rw [Json.sortKeys_object]
  simp only [readSeal, item, hget, hname, hinput, houtput, hmetadata,
    Option.map_some, Json.sortKeys_object]
  rfl

/-! ## Reading what was written -/

/-- The seals that a read finds, in their order. -/
def canonicalSeals (stages : List StageSeal) : Dict String StageSeal :=
  stages.map fun stage => (stage.name, stage.canonical)

theorem addSeals_sorted {stages : List StageSeal} {seals : Dict String StageSeal}
    (hnodup : (stages.map StageSeal.name).Nodup)
    (hnew : ∀ stage ∈ stages, stage.name ∉ seals.keys) :
    (stages.map fun stage => (Json.object stage.asdict).sortKeys).foldlM addSeal
      seals = .ok (seals ++ canonicalSeals stages) := by
  induction stages generalizing seals with
  | nil => exact congrArg Except.ok (List.append_nil seals).symm
  | cons stage stages ih =>
      obtain ⟨hnotin, hrest⟩ := List.nodup_cons.mp hnodup
      have hfirst := hnew stage List.mem_cons_self
      have hset : seals.set stage.name stage.canonical =
          seals ++ [(stage.name, stage.canonical)] := Dict.set_eq_append hfirst
      have hlater : ∀ other ∈ stages, other.name ∉
          (seals.set stage.name stage.canonical).keys := by
        intro other hmem hold
        rcases Dict.mem_keys_set.mp hold with heq | hold
        · exact hnotin (heq ▸ List.mem_map_of_mem hmem)
        · exact hnew other (List.mem_cons_of_mem stage hmem) hold
      rw [List.map_cons, List.foldlM_cons, addSeal, readSeal_sorted]
      change ((require (stage.name ∉ seals.keys) Failure.valueError >>=
        fun _ => pure (seals.set stage.name stage.canonical)) >>= _) = _
      rw [require, if_pos hfirst]
      refine (ih hrest hlater).trans ?_
      rw [hset, List.append_assoc]
      rfl

/-- A journal whose seals stand under their names. -/
structure Journal.Valid (journal : Journal) : Prop where
  nodup : journal.seals.keys.Nodup
  seals : ∀ name stage, journal.seals.get? name = some stage →
    stage.name = name ∧ stage.Valid
  recipe_unique : (Json.object journal.recipeConfig).uniqueKeys = true
  recipe_written : (Json.object journal.recipeConfig).Written

/-- The seals in the order in which they are written. -/
def Journal.stages (journal : Journal) : List StageSeal :=
  journal.names.filterMap fun name => journal.seals.get? name

theorem payload_eq (journal : Journal) : journal.payload = [
    ("marker", .text recipeMarker), ("recipe_version", .text recipeVersion),
    ("recipe_sha256", .text journal.recipeSha256),
    ("recipe_config", .object journal.recipeConfig),
    ("seals", .array (journal.stages.map fun stage => .object stage.asdict))] := by
  rw [Journal.stages, List.map_filterMap]
  rfl

section Flush

variable {journal : Journal} (hvalid : journal.Valid)

theorem mem_names {name : String} : name ∈ journal.names ↔
    ∃ stage, journal.seals.get? name = some stage := by
  rw [Journal.names, List.mem_insertionSort, Dict.mem_keys_iff]

include hvalid

theorem nodup_names : journal.names.Nodup :=
  (List.perm_insertionSort _ _).nodup_iff.mpr hvalid.nodup

theorem names_stages : journal.stages.map StageSeal.name = journal.names := by
  rw [Journal.stages, List.map_filterMap]
  have hsome : ∀ name ∈ journal.names,
      (journal.seals.get? name).map StageSeal.name = some name := by
    intro name hmem
    obtain ⟨stage, hstage⟩ := mem_names.mp hmem
    rw [hstage, Option.map_some, (hvalid.seals name stage hstage).1]
  rw [List.filterMap_congr hsome, List.filterMap_some]

theorem mem_stages (stage : StageSeal) : stage ∈ journal.stages ↔
    journal.seals.get? stage.name = some stage := by
  rw [Journal.stages, List.mem_filterMap]
  constructor
  · rintro ⟨name, -, hstage⟩
    rw [(hvalid.seals name stage hstage).1]
    exact hstage
  · exact fun hstage => ⟨stage.name, mem_names.mpr ⟨stage, hstage⟩, hstage⟩

theorem get?_canonicalSeals (name : String) :
    Dict.get? (canonicalSeals journal.stages) name =
      (journal.seals.get? name).map StageSeal.canonical := by
  have hkeys : Dict.keys (canonicalSeals journal.stages) = journal.names := by
    rw [← names_stages hvalid, Dict.keys, canonicalSeals, List.map_map]
    rfl
  have hnodup : (Dict.keys (canonicalSeals journal.stages)).Nodup := by
    rw [hkeys]
    exact nodup_names hvalid
  cases hget : journal.seals.get? name with
  | none =>
      rw [Option.map_none, Dict.get?_eq_none_iff, hkeys, mem_names, hget]
      rintro ⟨stage, hsome⟩
      cases hsome
  | some stage =>
      have hname := (hvalid.seals name stage hget).1
      have hmem : stage ∈ journal.stages :=
        (mem_stages hvalid stage).mpr (hname.symm ▸ hget)
      apply Dict.get?_of_mem hnodup
      exact List.mem_map.mpr ⟨stage, hmem, Prod.ext hname rfl⟩

theorem payload_value {field : String × Json} (hmem : field ∈ journal.payload) :
    field.2.uniqueKeys = true ∧ field.2.Written := by
  simp only [Journal.payload, List.mem_cons, List.not_mem_nil, or_false] at hmem
  rcases hmem with rfl | rfl | rfl | rfl | rfl
  · exact ⟨rfl, .text _⟩
  · exact ⟨rfl, .text _⟩
  · exact ⟨rfl, .text _⟩
  · exact ⟨hvalid.recipe_unique, hvalid.recipe_written⟩
  · have hstages : ∀ value ∈ journal.names.filterMap (fun name =>
        (journal.seals.get? name).map fun stage => Json.object stage.asdict),
        value.uniqueKeys = true ∧ value.Written := by
      intro value hvalue
      obtain ⟨name, -, hvalue⟩ := List.mem_filterMap.mp hvalue
      obtain ⟨stage, hstage, rfl⟩ := Option.map_eq_some_iff.mp hvalue
      have hstage := (hvalid.seals name stage hstage).2
      exact ⟨hstage.unique, hstage.written⟩
    constructor
    · rw [Json.uniqueKeys, uniqueItems_eq_true]
      exact fun value hvalue => (hstages value hvalue).1
    · exact .array fun value hvalue => (hstages value hvalue).2

omit hvalid in
theorem payload_keys : (journal.payload.map Prod.fst).Nodup := by
  change (["marker", "recipe_version", "recipe_sha256", "recipe_config",
    "seals"] : List String).Nodup
  decide

theorem readJson_flush : readJson runtime journal.flush =
    some (.object (sortedFields journal.payload)) := by
  have hunique : (Json.object journal.payload).uniqueKeys = true :=
    Json.uniqueKeys_object.mpr
      ⟨payload_keys, fun _ hmem => (payload_value hvalid hmem).1⟩
  have hwritten : (Json.object journal.payload).Written :=
    .object fun _ hmem => (payload_value hvalid hmem).2
  have hblanks : ∀ char ∈ ['\n'], isBlank char = true := by
    intro char hmem
    rw [List.mem_singleton.mp hmem]
    decide
  rw [readJson, Journal.flush, jsonFile, canonicalJsonBytes,
    Json.loads_dumps_blanks hwritten.sortKeys _ hblanks, Option.map_some,
    Json.lastWins_eq_self (Json.uniqueKeys_sortKeys hunique),
    Json.sortKeys_object]

theorem readSeals_flush :
    readSeals runtime journal.recipeSha256 journal.flush =
      .ok (canonicalSeals journal.stages) := by
  have hget (key : String) : Dict.get? (sortedFields journal.payload) key =
      (journal.payload.get? key).map Json.sortKeys :=
    get?_sortedFields payload_keys key
  have hseals : journal.payload.get? "seals" = some (.array
      (journal.stages.map fun stage => .object stage.asdict)) := by
    rw [payload_eq]
    rfl
  have hraws : rawSeals (sortedFields journal.payload) =
      .ok (journal.stages.map fun stage =>
        (Json.object stage.asdict).sortKeys) := by
    rw [rawSeals, hget, hseals, Option.map_some, Json.sortKeys, sortItems_eq_map,
      List.map_map]
    rfl
  have htexts (key expected : String)
      (htext : journal.payload.get? key = some (.text expected)) :
      isText (Dict.get? (sortedFields journal.payload) key) expected = true := by
    rw [hget, htext]
    exact decide_eq_true rfl
  have hnodup : (journal.stages.map StageSeal.name).Nodup := by
    rw [names_stages hvalid]
    exact nodup_names hvalid
  have hadd := @addSeals_sorted journal.stages [] hnodup
    fun _ _ => List.not_mem_nil
  rw [readSeals, readJson_flush hvalid]
  simp only [bind_eq_ok, require_eq_ok]
  exact ⟨(), htexts "marker" recipeMarker rfl, (),
    htexts "recipe_version" recipeVersion rfl, (),
    htexts "recipe_sha256" journal.recipeSha256 rfl, _, hraws, hadd⟩

end Flush

/-! ## A journal that was read -/

/-- The journal after its file has been read. -/
def Journal.readBack (journal : Journal) : Journal :=
  { journal with seals := canonicalSeals journal.stages }

section ReadBack

variable {journal : Journal} (hvalid : journal.Valid)

include hvalid

theorem keys_readBack : journal.readBack.seals.keys = journal.names := by
  rw [← names_stages hvalid, Journal.readBack, Dict.keys, canonicalSeals,
    List.map_map]
  rfl

theorem get?_readBack (name : String) : journal.readBack.seals.get? name =
    (journal.seals.get? name).map StageSeal.canonical :=
  get?_canonicalSeals hvalid name

theorem Journal.Valid.readBack : journal.readBack.Valid where
  nodup := by
    rw [keys_readBack hvalid]
    exact nodup_names hvalid
  seals := by
    intro name stage hget
    rw [get?_readBack hvalid] at hget
    obtain ⟨source, hsource, rfl⟩ := Option.map_eq_some_iff.mp hget
    obtain ⟨hname, hstage⟩ := hvalid.seals name source hsource
    exact ⟨hname, hstage.canonical⟩
  recipe_unique := hvalid.recipe_unique
  recipe_written := hvalid.recipe_written

theorem stages_readBack :
    journal.readBack.stages = journal.stages.map StageSeal.canonical := by
  have hnames : journal.readBack.names = journal.names := by
    rw [Journal.names, keys_readBack hvalid, Journal.names]
    exact (List.pairwise_insertionSort _ _).insertionSort_eq
  rw [Journal.stages, hnames, Journal.stages, List.map_filterMap]
  exact List.filterMap_congr fun name _ => get?_readBack hvalid name

/-- What was read would be written as the same bytes. -/
theorem flush_readBack : journal.readBack.flush = journal.flush := by
  have hseals : (Json.array (journal.readBack.stages.map fun stage =>
        .object stage.asdict)).sortKeys =
      (Json.array (journal.stages.map fun stage =>
        .object stage.asdict)).sortKeys := by
    rw [stages_readBack hvalid, Json.sortKeys, Json.sortKeys, sortItems_eq_map,
      sortItems_eq_map, List.map_map, List.map_map, List.map_map]
    exact congrArg Json.array
      (List.map_congr_left fun stage _ => sortKeys_canonical stage)
  have hvalues : Dict.mapValues Json.sortKeys journal.readBack.payload =
      Dict.mapValues Json.sortKeys journal.payload := by
    rw [payload_eq, payload_eq]
    simp only [Dict.mapValues, List.map_cons, List.map_nil, hseals]
    rfl
  rw [Journal.flush, Journal.flush, jsonFile, jsonFile, canonicalJsonBytes,
    canonicalJsonBytes, Json.sortKeys_object, Json.sortKeys_object, sortedFields,
    sortedFields, sortFields_eq_mapValues, sortFields_eq_mapValues, hvalues]

end ReadBack

end GlmFlash.Encoder.StageJournal
