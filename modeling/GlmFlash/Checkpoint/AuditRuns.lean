import GlmFlash.Checkpoint.EmissionRuns

/-!
# The loops of the audit

Where the files that the index names hold just what it says, the tensor scan
finds nothing and sees every indexed tensor once.  Where every unit's keys lead
to tensors of the recorded sizes, the units add up to the installed costs.
-/

namespace GlmFlash.Checkpoint

open GlmFlash.Library

variable {format : CheckpointFormat}

/-! ## Tensors -/

/-- The file is a tensor file, and its tensors have the recorded hashes. -/
def Hashed (format : CheckpointFormat) (root : Directory)
    (manifest : CheckpointManifest) (shard : String) (held : TensorFile) :
    Prop :=
  openTensors root shard = .ok held ∧
    ∀ name tensor, held.tensors.get? name = some tensor → ∃ digest,
      tensorSha256 format tensor = .ok digest ∧
        manifest.tensorPayloadSha256.get? name = some digest

theorem scanTensors_eq {manifest : CheckpointManifest} {shard : String}
    {tensors : Dict String Tensor} {scan : Scan}
    (hnodup : (Dict.keys tensors).Nodup)
    (hnew : ∀ name ∈ Dict.keys tensors, name ∉ Dict.keys scan.observed)
    (hhashes : ∀ item ∈ tensors, ∃ digest,
      tensorSha256 format item.2 = .ok digest ∧
        manifest.tensorPayloadSha256.get? item.1 = some digest) :
    tensors.foldlM (scanTensor format manifest shard) scan = .ok {
      failures := scan.failures
      observed := scan.observed.update (tensors.mapValues fun _ => shard)
      tensorNbytes :=
        scan.tensorNbytes.update (tensors.mapValues Tensor.nbytes) } := by
  induction tensors generalizing scan with
  | nil => rfl
  | cons item tensors ih =>
      obtain ⟨hnotin, hrest⟩ := List.nodup_cons.mp hnodup
      obtain ⟨digest, hdigest, hrecorded⟩ :=
        hhashes item List.mem_cons_self
      have hfirst : scanTensor format manifest shard scan item = .ok {
          failures := scan.failures
          observed := scan.observed.set item.1 shard
          tensorNbytes := scan.tensorNbytes.set item.1 item.2.nbytes } := by
        have hseen : findingIf (item.1 ∈ Dict.keys scan.observed)
            (.duplicateTensor item.1) = [] :=
          findingIf_eq_nil.mpr (hnew item.1 List.mem_cons_self)
        have hhash : findingIf (manifest.tensorPayloadSha256.get? item.1 ≠
            some digest) (.tensor item.1) = [] :=
          findingIf_eq_nil.mpr (not_not.mpr hrecorded)
        simp only [scanTensor, bind_eq_ok, pure_eq_ok]
        refine ⟨digest, hdigest, ?_⟩
        rw [hseen, hhash, List.append_nil, List.append_nil]
      rw [List.foldlM_cons, hfirst]
      refine ih hrest ?_ fun other hother =>
        hhashes other (List.mem_cons_of_mem item hother)
      intro name hname hmem
      rcases Dict.mem_keys_set.mp hmem with rfl | hold
      · exact hnotin hname
      · exact hnew name (List.mem_cons_of_mem _ hname) hold

/-- The scan of these files: what the index places in them is seen, with its
size, and nothing else changes. -/
theorem scanShards_ok {root : Directory} {manifest : CheckpointManifest}
    {weightMap : Dict String String} {files : List String} {scan : Scan}
    (hnodup : files.Nodup)
    (hfiles : ∀ file ∈ files, ∃ held, Hashed format root manifest file held ∧
      ∀ name, name ∈ Dict.keys held.tensors ↔ weightMap.get? name = some file)
    (hnew : ∀ name file, weightMap.get? name = some file → file ∈ files →
      name ∉ Dict.keys scan.observed)
    (hobserved : (Dict.keys scan.observed).Nodup) :
    ∃ final, files.foldlM (scanShard format root manifest) scan = .ok final ∧
      final.failures = scan.failures ∧ (Dict.keys final.observed).Nodup ∧
      (∀ name file, weightMap.get? name = some file → file ∈ files →
        final.observed.get? name = some file ∧
          ∃ held tensor, openTensors root file = .ok held ∧
            held.tensors.get? name = some tensor ∧
            final.tensorNbytes.get? name = some tensor.nbytes) ∧
      ∀ name, (∀ file ∈ files, weightMap.get? name ≠ some file) →
        final.observed.get? name = scan.observed.get? name ∧
          final.tensorNbytes.get? name = scan.tensorNbytes.get? name := by
  induction files generalizing scan with
  | nil =>
      exact ⟨scan, rfl, rfl, hobserved,
        fun _ _ _ hmem => absurd hmem List.not_mem_nil,
        fun _ _ => ⟨rfl, rfl⟩⟩
  | cons file files ih =>
      obtain ⟨hnotin, hrest⟩ := List.nodup_cons.mp hnodup
      obtain ⟨held, ⟨hopen, hhashes⟩, hheld⟩ :=
        hfiles file List.mem_cons_self
      have hscan := @scanTensors_eq format manifest file held.tensors scan
        held.nodup
        (fun name hname => hnew name file ((hheld name).mp hname)
          List.mem_cons_self)
        (fun item hitem => hhashes item.1 item.2
          (Dict.get?_of_mem held.nodup hitem))
      have hfirst : scanShard format root manifest scan file =
          held.tensors.foldlM (scanTensor format manifest file) scan := by
        rw [scanShard, hopen]
        rfl
      have hnodup' : (Dict.keys (held.tensors.mapValues
          fun _ => file)).Nodup := by
        rw [Dict.keys_mapValues]
        exact held.nodup
      have hsizes : (Dict.keys (held.tensors.mapValues
          Tensor.nbytes)).Nodup := by
        rw [Dict.keys_mapValues]
        exact held.nodup
      obtain ⟨final, hrun, hfailures, hfinal, hplaced, hothers⟩ := @ih
        { failures := scan.failures
          observed := scan.observed.update
            (held.tensors.mapValues fun _ => file)
          tensorNbytes := scan.tensorNbytes.update
            (held.tensors.mapValues Tensor.nbytes) }
        hrest (fun other hother => hfiles other (List.mem_cons_of_mem _ hother))
        (by
          intro name other hname hother hmem
          rw [Dict.mem_keys_update, Dict.keys_mapValues, hheld] at hmem
          rcases hmem with hown | hold
          · rw [hown, Option.some.injEq] at hname
            exact hnotin (hname ▸ hother)
          · exact hnew name other hname (List.mem_cons_of_mem _ hother) hold)
        (Dict.nodup_keys_update hobserved)
      refine ⟨final, ?_, hfailures, hfinal, ?_, ?_⟩
      · rw [List.foldlM_cons, hfirst, hscan]
        exact hrun
      · intro name other hname hother
        rcases List.mem_cons.mp hother with rfl | hlater
        · obtain ⟨hseen, hsize⟩ := hothers name fun later hlater heq =>
            hnotin (Option.some.inj (hname.symm.trans heq) ▸ hlater)
          obtain ⟨tensor, htensor⟩ :=
            Dict.mem_keys_iff.mp ((hheld name).mpr hname)
          refine ⟨?_, held, tensor, hopen, htensor, ?_⟩
          · rw [hseen, Dict.get?_update hnodup', Dict.get?_mapValues, htensor]
            rfl
          · rw [hsize, Dict.get?_update hsizes, Dict.get?_mapValues, htensor]
            rfl
        · exact hplaced name other hname hlater
      · intro name hnone
        have hnot : name ∉ Dict.keys held.tensors := fun hmem =>
          hnone file List.mem_cons_self ((hheld name).mp hmem)
        obtain ⟨hseen, hsize⟩ := hothers name fun later hlater =>
          hnone later (List.mem_cons_of_mem _ hlater)
        rw [hseen, hsize, Dict.get?_update_of_not_mem (by simpa using hnot),
          Dict.get?_update_of_not_mem (by simpa using hnot)]
        exact ⟨rfl, rfl⟩

/-! ## Units -/

/-- The payload key of a shared group. -/
def groupKey (layer : ℕ) : SharedGroup → String
  | .gateUpSuh =>
      s!"model.layers.{layer}.mlp.experts" ++ ".r7_shared.gate_up_suh"
  | .downSvh => s!"model.layers.{layer}.mlp.experts" ++ ".r7_shared.down_svh"

theorem Slot.key_of_shared {slot : Slot} {group : SharedGroup} {layer : ℕ}
    (hscope : slot.scope = .layerShared)
    (hgroup : sharedGroup slot.1.projection slot.2 = .ok group) :
    slot.key layer = groupKey layer group := by
  rw [Slot.key, hscope]
  revert hgroup
  cases slot.1.projection <;> cases slot.2 <;> intro hgroup <;>
    first | cases hgroup; rfl | cases hgroup

/-- The shared group of a slot of some layer. -/
def SharesGroup (slot : ℕ × Slot) (key : ℕ × SharedGroup) : Prop :=
  slot.1 = key.1 ∧ slot.2.scope = .layerShared ∧
    sharedGroup slot.2.1.projection slot.2.2 = .ok key.2

/-- The totals of these slots, at the sizes of the tensors under their
keys. -/
structure TotalsOf (tensorNbytes : Dict String ℕ) (slots : List (ℕ × Slot))
    (totals : Totals) : Prop where
  privateBytes : totals.privateBytes = privateBytes (slots.map Prod.snd)
  nodup : (Dict.keys totals.shared).Nodup
  object : ∀ key object, totals.shared.get? key = some object →
    object.1 = groupKey key.1 key.2 ∧
      tensorNbytes.get? object.1 = some object.2
  keys : ∀ key, key ∈ Dict.keys totals.shared ↔
    ∃ slot ∈ slots, SharesGroup slot key

section

variable {tensorNbytes : Dict String ℕ} {slots : List (ℕ × Slot)}
  {totals : Totals} {layer : ℕ} {choice : Choice}

theorem TotalsOf.addPrivate (layer : ℕ) (slot : Slot) {size : ℤ}
    (htotals : TotalsOf tensorNbytes slots totals)
    (hscope : slot.scope = .expertPrivate) (hsize : size = slot.ref.bytes) :
    TotalsOf tensorNbytes (slots ++ [(layer, slot)])
      { totals with privateBytes := totals.privateBytes + size } := by
  refine ⟨?_, htotals.nodup, htotals.object, ?_⟩
  · change totals.privateBytes + size = _
    rw [htotals.privateBytes, Checkpoint.privateBytes, Checkpoint.privateBytes,
      List.map_append, List.filter_append, List.map_append, List.sum_append,
      hsize]
    simp [hscope]
  · intro key
    rw [htotals.keys]
    constructor
    · rintro ⟨other, hmem, hshares⟩
      exact ⟨other, List.mem_append_left _ hmem, hshares⟩
    · rintro ⟨other, hmem, hshares⟩
      rcases List.mem_append.mp hmem with hold | hlast
      · exact ⟨other, hold, hshares⟩
      · rw [List.mem_singleton.mp hlast] at hshares
        cases hscope.symm.trans hshares.2.1

theorem chargeVector_totals {role : Role} (object : String × ℕ)
    (keys : Dict Role String) (htotals : TotalsOf tensorNbytes slots totals)
    (hkey : object.1 = Slot.key (choice, role) layer)
    (hsize : tensorNbytes.get? object.1 = some object.2)
    (hbytes : (object.2 : ℤ) = (choice.objects.ref role).bytes)
    (hlegal : Slot.scope (choice, role) = .layerShared →
      ∃ shared, Slot.Holds (choice, role) shared) :
    ∃ next, chargeVector (unitRecord layer choice keys) role object totals =
        (next, none) ∧
      TotalsOf tensorNbytes (slots ++ [(layer, (choice, role))]) next ∧
      next.logical = totals.logical := by
  cases hscope : choice.vectorTopology.scope role with
  | expertPrivate =>
      refine ⟨{ totals with
        privateBytes := totals.privateBytes + object.2 }, ?_,
        htotals.addPrivate layer (choice, role) hscope hbytes, rfl⟩
      simp only [chargeVector, unitRecord, hscope]
  | layerShared =>
      obtain ⟨shared, -, hgroup, -, -⟩ := hlegal hscope
      have hown : object.1 = groupKey layer shared.sharedGroup :=
        hkey.trans (Slot.key_of_shared hscope hgroup)
      have hheld : (totals.shared.setDefault (layer, shared.sharedGroup)
          object).get? (layer, shared.sharedGroup) = some object := by
        rw [Dict.get?_setDefault, if_pos rfl]
        cases hold : totals.shared.get? (layer, shared.sharedGroup) with
        | none => rfl
        | some incumbent =>
            obtain ⟨hname, hheldSize⟩ := htotals.object _ _ hold
            have hname' : incumbent.1 = object.1 := hname.trans hown.symm
            rw [hname', hsize, Option.some.injEq] at hheldSize
            rw [Option.some_or, Prod.ext hname' hheldSize.symm]
      refine ⟨{ totals with shared :=
        totals.shared.setDefault (layer, shared.sharedGroup) object }, ?_,
        ⟨?_, Dict.nodup_keys_setDefault htotals.nodup, ?_, ?_⟩, rfl⟩
      · have hgroup' : sharedGroup choice.projection role =
            .ok shared.sharedGroup := hgroup
        simp only [chargeVector, unitRecord, hscope, hgroup', hheld, if_true]
      · have hslot : Slot.scope (choice, role) = .layerShared := hscope
        rw [htotals.privateBytes, privateBytes, privateBytes, List.map_append,
          List.filter_append, List.map_append, List.sum_append]
        simp [hslot]
      · intro key found hget
        rw [Dict.get?_setDefault] at hget
        cases hold : totals.shared.get? key with
        | some incumbent =>
            rw [hold, Option.some_or, Option.some.injEq] at hget
            rw [← hget]
            exact htotals.object key incumbent hold
        | none =>
            rw [hold, Option.none_or] at hget
            split at hget
            · rename_i heq
              rw [← Option.some.inj hget, heq]
              exact ⟨hown, hsize⟩
            · cases hget
      · intro key
        rw [Dict.mem_keys_setDefault, htotals.keys]
        constructor
        · rintro (rfl | ⟨other, hmem, hshares⟩)
          · exact ⟨_, List.mem_append_right _ List.mem_cons_self, rfl, hscope,
              hgroup⟩
          · exact ⟨other, List.mem_append_left _ hmem, hshares⟩
        · rintro ⟨other, hmem, hshares⟩
          rcases List.mem_append.mp hmem with hold | hlast
          · exact .inr ⟨other, hold, hshares⟩
          · rw [List.mem_singleton.mp hlast] at hshares
            exact .inl (Prod.ext hshares.1.symm
              (Except.ok.inj (hshares.2.2.symm.trans hgroup)))

/-- The slot's tensor is found under its key with the recorded size. -/
def Sized (tensorNbytes : Dict String ℕ) (layer : ℕ) (slot : Slot) : Prop :=
  ∃ size, tensorNbytes.get? (slot.key layer) = some size ∧
    (size : ℤ) = slot.ref.bytes

theorem unitObject_eq {role : Role} {size : ℕ} (hrole : role ∈ payloadRoles)
    (hsize : tensorNbytes.get? (Slot.key (choice, role) layer) = some size) :
    unitObject tensorNbytes (unitRecord layer choice (choiceKeys layer choice))
      role = .ok (Slot.key (choice, role) layer, size) := by
  have hkey : (choiceKeys layer choice).get? role =
      some (Slot.key (choice, role) layer) := by
    cases role <;> first | rfl | exact absurd hrole (by decide)
  simp only [unitObject, unitRecord, hkey, hsize]

theorem mem_choiceSlots {role : Role} (hrole : role ∈ payloadRoles) :
    (choice, role) ∈ choiceSlots choice :=
  List.mem_map.mpr ⟨role, hrole, rfl⟩

/-- One unit adds its three slots, and no error stops it. -/
theorem chargeUnit_totals (htotals : TotalsOf tensorNbytes slots totals)
    (hsized : ∀ slot ∈ choiceSlots choice, Sized tensorNbytes layer slot)
    (hlegal : ∀ slot ∈ choiceSlots choice, slot.scope = .layerShared →
      ∃ shared, slot.Holds shared)
    (hlogical : choice.logicalPayloadBytes = choice.objects.logicalBytes) :
    ∃ next, chargeUnit tensorNbytes
        (unitRecord layer choice (choiceKeys layer choice)) totals =
          (next, none) ∧
      TotalsOf tensorNbytes
        (slots ++ (choiceSlots choice).map fun slot => (layer, slot)) next ∧
      next.logical = totals.logical + choice.logicalPayloadBytes := by
  have htrellisMem : Role.trellis ∈ payloadRoles := by decide
  have hsuhMem : Role.suh ∈ payloadRoles := by decide
  have hsvhMem : Role.svh ∈ payloadRoles := by decide
  obtain ⟨trellis, htrellis, htrellisBytes⟩ :=
    hsized _ (mem_choiceSlots htrellisMem)
  obtain ⟨suh, hsuh, hsuhBytes⟩ := hsized _ (mem_choiceSlots hsuhMem)
  obtain ⟨svh, hsvh, hsvhBytes⟩ := hsized _ (mem_choiceSlots hsvhMem)
  have hsum : (trellis : ℤ) + suh + svh = choice.logicalPayloadBytes := by
    rw [hlogical, ChoiceObjects.logicalBytes, htrellisBytes, hsuhBytes,
      hsvhBytes]
    simp only [payloadRoles, List.map_cons, List.map_nil, List.sum_cons,
      List.sum_nil, add_zero, add_assoc]
    rfl
  have hstart : TotalsOf tensorNbytes (slots ++ [(layer, (choice, .trellis))])
      { totals with
        logical := totals.logical + (trellis + suh + svh)
        privateBytes := totals.privateBytes + trellis } := by
    have hadded := htotals.addPrivate layer (choice, .trellis) rfl htrellisBytes
    exact ⟨hadded.privateBytes, hadded.nodup, hadded.object, hadded.keys⟩
  obtain ⟨middle, hfirst, hmiddle, hsame⟩ :=
    chargeVector_totals (Slot.key (choice, .suh) layer, suh)
      (choiceKeys layer choice) hstart rfl hsuh hsuhBytes (hlegal _ (mem_choiceSlots hsuhMem))
  obtain ⟨next, hsecond, hnext, hsame'⟩ :=
    chargeVector_totals (Slot.key (choice, .svh) layer, svh)
      (choiceKeys layer choice) hmiddle rfl hsvh hsvhBytes (hlegal _ (mem_choiceSlots hsvhMem))
  refine ⟨next, ?_, ?_, ?_⟩
  · have hparity : ¬((trellis : ℤ) + suh + svh ≠ (unitRecord layer choice
        (choiceKeys layer choice)).logicalPayloadBytes) :=
      not_not.mpr hsum
    simp only [chargeUnit, unitObject_eq htrellisMem htrellis,
      unitObject_eq hsuhMem hsuh, unitObject_eq hsvhMem hsvh, if_neg hparity,
      chargeVectors, hfirst, hsecond]
  · rw [List.append_assoc, List.append_assoc] at hnext
    exact hnext
  · rw [hsame', hsame, hsum]

/-- The slots of these units. -/
def unitSlots (units : List (ℕ × Choice)) : List (ℕ × Slot) :=
  units.flatMap fun unit => (choiceSlots unit.2).map fun slot => (unit.1, slot)

/-- All units add their slots, in whatever order they come. -/
theorem auditUnits_totals {units : List (ℕ × Choice)}
    (hsized : ∀ unit ∈ units, ∀ slot ∈ choiceSlots unit.2,
      Sized tensorNbytes unit.1 slot)
    (hlegal : ∀ unit ∈ units, ∀ slot ∈ choiceSlots unit.2,
      slot.scope = .layerShared → ∃ shared, slot.Holds shared)
    (hlogical : ∀ unit ∈ units,
      unit.2.logicalPayloadBytes = unit.2.objects.logicalBytes) :
    ∃ totals, auditUnits tensorNbytes
        (units.map fun unit => choiceUnit unit.1 unit.2) = (totals, []) ∧
      TotalsOf tensorNbytes (unitSlots units) totals ∧
      totals.logical = (units.map (·.2.logicalPayloadBytes)).sum := by
  induction units using List.reverseRecOn with
  | nil =>
      refine ⟨{ logical := 0, privateBytes := 0, shared := [] }, rfl,
        ⟨rfl, List.nodup_nil, (by rintro _ _ ⟨⟩), fun key => ?_⟩, rfl⟩
      simp [Dict.keys, unitSlots]
  | append_singleton units unit ih =>
      obtain ⟨totals, hrun, htotals, hsum⟩ :=
        ih (fun other hmem => hsized other (List.mem_append_left _ hmem))
          (fun other hmem => hlegal other (List.mem_append_left _ hmem))
          (fun other hmem => hlogical other (List.mem_append_left _ hmem))
      have hlast : unit ∈ units ++ [unit] :=
        List.mem_append_right _ List.mem_cons_self
      obtain ⟨next, hunit, hnext, hadded⟩ := chargeUnit_totals htotals
        (hsized unit hlast) (hlegal unit hlast) (hlogical unit hlast)
      refine ⟨next, ?_, ?_, ?_⟩
      · rw [auditUnits] at hrun ⊢
        rw [List.map_append, List.foldl_append, hrun]
        simp only [List.map_cons, List.map_nil, List.foldl_cons,
          List.foldl_nil, auditUnit, choiceUnit, hunit]
        rfl
      · rw [unitSlots, List.flatMap_append, List.flatMap_singleton]
        exact hnext
      · rw [hadded, hsum, List.map_append, List.sum_append, List.map_singleton,
          List.sum_singleton]

/-! ## The sums -/

/-- A list in the order of another list's images is itself a list of images. -/
theorem exists_map_of_perm {A B : Type*} {function : A → B} {items : List A}
    {list : List B} (hperm : list.Perm (items.map function)) :
    ∃ others : List A, others.Perm items ∧ list = others.map function := by
  have hpairs : List.Forall₂ (fun value item => value = function item)
      (items.map function) items := by
    rw [List.forall₂_map_left_iff]
    exact List.forall₂_same.mpr fun _ _ => rfl
  obtain ⟨others, hothers, hperm'⟩ := List.perm_comp_forall₂ hperm hpairs
  refine ⟨others, hperm', ?_⟩
  rw [← List.forall₂_eq_eq_eq, List.forall₂_map_right_iff]
  exact hothers

/-- The units of the installed layers, each with its layer. -/
def installedPairs (installed : List Installed) : List (ℕ × Choice) :=
  installed.flatMap fun item =>
    item.2.choices.map fun choice => (item.2.layer, choice)

theorem mem_installedPairs {installed : List Installed} {unit : ℕ × Choice}
    (hmem : unit ∈ installedPairs installed) : ∃ item ∈ installed,
      item.2.layer = unit.1 ∧ unit.2 ∈ item.2.choices := by
  obtain ⟨item, hitem, hpair⟩ := List.mem_flatMap.mp hmem
  obtain ⟨choice, hchoice, rfl⟩ := List.mem_map.mp hpair
  exact ⟨item, hitem, rfl, hchoice⟩

theorem unitSlots_installedPairs (installed : List Installed) :
    unitSlots (installedPairs installed) = installed.flatMap fun item =>
      (layerSlots item.2.choices).map fun slot => (item.2.layer, slot) := by
  simp only [unitSlots, installedPairs, layerSlots, List.flatMap_assoc,
    List.flatMap_map, List.map_flatMap]

theorem privateBytes_append (first second : List Slot) :
    privateBytes (first ++ second) =
      privateBytes first + privateBytes second := by
  rw [privateBytes, List.filter_append, List.map_append, List.sum_append]
  rfl

theorem privateBytes_perm {first second : List Slot}
    (hperm : first.Perm second) : privateBytes first = privateBytes second :=
  ((hperm.filter _).map _).sum_eq

theorem privateBytes_flatMap (installed : List Installed) :
    privateBytes (installed.flatMap fun item => layerSlots item.2.choices) =
      (installed.map fun item =>
        privateBytes (layerSlots item.2.choices)).sum := by
  induction installed with
  | nil => rfl
  | cons item installed ih =>
      rw [List.flatMap_cons, privateBytes_append, ih, List.map_cons,
        List.sum_cons]

variable {installed : List Installed} {hashing : LayerHashing}

/-- The shared groups of the installed layers. -/
def installedGroups (installed : List Installed) : List (ℕ × SharedGroup) :=
  installed.flatMap fun item =>
    item.2.costBreakdown.semanticLayerSharedObjects.map fun object =>
      (item.2.layer, object.sharedGroup)

theorem nodup_installedGroups
    (haccepted : ∀ item ∈ installed, AcceptedLayer hashing item.1 item.2)
    (hlayers : (installedLayers installed).Nodup) :
    (installedGroups installed).Nodup := by
  refine List.nodup_flatMap.mpr ⟨?_, ?_⟩
  · intro item hitem
    have hpairs := (haccepted item hitem).cost.groups.map
      (Prod.mk_right_injective item.2.layer)
    rw [List.map_map] at hpairs
    exact hpairs
  · refine (List.pairwise_map.mp hlayers).imp ?_
    intro first second hne key hfirst hsecond
    obtain ⟨object, -, rfl⟩ := List.mem_map.mp hfirst
    obtain ⟨other, -, hother⟩ := List.mem_map.mp hsecond
    exact hne (Prod.mk.inj hother).1.symm

/-- Every group that a slot shares is among the groups of its layer's cost. -/
theorem mem_installedGroups
    (haccepted : ∀ item ∈ installed, AcceptedLayer hashing item.1 item.2)
    (key : ℕ × SharedGroup) : key ∈ installedGroups installed ↔
      ∃ slot ∈ unitSlots (installedPairs installed), SharesGroup slot key := by
  rw [unitSlots_installedPairs]
  constructor
  · intro hmem
    obtain ⟨item, hitem, hkey⟩ := List.mem_flatMap.mp hmem
    obtain ⟨object, hobject, rfl⟩ := List.mem_map.mp hkey
    obtain ⟨slot, hslot, hholds⟩ :=
      ((haccepted item hitem).cost.shared object).mp hobject
    exact ⟨(item.2.layer, slot), List.mem_flatMap.mpr ⟨item, hitem,
      List.mem_map_of_mem hslot⟩, rfl, hholds.1, hholds.2.1⟩
  · rintro ⟨⟨layer, slot⟩, hmem, hlayer, hscope, hgroup⟩
    obtain ⟨item, hitem, hslot⟩ := List.mem_flatMap.mp hmem
    obtain ⟨slot, hslot, heq⟩ := List.mem_map.mp hslot
    cases heq
    have hcost := (haccepted item hitem).cost
    obtain ⟨object, hholds⟩ := hcost.legal slot hslot hscope
    refine List.mem_flatMap.mpr ⟨item, hitem, List.mem_map.mpr
      ⟨object, (hcost.shared object).mpr ⟨slot, hslot, hholds⟩, ?_⟩⟩
    exact Prod.ext hlayer
      (Except.ok.inj (hholds.2.1.symm.trans hgroup))

/-- The audit's total is the sum of the installed costs. -/
theorem allocated_totals {units : List (ℕ × Choice)}
    (haccepted : ∀ item ∈ installed, AcceptedLayer hashing item.1 item.2)
    (hlayers : (installedLayers installed).Nodup)
    (hsized : ∀ item ∈ installed, ∀ slot ∈ layerSlots item.2.choices,
      Sized tensorNbytes item.2.layer slot)
    (hperm : units.Perm (installedPairs installed))
    (htotals : TotalsOf tensorNbytes (unitSlots units) totals) :
    totals.allocated =
      (installed.map fun item => item.2.allocatedPayloadBytes).sum := by
  have hslots : (unitSlots units).Perm (unitSlots (installedPairs installed)) :=
    hperm.flatMap_right _
  have hprivate : totals.privateBytes = (installed.map fun item =>
      item.2.costBreakdown.semanticExpertPrivateBytes).sum := by
    rw [htotals.privateBytes, privateBytes_perm (hslots.map Prod.snd),
      unitSlots_installedPairs, List.map_flatMap]
    simp only [List.map_map, Function.comp_def, List.map_id']
    rw [privateBytes_flatMap]
    exact congrArg List.sum (List.map_congr_left fun item hitem =>
      (haccepted item hitem).cost.privateBytes.symm)
  -- both sides sum the sizes of the same groups
  let size : ℕ × SharedGroup → ℤ := fun key =>
    ((tensorNbytes.get? (groupKey key.1 key.2)).getD 0 : ℕ)
  have hkeys : (Dict.keys totals.shared).Perm (installedGroups installed) := by
    refine (List.perm_ext_iff_of_nodup htotals.nodup
      (nodup_installedGroups haccepted hlayers)).mpr fun key => ?_
    rw [htotals.keys, mem_installedGroups haccepted]
    constructor
    · rintro ⟨slot, hmem, hshares⟩
      exact ⟨slot, hslots.mem_iff.mp hmem, hshares⟩
    · rintro ⟨slot, hmem, hshares⟩
      exact ⟨slot, hslots.mem_iff.mpr hmem, hshares⟩
  have hshared : (totals.shared.map fun item => (item.2.2 : ℤ)).sum =
      ((Dict.keys totals.shared).map size).sum := by
    rw [Dict.keys, List.map_map]
    refine congrArg List.sum (List.map_congr_left fun item hitem => ?_)
    obtain ⟨hname, hsize⟩ := htotals.object item.1 item.2
      (Dict.get?_of_mem htotals.nodup hitem)
    rw [hname] at hsize
    simp [size, hsize]
  have hgroups : ((installedGroups installed).map size).sum =
      (installed.map fun item =>
        item.2.costBreakdown.semanticLayerSharedBytes).sum := by
    rw [installedGroups, List.map_flatMap, List.flatMap_def, List.sum_flatten,
      List.map_map]
    refine congrArg List.sum (List.map_congr_left fun item hitem => ?_)
    have hcost := (haccepted item hitem).cost
    rw [hcost.sharedBytes, Function.comp_apply, List.map_map]
    refine congrArg List.sum (List.map_congr_left fun object hobject => ?_)
    obtain ⟨slot, hslot, hscope, hgroup, -, hbytes⟩ :=
      (hcost.shared object).mp hobject
    obtain ⟨held, hheld, hheldBytes⟩ := hsized item hitem slot hslot
    rw [Slot.key_of_shared hscope hgroup] at hheld
    change (((tensorNbytes.get? (groupKey item.2.layer
      object.sharedGroup)).getD 0 : ℕ) : ℤ) = object.bytes
    rw [hheld, Option.getD_some, hheldBytes, hbytes]
  rw [Totals.allocated, hprivate, hshared, (hkeys.map size).sum_eq, hgroups,
    ← List.sum_map_add]
  refine congrArg List.sum (List.map_congr_left fun item hitem => ?_)
  rw [(haccepted item hitem).allocated, (haccepted item hitem).cost.allocated]

end

end GlmFlash.Checkpoint
