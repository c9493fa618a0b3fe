import GlmFlash.Worker.BlockTables

/-!
# Rows under staged writes

The writes staged in a tensor are read back from its four lists.  When they go to
different rows, each row holds its own write after the kernel has run, whatever the
order of the programs, and the fused kernel leaves what the kernels of the single
tensors would have left.
-/

namespace GlmFlash.Worker.BlockTable

open GlmFlash.Library

/-! ## Launches -/

namespace Schedule

variable (schedule : Schedule) (kernel : BlockKernel) {count index : ℕ}

theorem nodup_order : (schedule.order kernel count).Nodup :=
  (schedule.order_perm kernel count).nodup_iff.mpr List.nodup_range

theorem mem_order : index ∈ schedule.order kernel count ↔ index < count := by
  rw [(schedule.order_perm kernel count).mem_iff, List.mem_range]

variable {S : Type*} {program : ℕ → S → S} {kept : S → Prop} {fresh done : ℕ → S → Prop}
  {state : S}

theorem launch_keeps (hkept : ∀ index < count, ∀ state, kept state → kept (program index state))
    (hbefore : kept state) : kept (schedule.launch kernel count program state) :=
  @Library.launch_keeps S (schedule.order kernel count) program (fun _ _ => True) kept
    (schedule.nodup_order kernel) (fun _ _ _ _ _ _ _ _ => trivial)
    (fun index hindex state _ => hkept index ((schedule.mem_order kernel).mp hindex) state)
    state (fun _ _ => trivial) hbefore

/-- Every program starts on its own part as the launch found it, and no other program
touches what it leaves there. -/
theorem launch_establishes
    (hfresh : ∀ index < count, ∀ other < count, other ≠ index → ∀ state,
      fresh other state → fresh other (program index state))
    (hdone : ∀ index < count, ∀ other < count, other ≠ index → ∀ state,
      done other state → done other (program index state))
    (hown : ∀ index < count, ∀ state, fresh index state → done index (program index state))
    (hstart : ∀ index < count, fresh index state) (hindex : index < count) :
    done index (schedule.launch kernel count program state) := by
  have hmem : ∀ {index}, index ∈ schedule.order kernel count → index < count :=
    (schedule.mem_order kernel).mp
  exact Library.launch_establishes (schedule.nodup_order kernel)
    (fun index hindex other hother hne state _ hstate =>
      hfresh index (hmem hindex) other (hmem hother) hne state hstate)
    (fun index hindex other hother hne state _ hstate =>
      hdone index (hmem hindex) other (hmem hother) hne state hstate)
    (fun index hindex => hown index (hmem hindex))
    (fun index hindex => hstart index (hmem hindex))
    ((schedule.mem_order kernel).mpr hindex)

/-- Programs that each change one row, and different ones: a row that no program owns
is left alone, and the others are changed once. -/
theorem launch_rows {K : Type*} [DecidableEq K] {view : S → K → ℕ → ℤ} {valid : K → ℕ → Prop}
    {key : ℕ → K} {change : ℕ → ℕ → ℤ → ℤ}
    (hprogram : ∀ index < count, ∀ state row col, valid row col →
      view (program index state) row col =
        if row = key index then change index col (view state row col) else view state row col)
    (hkeys : ∀ index < count, ∀ other < count, key index = key other → index = other) :
    (∀ row, (∀ index < count, row ≠ key index) → ∀ col, valid row col →
      view (schedule.launch kernel count program state) row col = view state row col) ∧
    ∀ index < count, ∀ col, valid (key index) col →
      view (schedule.launch kernel count program state) (key index) col =
        change index col (view state (key index) col) := by
  constructor
  · intro row hfree
    refine @launch_keeps schedule kernel count S program
      (fun after => ∀ col, valid row col → view after row col = view state row col) state ?_
      fun _ _ => rfl
    intro index hindex after hafter col hcol
    rw [hprogram index hindex after row col hcol, if_neg (hfree index hindex), hafter col hcol]
  · intro index hindex
    have hother : ∀ index < count, ∀ other < count, other ≠ index → ∀ after col,
        valid (key other) col →
          view (program index after) (key other) col = view after (key other) col := by
      intro index hindex other hother hne after col hcol
      rw [hprogram index hindex after _ col hcol,
        if_neg fun heq => hne (hkeys other hother index hindex heq)]
    refine @launch_establishes schedule kernel count index S program
      (fun index after => ∀ col, valid (key index) col →
        view after (key index) col = view state (key index) col)
      (fun index after => ∀ col, valid (key index) col →
        view after (key index) col = change index col (view state (key index) col))
      state ?_ ?_ ?_ (fun _ _ _ _ => rfl) hindex
    · intro index hindex other hother' hne after hafter col hcol
      rw [hother index hindex other hother' hne after col hcol, hafter col hcol]
    · intro index hindex other hother' hne after hafter col hcol
      rw [hother index hindex other hother' hne after col hcol, hafter col hcol]
    · intro index hindex after hafter col hcol
      rw [hprogram index hindex after _ col hcol, if_pos rfl, hafter col hcol]

end Schedule

/-! ## Rows -/

/-- A row of a tensor. -/
def rowOf (tensor : Tensor) (numCols row col : ℕ) : ℤ :=
  tensor (row * numCols + col : ℕ)

/-- One staged write. -/
structure Write where
  row : ℕ
  start : ℕ
  ids : List ℤ

/-- What a write leaves in a column of its row. -/
def Write.put (write : Write) (col : ℕ) (before : ℤ) : ℤ :=
  if write.start ≤ col ∧ col < write.start + write.ids.length then
    write.ids.getD (col - write.start) 0
  else before

/-- The four lists hold these writes. -/
structure StagedWrites.Holds (staged : StagedWrites) (writes : List Write) : Prop where
  indices : staged.indices = writes.map (·.row)
  starts : staged.starts = writes.map (·.start)
  contents : staged.contents = (writes.map (·.ids)).flatten
  cuLens : staged.cuLens = segmentEnds 0 (writes.map (·.ids))

theorem noWrites_holds : noWrites.Holds [] where
  indices := rfl
  starts := rfl
  contents := rfl
  cuLens := rfl

namespace StagedWrites.Holds

variable {staged : StagedWrites} {writes : List Write} (holds : staged.Holds writes)
include holds

theorem indices_eq_nil : staged.indices = [] ↔ writes = [] := by
  rw [holds.indices, List.map_eq_nil_iff]

theorem length_indices : staged.indices.length = writes.length := by
  rw [holds.indices, List.length_map]

end StagedWrites.Holds

/-- Rows of different numbers do not meet. -/
theorem row_eq_of_cell {numCols row row' col col' : ℕ} (hcol : col < numCols)
    (hcol' : col' < numCols) (hcell : row * numCols + col = row' * numCols + col') :
    row = row' ∧ col = col' := by
  have hpos : 0 < numCols := (Nat.zero_le _).trans_lt hcol
  have hdiv : ∀ {row col : ℕ}, col < numCols → (row * numCols + col) / numCols = row := by
    intro row col hcol
    rw [Nat.mul_comm, Nat.mul_add_div hpos, Nat.div_eq_of_lt hcol, Nat.add_zero]
  have hrow : row = row' :=
    calc row = (row * numCols + col) / numCols := (hdiv hcol).symm
      _ = (row' * numCols + col') / numCols := by rw [hcell]
      _ = row' := hdiv hcol'
  subst hrow
  exact ⟨rfl, Nat.add_left_cancel hcell⟩

variable {staged : StagedWrites} {writes : List Write} {numRows numCols pid : ℕ}
  {tensor : Tensor}

/-- A program of the kernel changes its own row only, and that as its write says. -/
theorem rowOf_applyWriteKernel (hholds : staged.Holds writes) (hpid : pid < writes.length)
    (hrow : writes[pid].row < numRows) {row col : ℕ} (hcol : col < numCols) :
    rowOf (applyWriteKernel staged numRows numCols pid tensor) numCols row col =
      if row = writes[pid].row then writes[pid].put col (rowOf tensor numCols row col)
      else rowOf tensor numCols row col := by
  have hsegment : pid < (writes.map (·.ids)).length := by rwa [List.length_map]
  have hindex : staged.indices.getD pid 0 = writes[pid].row := by
    rw [hholds.indices, List.getD_eq_getElem _ _ (by rwa [List.length_map]), List.getElem_map]
  have hstart : staged.starts.getD pid 0 = writes[pid].start := by
    rw [hholds.starts, List.getD_eq_getElem _ _ (by rwa [List.length_map]), List.getElem_map]
  have hlength : staged.cuLens.getD pid 0 - segmentStart staged.cuLens pid =
      writes[pid].ids.length := by
    rw [hholds.cuLens, segmentEnd_sub_segmentStart hsegment, List.getElem_map]
  have hlane : ∀ lane, lane ∈ (blockLanes writes[pid].ids.length 1024).filter
      (fun lane => decide (writes[pid].start + lane < numCols ∧ writes[pid].row < numRows)) ↔
        lane < writes[pid].ids.length ∧ writes[pid].start + lane < numCols := by
    intro lane
    rw [List.mem_filter, mem_blockLanes (Nat.succ_pos _), decide_eq_true_eq,
      and_iff_left hrow]
  rw [rowOf, applyWriteKernel, hindex, hstart, hlength]
  by_cases hown : row = writes[pid].row ∧
      writes[pid].start ≤ col ∧ col < writes[pid].start + writes[pid].ids.length
  · obtain ⟨rfl, hle, hlt⟩ := hown
    have hoffset : col - writes[pid].start < writes[pid].ids.length := by omega
    have hcell : ((writes[pid].row * numCols + col : ℕ) : ℤ) =
        (writes[pid].row * numCols + writes[pid].start + (col - writes[pid].start) : ℕ) := by
      rw [Nat.add_assoc, Nat.add_sub_cancel' hle]
    have hinjective : Function.Injective fun lane =>
        ((writes[pid].row * numCols + writes[pid].start + lane : ℕ) : ℤ) :=
      fun _ _ heq => Nat.add_left_cancel (Int.ofNat_inj.mp heq)
    rw [if_pos rfl, Write.put, if_pos ⟨hle, hlt⟩, hcell]
    rw [@storeLanes_apply _ _ _
      (fun lane => ((writes[pid].row * numCols + writes[pid].start + lane : ℕ) : ℤ)) _
      hinjective _ ((hlane _).mpr ⟨hoffset, by omega⟩)]
    rw [hholds.contents, hholds.cuLens, getD_flatten_segment hsegment
      (by rwa [List.getElem_map]), List.getElem_map]
  · have hmissed : storeLanes tensor
        ((blockLanes writes[pid].ids.length 1024).filter fun lane =>
          decide (writes[pid].start + lane < numCols ∧ writes[pid].row < numRows))
        (fun lane => ((writes[pid].row * numCols + writes[pid].start + lane : ℕ) : ℤ))
        (fun lane => staged.contents.getD (segmentStart staged.cuLens pid + lane) 0)
        (row * numCols + col : ℕ) = tensor (row * numCols + col : ℕ) := by
      refine storeLanes_of_ne fun lane hmem heq => hown ?_
      obtain ⟨hlt, hfits⟩ := (hlane lane).mp hmem
      rw [Nat.add_assoc] at heq
      have hcell := row_eq_of_cell hcol hfits (Int.ofNat_inj.mp heq)
      exact ⟨hcell.1, by omega, by omega⟩
    rw [hmissed]
    by_cases hsame : row = writes[pid].row
    · rw [if_pos hsame, Write.put, if_neg fun hbounds => hown ⟨hsame, hbounds⟩, rowOf]
    · rw [if_neg hsame, rowOf]

/-! ## One tensor -/

/-- A tensor whose staged writes are these, each for a row of its own. -/
structure StagedWriteTensor.Stages (tensor : StagedWriteTensor) (writes : List Write) :
    Prop where
  holds : tensor.staged.Holds writes
  nodup : (writes.map (·.row)).Nodup
  rows : ∀ write ∈ writes, write.row < tensor.numRows

/-- The rows of a tensor once its staged writes have landed. -/
def landed (writes : List Write) (before : ℕ → ℕ → ℤ) (row col : ℕ) : ℤ :=
  match writes.find? (·.row = row) with
  | some write => write.put col (before row col)
  | none => before row col

theorem landed_of_mem {writes : List Write} {write : Write}
    (hnodup : (writes.map (·.row)).Nodup) (hmem : write ∈ writes) (before : ℕ → ℕ → ℤ)
    (col : ℕ) : landed writes before write.row col = write.put col (before write.row col) := by
  have hfind : writes.find? (·.row = write.row) = some write := by
    induction writes with
    | nil => cases hmem
    | cons head writes ih =>
        rw [List.map_cons, List.nodup_cons] at hnodup
        rcases List.mem_cons.mp hmem with rfl | hrest
        · rw [List.find?_cons_of_pos (by simp)]
        · have hne : head.row ≠ write.row := fun heq =>
            hnodup.1 (heq ▸ List.mem_map_of_mem hrest)
          rw [List.find?_cons_of_neg (by simpa using hne)]
          exact ih hnodup.2 hrest
  rw [landed, hfind]

theorem landed_of_notMem {writes : List Write} {row : ℕ}
    (hfree : ∀ write ∈ writes, write.row ≠ row) (before : ℕ → ℕ → ℤ) (col : ℕ) :
    landed writes before row col = before row col := by
  have hfind : writes.find? (·.row = row) = none :=
    List.find?_eq_none.mpr fun write hmem => by simpa using hfree write hmem
  rw [landed, hfind]

/-- The rows of different writes are different. -/
theorem index_eq_of_row {writes : List Write} (hnodup : (writes.map (·.row)).Nodup)
    {index other : ℕ} (hindex : index < writes.length) (hother : other < writes.length)
    (heq : writes[index].row = writes[other].row) : index = other := by
  have hleft : index < (writes.map (·.row)).length := by rwa [List.length_map]
  have hright : other < (writes.map (·.row)).length := by rwa [List.length_map]
  have hmapped : (writes.map (·.row))[index] = (writes.map (·.row))[other] := by
    rw [List.getElem_map, List.getElem_map, heq]
  exact (List.Nodup.getElem_inj_iff hnodup).mp hmapped

/-- There are no more writes than rows. -/
theorem StagedWriteTensor.Stages.length_le {tensor : StagedWriteTensor} {writes : List Write}
    (hstages : tensor.Stages writes) : writes.length ≤ tensor.numRows := by
  have hsubset : writes.map (·.row) ⊆ List.range tensor.numRows := by
    intro row hrow
    obtain ⟨write, hmem, rfl⟩ := List.mem_map.mp hrow
    exact List.mem_range.mpr (hstages.rows write hmem)
  simpa using (hstages.nodup.subperm hsubset).length_le

/-- A tensor after its staged writes have landed. -/
structure Wrote (writes : List Write) (before after : StagedWriteTensor) : Prop where
  numRows : after.numRows = before.numRows
  numCols : after.numCols = before.numCols
  staged : after.staged = noWrites
  rows : ∀ row, ∀ col < before.numCols, rowOf after.gpu before.numCols row col =
    landed writes (rowOf before.gpu before.numCols) row col

theorem wrote_nothing {tensor : StagedWriteTensor} (hholds : tensor.staged.Holds []) :
    Wrote [] tensor tensor where
  numRows := rfl
  numCols := rfl
  staged := by
    have hstaged : tensor.staged =
        ⟨tensor.staged.indices, tensor.staged.starts, tensor.staged.contents,
          tensor.staged.cuLens⟩ := rfl
    rw [hstaged, hholds.indices, hholds.starts, hholds.contents, hholds.cuLens]
    rfl
  rows := fun _ _ _ => rfl

theorem applyWrite_wrote (schedule : Schedule) {tensor : StagedWriteTensor}
    {writes : List Write} (hstages : tensor.Stages writes) :
    ∃ after, tensor.applyWrite schedule = .ok after ∧ Wrote writes tensor after := by
  rw [StagedWriteTensor.applyWrite]
  by_cases hnone : writes = []
  · subst hnone
    rw [if_pos (hstages.holds.indices_eq_nil.mpr rfl)]
    exact ⟨tensor, rfl, wrote_nothing hstages.holds⟩
  · rw [if_neg fun hnil => hnone (hstages.holds.indices_eq_nil.mp hnil),
      hstages.holds.length_indices, require, if_pos hstages.length_le, ok_bind]
    obtain ⟨hfree, hown⟩ := @Schedule.launch_rows schedule .applyWrite writes.length Tensor
      (applyWriteKernel tensor.staged tensor.numRows tensor.numCols) tensor.gpu ℕ _
      (fun tensor' => rowOf tensor' tensor.numCols) (fun _ col => col < tensor.numCols)
      (fun pid => (writes.map (·.row)).getD pid 0)
      (fun pid col before => (writes.getD pid ⟨0, 0, []⟩).put col before) (by
        intro pid hpid state row col hcol
        have hrow := hstages.rows _ (List.getElem_mem hpid)
        rw [rowOf_applyWriteKernel hstages.holds hpid hrow hcol,
          List.getD_eq_getElem _ _ (by rwa [List.length_map]), List.getElem_map,
          List.getD_eq_getElem _ _ hpid]) (by
        intro index hindex other hother heq
        rw [List.getD_eq_getElem _ _ (by rwa [List.length_map]), List.getElem_map,
          List.getD_eq_getElem _ _ (by rwa [List.length_map]), List.getElem_map] at heq
        exact index_eq_of_row hstages.nodup hindex hother heq)
    refine ⟨_, rfl, rfl, rfl, rfl, ?_⟩
    intro row col hcol
    by_cases hwritten : ∃ write ∈ writes, write.row = row
    · obtain ⟨write, hmem, rfl⟩ := hwritten
      obtain ⟨pid, hpid, rfl⟩ := List.getElem_of_mem hmem
      have hkey : (writes.map (·.row)).getD pid 0 = writes[pid].row := by
        rw [List.getD_eq_getElem _ _ (by rwa [List.length_map]), List.getElem_map]
      have hlanded := hown pid hpid col hcol
      rw [hkey, List.getD_eq_getElem _ _ hpid] at hlanded
      rw [landed_of_mem hstages.nodup hmem]
      exact hlanded
    · rw [landed_of_notMem fun write hmem heq => hwritten ⟨write, hmem, heq⟩]
      refine hfree row ?_ col hcol
      intro pid hpid heq
      rw [List.getD_eq_getElem _ _ (by rwa [List.length_map]), List.getElem_map] at heq
      exact hwritten ⟨_, List.getElem_mem hpid, heq.symm⟩

/-! ## Several tensors -/

/-- The fused lists hold these writes, each with its group. -/
structure FusedWrites.Holds (fused : FusedWrites) (writes : List (ℕ × Write)) : Prop where
  groupIds : fused.groupIds = writes.map (·.1)
  holds : fused.writes.Holds (writes.map (·.2))

theorem addTensor_holds {fused : FusedWrites} {before : List (ℕ × Write)}
    (hfused : fused.Holds before) {group : StagedWriteTensor × ℕ} {writes : List Write}
    (hgroup : group.1.staged.Holds writes) :
    (addTensor fused group).Holds (before ++ writes.map (group.2, ·)) := by
  rw [addTensor]
  by_cases hnone : writes = []
  · rw [if_pos (hgroup.indices_eq_nil.mpr hnone), hnone, List.map_nil, List.append_nil]
    exact hfused
  · rw [if_neg fun hnil => hnone (hgroup.indices_eq_nil.mp hnil)]
    have hsnd : (before ++ writes.map (group.2, ·)).map (·.2) =
        before.map (·.2) ++ writes := by
      rw [List.map_append, List.map_map]
      exact congrArg _ (List.map_id' writes)
    refine ⟨?_, ?_, ?_, ?_, ?_⟩
    · have hgroupIds : (writes.map (group.2, ·)).map (·.1) =
          List.replicate writes.length group.2 := by
        rw [List.map_map]
        exact List.map_const'
      rw [hfused.groupIds, hgroup.length_indices, List.map_append, hgroupIds]
    · rw [hsnd, List.map_append, hfused.holds.indices, hgroup.indices]
    · rw [hsnd, List.map_append, hfused.holds.starts, hgroup.starts]
    · rw [hsnd, List.map_append, List.flatten_append, hfused.holds.contents, hgroup.contents]
    · rw [hsnd, List.map_append, segmentEnds_append, hfused.holds.cuLens, hgroup.cuLens,
        hfused.holds.contents, Nat.zero_add, ← segmentEnds_add, Nat.add_zero]

/-- The writes of all groups, from a first group on. -/
def groupWrites (staged : ℕ → List Write) (first count : ℕ) : List (ℕ × Write) :=
  (List.range' first count).flatMap fun group => (staged group).map (group, ·)

theorem fuse_holds {tensors : List StagedWriteTensor} {staged : ℕ → List Write}
    (hstaged : ∀ group (hgroup : group < tensors.length),
      tensors[group].staged.Holds (staged group)) :
    (fuse tensors).Holds (groupWrites staged 0 tensors.length) := by
  have hloop : ∀ (rest : List StagedWriteTensor) (first : ℕ) (fused : FusedWrites)
      (before : List (ℕ × Write)), fused.Holds before →
        (∀ group (hgroup : group < rest.length),
          rest[group].staged.Holds (staged (first + group))) →
        ((rest.zipIdx first).foldl addTensor fused).Holds
          (before ++ groupWrites staged first rest.length) := by
    intro rest
    induction rest with
    | nil =>
        intro first fused before hfused _
        rw [groupWrites, List.length_nil, List.range'_zero, List.flatMap_nil, List.append_nil]
        exact hfused
    | cons tensor rest ih =>
        intro first fused before hfused hrest
        have hhead : tensor.staged.Holds (staged first) := hrest 0 (Nat.succ_pos _)
        have hnext := ih (first + 1) _ _ (addTensor_holds hfused
          (show ((tensor, first).1).staged.Holds (staged first) from hhead)) (by
            intro group hgroup
            have htail := hrest (group + 1) (Nat.succ_lt_succ hgroup)
            rwa [List.getElem_cons_succ, Nat.add_comm group 1, ← Nat.add_assoc] at htail)
        rw [List.append_assoc] at hnext
        exact hnext
  have hempty : ({ groupIds := [], writes := noWrites } : FusedWrites).Holds [] :=
    ⟨rfl, noWrites_holds⟩
  exact hloop tensors 0 _ [] hempty fun group hgroup => by
    rw [Nat.zero_add]
    exact hstaged group hgroup

theorem mem_groupWrites {staged : ℕ → List Write} {count : ℕ} {entry : ℕ × Write} :
    entry ∈ groupWrites staged 0 count ↔ entry.1 < count ∧ entry.2 ∈ staged entry.1 := by
  rw [groupWrites, List.mem_flatMap]
  constructor
  · rintro ⟨group, hgroup, hentry⟩
    obtain ⟨write, hwrite, rfl⟩ := List.mem_map.mp hentry
    exact ⟨(List.mem_range'_1.mp hgroup).2.trans_eq (Nat.zero_add count), hwrite⟩
  · rintro ⟨hgroup, hwrite⟩
    exact ⟨entry.1, List.mem_range'_1.mpr ⟨Nat.zero_le _, by omega⟩,
      List.mem_map.mpr ⟨entry.2, hwrite, rfl⟩⟩

/-- The group and the row of a fused write. -/
def writeKey (entry : ℕ × Write) : ℕ × ℕ :=
  (entry.1, entry.2.row)

theorem nodup_writeKeys {staged : ℕ → List Write} {count : ℕ}
    (hnodup : ∀ group < count, ((staged group).map (·.row)).Nodup) :
    ((groupWrites staged 0 count).map writeKey).Nodup := by
  rw [groupWrites, List.map_flatMap, List.nodup_flatMap]
  have hkeys : ∀ group, ((staged group).map (group, ·)).map writeKey =
      ((staged group).map (·.row)).map (group, ·) := by
    intro group
    rw [List.map_map, List.map_map]
    rfl
  constructor
  · intro group hgroup
    rw [hkeys]
    exact (hnodup group (by simpa using hgroup)).map (Prod.mk_right_injective group)
  · refine (List.nodup_range').imp ?_
    intro group other hne
    change List.Disjoint (((staged group).map (group, ·)).map writeKey)
      (((staged other).map (other, ·)).map writeKey)
    rw [hkeys, hkeys]
    intro key hleft hright
    obtain ⟨_, _, rfl⟩ := List.mem_map.mp hleft
    obtain ⟨_, _, heq⟩ := List.mem_map.mp hright
    exact hne (congrArg Prod.fst heq).symm

theorem getD_stagedSizes {size : StagedWriteTensor → ℕ} {tensors : List StagedWriteTensor}
    {group : ℕ} (hgroup : group < tensors.length)
    (hstaged : tensors[group].staged.indices ≠ []) :
    (stagedSizes size tensors).getD group 0 = size tensors[group] := by
  rw [stagedSizes, List.getD_eq_getElem _ _ (by rwa [List.length_map]), List.getElem_map,
    if_neg hstaged]

theorem gpuOf_eq {tensors : List StagedWriteTensor} {group : ℕ}
    (hgroup : group < tensors.length) : gpuOf tensors group = tensors[group].gpu := by
  rw [gpuOf, List.getElem?_eq_getElem hgroup]

/-- The fused kernel leaves in every tensor what its own kernel would have left. -/
theorem fusedApply_wrote (schedule : Schedule) {tensors : List StagedWriteTensor}
    {staged : ℕ → List Write} {maxWrites : ℕ}
    (hstages : ∀ group (hgroup : group < tensors.length), tensors[group].Stages (staged group))
    (hroom : (groupWrites staged 0 tensors.length).length ≤ maxWrites) :
    ∃ after, fusedApply schedule maxWrites tensors = .ok after ∧
      after.length = tensors.length ∧
      ∀ group (hgroup : group < tensors.length) (hafter : group < after.length),
        Wrote (staged group) tensors[group] after[group] := by
  have hfused := fuse_holds fun group hgroup => (hstages group hgroup).holds
  generalize hwrites : groupWrites staged 0 tensors.length = writes at hfused hroom
  have hmem : ∀ {entry : ℕ × Write}, entry ∈ writes ↔
      entry.1 < tensors.length ∧ entry.2 ∈ staged entry.1 := by
    intro entry
    rw [← hwrites]
    exact mem_groupWrites
  have hkeys : (writes.map writeKey).Nodup := by
    rw [← hwrites]
    exact nodup_writeKeys fun group hgroup => (hstages group hgroup).nodup
  rw [fusedApply]
  dsimp only
  by_cases hnone : writes = []
  · rw [if_pos (by rw [hfused.groupIds, hnone, List.map_nil])]
    refine ⟨tensors, rfl, rfl, ?_⟩
    intro group hgroup _
    have hempty : staged group = [] := by
      refine List.eq_nil_iff_forall_not_mem.mpr fun write hwrite => ?_
      have hentry : (group, write) ∈ writes := hmem.mpr ⟨hgroup, hwrite⟩
      rw [hnone] at hentry
      exact List.not_mem_nil hentry
    have hholds := (hstages group hgroup).holds
    rw [hempty] at hholds ⊢
    exact wrote_nothing hholds
  · have hlength : (fuse tensors).groupIds.length = writes.length := by
      rw [hfused.groupIds, List.length_map]
    rw [if_neg (by rw [hfused.groupIds, List.map_eq_nil_iff]; exact hnone), hlength, require,
      if_pos hroom, ok_bind]
    have hentry : ∀ pid (hpid : pid < writes.length),
        (fuse tensors).groupIds.getD pid 0 = writes[pid].1 := by
      intro pid hpid
      rw [hfused.groupIds, List.getD_eq_getElem _ _ (by rwa [List.length_map]),
        List.getElem_map]
    obtain ⟨hfree, hown⟩ := @Schedule.launch_rows schedule .applyWrite writes.length
      (ℕ → Tensor) (fusedWriteKernel (fuse tensors) (stagedSizes (·.numRows) tensors)
        (stagedSizes (·.numCols) tensors)) (gpuOf tensors) (ℕ × ℕ) _
      (fun state key => rowOf (state key.1) ((tensors.map (·.numCols)).getD key.1 0) key.2)
      (fun key col => col < (tensors.map (·.numCols)).getD key.1 0)
      (fun pid => (writes.map writeKey).getD pid (0, 0))
      (fun pid col before =>
        ((writes.map fun entry => entry.2).getD pid ⟨0, 0, []⟩ : Write).put col before) (by
        intro pid hpid state key col hcol
        obtain ⟨hgroup, hwrite⟩ := hmem.mp (List.getElem_mem hpid)
        have hindices : tensors[writes[pid].1].staged.indices ≠ [] := fun hnil => by
          rw [(hstages _ hgroup).holds.indices_eq_nil.mp hnil] at hwrite
          exact List.not_mem_nil hwrite
        have hrow := (hstages _ hgroup).rows _ hwrite
        have hcols : (tensors.map (·.numCols)).getD writes[pid].1 0 =
            tensors[writes[pid].1].numCols := by
          rw [List.getD_eq_getElem _ _ (by rwa [List.length_map]), List.getElem_map]
        rw [fusedWriteKernel, hentry pid hpid, getD_stagedSizes hgroup hindices,
          getD_stagedSizes hgroup hindices,
          List.getD_eq_getElem (writes.map writeKey) _ (by rwa [List.length_map]),
          List.getElem_map,
          List.getD_eq_getElem (writes.map fun entry => entry.2) _ (by rwa [List.length_map]),
          List.getElem_map, writeKey]
        obtain ⟨group, row⟩ := key
        dsimp only at hcol ⊢
        by_cases hsame : group = writes[pid].1
        · subst hsame
          rw [hcols] at hcol ⊢
          rw [Function.update_self]
          have hprogram := @rowOf_applyWriteKernel _ _ tensors[writes[pid].1].numRows
            tensors[writes[pid].1].numCols pid (state writes[pid].1) hfused.holds
            (by rwa [List.length_map]) (by rwa [List.getElem_map]) row col hcol
          rw [List.getElem_map] at hprogram
          rw [hprogram]
          by_cases hrows : row = writes[pid].2.row
          · rw [if_pos hrows, if_pos (by rw [hrows])]
          · rw [if_neg hrows, if_neg fun heq => hrows (congrArg Prod.snd heq)]
        · rw [Function.update_of_ne hsame, if_neg fun heq => hsame (congrArg Prod.fst heq)]) (by
        intro index hindex other hother heq
        rw [List.getD_eq_getElem _ _ (by rwa [List.length_map]),
          List.getD_eq_getElem _ _ (by rwa [List.length_map])] at heq
        exact (List.Nodup.getElem_inj_iff hkeys).mp heq)
    refine ⟨_, rfl, by rw [List.length_map, List.length_zipIdx], ?_⟩
    intro group hgroup hafter
    rw [List.getElem_map, List.getElem_zipIdx, Nat.zero_add]
    have hcols : (tensors.map (·.numCols)).getD group 0 = tensors[group].numCols := by
      rw [List.getD_eq_getElem _ _ (by rwa [List.length_map]), List.getElem_map]
    refine ⟨rfl, rfl, rfl, ?_⟩
    intro row col hcol
    by_cases hwritten : ∃ write ∈ staged group, write.row = row
    · obtain ⟨write, hwrite, rfl⟩ := hwritten
      obtain ⟨pid, hpid, hpidEntry⟩ := List.getElem_of_mem
        (show (group, write) ∈ writes from hmem.mpr ⟨hgroup, hwrite⟩)
      have hkey : (writes.map writeKey).getD pid (0, 0) = (group, write.row) := by
        rw [List.getD_eq_getElem _ _ (by rwa [List.length_map]), List.getElem_map, hpidEntry]
        rfl
      have hwritten : (writes.map fun entry => entry.2).getD pid ⟨0, 0, []⟩ = write := by
        rw [List.getD_eq_getElem _ _ (by rwa [List.length_map]), List.getElem_map, hpidEntry]
      have hlanded := hown pid hpid col (by rwa [hkey, hcols])
      rw [hkey, hwritten, hcols, gpuOf_eq hgroup] at hlanded
      rw [landed_of_mem (hstages group hgroup).nodup hwrite]
      exact hlanded
    · rw [landed_of_notMem fun write hmem heq => hwritten ⟨write, hmem, heq⟩]
      have hkept := hfree (group, row) (by
        intro pid hpid heq
        rw [List.getD_eq_getElem _ _ (by rwa [List.length_map]), List.getElem_map,
          writeKey] at heq
        obtain ⟨-, hwrite⟩ := hmem.mp (List.getElem_mem hpid)
        rw [← congrArg Prod.fst heq] at hwrite
        exact hwritten ⟨_, hwrite, (congrArg Prod.snd heq).symm⟩) col (by rwa [hcols])
      rw [hcols, gpuOf_eq hgroup] at hkept
      exact hkept

end GlmFlash.Worker.BlockTable
