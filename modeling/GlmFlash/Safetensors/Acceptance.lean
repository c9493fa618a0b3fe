import GlmFlash.Library.JsonRoundTrip
import GlmFlash.Safetensors.Reader

/-!
# Which files are accepted

An accepted file is divided exactly among its tensors, and a file whose
well-formed header describes such a division is accepted, unless an empty
tensor is placed strictly inside another one.
-/

namespace GlmFlash.Safetensors

open GlmFlash.Library

variable {runtime : Runtime} {dataStart fileSize : ℤ} {file : Bytes}

/-! ## One tensor -/

/-- What is checked of a tensor and its relative range. -/
structure Checked (dataStart fileSize : ℤ) (tensor : TensorInfo × Range) :
    Prop where
  range : tensor.1.range = tensor.2.shift dataStart
  nonneg : 0 ≤ tensor.2.start
  ordered : tensor.2.start ≤ tensor.2.stop
  sized : tensorNbytes tensor.1.dtype tensor.1.shape =
    .ok (tensor.2.stop - tensor.2.start)
  inside : dataStart + tensor.2.stop ≤ fileSize

theorem readTensor_eq_ok {name : String} {raw : Json}
    {tensor : TensorInfo × Range}
    (hrun : readTensor runtime dataStart fileSize name raw = .ok tensor) :
    tensor.1.name = name ∧ Checked dataStart fileSize tensor := by
  cases raw with
  | object fields =>
      simp only [readTensor, bind_eq_ok] at hrun
      obtain ⟨-, -, dtype, -, -, -, shape, -, -, -, offsets, -, hrun⟩ := hrun
      match offsets with
      | [] => cases hrun
      | [_] => cases hrun
      | _ :: _ :: _ :: _ => cases hrun
      | [start, stop] =>
          simp only [bind_eq_ok, require_eq_ok, pure_eq_ok] at hrun
          obtain ⟨expected, hexpected, -, ⟨hnonneg, hordered, hsize⟩, -, hinside,
            rfl⟩ := hrun
          exact ⟨rfl, rfl, hnonneg, hordered, hsize ▸ hexpected, hinside⟩
  | _ => cases hrun

theorem addTensors_checked {fields : List (String × Json)}
    {tensors : List (TensorInfo × Range)}
    (hrun : fields.foldlM (addTensor runtime dataStart fileSize) [] =
      .ok tensors) :
    ∀ tensor ∈ tensors, Checked dataStart fileSize tensor := by
  have hround : ∀ field ∈ fields, ∀ state next,
      addTensor runtime dataStart fileSize state field = .ok next →
      (∀ tensor ∈ state, Checked dataStart fileSize tensor) →
        ∀ tensor ∈ next, Checked dataStart fileSize tensor := by
    intro field _ state next hfield hstate
    rw [addTensor] at hfield
    split at hfield
    · rw [pure_eq_ok] at hfield
      exact hfield ▸ hstate
    · simp only [bind_eq_ok, require_eq_ok, pure_eq_ok] at hfield
      obtain ⟨added, hread, -, -, rfl⟩ := hfield
      intro tensor hmem
      rcases List.mem_append.mp hmem with hold | hnew
      · exact hstate tensor hold
      · rw [List.mem_singleton.mp hnew]
        exact (readTensor_eq_ok hread).2
  have hnone : ∀ tensor ∈ ([] : List (TensorInfo × Range)),
      Checked dataStart fileSize tensor :=
    fun _ hmem => absurd hmem List.not_mem_nil
  exact foldlM_invariant hround hrun hnone

/-! ## The sweep -/

theorem checkDense_eq_ok {tensors : List (TensorInfo × Range)}
    {cursor final : ℤ} :
    tensors.foldlM checkDense cursor = .ok final ↔
      sweep cursor (tensors.map Prod.snd) = some final := by
  induction tensors generalizing cursor with
  | nil =>
      rw [List.foldlM_nil, pure_eq_ok, List.map_nil, sweep, Option.some.injEq]
  | cons tensor tensors ih =>
      rw [List.foldlM_cons, bind_eq_ok, List.map_cons, sweep]
      simp only [checkDense, bind_eq_ok, require_eq_ok, pure_eq_ok]
      by_cases hstart : tensor.2.start = cursor
      · rw [if_pos hstart, ← ih]
        constructor
        · rintro ⟨_, ⟨-, -, rfl⟩, hrest⟩
          exact hrest
        · exact fun hrest => ⟨_, ⟨(), hstart, rfl⟩, hrest⟩
      · rw [if_neg hstart]
        constructor
        · rintro ⟨_, ⟨-, heq, -⟩, -⟩
          exact absurd heq hstart
        · rintro ⟨⟩

theorem rangeLe_total (left right : TensorInfo × Range) :
    rangeLe left right ∨ rangeLe right left := by
  rcases lt_trichotomy left.2.start right.2.start with hlt | hstart | hgt
  · exact .inl (.inl hlt)
  · rcases lt_trichotomy left.2.stop right.2.stop with hlt | hstop | hgt
    · exact .inl (.inr ⟨hstart, .inl hlt⟩)
    · rcases le_total left.1.name right.1.name with hname | hname
      · exact .inl (.inr ⟨hstart, .inr ⟨hstop, hname⟩⟩)
      · exact .inr (.inr ⟨hstart.symm, .inr ⟨hstop.symm, hname⟩⟩)
    · exact .inr (.inr ⟨hstart.symm, .inl hgt⟩)
  · exact .inr (.inl hgt)

theorem rangeLe_trans {first second third : TensorInfo × Range}
    (hfirst : rangeLe first second) (hsecond : rangeLe second third) :
    rangeLe first third := by
  rcases hfirst with hlt | ⟨hstart, hstop⟩
  · rcases hsecond with hlt' | ⟨hstart', -⟩
    · exact .inl (hlt.trans hlt')
    · exact .inl (hstart' ▸ hlt)
  · rcases hsecond with hlt' | ⟨hstart', hstop'⟩
    · exact .inl (hstart ▸ hlt')
    · apply Or.inr
      apply And.intro (hstart.trans hstart')
      rcases hstop with hlt | ⟨hsame, hname⟩
      · rcases hstop' with hlt' | ⟨hsame', -⟩
        · exact .inl (hlt.trans hlt')
        · exact .inl (hsame' ▸ hlt)
      · rcases hstop' with hlt' | ⟨hsame', hname'⟩
        · exact .inl (hsame ▸ hlt')
        · exact .inr ⟨hsame.trans hsame', hname.trans hname'⟩

theorem rangeLe_before {left right : TensorInfo × Range}
    (hle : rangeLe left right) (amount : ℤ) :
    (left.2.shift amount).Before (right.2.shift amount) := by
  rcases hle with hlt | ⟨hstart, hstop⟩
  · exact .inl (Int.add_lt_add_left hlt amount)
  · refine .inr ⟨congrArg (amount + ·) hstart, Int.add_le_add_left ?_ amount⟩
    rcases hstop with hlt | ⟨hsame, -⟩
    · exact hlt.le
    · exact hsame.le

def absoluteRanges (tensors : List (TensorInfo × Range)) : List Range :=
  tensors.map fun tensor => tensor.1.range

/-- The sweep over the sorted ranges, behind the header. -/
theorem dense_iff {tensors : List (TensorInfo × Range)}
    (hchecked : ∀ tensor ∈ tensors, Checked dataStart fileSize tensor) :
    (∃ cursor, (tensors.insertionSort rangeLe).foldlM checkDense 0 = .ok cursor ∧
      dataStart + cursor = fileSize) ↔
      Tiles dataStart fileSize (absoluteRanges tensors) ∧
        Settled (absoluteRanges tensors) := by
  have htotal : Std.Total rangeLe := ⟨rangeLe_total⟩
  have htrans : IsTrans (TensorInfo × Range) rangeLe :=
    ⟨fun _ _ _ => rangeLe_trans⟩
  have hperm := tensors.perm_insertionSort rangeLe
  have hsort := tensors.pairwise_insertionSort rangeLe
  have hranges : absoluteRanges (tensors.insertionSort rangeLe) =
      ((tensors.insertionSort rangeLe).map Prod.snd).map
        (Range.shift dataStart) := by
    rw [absoluteRanges, List.map_map]
    exact List.map_congr_left fun tensor hmem =>
      (hchecked tensor (hperm.mem_iff.mp hmem)).range
  have hsorted : (absoluteRanges (tensors.insertionSort rangeLe)).Pairwise
      Range.Before := by
    rw [hranges, List.map_map]
    exact hsort.map _ fun _ _ hle => rangeLe_before hle dataStart
  have hvalid : ∀ range ∈ absoluteRanges (tensors.insertionSort rangeLe),
      range.start ≤ range.stop := by
    intro range hmem
    obtain ⟨tensor, htensor, rfl⟩ := List.mem_map.mp hmem
    have hone := hchecked tensor (hperm.mem_iff.mp htensor)
    rw [hone.range]
    exact Int.add_le_add_left hone.ordered dataStart
  have hsame : (absoluteRanges (tensors.insertionSort rangeLe)).Perm
      (absoluteRanges tensors) := hperm.map _
  rw [← tiles_perm hsame, ← settled_perm hsame,
    ← sweep_eq_some_iff hsorted hvalid, hranges]
  have hshift (ranges : List Range) :
      sweep dataStart (ranges.map (Range.shift dataStart)) =
        (sweep 0 ranges).map (dataStart + ·) := by
    rw [← sweep_shift, Int.add_zero]
  rw [hshift, Option.map_eq_some_iff]
  simp only [checkDense_eq_ok]

/-! ## Files -/

/-- A record of the header that describes a tensor. -/
structure RecordOf (dataStart : ℤ) (tensor : TensorInfo)
    (raw : Dict String Json) : Prop where
  dtype : raw.get? "dtype" = some (.text tensor.dtype)
  shape : raw.get? "shape" = some (.array (tensor.shape.map .int))
  offsets : raw.get? "data_offsets" =
    some (.array [.int (tensor.range.start - dataStart),
      .int (tensor.range.stop - dataStart)])

/-- The file starts with a well-formed header that describes the tensors, in
the order of its keys. -/
structure Describes (runtime : Runtime) (file : Bytes)
    (header : Dict String Json) (tensors : List TensorInfo) : Prop where
  lengthBytes : 8 ≤ file.length
  plausible_length : unpackLength (file.take 8) ≤ 1 <<< 30
  inside : 8 + unpackLength (file.take 8) ≤ file.length
  loads : runtime.loads ((file.drop 8).take (unpackLength (file.take 8))) =
    some (.object header)
  unique : (Json.object header).uniqueKeys = true
  metadata : ∃ metadata, metadataOf
    ((Dict.get? header metadataKey).getD (.object [])) = .ok metadata
  records : List.Forall₂ (fun field tensor => field.1 = tensor.name ∧
      ∃ raw, field.2 = .object raw ∧
        RecordOf (8 + unpackLength (file.take 8) : ℕ) tensor raw)
    (header.filter fun field => field.1 ≠ metadataKey) tensors

/-- Each tensor has as many bytes as its dtype and its shape say. -/
def Sized (tensors : List TensorInfo) : Prop :=
  ∀ tensor ∈ tensors, tensorNbytes tensor.dtype tensor.shape =
    .ok (tensor.range.stop - tensor.range.start)

theorem ints_array (values : List ℤ) :
    ints runtime (.array (values.map .int)) = .ok values := by
  change (values.map Json.int).mapM (intOf runtime) = .ok values
  induction values with
  | nil => rfl
  | cons value values ih =>
      rw [List.map_cons, List.mapM_cons, ih]
      rfl

theorem readTensor_record {tensor : TensorInfo} {raw : Dict String Json}
    (hrecord : RecordOf dataStart tensor raw)
    (hsize : tensorNbytes tensor.dtype tensor.shape =
      .ok (tensor.range.stop - tensor.range.start))
    (hinside : dataStart ≤ tensor.range.start ∧
      tensor.range.start ≤ tensor.range.stop ∧ tensor.range.stop ≤ fileSize) :
    ∃ range, readTensor runtime dataStart fileSize tensor.name (.object raw) =
      .ok (tensor, range) := by
  obtain ⟨hlow, hordered, hhigh⟩ := hinside
  have hoffsets : ints runtime (.array [.int (tensor.range.start - dataStart),
      .int (tensor.range.stop - dataStart)]) =
      .ok [tensor.range.start - dataStart, tensor.range.stop - dataStart] :=
    ints_array [_, _]
  have hback (bound : ℤ) : dataStart + (bound - dataStart) = bound := by omega
  refine ⟨⟨tensor.range.start - dataStart, tensor.range.stop - dataStart⟩, ?_⟩
  simp only [readTensor, item, hrecord.dtype, hrecord.shape, hrecord.offsets,
    dtypeName, bind_eq_ok, require_eq_ok, pure_eq_ok, Except.ok.injEq,
    exists_eq_left', ints_array, hoffsets, hsize, hback,
    and_true]
  refine ⟨(), ⟨?_, ?_, ?_⟩, (), hhigh⟩
  · exact sub_nonneg.mpr hlow
  · exact sub_le_sub_right hordered dataStart
  · exact sub_sub_sub_cancel_right _ _ _

/-- The loop over the header takes in the tensors that it describes. -/
theorem addTensors_succeeds {fields : Dict String Json}
    {tensors : List TensorInfo}
    (hrecords : List.Forall₂ (fun field tensor => field.1 = tensor.name ∧
        ∃ raw, field.2 = .object raw ∧ RecordOf dataStart tensor raw)
      (fields.filter fun field => field.1 ≠ metadataKey) tensors)
    (hsized : Sized tensors)
    (hinside : ∀ tensor ∈ tensors, dataStart ≤ tensor.range.start ∧
      tensor.range.start ≤ tensor.range.stop ∧ tensor.range.stop ≤ fileSize)
    (hnodup : (fields.map Prod.fst).Nodup)
    {state : List (TensorInfo × Range)}
    (hnew : ∀ field ∈ fields, field.1 ∉ state.map fun tensor => tensor.1.name) :
    ∃ final, fields.foldlM (addTensor runtime dataStart fileSize) state =
      .ok final ∧ final.map Prod.fst = state.map Prod.fst ++ tensors := by
  induction fields generalizing tensors state with
  | nil =>
      cases hrecords
      exact ⟨state, rfl, (List.append_nil _).symm⟩
  | cons field fields ih =>
      obtain ⟨hnotin, hrest⟩ := List.nodup_cons.mp hnodup
      rw [List.foldlM_cons]
      by_cases hkey : field.1 = metadataKey
      · rw [List.filter_cons_of_neg (by simpa using hkey)] at hrecords
        rw [addTensor, if_pos hkey]
        exact ih hrecords hsized hinside hrest fun other hmem =>
          hnew other (List.mem_cons_of_mem field hmem)
      · rw [List.filter_cons_of_pos (by simpa using hkey)] at hrecords
        cases hrecords with
        | @cons _ tensor _ tensors hhead htail =>
            obtain ⟨hname, raw, hraw, hrecord⟩ := hhead
            obtain ⟨range, hread⟩ := readTensor_record
              hrecord (hsized tensor List.mem_cons_self)
              (hinside tensor List.mem_cons_self)
            have hadd : addTensor runtime dataStart fileSize state field =
                .ok (state ++ [(tensor, range)]) := by
              have hfresh := hnew field List.mem_cons_self
              rw [addTensor, if_neg hkey, hraw, hname, hread]
              rw [hname] at hfresh
              change (require _ _ >>= fun _ => _) = _
              rw [require, if_pos hfresh]
              rfl
            have hlater : ∀ other ∈ fields, other.1 ∉
                (state ++ [(tensor, range)]).map fun tensor => tensor.1.name := by
              intro other hmem hold
              rw [List.map_append, List.mem_append] at hold
              rcases hold with hold | hlast
              · exact hnew other (List.mem_cons_of_mem field hmem) hold
              · rw [List.map_singleton, List.mem_singleton, ← hname] at hlast
                exact hnotin (hlast ▸ List.mem_map_of_mem hmem)
            obtain ⟨final, hfinal, htensors⟩ := ih htail
              (fun other hmem => hsized other (List.mem_cons_of_mem tensor hmem))
              (fun other hmem => hinside other (List.mem_cons_of_mem tensor hmem))
              hrest hlater
            refine ⟨final, ?_, ?_⟩
            · rw [hadd]
              exact hfinal
            · rw [htensors, List.map_append, List.append_assoc]
              rfl

theorem openReader_eq_ok {reader : SafeTensorReader}
    (hrun : openReader runtime file = .ok reader) :
    reader.headerLength = unpackLength (file.take 8) ∧
      reader.dataStart = 8 + reader.headerLength ∧
      ∃ tensors : List (TensorInfo × Range), reader.tensors = tensors.map Prod.fst ∧
        (∀ tensor ∈ tensors, Checked reader.dataStart file.length tensor) ∧
        ∃ cursor, (tensors.insertionSort rangeLe).foldlM checkDense 0 =
          .ok cursor ∧ (reader.dataStart : ℤ) + cursor = file.length := by
  simp only [openReader, bind_eq_ok, require_eq_ok] at hrun
  obtain ⟨-, -, -, -, -, -, hrun⟩ := hrun
  split at hrun
  · simp only [bind_eq_ok, require_eq_ok, pure_eq_ok] at hrun
    obtain ⟨-, -, metadata, -, tensors, hadded, cursor, hdense, -, hend, rfl⟩ := hrun
    exact ⟨rfl, rfl, tensors, rfl, addTensors_checked hadded, cursor, hdense,
      hend⟩
  · cases hrun

theorem openReader_settled {reader : SafeTensorReader}
    (hrun : openReader runtime file = .ok reader) :
    Sized reader.tensors ∧
      Tiles reader.dataStart file.length (reader.tensors.map TensorInfo.range) ∧
      Settled (reader.tensors.map TensorInfo.range) := by
  obtain ⟨-, -, tensors, htensors, hchecked, hdense⟩ := openReader_eq_ok hrun
  have hranges : reader.tensors.map TensorInfo.range = absoluteRanges tensors := by
    rw [htensors, List.map_map]
    rfl
  rw [hranges]
  refine ⟨?_, (dense_iff hchecked).mp hdense⟩
  intro tensor hmem
  rw [htensors] at hmem
  obtain ⟨pair, hpair, rfl⟩ := List.mem_map.mp hmem
  have hone := hchecked pair hpair
  rw [hone.sized, hone.range]
  exact congrArg Except.ok (add_sub_add_left_eq_sub _ _ _).symm

variable {header : Dict String Json} {tensors : List TensorInfo}

section Described

variable (hdescribes : Describes runtime file header tensors) (hsized : Sized tensors)
  (htiles : Tiles (8 + unpackLength (file.take 8) : ℕ) file.length
    (tensors.map TensorInfo.range))
include hdescribes hsized htiles

theorem Describes.tensors_read :
    ∃ final, header.foldlM (addTensor runtime
        (8 + unpackLength (file.take 8) : ℕ) file.length) [] = .ok final ∧
      final.map Prod.fst = tensors := by
  have hunique : (header.map Prod.fst).Nodup := by
    have hkeys := hdescribes.unique
    rw [Json.uniqueKeys, Bool.and_eq_true, decide_eq_true_eq] at hkeys
    exact hkeys.1
  have hnew : ∀ field ∈ header, field.1 ∉
      ([] : List (TensorInfo × Range)).map fun tensor => tensor.1.name :=
    fun _ _ => List.not_mem_nil
  exact addTensors_succeeds hdescribes.records hsized
    (fun tensor hmem => htiles.inside _ (List.mem_map_of_mem hmem)) hunique hnew

/-- A described file can only be read as the tensors that it describes. -/
theorem Describes.tensors_eq {reader : SafeTensorReader}
    (hrun : openReader runtime file = .ok reader) :
    reader.tensors = tensors := by
  obtain ⟨final, hfinal, hfst⟩ := hdescribes.tensors_read hsized htiles
  simp only [openReader, bind_eq_ok, require_eq_ok, hdescribes.loads, hfinal,
    Except.ok.injEq, exists_eq_left', pure_eq_ok] at hrun
  obtain ⟨-, -, -, -, -, -, -, -, -, -, -, -, -, -, rfl⟩ := hrun
  exact hfst

theorem Describes.accepted (hsettled : Settled (tensors.map TensorInfo.range)) :
    ∃ reader, openReader runtime file = .ok reader ∧
      reader.tensors = tensors ∧
      metadataOf ((Dict.get? header metadataKey).getD (.object [])) =
        .ok reader.metadata := by
  obtain ⟨metadata, hmetadata⟩ := hdescribes.metadata
  obtain ⟨final, hfinal, hfst⟩ := hdescribes.tensors_read hsized htiles
  have hranges : absoluteRanges final = tensors.map TensorInfo.range := by
    rw [← hfst, List.map_map]
    rfl
  obtain ⟨cursor, hdense, hend⟩ := (dense_iff (addTensors_checked hfinal)).mpr
    (hranges ▸ ⟨htiles, hsettled⟩)
  have hheader : ((file.drop 8).take (unpackLength (file.take 8))).length =
      unpackLength (file.take 8) := by
    rw [List.length_take, List.length_drop, min_eq_left]
    exact Nat.le_sub_of_add_le' hdescribes.inside
  refine ⟨{
    metadata := metadata
    headerSha256 := runtime.sha256 ((file.drop 8).take
      (unpackLength (file.take 8)))
    headerLength := unpackLength (file.take 8)
    dataStart := 8 + unpackLength (file.take 8)
    fileSize := file.length
    tensors := final.map Prod.fst }, ?_, hfst, hmetadata⟩
  simp only [openReader, bind_eq_ok, require_eq_ok, hdescribes.loads]
  exact ⟨(), List.length_take_of_le hdescribes.lengthBytes, (),
    hdescribes.plausible_length, (), hheader, (), hdescribes.unique, metadata,
    hmetadata, final, hfinal, cursor, hdense, (), hend, rfl⟩

end Described

/-- The length of the header, the header and the data. -/
def frame (raw data : Bytes) : Bytes := packLength raw.length ++ (raw ++ data)

theorem length_packLength (length : ℕ) : (packLength length).length = 8 := rfl

theorem take_frame (raw data : Bytes) :
    (frame raw data).take 8 = packLength raw.length :=
  List.take_left' (length_packLength _)

theorem drop_frame (raw data : Bytes) : (frame raw data).drop 8 = raw ++ data :=
  List.drop_left' (length_packLength _)

theorem length_frame (raw data : Bytes) :
    (frame raw data).length = 8 + raw.length + data.length := by
  rw [frame, List.length_append, List.length_append, length_packLength,
    Nat.add_assoc]

theorem describes_frame {raw data : Bytes} (hsize : raw.length ≤ 1 <<< 30)
    (hloads : runtime.loads raw = some (.object header))
    (hunique : (Json.object header).uniqueKeys = true)
    (hmetadata : ∃ metadata, metadataOf
      ((Dict.get? header metadataKey).getD (.object [])) = .ok metadata)
    (hrecords : List.Forall₂ (fun field tensor => field.1 = tensor.name ∧
        ∃ fields, field.2 = .object fields ∧
          RecordOf (8 + raw.length : ℕ) tensor fields)
      (header.filter fun field => field.1 ≠ metadataKey) tensors) :
    Describes runtime (frame raw data) header tensors := by
  have hlength : unpackLength ((frame raw data).take 8) = raw.length := by
    rw [take_frame]
    exact unpackLength_packLength (hsize.trans_lt (by decide))
  refine ⟨?_, ?_, ?_, ?_, hunique, hmetadata, ?_⟩
  · rw [length_frame, Nat.add_assoc]
    exact Nat.le_add_right 8 _
  · rw [hlength]
    exact hsize
  · rw [hlength, length_frame]
    exact Nat.le_add_right _ _
  · rw [hlength, drop_frame, List.take_left]
    exact hloads
  · rw [hlength]
    exact hrecords

/-! ## Two tensors, the second one empty -/

def sampleRuntime : Runtime where
  loads := Json.loads fun _ => none
  sha256 := fun _ => ""
  intOfText := fun _ => .error .valueError
  intOfReal := fun _ => .error .valueError

def sampleRecord (dimension start stop : ℤ) : Dict String Json := [
  ("dtype", .text "U8"), ("shape", .array [.int dimension]),
  ("data_offsets", .array [.int start, .int stop])]

def sampleHeader (place : ℤ) : Dict String Json := [
  ("a", .object (sampleRecord 2 0 2)),
  ("b", .object (sampleRecord 0 place place))]

def sampleRaw (place : ℤ) : Bytes := (Json.object (sampleHeader place)).dumps

def sampleFile (place : ℤ) : Bytes := frame (sampleRaw place) [1, 2]

def sampleTensors (dataStart place : ℤ) : List TensorInfo := [
  ⟨"a", "U8", [2], ⟨dataStart + 0, dataStart + 2⟩⟩,
  ⟨"b", "U8", [0], ⟨dataStart + place, dataStart + place⟩⟩]

theorem sampleRecord_of {dataStart dimension start stop : ℤ} (name : String) :
    RecordOf dataStart
      ⟨name, "U8", [dimension], ⟨dataStart + start, dataStart + stop⟩⟩
      (sampleRecord dimension start stop) where
  dtype := rfl
  shape := rfl
  offsets := by
    simp only [add_sub_cancel_left]
    rfl

theorem sampleHeader_written (place : ℤ) :
    (Json.object (sampleHeader place)).Written := by
  have hrecord (dimension start stop : ℤ) :
      (Json.object (sampleRecord dimension start stop)).Written := by
    refine .object ?_
    intro field hmem
    simp only [sampleRecord, List.mem_cons, List.not_mem_nil, or_false] at hmem
    rcases hmem with rfl | rfl | rfl
    · exact .text _
    · refine .array fun item hitem => ?_
      rw [List.mem_singleton.mp hitem]
      exact .int _
    · refine .array fun item hitem => ?_
      simp only [List.mem_cons, List.not_mem_nil, or_false] at hitem
      rcases hitem with rfl | rfl
      · exact .int _
      · exact .int _
  refine .object fun field hmem => ?_
  simp only [sampleHeader, List.mem_cons, List.not_mem_nil, or_false] at hmem
  rcases hmem with rfl | rfl
  · exact hrecord 2 0 2
  · exact hrecord 0 place place

theorem sample_describes {place : ℤ}
    (hsize : (sampleRaw place).length ≤ 1 <<< 30) :
    Describes sampleRuntime (sampleFile place) (sampleHeader place)
      (sampleTensors (8 + (sampleRaw place).length : ℕ) place) := by
  refine describes_frame hsize ?_ ?_ ⟨[], ?_⟩ ?_
  · have hloads := Json.loads_dumps (sampleHeader_written place) (fun _ => none) 0
    rwa [List.replicate_zero, List.append_nil] at hloads
  · rfl
  · rfl
  · exact .cons ⟨rfl, _, rfl, sampleRecord_of "a"⟩
      (.cons ⟨rfl, _, rfl, sampleRecord_of "b"⟩ .nil)

theorem sample_sized (dataStart place : ℤ) :
    Sized (sampleTensors dataStart place) := by
  intro tensor hmem
  simp only [sampleTensors, List.mem_cons, List.not_mem_nil, or_false] at hmem
  rcases hmem with rfl | rfl
  · rw [add_sub_add_left_eq_sub]
    rfl
  · rw [sub_self]
    rfl

theorem sample_tiles {dataStart place : ℤ} (hplace : 0 ≤ place ∧ place ≤ 2) :
    Tiles dataStart (dataStart + 2)
      ((sampleTensors dataStart place).map TensorInfo.range) where
  bounds := by omega
  inside := by
    intro range hmem
    simp only [sampleTensors, List.map_cons, List.map_nil, List.mem_cons,
      List.not_mem_nil, or_false] at hmem
    rcases hmem with rfl | rfl <;> dsimp only <;> omega
  disjoint := by
    refine List.pairwise_pair.mpr fun offset _ hempty => ?_
    exact absurd (hempty.1.trans_lt hempty.2) (lt_irrefl _)
  covered := by
    intro offset hfirst hlast
    exact ⟨_, List.mem_cons_self, by rwa [← Int.add_zero dataStart] at hfirst, hlast⟩

theorem sample_settled (dataStart : ℤ) :
    Settled ((sampleTensors dataStart 2).map TensorInfo.range) := by
  simp only [Settled, sampleTensors, List.map_cons, List.map_nil,
    List.forall_mem_cons, List.not_mem_nil, false_imp_iff, implies_true,
    and_true, Range.Splits]
  omega

theorem sample_not_settled (dataStart : ℤ) :
    ¬Settled ((sampleTensors dataStart 1).map TensorInfo.range) := by
  intro hsettled
  refine hsettled _ (List.mem_cons_of_mem _ List.mem_cons_self) _
    List.mem_cons_self ⟨rfl, ?_, ?_⟩
  · exact Int.add_lt_add_left zero_lt_one dataStart
  · exact Int.add_lt_add_left one_lt_two dataStart

theorem sample_file_tiles {place : ℤ} (hplace : 0 ≤ place ∧ place ≤ 2)
    (hsize : (sampleRaw place).length ≤ 1 <<< 30) :
    Tiles (8 + unpackLength ((sampleFile place).take 8) : ℕ)
      (sampleFile place).length
      ((sampleTensors (8 + (sampleRaw place).length : ℕ) place).map
        TensorInfo.range) := by
  have hlength : unpackLength ((sampleFile place).take 8) =
      (sampleRaw place).length := by
    rw [sampleFile, take_frame]
    exact unpackLength_packLength (hsize.trans_lt (by decide))
  rw [hlength, sampleFile, length_frame, Nat.cast_add (8 + _)]
  exact sample_tiles hplace

/-! ## Acceptance -/

/-- Accepted files are divided exactly among their tensors, and a described
division without an empty tensor strictly inside another one is accepted. -/
theorem openReader_tiles (runtime : Runtime) (file : Bytes) :
    (∀ reader, openReader runtime file = .ok reader →
      reader.headerLength = unpackLength (file.take 8) ∧
        reader.dataStart = 8 + reader.headerLength ∧
        Sized reader.tensors ∧
        Tiles reader.dataStart file.length
          (reader.tensors.map TensorInfo.range)) ∧
    ∀ header tensors, Describes runtime file header tensors →
      Sized tensors →
      Tiles (8 + unpackLength (file.take 8) : ℕ) file.length
        (tensors.map TensorInfo.range) →
      Settled (tensors.map TensorInfo.range) →
      ∃ reader, openReader runtime file = .ok reader ∧
        reader.tensors = tensors := by
  constructor
  · intro reader hrun
    obtain ⟨hlength, hstart, -⟩ := openReader_eq_ok hrun
    obtain ⟨hsized, htiles, -⟩ := openReader_settled hrun
    exact ⟨hlength, hstart, hsized, htiles⟩
  · intro header tensors hdescribes hsized htiles hsettled
    obtain ⟨reader, hrun, htensors, -⟩ :=
      hdescribes.accepted hsized htiles hsettled
    exact ⟨reader, hrun, htensors⟩

/-- An empty tensor at the middle of another one is refused. -/
theorem described_tiles_refused :
    ∃ runtime file header tensors, Describes runtime file header tensors ∧
      Sized tensors ∧
      Tiles (8 + unpackLength (file.take 8) : ℕ) file.length
        (tensors.map TensorInfo.range) ∧
      ¬∃ reader, openReader runtime file = .ok reader := by
  have hsize : (sampleRaw 1).length ≤ 1 <<< 30 := by decide +kernel
  have hdescribes := sample_describes hsize
  have hsized := sample_sized (8 + (sampleRaw 1).length : ℕ) 1
  have htiles := sample_file_tiles (by decide) hsize
  refine ⟨_, _, _, _, hdescribes, hsized, htiles, ?_⟩
  rintro ⟨reader, hrun⟩
  have hsettled := (openReader_settled hrun).2.2
  rw [hdescribes.tensors_eq hsized htiles hrun] at hsettled
  exact sample_not_settled _ hsettled

/-- At its end it is accepted. -/
theorem openReader_tiles_two : ∃ reader,
    openReader sampleRuntime (sampleFile 2) = .ok reader ∧
      reader.tensors = sampleTensors (8 + (sampleRaw 2).length : ℕ) 2 ∧
      Tiles reader.dataStart (sampleFile 2).length
        (reader.tensors.map TensorInfo.range) := by
  have hsize : (sampleRaw 2).length ≤ 1 <<< 30 := by decide +kernel
  have hboth := openReader_tiles sampleRuntime (sampleFile 2)
  obtain ⟨reader, hrun, htensors⟩ := hboth.2 _ _ (sample_describes hsize)
    (sample_sized _ 2) (sample_file_tiles (by decide) hsize) (sample_settled _)
  obtain ⟨-, -, -, htiles⟩ := hboth.1 reader hrun
  exact ⟨reader, hrun, htensors, htiles⟩

end GlmFlash.Safetensors
