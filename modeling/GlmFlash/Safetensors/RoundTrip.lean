import GlmFlash.Library.JsonSorted
import GlmFlash.Safetensors.Acceptance
import GlmFlash.Safetensors.Writer

/-!
# What is written can be read

The file of entries whose payloads have the declared sizes is accepted by the
reader, which finds every entry with its payload.  An entry of another size
leaves the destination as it was.
-/

namespace GlmFlash.Safetensors

open GlmFlash.Library

/-! ## Payloads in chunks -/

/-- The bytes of a range, if the file has them. -/
def PayloadValue.content : PayloadValue → Option Bytes
  | .bytes raw => some raw
  | .range source start stop =>
      if 0 ≤ start ∧ start ≤ stop ∧ (start = stop ∨ stop ≤ source.length) then
        some ((source.drop start.toNat).take (stop - start).toNat)
      else none

def Payload.content : Payload → Option Bytes
  | .value held => held.content
  | .factory (.ok held) => held.content
  | .factory (.error _) => none

theorem chunkBytes_pos : 0 < chunkBytes := by decide

theorem flatten_slices (size : ℕ) (raw : Bytes) (count : ℕ) :
    ((List.range count).map fun index =>
      (raw.drop (index * size)).take size).flatten = raw.take (count * size) := by
  induction count with
  | zero => rw [Nat.zero_mul, List.take_zero]; rfl
  | succ count ih =>
      rw [List.range_succ, List.map_append, List.flatten_append, ih,
        List.map_singleton, List.flatten_singleton, Nat.succ_mul,
        List.take_add]

theorem flatten_rawChunks (raw : Bytes) : (rawChunks raw).flatten = raw := by
  rw [rawChunks, flatten_slices, List.take_of_length_le]
  have hdiv : raw.length + (chunkBytes - 1) <
      (raw.length + (chunkBytes - 1)) / chunkBytes * chunkBytes + chunkBytes :=
    Nat.lt_div_mul_add chunkBytes_pos
  have hpos := chunkBytes_pos
  omega

theorem readChunks_eq_ok {source : Bytes} {fuel position remaining : ℕ}
    (hfuel : remaining ≤ fuel) {chunks : List Bytes}
    (hrun : readChunks source fuel position remaining = .ok chunks) :
    chunks.flatten = (source.drop position).take remaining ∧
      (remaining = 0 ∨ position + remaining ≤ source.length) := by
  induction fuel generalizing position remaining chunks with
  | zero =>
      cases hrun
      rw [Nat.le_zero.mp hfuel, List.take_zero]
      exact ⟨rfl, .inl rfl⟩
  | succ fuel ih =>
      rw [readChunks] at hrun
      split at hrun
      · rename_i hzero
        cases hrun
        rw [hzero, List.take_zero]
        exact ⟨rfl, .inl rfl⟩
      · simp only [bind_eq_ok, require_eq_ok, pure_eq_ok] at hrun
        obtain ⟨-, hsome, rest, hrest, rfl⟩ := hrun
        set payload := (source.drop position).take (min chunkBytes remaining)
          with hpayload
        have hpos := List.length_pos_of_ne_nil hsome
        have hlength : payload.length = min (min chunkBytes remaining)
            (source.length - position) := by
          rw [hpayload, List.length_take, List.length_drop]
        obtain ⟨hflatten, hinside⟩ := ih (by omega) hrest
        have htaken : payload = (source.drop position).take payload.length := by
          rw [hlength, ← List.length_drop, ← List.take_eq_take_min]
        refine ⟨?_, .inr ?_⟩
        · rw [List.flatten_cons, hflatten, ← List.drop_drop]
          nth_rewrite 1 [htaken]
          rw [← List.take_add]
          congr 1
          omega
        · omega

theorem readChunks_succeeds {source : Bytes} {fuel position remaining : ℕ}
    (hinside : remaining = 0 ∨ position + remaining ≤ source.length) :
    ∃ chunks, readChunks source fuel position remaining = .ok chunks := by
  induction fuel generalizing position remaining with
  | zero => exact ⟨[], rfl⟩
  | succ fuel ih =>
      rw [readChunks]
      split
      · exact ⟨[], rfl⟩
      · rename_i hsome
        have hlength : ((source.drop position).take
            (min chunkBytes remaining)).length = min (min chunkBytes remaining)
              (source.length - position) := by
          rw [List.length_take, List.length_drop]
        have hchunk := chunkBytes_pos
        set payload := (source.drop position).take (min chunkBytes remaining)
        have hlater : remaining - payload.length = 0 ∨ position + payload.length +
            (remaining - payload.length) ≤ source.length := by omega
        obtain ⟨rest, hrest⟩ := ih hlater
        refine ⟨payload :: rest, ?_⟩
        simp only [bind_eq_ok, require_eq_ok, pure_eq_ok]
        exact ⟨(), List.ne_nil_of_length_pos (by omega), rest, hrest, rfl⟩

theorem rangeChunks_iff {source : Bytes} {start stop : ℤ}
    (hordered : start ≤ stop) {bytes : Bytes} :
    (∃ chunks, rangeChunks source start stop = .ok chunks ∧
      chunks.flatten = bytes) ↔
      (PayloadValue.range source start stop).content = some bytes := by
  simp only [rangeChunks, bind_eq_ok, require_eq_ok, PayloadValue.content,
    Option.ite_none_right_eq_some, Option.some.injEq]
  constructor
  · rintro ⟨chunks, ⟨-, hstart, hrun⟩, rfl⟩
    obtain ⟨hflatten, hinside⟩ := readChunks_eq_ok le_rfl hrun
    exact ⟨⟨hstart, hordered, by omega⟩, hflatten.symm⟩
  · rintro ⟨⟨hstart, -, hinside⟩, rfl⟩
    have hbounds : (stop - start).toNat = 0 ∨
        start.toNat + (stop - start).toNat ≤ source.length := by omega
    obtain ⟨chunks, hrun⟩ :=
      @readChunks_succeeds source (stop - start).toNat _ _ hbounds
    exact ⟨chunks, ⟨(), hstart, hrun⟩, (readChunks_eq_ok le_rfl hrun).1⟩

/-- An entry's bytes, and that they are as many as its dtype and shape say. -/
def TensorEntry.bytes (entry : TensorEntry) : Bytes :=
  entry.payload.content.getD []

def TensorEntry.WellSized (entry : TensorEntry) : Prop :=
  entry.payload.content = some entry.bytes ∧
    entry.nbytes = .ok entry.bytes.length

theorem tensorNbytes_nonneg {dtype : String} {shape : List ℤ} {size : ℤ}
    (hrun : tensorNbytes dtype shape = .ok size) : 0 ≤ size := by
  rw [tensorNbytes] at hrun
  split at hrun
  · cases hrun
  · refine foldlM_invariant ?_ hrun (Int.natCast_nonneg _)
    intro dimension _ size next hround hsize
    simp only [bind_eq_ok, require_eq_ok, pure_eq_ok] at hround
    obtain ⟨-, hdimension, rfl⟩ := hround
    exact mul_nonneg hsize hdimension

theorem length_of_content {source : Bytes} {start stop : ℤ} {bytes : Bytes}
    (hcontent : (PayloadValue.range source start stop).content = some bytes) :
    start ≤ stop ∧ bytes.length = stop - start := by
  simp only [PayloadValue.content, Option.ite_none_right_eq_some,
    Option.some.injEq] at hcontent
  obtain ⟨⟨hstart, hordered, hinside⟩, rfl⟩ := hcontent
  rw [List.length_take, List.length_drop]
  omega

theorem payloadValue_iff {value : PayloadValue} {size : ℤ} (hsize : 0 ≤ size)
    {bytes : Bytes} :
    (∃ list, payloadChunks (.value value) = .ok (.ok list, size) ∧
      list.flatten = bytes) ↔
      value.content = some bytes ∧ bytes.length = size := by
  cases value with
  | bytes raw =>
      change (∃ list, Except.ok (Except.ok (rawChunks raw), (raw.length : ℤ)) =
        Except.ok (.ok list, size) ∧ _) ↔ some raw = some bytes ∧ _
      simp only [Except.ok.injEq, Prod.mk.injEq, Option.some.injEq]
      constructor
      · rintro ⟨list, ⟨rfl, hlength⟩, rfl⟩
        rw [flatten_rawChunks]
        exact ⟨rfl, hlength⟩
      · rintro ⟨rfl, hlength⟩
        exact ⟨_, ⟨rfl, hlength⟩, flatten_rawChunks raw⟩
  | range source start stop =>
      change (∃ list, Except.ok (rangeChunks source start stop, stop - start) =
        Except.ok (.ok list, size) ∧ _) ↔ _
      simp only [Except.ok.injEq, Prod.mk.injEq]
      constructor
      · rintro ⟨list, ⟨hrun, rfl⟩, hflatten⟩
        have hcontent := (rangeChunks_iff (sub_nonneg.mp hsize)).mp
          ⟨list, hrun, hflatten⟩
        exact ⟨hcontent, (length_of_content hcontent).2⟩
      · rintro ⟨hcontent, hlength⟩
        obtain ⟨hordered, hstop⟩ := length_of_content hcontent
        obtain ⟨list, hrun, hflatten⟩ := (rangeChunks_iff hordered).mpr hcontent
        exact ⟨list, ⟨hrun, hstop.symm.trans hlength⟩, hflatten⟩

theorem payload_iff {payload : Payload} {size : ℤ} (hsize : 0 ≤ size)
    {bytes : Bytes} :
    (∃ list, payloadChunks payload = .ok (.ok list, size) ∧
      list.flatten = bytes) ↔
      payload.content = some bytes ∧ bytes.length = size := by
  match payload with
  | .value value => exact payloadValue_iff hsize
  | .factory (.ok value) => exact payloadValue_iff hsize
  | .factory (.error failure) =>
      constructor
      · rintro ⟨list, hrun, -⟩
        cases hrun
      · rintro ⟨hcontent, -⟩
        cases hcontent

/-- An entry is written exactly when it is well sized, and then as it is. -/
theorem writeEntry_eq_ok {sha256 : Bytes → String} {entry : TensorEntry}
    {state next : Bytes × Dict String String} :
    writeEntry sha256 state entry = .ok next ↔ entry.WellSized ∧
      next = (state.1 ++ entry.bytes,
        state.2.set entry.name (sha256 entry.bytes)) := by
  simp only [writeEntry, bind_eq_ok, require_eq_ok, pure_eq_ok]
  constructor
  · rintro ⟨⟨chunks, size⟩, hchunks, nbytes, hnbytes, -, rfl, list, rfl, -, -, rfl⟩
    obtain ⟨hcontent, hlength⟩ := (payload_iff (tensorNbytes_nonneg hnbytes)).mp
      ⟨list, hchunks, rfl⟩
    have hbytes : entry.bytes = list.flatten := by
      rw [TensorEntry.bytes, hcontent, Option.getD_some]
    rw [TensorEntry.WellSized, hbytes, hlength]
    exact ⟨⟨hcontent, hnbytes⟩, rfl⟩
  · rintro ⟨⟨hcontent, hnbytes⟩, rfl⟩
    obtain ⟨list, hchunks, hflatten⟩ :=
      (payload_iff (Int.natCast_nonneg _)).mpr ⟨hcontent, rfl⟩
    refine ⟨_, hchunks, _, hnbytes, (), rfl, list, rfl, (), ?_, ?_⟩
    · rw [← List.length_flatten, hflatten]
    · rw [hflatten]

theorem writeEntries_eq_ok {sha256 : Bytes → String} {entries : List TensorEntry}
    {file file' : Bytes} {digests : Dict String String} :
    (∃ digests', entries.foldlM (writeEntry sha256) (file, digests) =
      .ok (file', digests')) ↔
      (∀ entry ∈ entries, entry.WellSized) ∧
        file' = file ++ (entries.map TensorEntry.bytes).flatten := by
  induction entries generalizing file digests with
  | nil =>
      simp only [List.foldlM_nil, pure_eq_ok, Prod.mk.injEq, List.map_nil,
        List.flatten_nil, List.append_nil]
      constructor
      · rintro ⟨_, rfl, -⟩
        exact ⟨fun _ hmem => absurd hmem List.not_mem_nil, rfl⟩
      · rintro ⟨-, rfl⟩
        exact ⟨digests, rfl, rfl⟩
  | cons entry entries ih =>
      simp only [List.foldlM_cons, bind_eq_ok, writeEntry_eq_ok]
      constructor
      · rintro ⟨digests', _, ⟨hentry, rfl⟩, hrest⟩
        obtain ⟨hentries, rfl⟩ := ih.mp ⟨digests', hrest⟩
        refine ⟨List.forall_mem_cons.mpr ⟨hentry, hentries⟩, ?_⟩
        rw [List.map_cons, List.flatten_cons, List.append_assoc]
      · rintro ⟨hall, rfl⟩
        obtain ⟨hentry, hentries⟩ := List.forall_mem_cons.mp hall
        have hfile : file ++ ((entry :: entries).map TensorEntry.bytes).flatten =
            file ++ entry.bytes ++ (entries.map TensorEntry.bytes).flatten := by
          rw [List.map_cons, List.flatten_cons, ← List.append_assoc]
        obtain ⟨digests', hrest⟩ := ih.mpr ⟨hentries, hfile⟩
        exact ⟨digests', _, ⟨hentry, rfl⟩, hrest⟩

/-! ## The header -/

/-- Where the entries' payloads are, one behind the other. -/
def layout : ℤ → List TensorEntry → List TensorInfo
  | _, [] => []
  | start, entry :: entries =>
      ⟨entry.name, entry.dtype, entry.shape,
        ⟨start, start + entry.bytes.length⟩⟩ ::
        layout (start + entry.bytes.length) entries

theorem layout_tiles (start : ℤ) (entries : List TensorEntry) :
    Tiles start (start + (entries.map TensorEntry.bytes).flatten.length)
        ((layout start entries).map TensorInfo.range) ∧
      Settled ((layout start entries).map TensorInfo.range) := by
  have hsweep : sweep start ((layout start entries).map TensorInfo.range) =
      some (start + (entries.map TensorEntry.bytes).flatten.length) := by
    induction entries generalizing start with
    | nil => exact congrArg some (Int.add_zero start).symm
    | cons entry entries ih =>
        rw [layout, List.map_cons, sweep, if_pos rfl, ih, List.map_cons,
          List.flatten_cons, List.length_append, Nat.cast_add, add_assoc]
  refine tiles_of_sweep ?_ hsweep
  clear hsweep
  induction entries generalizing start with
  | nil => exact fun _ hmem => absurd hmem List.not_mem_nil
  | cons entry entries ih =>
      rw [layout, List.map_cons, List.forall_mem_cons]
      exact ⟨Int.le_add_of_nonneg_right (Int.natCast_nonneg _), ih _⟩

theorem layout_sized (start : ℤ) {entries : List TensorEntry}
    (hsized : ∀ entry ∈ entries, entry.WellSized) :
    Sized (layout start entries) := by
  induction entries generalizing start with
  | nil => exact fun _ hmem => absurd hmem List.not_mem_nil
  | cons entry entries ih =>
      obtain ⟨hentry, hentries⟩ := List.forall_mem_cons.mp hsized
      rw [layout, Sized, List.forall_mem_cons]
      refine ⟨?_, ih _ hentries⟩
      rw [add_sub_cancel_left]
      exact hentry.2

/-- The field that the header has for a tensor. -/
def fieldOf (dataStart : ℤ) (tensor : TensorInfo) : String × Json :=
  (tensor.name, .object (entryRecord tensor.dtype tensor.shape
    (tensor.range.start - dataStart) (tensor.range.stop - tensor.range.start)))

theorem addEntries_eq {dataStart offset : ℤ} {entries : List TensorEntry}
    {header : Dict String Json} (hsized : ∀ entry ∈ entries, entry.WellSized)
    (hnodup : (entries.map TensorEntry.name).Nodup)
    (hnew : ∀ entry ∈ entries, entry.name ∉ Dict.keys header) :
    ∃ total, entries.foldlM addEntry (header, offset) = .ok
      (header ++ (layout (dataStart + offset) entries).map (fieldOf dataStart),
        total) := by
  induction entries generalizing offset header with
  | nil => exact ⟨offset, by rw [layout, List.map_nil, List.append_nil]; rfl⟩
  | cons entry entries ih =>
      obtain ⟨hentry, hentries⟩ := List.forall_mem_cons.mp hsized
      obtain ⟨hnotin, hrest⟩ := List.nodup_cons.mp hnodup
      have hfield : (entry.name, Json.object (entryRecord entry.dtype entry.shape
          offset entry.bytes.length)) = fieldOf dataStart
            ⟨entry.name, entry.dtype, entry.shape, ⟨dataStart + offset,
              dataStart + offset + entry.bytes.length⟩⟩ := by
        rw [fieldOf, add_sub_cancel_left, add_sub_cancel_left]
      have hset (record : Json) : header.set entry.name record =
          header ++ [(entry.name, record)] :=
        Dict.set_eq_append (hnew entry List.mem_cons_self)
      have hlater : ∀ other ∈ entries, other.name ∉ Dict.keys (header.set entry.name
          (.object (entryRecord entry.dtype entry.shape offset
            entry.bytes.length))) := by
        intro other hmem hold
        rcases Dict.mem_keys_set.mp hold with heq | hheader
        · exact hnotin (heq ▸ List.mem_map_of_mem hmem)
        · exact hnew other (List.mem_cons_of_mem entry hmem) hheader
      obtain ⟨total, htotal⟩ := ih hentries hrest hlater
      refine ⟨total, ?_⟩
      rw [List.foldlM_cons, addEntry, hentry.2]
      refine htotal.trans ?_
      rw [hset, hfield, layout, List.map_cons, add_assoc, List.append_assoc,
        List.singleton_append]

theorem sortKeys_ints (values : List ℤ) :
    (Json.array (values.map .int)).sortKeys = .array (values.map .int) := by
  rw [Json.sortKeys, sortItems_eq_map, List.map_map]
  rfl

theorem entryRecord_keys (dtype : String) (shape : List ℤ) (offset size : ℤ) :
    ((entryRecord dtype shape offset size).map Prod.fst).Nodup := by
  change (["dtype", "shape", "data_offsets"] : List String).Nodup
  decide

theorem entryRecord_sorted {dataStart : ℤ} (tensor : TensorInfo) :
    RecordOf dataStart tensor (sortedFields (entryRecord tensor.dtype tensor.shape
      (tensor.range.start - dataStart)
      (tensor.range.stop - tensor.range.start))) := by
  have hkeys := entryRecord_keys tensor.dtype tensor.shape
    (tensor.range.start - dataStart) (tensor.range.stop - tensor.range.start)
  refine ⟨?_, ?_, ?_⟩
  · rw [get?_sortedFields hkeys]
    rfl
  · rw [get?_sortedFields hkeys]
    exact congrArg some (sortKeys_ints tensor.shape)
  · rw [get?_sortedFields hkeys]
    have hstop : tensor.range.start - dataStart +
        (tensor.range.stop - tensor.range.start) =
          tensor.range.stop - dataStart := by omega
    refine (congrArg some (sortKeys_ints [_, _])).trans ?_
    rw [hstop]
    rfl

/-- The header before the sort. -/
def fullHeader (metadata : Option (Dict String String)) (dataStart : ℤ)
    (tensors : List TensorInfo) : Dict String Json :=
  metadataHeader metadata ++ tensors.map (fieldOf dataStart)

variable {metadata : Option (Dict String String)}

theorem keys_metadataHeader : ∀ key ∈ Dict.keys (metadataHeader metadata),
    key = metadataKey := by
  cases metadata with
  | none => exact fun _ hmem => absurd hmem List.not_mem_nil
  | some items => exact fun _ hmem => List.mem_singleton.mp hmem

theorem headerOf_eq {entries : List TensorEntry} (dataStart : ℤ)
    (hsized : ∀ entry ∈ entries, entry.WellSized)
    (hnodup : (entries.map TensorEntry.name).Nodup)
    (hnames : metadataKey ∉ entries.map TensorEntry.name) :
    headerOf entries metadata =
      .ok (fullHeader metadata dataStart (layout dataStart entries)) := by
  have hnew : ∀ entry ∈ entries,
      entry.name ∉ Dict.keys (metadataHeader metadata) := by
    intro entry hmem hold
    exact hnames (keys_metadataHeader _ hold ▸ List.mem_map_of_mem hmem)
  obtain ⟨total, htotal⟩ := @addEntries_eq dataStart 0 _ _ hsized hnodup hnew
  rw [headerOf, htotal, add_zero]
  rfl

theorem written_text_fields (items : Dict String String) :
    (Json.object (items.map fun item => (item.1, .text item.2))).Written := by
  refine .object fun field hmem => ?_
  obtain ⟨item, -, rfl⟩ := List.mem_map.mp hmem
  exact .text item.2

theorem written_ints (values : List ℤ) :
    (Json.array (values.map .int)).Written := by
  refine .array fun item hmem => ?_
  obtain ⟨value, -, rfl⟩ := List.mem_map.mp hmem
  exact .int value

theorem written_fullHeader (dataStart : ℤ) (tensors : List TensorInfo) :
    (Json.object (fullHeader metadata dataStart tensors)).Written := by
  refine .object fun field hmem => ?_
  rcases List.mem_append.mp hmem with hmetadata | hfield
  · cases metadata with
    | none => exact absurd hmetadata List.not_mem_nil
    | some items =>
        rw [List.mem_singleton.mp hmetadata]
        exact written_text_fields _
  · obtain ⟨tensor, -, rfl⟩ := List.mem_map.mp hfield
    refine .object fun part hpart => ?_
    simp only [entryRecord, List.mem_cons, List.not_mem_nil, or_false] at hpart
    rcases hpart with rfl | rfl | rfl
    · exact .text _
    · exact written_ints _
    · exact written_ints [_, _]

theorem unique_fullHeader {dataStart : ℤ} {tensors : List TensorInfo}
    (hmetadata : (Dict.keys (metadata.getD [])).Nodup)
    (hnodup : (tensors.map TensorInfo.name).Nodup)
    (hnames : metadataKey ∉ tensors.map TensorInfo.name) :
    (Json.object (fullHeader metadata dataStart tensors)).uniqueKeys = true := by
  have hfields : (tensors.map (fieldOf dataStart)).map Prod.fst =
      tensors.map TensorInfo.name := by
    rw [List.map_map]
    rfl
  rw [Json.uniqueKeys_object]
  constructor
  · rw [fullHeader, List.map_append, List.nodup_append, hfields]
    refine ⟨?_, hnodup, ?_⟩
    · cases metadata with
      | none => exact List.nodup_nil
      | some items => exact List.nodup_singleton metadataKey
    · intro key hkey other hother heq
      rw [keys_metadataHeader key hkey] at heq
      exact hnames (heq ▸ hother)
  · intro field hmem
    rcases List.mem_append.mp hmem with hhead | hfield
    · cases metadata with
      | none => exact absurd hhead List.not_mem_nil
      | some items =>
          rw [List.mem_singleton.mp hhead, Json.uniqueKeys_object]
          refine ⟨?_, ?_⟩
          · rw [List.map_map]
            exact ((List.perm_insertionSort _ items).map
              Prod.fst).nodup_iff.mpr hmetadata
          · intro text htext
            obtain ⟨item, -, rfl⟩ := List.mem_map.mp htext
            rfl
    · obtain ⟨tensor, -, rfl⟩ := List.mem_map.mp hfield
      rw [fieldOf, Json.uniqueKeys_object]
      refine ⟨entryRecord_keys _ _ _ _, ?_⟩
      intro part hpart
      simp only [entryRecord, List.mem_cons, List.not_mem_nil, or_false] at hpart
      rcases hpart with rfl | rfl | rfl
      · rfl
      · refine (Json.uniqueKeys.eq_1 _).trans (uniqueItems_eq_true.mpr ?_)
        intro item hitem
        obtain ⟨value, -, rfl⟩ := List.mem_map.mp hitem
        rfl
      · rfl

theorem metadataOf_texts (items : Dict String String) :
    metadataOf (.object (items.map fun item => (item.1, .text item.2))) =
      .ok items := by
  rw [metadataOf]
  induction items with
  | nil => rfl
  | cons item items ih =>
      rw [List.map_cons, List.mapM_cons, ih]
      rfl

theorem sortKeys_texts (items : Dict String String) :
    (Json.object (items.map fun item => (item.1, .text item.2))).sortKeys =
      .object ((items.insertionSort fun left right => left.1 ≤ right.1).map
        fun item => (item.1, .text item.2)) := by
  have hvalues : sortFields (items.map fun item => (item.1, Json.text item.2)) =
      items.map fun item => (item.1, .text item.2) := by
    rw [sortFields_eq_mapValues, Dict.mapValues, List.map_map]
    rfl
  have hsort := List.map_insertionSort
    (fun left right : String × String => left.1 ≤ right.1)
    (fun left right : String × Json => left.1 ≤ right.1)
    (fun item => (item.1, Json.text item.2)) items fun _ _ _ _ => Iff.rfl
  rw [Json.sortKeys_object, sortedFields, hvalues, hsort]

theorem metadata_fullHeader {dataStart : ℤ} {tensors : List TensorInfo}
    (hunique : (Json.object (fullHeader metadata dataStart tensors)).uniqueKeys =
      true)
    (hnames : metadataKey ∉ tensors.map TensorInfo.name) :
    ∃ read, metadataOf ((Dict.get? (sortedFields
        (fullHeader metadata dataStart tensors)) metadataKey).getD
          (.object [])) = .ok read ∧ read.Perm (metadata.getD []) := by
  rw [get?_sortedFields (Json.uniqueKeys_object.mp hunique).1]
  cases metadata with
  | none =>
      have hnone : Dict.get? (tensors.map (fieldOf dataStart)) metadataKey =
          none := by
        rw [Dict.get?_eq_none_iff, Dict.keys, List.map_map]
        exact hnames
      rw [fullHeader, metadataHeader, List.nil_append, hnone]
      exact ⟨[], rfl, .nil⟩
  | some items =>
      have hget : Dict.get? (fullHeader (some items) dataStart tensors)
          metadataKey = some (.object
            ((items.insertionSort fun left right => left.1 ≤ right.1).map
              fun item => (item.1, .text item.2))) := rfl
      rw [hget, Option.map_some, Option.getD_some, sortKeys_texts,
        metadataOf_texts]
      exact ⟨_, rfl, (List.perm_insertionSort _ _).trans
        (List.perm_insertionSort _ _)⟩

/-- The fields of the header, in the order of its keys, describe the tensors in
some order. -/
theorem records_fullHeader {dataStart : ℤ} {tensors : List TensorInfo}
    (hnames : metadataKey ∉ tensors.map TensorInfo.name) :
    ∃ sorted, List.Forall₂ (fun field tensor => field.1 = tensor.name ∧
        ∃ raw, field.2 = .object raw ∧ RecordOf dataStart tensor raw)
      ((sortedFields (fullHeader metadata dataStart tensors)).filter fun field =>
        field.1 ≠ metadataKey) sorted ∧ sorted.Perm tensors := by
  have hfilter : (Dict.mapValues Json.sortKeys
      (fullHeader metadata dataStart tensors)).filter (fun field =>
        field.1 ≠ metadataKey) =
      Dict.mapValues Json.sortKeys (tensors.map (fieldOf dataStart)) := by
    rw [fullHeader, Dict.mapValues, List.map_append, List.filter_append]
    have hhead : ((metadataHeader metadata).map fun item =>
        (item.1, item.2.sortKeys)).filter (fun field =>
          field.1 ≠ metadataKey) = [] := by
      cases metadata with
      | none => rfl
      | some items => rfl
    rw [hhead, List.nil_append]
    apply List.filter_eq_self.mpr
    intro field hmem
    obtain ⟨source, hsource, rfl⟩ := List.mem_map.mp hmem
    obtain ⟨tensor, htensor, rfl⟩ := List.mem_map.mp hsource
    have hname : tensor.name ≠ metadataKey := fun heq =>
      hnames (heq ▸ List.mem_map_of_mem htensor)
    exact decide_eq_true hname
  have hperm := (sortedFields_perm (fullHeader metadata dataStart tensors)).filter
    fun field => field.1 ≠ metadataKey
  rw [hfilter] at hperm
  apply List.perm_comp_forall₂ hperm
  rw [Dict.mapValues, List.map_map, List.forall₂_map_left_iff, List.forall₂_same]
  intro tensor _
  exact ⟨rfl, _, Json.sortKeys_object _, entryRecord_sorted tensor⟩

/-! ## The data -/

/-- What a tensor of a file is: its name, its dtype, its shape and its bytes. -/
def described (file : Bytes) (tensor : TensorInfo) :
    String × String × List ℤ × Option Bytes :=
  (tensor.name, tensor.dtype, tensor.shape,
    (PayloadValue.range file tensor.range.start tensor.range.stop).content)

def TensorEntry.described (entry : TensorEntry) :
    String × String × List ℤ × Option Bytes :=
  (entry.name, entry.dtype, entry.shape, entry.payload.content)

theorem content_between (before middle behind : Bytes) :
    (PayloadValue.range (before ++ (middle ++ behind)) before.length
      (before.length + middle.length)).content = some middle := by
  have hinside : (before.length + middle.length : ℤ) ≤
      (before ++ (middle ++ behind)).length := by
    rw [List.length_append, List.length_append]
    omega
  have hlength : ((before.length + middle.length : ℤ) - before.length).toNat =
      middle.length := by omega
  rw [PayloadValue.content, if_pos ⟨Int.natCast_nonneg _, by omega, .inr hinside⟩,
    hlength, Int.toNat_natCast, List.drop_left, List.take_left]

theorem described_layout {entries : List TensorEntry}
    (hsized : ∀ entry ∈ entries, entry.WellSized) (before : Bytes) :
    (layout before.length entries).map (described
        (before ++ (entries.map TensorEntry.bytes).flatten)) =
      entries.map TensorEntry.described := by
  induction entries generalizing before with
  | nil => rfl
  | cons entry entries ih =>
      obtain ⟨hentry, hentries⟩ := List.forall_mem_cons.mp hsized
      have hrest := ih hentries (before ++ entry.bytes)
      rw [List.length_append, Nat.cast_add, List.append_assoc] at hrest
      rw [List.map_cons, List.flatten_cons, layout, List.map_cons, List.map_cons,
        hrest, described, content_between, TensorEntry.described, hentry.1]

theorem names_layout (start : ℤ) (entries : List TensorEntry) :
    (layout start entries).map TensorInfo.name = entries.map TensorEntry.name := by
  induction entries generalizing start with
  | nil => rfl
  | cons entry entries ih => rw [layout, List.map_cons, ih, List.map_cons]

/-! ## Files -/

theorem loads_rawHeader (other : Bytes → Option (List Char))
    {header : Dict String Json} (hwritten : (Json.object header).Written) :
    Json.loads other (rawHeader header) = some (.object (sortedFields header)) := by
  have hloads := Json.loads_dumps hwritten.sortKeys other
    ((8 - (Json.object header).sortKeys.dumps.length % 8) % 8)
  rw [Json.sortKeys_object] at hloads
  rw [rawHeader, Json.sortKeys_object]
  exact hloads

theorem writeTemporary_eq_ok {sha256 : Bytes → String}
    {entries : List TensorEntry} {header : Dict String Json}
    (hnodup : (entries.map TensorEntry.name).Nodup)
    (hheader : headerOf entries metadata = .ok header)
    (hsized : ∀ entry ∈ entries, entry.WellSized) :
    ∃ digests, writeTemporary sha256 entries metadata =
      .ok (frame (rawHeader header) (entries.map TensorEntry.bytes).flatten,
        digests) := by
  have hfile := List.append_assoc (packLength (rawHeader header).length)
    (rawHeader header) (entries.map TensorEntry.bytes).flatten
  obtain ⟨digests, hrun⟩ := writeEntries_eq_ok.mpr ⟨hsized, hfile.symm⟩
  refine ⟨digests, ?_⟩
  simp only [writeTemporary, bind_eq_ok, require_eq_ok]
  exact ⟨(), hnodup, header, hheader, hrun⟩

theorem wellSized_of_writeTemporary {sha256 : Bytes → String}
    {entries : List TensorEntry} {file : Bytes} {digests : Dict String String}
    (hrun : writeTemporary sha256 entries metadata = .ok (file, digests)) :
    ∀ entry ∈ entries, entry.WellSized := by
  simp only [writeTemporary, bind_eq_ok, require_eq_ok] at hrun
  obtain ⟨-, -, header, -, hwritten⟩ := hrun
  exact (writeEntries_eq_ok.mp ⟨digests, hwritten⟩).1

theorem published {sha256 : Bytes → String} {destination : Option Bytes}
    {entries : List TensorEntry} {file : Bytes} {digests : Dict String String}
    (hrun : writeTemporary sha256 entries metadata = .ok (file, digests)) :
    writeSafetensorsAtomic sha256 destination entries metadata =
      (some file, .ok (digests, sha256 file)) := by
  rw [writeSafetensorsAtomic, hrun]

/-- The reader accepts the framed header and payloads. -/
theorem openReader_frame (runtime : Runtime) (other : Bytes → Option (List Char))
    {entries : List TensorEntry} {header : Dict String Json}
    (hnodup : (entries.map TensorEntry.name).Nodup)
    (hnames : metadataKey ∉ entries.map TensorEntry.name)
    (hmetadata : (Dict.keys (metadata.getD [])).Nodup)
    (hsized : ∀ entry ∈ entries, entry.WellSized)
    (hheader : headerOf entries metadata = .ok header)
    (hsize : (rawHeader header).length ≤ 1 <<< 30) {file : Bytes}
    (hfile : file =
      frame (rawHeader header) (entries.map TensorEntry.bytes).flatten) :
    ∃ reader, openReader { runtime with loads := Json.loads other } file =
        .ok reader ∧ reader.metadata.Perm (metadata.getD []) ∧
      (reader.tensors.map (described file)).Perm
        (entries.map TensorEntry.described) := by
  have hfull := Except.ok.inj (hheader.symm.trans
    (headerOf_eq (8 + (rawHeader header).length : ℕ) hsized hnodup hnames))
  set start : ℕ := 8 + (rawHeader header).length with hstart
  have hnames' : metadataKey ∉ (layout start entries).map TensorInfo.name := by
    rwa [names_layout]
  have hunique : (Json.object header).uniqueKeys = true := by
    rw [hfull]
    exact unique_fullHeader hmetadata (by rwa [names_layout]) hnames'
  have hwritten : (Json.object header).Written := by
    rw [hfull]
    exact written_fullHeader start _
  obtain ⟨metadataRead, hread, hmetadataPerm⟩ :=
    metadata_fullHeader (hfull ▸ hunique) hnames'
  obtain ⟨sorted, hrecords, hperm⟩ :=
    @records_fullHeader metadata start _ hnames'
  rw [← hfull] at hread hrecords
  have hdescribes : Describes { runtime with loads := Json.loads other } file
      (sortedFields header) sorted := by
    rw [hfile]
    refine describes_frame hsize (loads_rawHeader other hwritten) ?_
      ⟨metadataRead, hread⟩ hrecords
    rw [← Json.sortKeys_object]
    exact Json.uniqueKeys_sortKeys hunique
  obtain ⟨htiles, hsettled⟩ := layout_tiles start entries
  have hranges := hperm.map TensorInfo.range
  rw [← tiles_perm hranges] at htiles
  rw [← settled_perm hranges] at hsettled
  have hlength : unpackLength (file.take 8) = (rawHeader header).length := by
    rw [hfile, take_frame]
    exact unpackLength_packLength (hsize.trans_lt (by decide))
  obtain ⟨reader, hrun, htensors, hmetadataOf⟩ := hdescribes.accepted
    (fun tensor hmem => layout_sized start hsized tensor (hperm.mem_iff.mp hmem))
    (by rw [hlength, hfile, length_frame, Nat.cast_add (8 + _)]; exact htiles)
    hsettled
  refine ⟨reader, hrun, ?_, ?_⟩
  · rw [Except.ok.inj (hmetadataOf.symm.trans hread)]
    exact hmetadataPerm
  · have hsame := described_layout hsized
      (packLength (rawHeader header).length ++ rawHeader header)
    rw [List.length_append, length_packLength, List.append_assoc, ← frame,
      ← hstart, ← hfile] at hsame
    rw [htensors, ← hsame]
    exact hperm.map _

/-- Entries of the declared sizes can be read back from the file that is
written for them; of other sizes, they leave the destination alone. -/
theorem writeSafetensorsAtomic_roundTrip (runtime : Runtime)
    (other : Bytes → Option (List Char)) (destination : Option Bytes)
    (entries : List TensorEntry) (metadata : Option (Dict String String)) :
    ((entries.map TensorEntry.name).Nodup →
      metadataKey ∉ entries.map TensorEntry.name →
      (Dict.keys (metadata.getD [])).Nodup →
      (∀ entry ∈ entries, entry.WellSized) →
      (∀ header, headerOf entries metadata = .ok header →
        (rawHeader header).length < 1 <<< 30) →
      ∃ file results reader,
        writeSafetensorsAtomic runtime.sha256 destination entries metadata =
          (some file, .ok results) ∧
        openReader { runtime with loads := Json.loads other } file =
          .ok reader ∧
        reader.metadata.Perm (metadata.getD []) ∧
        (reader.tensors.map (described file)).Perm
          (entries.map TensorEntry.described)) ∧
    ((∃ entry ∈ entries, ¬entry.WellSized) → ∃ failure,
      writeSafetensorsAtomic runtime.sha256 destination entries metadata =
        (destination, .error failure)) := by
  constructor
  · intro hnodup hnames hmetadata hsized hsize
    have hheader := @headerOf_eq metadata _ 0 hsized hnodup hnames
    obtain ⟨digests, hrun⟩ :=
      @writeTemporary_eq_ok _ runtime.sha256 _ _ hnodup hheader hsized
    obtain ⟨reader, hopen, hread⟩ := openReader_frame runtime other hnodup hnames
      hmetadata hsized hheader (hsize _ hheader).le rfl
    exact ⟨_, _, reader, published hrun, hopen, hread⟩
  · rintro ⟨entry, hmem, hwrong⟩
    cases hrun : writeTemporary runtime.sha256 entries metadata with
    | ok result =>
        exact absurd (wellSized_of_writeTemporary hrun entry hmem) hwrong
    | error failure =>
        exact ⟨failure, by rw [writeSafetensorsAtomic, hrun]⟩

/-- A scalar, an empty tensor and a tensor that a factory takes from a file. -/
def threeEntries : List TensorEntry := [
  ⟨"s", "F32", [], .value (.bytes [1, 2, 3, 4])⟩,
  ⟨"e", "U8", [0], .value (.bytes [])⟩,
  ⟨"b", "U8", [2], .factory (.ok (.range [5, 6, 7, 8] 1 3))⟩]

def shortEntry : TensorEntry := ⟨"b", "U8", [2], .value (.bytes [5])⟩

theorem writeSafetensorsAtomic_roundTrip_three :
    (∃ file results reader,
      writeSafetensorsAtomic (fun _ => "") none threeEntries (some [("k", "v")]) =
        (some file, .ok results) ∧
      openReader { sampleRuntime with loads := Json.loads fun _ => none } file =
        .ok reader ∧
      reader.metadata.Perm [("k", "v")] ∧
      (reader.tensors.map (described file)).Perm
        (threeEntries.map TensorEntry.described)) ∧
    ∃ failure, writeSafetensorsAtomic (fun _ => "") (some [9]) [shortEntry] none =
      (some [9], .error failure) := by
  have hsized : ∀ entry ∈ threeEntries, entry.WellSized := by
    intro entry hmem
    simp only [threeEntries, List.mem_cons, List.not_mem_nil, or_false] at hmem
    rcases hmem with rfl | rfl | rfl
    · exact ⟨rfl, rfl⟩
    · exact ⟨rfl, rfl⟩
    · exact ⟨rfl, rfl⟩
  refine ⟨(writeSafetensorsAtomic_roundTrip sampleRuntime (fun _ => none) none
    threeEntries (some [("k", "v")])).1 (by decide) (by decide) (by decide) hsized
    ?_, (writeSafetensorsAtomic_roundTrip sampleRuntime (fun _ => none) (some [9])
      [shortEntry] none).2 ⟨shortEntry, List.mem_cons_self, ?_⟩⟩
  · intro header hheader
    rw [headerOf_eq 0 hsized (by decide) (by decide), Except.ok.injEq] at hheader
    rw [← hheader]
    decide +kernel
  · rintro ⟨-, hnbytes⟩
    cases hnbytes

end GlmFlash.Safetensors
