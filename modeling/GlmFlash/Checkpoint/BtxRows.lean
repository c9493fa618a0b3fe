import GlmFlash.Checkpoint.BtxAudit

/-!
# The rows of a layer

The planes of a well-stored trellis have the sizes that the rates declare, so the cursor
of the packer and the address of the unpacker count the same bytes.
-/

namespace GlmFlash.Checkpoint.Btx

open GlmFlash.Library

variable {format : BtxFormat} {store : PayloadStore} {choice : Choice}

theorem loadTensor_typed {hashing : Hashing} {ref : ObjectRef} {tensor : Tensor}
    (hload : loadTensor hashing store ref = .ok tensor) :
    itemSizes.get? tensor.dtype = some tensor.itemSize := by
  simp only [loadTensor, bind_eq_ok, require_eq_ok] at hload
  obtain ⟨raw, -, -, -, hfound⟩ := hload
  cases hsize : itemSizes.get? ref.dtype with
  | none => simp [hsize] at hfound
  | some itemSize =>
      simp only [hsize] at hfound
      split at hfound
      · rw [pure_eq_ok] at hfound
        rw [← hfound]
        exact hsize
      · cases hfound

/-! ## Stored choices -/

def reconstructionShape (projection : Projection) (hidden intermediate : ℕ) : List ℕ :=
  match projection with
  | .downProj => [hidden, intermediate]
  | _ => [intermediate, hidden]

/-- A finite vector of half-precision numbers. -/
structure HalfVector (tensor : Tensor) (length : ℕ) : Prop where
  dtype : tensor.dtype = "float16"
  shape : tensor.shape = [length]
  finite : allFinite tensor.data = true

/-- What `put_choice` checks of the tensors of a choice, with the trellis that the codec
makes for the rate and finite vectors. -/
structure WellStored (format : BtxFormat) (store : PayloadStore) (hidden intermediate : ℕ)
    (choice : Choice) : Prop where
  reconstruction : ∃ tensor,
    loadTensor format.toHashing store choice.objects.reconstruction = .ok tensor ∧
      tensor.shape = reconstructionShape choice.projection hidden intermediate
  trellis : ∃ tensor, loadTensor format.toHashing store choice.objects.trellis = .ok tensor ∧
    tensor.dtype = "int16" ∧ (tensor.shape.map Int.ofNat : List ℤ) =
      expectedShape choice.projection hidden intermediate choice.bits
  suh : ∃ tensor, loadTensor format.toHashing store choice.objects.suh = .ok tensor ∧
    HalfVector tensor ((reconstructionShape choice.projection hidden intermediate).getD 1 0)
  svh : ∃ tensor, loadTensor format.toHashing store choice.objects.svh = .ok tensor ∧
    HalfVector tensor ((reconstructionShape choice.projection hidden intermediate).getD 0 0)

/-! ## Planes -/

theorem tensorOf_ok {dtype : String} {itemSize : ℕ} {shape : List ℕ} {data : Bytes}
    (hlength : data.length = shape.prod * itemSize) :
    tensorOf dtype itemSize shape data = .ok ⟨dtype, itemSize, shape, data, hlength⟩ :=
  dif_pos hlength

/-- A plane of 16-bit numbers at a rate. -/
structure IsPlane (hidden rate : ℕ) (plane : Tensor) : Prop where
  dtype : plane.dtype = "int16"
  itemSize : plane.itemSize = 2
  shape : plane.shape = [hidden / 16, 16 * rate]

theorem IsPlane.length {hidden rate : ℕ} {plane : Tensor} (hplane : IsPlane hidden rate plane) :
    plane.data.length = hidden / 16 * 16 * rate * 2 := by
  rw [plane.length_data, hplane.shape, hplane.itemSize, List.prod_cons, List.prod_cons,
    List.prod_nil, Nat.mul_one, Nat.mul_assoc (hidden / 16) 16]

theorem middleSlice_ok {tensor : Tensor} {first middle last index : ℕ}
    (hshape : tensor.shape = [first, middle, last]) (hindex : index < middle) :
    ∃ plane, middleSlice tensor index = .ok plane ∧ plane.dtype = tensor.dtype ∧
      plane.itemSize = tensor.itemSize ∧ plane.shape = [first, last] := by
  have hdata : tensor.data.length = first * middle * (last * tensor.itemSize) := by
    rw [tensor.length_data, hshape, List.prod_cons, List.prod_cons, List.prod_cons,
      List.prod_nil, Nat.mul_one, ← Nat.mul_assoc, ← Nat.mul_assoc]
  have hlength : ((List.range first).flatMap fun row =>
      portion tensor.data ((row * middle + index) * (last * tensor.itemSize))
        (last * tensor.itemSize)).length = [first, last].prod * tensor.itemSize := by
    rw [List.length_flatMap, List.map_congr_left (g := fun _ => last * tensor.itemSize)]
    · rw [List.map_const', List.length_range, List.sum_replicate, nsmul_eq_mul, Nat.cast_id,
        List.prod_cons, List.prod_cons, List.prod_nil, Nat.mul_one, Nat.mul_assoc]
    · intro row hrow
      apply length_portion
      have hle : row * middle + index + 1 ≤ first * middle := by
        have hrows := Nat.mul_le_mul_right middle (Nat.succ_le_of_lt (List.mem_range.mp hrow))
        rw [Nat.succ_mul] at hrows
        omega
      have hbytes := Nat.mul_le_mul_right (last * tensor.itemSize) hle
      rw [Nat.add_mul, Nat.one_mul] at hbytes
      rwa [hdata]
  rw [middleSlice, hshape]
  dsimp only
  rw [if_pos hindex, tensorOf_ok hlength]
  exact ⟨_, rfl, rfl, rfl, rfl⟩

theorem firstSlice_ok {tensor : Tensor} {first middle last index : ℕ}
    (hshape : tensor.shape = [first, middle, last]) (hindex : index < first) :
    ∃ plane, firstSlice tensor index = .ok plane ∧ plane.dtype = tensor.dtype ∧
      plane.itemSize = tensor.itemSize ∧ plane.shape = [middle, last] := by
  have hdata : tensor.data.length = first * (middle * (last * tensor.itemSize)) := by
    rw [tensor.length_data, hshape, List.prod_cons, List.prod_cons, List.prod_cons,
      List.prod_nil, Nat.mul_one, Nat.mul_assoc, Nat.mul_assoc]
  have hlength : (portion tensor.data (index * (middle * (last * tensor.itemSize)))
      (middle * (last * tensor.itemSize))).length = [middle, last].prod * tensor.itemSize := by
    rw [length_portion, List.prod_cons, List.prod_cons, List.prod_nil, Nat.mul_one, Nat.mul_assoc]
    have hle := Nat.mul_le_mul_right (middle * (last * tensor.itemSize))
      (Nat.succ_le_of_lt hindex)
    rw [Nat.succ_mul] at hle
    rwa [hdata]
  rw [firstSlice, hshape]
  dsimp only
  rw [if_pos hindex, tensorOf_ok hlength]
  exact ⟨_, rfl, rfl, rfl, rfl⟩

/-- The planes of a slot exist and have the size of the rate. -/
theorem trellisPlanes_ok {hidden intermediate slot rate : ℕ}
    (hstored : WellStored format store hidden intermediate choice)
    (hrate : choice.bits = rate) (hslot : slot < intermediate / atomChannels) :
    ∃ planes, trellisPlanes format store choice choice.projection slot hidden intermediate =
        .ok planes ∧
      IsPlane hidden rate planes.1 ∧ IsPlane hidden rate planes.2 := by
  obtain ⟨trellis, hload, hdtype, hshape⟩ := hstored.trellis
  have hitem : trellis.itemSize = 2 := by
    have htyped := loadTensor_typed hload
    rw [hdtype] at htyped
    exact (Option.some.inj htyped).symm
  have hinside : 2 * slot + 1 < intermediate / 16 := by
    rw [atomChannels] at hslot
    omega
  have hplane : ∀ {plane : Tensor}, plane.dtype = trellis.dtype →
      plane.itemSize = trellis.itemSize → plane.shape = [hidden / 16, 16 * rate] →
        IsPlane hidden rate plane := fun htype hsize hform =>
    ⟨htype.trans hdtype, hsize.trans hitem, hform⟩
  rw [trellisPlanes, hload]
  cases hprojection : choice.projection with
  | downProj =>
      rw [hprojection, hrate] at hshape
      have hsizes : trellis.shape = [intermediate / 16, hidden / 16, 16 * rate] := by
        apply List.map_injective_iff.mpr Int.ofNat_injective
        rw [hshape]
        rfl
      obtain ⟨low, hlow, htype, hsize, hform⟩ :=
        firstSlice_ok hsizes ((Nat.lt_succ_self _).trans hinside)
      obtain ⟨high, hhigh, htype', hsize', hform'⟩ := firstSlice_ok hsizes hinside
      refine ⟨(low, high), ?_, hplane htype hsize hform, hplane htype' hsize' hform'⟩
      simp only [fromStore, ok_bind, hrate, hshape, ne_eq, not_true_eq_false, if_false, hlow,
        hhigh]
      rfl
  | _ =>
      rw [hprojection, hrate] at hshape
      have hsizes : trellis.shape = [hidden / 16, intermediate / 16, 16 * rate] := by
        apply List.map_injective_iff.mpr Int.ofNat_injective
        rw [hshape]
        rfl
      obtain ⟨low, hlow, htype, hsize, hform⟩ :=
        middleSlice_ok hsizes ((Nat.lt_succ_self _).trans hinside)
      obtain ⟨high, hhigh, htype', hsize', hform'⟩ := middleSlice_ok hsizes hinside
      refine ⟨(low, high), ?_, hplane htype hsize hform, hplane htype' hsize' hform'⟩
      simp only [fromStore, ok_bind, hrate, hshape, ne_eq, not_true_eq_false, if_false, hlow,
        hhigh]
      rfl

/-! ## Rates -/

/-- The rates that the container has codes for. -/
def Coded (rate : ℕ) : Prop :=
  rate = 3 ∨ rate = 4 ∨ rate = 5 ∨ rate = 6

/-- The code of one rate for both planes. -/
def code (rate : ℕ) : ℕ :=
  rate <<< 4 ||| rate

theorem Coded.rateCode {rate : ℕ} (hrate : Coded rate) : rateCode rate = .ok (code rate) := by
  rcases hrate with rfl | rfl | rfl | rfl <;> rfl

theorem Coded.bits {rate : ℕ} (hrate : Coded rate) : bits (code rate) = (rate, rate) := by
  rcases hrate with rfl | rfl | rfl | rfl <;> rfl

theorem Coded.code_lt {rate : ℕ} (hrate : Coded rate) : code rate < 256 := by
  rcases hrate with rfl | rfl | rfl | rfl <;> decide

/-- The rates of an expert's gate and up projections, and of its down projection. -/
structure Paired where
  fc1 : ℕ
  fc2 : ℕ

/-- The rate of a projection. -/
def Paired.rate (rates : Paired) : Projection → ℕ
  | .gateProj => rates.fc1
  | .upProj => rates.fc1
  | .downProj => rates.fc2

/-- The bytes of an expert in a row. -/
def Paired.bytes (rates : Paired) (hidden : ℕ) : ℕ :=
  2 * matrixAtomBytes hidden rates.fc1 rates.fc1 + matrixAtomBytes hidden rates.fc2 rates.fc2

/-! ## Rows -/

section Rows

variable {choices : Choices} {hidden intermediate slot : ℕ}
  {planes : ℕ × Projection → Tensor × Tensor}

/-- The bytes that an expert's projection has in a row. -/
def segment (planes : ℕ × Projection → Tensor × Tensor) (key : ℕ × Projection) : Bytes :=
  (planes key).1.data ++ (planes key).2.data

/-- The planes that the packer finds for a slot, with the sizes of the rates. -/
structure SlotPlanes (format : BtxFormat) (store : PayloadStore) (choices : Choices)
    (hidden intermediate slot numExperts : ℕ) (rates : ℕ → Paired)
    (planes : ℕ × Projection → Tensor × Tensor) : Prop where
  found : ∀ key ∈ expectedKeys (List.range numExperts), ∃ choice,
    choices.find key.1 key.2 = .ok choice ∧
      trellisPlanes format store choice key.2 slot hidden intermediate = .ok (planes key)
  low : ∀ key ∈ expectedKeys (List.range numExperts),
    IsPlane hidden ((rates key.1).rate key.2) (planes key).1
  high : ∀ key ∈ expectedKeys (List.range numExperts),
    IsPlane hidden ((rates key.1).rate key.2) (planes key).2

/-- The used part of a row. -/
def rowBytes (numExperts : ℕ) (planes : ℕ × Projection → Tensor × Tensor) : Bytes :=
  (expectedKeys (List.range numExperts)).flatMap (segment planes)

/-- The six planes of an expert. -/
def expertSegment (planes : ℕ × Projection → Tensor × Tensor) (expert : ℕ) : Bytes :=
  segment planes (expert, .gateProj) ++ (segment planes (expert, .upProj) ++
    segment planes (expert, .downProj))

theorem rowBytes_eq (numExperts : ℕ) (planes : ℕ × Projection → Tensor × Tensor) :
    rowBytes numExperts planes = (List.range numExperts).flatMap (expertSegment planes) := by
  rw [rowBytes, expectedKeys, List.flatMap_assoc]
  apply List.flatMap_congr
  intro expert hexpert
  simp only [projections, List.map_cons, List.map_nil, List.flatMap_cons, List.flatMap_nil,
    List.append_nil, expertSegment]

theorem mem_expectedKeys {experts : List ℕ} {expert : ℕ} {projection : Projection} :
    (expert, projection) ∈ expectedKeys experts ↔ expert ∈ experts := by
  simp only [expectedKeys, List.mem_flatMap, List.mem_map, Prod.mk.injEq]
  constructor
  · rintro ⟨found, hfound, -, -, rfl, -⟩
    exact hfound
  · intro hexpert
    refine ⟨expert, hexpert, projection, ?_, rfl, rfl⟩
    cases projection <;> decide

variable {numExperts : ℕ} {rates : ℕ → Paired}

section Planes

variable
  (hplanes : SlotPlanes format store choices hidden intermediate slot numExperts rates planes)
include hplanes

theorem SlotPlanes.length_segment {expert : ℕ} (hexpert : expert < numExperts)
    (projection : Projection) :
    (segment planes (expert, projection)).length = matrixAtomBytes hidden
      ((rates expert).rate projection) ((rates expert).rate projection) := by
  have hkey : (expert, projection) ∈ expectedKeys (List.range numExperts) :=
    mem_expectedKeys.mpr (List.mem_range.mpr hexpert)
  have hlow : (planes (expert, projection)).1.data.length =
      hidden / 16 * 16 * (rates expert).rate projection * 2 := (hplanes.low _ hkey).length
  have hhigh : (planes (expert, projection)).2.data.length =
      hidden / 16 * 16 * (rates expert).rate projection * 2 := (hplanes.high _ hkey).length
  rw [segment, List.length_append, hlow, hhigh, matrixAtomBytes, Nat.mul_add,
    Nat.mul_right_comm _ 16, Nat.mul_right_comm _ 32]
  omega

theorem SlotPlanes.length_expertSegment {expert : ℕ} (hexpert : expert < numExperts) :
    (expertSegment planes expert).length = (rates expert).bytes hidden := by
  rw [expertSegment, List.length_append, List.length_append, hplanes.length_segment hexpert,
    hplanes.length_segment hexpert, hplanes.length_segment hexpert, Paired.bytes, Paired.rate,
    Paired.rate, Paired.rate, Nat.two_mul, Nat.add_assoc]

theorem SlotPlanes.length_rowBytes :
    (rowBytes numExperts planes).length =
      ((List.range numExperts).map fun expert => (rates expert).bytes hidden).sum := by
  rw [rowBytes_eq, List.length_flatMap]
  apply congrArg List.sum
  apply List.map_congr_left
  exact fun expert hexpert => hplanes.length_expertSegment (List.mem_range.mp hexpert)

/-- The packer writes the planes in order and leaves zeros behind them. -/
theorem packRow_ok {stride size : ℕ} (hsize : (rowBytes numExperts planes).length = size)
    (hfits : size ≤ stride) :
    packRow format store choices (List.range numExperts) hidden intermediate stride size slot =
      .ok (filled stride 0 (rowBytes numExperts planes)) := by
  have hround : ∀ key ∈ expectedKeys (List.range numExperts), ∀ before,
      before.length + (segment planes key).length ≤ stride →
        packProjection format store choices slot hidden intermediate (packed stride 0 before)
          key = .ok (packed stride 0 (before ++ segment planes key)) := by
    intro key hkey before hroom
    obtain ⟨choice, hfind, hfound⟩ := hplanes.found key hkey
    rw [segment, List.length_append, ← Nat.add_assoc] at hroom
    rw [packProjection, hfind, ok_bind, hfound, ok_bind,
      put_packed _ ((Nat.le_add_right _ _).trans hroom), ok_bind,
      put_packed _ (by rwa [List.length_append]), List.append_assoc]
    rfl
  have hrun := @foldlM_packed _ _ _ _ stride 0 (segment planes) _ [] hround (by
    rw [List.nil_append]
    change (rowBytes numExperts planes).length ≤ stride
    rwa [hsize])
  rw [List.nil_append] at hrun
  change (expectedKeys (List.range numExperts)).foldlM
    (packProjection format store choices slot hidden intermediate) (packed stride 0 []) =
      Except.ok (packed stride 0 (rowBytes numExperts planes)) at hrun
  rw [packRow, hrun, ok_bind, packed]
  have hpadding : ((filled stride 0 (rowBytes numExperts planes)).drop
      (rowBytes numExperts planes).length).all (· = 0) := by
    rw [drop_filled, List.all_eq_true]
    exact fun byte hbyte => decide_eq_true (List.eq_of_mem_replicate hbyte)
  rw [require, if_pos ⟨hsize, hpadding⟩, ok_bind]
  rfl

/-- The place of a projection among the planes of its expert. -/
def projectionOffset (hidden : ℕ) (rates : Paired) : Projection → ℕ
  | .gateProj => 0
  | .upProj => matrixAtomBytes hidden rates.fc1 rates.fc1
  | .downProj => matrixAtomBytes hidden rates.fc1 rates.fc1 +
      matrixAtomBytes hidden rates.fc1 rates.fc1

/-- The bytes before a projection. -/
def rowOffset (hidden : ℕ) (rates : ℕ → Paired) (expert : ℕ) (projection : Projection) : ℕ :=
  ((List.range expert).map fun earlier => (rates earlier).bytes hidden).sum +
    projectionOffset hidden (rates expert) projection

/-- A projection's planes stand at its offset in the row. -/
theorem SlotPlanes.split {expert : ℕ} (hexpert : expert < numExperts) (projection : Projection) :
    ∃ before after, rowBytes numExperts planes =
        before ++ segment planes (expert, projection) ++ after ∧
      before.length = rowOffset hidden rates expert projection := by
  have hitem : (List.range numExperts)[expert]? = some expert :=
    List.getElem?_range hexpert
  have hsplit := @flatMap_split _ _ (expertSegment planes) _ _ _ hitem
  rw [← rowBytes_eq] at hsplit
  have hbefore : (((List.range numExperts).take expert).flatMap
      (expertSegment planes)).length =
        ((List.range expert).map fun earlier => (rates earlier).bytes hidden).sum := by
    have hsize : ∀ earlier ∈ List.range numExperts,
        (expertSegment planes earlier).length = (rates earlier).bytes hidden :=
      fun earlier hearlier => hplanes.length_expertSegment (List.mem_range.mp hearlier)
    rw [length_flatMap_take hsize, List.take_range, min_eq_left hexpert.le]
  have hlength := hplanes.length_segment hexpert
  generalize ((List.range numExperts).take expert).flatMap (expertSegment planes) = before
    at hsplit hbefore
  generalize ((List.range numExperts).drop (expert + 1)).flatMap (expertSegment planes) = after
    at hsplit
  rw [hsplit, expertSegment]
  cases projection with
  | gateProj =>
      refine ⟨before, segment planes (expert, .upProj) ++ segment planes (expert, .downProj) ++
        after, by simp only [List.append_assoc], ?_⟩
      rw [hbefore, rowOffset, projectionOffset, Nat.add_zero]
  | upProj =>
      refine ⟨before ++ segment planes (expert, .gateProj),
        segment planes (expert, .downProj) ++ after, by simp only [List.append_assoc], ?_⟩
      rw [List.length_append, hbefore, hlength, rowOffset, projectionOffset, Paired.rate]
  | downProj =>
      refine ⟨before ++ segment planes (expert, .gateProj) ++ segment planes (expert, .upProj),
        after, by simp only [List.append_assoc], ?_⟩
      rw [List.length_append, List.length_append, hbefore, hlength, hlength, rowOffset,
        projectionOffset, Paired.rate, Paired.rate, Nat.add_assoc]

end Planes

end Rows

/-! ## Addresses -/

section Addresses

variable {tables : RateCodes × RateCodes} {pairs numExperts : ℕ} {rates : ℕ → Paired}

/-- The rate tables hold the codes of the experts' rates. -/
structure TablesHold (tables : RateCodes × RateCodes) (pairs numExperts : ℕ)
    (rates : ℕ → Paired) : Prop where
  fc1 : ∀ pair < pairs, ∀ expert < numExperts,
    codeAt tables.1 pair expert = .ok (code (rates expert).fc1)
  fc2 : ∀ pair < pairs, ∀ expert < numExperts,
    codeAt tables.2 pair expert = .ok (code (rates expert).fc2)

/-- The rates of all experts have codes. -/
def AllCoded (numExperts : ℕ) (rates : ℕ → Paired) : Prop :=
  ∀ expert < numExperts, Coded (rates expert).fc1 ∧ Coded (rates expert).fc2

theorem expertBytes_ok (htables : TablesHold tables pairs numExperts rates)
    (hcoded : AllCoded numExperts rates) {hidden pair expert : ℕ} (hpair : pair < pairs)
    (hexpert : expert < numExperts) :
    expertBytes hidden tables pair expert = .ok ((rates expert).bytes hidden) := by
  obtain ⟨hfc1, hfc2⟩ := hcoded expert hexpert
  rw [expertBytes, htables.fc1 pair hpair expert hexpert, ok_bind,
    htables.fc2 pair hpair expert hexpert, ok_bind, hfc1.bits, hfc2.bits]
  rfl

theorem precedingBytes_ok (htables : TablesHold tables pairs numExperts rates)
    (hcoded : AllCoded numExperts rates) {hidden pair count : ℕ} (hpair : pair < pairs)
    (hcount : count ≤ numExperts) :
    precedingBytes hidden tables pair count =
      .ok ((List.range count).map fun expert => (rates expert).bytes hidden).sum := by
  induction count with
  | zero => rfl
  | succ count ih =>
      have hbefore := ih ((Nat.le_succ _).trans hcount)
      rw [precedingBytes] at hbefore ⊢
      rw [List.range_succ, List.foldlM_append, hbefore, ok_bind, List.foldlM_cons,
        expertBytes_ok htables hcoded hpair hcount, ok_bind, List.map_append,
        List.sum_append, List.map_singleton, List.sum_singleton]
      rfl

variable {atoms : Tensor} {slots stride hidden : ℕ}
  {planes : ℕ → ℕ × Projection → Tensor × Tensor}

/-- The atoms are the packed rows of the slots. -/
structure AtomsHold (atoms : Tensor) (slots stride numExperts : ℕ)
    (planes : ℕ → ℕ × Projection → Tensor × Tensor) : Prop where
  dtype : atoms.dtype = "uint8"
  shape : atoms.shape = [slots, stride]
  data : atoms.data = ((List.range slots).map fun slot =>
    filled stride 0 (rowBytes numExperts (planes slot))).flatten
  fits : ∀ slot < slots, (rowBytes numExperts (planes slot)).length ≤ stride

theorem AtomsHold.portion (hatoms : AtomsHold atoms slots stride numExperts planes) {slot : ℕ}
    (hslot : slot < slots) {start count : ℕ} (hinside : start + count ≤ stride) :
    portion atoms.data (slot * stride + start) count =
      portion (filled stride 0 (rowBytes numExperts (planes slot))) start count := by
  rw [hatoms.data]
  apply portion_flatten _ _ hinside
  · intro row hrow
    obtain ⟨other, hother, rfl⟩ := List.mem_map.mp hrow
    exact length_filled (hatoms.fits other (List.mem_range.mp hother))
  · rw [List.getElem?_map, List.getElem?_range hslot]
    rfl

theorem auditRow_ok {manifest : BtxManifest} {layer : String} {slot : ℕ}
    (htables : TablesHold tables pairs numExperts rates)
    (hcoded : AllCoded numExperts rates)
    (hatoms : AtomsHold atoms slots stride numExperts planes)
    (hexperts : manifest.geometry.numExperts = numExperts)
    (hhidden : manifest.geometry.hiddenSize = hidden) (hslot : slot < slots)
    (hpair : slot / 8 < pairs)
    (hlength : (rowBytes numExperts (planes slot)).length =
      ((List.range numExperts).map fun expert => (rates expert).bytes hidden).sum) :
    auditRow manifest layer atoms slots stride tables [] slot = .ok [] := by
  have hfits := hatoms.fits slot hslot
  have hpadding : portion atoms.data
      (slot * stride + (rowBytes numExperts (planes slot)).length)
      (stride - (rowBytes numExperts (planes slot)).length) =
        List.replicate (stride - (rowBytes numExperts (planes slot)).length) 0 := by
    rw [hatoms.portion hslot (by omega), Library.portion, drop_filled, List.take_replicate,
      min_self]
  rw [auditRow, if_neg (by simp), hhidden, hexperts,
    precedingBytes_ok htables hcoded hpair le_rfl, ok_bind, ← hlength,
    if_neg (not_lt.mpr hfits)]
  rw [require, if_pos hslot, hpadding]
  have hzero : (List.replicate (stride - (rowBytes numExperts (planes slot)).length)
      (0 : UInt8)).all (· == 0) = true := by
    rw [List.all_eq_true]
    intro byte hbyte
    rw [List.eq_of_mem_replicate hbyte]
    rfl
  simp only [hzero, findingUnless, if_true]
  rfl

/-- The high plane stands behind the low one. -/
def planeOffset (hidden rate : ℕ) : Plane → ℕ
  | .low => 0
  | .high => hidden / 16 * 16 * rate * 2

def Plane.of (planes : Tensor × Tensor) : Plane → Tensor
  | .low => planes.1
  | .high => planes.2

/-- The bytes at the address of a plane are its own. -/
theorem portion_plane {choices : Choices} {intermediate slot expert : ℕ}
    (hplanes : SlotPlanes format store choices hidden intermediate slot numExperts rates
      (planes slot))
    (hatoms : AtomsHold atoms slots stride numExperts planes) (hslot : slot < slots)
    (hexpert : expert < numExperts) (projection : Projection) (plane : Plane) :
    rowOffset hidden rates expert projection +
        planeOffset hidden ((rates expert).rate projection) plane +
          hidden / 16 * 16 * (rates expert).rate projection * 2 ≤ stride ∧
      portion atoms.data (slot * stride + (rowOffset hidden rates expert projection +
          planeOffset hidden ((rates expert).rate projection) plane))
        (hidden / 16 * 16 * (rates expert).rate projection * 2) =
          (plane.of (planes slot (expert, projection))).data := by
  have hkey : (expert, projection) ∈ expectedKeys (List.range numExperts) :=
    mem_expectedKeys.mpr (List.mem_range.mpr hexpert)
  have hlow : (planes slot (expert, projection)).1.data.length =
      hidden / 16 * 16 * (rates expert).rate projection * 2 := (hplanes.low _ hkey).length
  have hhigh : (planes slot (expert, projection)).2.data.length =
      hidden / 16 * 16 * (rates expert).rate projection * 2 := (hplanes.high _ hkey).length
  have hdata : (plane.of (planes slot (expert, projection))).data.length =
      hidden / 16 * 16 * (rates expert).rate projection * 2 := by
    cases plane with
    | low => exact hlow
    | high => exact hhigh
  obtain ⟨first, last, hrow, hfirst⟩ : ∃ first last,
      rowBytes numExperts (planes slot) =
        first ++ (plane.of (planes slot (expert, projection))).data ++ last ∧
      first.length = rowOffset hidden rates expert projection +
        planeOffset hidden ((rates expert).rate projection) plane := by
    obtain ⟨before, after, hrow, hbefore⟩ := hplanes.split hexpert projection
    rw [segment] at hrow
    cases plane with
    | low =>
        refine ⟨before, (planes slot (expert, projection)).2.data ++ after, ?_, hbefore⟩
        rw [hrow]
        simp only [List.append_assoc, Plane.of]
    | high =>
        refine ⟨before ++ (planes slot (expert, projection)).1.data, after, ?_, ?_⟩
        · rw [hrow]
          simp only [List.append_assoc, Plane.of]
        · rw [List.length_append, hbefore, hlow, planeOffset]
  have hfits := hatoms.fits slot hslot
  have hinside : rowOffset hidden rates expert projection +
      planeOffset hidden ((rates expert).rate projection) plane +
        hidden / 16 * 16 * (rates expert).rate projection * 2 ≤ stride := by
    rw [hrow, List.length_append, List.length_append, hfirst, hdata] at hfits
    exact (Nat.le_add_right _ _).trans hfits
  refine ⟨hinside, ?_⟩
  rw [hatoms.portion hslot hinside, ← hfirst, ← hdata, filled, hrow,
    List.append_assoc (first ++ _)]
  exact portion_append_left

theorem viewInt16_ok {plane : Tensor} {rate start : ℕ} (hplane : IsPlane hidden rate plane)
    (heven : start % 2 = 0)
    (hslice : portion atoms.data start (hidden / 16 * 16 * rate * 2) = plane.data) :
    viewInt16 atoms start (hidden / 16 * 16 * rate * 2) (hidden / 16) (16 * rate) =
      .ok plane := by
  have hdata : plane.data.length = [hidden / 16, 16 * rate].prod * 2 := by
    rw [plane.length_data, hplane.shape, hplane.itemSize]
  have hlength := hplane.length
  rw [viewInt16, hslice]
  rw [require, if_pos ⟨by omega, heven⟩, ok_bind, tensorOf_ok hdata]
  congr 1
  rw [Tensor.mk.injEq]
  exact ⟨hplane.dtype.symm, hplane.itemSize.symm, hplane.shape.symm, rfl⟩

end Addresses

end GlmFlash.Checkpoint.Btx
