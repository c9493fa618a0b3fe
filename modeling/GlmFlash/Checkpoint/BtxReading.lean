import GlmFlash.Checkpoint.BtxAssembly
import Mathlib.Algebra.BigOperators.Ring.List

/-!
# Reading an assembled layer

The audit finds nothing in the tensors of an assembled layer, and the unpacker gives back
the planes that were packed.
-/

namespace GlmFlash.Checkpoint.Btx

open GlmFlash.Library

/-- What a manifest says of all its layers. -/
structure Declares (manifest : BtxManifest) (geometry : Geometry) (declared : RateStructure)
    (uniformBits : Option ℤ) (rowAlignment : ℕ) (perExpert : Bool) : Prop where
  sizes : manifest.geometry.toGeometry = geometry
  atomSlots : manifest.geometry.atomSlots = geometry.slots
  uniform : declared = .uniform → manifest.rates = .uniform (uniformBits.getD 0)
  paired : declared = .perExpertPair → ∃ kinds, manifest.rates = .perExpertPair kinds
  hidden : manifest.hadamard.perExpertInputRotations = perExpert
  alignment : manifest.layout.atomRowAlignment = rowAlignment

section Layer

variable {format : BtxFormat} {root : InstalledRoot} {geometry : Geometry}
  {declared : RateStructure} {uniformBits : Option ℤ} {installed : Manifest}
  {choices : Choices} {rowAlignment : ℕ} {perExpert : Bool} {manifest : BtxManifest}
  {tensors : Dict String Tensor}

theorem readTensor_ok {name : String} {tensor : Tensor}
    (hfound : tensors.get? name = some tensor) : readTensor tensors name = .ok tensor := by
  rw [readTensor, hfound]

theorem pairs_eq (geometry : Geometry) : geometry.slots / 8 = geometry.pairs := by
  rw [Geometry.slots, Geometry.pairs, atomChannels, Nat.div_div_eq_div_mul]

theorem codeAt_replicate {pairs pair expert : ℕ} {codes : List ℕ} {rate : ℕ}
    (hpair : pair < pairs) (hcode : codes[expert]? = some rate) :
    codeAt (List.replicate pairs codes) pair expert = .ok rate := by
  rw [codeAt, List.getElem?_replicate, if_pos hpair, Option.bind_some, hcode]

/-- The rate tables that the manifest and the tensors give. -/
theorem layerRateCodes_ok
    (hlayer : Representable format root geometry declared uniformBits installed choices)
    (hassembled : Assembled format root.store choices geometry declared rowAlignment perExpert
      tensors)
    (hmanifest : Declares manifest geometry declared uniformBits rowAlignment perExpert) :
    ∃ tables, layerRateCodes manifest tensors = .ok tables ∧
      TablesHold tables geometry.pairs geometry.numExperts choices.rates := by
  rw [layerRateCodes]
  cases declared with
  | uniform =>
      obtain ⟨rate, hrate, huniform, hsame⟩ := hlayer.uniform rfl
      have hexperts : manifest.geometry.numExperts = geometry.numExperts := by
        rw [hmanifest.sizes]
      have hcode : ∀ expert < geometry.numExperts,
          (List.replicate geometry.numExperts (uniformCode (rate : ℤ)))[expert]? =
            some (code rate) := by
        intro expert hexpert
        rw [List.getElem?_replicate, if_pos hexpert]
        rfl
      rw [hmanifest.uniform rfl, huniform, hmanifest.atomSlots, hexperts, pairs_eq]
      refine ⟨_, rfl, ?_, ?_⟩
      · intro pair hpair expert hexpert
        rw [hsame expert hexpert]
        exact codeAt_replicate hpair (hcode expert hexpert)
      · intro pair hpair expert hexpert
        rw [hsame expert hexpert]
        exact codeAt_replicate hpair (hcode expert hexpert)
  | perExpertPair =>
      obtain ⟨kinds, hkinds⟩ := hmanifest.paired rfl
      obtain ⟨fc1, fc2, hfc1, hfc2, htable1, htable2⟩ := hassembled.tables rfl
      rw [hkinds]
      refine ⟨(tableCodes fc1, tableCodes fc2), ?_, ?_, ?_⟩
      · dsimp only
        rw [readTensor_ok hfc1, ok_bind, readTensor_ok hfc2, ok_bind]
        rfl
      · intro pair hpair expert hexpert
        rw [htable1.entries]
        apply codeAt_replicate hpair
        rw [List.getElem?_map, List.getElem?_range hexpert]
        rfl
      · intro pair hpair expert hexpert
        rw [htable2.entries]
        apply codeAt_replicate hpair
        rw [List.getElem?_map, List.getElem?_range hexpert]
        rfl

/-! ## The audit of a layer -/

theorem findingUnless_of {condition : Prop} [Decidable condition] {finding : BtxFinding}
    (hcondition : condition) : findingUnless condition finding = [] :=
  if_pos hcondition

theorem mem_codeKinds {rate : ℕ} (hrate : rate = 3 ∨ rate = 4) :
    (Dict.keys codeKinds).contains (code rate) = true := by
  rcases hrate with rfl | rfl
  · decide
  · decide

section Declared

variable (hmanifest : Declares manifest geometry declared uniformBits rowAlignment perExpert)
include hmanifest

theorem tableFits (part : Paired → ℕ) {table : Tensor}
    (htable : RatesTable table geometry.pairs
      ((List.range geometry.numExperts).map fun expert => code (part (choices.rates expert))))
    (hpart : ∀ expert < geometry.numExperts,
      part (choices.rates expert) = 3 ∨ part (choices.rates expert) = 4) :
    TableFits manifest table := by
  refine ⟨htable.dtype, ?_, ?_⟩
  · rw [htable.shape, hmanifest.atomSlots, pairs_eq, List.length_map, List.length_range,
      hmanifest.sizes]
  · rw [List.all_eq_true]
    intro byte hbyte
    obtain ⟨expert, hexpert, heq⟩ := List.mem_map.mp (htable.data byte hbyte)
    rw [← heq]
    exact mem_codeKinds (hpart expert (List.mem_range.mp hexpert))

/-- The rows of an assembled layer have nothing behind their used part. -/
theorem auditRows_ok {layer : String} {atoms : Tensor} {stride : ℕ}
    {tables : RateCodes × RateCodes}
    (hlayer : Representable format root geometry declared uniformBits installed choices)
    (htables : TablesHold tables geometry.pairs geometry.numExperts choices.rates)
    (hatoms : AtomsHold atoms geometry.slots stride geometry.numExperts
      (planesAt format root.store choices geometry)) :
    (List.range geometry.slots).foldlM
      (auditRow manifest layer atoms geometry.slots stride tables) [] = .ok [] := by
  have hexperts : manifest.geometry.numExperts = geometry.numExperts := by
    rw [hmanifest.sizes]
  have hhidden : manifest.geometry.hiddenSize = geometry.hiddenSize := by
    rw [hmanifest.sizes]
  have hround : ∀ slot ∈ List.range geometry.slots, ∀ found : List BtxFinding, found = [] →
      ∃ next, auditRow manifest layer atoms geometry.slots stride tables found slot =
        .ok next ∧ next = [] := by
    rintro slot hslot - rfl
    have hlt := List.mem_range.mp hslot
    exact ⟨[], auditRow_ok htables hlayer.coded hatoms hexperts hhidden hlt
      (slot_pair hlayer.whole hlt) (slotPlanes_hold hlayer hlt).length_rowBytes, rfl⟩
  obtain ⟨final, hrun, rfl⟩ := foldlM_succeeds hround rfl
  exact hrun

theorem auditVector_ok {layer name : String}
    (hassembled : Assembled format root.store choices geometry declared rowAlignment perExpert
      tensors)
    (hname : name ∈ ["gate_suh", "up_suh", "down_svh"]) :
    auditVector manifest layer tensors name = .ok [] := by
  obtain ⟨table, htable, hhalf⟩ := hassembled.hidden name hname
  have hshape : hiddenShape manifest = geometry.hiddenSizes perExpert := by
    rw [hiddenShape, hmanifest.hidden, hmanifest.sizes, Geometry.hiddenSizes]
  rw [auditVector, readTensor_ok htable, ok_bind,
    findingUnless_of ⟨hhalf.dtype, hhalf.shape.trans hshape.symm, hhalf.finite⟩]
  rfl

theorem auditRateTables_ok (layer : String)
    (hlayer : Representable format root geometry declared uniformBits installed choices)
    (hassembled : Assembled format root.store choices geometry declared rowAlignment perExpert
      tensors) :
    ∃ fits, auditRateTables manifest layer tensors = .ok fits ∧ fits.flatten = [] := by
  rw [auditRateTables]
  cases declared with
  | uniform =>
      rw [hmanifest.uniform rfl]
      exact ⟨[], rfl, rfl⟩
  | perExpertPair =>
      obtain ⟨kinds, hkinds⟩ := hmanifest.paired rfl
      obtain ⟨fc1, fc2, hfc1, hfc2, htable1, htable2⟩ := hassembled.tables rfl
      have hfits1 : TableFits manifest fc1 := tableFits hmanifest (·.fc1) htable1
        fun expert hexpert => (hlayer.paired rfl expert hexpert).1
      have hfits2 : TableFits manifest fc2 := tableFits hmanifest (·.fc2) htable2
        fun expert hexpert => (hlayer.paired rfl expert hexpert).2
      rw [hkinds]
      dsimp only
      rw [List.mapM_cons, List.mapM_cons, List.mapM_nil, auditRateTable, readTensor_ok hfc1,
        ok_bind, findingUnless_of hfits1, auditRateTable, readTensor_ok hfc2, ok_bind,
        findingUnless_of hfits2]
      exact ⟨_, rfl, rfl⟩

/-- The audit finds nothing in an assembled layer. -/
theorem auditTensors_ok (layer : String) (halign : 0 < rowAlignment)
    (hlayer : Representable format root geometry declared uniformBits installed choices)
    (hassembled : Assembled format root.store choices geometry declared rowAlignment perExpert
      tensors) :
    auditTensors manifest layer tensors = .ok [] := by
  obtain ⟨atoms, stride, hfound, hmultiple, hatoms⟩ := hassembled.atoms
  obtain ⟨rotations, hrotations, hrotationsTable⟩ := hassembled.rotations
  obtain ⟨tables, htables, hhold⟩ := layerRateCodes_ok hlayer hassembled hmanifest
  obtain ⟨fits, hfits, hflat⟩ := auditRateTables_ok hmanifest layer hlayer hassembled
  have hdimension : dimension atoms.shape 0 = .ok geometry.slots ∧
      dimension atoms.shape 1 = .ok stride := by
    rw [hatoms.shape]
    exact ⟨rfl, rfl⟩
  have hexperts : manifest.geometry.numExperts = geometry.numExperts := by
    rw [hmanifest.sizes]
  have hvectors : ["gate_suh", "up_suh", "down_svh"].mapM (auditVector manifest layer tensors) =
      .ok [[], [], []] :=
    mapM_eq_map fun name hname => auditVector_ok hmanifest hassembled hname
  rw [auditTensors, readTensor_ok hfound, ok_bind, readTensor_ok hrotations, ok_bind,
    hdimension.1, ok_bind, hdimension.2, ok_bind, hmanifest.alignment, require,
    if_pos halign.ne', ok_bind, hvectors, ok_bind, hfits, ok_bind, htables, ok_bind,
    hmanifest.atomSlots, auditRows_ok hmanifest hlayer hhold hatoms, ok_bind, hexperts, hflat,
    findingUnless_of ⟨hatoms.dtype, rfl, Nat.mod_eq_zero_of_dvd hmultiple⟩,
    findingUnless_of ⟨hrotationsTable.dtype, hrotationsTable.shape, hrotationsTable.finite⟩]
  rfl

end Declared

/-! ## Unpacking -/

theorem two_dvd_matrixAtomBytes (hidden low high : ℕ) : 2 ∣ matrixAtomBytes hidden low high := by
  rw [matrixAtomBytes, Nat.mul_assoc]
  exact ((Nat.dvd_mul_right 2 16).mul_right _).mul_left _

theorem two_dvd_rowOffset (hidden : ℕ) (rates : ℕ → Paired) (expert : ℕ)
    (projection : Projection) : 2 ∣ rowOffset hidden rates expert projection := by
  rw [rowOffset]
  apply Nat.dvd_add
  · apply List.dvd_sum
    intro size hsize
    obtain ⟨earlier, -, rfl⟩ := List.mem_map.mp hsize
    exact Nat.dvd_add (Nat.dvd_mul_right 2 _) (two_dvd_matrixAtomBytes ..)
  · cases projection with
    | gateProj => exact Nat.dvd_zero 2
    | upProj => exact two_dvd_matrixAtomBytes ..
    | downProj => exact Nat.dvd_add (two_dvd_matrixAtomBytes ..) (two_dvd_matrixAtomBytes ..)

/-- The unpacker gives back the planes that the packer found. -/
theorem unpackPlane_ok {slot expert : ℕ} (heven : 2 ∣ rowAlignment)
    (hlayer : Representable format root geometry declared uniformBits installed choices)
    (hassembled : Assembled format root.store choices geometry declared rowAlignment perExpert
      tensors)
    (hmanifest : Declares manifest geometry declared uniformBits rowAlignment perExpert)
    (hslot : slot < geometry.slots) (hexpert : expert < geometry.numExperts)
    (projection : Projection) (plane : Plane) :
    unpackPlane manifest tensors slot expert projection plane =
      .ok (plane.of (planesAt format root.store choices geometry slot (expert, projection))) := by
  obtain ⟨atoms, stride, hfound, hmultiple, hatoms⟩ := hassembled.atoms
  obtain ⟨tables, htables, hhold⟩ := layerRateCodes_ok hlayer hassembled hmanifest
  obtain ⟨hfc1, hfc2⟩ := hlayer.coded expert hexpert
  have hpair : slot / 8 < geometry.pairs := slot_pair hlayer.whole hslot
  have hdimension : dimension atoms.shape 0 = .ok geometry.slots ∧
      dimension atoms.shape 1 = .ok stride := by
    rw [hatoms.shape]
    exact ⟨rfl, rfl⟩
  have hhidden : manifest.geometry.hiddenSize = geometry.hiddenSize := by
    rw [hmanifest.sizes]
  obtain ⟨hinside, hslice⟩ := portion_plane (slotPlanes_hold hlayer hslot) hatoms hslot hexpert
    projection plane
  obtain ⟨-, hlow, hhigh⟩ := slotPlanes_ok hlayer hslot hexpert projection
  have hplane : IsPlane geometry.hiddenSize ((choices.rates expert).rate projection)
      (plane.of (planesAt format root.store choices geometry slot (expert, projection))) := by
    cases plane with
    | low => exact hlow
    | high => exact hhigh
  have hstart : (slot * stride + (rowOffset geometry.hiddenSize choices.rates expert projection +
      planeOffset geometry.hiddenSize ((choices.rates expert).rate projection) plane)) % 2 =
        0 := by
    apply Nat.mod_eq_zero_of_dvd
    apply Nat.dvd_add ((heven.trans hmultiple).mul_left slot)
    apply Nat.dvd_add (two_dvd_rowOffset ..)
    cases plane with
    | low => exact Nat.dvd_zero 2
    | high => exact Nat.dvd_mul_left 2 _
  have hview := viewInt16_ok hplane hstart hslice
  rw [unpackPlane, readTensor_ok hfound, ok_bind, htables, ok_bind]
  dsimp only
  rw [hhidden, precedingBytes_ok hhold hlayer.coded hpair hexpert.le, ok_bind,
    hhold.fc1 _ hpair expert hexpert, ok_bind, hhold.fc2 _ hpair expert hexpert, ok_bind,
    hfc1.bits, hfc2.bits, hdimension.1, ok_bind, hdimension.2, ok_bind, require, if_pos hslot,
    ok_bind]
  have hcount : min (geometry.hiddenSize / 16 * 16 * (choices.rates expert).rate projection * 2)
      (stride - (rowOffset geometry.hiddenSize choices.rates expert projection +
        planeOffset geometry.hiddenSize ((choices.rates expert).rate projection) plane)) =
      geometry.hiddenSize / 16 * 16 * (choices.rates expert).rate projection * 2 :=
    min_eq_left (Nat.le_sub_of_add_le' hinside)
  rw [← hview]
  conv_rhs => rw [← hcount]
  cases projection with
  | gateProj => cases plane <;> rfl
  | upProj => cases plane <;> rfl
  | downProj => cases plane <;> rfl

end Layer

end GlmFlash.Checkpoint.Btx
