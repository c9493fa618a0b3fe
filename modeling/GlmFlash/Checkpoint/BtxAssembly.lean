import GlmFlash.Checkpoint.BtxLayers

/-!
# Assembly of a layer

A representable layer is assembled: its rows are the planes of its slots and zeros, its
vectors are finite, and the rate tables hold the codes of its experts.
-/

namespace GlmFlash.Checkpoint.Btx

open GlmFlash.Library

/-! ## Finite numbers -/

/-- Whole numbers of two bytes, none of them infinite or NaN. -/
structure FiniteHalves (data : Bytes) : Prop where
  even : data.length % 2 = 0
  finite : allFinite data = true

theorem halves_append {left right : Bytes} (heven : left.length % 2 = 0) :
    halves (left ++ right) = halves left ++ halves right := by
  induction left using halves.induct with
  | case1 low high later ih =>
      rw [List.length_cons, List.length_cons] at heven
      rw [List.cons_append, List.cons_append, halves, ih (by omega), halves, List.cons_append]
  | case2 data hshort =>
      cases data with
      | nil => rfl
      | cons low data =>
          cases data with
          | nil => simp at heven
          | cons high later => exact absurd rfl (hshort low high later)

theorem FiniteHalves.append {left right : Bytes} (hleft : FiniteHalves left)
    (hright : FiniteHalves right) : FiniteHalves (left ++ right) := by
  refine ⟨?_, ?_⟩
  · rw [List.length_append, Nat.add_mod, hleft.even, hright.even]
  · have hfinite := hleft.finite
    rw [allFinite] at hfinite ⊢
    rw [halves_append hleft.even, List.all_append, hfinite, Bool.true_and]
    exact hright.finite

theorem FiniteHalves.flatMap {B : Type*} {segment : B → Bytes} {items : List B}
    (hall : ∀ item ∈ items, FiniteHalves (segment item)) :
    FiniteHalves (items.flatMap segment) := by
  induction items with
  | nil => exact ⟨rfl, rfl⟩
  | cons item items ih =>
      rw [List.flatMap_cons]
      exact (hall item List.mem_cons_self).append
        (ih fun later hlater => hall later (List.mem_cons_of_mem item hlater))

/-- A part that starts and ends between two numbers. -/
theorem FiniteHalves.portion {data : Bytes} {start count : ℕ} (hdata : FiniteHalves data)
    (hstart : start % 2 = 0) (hcount : count % 2 = 0) (hinside : start + count ≤ data.length) :
    FiniteHalves (portion data start count) := by
  refine ⟨by rwa [length_portion hinside], ?_⟩
  have hbefore : (data.take start).length % 2 = 0 := by
    rwa [List.length_take, min_eq_left (by omega)]
  have hpart : ((data.drop start).take count).length % 2 = 0 := by
    have hlength := length_portion hinside
    rw [Library.portion] at hlength
    rwa [hlength]
  have hsplit := @halves_append _ (data.drop start) hbefore
  rw [List.take_append_drop] at hsplit
  have hrest := @halves_append _ ((data.drop start).drop count) hpart
  rw [List.take_append_drop] at hrest
  have hfinite := hdata.finite
  rw [allFinite, hsplit, hrest, List.all_append, List.all_append, Bool.and_eq_true,
    Bool.and_eq_true] at hfinite
  exact hfinite.2.1

/-! ## Vectors -/

/-- A loaded vector of finite numbers. -/
structure LoadedVector (tensor : Tensor) (length : ℕ) : Prop extends
    HalfVector tensor length where
  itemSize : tensor.itemSize = 2

theorem LoadedVector.length_data {tensor : Tensor} {length : ℕ}
    (hvector : LoadedVector tensor length) : tensor.data.length = length * 2 := by
  rw [tensor.length_data, hvector.shape, hvector.itemSize, List.prod_singleton]

theorem LoadedVector.finiteHalves {tensor : Tensor} {length : ℕ}
    (hvector : LoadedVector tensor length) : FiniteHalves tensor.data :=
  ⟨by rw [hvector.length_data, Nat.mul_mod_left], hvector.finite⟩

section Vectors

variable {format : BtxFormat} {conversion : HalfConversion} {store : PayloadStore}

theorem loadHalf_ok {ref : ObjectRef} {length : ℕ}
    (hstored : ∃ tensor, loadTensor format.toHashing store ref = .ok tensor ∧
      HalfVector tensor length) :
    ∃ tensor, loadHalf format conversion store ref = .ok tensor ∧
      LoadedVector tensor length := by
  obtain ⟨tensor, hload, hvector⟩ := hstored
  have hitem := loadTensor_typed hload
  rw [hvector.dtype] at hitem
  refine ⟨tensor, ?_, hvector, (Option.some.inj hitem).symm⟩
  rw [loadHalf, hload, fromStore, ok_bind, half, if_pos hvector.dtype]
  rfl

/-- The vectors of an expert have the lengths of its sides. -/
structure FullVectors (vectors : ExpertVectors) (hidden intermediate : ℕ) : Prop where
  gate : LoadedVector vectors.gateHidden hidden
  up : LoadedVector vectors.upHidden hidden
  down : LoadedVector vectors.downHidden hidden
  three : vectors.rotations.length = 3
  rotations : ∀ vector ∈ vectors.rotations, LoadedVector vector intermediate

variable {root : InstalledRoot} {geometry : Geometry} {declared : RateStructure}
  {uniformBits : Option ℤ} {manifest : Manifest} {choices : Choices}

def Geometry.slots (geometry : Geometry) : ℕ :=
  geometry.intermediateSize / atomChannels

def Geometry.pairs (geometry : Geometry) : ℕ :=
  geometry.intermediateSize / 256

theorem slots_mul {geometry : Geometry} (hwhole : ¬ geometry.Ragged) :
    geometry.slots * atomChannels = geometry.intermediateSize := by
  rw [Geometry.Ragged, not_or, not_not, not_not] at hwhole
  rw [Geometry.slots, atomChannels]
  omega

theorem slot_pair {geometry : Geometry} (hwhole : ¬ geometry.Ragged) {slot : ℕ}
    (hslot : slot < geometry.slots) : slot / atomsPerPair < geometry.pairs := by
  rw [Geometry.Ragged, not_or, not_not, not_not] at hwhole
  rw [Geometry.slots, atomChannels] at hslot
  rw [Geometry.pairs, atomsPerPair]
  omega

theorem loadVectors_ok
    (hlayer : Representable format root geometry declared uniformBits manifest choices)
    {expert : ℕ} (hexpert : expert < geometry.numExperts) :
    ∃ vectors, loadVectors format conversion root.store choices geometry.slots expert =
        .ok vectors ∧
      FullVectors vectors geometry.hiddenSize geometry.intermediateSize := by
  obtain ⟨gate, hgate, hgateProjection, -, hgateStored⟩ :=
    hlayer.finds expert hexpert .gateProj
  obtain ⟨up, hup, hupProjection, -, hupStored⟩ := hlayer.finds expert hexpert .upProj
  obtain ⟨down, hdown, hdownProjection, -, hdownStored⟩ :=
    hlayer.finds expert hexpert .downProj
  have hgateSuh := hgateStored.suh
  have hupSuh := hupStored.suh
  have hdownSuh := hdownStored.suh
  have hgateSvh := hgateStored.svh
  have hupSvh := hupStored.svh
  have hdownSvh := hdownStored.svh
  rw [hgateProjection] at hgateSuh hgateSvh
  rw [hupProjection] at hupSuh hupSvh
  rw [hdownProjection] at hdownSuh hdownSvh
  obtain ⟨gateHidden, hgateHidden, hgateLoaded⟩ := @loadHalf_ok _ conversion _ _ _ hgateSuh
  obtain ⟨upHidden, hupHidden, hupLoaded⟩ := @loadHalf_ok _ conversion _ _ _ hupSuh
  obtain ⟨downHidden, hdownHidden, hdownLoaded⟩ := @loadHalf_ok _ conversion _ _ _ hdownSvh
  obtain ⟨gateSlots, hgateSlots, hgateAlong⟩ := @loadHalf_ok _ conversion _ _ _ hgateSvh
  obtain ⟨upSlots, hupSlots, hupAlong⟩ := @loadHalf_ok _ conversion _ _ _ hupSvh
  obtain ⟨downSlots, hdownSlots, hdownAlong⟩ := @loadHalf_ok _ conversion _ _ _ hdownSuh
  have hfull : ∀ {vector : Tensor}, LoadedVector vector geometry.intermediateSize →
      vector.shape.prod = geometry.slots * atomChannels := by
    intro vector hvector
    rw [hvector.shape, List.prod_singleton, slots_mul hlayer.whole]
  refine ⟨⟨gateHidden, upHidden, downHidden, [gateSlots, upSlots, downSlots]⟩, ?_, hgateLoaded,
    hupLoaded, hdownLoaded, rfl, ?_⟩
  · rw [loadVectors, hgate, ok_bind, hup, ok_bind, hdown, ok_bind, hgateHidden, ok_bind,
      hupHidden, ok_bind, hdownHidden, ok_bind]
    simp only [List.mapM_cons, List.mapM_nil, hgateSlots, hupSlots, hdownSlots, ok_bind,
      require, hfull hgateAlong, hfull hupAlong, hfull hdownAlong, if_true]
    rfl
  · intro vector hvector
    simp only [List.mem_cons, List.not_mem_nil, or_false] at hvector
    rcases hvector with rfl | rfl | rfl
    · exact hgateAlong
    · exact hupAlong
    · exact hdownAlong

end Vectors

/-! ## Tables -/

/-- A tensor of finite half-precision numbers. -/
structure HalfTable (tensor : Tensor) (shape : List ℕ) : Prop where
  dtype : tensor.dtype = "float16"
  shape : tensor.shape = shape
  finite : allFinite tensor.data = true

theorem LoadedVector.halfTable {tensor : Tensor} {length : ℕ}
    (hvector : LoadedVector tensor length) : HalfTable tensor [length] :=
  ⟨hvector.dtype, hvector.shape, hvector.finite⟩

section Tables

variable {geometry : Geometry} {vectors : List ExpertVectors}

theorem LoadedVector.slotPart {vector : Tensor} (hwhole : ¬ geometry.Ragged)
    (hvector : LoadedVector vector geometry.intermediateSize) {slot : ℕ}
    (hslot : slot < geometry.slots) :
    (slotPart vector slot).length = atomChannels * 2 ∧
      FiniteHalves (slotPart vector slot) := by
  have hinside : slot * (atomChannels * 2) + atomChannels * 2 ≤ vector.data.length := by
    have hle := Nat.mul_le_mul_right (atomChannels * 2) (Nat.succ_le_of_lt hslot)
    rw [hvector.length_data, ← slots_mul hwhole, Nat.mul_assoc]
    rwa [Nat.succ_mul] at hle
  refine ⟨length_portion hinside, hvector.finiteHalves.portion ?_ rfl hinside⟩
  rw [Nat.mul_mod, atomChannels]
  rfl

/-- The vectors along the slots are cut into the parts of the slots. -/
theorem rotationsTensor_ok (hwhole : ¬ geometry.Ragged)
    (hvectors : ∀ expert ∈ vectors,
      FullVectors expert geometry.hiddenSize geometry.intermediateSize) :
    ∃ table, rotationsTensor geometry.slots vectors = .ok table ∧
      HalfTable table [geometry.slots, vectors.length, 3, atomChannels] := by
  have hpart : ∀ slot ∈ List.range geometry.slots, ∀ expert ∈ vectors,
      ∀ vector ∈ expert.rotations, (slotPart vector slot).length = atomChannels * 2 ∧
        FiniteHalves (slotPart vector slot) :=
    fun slot hslot expert hexpert vector hvector =>
      ((hvectors expert hexpert).rotations vector hvector).slotPart hwhole
        (List.mem_range.mp hslot)
  have hexpert : ∀ slot ∈ List.range geometry.slots, ∀ expert ∈ vectors,
      (expert.rotations.flatMap fun vector => slotPart vector slot).length =
        3 * (atomChannels * 2) := by
    intro slot hslot expert hexpert
    rw [length_flatMap_const fun vector hvector =>
      (hpart slot hslot expert hexpert vector hvector).1, (hvectors expert hexpert).three]
  have hslot : ∀ slot ∈ List.range geometry.slots,
      (vectors.flatMap fun expert =>
        expert.rotations.flatMap fun vector => slotPart vector slot).length =
          vectors.length * (3 * (atomChannels * 2)) :=
    fun slot hslot => length_flatMap_const (hexpert slot hslot)
  have hlength : ((List.range geometry.slots).flatMap fun slot =>
      vectors.flatMap fun expert =>
        expert.rotations.flatMap fun vector => slotPart vector slot).length =
          [geometry.slots, vectors.length, 3, atomChannels].prod * 2 := by
    rw [length_flatMap_const hslot, List.length_range]
    simp only [List.prod_cons, List.prod_nil, Nat.mul_one, Nat.mul_assoc]
  rw [rotationsTensor, tensorOf_ok hlength]
  refine ⟨_, rfl, rfl, rfl, ?_⟩
  exact (FiniteHalves.flatMap fun slot hslot => FiniteHalves.flatMap fun expert hexpert =>
    FiniteHalves.flatMap fun vector hvector =>
      (hpart slot hslot expert hexpert vector hvector).2).finite

theorem stack_ok {rows : List Tensor} {length : ℕ} (hne : rows ≠ [])
    (hrows : ∀ row ∈ rows, LoadedVector row length) :
    ∃ table, stack rows = .ok table ∧ HalfTable table [rows.length, length] := by
  cases rows with
  | nil => exact absurd rfl hne
  | cons first later =>
      have hfirst := hrows first List.mem_cons_self
      have hshapes : ∀ row ∈ later, row.shape = first.shape := by
        intro row hrow
        rw [hfirst.shape, (hrows row (List.mem_cons_of_mem first hrow)).shape]
      have hbytes : ((first :: later).flatMap (·.data)).length =
          (first :: later).length * (length * 2) :=
        length_flatMap_const fun row hrow => (hrows row hrow).length_data
      have hlength : ((first :: later).flatMap (·.data)).length =
          ((first :: later).length :: first.shape).prod * first.itemSize := by
        rw [hbytes, hfirst.shape, hfirst.itemSize, List.prod_cons, List.prod_singleton,
          Nat.mul_assoc]
      rw [stack, require, if_pos hshapes, ok_bind, tensorOf_ok hlength]
      refine ⟨_, rfl, hfirst.dtype, congrArg (List.cons _) hfirst.shape, ?_⟩
      exact (FiniteHalves.flatMap fun row hrow => (hrows row hrow).finiteHalves).finite

/-- The shape of the hidden tables. -/
def Geometry.hiddenSizes (geometry : Geometry) (perExpert : Bool) : List ℕ :=
  if perExpert then [geometry.numExperts, geometry.hiddenSize] else [geometry.hiddenSize]

/-- The three hidden tables have one topology. -/
theorem hiddenTables_ok (hne : vectors ≠ []) (hcount : vectors.length = geometry.numExperts)
    (hvectors : ∀ expert ∈ vectors,
      FullVectors expert geometry.hiddenSize geometry.intermediateSize) :
    ∃ perExpert gate up down, hiddenTables vectors = .ok [gate, up, down] ∧
      ∀ table ∈ [gate, up, down], HalfTable table (geometry.hiddenSizes perExpert) := by
  cases vectors with
  | nil => exact absurd rfl hne
  | cons first later =>
      have hstack : ∀ part : ExpertVectors → Tensor,
          (∀ expert ∈ first :: later, LoadedVector (part expert) geometry.hiddenSize) →
            ∃ table, stack ((first :: later).map part) = .ok table ∧
              HalfTable table (geometry.hiddenSizes true) := by
        intro part hpart
        have hrows : ∀ row ∈ (first :: later).map part,
            LoadedVector row geometry.hiddenSize := by
          intro row hrow
          obtain ⟨expert, hexpert, rfl⟩ := List.mem_map.mp hrow
          exact hpart expert hexpert
        obtain ⟨table, htable, hhalf⟩ := stack_ok (List.cons_ne_nil _ _) hrows
        rw [← List.map_cons, List.length_map, hcount] at hhalf
        exact ⟨table, htable, hhalf⟩
      obtain ⟨gate, hgate, hgateTable⟩ := hstack (·.gateHidden) fun expert hexpert =>
        (hvectors expert hexpert).gate
      obtain ⟨up, hup, hupTable⟩ := hstack (·.upHidden) fun expert hexpert =>
        (hvectors expert hexpert).up
      obtain ⟨down, hdown, hdownTable⟩ := hstack (·.downHidden) fun expert hexpert =>
        (hvectors expert hexpert).down
      have hfirst := hvectors first List.mem_cons_self
      have hrun : hiddenTables (first :: later) =
          if [(first :: later).map (·.gateHidden), (first :: later).map (·.upHidden),
              (first :: later).map (·.downHidden)].all sameRows = true then
            .ok [first.gateHidden, first.upHidden, first.downHidden]
          else .ok [gate, up, down] := by
        rw [hiddenTables]
        simp only [List.mapM_cons, List.mapM_nil, hgate, hup, hdown]
        rfl
      by_cases hsame : [(first :: later).map (·.gateHidden), (first :: later).map (·.upHidden),
          (first :: later).map (·.downHidden)].all sameRows = true
      · rw [if_pos hsame] at hrun
        refine ⟨false, _, _, _, hrun, ?_⟩
        simp only [List.forall_mem_cons]
        exact ⟨hfirst.gate.halfTable, hfirst.up.halfTable, hfirst.down.halfTable,
          fun table htable => by cases htable⟩
      · rw [if_neg hsame] at hrun
        refine ⟨true, _, _, _, hrun, ?_⟩
        simp only [List.forall_mem_cons]
        exact ⟨hgateTable, hupTable, hdownTable, fun table htable => by cases htable⟩

/-- A table of rates repeats the codes of the experts for each pair. -/
structure RatesTable (table : Tensor) (pairs : ℕ) (codes : List ℕ) : Prop where
  dtype : table.dtype = "uint8"
  shape : table.shape = [pairs, codes.length]
  entries : tableCodes table = List.replicate pairs codes
  data : ∀ byte ∈ table.data, byte.toNat ∈ codes

theorem rateTable_ok {pairs : ℕ} {codes : List ℕ} (hbytes : ∀ code ∈ codes, code < 256) :
    ∃ table, rateTable pairs codes = .ok table ∧ RatesTable table pairs codes := by
  have hround : (codes.map UInt8.ofNat).map UInt8.toNat = codes := by
    rw [List.map_map]
    conv_rhs => rw [← List.map_id codes]
    apply List.map_congr_left
    intro code hcode
    exact UInt8.toNat_ofNat_of_lt (hbytes code hcode)
  have hrow : ∀ pair ∈ List.range pairs, (codes.map UInt8.ofNat).length = codes.length :=
    fun _ _ => List.length_map ..
  have hlength : ((List.range pairs).flatMap fun _ => codes.map UInt8.ofNat).length =
      [pairs, codes.length].prod * 1 := by
    rw [length_flatMap_const hrow, List.length_range, List.prod_cons, List.prod_singleton,
      Nat.mul_one]
  rw [rateTable, tensorOf_ok hlength]
  refine ⟨_, rfl, rfl, rfl, ?_, ?_⟩
  · rw [tableCodes]
    apply List.eq_replicate_iff.mpr
    refine ⟨by rw [List.length_map, List.length_range], ?_⟩
    intro row hmem
    obtain ⟨pair, hpair, rfl⟩ := List.mem_map.mp hmem
    have hrows : ∀ row ∈ (List.range pairs).map fun _ => codes.map UInt8.ofNat,
        row.length = codes.length := by
      intro row hmem
      obtain ⟨-, -, rfl⟩ := List.mem_map.mp hmem
      exact List.length_map ..
    have hget : ((List.range pairs).map fun _ => codes.map UInt8.ofNat)[pair]? =
        some (codes.map UInt8.ofNat) := by
      rw [List.getElem?_map, List.getElem?_range (List.mem_range.mp hpair)]
      rfl
    have hslice := portion_flatten hrows hget (Nat.zero_add codes.length).le
    rw [Nat.add_zero] at hslice
    change (portion ((List.range pairs).flatMap fun _ => codes.map UInt8.ofNat)
      (pair * codes.length) codes.length).map UInt8.toNat = codes
    rw [List.flatMap_def, hslice, portion, List.drop_zero, ← List.length_map UInt8.ofNat,
      List.take_length, hround]
  · intro byte hmem
    obtain ⟨-, -, hbyte⟩ := List.mem_flatMap.mp hmem
    have hnat := List.mem_map_of_mem (f := UInt8.toNat) hbyte
    rwa [hround] at hnat

end Tables

/-! ## The rates of a layer -/

section Rates

variable {format : BtxFormat} {root : InstalledRoot} {geometry : Geometry}
  {declared : RateStructure} {uniformBits : Option ℤ} {manifest : Manifest} {choices : Choices}

/-- The codes of an expert. -/
def Paired.codes (rates : Paired) : ExpertRates where
  fc1 := code rates.fc1
  fc2 := code rates.fc2

theorem codes_bytes {rates : Paired} (hfc1 : Coded rates.fc1) (hfc2 : Coded rates.fc2)
    (hidden : ℕ) : rates.codes.bytes hidden = rates.bytes hidden := by
  rw [ExpertRates.bytes, Paired.codes, hfc1.bits, hfc2.bits]
  rfl

theorem codeKind_ok {rate : ℕ} (hrate : rate = 3 ∨ rate = 4) :
    ∃ kind, codeKind (code rate) = .ok kind ∧ kind ∈ Dict.keys pairCodes := by
  rcases hrate with rfl | rfl
  · exact ⟨"P33", rfl, by decide⟩
  · exact ⟨"P44", rfl, by decide⟩

theorem rateExpert_ok
    (hlayer : Representable format root geometry declared uniformBits manifest choices)
    {expert : ℕ} (hexpert : expert < geometry.numExperts)
    {state : List ExpertRates × List String}
    (hkinds : ∀ kind ∈ state.2, kind ∈ Dict.keys pairCodes) :
    ∃ kinds, rateExpert choices declared state expert =
        .ok (state.1 ++ [(choices.rates expert).codes], kinds) ∧
      ∀ kind ∈ kinds, kind ∈ Dict.keys pairCodes := by
  obtain ⟨gate, hgate, -, hgateBits, -⟩ := hlayer.finds expert hexpert .gateProj
  obtain ⟨down, hdown, -, hdownBits, -⟩ := hlayer.finds expert hexpert .downProj
  obtain ⟨hfc1, hfc2⟩ := hlayer.coded expert hexpert
  rw [rateExpert, hgate, ok_bind, hdown, ok_bind, hgateBits, hdownBits]
  change ∃ kinds, (rateCode ((choices.rates expert).fc1 : ℤ) >>= fun fc1 => _) = _ ∧ _
  rw [hfc1.rateCode, ok_bind]
  change ∃ kinds, (rateCode ((choices.rates expert).fc2 : ℤ) >>= fun fc2 => _) = _ ∧ _
  rw [hfc2.rateCode, ok_bind]
  cases declared with
  | uniform => exact ⟨state.2, rfl, hkinds⟩
  | perExpertPair =>
      obtain ⟨hpair1, hpair2⟩ := hlayer.paired rfl expert hexpert
      obtain ⟨kind1, hkind1, hknown1⟩ := codeKind_ok hpair1
      obtain ⟨kind2, hkind2, hknown2⟩ := codeKind_ok hpair2
      refine ⟨(state.2.insert kind1).insert kind2, ?_, fun kind hkind => ?_⟩
      · dsimp only
        rw [hkind1, ok_bind, hkind2, ok_bind]
        rfl
      · rcases List.mem_insert_iff.mp hkind with rfl | hkind
        · exact hknown2
        · rcases List.mem_insert_iff.mp hkind with rfl | hkind
          · exact hknown1
          · exact hkinds kind hkind

theorem rateExperts_ok
    (hlayer : Representable format root geometry declared uniformBits manifest choices) :
    ∃ kinds, (List.range geometry.numExperts).foldlM (rateExpert choices declared) ([], []) =
        .ok ((List.range geometry.numExperts).map fun expert =>
          (choices.rates expert).codes, kinds) ∧
      ∀ kind ∈ kinds, kind ∈ Dict.keys pairCodes := by
  have hround : ∀ before expert after,
      [] ++ List.range geometry.numExperts = before ++ expert :: after →
        ∀ state : List ExpertRates × List String,
          (state.1 = before.map (fun expert => (choices.rates expert).codes) ∧
            ∀ kind ∈ state.2, kind ∈ Dict.keys pairCodes) →
          ∃ next, rateExpert choices declared state expert = .ok next ∧
            next.1 = (before ++ [expert]).map (fun expert => (choices.rates expert).codes) ∧
            ∀ kind ∈ next.2, kind ∈ Dict.keys pairCodes := by
    rintro before expert after hsplit state ⟨hrates, hkinds⟩
    have hexpert : expert < geometry.numExperts := by
      rw [← List.mem_range, ← List.nil_append (List.range geometry.numExperts), hsplit]
      exact List.mem_append_right _ List.mem_cons_self
    obtain ⟨kinds, hrun, hknown⟩ := rateExpert_ok hlayer hexpert hkinds
    refine ⟨_, hrun, ?_, hknown⟩
    rw [List.map_append, hrates]
    rfl
  have hstart : ([] : List ExpertRates) = ([] : List ℕ).map (fun expert =>
        (choices.rates expert).codes) ∧
      ∀ kind ∈ ([] : List String), kind ∈ Dict.keys pairCodes :=
    ⟨rfl, fun kind hkind => by cases hkind⟩
  obtain ⟨⟨rates, kinds⟩, hrun, hrates, hknown⟩ := @foldlM_prefix_total _ _ _ _
    (fun done (state : List ExpertRates × List String) =>
      state.1 = done.map (fun expert => (choices.rates expert).codes) ∧
        ∀ kind ∈ state.2, kind ∈ Dict.keys pairCodes) _ _ hround ([], []) hstart
  cases hrates
  exact ⟨kinds, hrun, hknown⟩

/-- All experts together. -/
def Choices.rowSize (choices : Choices) (geometry : Geometry) : ℕ :=
  ((List.range geometry.numExperts).map fun expert =>
    (choices.rates expert).bytes geometry.hiddenSize).sum

theorem rowSizes_ok
    (hlayer : Representable format root geometry declared uniformBits manifest choices) :
    (List.range geometry.slots).mapM (rowSize geometry.hiddenSize geometry.pairs
        ((List.range geometry.numExperts).map fun expert => (choices.rates expert).codes)) =
      .ok ((List.range geometry.slots).map fun _ => choices.rowSize geometry) := by
  have hsum : (((List.range geometry.numExperts).map fun expert =>
      (choices.rates expert).codes).map (·.bytes geometry.hiddenSize)).sum =
        choices.rowSize geometry := by
    rw [List.map_map]
    apply congrArg List.sum
    apply List.map_congr_left
    intro expert hexpert
    obtain ⟨hfc1, hfc2⟩ := hlayer.coded expert (List.mem_range.mp hexpert)
    exact codes_bytes hfc1 hfc2 geometry.hiddenSize
  apply mapM_eq_map
  intro slot hslot
  rw [rowSize, require, if_pos (slot_pair hlayer.whole (List.mem_range.mp hslot)), ok_bind, hsum]
  rfl

theorem le_foldl_max {sizes : List ℕ} {start size : ℕ} (hsize : size ≤ start ∨ size ∈ sizes) :
    size ≤ sizes.foldl max start := by
  induction sizes generalizing start with
  | nil =>
      rcases hsize with hle | hmem
      · exact hle
      · cases hmem
  | cons first later ih =>
      rw [List.foldl_cons]
      apply ih
      rcases hsize with hle | hmem
      · exact .inl (hle.trans (le_max_left _ _))
      · rcases List.mem_cons.mp hmem with rfl | hlater
        · exact .inl (le_max_right _ _)
        · exact .inr hlater

/-- The stride has room for every row and is a multiple of the alignment. -/
theorem rowStride_ok {sizes : List ℕ} {rowAlignment : ℕ} (hne : sizes ≠ [])
    (halign : 0 < rowAlignment) :
    ∃ stride, rowStride sizes rowAlignment = .ok stride ∧ rowAlignment ∣ stride ∧
      ∀ size ∈ sizes, size ≤ stride := by
  refine ⟨_, ?_, Nat.dvd_mul_left rowAlignment
    ((sizes.foldl max 0 + rowAlignment - 1) / rowAlignment), fun size hsize => ?_⟩
  · rw [rowStride, require, if_pos hne, ok_bind, require, if_pos halign.ne', ok_bind]
    rfl
  · have hmax : size ≤ sizes.foldl max 0 := le_foldl_max (.inr hsize)
    have hceil := Nat.lt_div_mul_add halign (a := sizes.foldl max 0 + rowAlignment - 1)
    omega

end Rates

/-! ## The assembled layer -/

/-- The planes of an expert's projection in a slot. -/
def slotPlanes (format : BtxFormat) (store : PayloadStore) (choices : Choices)
    (geometry : Geometry) (slot : ℕ) (key : ℕ × Projection) :
    Except BtxFailure (Tensor × Tensor) := do
  let choice ← choices.find key.1 key.2
  trellisPlanes format store choice key.2 slot geometry.hiddenSize geometry.intermediateSize

def noPlane : Tensor where
  dtype := "int16"
  itemSize := 2
  shape := [0]
  data := []
  length_data := rfl

/-- The planes, where there are some. -/
def planesAt (format : BtxFormat) (store : PayloadStore) (choices : Choices)
    (geometry : Geometry) (slot : ℕ) (key : ℕ × Projection) : Tensor × Tensor :=
  (slotPlanes format store choices geometry slot key).toOption.getD (noPlane, noPlane)

/-- What the tensors of an assembled layer hold. -/
structure Assembled (format : BtxFormat) (store : PayloadStore) (choices : Choices)
    (geometry : Geometry) (declared : RateStructure) (rowAlignment : ℕ) (perExpert : Bool)
    (tensors : Dict String Tensor) : Prop where
  names : Dict.keys tensors = ["atoms", "rotations", "gate_suh", "up_suh", "down_svh"] ++
    if declared = .perExpertPair then ["rates_fc1", "rates_fc2"] else []
  atoms : ∃ atoms stride, tensors.get? "atoms" = some atoms ∧ rowAlignment ∣ stride ∧
    AtomsHold atoms geometry.slots stride geometry.numExperts
      (planesAt format store choices geometry)
  rotations : ∃ table, tensors.get? "rotations" = some table ∧
    HalfTable table [geometry.slots, geometry.numExperts, 3, atomChannels]
  hidden : ∀ name ∈ ["gate_suh", "up_suh", "down_svh"], ∃ table,
    tensors.get? name = some table ∧ HalfTable table (geometry.hiddenSizes perExpert)
  tables : declared = .perExpertPair → ∃ fc1 fc2,
    tensors.get? "rates_fc1" = some fc1 ∧ tensors.get? "rates_fc2" = some fc2 ∧
      RatesTable fc1 geometry.pairs
        ((List.range geometry.numExperts).map fun expert => code (choices.rates expert).fc1) ∧
      RatesTable fc2 geometry.pairs
        ((List.range geometry.numExperts).map fun expert => code (choices.rates expert).fc2)

section Assemble

variable {format : BtxFormat} {conversion : HalfConversion} {root : InstalledRoot}
  {geometry : Geometry} {declared : RateStructure} {uniformBits : Option ℤ}
  {manifest : Manifest} {choices : Choices} {rowAlignment : ℕ}

theorem slotPlanes_ok
    (hlayer : Representable format root geometry declared uniformBits manifest choices)
    {slot : ℕ} (hslot : slot < geometry.slots) {expert : ℕ}
    (hexpert : expert < geometry.numExperts) (projection : Projection) :
    slotPlanes format root.store choices geometry slot (expert, projection) =
        .ok (planesAt format root.store choices geometry slot (expert, projection)) ∧
      IsPlane geometry.hiddenSize ((choices.rates expert).rate projection)
        (planesAt format root.store choices geometry slot (expert, projection)).1 ∧
      IsPlane geometry.hiddenSize ((choices.rates expert).rate projection)
        (planesAt format root.store choices geometry slot (expert, projection)).2 := by
  obtain ⟨choice, hfind, hprojection, hbits, hstored⟩ :=
    hlayer.finds expert hexpert projection
  obtain ⟨planes, hplanes, hlow, hhigh⟩ := trellisPlanes_ok hstored hbits hslot
  rw [hprojection] at hplanes
  have hrun : slotPlanes format root.store choices geometry slot (expert, projection) =
      .ok planes := by
    rw [slotPlanes, hfind, ok_bind]
    exact hplanes
  rw [planesAt, hrun]
  exact ⟨rfl, hlow, hhigh⟩

theorem slotPlanes_hold
    (hlayer : Representable format root geometry declared uniformBits manifest choices)
    {slot : ℕ} (hslot : slot < geometry.slots) :
    SlotPlanes format root.store choices geometry.hiddenSize geometry.intermediateSize slot
      geometry.numExperts choices.rates (planesAt format root.store choices geometry slot) := by
  have hall : ∀ key ∈ expectedKeys (List.range geometry.numExperts), _ :=
    fun key hkey => slotPlanes_ok hlayer hslot
      (List.mem_range.mp (mem_expectedKeys.mp hkey)) key.2
  refine ⟨fun key hkey => ?_, fun key hkey => (hall key hkey).2.1,
    fun key hkey => (hall key hkey).2.2⟩
  have hrun := (hall key hkey).1
  rw [slotPlanes, bind_eq_ok] at hrun
  exact hrun

theorem loadTensor_ne_nil {hashing : Hashing} {store : PayloadStore} {ref : ObjectRef}
    {tensor : Tensor} (hload : loadTensor hashing store ref = .ok tensor) :
    tensor.shape.prod ≠ 0 := by
  have hverify := loadTensor_eq_ok hload
  simp only [loadTensor, hverify, ok_bind, bind_eq_ok, require_eq_ok] at hload
  obtain ⟨-, hne, -⟩ := hload
  intro hzero
  have hlength := tensor.length_data
  rw [hzero, Nat.zero_mul] at hlength
  exact hne (List.length_eq_zero_iff.mp hlength)

section Parts

variable (hlayer : Representable format root geometry declared uniformBits manifest choices)
include hlayer

/-- The reconstruction of a representable layer's first gate. -/
theorem firstGate_ok :
    ∃ gate tensor, choices.find 0 .gateProj = .ok gate ∧
      loadTensor format.toHashing root.store gate.objects.reconstruction = .ok tensor ∧
      tensor.shape = [geometry.intermediateSize, geometry.hiddenSize] := by
  obtain ⟨gate, hgate, hprojection, -, hstored⟩ := hlayer.finds 0 hlayer.nonempty .gateProj
  obtain ⟨tensor, hload, hshape⟩ := hstored.reconstruction
  rw [hprojection] at hshape
  exact ⟨gate, tensor, hgate, hload, hshape⟩

theorem slots_pos :
    0 < geometry.slots := by
  obtain ⟨gate, tensor, -, hload, hshape⟩ := firstGate_ok hlayer
  have hproduct := loadTensor_ne_nil hload
  rw [hshape, List.prod_cons] at hproduct
  have hmul := slots_mul hlayer.whole
  apply Nat.pos_of_ne_zero
  intro hzero
  rw [hzero, Nat.zero_mul] at hmul
  rw [← hmul, Nat.zero_mul] at hproduct
  exact hproduct rfl

/-- The experts are loaded in the order of their numbers. -/
theorem layerVectors_ok :
    ∃ vectors, (List.range geometry.numExperts).mapM
        (loadVectors format conversion root.store choices geometry.slots) = .ok vectors ∧
      vectors.length = geometry.numExperts ∧
      ∀ expert ∈ vectors, FullVectors expert geometry.hiddenSize geometry.intermediateSize := by
  have hload : ∀ expert ∈ List.range geometry.numExperts, ∃ vectors,
      loadVectors format conversion root.store choices geometry.slots expert = .ok vectors ∧
        FullVectors vectors geometry.hiddenSize geometry.intermediateSize :=
    fun expert hexpert => loadVectors_ok hlayer (List.mem_range.mp hexpert)
  obtain ⟨vectors, hvectors, hpairs⟩ := mapM_succeeds fun expert hexpert =>
    (hload expert hexpert).imp fun _ hfound => hfound.1
  refine ⟨vectors, hvectors, ?_, fun vector hvector => ?_⟩
  · rw [← hpairs.length_eq, List.length_range]
  · obtain ⟨expert, hexpert, hrun⟩ := forall₂_mem_right hpairs hvector
    obtain ⟨found, hfound, hfull⟩ := hload expert hexpert
    cases hrun.symm.trans hfound
    exact hfull

/-- The atoms of the layer. -/
theorem atoms_ok {stride : ℕ} (hfits : choices.rowSize geometry ≤ stride) :
    ∃ rows atoms, ((List.range geometry.slots).mapM fun slot =>
        packRow format root.store choices (List.range geometry.numExperts) geometry.hiddenSize
          geometry.intermediateSize stride
          (((List.range geometry.slots).map fun _ => choices.rowSize geometry).getD slot 0)
          slot) = .ok rows ∧
      tensorOf "uint8" 1 [geometry.slots, stride] rows.flatten = .ok atoms ∧
      AtomsHold atoms geometry.slots stride geometry.numExperts
        (planesAt format root.store choices geometry) := by
  have hlengths : ∀ slot < geometry.slots, (rowBytes geometry.numExperts
      (planesAt format root.store choices geometry slot)).length = choices.rowSize geometry :=
    fun slot hslot => (slotPlanes_hold hlayer hslot).length_rowBytes
  have hsizes : ∀ slot < geometry.slots, (rowBytes geometry.numExperts
      (planesAt format root.store choices geometry slot)).length ≤ stride :=
    fun slot hslot => (hlengths slot hslot).le.trans hfits
  have hrows : ∀ slot ∈ List.range geometry.slots,
      packRow format root.store choices (List.range geometry.numExperts) geometry.hiddenSize
        geometry.intermediateSize stride
        (((List.range geometry.slots).map fun _ => choices.rowSize geometry).getD slot 0)
        slot = .ok (filled stride 0 (rowBytes geometry.numExperts
          (planesAt format root.store choices geometry slot))) := by
    intro slot hslot
    have hsize : ((List.range geometry.slots).map fun _ =>
        choices.rowSize geometry).getD slot 0 = choices.rowSize geometry := by
      rw [List.getD_eq_getElem?_getD, List.getElem?_map,
        List.getElem?_range (List.mem_range.mp hslot)]
      rfl
    rw [hsize]
    exact packRow_ok (slotPlanes_hold hlayer (List.mem_range.mp hslot))
      (hlengths slot (List.mem_range.mp hslot)) hfits
  have hlength : (((List.range geometry.slots).map fun slot =>
      filled stride 0 (rowBytes geometry.numExperts
        (planesAt format root.store choices geometry slot))).flatten).length =
          [geometry.slots, stride].prod * 1 := by
    rw [← List.flatMap_def, length_flatMap_const fun slot hslot =>
      length_filled (hsizes slot (List.mem_range.mp hslot)), List.length_range, List.prod_cons,
      List.prod_singleton, Nat.mul_one]
  exact ⟨_, _, mapM_eq_map hrows, tensorOf_ok hlength, rfl, rfl, rfl, hsizes⟩

theorem rateTables_ok :
    ∃ fc1 fc2,
      rateTable geometry.pairs (((List.range geometry.numExperts).map fun expert =>
        (choices.rates expert).codes).map (·.fc1)) = .ok fc1 ∧
      rateTable geometry.pairs (((List.range geometry.numExperts).map fun expert =>
        (choices.rates expert).codes).map (·.fc2)) = .ok fc2 ∧
      RatesTable fc1 geometry.pairs
        ((List.range geometry.numExperts).map fun expert => code (choices.rates expert).fc1) ∧
      RatesTable fc2 geometry.pairs
        ((List.range geometry.numExperts).map fun expert => code (choices.rates expert).fc2) := by
  have hbytes : ∀ {part : Paired → ℕ}, (∀ expert < geometry.numExperts,
      Coded (part (choices.rates expert))) →
        ∀ byte ∈ (List.range geometry.numExperts).map fun expert =>
          code (part (choices.rates expert)), byte < 256 := by
    intro part hpart byte hbyte
    obtain ⟨expert, hexpert, rfl⟩ := List.mem_map.mp hbyte
    exact (hpart expert (List.mem_range.mp hexpert)).code_lt
  obtain ⟨fc1, hfc1, htable1⟩ := @rateTable_ok geometry.pairs _
    (hbytes fun expert hexpert => (hlayer.coded expert hexpert).1)
  obtain ⟨fc2, hfc2, htable2⟩ := @rateTable_ok geometry.pairs _
    (hbytes fun expert hexpert => (hlayer.coded expert hexpert).2)
  simp only [List.map_map]
  exact ⟨fc1, fc2, hfc1, hfc2, htable1, htable2⟩

/-- The named tensors before the rate tables. -/
def commonTensors (atoms rotations gate up down : Tensor) : Dict String Tensor :=
  [("atoms", atoms), ("rotations", rotations), ("gate_suh", gate), ("up_suh", up),
    ("down_svh", down)]

/-- A representable layer is assembled. -/
theorem assembleLayer_ok (halign : 0 < rowAlignment) :
    ∃ perExpert tensors kinds,
      assembleLayer format conversion root.store choices declared rowAlignment =
        .ok (tensors, kinds) ∧
      Assembled format root.store choices geometry declared rowAlignment perExpert tensors ∧
      ∀ kind ∈ kinds, kind ∈ Dict.keys pairCodes := by
  obtain ⟨gate, reconstruction, hgate, hload, hshape⟩ := firstGate_ok hlayer
  obtain ⟨kinds, hrates, hkinds⟩ := rateExperts_ok hlayer
  have hsizesNe : ((List.range geometry.slots).map fun _ => choices.rowSize geometry) ≠ [] := by
    rw [ne_eq, List.map_eq_nil_iff, List.range_eq_nil]
    exact (slots_pos hlayer).ne'
  obtain ⟨stride, hstride, hmultiple, hfits⟩ := rowStride_ok hsizesNe halign
  obtain ⟨vectors, hvectors, hcount, hfull⟩ := @layerVectors_ok _ conversion _ _ _ _ _ _ hlayer
  obtain ⟨rotations, hrotations, hrotationsTable⟩ := rotationsTensor_ok hlayer.whole hfull
  have hvectorsNe : vectors ≠ [] :=
    List.ne_nil_of_length_pos (hcount ▸ hlayer.nonempty)
  obtain ⟨perExpert, gateTable, upTable, downTable, htables, hhidden⟩ :=
    hiddenTables_ok hvectorsNe hcount hfull
  have hsize : choices.rowSize geometry ≤ stride :=
    hfits _ (List.mem_map.mpr ⟨0, List.mem_range.mpr (slots_pos hlayer), rfl⟩)
  obtain ⟨rows, atoms, hrows, hatoms, hhold⟩ := atoms_ok hlayer hsize
  have hnonempty : List.range geometry.numExperts ≠ [] := by
    rw [ne_eq, List.range_eq_nil]
    exact hlayer.nonempty.ne'
  have hhead : (List.range geometry.numExperts).headD 0 = 0 := by
    cases hexperts : geometry.numExperts with
    | zero => rfl
    | succ count =>
        rw [List.range_succ_eq_map]
        rfl
  have hcommon : ∀ name ∈ ["gate_suh", "up_suh", "down_svh"], ∃ table,
      (commonTensors atoms rotations gateTable upTable downTable).get? name = some table ∧
        HalfTable table (geometry.hiddenSizes perExpert) := by
    simp only [List.forall_mem_cons] at hhidden ⊢
    exact ⟨⟨_, rfl, hhidden.1⟩, ⟨_, rfl, hhidden.2.1⟩, ⟨_, rfl, hhidden.2.2.1⟩,
      fun name hname => by cases hname⟩
  have hrowSizes := rowSizes_ok hlayer
  have hdimension : dimension reconstruction.shape 0 = .ok geometry.intermediateSize ∧
      dimension reconstruction.shape 1 = .ok geometry.hiddenSize := by
    rw [hshape]
    exact ⟨rfl, rfl⟩
  have haxes : reconstruction.shape.length = 2 := congrArg List.length hshape
  rw [Geometry.slots, Geometry.pairs] at hrowSizes
  rw [hcount, Geometry.slots] at hrotationsTable
  rw [Geometry.slots] at hstride hvectors hrotations hrows hatoms
  simp only [assembleLayer, hlayer.experts, hnonempty, hhead, hgate, hload, fromStore, haxes,
    hdimension.1, hdimension.2, List.length_range, hrates, hrowSizes, hstride, hvectors,
    hrotations, htables, hrows, hatoms, require, ok_bind, ne_eq, not_false_eq_true, if_true,
    le_refl]
  cases declared with
  | uniform =>
      exact ⟨perExpert, commonTensors atoms rotations gateTable upTable downTable, kinds, rfl,
        ⟨rfl, ⟨atoms, stride, rfl, hmultiple, hhold⟩, ⟨rotations, rfl, hrotationsTable⟩, hcommon,
          fun hpair => by cases hpair⟩, hkinds⟩
  | perExpertPair =>
      obtain ⟨fc1, fc2, hfc1, hfc2, htable1, htable2⟩ := rateTables_ok hlayer
      rw [Geometry.pairs] at hfc1 hfc2
      refine ⟨perExpert, commonTensors atoms rotations gateTable upTable downTable ++
        [("rates_fc1", fc1), ("rates_fc2", fc2)], kinds, ?_,
        ⟨rfl, ⟨atoms, stride, rfl, hmultiple, hhold⟩, ⟨rotations, rfl, hrotationsTable⟩, ?_,
          fun _ => ⟨fc1, fc2, rfl, rfl, htable1, htable2⟩⟩, hkinds⟩
      · rw [hfc1, ok_bind, hfc2]
        rfl
      · intro name hname
        obtain ⟨table, hfound, htable⟩ := hcommon name hname
        exact ⟨table, by rw [Dict.get?_append, hfound]; rfl, htable⟩

end Parts

end Assemble

end GlmFlash.Checkpoint.Btx
