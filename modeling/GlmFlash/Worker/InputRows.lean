import GlmFlash.Worker.InputBatch

/-!
# What the kernels do to one row

The slots of a batch are consecutive segments, one for each request, and the
rows of the request states are apart.  So the programs of a launch do not
meet, and each kernel is described by what it leaves in the row of one request
and by the cells it keeps.
-/

namespace GlmFlash.Worker

open GlmFlash.Library

/-- The first `count` segments follow each other. -/
def Consecutive (starts : Tensor) (count : ℕ) : Prop :=
  ∀ index : ℕ, index < count → starts index ≤ starts (index + 1)

namespace Consecutive

variable {starts : Tensor} {count i j : ℕ}

theorem succ_le (hstarts : Consecutive starts count) (hlt : i < j)
    (hj : j < count) : starts (i + 1) ≤ starts j := by
  induction j with
  | zero => cases hlt
  | succ j ih =>
      have hstep : starts j ≤ starts (j + 1) := hstarts j (by omega)
      rcases Nat.lt_succ_iff_lt_or_eq.mp hlt with hlt | rfl
      · have hle := ih hlt (by omega)
        push_cast
        exact hle.trans hstep
      · push_cast
        exact le_rfl

/-- Slots of different segments are different. -/
theorem slot_ne (hstarts : Consecutive starts count) (hne : i ≠ j)
    (hi : i < count) (hj : j < count) {left right : ℤ} (hleft : 0 ≤ left)
    (hright : 0 ≤ right) (hleftLt : left < starts (i + 1) - starts i)
    (hrightLt : right < starts (j + 1) - starts j) :
    starts i + left ≠ starts j + right := by
  rcases Nat.lt_or_gt_of_ne hne with hlt | hlt
  · have hle := hstarts.succ_le hlt hj
    omega
  · have hle := hstarts.succ_le hlt hi
    omega

end Consecutive

/-- Cells of different rows, or of different columns, are different. -/
theorem row_add_inj {stride row row' column column' : ℤ}
    (hcolumn : 0 ≤ column) (hcolumnLt : column < stride)
    (hcolumn' : 0 ≤ column') (hcolumnLt' : column' < stride)
    (heq : row * stride + column = row' * stride + column') :
    row = row' ∧ column = column' := by
  have hstride : 0 < stride := hcolumn.trans_lt hcolumnLt
  have hmod : column = column' := by
    have hleft : (row * stride + column) % stride = column := by
      rw [Int.add_comm, Int.add_mul_emod_self_right,
        Int.emod_eq_of_lt hcolumn hcolumnLt]
    have hright : (row' * stride + column') % stride = column' := by
      rw [Int.add_comm, Int.add_mul_emod_self_right,
        Int.emod_eq_of_lt hcolumn' hcolumnLt']
    rw [← hleft, ← hright, heq]
  refine ⟨?_, hmod⟩
  subst hmod
  exact mul_right_cancel₀ hstride.ne' (add_right_cancel heq)

/-- The rows of a batch are different rows of the request states. -/
structure BatchRows (idxMapping : Tensor) (numReqs maxNumReqs : ℕ) : Prop where
  nonneg : ∀ index : ℕ, index < numReqs → 0 ≤ idxMapping index
  lt : ∀ index : ℕ, index < numReqs → idxMapping index < maxNumReqs
  inj : ∀ index : ℕ, index < numReqs → ∀ other : ℕ, other < numReqs →
    idxMapping index = idxMapping other → index = other

theorem BatchRows.ne {idxMapping : Tensor} {numReqs maxNumReqs i j : ℕ}
    (hrows : BatchRows idxMapping numReqs maxNumReqs) (hi : i < numReqs)
    (hj : j < numReqs) (hne : i ≠ j) : idxMapping i ≠ idxMapping j :=
  fun heq => hne (hrows.inj i hi j hj heq)

/-! ## Prefill tokens -/

section Prefill

variable {device : Device} {numReqs maxNumReqs numLookahead : ℕ}
  {idxMapping queryStartLoc allTokenIds prefillLen numComputed : Tensor}
  {stride : ℤ} {inputs : PrefillInputs}

/-- The tokens of a prefill chunk and those that follow it. -/
def PrefillRow (maxNumReqs numLookahead : ℕ)
    (idxMapping queryStartLoc allTokenIds : Tensor) (stride : ℤ)
    (prefillLen numComputed : Tensor) (row : ℕ) (inputs : PrefillInputs) :
    Prop :=
  numComputed (idxMapping row) < prefillLen (idxMapping row) →
    (∀ slot : ℕ, slot < queryStartLoc (row + 1) - queryStartLoc row →
      inputs.inputIds (queryStartLoc row + slot) =
        allTokenIds (idxMapping row * stride +
          numComputed (idxMapping row) + slot)) ∧
    ∀ lookahead : ℕ, lookahead < numLookahead →
      inputs.nextPrefillTokens (lookahead * maxNumReqs + idxMapping row) =
        if numComputed (idxMapping row) +
              (queryStartLoc (row + 1) - queryStartLoc row) + lookahead <
            prefillLen (idxMapping row) then
          allTokenIds (idxMapping row * stride +
            (numComputed (idxMapping row) +
              (queryStartLoc (row + 1) - queryStartLoc row) + lookahead))
        else 0

theorem le_nextPowerOf2 (count : ℕ) : count ≤ nextPowerOf2 count := by
  by_cases hzero : count = 0
  · simp [nextPowerOf2, hzero]
  · have hlt : count - 1 < 2 ^ (count - 1).size := Nat.lt_size_self _
    rw [nextPowerOf2, if_neg hzero]
    omega

theorem preparePrefillInputsKernel_row
    (hrows : BatchRows idxMapping numReqs maxNumReqs) {row : ℕ}
    (hrow : row < numReqs) :
    PrefillRow maxNumReqs numLookahead idxMapping queryStartLoc allTokenIds
      stride prefillLen numComputed row
      (preparePrefillInputsKernel maxNumReqs numLookahead idxMapping
        queryStartLoc allTokenIds stride prefillLen numComputed 1024
        (nextPowerOf2 numLookahead) row inputs) := by
  intro hprefill
  simp only [preparePrefillInputsKernel, if_neg (not_le.mpr hprefill)]
  constructor
  · intro slot hslot
    have hmem : slot ∈ blockLanes
        (queryStartLoc (row + 1) - queryStartLoc row).toNat 1024 := by
      rw [mem_blockLanes (by decide)]
      omega
    have hinj : Function.Injective fun block : ℕ =>
        queryStartLoc row + (block : ℤ) := by
      intro left right heq
      exact Int.ofNat_inj.mp (Int.add_left_cancel heq)
    exact storeLanes_apply hinj hmem
  · intro lookahead hlookahead
    have hmem : lookahead ∈
        maskedLanes numLookahead (nextPowerOf2 numLookahead) := by
      rw [mem_maskedLanes]
      exact ⟨hlookahead.trans_le (le_nextPowerOf2 numLookahead),
        Int.ofNat_lt.mpr hlookahead⟩
    have hinj : Function.Injective fun lookahead : ℕ =>
        (lookahead : ℤ) * maxNumReqs + idxMapping row := by
      intro left right heq
      have hcells := row_add_inj (hrows.nonneg row hrow) (hrows.lt row hrow)
        (hrows.nonneg row hrow) (hrows.lt row hrow) heq
      exact Int.ofNat_inj.mp hcells.1
    exact storeLanes_apply hinj hmem

/-- The program of a row writes to its own slots only. -/
theorem preparePrefillInputsKernel_inputIds {row lookaheadBlock : ℕ}
    {cell : ℤ}
    (hcell : ∀ slot : ℕ, slot < queryStartLoc (row + 1) - queryStartLoc row →
      cell ≠ queryStartLoc row + slot) :
    (preparePrefillInputsKernel maxNumReqs numLookahead idxMapping
      queryStartLoc allTokenIds stride prefillLen numComputed 1024
      lookaheadBlock row inputs).inputIds cell = inputs.inputIds cell := by
  rw [preparePrefillInputsKernel]
  split
  · rfl
  · apply storeLanes_of_ne
    intro slot hslot
    rw [mem_blockLanes (by decide)] at hslot
    exact hcell slot (by omega)

/-- The program of a row writes to its own column only, and only while the
row prefills. -/
theorem preparePrefillInputsKernel_nextPrefillTokens
    (hrows : BatchRows idxMapping numReqs maxNumReqs)
    {row blockSize lookaheadBlock : ℕ} (hrow : row < numReqs) {column : ℤ}
    (hcolumn : 0 ≤ column) (hcolumnLt : column < maxNumReqs)
    (hapart : idxMapping row = column →
      prefillLen column ≤ numComputed column) (lookahead : ℕ) :
    (preparePrefillInputsKernel maxNumReqs numLookahead idxMapping
      queryStartLoc allTokenIds stride prefillLen numComputed blockSize
      lookaheadBlock row inputs).nextPrefillTokens
        (lookahead * maxNumReqs + column) =
      inputs.nextPrefillTokens (lookahead * maxNumReqs + column) := by
  rw [preparePrefillInputsKernel]
  split
  · rfl
  · rename_i hprefill
    apply storeLanes_of_ne
    intro lane hlane heq
    have hcells := row_add_inj hcolumn hcolumnLt (hrows.nonneg row hrow)
      (hrows.lt row hrow) heq
    rw [← hcells.2] at hprefill
    exact hprefill (hapart hcells.2.symm)

theorem preparePrefillInputs_row
    (hrows : BatchRows idxMapping numReqs maxNumReqs)
    (hstarts : Consecutive queryStartLoc numReqs) {row : ℕ}
    (hrow : row < numReqs) :
    PrefillRow maxNumReqs numLookahead idxMapping queryStartLoc allTokenIds
      stride prefillLen numComputed row
      (preparePrefillInputs device numReqs numLookahead maxNumReqs idxMapping
        queryStartLoc allTokenIds stride prefillLen numComputed inputs) := by
  refine device.launch_establishes_of_independent _ ?_
    (fun index hindex state => preparePrefillInputsKernel_row hrows hindex)
    hrow
  intro index hindex other hother hne state hdone hprefill
  constructor
  · intro slot hslot
    rw [← (hdone hprefill).1 slot hslot]
    apply preparePrefillInputsKernel_inputIds
    intro slot' hslot'
    exact hstarts.slot_ne hne hother hindex (by omega) (by omega) hslot hslot'
  · intro lookahead hlookahead
    rw [← (hdone hprefill).2 lookahead hlookahead]
    exact preparePrefillInputsKernel_nextPrefillTokens hrows hindex
      (hrows.nonneg other hother) (hrows.lt other hother)
      (fun heq => absurd heq (hrows.ne hindex hother hne.symm)) lookahead

/-- Columns of rows that do not prefill in this batch are kept. -/
theorem preparePrefillInputs_nextPrefillTokens
    (hrows : BatchRows idxMapping numReqs maxNumReqs) {column : ℤ}
    (hcolumn : 0 ≤ column) (hcolumnLt : column < maxNumReqs)
    (hapart : ∀ row : ℕ, row < numReqs → idxMapping row = column →
      prefillLen column ≤ numComputed column) (lookahead : ℕ) :
    (preparePrefillInputs device numReqs numLookahead maxNumReqs idxMapping
      queryStartLoc allTokenIds stride prefillLen numComputed
      inputs).nextPrefillTokens (lookahead * maxNumReqs + column) =
      inputs.nextPrefillTokens (lookahead * maxNumReqs + column) := by
  refine @Device.launch_keeps_of_independent device _ _ _ _
    (fun out : PrefillInputs =>
      out.nextPrefillTokens (lookahead * maxNumReqs + column) =
        inputs.nextPrefillTokens (lookahead * maxNumReqs + column)) _ ?_ rfl
  intro index hindex state hkept
  rw [← hkept]
  exact preparePrefillInputsKernel_nextPrefillTokens hrows hindex hcolumn
    hcolumnLt (hapart index hindex) lookahead

end Prefill

/-! ## Positions and sequence lengths -/

section Positions

variable {device : Device} {numReqs maxNumReqs : ℕ}
  {idxMapping queryStartLoc numComputed : Tensor} {positions : Positions}

/-- The positions of the slots of a row, and its length after the step. -/
def PositionRow (idxMapping queryStartLoc numComputed : Tensor) (row : ℕ)
    (positions : Positions) : Prop :=
  positions.seqLens row = numComputed (idxMapping row) +
      (queryStartLoc (row + 1) - queryStartLoc row) ∧
    ∀ slot : ℕ, slot < queryStartLoc (row + 1) - queryStartLoc row →
      positions.pos (queryStartLoc row + slot) =
        numComputed (idxMapping row) + slot

theorem preparePosSeqLensKernel_row {row : ℕ} (hrow : row < numReqs) :
    PositionRow idxMapping queryStartLoc numComputed row
      (preparePosSeqLensKernel numReqs maxNumReqs idxMapping queryStartLoc
        numComputed 1024 row positions) := by
  simp only [preparePosSeqLensKernel, if_neg hrow.ne]
  constructor
  · exact Function.update_self _ _ _
  · intro slot hslot
    have hmem : slot ∈ blockLanes
        (queryStartLoc (row + 1) - queryStartLoc row).toNat 1024 := by
      rw [mem_blockLanes (by decide)]
      omega
    have hinj : Function.Injective fun block : ℕ =>
        queryStartLoc row + (block : ℤ) := by
      intro left right heq
      exact Int.ofNat_inj.mp (Int.add_left_cancel heq)
    exact storeLanes_apply hinj hmem

/-- The other programs, the padding one among them, leave the row alone. -/
theorem preparePosSeqLensKernel_other {row other : ℕ}
    (hstarts : Consecutive queryStartLoc numReqs) (hrow : row < numReqs)
    (hother : other < numReqs + 1) (hne : row ≠ other)
    (hdone : PositionRow idxMapping queryStartLoc numComputed row positions) :
    PositionRow idxMapping queryStartLoc numComputed row
      (preparePosSeqLensKernel numReqs maxNumReqs idxMapping queryStartLoc
        numComputed 1024 other positions) := by
  rw [preparePosSeqLensKernel]
  split
  · refine ⟨?_, hdone.2⟩
    rw [← hdone.1]
    apply storeLanes_of_ne
    intro block _
    omega
  · rename_i hpad
    have hlt : other < numReqs := by omega
    constructor
    · rw [← hdone.1]
      exact Function.update_of_ne (by exact_mod_cast hne) _ _
    · intro slot hslot
      rw [← hdone.2 slot hslot]
      apply storeLanes_of_ne
      intro block hblock
      rw [mem_blockLanes (by decide)] at hblock
      exact hstarts.slot_ne hne hrow hlt (by omega) (by omega) hslot
        (by omega)

theorem preparePosSeqLens_row (hstarts : Consecutive queryStartLoc numReqs)
    {row : ℕ} (hrow : row < numReqs) :
    PositionRow idxMapping queryStartLoc numComputed row
      (preparePosSeqLens device numReqs maxNumReqs idxMapping queryStartLoc
        numComputed positions) := by
  -- Nothing is asked of the padding program.
  refine @Device.launch_establishes_of_independent device _ _ row _ _
    (fun row state => row < numReqs →
      PositionRow idxMapping queryStartLoc numComputed row state) _
    ?_ ?_ (Nat.lt_succ_of_lt hrow) hrow
  · intro index hindex other _ hne state hdone hlt
    exact preparePosSeqLensKernel_other hstarts hlt hindex hne (hdone hlt)
  · intro index _ state hlt
    exact preparePosSeqLensKernel_row hlt

end Positions

/-! ## Sampled and draft tokens -/

section Combine

variable {device : Device} {numReqs numSpeculativeSteps : ℕ}
  {idxMapping lastSampledTokens queryStartLoc seqLens prefillLen draftTokens
    cuNumLogits inputIds : Tensor} {stride : ℤ}

/-- The token in a slot of a row, given what the prefill left there. -/
def combinedToken (idxMapping lastSampledTokens queryStartLoc seqLens
    prefillLen draftTokens cuNumLogits inputIds : Tensor) (stride : ℤ)
    (row slot : ℕ) : ℤ :=
  let queryLen := queryStartLoc (row + 1) - queryStartLoc row
  let numLogits := cuNumLogits (row + 1) - cuNumLogits row
  if seqLens row ≤ prefillLen (idxMapping row) then
    inputIds (queryStartLoc row + slot)
  else if queryLen - (numLogits - 1) ≤ slot then
    draftTokens (idxMapping row * stride +
      (slot - (queryLen - (numLogits - 1))))
  else if slot = queryLen - numLogits ∧
      prefillLen (idxMapping row) ≤ seqLens row - numLogits then
    lastSampledTokens (idxMapping row)
  else inputIds (queryStartLoc row + slot)

def CombinedRow (idxMapping lastSampledTokens queryStartLoc seqLens
    prefillLen draftTokens cuNumLogits inputIds : Tensor) (stride : ℤ)
    (row : ℕ) (inputs : CombinedInputs) : Prop :=
  (∀ slot : ℕ, slot < queryStartLoc (row + 1) - queryStartLoc row →
    inputs.inputIds (queryStartLoc row + slot) =
      combinedToken idxMapping lastSampledTokens queryStartLoc seqLens
        prefillLen draftTokens cuNumLogits inputIds stride row slot) ∧
  ∀ logit : ℕ, logit < cuNumLogits (row + 1) - cuNumLogits row →
    inputs.logitsIndices (cuNumLogits row + logit) =
      queryStartLoc (row + 1) - (cuNumLogits (row + 1) - cuNumLogits row) +
        logit

/-- The logits of a row are those of some of its last slots, and fit in one
block. -/
structure LogitRows (queryStartLoc cuNumLogits : Tensor)
    (numReqs numSpeculativeSteps : ℕ) : Prop where
  pos : ∀ row : ℕ, row < numReqs → cuNumLogits row < cuNumLogits (row + 1)
  le : ∀ row : ℕ, row < numReqs →
    cuNumLogits (row + 1) - cuNumLogits row ≤
      queryStartLoc (row + 1) - queryStartLoc row
  fits : ∀ row : ℕ, row < numReqs →
    cuNumLogits (row + 1) - cuNumLogits row ≤ numSpeculativeSteps + 1

theorem combineSampledAndDraftTokensKernel_logitsIndices
    (hlogits : LogitRows queryStartLoc cuNumLogits numReqs
      numSpeculativeSteps)
    {row : ℕ} (hrow : row < numReqs) (inputs : CombinedInputs) {logit : ℕ}
    (hlogit : logit < cuNumLogits (row + 1) - cuNumLogits row) :
    (combineSampledAndDraftTokensKernel idxMapping lastSampledTokens
      queryStartLoc seqLens prefillLen draftTokens stride cuNumLogits
      (nextPowerOf2 (numSpeculativeSteps + 1)) 1 row inputs).logitsIndices
        (cuNumLogits row + logit) =
      queryStartLoc (row + 1) - (cuNumLogits (row + 1) - cuNumLogits row) +
        logit := by
  have hmem : logit ∈ maskedLanes (cuNumLogits (row + 1) - cuNumLogits row)
      (nextPowerOf2 (numSpeculativeSteps + 1)) := by
    have hfits := hlogits.fits row hrow
    have hblock := le_nextPowerOf2 (numSpeculativeSteps + 1)
    rw [mem_maskedLanes]
    exact ⟨by omega, hlogit⟩
  have hinj : Function.Injective fun block : ℕ =>
      cuNumLogits row + (block : ℤ) := by
    intro left right heq
    exact Int.ofNat_inj.mp (Int.add_left_cancel heq)
  rw [combineSampledAndDraftTokensKernel]
  split
  · exact storeLanes_apply hinj hmem
  · exact storeLanes_apply hinj hmem

theorem combineSampledAndDraftTokensKernel_inputIds
    (hlogits : LogitRows queryStartLoc cuNumLogits numReqs
      numSpeculativeSteps)
    {row : ℕ} (hrow : row < numReqs) {inputs : CombinedInputs} {slot : ℕ}
    (hslot : slot < queryStartLoc (row + 1) - queryStartLoc row)
    (hfresh : inputs.inputIds (queryStartLoc row + slot) =
      inputIds (queryStartLoc row + slot)) :
    (combineSampledAndDraftTokensKernel idxMapping lastSampledTokens
      queryStartLoc seqLens prefillLen draftTokens stride cuNumLogits
      (nextPowerOf2 (numSpeculativeSteps + 1)) 1 row inputs).inputIds
        (queryStartLoc row + slot) =
      combinedToken idxMapping lastSampledTokens queryStartLoc seqLens
        prefillLen draftTokens cuNumLogits inputIds stride row slot := by
  have hpos := hlogits.pos row hrow
  have hle := hlogits.le row hrow
  have hfits := hlogits.fits row hrow
  have hblock := le_nextPowerOf2 (numSpeculativeSteps + 1)
  simp only [combineSampledAndDraftTokensKernel, combinedToken]
  by_cases hprefill : seqLens row ≤ prefillLen (idxMapping row)
  · simp only [if_pos hprefill]
    exact hfresh
  · simp only [if_neg hprefill]
    by_cases hdraft : queryStartLoc (row + 1) - queryStartLoc row -
        (cuNumLogits (row + 1) - cuNumLogits row - 1) ≤ slot
    · -- A draft slot: its lane counts from the first draft.
      have hsome : 0 < cuNumLogits (row + 1) - cuNumLogits row - (1 : ℕ) := by
        omega
      obtain ⟨lane, hlane⟩ := Int.eq_ofNat_of_zero_le
        (sub_nonneg.mpr hdraft)
      have hmem : lane ∈ maskedLanes
          (cuNumLogits (row + 1) - cuNumLogits row - (1 : ℕ))
          (nextPowerOf2 (numSpeculativeSteps + 1)) := by
        rw [mem_maskedLanes]
        omega
      have hinj : Function.Injective fun block : ℕ =>
          queryStartLoc (row + 1) -
            (cuNumLogits (row + 1) - cuNumLogits row - (1 : ℕ)) +
              (block : ℤ) := by
        intro left right heq
        exact Int.ofNat_inj.mp (Int.add_left_cancel heq)
      have haddr : queryStartLoc row + slot = queryStartLoc (row + 1) -
          (cuNumLogits (row + 1) - cuNumLogits row - (1 : ℕ)) + lane := by
        omega
      rw [if_pos hsome, if_pos hdraft, haddr, storeLanes_apply hinj hmem,
        hlane]
    · rw [if_neg hdraft]
      have hkept : ∀ tensor : Tensor,
          (if 0 < cuNumLogits (row + 1) - cuNumLogits row - (1 : ℕ) then
            storeLanes tensor
              (maskedLanes (cuNumLogits (row + 1) - cuNumLogits row - (1 : ℕ))
                (nextPowerOf2 (numSpeculativeSteps + 1)))
              (fun block => queryStartLoc (row + 1) -
                (cuNumLogits (row + 1) - cuNumLogits row - (1 : ℕ)) + block)
              fun block => draftTokens (idxMapping row * stride + block)
            else tensor) (queryStartLoc row + slot) =
          tensor (queryStartLoc row + slot) := by
        intro tensor
        split
        · apply storeLanes_of_ne
          intro lane _
          omega
        · rfl
      rw [hkept]
      by_cases htail : prefillLen (idxMapping row) ≤
          seqLens row - (cuNumLogits (row + 1) - cuNumLogits row)
      · rw [if_pos ⟨Nat.one_pos, htail⟩]
        by_cases hlast : (slot : ℤ) = queryStartLoc (row + 1) -
            queryStartLoc row - (cuNumLogits (row + 1) - cuNumLogits row)
        · have haddr : queryStartLoc row + slot = queryStartLoc (row + 1) -
              (cuNumLogits (row + 1) - cuNumLogits row) := by omega
          rw [if_pos ⟨hlast, htail⟩, haddr]
          exact Function.update_self _ _ _
        · rw [if_neg (fun h => hlast h.1), ← hfresh]
          apply Function.update_of_ne
          omega
      · rw [if_neg (fun h => htail h.2), if_neg (fun h => htail h.2)]
        exact hfresh

/-- Programs of other rows leave the slots and the logits alone. -/
theorem combineSampledAndDraftTokensKernel_other
    (hstarts : Consecutive queryStartLoc numReqs)
    (hlogits : LogitRows queryStartLoc cuNumLogits numReqs
      numSpeculativeSteps)
    {row other blockSize : ℕ} (hrow : row < numReqs) (hother : other < numReqs)
    (hne : row ≠ other) (inputs : CombinedInputs) :
    (∀ slot : ℕ, slot < queryStartLoc (row + 1) - queryStartLoc row →
      (combineSampledAndDraftTokensKernel idxMapping lastSampledTokens
        queryStartLoc seqLens prefillLen draftTokens stride cuNumLogits
        blockSize 1 other inputs).inputIds (queryStartLoc row + slot) =
        inputs.inputIds (queryStartLoc row + slot)) ∧
    ∀ logit : ℕ, logit < cuNumLogits (row + 1) - cuNumLogits row →
      (combineSampledAndDraftTokensKernel idxMapping lastSampledTokens
        queryStartLoc seqLens prefillLen draftTokens stride cuNumLogits
        blockSize 1 other inputs).logitsIndices (cuNumLogits row + logit) =
        inputs.logitsIndices (cuNumLogits row + logit) := by
  have hpos := hlogits.pos other hother
  have hle := hlogits.le other hother
  have hcu : Consecutive cuNumLogits numReqs := fun index hindex =>
    (hlogits.pos index hindex).le
  constructor
  · intro slot hslot
    have hapart : ∀ slot' : ℤ, 0 ≤ slot' →
        slot' < queryStartLoc (other + 1) - queryStartLoc other →
        queryStartLoc row + slot ≠ queryStartLoc other + slot' :=
      fun slot' hnonneg hlt =>
        hstarts.slot_ne hne hrow hother (by omega) hnonneg hslot hlt
    simp only [combineSampledAndDraftTokensKernel]
    split
    · rfl
    · have hkept : ∀ tensor : Tensor,
          (if 0 < cuNumLogits (other + 1) - cuNumLogits other - (1 : ℕ) then
            storeLanes tensor
              (maskedLanes
                (cuNumLogits (other + 1) - cuNumLogits other - (1 : ℕ))
                blockSize)
              (fun block => queryStartLoc (other + 1) -
                (cuNumLogits (other + 1) - cuNumLogits other - (1 : ℕ)) +
                  block)
              fun block => draftTokens (idxMapping other * stride + block)
            else tensor) (queryStartLoc row + slot) =
          tensor (queryStartLoc row + slot) := by
        intro tensor
        split
        · apply storeLanes_of_ne
          intro lane hlane heq
          rw [mem_maskedLanes] at hlane
          refine hapart (queryStartLoc (other + 1) -
            (cuNumLogits (other + 1) - cuNumLogits other - (1 : ℕ)) + lane -
              queryStartLoc other) ?_ ?_ ?_ <;> omega
        · rfl
      dsimp only
      rw [hkept]
      split
      · apply Function.update_of_ne
        intro heq
        refine hapart (queryStartLoc (other + 1) -
          (cuNumLogits (other + 1) - cuNumLogits other) -
            queryStartLoc other) ?_ ?_ ?_ <;> omega
      · rfl
  · intro logit hlogit
    have hkept : storeLanes inputs.logitsIndices
        (maskedLanes (cuNumLogits (other + 1) - cuNumLogits other) blockSize)
        (fun block => cuNumLogits other + block)
        (fun block => queryStartLoc (other + 1) -
          (cuNumLogits (other + 1) - cuNumLogits other) + block)
        (cuNumLogits row + logit) =
        inputs.logitsIndices (cuNumLogits row + logit) := by
      apply storeLanes_of_ne
      intro lane hlane
      rw [mem_maskedLanes] at hlane
      exact hcu.slot_ne hne hrow hother (by omega) (by omega) hlogit hlane.2
    rw [combineSampledAndDraftTokensKernel]
    split
    · exact hkept
    · exact hkept

theorem combineSampledAndDraftTokens_row
    (hstarts : Consecutive queryStartLoc numReqs)
    (hlogits : LogitRows queryStartLoc cuNumLogits numReqs
      numSpeculativeSteps)
    {row : ℕ} (hrow : row < numReqs) :
    CombinedRow idxMapping lastSampledTokens queryStartLoc seqLens prefillLen
      draftTokens cuNumLogits inputIds stride row
      (combineSampledAndDraftTokens device numReqs numSpeculativeSteps
        inputIds idxMapping lastSampledTokens queryStartLoc seqLens
        prefillLen draftTokens stride cuNumLogits 1) := by
  refine @Device.launch_establishes device _ numReqs row _ _
    (fun row inputs => ∀ slot : ℕ,
      slot < queryStartLoc (row + 1) - queryStartLoc row →
        inputs.inputIds (queryStartLoc row + slot) =
          inputIds (queryStartLoc row + slot))
    (CombinedRow idxMapping lastSampledTokens queryStartLoc seqLens
      prefillLen draftTokens cuNumLogits inputIds stride) _
    ?_ ?_ ?_ (fun _ _ _ _ => rfl) hrow
  · intro index hindex other hother hne state _ hfresh slot hslot
    rw [← hfresh slot hslot]
    exact (combineSampledAndDraftTokensKernel_other hstarts hlogits hother
      hindex hne state).1 slot hslot
  · intro index hindex other hother hne state _ hdone
    have hkept := @combineSampledAndDraftTokensKernel_other numReqs
      numSpeculativeSteps idxMapping lastSampledTokens queryStartLoc seqLens
      prefillLen draftTokens cuNumLogits stride hstarts hlogits other index
      (nextPowerOf2 (numSpeculativeSteps + 1)) hother hindex hne state
    constructor
    · intro slot hslot
      rw [← hdone.1 slot hslot]
      exact hkept.1 slot hslot
    · intro logit hlogit
      rw [← hdone.2 logit hlogit]
      exact hkept.2 logit hlogit
  · intro index hindex state hfresh
    constructor
    · intro slot hslot
      exact combineSampledAndDraftTokensKernel_inputIds hlogits hindex hslot
        (hfresh slot hslot)
    · intro logit hlogit
      exact combineSampledAndDraftTokensKernel_logitsIndices hlogits hindex
        state hlogit

end Combine

/-! ## Sampled and rejected tokens -/

section Counts

variable {device : Device} {numReqs : ℕ}
  {numSampled seqLens cuNumLogits idxMapping prefillLen : Tensor}

def CountRow (numSampled seqLens cuNumLogits idxMapping prefillLen : Tensor)
    (row : ℕ) (counts : SampleCounts) : Prop :=
  counts.numSampled row =
      (if seqLens row < prefillLen (idxMapping row) then 0
      else numSampled row) ∧
    counts.numRejected row =
      if seqLens row < prefillLen (idxMapping row) then 0
      else cuNumLogits (row + 1) - cuNumLogits row - numSampled row

theorem getNumSampledAndRejectedKernel_row {row : ℕ} {counts : SampleCounts}
    (hfresh : counts.numSampled row = numSampled row) :
    CountRow numSampled seqLens cuNumLogits idxMapping prefillLen row
      (getNumSampledAndRejectedKernel seqLens cuNumLogits idxMapping
        prefillLen row counts) := by
  simp only [CountRow, getNumSampledAndRejectedKernel, Function.update_self,
    hfresh, decide_eq_true_eq]
  refine ⟨trivial, ?_⟩
  split
  · rfl
  · rfl

theorem getNumSampledAndRejected_row {row : ℕ} (hrow : row < numReqs) :
    CountRow numSampled seqLens cuNumLogits idxMapping prefillLen row
      (getNumSampledAndRejected device numReqs numSampled seqLens cuNumLogits
        idxMapping prefillLen) := by
  refine @Device.launch_establishes device _ numReqs row _ _
    (fun row counts => counts.numSampled row = numSampled row)
    (CountRow numSampled seqLens cuNumLogits idxMapping prefillLen) _
    ?_ ?_ ?_ (fun _ _ => rfl) hrow
  · intro index _ other _ hne state _ hfresh
    rw [← hfresh]
    exact Function.update_of_ne (by exact_mod_cast hne) _ _
  · intro index _ other _ hne state _ hdone
    have hcast : (other : ℤ) ≠ index := by exact_mod_cast hne
    rw [CountRow, ← hdone.1, ← hdone.2]
    exact ⟨Function.update_of_ne hcast _ _, Function.update_of_ne hcast _ _⟩
  · intro index _ state hfresh
    exact getNumSampledAndRejectedKernel_row hfresh

end Counts

/-! ## The request states after a step -/

section PostUpdate

variable {device : Device} {numReqs maxNumReqs : ℕ}
  {idxMapping sampledTokens numSampled numRejected queryStartLoc : Tensor}
  {binStride sampledStride stride : ℤ} {before state : SequenceState}

/-- One row of the request states is the same in both. -/
structure SameSequence (stride index : ℤ) (before after : SequenceState) :
    Prop where
  numComputedTokens :
    after.numComputedTokens index = before.numComputedTokens index
  lastSampledTokens :
    after.lastSampledTokens index = before.lastSampledTokens index
  totalLen : after.totalLen index = before.totalLen index
  allTokenIds : ∀ pos, 0 ≤ pos → pos < stride →
    after.allTokenIds (index * stride + pos) =
      before.allTokenIds (index * stride + pos)

/-- One row of the request states, with the sampled tokens appended. -/
structure UpdatedSequence (idxMapping sampledTokens : Tensor)
    (sampledStride : ℤ) (numSampled numRejected queryStartLoc : Tensor)
    (stride : ℤ) (before : SequenceState) (row : ℕ) (after : SequenceState) :
    Prop where
  numComputedTokens : after.numComputedTokens (idxMapping row) =
    before.numComputedTokens (idxMapping row) +
      (queryStartLoc (row + 1) - queryStartLoc row - numRejected row)
  lastSampledTokens : after.lastSampledTokens (idxMapping row) =
    if 0 < numSampled row then
      sampledTokens (row * sampledStride + numSampled row - 1)
    else before.lastSampledTokens (idxMapping row)
  totalLen : after.totalLen (idxMapping row) =
    before.totalLen (idxMapping row) + numSampled row
  appended : ∀ i : ℕ, i < numSampled row →
    after.allTokenIds (idxMapping row * stride +
        (before.totalLen (idxMapping row) + i)) =
      sampledTokens (row * sampledStride + i)
  kept : ∀ pos, 0 ≤ pos → pos < before.totalLen (idxMapping row) →
    after.allTokenIds (idxMapping row * stride + pos) =
      before.allTokenIds (idxMapping row * stride + pos)

/-- The sampled tokens fit in the rows they are appended to. -/
structure SampledFits (idxMapping numSampled : Tensor) (stride : ℤ)
    (numReqs : ℕ) (before : SequenceState) : Prop where
  nonneg : ∀ row : ℕ, row < numReqs → 0 ≤ numSampled row
  total_nonneg : ∀ row : ℕ, row < numReqs →
    0 ≤ before.totalLen (idxMapping row)
  le : ∀ row : ℕ, row < numReqs →
    before.totalLen (idxMapping row) + numSampled row ≤ stride

theorem foldl_appendSampledToken (index totalLen sampledRow : ℤ)
    (lanes : List ℕ) (state : SequenceState) :
    ∃ counts, lanes.foldl (appendSampledToken index binStride stride totalLen
        sampledTokens sampledRow) state =
      { state with
        outputBinCounts := counts
        allTokenIds := storeLanes state.allTokenIds lanes
          (fun i => index * stride + totalLen + i)
          fun i => sampledTokens (sampledRow + i) } := by
  induction lanes generalizing state with
  | nil => exact ⟨state.outputBinCounts, rfl⟩
  | cons lane lanes ih =>
      obtain ⟨counts, hrest⟩ := ih (appendSampledToken index binStride stride
        totalLen sampledTokens sampledRow state lane)
      exact ⟨counts, hrest⟩

theorem postUpdateKernel_eq {row : ℕ} (hindex : 0 ≤ idxMapping row) :
    ∃ counts, postUpdateKernel idxMapping binStride sampledTokens
        sampledStride numSampled numRejected (some queryStartLoc) stride row
        state =
      { outputBinCounts := counts
        numComputedTokens := Function.update state.numComputedTokens
          (idxMapping row) (state.numComputedTokens (idxMapping row) +
            (queryStartLoc (row + 1) - queryStartLoc row - numRejected row))
        lastSampledTokens :=
          if 0 < numSampled row then
            Function.update state.lastSampledTokens (idxMapping row)
              (sampledTokens (row * sampledStride + numSampled row - 1))
          else state.lastSampledTokens
        totalLen :=
          if 0 < numSampled row then
            Function.update state.totalLen (idxMapping row)
              (state.totalLen (idxMapping row) + numSampled row)
          else state.totalLen
        allTokenIds := storeLanes state.allTokenIds
          (List.range (numSampled row).toNat)
          (fun i => idxMapping row * stride +
            state.totalLen (idxMapping row) + i)
          fun i => sampledTokens (row * sampledStride + i) } := by
  obtain ⟨counts, hfold⟩ := @foldl_appendSampledToken sampledTokens binStride
    stride (idxMapping row) (state.totalLen (idxMapping row))
    (row * sampledStride) (List.range (numSampled row).toNat)
    (if 0 < numSampled row then
      { state with
        lastSampledTokens := Function.update state.lastSampledTokens
          (idxMapping row)
          (sampledTokens (row * sampledStride + numSampled row - 1))
        totalLen := Function.update state.totalLen (idxMapping row)
          (state.totalLen (idxMapping row) + numSampled row) }
    else state)
  refine ⟨counts, ?_⟩
  simp only [postUpdateKernel, if_neg (not_lt.mpr hindex), hfold]
  by_cases hdelta : queryStartLoc (row + 1) - queryStartLoc row -
      numRejected row = 0
  · rw [if_neg (not_not.mpr hdelta), hdelta, add_zero, Function.update_eq_self]
    split
    · rfl
    · rfl
  · rw [if_pos hdelta]
    split
    · rfl
    · rfl

theorem postUpdateKernel_row {row : ℕ} (hindex : 0 ≤ idxMapping row)
    (hnonneg : 0 ≤ numSampled row)
    (hsame : SameSequence stride (idxMapping row) before state)
    (hfits : before.totalLen (idxMapping row) + numSampled row ≤ stride) :
    UpdatedSequence idxMapping sampledTokens sampledStride numSampled
      numRejected queryStartLoc stride before row
      (postUpdateKernel idxMapping binStride sampledTokens sampledStride
        numSampled numRejected (some queryStartLoc) stride row state) := by
  obtain ⟨counts, heq⟩ := @postUpdateKernel_eq idxMapping sampledTokens
    numSampled numRejected queryStartLoc binStride sampledStride stride state
    row hindex
  rw [heq]
  constructor
  · simp only [Function.update_self]
    rw [hsame.numComputedTokens]
  · dsimp only
    split
    · exact Function.update_self _ _ _
    · exact hsame.lastSampledTokens
  · dsimp only
    split
    · rw [Function.update_self, hsame.totalLen]
    · rw [hsame.totalLen]
      omega
  · intro i hi
    have hmem : i ∈ List.range (numSampled row).toNat := by
      rw [List.mem_range]
      omega
    have hinj : Function.Injective fun i : ℕ =>
        idxMapping row * stride + state.totalLen (idxMapping row) +
          (i : ℤ) := by
      intro left right heq
      exact Int.ofNat_inj.mp (Int.add_left_cancel heq)
    rw [← add_assoc, ← hsame.totalLen]
    exact storeLanes_apply hinj hmem
  · intro pos hpos hlt
    rw [← hsame.allTokenIds pos hpos (by omega)]
    apply storeLanes_of_ne
    intro i _ heq
    rw [hsame.totalLen] at heq
    omega

/-- The program of a row keeps the other rows. -/
theorem postUpdateKernel_other {row : ℕ} {index : ℤ}
    (hindex : 0 ≤ idxMapping row) (hne : index ≠ idxMapping row)
    (hsame : SameSequence stride (idxMapping row) before state)
    (htotal : 0 ≤ before.totalLen (idxMapping row))
    (hfits : before.totalLen (idxMapping row) + numSampled row ≤ stride) :
    SameSequence stride index state
      (postUpdateKernel idxMapping binStride sampledTokens sampledStride
        numSampled numRejected (some queryStartLoc) stride row state) := by
  obtain ⟨counts, heq⟩ := @postUpdateKernel_eq idxMapping sampledTokens
    numSampled numRejected queryStartLoc binStride sampledStride stride state
    row hindex
  rw [heq]
  constructor
  · exact Function.update_of_ne hne _ _
  · dsimp only
    split
    · exact Function.update_of_ne hne _ _
    · rfl
  · dsimp only
    split
    · exact Function.update_of_ne hne _ _
    · rfl
  · intro pos hpos hlt
    apply storeLanes_of_ne
    intro i hi heq
    rw [hsame.totalLen, add_assoc] at heq
    rw [List.mem_range] at hi
    have hcells := row_add_inj hpos hlt (by omega) (by omega) heq
    exact hne hcells.1

theorem SameSequence.trans {index : ℤ} {after : SequenceState}
    (hfirst : SameSequence stride index before state)
    (hsecond : SameSequence stride index state after) :
    SameSequence stride index before after where
  numComputedTokens :=
    hsecond.numComputedTokens.trans hfirst.numComputedTokens
  lastSampledTokens :=
    hsecond.lastSampledTokens.trans hfirst.lastSampledTokens
  totalLen := hsecond.totalLen.trans hfirst.totalLen
  allTokenIds pos hpos hlt :=
    (hsecond.allTokenIds pos hpos hlt).trans (hfirst.allTokenIds pos hpos hlt)

theorem UpdatedSequence.trans {row : ℕ} {after : SequenceState}
    (hnonneg : 0 ≤ numSampled row)
    (htotal : 0 ≤ before.totalLen (idxMapping row))
    (hfits : before.totalLen (idxMapping row) + numSampled row ≤ stride)
    (hfirst : UpdatedSequence idxMapping sampledTokens sampledStride
      numSampled numRejected queryStartLoc stride before row state)
    (hsecond : SameSequence stride (idxMapping row) state after) :
    UpdatedSequence idxMapping sampledTokens sampledStride numSampled
      numRejected queryStartLoc stride before row after where
  numComputedTokens :=
    hsecond.numComputedTokens.trans hfirst.numComputedTokens
  lastSampledTokens :=
    hsecond.lastSampledTokens.trans hfirst.lastSampledTokens
  totalLen := hsecond.totalLen.trans hfirst.totalLen
  appended i hi :=
    (hsecond.allTokenIds _ (by omega) (by omega)).trans (hfirst.appended i hi)
  kept pos hpos hlt :=
    (hsecond.allTokenIds pos hpos (by omega)).trans (hfirst.kept pos hpos hlt)

theorem postUpdate_row (hrows : BatchRows idxMapping numReqs maxNumReqs)
    (hfits : SampledFits idxMapping numSampled stride numReqs before)
    {row : ℕ} (hrow : row < numReqs) :
    UpdatedSequence idxMapping sampledTokens sampledStride numSampled
      numRejected queryStartLoc stride before row
      (postUpdate device numReqs idxMapping binStride sampledTokens
        sampledStride numSampled numRejected (some queryStartLoc) stride
        before) := by
  refine @Device.launch_establishes device _ numReqs row _ _
    (fun row state => SameSequence stride (idxMapping row) before state)
    (UpdatedSequence idxMapping sampledTokens sampledStride numSampled
      numRejected queryStartLoc stride before) _
    ?_ ?_ ?_ (fun _ _ => ⟨rfl, rfl, rfl, fun _ _ _ => rfl⟩) hrow
  · intro index hindex other hother hne state hown hsame
    exact hsame.trans (postUpdateKernel_other (hrows.nonneg index hindex)
      (hrows.ne hother hindex hne) hown (hfits.total_nonneg index hindex)
      (hfits.le index hindex))
  · intro index hindex other hother hne state hown hdone
    exact hdone.trans (hfits.nonneg other hother)
      (hfits.total_nonneg other hother) (hfits.le other hother)
      (postUpdateKernel_other (hrows.nonneg index hindex)
        (hrows.ne hother hindex hne) hown (hfits.total_nonneg index hindex)
        (hfits.le index hindex))
  · intro index hindex state hsame
    exact postUpdateKernel_row (hrows.nonneg index hindex)
      (hfits.nonneg index hindex) hsame (hfits.le index hindex)

/-- Rows outside the batch are kept. -/
theorem postUpdate_other (hrows : BatchRows idxMapping numReqs maxNumReqs)
    (hfits : SampledFits idxMapping numSampled stride numReqs before)
    {index : ℤ} (hout : ∀ row : ℕ, row < numReqs → index ≠ idxMapping row) :
    SameSequence stride index before
      (postUpdate device numReqs idxMapping binStride sampledTokens
        sampledStride numSampled numRejected (some queryStartLoc) stride
        before) := by
  refine @Device.launch_keeps device _ numReqs _ _
    (fun row state => SameSequence stride (idxMapping row) before state)
    (SameSequence stride index before) _ ?_ ?_
    (fun _ _ => ⟨rfl, rfl, rfl, fun _ _ _ => rfl⟩)
    ⟨rfl, rfl, rfl, fun _ _ _ => rfl⟩
  · intro row hrow other hother hne state hown hsame
    exact hsame.trans (postUpdateKernel_other (hrows.nonneg row hrow)
      (hrows.ne hother hrow hne) hown (hfits.total_nonneg row hrow)
      (hfits.le row hrow))
  · intro row hrow state hown hkept
    exact hkept.trans (postUpdateKernel_other (hrows.nonneg row hrow)
      (hout row hrow) hown (hfits.total_nonneg row hrow)
      (hfits.le row hrow))

end PostUpdate

end GlmFlash.Worker
