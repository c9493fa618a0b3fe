import GlmFlash.Encoder.MassUnits
import Mathlib.Algebra.BigOperators.Ring.Finset

/-!
# Batches of rows

What an accumulation ends with depends on its rows and not on where they are
cut into batches.
-/

namespace GlmFlash.Encoder.RoutedMass

open GlmFlash.Library

variable {D : Type} [LinearOrder D] {ops : Doubles D} {rowSum : List (BitVec 32) → D}

/-- What is used of the numbers: torch adds up each row by itself, and an absolute
value is not negative. -/
structure Laws (ops : Doubles D) (rowSum : List (BitVec 32) → D) : Prop where
  rowSums : ∀ rows, ops.rowSums rows = rows.map rowSum
  zero_le_abs : ∀ number, ops.zero ≤ ops.abs number

/-- The error of one row. -/
def rowError (ops : Doubles D) (rowSum : List (BitVec 32) → D) (expected : D) (row : Row) :
    D :=
  ops.abs (ops.sub (rowSum row.weights) expected)

/-- What every batch asks of the expected mass. -/
structure Admissible (ops : Doubles D) (tolerance expected : D) : Prop where
  isFinite : ops.isFinite expected = true
  pos : ops.zero < expected
  tolerance : ops.zero ≤ tolerance

/-- What a batch asks of each of its rows. -/
structure RowOk (ops : Doubles D) (rowSum : List (BitVec 32) → D) (tolerance expected : D)
    (row : Row) : Prop where
  shape : row.ids.length = topK ∧ row.weights.length = topK
  range : ∀ id ∈ row.ids, 0 ≤ id ∧ id < numExperts
  weights : (row.weights.all fun weight =>
    Float32.isFinite weight && !Float32.isNegative weight) = true
  distinct : hasDuplicate row.ids = false
  error : rowError ops rowSum expected row ≤ tolerance
  bits : ∀ pair ∈ row.ids.zip row.weights,
    pair.2.msb = false ∧ Float32.exponent pair.2 ≠ 0xFF

/-! ## The largest error -/

section Maximum

variable {errors : List D}

theorem le_foldl_max (start : D) : start ≤ errors.foldl max start := by
  induction errors generalizing start with
  | nil => exact le_refl start
  | cons error errors ih => exact (le_max_left start error).trans (ih _)

theorem foldl_max_le {start bound : D} :
    errors.foldl max start ≤ bound ↔ start ≤ bound ∧ ∀ error ∈ errors, error ≤ bound := by
  induction errors generalizing start with
  | nil => simp
  | cons error errors ih =>
      rw [List.foldl_cons, ih, max_le_iff, List.forall_mem_cons, and_assoc]

theorem max_foldl (start first : D) :
    max start (errors.foldl max first) = errors.foldl max (max start first) := by
  induction errors generalizing first with
  | nil => rfl
  | cons error errors ih => rw [List.foldl_cons, ih, List.foldl_cons, max_assoc]

/-- The largest error of a batch, where none is below zero. -/
theorem maximum_eq (herrors : ∀ error ∈ errors, ops.zero ≤ error) :
    maximum ops errors = errors.foldl max ops.zero := by
  cases errors with
  | nil => rfl
  | cons first rest =>
      rw [List.foldl_cons, max_eq_right (herrors first List.mem_cons_self)]
      rfl

end Maximum

/-! ## One batch -/

section Batch

variable {state state' : RoutedMassAccumulator D} {rows : List Row} {tolerance expected : D}

theorem rowErrors_eq (laws : Laws ops rowSum) (rows : List Row) (expected : D) :
    rowErrors ops rows expected = rows.map (rowError ops rowSum expected) := by
  rw [rowErrors, laws.rowSums, List.map_map, List.map_map]
  rfl

/-- The accumulator after rows that are accepted. -/
def RoutedMassAccumulator.after (ops : Doubles D) (rowSum : List (BitVec 32) → D)
    (expected : D) (state : RoutedMassAccumulator D) (rows : List Row) :
    RoutedMassAccumulator D :=
  { state with
    tokens := state.tokens + rows.length
    assignments := state.assignments + (rows.flatMap Row.ids).length
    expectedMassPerToken := some expected
    massUnits := charge units state.massUnits (routed rows)
    counts := charge (fun _ => 1) state.counts (routed rows)
    maxRowMassError :=
      (rows.map (rowError ops rowSum expected)).foldl max state.maxRowMassError }

theorem after_append (rows rows' : List Row) :
    state.after ops rowSum expected (rows ++ rows') =
      (state.after ops rowSum expected rows).after ops rowSum expected rows' := by
  simp only [RoutedMassAccumulator.after, List.length_append, List.flatMap_append, routed,
    charge_append, List.map_append, List.foldl_append, Nat.add_assoc]

theorem maximum_rowErrors (laws : Laws ops rowSum) (rows : List Row) (expected : D) :
    maximum ops (rowErrors ops rows expected) =
      (rows.map (rowError ops rowSum expected)).foldl max ops.zero := by
  rw [rowErrors_eq laws, maximum_eq]
  intro error herror
  obtain ⟨row, _, rfl⟩ := List.mem_map.mp herror
  exact laws.zero_le_abs _

/-- A batch is accepted by its rows, and adds them up. -/
theorem add_eq_ok (laws : Laws ops rowSum) (hmax : ops.zero ≤ state.maxRowMassError) :
    state.add ops rows expected = .ok state' ↔
      Admissible ops state.rowTolerance expected ∧
      (state.expectedMassPerToken = none ∨ state.expectedMassPerToken = some expected) ∧
      (∀ row ∈ rows, RowOk ops rowSum state.rowTolerance expected row) ∧
      state' = state.after ops rowSum expected rows := by
  have hmaximum := maximum_rowErrors laws rows expected
  have hfold : max state.maxRowMassError (maximum ops (rowErrors ops rows expected)) =
      (rows.map (rowError ops rowSum expected)).foldl max state.maxRowMassError := by
    rw [hmaximum, max_foldl, max_eq_left hmax]
  simp only [RoutedMassAccumulator.add, RoutedMassAccumulator.checkBatch, hfold,
    bind_eq_ok, require_eq_ok, pure_eq_ok, assignAll_eq_ok, not_lt]
  rw [hmaximum, foldl_max_le, List.forall_mem_map]
  constructor
  · rintro ⟨_, ⟨_, hshape, _, hrange, _, hweights, hfinite, hpos⟩, _, hsome, _, hdistinct, _,
      ⟨htolerance, herror⟩, _, ⟨hbits, rfl⟩, rfl⟩
    refine ⟨⟨hfinite, hpos, htolerance⟩, hsome, ?_, rfl⟩
    intro row hrow
    refine ⟨hshape row hrow, hrange row hrow, hweights row hrow, hdistinct row hrow,
      herror row hrow, ?_⟩
    intro pair hpair
    exact hbits pair (List.mem_flatMap.mpr ⟨row, hrow, hpair⟩)
  · rintro ⟨hadmissible, hsome, hrows, rfl⟩
    refine ⟨(), ⟨(), fun row hrow => (hrows row hrow).shape, (),
      fun row hrow => (hrows row hrow).range, (), fun row hrow => (hrows row hrow).weights,
      hadmissible.isFinite, hadmissible.pos⟩, (), hsome, (),
      fun row hrow => (hrows row hrow).distinct, (),
      ⟨hadmissible.tolerance, fun row hrow => (hrows row hrow).error⟩, _, ⟨?_, rfl⟩, rfl⟩
    intro pair hpair
    obtain ⟨row, hrow, hmem⟩ := List.mem_flatMap.mp hpair
    exact (hrows row hrow).bits pair hmem

end Batch

/-! ## Any number of batches -/

section Batches

variable {state state' : RoutedMassAccumulator D} {tolerance expected : D}
  {batches batches' : List (List Row)} {layer : ℤ}

/-- Batches are accepted by their rows, and add them up as one batch does. -/
theorem addAll_eq_ok (laws : Laws ops rowSum) (hmax : ops.zero ≤ state.maxRowMassError)
    (hsome : state.expectedMassPerToken = none ∨ state.expectedMassPerToken = some expected)
    (hne : batches ≠ []) :
    RoutedMassAccumulator.addAll ops expected state batches = .ok state' ↔
      Admissible ops state.rowTolerance expected ∧
      (∀ row ∈ batches.flatten, RowOk ops rowSum state.rowTolerance expected row) ∧
      state' = state.after ops rowSum expected batches.flatten := by
  induction batches generalizing state with
  | nil => exact absurd rfl hne
  | cons rows batches ih =>
      simp only [RoutedMassAccumulator.addAll, bind_eq_ok, add_eq_ok laws hmax, hsome,
        true_and, List.flatten_cons]
      have hafter : ops.zero ≤ (state.after ops rowSum expected rows).maxRowMassError :=
        hmax.trans (le_foldl_max _)
      cases batches with
      | nil =>
          rw [List.flatten_nil, List.append_nil]
          constructor
          · rintro ⟨_, ⟨hadmissible, hrows, rfl⟩, hrest⟩
            cases hrest
            exact ⟨hadmissible, hrows, rfl⟩
          · rintro ⟨hadmissible, hrows, rfl⟩
            exact ⟨_, ⟨hadmissible, hrows, rfl⟩, rfl⟩
      | cons rows' batches =>
          have hrest := ih hafter (Or.inr rfl) (List.cons_ne_nil _ _)
          rw [after_append, List.forall_mem_append]
          constructor
          · rintro ⟨_, ⟨hadmissible, hrows, rfl⟩, hrun⟩
            obtain ⟨_, hrows', heq⟩ := hrest.mp hrun
            exact ⟨hadmissible, ⟨hrows, hrows'⟩, heq⟩
          · rintro ⟨hadmissible, ⟨hrows, hrows'⟩, heq⟩
            exact ⟨_, ⟨hadmissible, hrows, rfl⟩, hrest.mpr ⟨hadmissible, hrows', heq⟩⟩

/-- The state that the adds leave. -/
theorem eq_after_of_addAll (laws : Laws ops rowSum)
    (hrun : RoutedMassAccumulator.addAll ops expected (.init ops layer tolerance) batches =
      .ok state) :
    (∀ row ∈ batches.flatten, RowOk ops rowSum tolerance expected row) ∧
      state.massUnits = ((RoutedMassAccumulator.init ops layer tolerance).after ops rowSum
        expected batches.flatten).massUnits := by
  by_cases hne : batches = []
  · subst hne
    cases hrun
    exact ⟨List.forall_mem_nil _, rfl⟩
  · obtain ⟨-, hrows, rfl⟩ := (addAll_eq_ok laws le_rfl (.inl rfl) hne).mp hrun
    exact ⟨hrows, rfl⟩

/-! ## The audit -/

/-- What `finish` asks of rows that were accepted: there are some, and their total is
close to what was expected. -/
structure TotalOk (ops : Doubles D) (tolerance expected : D) (rows : List Row) : Prop where
  pos : 0 < rows.length
  close : ∃ tokens total, ops.ofNat rows.length = some tokens ∧
    ops.ofNat (charge units (List.replicate numExperts 0) (routed rows)).sum = some total ∧
      ¬ max (ops.mul ops.tenMillionth (ops.mul tokens expected)) (ops.mul tolerance tokens) <
        ops.abs (ops.sub (ops.ldexp total massUnitPower) (ops.mul tokens expected))

/-- Without rows an accumulation never ends with an audit. -/
theorem finish_of_tokens_zero (htokens : state.tokens = 0) (audit : MassAudit) :
    state.finish ops ≠ .ok audit := by
  intro hfinish
  rw [RoutedMassAccumulator.finish, bind_eq_ok] at hfinish
  obtain ⟨_, hpos, _⟩ := hfinish
  exact absurd (require_eq_ok.mp hpos) (by omega)

/-- The audit spells out the totals of the experts. -/
theorem massUnits_of_finish {audit : MassAudit} (hfinish : state.finish ops = .ok audit) :
    audit.massUnitsByExpert = state.massUnits.map toString ∧
      audit.massByExpert = state.massUnits.map unitsToDecimal := by
  unfold RoutedMassAccumulator.finish at hfinish
  simp only [bind_eq_ok, require_eq_ok] at hfinish
  obtain ⟨_, _, _, _, hfinish⟩ := hfinish
  cases hexpected : state.expectedMassPerToken with
  | none =>
      rw [hexpected] at hfinish
      cases hfinish
  | some expected =>
      rw [hexpected] at hfinish
      simp only [bind_eq_ok, require_eq_ok, pure_eq_ok] at hfinish
      obtain ⟨_, _, _, _, _, _, rfl⟩ := hfinish
      exact ⟨rfl, rfl⟩

omit [LinearOrder D] in
theorem toFloat_eq_ok {number : ℕ} {value : D} :
    RoutedMassAccumulator.toFloat ops number = .ok value ↔ ops.ofNat number = some value := by
  rw [RoutedMassAccumulator.toFloat]
  cases ops.ofNat number with
  | none => exact iff_of_false (by rintro ⟨⟩) (by rintro ⟨⟩)
  | some found => rw [Except.ok.injEq, Option.some.injEq]

theorem length_flatMap_ids {rows : List Row} (hrows : ∀ row ∈ rows, row.ids.length = topK) :
    (rows.flatMap Row.ids).length = rows.length * topK := by
  rw [List.length_flatMap, List.map_congr_left hrows, List.map_const', List.sum_replicate_nat]

theorem finish_isOk {rows : List Row} (hrows : ∀ row ∈ rows, row.ids.length = topK) :
    (∃ audit, ((RoutedMassAccumulator.init ops layer tolerance).after ops rowSum expected
        rows).finish ops = .ok audit) ↔ TotalOk ops tolerance expected rows := by
  have hassignments : (0 : ℕ) + (rows.flatMap Row.ids).length = (0 + rows.length) * topK := by
    rw [Nat.zero_add, Nat.zero_add, length_flatMap_ids hrows]
  simp only [RoutedMassAccumulator.finish, RoutedMassAccumulator.after,
    RoutedMassAccumulator.init, bind_eq_ok, require_eq_ok, pure_eq_ok, toFloat_eq_ok,
    Nat.zero_add] at hassignments ⊢
  constructor
  · rintro ⟨audit, _, hpos, _, -, tokens, htokens, total, htotal, _, hclose, -⟩
    exact ⟨hpos, tokens, total, htokens, htotal, hclose⟩
  · rintro ⟨hpos, tokens, total, htokens, htotal, hclose⟩
    exact ⟨_, (), hpos, (), hassignments, tokens, htokens, total, htotal, (), hclose, rfl⟩

/-- The audit of an accumulation, in terms of its rows. -/
theorem accumulate_eq_ok (laws : Laws ops rowSum) {audit : MassAudit} :
    accumulate ops layer tolerance expected batches = .ok audit ↔
      Admissible ops tolerance expected ∧
      (∀ row ∈ batches.flatten, RowOk ops rowSum tolerance expected row) ∧
      ((RoutedMassAccumulator.init ops layer tolerance).after ops rowSum expected
        batches.flatten).finish ops = .ok audit := by
  rw [accumulate, bind_eq_ok]
  by_cases hne : batches = []
  · subst hne
    constructor
    · rintro ⟨_, hrun, hfinish⟩
      cases hrun
      exact absurd hfinish (finish_of_tokens_zero rfl audit)
    · rintro ⟨_, _, hfinish⟩
      exact absurd hfinish (finish_of_tokens_zero rfl audit)
  · have hrun (state' : RoutedMassAccumulator D) :
        RoutedMassAccumulator.addAll ops expected (.init ops layer tolerance) batches =
            .ok state' ↔
          Admissible ops tolerance expected ∧
          (∀ row ∈ batches.flatten, RowOk ops rowSum tolerance expected row) ∧
          state' = (RoutedMassAccumulator.init ops layer tolerance).after ops rowSum expected
            batches.flatten :=
      addAll_eq_ok laws (le_refl _) (Or.inl rfl) hne
    constructor
    · rintro ⟨_, hall, hfinish⟩
      obtain ⟨hadmissible, hrows, rfl⟩ := (hrun _).mp hall
      exact ⟨hadmissible, hrows, hfinish⟩
    · rintro ⟨hadmissible, hrows, hfinish⟩
      exact ⟨_, (hrun _).mpr ⟨hadmissible, hrows, rfl⟩, hfinish⟩

/-- The number of units of an expert is the sum of its weights, without rounding. -/
theorem massUnits_exact (hrows : ∀ row ∈ batches.flatten,
      RowOk ops rowSum tolerance expected row) {expert : ℕ} (hexpert : expert < numExperts) :
    let final := (RoutedMassAccumulator.init ops layer tolerance).after ops rowSum expected
      batches.flatten
    (final.massUnits.getD expert 0 : ℚ) * (2 : ℚ) ^ massUnitPower =
      ((routedTo expert (routed batches.flatten)).map Float32.value).sum := by
  intro final
  have hrange : ∀ pair ∈ routed batches.flatten, 0 ≤ pair.1 := by
    intro pair hpair
    obtain ⟨row, hrow, hmem⟩ := List.mem_flatMap.mp hpair
    exact ((hrows row hrow).range _ (List.of_mem_zip hmem).1).1
  have hlength : expert < (List.replicate numExperts 0).length := by
    rwa [List.length_replicate]
  change ((charge units (List.replicate numExperts 0) _).getD expert 0 : ℚ) * _ = _
  have hstart : (List.replicate numExperts 0).getD expert 0 = 0 := by
    rw [List.getD_eq_getElem?_getD, List.getElem?_replicate, if_pos hexpert,
      Option.getD_some]
  rw [getD_charge hrange hlength, hstart, Nat.zero_add, Nat.cast_list_sum, List.map_map,
    ← List.sum_map_mul_right]
  congr 1
  apply List.map_congr_left
  intro weight hweight
  obtain ⟨pair, hpair, rfl⟩ := List.mem_map.mp hweight
  obtain ⟨row, hrow, hmem⟩ := List.mem_flatMap.mp (List.mem_of_mem_filter hpair)
  exact units_mul ((hrows row hrow).bits pair hmem).1

/-- When an accumulation ends with an audit. -/
theorem accumulate_isOk (laws : Laws ops rowSum) :
    (∃ audit, accumulate ops layer tolerance expected batches = .ok audit) ↔
      Admissible ops tolerance expected ∧
      (∀ row ∈ batches.flatten, RowOk ops rowSum tolerance expected row) ∧
      TotalOk ops tolerance expected batches.flatten := by
  simp only [accumulate_eq_ok laws, exists_and_left]
  apply and_congr_right
  intro _
  apply and_congr_right
  intro hrows
  exact finish_isOk fun row hrow => (hrows row hrow).shape.1

/-- However rows are cut into batches, an accumulation raises or ends with the same audit.
After the adds the units of each expert are the exact sum of its weights, and these are the
units of the audit. -/
theorem routed_mass_batch_invariant (laws : Laws ops rowSum) (layer : ℤ)
    (tolerance expected : D) {batches batches' : List (List Row)}
    (hrows : batches.flatten = batches'.flatten) :
    (accumulate ops layer tolerance expected batches).toOption =
      (accumulate ops layer tolerance expected batches').toOption ∧
    ((∃ audit, accumulate ops layer tolerance expected batches = .ok audit) ↔
      Admissible ops tolerance expected ∧
      (∀ row ∈ batches.flatten, RowOk ops rowSum tolerance expected row) ∧
      TotalOk ops tolerance expected batches.flatten) ∧
    (∀ state, RoutedMassAccumulator.addAll ops expected (.init ops layer tolerance) batches =
        .ok state →
      state.massUnits.length = numExperts ∧ ∀ expert < numExperts,
        (state.massUnits.getD expert 0 : ℚ) * (2 : ℚ) ^ massUnitPower =
          ((routedTo expert (routed batches.flatten)).map Float32.value).sum) ∧
    ∀ audit, accumulate ops layer tolerance expected batches = .ok audit →
      ∃ state, RoutedMassAccumulator.addAll ops expected (.init ops layer tolerance) batches =
          .ok state ∧
        audit.massUnitsByExpert = state.massUnits.map toString ∧
        audit.massByExpert = state.massUnits.map unitsToDecimal := by
  refine ⟨?_, accumulate_isOk laws, ?_, ?_⟩
  · apply toOption_eq_of_iff
    intro audit
    rw [accumulate_eq_ok laws, accumulate_eq_ok laws, hrows]
  · intro state hstate
    obtain ⟨hall, hunits⟩ := eq_after_of_addAll laws hstate
    rw [hunits]
    exact ⟨length_charge.trans List.length_replicate,
      fun expert hexpert => massUnits_exact hall hexpert⟩
  · intro audit haudit
    rw [accumulate, bind_eq_ok] at haudit
    obtain ⟨state, hstate, hfinish⟩ := haudit
    exact ⟨state, hstate, massUnits_of_finish hfinish⟩

end Batches

/-- Numbers without rounding, as the weights below need none. -/
def exactDoubles : Doubles ℚ where
  zero := 0
  tenMillionth := 1 / 10 ^ 7
  isFinite := fun _ => true
  mul := fun left right => left * right
  sub := fun left right => left - right
  abs := fun number => |number|
  ofNat := fun number => some number
  ldexp := fun number power => number * (2 : ℚ) ^ power
  format := fun _ number => toString number
  rowSums := fun rows => rows.map fun weights => (weights.map Float32.value).sum

/-- Eight weights of one. -/
def firstRow : Row := ⟨[0, 1, 2, 3, 4, 5, 6, 7], List.replicate topK 0x3F800000⟩

/-- One half, the smallest subnormal number, one and a half, two, and ones. -/
def secondRow : Row := ⟨[4, 5, 6, 7, 8, 9, 10, 255],
  [0x3F000000, 0x00000001, 0x3FC00000, 0x40000000] ++ List.replicate 4 0x3F800000⟩

/-- The two rows in one batch, and in two with an empty one between them. -/
theorem routed_mass_batch_invariant_two : ∃ found state,
    accumulate exactDoubles 3 (1 / 50000) 8 [[firstRow, secondRow]] = .ok found ∧
    accumulate exactDoubles 3 (1 / 50000) 8 [[firstRow], [], [secondRow]] = .ok found ∧
    RoutedMassAccumulator.addAll exactDoubles 8 (.init exactDoubles 3 (1 / 50000))
      [[firstRow, secondRow]] = .ok state ∧
    found.massUnitsByExpert = state.massUnits.map toString ∧
    (state.massUnits.getD 4 0 : ℚ) * (2 : ℚ) ^ massUnitPower = 3 / 2 ∧
    (state.massUnits.getD 5 0 : ℚ) * (2 : ℚ) ^ massUnitPower = 1 + (2 : ℚ) ^ massUnitPower := by
  have laws : Laws exactDoubles fun weights => (weights.map Float32.value).sum :=
    ⟨fun _ => rfl, fun number => abs_nonneg number⟩
  obtain ⟨hcuts, -, hunits, haudit⟩ := @routed_mass_batch_invariant ℚ _ exactDoubles _ laws 3
    (1 / 50000) 8 [[firstRow, secondRow]] [[firstRow], [], [secondRow]] rfl
  have hok : (accumulate exactDoubles 3 (1 / 50000) 8 [[firstRow, secondRow]]).isOk = true := by
    decide +kernel
  obtain ⟨found, hfound⟩ := exists_of_isOk hok
  obtain ⟨state, hstate, htext, -⟩ := haudit found hfound
  obtain ⟨-, hexact⟩ := hunits state hstate
  refine ⟨found, state, hfound, ?_, hstate, htext, ?_, ?_⟩
  · rw [hfound] at hcuts
    cases hcut : accumulate exactDoubles 3 (1 / 50000) 8 [[firstRow], [], [secondRow]] with
    | error failure =>
        rw [hcut] at hcuts
        cases hcuts
    | ok other =>
        rw [hcut] at hcuts
        cases hcuts
        rfl
  · rw [hexact 4 (by decide)]
    decide +kernel
  · rw [hexact 5 (by decide)]
    decide +kernel

end GlmFlash.Encoder.RoutedMass
