import GlmFlash.Library.Bits
import GlmFlash.Library.CeilDiv
import GlmFlash.Library.Outcome

/-!
# Packed codes

`pack_unsigned` and `unpack_unsigned` of `uniform.py` store codes of one to
eight bits without gaps, so that a code can start at any bit of a byte and can
reach into the next one.
-/

namespace GlmFlash.Codec

open GlmFlash.Library

inductive Failure where
  | valueError
  | indexError
  deriving DecidableEq, Repr

/-! ## The two loops -/

/-- `output[byte] |= word & 0xFF` -/
def storeByte (output : List UInt8) (byte word : ℕ) :
    Except Failure (List UInt8) := do
  require (byte < output.length) .indexError
  return orByte output byte word

/-- One round of `pack_unsigned`, on the output and the bit position. -/
def packValue (bits : ℕ) (state : List UInt8 × ℕ) (value : ℕ) :
    Except Failure (List UInt8 × ℕ) := do
  let byte := state.2 >>> 3
  let shift := state.2 &&& 7
  let word := value <<< shift
  let output ← storeByte state.1 byte word
  let output ←
    if shift + bits > 8 then storeByte output (byte + 1) (word >>> 8)
    else pure output
  return (output, state.2 + bits)

def packUnsigned (values : List ℕ) (bits : ℕ) : Except Failure (List UInt8) := do
  require (1 ≤ bits ∧ bits ≤ 8 ∧ ∀ value ∈ values, value < 1 <<< bits) .valueError
  let output := List.replicate ((values.length * bits + 7) / 8) 0
  let (output, _) ← values.foldlM (packValue bits) (output, 0)
  return output

def loadByte (packed : List UInt8) (byte : ℕ) : Except Failure ℕ := do
  require (byte < packed.length) .indexError
  return (packed.getD byte 0).toNat

/-- One round of `unpack_unsigned`. -/
def unpackCode (packed : List UInt8) (bits bitPosition : ℕ) :
    Except Failure UInt8 := do
  let byte := bitPosition >>> 3
  let shift := bitPosition &&& 7
  let word ← loadByte packed byte
  let word ←
    if shift + bits > 8 then do
      let next ← loadByte packed (byte + 1)
      pure (word ||| next <<< 8)
    else pure word
  return UInt8.ofNat ((word >>> shift) &&& (1 <<< bits - 1))

/-- The loop of `unpack_unsigned` from a bit position. -/
def unpackFrom (packed : List UInt8) (bits : ℕ) :
    ℕ → ℕ → Except Failure (List UInt8)
  | 0, _ => return []
  | count + 1, bitPosition => do
      let code ← unpackCode packed bits bitPosition
      let codes ← unpackFrom packed bits count (bitPosition + bits)
      return code :: codes

def unpackUnsigned (packed : List UInt8) (count bits : ℕ) :
    Except Failure (List UInt8) :=
  unpackFrom packed bits count 0

/-! ## What the bits of a packed array are -/

/-- Bit `p` of packed values is bit `p % bits` of value `p / bits`. -/
def packedBit (bits : ℕ) (values : List ℕ) (position : ℕ) : Bool :=
  (values.getD (position / bits) 0).testBit (position % bits)

variable {bits value byte word position : ℕ} {values : List ℕ}
  {output packed : List UInt8}

theorem packedBit_of_le (hbits : 0 < bits)
    (hposition : values.length * bits ≤ position) :
    packedBit bits values position = false := by
  have hindex : values.length ≤ position / bits :=
    (Nat.le_div_iff_mul_le hbits).mpr hposition
  rw [packedBit, List.getD_eq_default _ _ hindex]
  exact Nat.zero_testBit _

theorem packedBit_append (hbits : 0 < bits) (hvalue : value < 2 ^ bits) :
    packedBit bits (values ++ [value]) position =
      (packedBit bits values position ||
        (decide (values.length * bits ≤ position) &&
          value.testBit (position - values.length * bits))) := by
  by_cases hbefore : position < values.length * bits
  · have hindex : position / bits < values.length :=
      (Nat.div_lt_iff_lt_mul hbits).mpr hbefore
    rw [packedBit, List.getD_append _ _ _ _ hindex,
      decide_eq_false (Nat.not_le.mpr hbefore), Bool.false_and, Bool.or_false]
    rfl
  · have hposition := Nat.le_of_not_lt hbefore
    have hindex : values.length ≤ position / bits :=
      (Nat.le_div_iff_mul_le hbits).mpr hposition
    rw [packedBit_of_le hbits hposition, decide_eq_true hposition,
      Bool.false_or, Bool.true_and, packedBit,
      List.getD_append_right _ _ _ _ hindex]
    by_cases hlast : position / bits = values.length
    · have hoffset : position % bits = position - values.length * bits := by
        rw [← hlast, Nat.mod_eq_sub_div_mul]
      rw [hlast, Nat.sub_self, hoffset]
      rfl
    · have hbeyond : bits ≤ position - values.length * bits := by
        have hnext : (values.length + 1) * bits ≤ position :=
          (Nat.le_div_iff_mul_le hbits).mp (by omega)
        rw [Nat.succ_mul] at hnext
        omega
      have hlarge : 2 ^ bits ≤ 2 ^ (position - values.length * bits) :=
        Nat.pow_le_pow_right Nat.two_pos hbeyond
      rw [List.getD_eq_default _ _ (by simp only [List.length_singleton]; omega),
        Nat.zero_testBit, Nat.testBit_lt_two_pow (hvalue.trans_le hlarge)]

/-! ## Packing -/

theorem storeByte_eq (hbyte : byte < output.length) :
    storeByte output byte word = .ok (orByte output byte word) := by
  rw [storeByte, require, if_pos hbyte]
  rfl

/-- A round of packing sets the bits of its value. -/
theorem packValue_sets (hbits : bits ≤ 8) (hvalue : value < 2 ^ bits)
    (hroom : position + bits ≤ 8 * output.length) (hpos : 0 < bits) :
    ∃ output', packValue bits (output, position) value =
        .ok (output', position + bits) ∧
      output'.length = output.length ∧
      ∀ target, bitAt output' target = (bitAt output target ||
        (decide (position ≤ target) && value.testBit (target - position))) := by
  have hbyte : position >>> 3 = position / 8 := Nat.shiftRight_eq_div_pow _ 3
  have hshift : position &&& 7 = position % 8 :=
    Nat.and_two_pow_sub_one_eq_mod position 3
  have hfirst : position / 8 < output.length := by omega
  -- Bit `target` of the shifted word, seen from the byte where it starts.
  have hword (target : ℕ) (hle : 8 * (position / 8) ≤ target) :
      (value <<< (position % 8)).testBit (target - 8 * (position / 8)) =
        (decide (position ≤ target) && value.testBit (target - position)) := by
    rw [Nat.testBit_shiftLeft]
    have hiff : position % 8 ≤ target - 8 * (position / 8) ↔
        position ≤ target := by omega
    have hoffset : target - 8 * (position / 8) - position % 8 =
        target - position := by omega
    simp only [ge_iff_le, hiff, hoffset]
  have hbeyond (target : ℕ) (hle : position + bits ≤ target) :
      value.testBit (target - position) = false := by
    apply Nat.testBit_lt_two_pow
    exact hvalue.trans_le (Nat.pow_le_pow_right Nat.two_pos (by omega))
  by_cases hnext : position % 8 + bits > 8
  · have hsecond : position / 8 + 1 <
        (orByte output (position / 8) (value <<< (position % 8))).length := by
      rw [length_orByte]
      omega
    refine ⟨orByte (orByte output (position / 8) (value <<< (position % 8)))
      (position / 8 + 1) (value <<< (position % 8) >>> 8), ?_, ?_, ?_⟩
    · simp only [packValue, hbyte, hshift, storeByte_eq hfirst, bind_eq_ok,
        Except.ok.injEq, exists_eq_left', if_pos hnext, storeByte_eq hsecond,
        pure_eq_ok]
    · rw [length_orByte, length_orByte]
    · intro target
      rw [bitAt_orByte hsecond, bitAt_orByte hfirst, Bool.or_assoc]
      congr 1
      by_cases hin : target / 8 = position / 8
      · have hother : target / 8 ≠ position / 8 + 1 := by omega
        have hoffset : target % 8 = target - 8 * (position / 8) := by omega
        rw [decide_eq_true hin, decide_eq_false hother, Bool.true_and,
          Bool.false_and, Bool.or_false, hoffset, hword target (by omega)]
      by_cases hover : target / 8 = position / 8 + 1
      · have hoffset : 8 + target % 8 = target - 8 * (position / 8) := by omega
        rw [decide_eq_false hin, decide_eq_true hover, Bool.false_and,
          Bool.true_and, Bool.false_or, Nat.testBit_shiftRight, hoffset,
          hword target (by omega)]
      · rw [decide_eq_false hin, decide_eq_false hover, Bool.false_and,
          Bool.false_and, Bool.or_false]
        by_cases hle : position ≤ target
        · rw [hbeyond target (by omega), Bool.and_false]
        · rw [decide_eq_false hle, Bool.false_and]
  · refine ⟨orByte output (position / 8) (value <<< (position % 8)), ?_, ?_, ?_⟩
    · simp only [packValue, hbyte, hshift, storeByte_eq hfirst, bind_eq_ok,
        Except.ok.injEq, exists_eq_left', if_neg hnext, pure_eq_ok]
    · rw [length_orByte]
    · intro target
      rw [bitAt_orByte hfirst]
      congr 1
      by_cases hin : target / 8 = position / 8
      · have hoffset : target % 8 = target - 8 * (position / 8) := by omega
        rw [decide_eq_true hin, Bool.true_and, hoffset, hword target (by omega)]
      · rw [decide_eq_false hin, Bool.false_and]
        by_cases hle : position ≤ target
        · rw [hbeyond target (by omega), Bool.and_false]
        · rw [decide_eq_false hle, Bool.false_and]

/-- The state of the packing loop after these values. -/
structure Packs (bits length : ℕ) (done : List ℕ) (state : List UInt8 × ℕ) :
    Prop where
  length_eq : state.1.length = length
  position : state.2 = done.length * bits
  bitAt_eq : ∀ position, bitAt state.1 position = packedBit bits done position

theorem packs_nil (hbits : 0 < bits) (length : ℕ) :
    Packs bits length [] (List.replicate length 0, 0) where
  length_eq := List.length_replicate
  position := (Nat.zero_mul bits).symm
  bitAt_eq := fun position => by
    rw [bitAt_replicate, packedBit_of_le hbits (by simp)]

theorem packValue_packs {length : ℕ} {done : List ℕ} {state : List UInt8 × ℕ}
    (hbits : 1 ≤ bits ∧ bits ≤ 8) (hvalue : value < 2 ^ bits)
    (hroom : (done.length + 1) * bits ≤ 8 * length)
    (hstate : Packs bits length done state) :
    ∃ next, packValue bits state value = .ok next ∧
      Packs bits length (done ++ [value]) next := by
  have hend : state.2 + bits ≤ 8 * state.1.length := by
    rw [hstate.length_eq, hstate.position, ← Nat.succ_mul]
    exact hroom
  obtain ⟨output', hrun, hlength, hsets⟩ :=
    packValue_sets hbits.2 hvalue hend hbits.1
  refine ⟨_, hrun, hlength.trans hstate.length_eq, ?_, ?_⟩
  · rw [List.length_append, List.length_singleton, Nat.succ_mul,
      hstate.position]
  · intro position
    rw [hsets, packedBit_append hbits.1 hvalue, hstate.bitAt_eq, hstate.position]

/-- Packing succeeds, and its bits are those of the values. -/
theorem packUnsigned_bits (hbits : 1 ≤ bits ∧ bits ≤ 8)
    (hvalues : ∀ value ∈ values, value < 2 ^ bits) :
    ∃ packed, packUnsigned values bits = .ok packed ∧
      packed.length = (values.length * bits + 7) / 8 ∧
      ∀ position, bitAt packed position = packedBit bits values position := by
  have hshift : 1 <<< bits = 2 ^ bits := Nat.one_shiftLeft bits
  have hstep : ∀ before value after, [] ++ values = before ++ value :: after →
      ∀ state, Packs bits ((values.length * bits + 7) / 8) before state →
        ∃ next, packValue bits state value = .ok next ∧
          Packs bits ((values.length * bits + 7) / 8) (before ++ [value])
            next := by
    intro before value after hsplit state hstate
    rw [List.nil_append] at hsplit
    have hcount : before.length + 1 ≤ values.length := by
      rw [hsplit, List.length_append, List.length_cons]
      omega
    have hroom : (before.length + 1) * bits ≤ values.length * bits :=
      Nat.mul_le_mul_right bits hcount
    have hmem : value ∈ values := by
      rw [hsplit]
      exact List.mem_append_right _ List.mem_cons_self
    exact packValue_packs hbits (hvalues value hmem) (by omega) hstate
  obtain ⟨⟨packed, position⟩, hrun, hfinal⟩ :=
    foldlM_prefix_total _ hstep (packs_nil hbits.1 _)
  refine ⟨packed, ?_, hfinal.length_eq, hfinal.bitAt_eq⟩
  simp only [packUnsigned, bind_eq_ok, require_eq_ok, hshift, pure_eq_ok]
  exact ⟨(), ⟨hbits.1, hbits.2, hvalues⟩, _, hrun, rfl⟩

/-! ## Unpacking -/

theorem loadByte_eq (hbyte : byte < packed.length) :
    loadByte packed byte = .ok (packed.getD byte 0).toNat := by
  rw [loadByte, require, if_pos hbyte]
  rfl

/-- A round of unpacking reads the bits from its position. -/
theorem unpackCode_reads (hbits : bits ≤ 8) (hpos : 0 < bits)
    (hroom : position + bits ≤ 8 * packed.length) :
    ∃ code, unpackCode packed bits position = .ok code ∧
      ∀ bit, code.toNat.testBit bit =
        (decide (bit < bits) && bitAt packed (position + bit)) := by
  have hbyte : position >>> 3 = position / 8 := Nat.shiftRight_eq_div_pow _ 3
  have hshift : position &&& 7 = position % 8 :=
    Nat.and_two_pow_sub_one_eq_mod position 3
  have hfirst : position / 8 < packed.length := by omega
  have hmask (word bit : ℕ) : (UInt8.ofNat ((word >>> (position % 8)) &&&
      (1 <<< bits - 1))).toNat.testBit bit =
        (decide (bit < bits) && word.testBit (position % 8 + bit)) := by
    rw [Nat.one_shiftLeft, Nat.and_two_pow_sub_one_eq_mod, UInt8.toNat_ofNat',
      Nat.testBit_mod_two_pow, Nat.testBit_mod_two_pow, Nat.testBit_shiftRight]
    by_cases hbit : bit < bits
    · rw [decide_eq_true (hbit.trans_le hbits), Bool.true_and]
    · rw [decide_eq_false hbit, Bool.false_and, Bool.and_false]
  have hbit (bit : ℕ) : bitAt packed (position + bit) =
      (packed.getD (position / 8 + (position % 8 + bit) / 8) 0).toNat.testBit
        ((position % 8 + bit) % 8) := by
    have hindex : (position + bit) / 8 =
        position / 8 + (position % 8 + bit) / 8 := by omega
    have hoffset : (position + bit) % 8 = (position % 8 + bit) % 8 := by omega
    rw [bitAt, hindex, hoffset]
  by_cases hnext : position % 8 + bits > 8
  · have hsecond : position / 8 + 1 < packed.length := by omega
    refine ⟨UInt8.ofNat ((((packed.getD (position / 8) 0).toNat |||
      (packed.getD (position / 8 + 1) 0).toNat <<< 8) >>> (position % 8)) &&&
        (1 <<< bits - 1)), ?_, ?_⟩
    · simp only [unpackCode, hbyte, hshift, loadByte_eq hfirst, bind_eq_ok,
        Except.ok.injEq, exists_eq_left', if_pos hnext, loadByte_eq hsecond,
        pure_eq_ok]
    · intro bit
      rw [hmask, hbit]
      by_cases hin : bit < bits
      swap
      · rw [decide_eq_false hin, Bool.false_and, Bool.false_and]
      rw [Nat.testBit_or, Nat.testBit_shiftLeft]
      congr 1
      by_cases hlow : position % 8 + bit < 8
      · rw [Nat.div_eq_of_lt hlow, Nat.mod_eq_of_lt hlow,
          decide_eq_false (Nat.not_le.mpr hlow), Bool.false_and, Bool.or_false]
        rfl
      · have hhigh := Nat.le_of_not_lt hlow
        have hindex : (position % 8 + bit) / 8 = 1 := by omega
        have hoffset : (position % 8 + bit) % 8 = position % 8 + bit - 8 := by
          omega
        have hlarge : 2 ^ 8 ≤ 2 ^ (position % 8 + bit) :=
          Nat.pow_le_pow_right Nat.two_pos hhigh
        rw [hindex, hoffset, decide_eq_true hhigh, Bool.true_and,
          Nat.testBit_lt_two_pow ((UInt8.toNat_lt _).trans_le hlarge),
          Bool.false_or]
  · refine ⟨UInt8.ofNat (((packed.getD (position / 8) 0).toNat >>>
      (position % 8)) &&& (1 <<< bits - 1)), ?_, ?_⟩
    · simp only [unpackCode, hbyte, hshift, loadByte_eq hfirst, bind_eq_ok,
        Except.ok.injEq, exists_eq_left', if_neg hnext, pure_eq_ok]
    · intro bit
      rw [hmask, hbit]
      by_cases hin : bit < bits
      swap
      · rw [decide_eq_false hin, Bool.false_and, Bool.false_and]
      have hlow : position % 8 + bit < 8 := by omega
      rw [Nat.div_eq_of_lt hlow, Nat.mod_eq_of_lt hlow, Nat.add_zero]

/-- The code in a place of an array. -/
def codeBit (bits : ℕ) (packed : List UInt8) (start index bit : ℕ) : Bool :=
  decide (bit < bits) && bitAt packed (start + index * bits + bit)

theorem unpackFrom_reads (hbits : 1 ≤ bits ∧ bits ≤ 8) (count start : ℕ)
    (hroom : start + count * bits ≤ 8 * packed.length) :
    ∃ codes, unpackFrom packed bits count start = .ok codes ∧
      codes.length = count ∧
      ∀ index < count, ∀ bit, (codes.getD index 0).toNat.testBit bit =
        codeBit bits packed start index bit := by
  induction count generalizing start with
  | zero => exact ⟨[], rfl, rfl, fun index hindex => absurd hindex (Nat.not_lt_zero _)⟩
  | succ count ih =>
      have hstep : start + bits + count * bits = start + (count + 1) * bits := by
        ring
      obtain ⟨code, hcode, hfirst⟩ := unpackCode_reads hbits.2 hbits.1
        (show start + bits ≤ 8 * packed.length by omega)
      obtain ⟨codes, hcodes, hlength, hrest⟩ :=
        ih (start + bits) (hstep ▸ hroom)
      refine ⟨code :: codes, ?_, ?_, ?_⟩
      · rw [unpackFrom, hcode]
        change (unpackFrom packed bits count (start + bits) >>= fun codes =>
          pure (code :: codes)) = _
        rw [hcodes]
        rfl
      · rw [List.length_cons, hlength]
      · intro index hindex bit
        cases index with
        | zero =>
            rw [List.getD_cons_zero, hfirst, codeBit, Nat.zero_mul, Nat.add_zero]
        | succ index =>
            have hplace : start + bits + index * bits + bit =
                start + (index + 1) * bits + bit := by ring
            rw [List.getD_cons_succ, hrest index (Nat.lt_of_succ_lt_succ hindex),
              codeBit, codeBit, hplace]

/-- The bit of a list of values in one of its places. -/
theorem packedBit_place {index bit : ℕ} (hbit : bit < bits) :
    packedBit bits values (index * bits + bit) =
      (values.getD index 0).testBit bit := by
  have hindex : (index * bits + bit) / bits = index := by
    rw [Nat.add_comm, Nat.add_mul_div_right _ _ (by omega),
      Nat.div_eq_of_lt hbit, Nat.zero_add]
  have hoffset : (index * bits + bit) % bits = bit := by
    rw [Nat.add_comm, Nat.add_mul_mod_self_right, Nat.mod_eq_of_lt hbit]
  rw [packedBit, hindex, hoffset]

theorem map_toNat_eq {codes : List UInt8} (hlength : codes.length = values.length)
    (hbits : ∀ index < values.length, ∀ bit,
      (codes.getD index 0).toNat.testBit bit =
        (values.getD index 0).testBit bit) :
    codes.map UInt8.toNat = values := by
  apply List.ext_getElem
  · rw [List.length_map, hlength]
  · intro index hleft hright
    have hcode : index < codes.length := by rwa [hlength]
    rw [List.getElem_map]
    apply Nat.eq_of_testBit_eq
    intro bit
    have hsame := hbits index hright bit
    rw [List.getD_eq_getElem _ _ hcode, List.getD_eq_getElem _ _ hright] at hsame
    exact hsame

/-- Packing and unpacking are inverse to each other, between the values that
fit and the arrays of the least length whose unused bits are zero. -/
theorem packUnsigned_bijective (hbits : 1 ≤ bits ∧ bits ≤ 8) :
    (∀ values : List ℕ, (∀ value ∈ values, value < 2 ^ bits) →
      ∃ packed codes, packUnsigned values bits = .ok packed ∧
        packed.length = cdiv (values.length * bits) 8 ∧
        unpackUnsigned packed values.length bits = .ok codes ∧
        codes.map UInt8.toNat = values) ∧
    ∀ (packed : List UInt8) (count : ℕ),
      packed.length = cdiv (count * bits) 8 →
      (∀ position, count * bits ≤ position → bitAt packed position = false) →
      ∃ codes, unpackUnsigned packed count bits = .ok codes ∧
        codes.length = count ∧
        packUnsigned (codes.map UInt8.toNat) bits = .ok packed := by
  have hcdiv (amount : ℕ) : cdiv amount 8 = (amount + 7) / 8 :=
    Nat.ceilDiv_eq_add_pred_div amount 8
  constructor
  · intro values hvalues
    obtain ⟨packed, hpack, hlength, hpacked⟩ := packUnsigned_bits hbits hvalues
    obtain ⟨codes, hunpack, hcount, hcodes⟩ :=
      unpackFrom_reads hbits values.length 0 (show _ ≤ 8 * packed.length by omega)
    refine ⟨packed, codes, hpack, by rw [hlength, hcdiv], hunpack,
      map_toNat_eq hcount ?_⟩
    intro index hindex bit
    rw [hcodes index hindex, codeBit, Nat.zero_add, hpacked]
    by_cases hbit : bit < bits
    · rw [packedBit_place hbit, decide_eq_true hbit, Bool.true_and]
    · have hfits : values.getD index 0 < 2 ^ bits := by
        rw [List.getD_eq_getElem _ _ hindex]
        exact hvalues _ (List.getElem_mem hindex)
      have hlarge : 2 ^ bits ≤ 2 ^ bit :=
        Nat.pow_le_pow_right Nat.two_pos (Nat.le_of_not_lt hbit)
      rw [decide_eq_false hbit, Bool.false_and,
        Nat.testBit_lt_two_pow (hfits.trans_le hlarge)]
  · intro packed count hlength hunused
    rw [hcdiv] at hlength
    obtain ⟨codes, hunpack, hcount, hcodes⟩ :=
      unpackFrom_reads hbits count 0 (show _ ≤ 8 * packed.length by omega)
    have hvalues : ∀ value ∈ codes.map UInt8.toNat, value < 2 ^ bits := by
      intro value hmem
      obtain ⟨code, hcode, rfl⟩ := List.mem_map.mp hmem
      obtain ⟨index, hindex, rfl⟩ := List.mem_iff_getElem.mp hcode
      apply Nat.lt_pow_two_of_testBit
      intro bit hbit
      have hread := hcodes index (hcount ▸ hindex) bit
      rw [List.getD_eq_getElem _ _ hindex, codeBit,
        decide_eq_false (Nat.not_lt.mpr hbit), Bool.false_and] at hread
      exact hread
    obtain ⟨packed', hpack, hlength', hpacked'⟩ :=
      packUnsigned_bits hbits hvalues
    rw [List.length_map, hcount] at hlength'
    refine ⟨codes, hunpack, hcount, ?_⟩
    have hsame : packed' = packed := by
      apply eq_of_bitAt (hlength'.trans hlength.symm)
      intro position
      rw [hpacked']
      by_cases hused : position < count * bits
      · have hindex : position / bits < count :=
          (Nat.div_lt_iff_lt_mul hbits.1).mpr hused
        have hvalue : (codes.map UInt8.toNat).getD (position / bits) 0 =
            (codes.getD (position / bits) 0).toNat := by
          rw [← UInt8.toNat_zero, List.getD_map]
        rw [packedBit, hvalue, hcodes _ hindex, codeBit,
          decide_eq_true (Nat.mod_lt _ hbits.1), Bool.true_and, Nat.zero_add,
          Nat.div_add_mod']
      · have hle := Nat.le_of_not_lt hused
        rw [hunused position hle, packedBit_of_le hbits.1]
        rw [List.length_map, hcount]
        exact hle
    rw [hpack, hsame]

/-- Two codes of three bits share a byte, and come back from it. -/
theorem packUnsigned_bijective_three :
    (∃ packed codes, packUnsigned [5, 6, 7] 3 = .ok packed ∧
      packed.length = cdiv ([5, 6, 7].length * 3) 8 ∧
      unpackUnsigned packed [5, 6, 7].length 3 = .ok codes ∧
      codes.map UInt8.toNat = [5, 6, 7]) ∧
    ∃ codes, unpackUnsigned [0xF5, 0x01] 3 3 = .ok codes ∧
      codes.length = 3 ∧
      packUnsigned (codes.map UInt8.toNat) 3 = .ok [0xF5, 0x01] := by
  have hbits : 1 ≤ 3 ∧ 3 ≤ 8 := by decide
  refine ⟨(packUnsigned_bijective hbits).1 [5, 6, 7] (by decide),
    (packUnsigned_bijective hbits).2 [0xF5, 0x01] 3 (by decide) ?_⟩
  have hpadding : ∀ position < 16, 9 ≤ position →
      bitAt [0xF5, 0x01] position = false := by decide
  intro position hposition
  by_cases hinside : position < 16
  · exact hpadding position hinside hposition
  · exact bitAt_of_length_le (Nat.le_of_not_lt hinside)

end GlmFlash.Codec
