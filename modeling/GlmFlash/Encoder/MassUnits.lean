import GlmFlash.Encoder.RoutedMass
import Mathlib.Tactic.FieldSimp
import Mathlib.Tactic.NormNum
import Mathlib.Tactic.Ring

/-!
# Units of mass

The units of a float32 are its exact value over the smallest one, and the
totals of the experts add them up.
-/

namespace GlmFlash.Encoder.RoutedMass

open GlmFlash.Library

/-! ## One weight -/

variable {weight : BitVec 32}

/-- The bits of `view(torch.int32)`, masked to 32 bits. -/
theorem unsigned_toInt (weight : BitVec 32) :
    (weight.toInt % 2 ^ 32).toNat = weight.toNat := by
  rw [BitVec.toInt_eq_toNat_cond]
  have hlt := weight.isLt
  split <;> omega

theorem exponent_eq (weight : BitVec 32) :
    (weight.toNat >>> 23) &&& 0xFF = Float32.exponent weight := by
  rw [Float32.exponent, BitVec.extractLsb'_toNat]
  exact Nat.and_two_pow_sub_one_eq_mod _ 8

theorem fraction_eq (weight : BitVec 32) :
    weight.toNat &&& 0x7FFFFF = Float32.fraction weight := by
  rw [Float32.fraction, BitVec.extractLsb'_toNat, Nat.shiftRight_zero]
  exact Nat.and_two_pow_sub_one_eq_mod _ 23

theorem fraction_lt (weight : BitVec 32) : Float32.fraction weight < 2 ^ 23 :=
  (weight.extractLsb' 0 23).isLt

theorem sign_eq_zero_iff : (weight.toNat >>> 31) &&& 1 = 0 ↔ weight.msb = false := by
  rw [BitVec.msb_eq_decide, Nat.and_one_is_mod, Nat.shiftRight_eq_div_pow]
  have hlt := weight.isLt
  simp only [decide_eq_false_iff_not]
  omega

/-- The units of a weight that is not negative. -/
def units (weight : BitVec 32) : ℕ :=
  if Float32.exponent weight = 0 then Float32.fraction weight
  else (2 ^ 23 + Float32.fraction weight) * 2 ^ (Float32.exponent weight - 1)

theorem float32BitsToUnits_eq_ok {found : ℕ} :
    float32BitsToUnits weight.toNat = .ok found ↔
      weight.msb = false ∧ Float32.exponent weight ≠ 0xFF ∧ found = units weight := by
  have hor : (1 <<< 23) ||| Float32.fraction weight = 2 ^ 23 + Float32.fraction weight := by
    have heq := Nat.two_pow_add_eq_or_of_lt (fraction_lt weight) 1
    rw [Nat.mul_one] at heq
    exact heq.symm
  have hlast : (if Float32.exponent weight = 0 then pure (Float32.fraction weight)
      else pure (((1 <<< 23) ||| Float32.fraction weight) <<<
        (Float32.exponent weight - 1)) : Except Failure ℕ) = pure (units weight) := by
    rw [hor, Nat.shiftLeft_eq, units]
    split <;> rfl
  simp only [float32BitsToUnits, exponent_eq, fraction_eq, hlast, bind_eq_ok,
    require_eq_ok, sign_eq_zero_iff, pure_eq_ok]
  constructor
  · rintro ⟨_, hsign, _, hexponent, hfound⟩
    exact ⟨hsign, hexponent, hfound.symm⟩
  · rintro ⟨hsign, hexponent, hfound⟩
    exact ⟨(), hsign, (), hexponent, hfound.symm⟩

/-- The units are exact, also below the smallest normal number. -/
theorem units_mul (hsign : weight.msb = false) :
    (units weight : ℚ) * (2 : ℚ) ^ (-149 : ℤ) = Float32.value weight := by
  rw [units, Float32.value, hsign]
  by_cases hzero : Float32.exponent weight = 0
  · simp only [hzero, if_true, if_false, Bool.false_eq_true, one_mul]
    rw [div_mul_eq_mul_div, mul_div_assoc]
    norm_num
  · obtain ⟨exponent, hexponent⟩ := Nat.exists_eq_succ_of_ne_zero hzero
    simp only [hexponent, Nat.succ_ne_zero, if_false, Bool.false_eq_true, one_mul,
      Nat.succ_sub_one]
    have hpower : (2 : ℚ) ^ (((exponent + 1 : ℕ) : ℤ) - 127) =
        2 ^ exponent * (2 : ℚ) ^ (-126 : ℤ) := by
      rw [← zpow_natCast, ← zpow_add₀ two_ne_zero]
      congr 1
      push_cast
      ring
    rw [Nat.succ_eq_add_one, hpower]
    push_cast
    have hunit : (2 : ℚ) ^ (-126 : ℤ) = 2 ^ 23 * (2 : ℚ) ^ (-149 : ℤ) := by norm_num
    rw [hunit]
    field_simp
    norm_num

/-! ## The decimal spelling -/

/-! ## Totals -/

/-- What the assignments add to the total of each expert. -/
def charge (amount : BitVec 32 → ℕ) (totals : List ℕ) (pairs : List (ℤ × BitVec 32)) :
    List ℕ :=
  pairs.foldl (fun totals pair => totals.modify pair.1.toNat (· + amount pair.2)) totals

section Charge

variable {amount : BitVec 32 → ℕ} {totals : List ℕ} {pairs : List (ℤ × BitVec 32)}

theorem charge_append (pairs' : List (ℤ × BitVec 32)) :
    charge amount totals (pairs ++ pairs') = charge amount (charge amount totals pairs) pairs' :=
  List.foldl_append

@[simp]
theorem length_charge : (charge amount totals pairs).length = totals.length := by
  induction pairs generalizing totals with
  | nil => rfl
  | cons pair pairs ih =>
      change (charge amount (totals.modify _ _) pairs).length = _
      rw [ih, List.length_modify]

/-- The assignments to an expert. -/
def routedTo (expert : ℕ) (pairs : List (ℤ × BitVec 32)) : List (BitVec 32) :=
  (pairs.filter fun pair => pair.1 = (expert : ℤ)).map Prod.snd

theorem getD_charge {expert : ℕ} (hpairs : ∀ pair ∈ pairs, 0 ≤ pair.1)
    (hexpert : expert < totals.length) :
    (charge amount totals pairs).getD expert 0 =
      totals.getD expert 0 + ((routedTo expert pairs).map amount).sum := by
  induction pairs generalizing totals with
  | nil => rfl
  | cons pair pairs ih =>
      change (charge amount (totals.modify _ _) pairs).getD expert 0 = _
      obtain ⟨hfirst, hrest⟩ := List.forall_mem_cons.mp hpairs
      have hindex : pair.1.toNat = expert ↔ pair.1 = (expert : ℤ) := by omega
      rw [ih hrest (by rwa [List.length_modify])]
      simp only [List.getD_eq_getElem?_getD, List.getElem?_modify, routedTo,
        List.filter_cons, List.getElem?_eq_getElem hexpert, Option.map_eq_map,
        Option.map_some, Option.getD_some, hindex]
      by_cases heq : pair.1 = (expert : ℤ)
      · simp only [heq, if_true, decide_true, List.map_cons, List.sum_cons, Nat.add_assoc]
      · simp only [heq, if_false, decide_false, Bool.false_eq_true]

end Charge

theorem assignAll_eq_ok {totals found : List ℕ × List ℕ} {pairs : List (ℤ × BitVec 32)} :
    assignAll totals pairs = .ok found ↔
      (∀ pair ∈ pairs, pair.2.msb = false ∧ Float32.exponent pair.2 ≠ 0xFF) ∧
      found = (charge units totals.1 pairs, charge (fun _ => 1) totals.2 pairs) := by
  induction pairs generalizing totals with
  | nil =>
      rw [assignAll]
      constructor
      · intro heq
        cases heq
        exact ⟨List.forall_mem_nil _, rfl⟩
      · rintro ⟨_, rfl⟩
        rfl
  | cons pair pairs ih =>
      obtain ⟨expert, weight⟩ := pair
      simp only [assignAll, assign, unsigned_toInt, bind_eq_ok, pure_eq_ok,
        float32BitsToUnits_eq_ok, ih, List.forall_mem_cons]
      constructor
      · rintro ⟨_, ⟨_, ⟨hsign, hexponent, rfl⟩, rfl⟩, hall, rfl⟩
        exact ⟨⟨⟨hsign, hexponent⟩, hall⟩, rfl⟩
      · rintro ⟨⟨⟨hsign, hexponent⟩, hall⟩, rfl⟩
        exact ⟨_, ⟨_, ⟨hsign, hexponent, rfl⟩, rfl⟩, hall, rfl⟩

end GlmFlash.Encoder.RoutedMass
