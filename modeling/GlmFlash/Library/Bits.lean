import Mathlib.Data.List.GetD
import Mathlib.Data.Nat.Bitwise
import Mathlib.Tactic.Ring

/-!
# Bits of a byte array

Position `p` of a byte array is bit `p % 8` of byte `p / 8`.  Two arrays of one
length are equal when all their bits are, and a word of up to sixteen bits that
is ORed into two neighbouring bytes sets the bits it has, shifted to where it
starts.
-/

namespace GlmFlash.Library

/-- The bit at a position; there are only zeros behind the last byte. -/
def bitAt (bytes : List UInt8) (position : ℕ) : Bool :=
  (bytes.getD (position / 8) 0).toNat.testBit (position % 8)

/-- `bytes[index] |= word & 0xFF` -/
def orByte (bytes : List UInt8) (index word : ℕ) : List UInt8 :=
  bytes.set index (bytes.getD index 0 ||| UInt8.ofNat (word &&& 0xFF))

variable {bytes bytes' : List UInt8} {index position word : ℕ}

@[simp]
theorem length_orByte : (orByte bytes index word).length = bytes.length := by
  rw [orByte, List.length_set]

theorem bitAt_of_length_le (hlength : 8 * bytes.length ≤ position) :
    bitAt bytes position = false := by
  have hbyte : bytes.length ≤ position / 8 := by omega
  rw [bitAt, List.getD_eq_default _ _ hbyte]
  exact Nat.zero_testBit _

@[simp]
theorem bitAt_replicate (length : ℕ) :
    bitAt (List.replicate length 0) position = false := by
  have hzero : (List.replicate length (0 : UInt8)).getD (position / 8) 0 = 0 := by
    rw [List.getD_eq_getElem?_getD, List.getElem?_replicate]
    split <;> rfl
  rw [bitAt, hzero]
  exact Nat.zero_testBit _

theorem eq_of_testBit {left right : UInt8}
    (hbits : ∀ bit < 8, left.toNat.testBit bit = right.toNat.testBit bit) :
    left = right := by
  apply UInt8.toNat_inj.mp
  apply Nat.eq_of_testBit_eq
  intro bit
  by_cases hbit : bit < 8
  · exact hbits bit hbit
  · have hlarge : 2 ^ 8 ≤ 2 ^ bit :=
      Nat.pow_le_pow_right Nat.two_pos (Nat.le_of_not_lt hbit)
    rw [Nat.testBit_lt_two_pow (left.toNat_lt.trans_le hlarge),
      Nat.testBit_lt_two_pow (right.toNat_lt.trans_le hlarge)]

/-- Byte arrays are equal when their bits are. -/
theorem eq_of_bitAt (hlength : bytes.length = bytes'.length)
    (hbits : ∀ position, bitAt bytes position = bitAt bytes' position) :
    bytes = bytes' := by
  apply List.ext_getElem hlength
  intro index hleft hright
  apply eq_of_testBit
  intro bit hbit
  have hsame := hbits (8 * index + bit)
  have hindex : (8 * index + bit) / 8 = index := by omega
  have hoffset : (8 * index + bit) % 8 = bit := by omega
  rw [bitAt, bitAt, hindex, hoffset, List.getD_eq_getElem _ _ hleft,
    List.getD_eq_getElem _ _ hright] at hsame
  exact hsame

theorem testBit_low (word bit : ℕ) (hbit : bit < 8) :
    (UInt8.ofNat (word &&& 0xFF)).toNat.testBit bit = word.testBit bit := by
  have hmask : word &&& 0xFF = word % 2 ^ 8 := Nat.and_two_pow_sub_one_eq_mod word 8
  rw [UInt8.toNat_ofNat', hmask, Nat.mod_mod, Nat.testBit_mod_two_pow,
    decide_eq_true hbit, Bool.true_and]

theorem bitAt_orByte (hindex : index < bytes.length) :
    bitAt (orByte bytes index word) position =
      (bitAt bytes position ||
        (decide (position / 8 = index) && word.testBit (position % 8))) := by
  by_cases hbyte : position / 8 = index
  · have hset : (orByte bytes index word).getD index 0 =
        bytes.getD index 0 ||| UInt8.ofNat (word &&& 0xFF) := by
      rw [List.getD_eq_getElem _ _ (by rwa [length_orByte])]
      exact List.getElem_set_self _
    rw [bitAt, bitAt, hbyte, hset, UInt8.toNat_or, Nat.testBit_or,
      testBit_low _ _ (Nat.mod_lt _ (by decide)), decide_eq_true rfl,
      Bool.true_and]
  · have hset : (orByte bytes index word).getD (position / 8) 0 =
        bytes.getD (position / 8) 0 := by
      rw [List.getD_eq_getElem?_getD, List.getD_eq_getElem?_getD, orByte,
        List.getElem?_set_ne (Ne.symm hbyte)]
    rw [bitAt, bitAt, hset, decide_eq_false hbyte, Bool.false_and, Bool.or_false]

end GlmFlash.Library
