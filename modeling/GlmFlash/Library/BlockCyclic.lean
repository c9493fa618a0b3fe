import Mathlib.Algebra.BigOperators.Group.Finset.Piecewise
import Mathlib.Algebra.GroupWithZero.Nat
import Mathlib.Algebra.Order.Group.Nat
import Mathlib.Data.Nat.ModEq

/-!
# Block-cyclic distributions

Positions are dealt to ranks in chunks, in turn.  A rank counts its own positions, so a
position is known by its owner and its place among the positions of the owner.  The places
that a prefix fills on a rank are the first ones, and a closed formula says how many they
are.
-/

namespace GlmFlash.Library.BlockCyclic

section Definitions

variable (chunk size : ℕ)

def owner (position : ℕ) : ℕ :=
  position / chunk % size

def place (position : ℕ) : ℕ :=
  position / (chunk * size) * chunk + position % chunk

/-- The position at a place of a rank. -/
def position (rank place : ℕ) : ℕ :=
  (place / chunk * size + rank) * chunk + place % chunk

/-- How many of the first positions a rank owns. -/
def count (rank length : ℕ) : ℕ :=
  length / chunk / size * chunk +
    min (length - length / chunk / size * chunk * size - rank * chunk) chunk

end Definitions

/-! ## Two digits -/

theorem div_of_digits {base high low : ℕ} (hlow : low < base) :
    (high * base + low) / base = high := by
  rw [Nat.mul_comm, Nat.mul_add_div (Nat.zero_lt_of_lt hlow), Nat.div_eq_of_lt hlow,
    Nat.add_zero]

theorem mod_of_digits {base high low : ℕ} (hlow : low < base) :
    (high * base + low) % base = low := by
  rw [Nat.mul_comm, Nat.mul_add_mod, Nat.mod_eq_of_lt hlow]

/-- Numbers of two digits are ordered by their digits. -/
theorem digits_lt_digits {base high high' low low' : ℕ} (hlow : low < base)
    (hlow' : low' < base) :
    high * base + low < high' * base + low' ↔ high < high' ∨ high = high' ∧ low < low' := by
  rcases Nat.lt_trichotomy high high' with hlt | rfl | hgt
  · have hnext : (high + 1) * base ≤ high' * base := Nat.mul_le_mul_right base hlt
    rw [Nat.succ_mul] at hnext
    exact iff_of_true (by omega) (Or.inl hlt)
  · rw [Nat.add_lt_add_iff_left, or_iff_right (Nat.lt_irrefl high), and_iff_right rfl]
  · have hnext : (high' + 1) * base ≤ high * base := Nat.mul_le_mul_right base hgt
    rw [Nat.succ_mul] at hnext
    refine iff_of_false (by omega) ?_
    rintro (hlt | ⟨rfl, -⟩)
    · exact hlt.not_gt hgt
    · exact Nat.lt_irrefl _ hgt

theorem digits_eq_digits {base high high' low low' : ℕ} (hlow : low < base)
    (hlow' : low' < base) :
    high * base + low = high' * base + low' ↔ high = high' ∧ low = low' := by
  refine ⟨fun heq => ⟨?_, ?_⟩, fun heq => by rw [heq.1, heq.2]⟩
  · rw [← @div_of_digits base high low hlow, heq, div_of_digits hlow']
  · rw [← @mod_of_digits base high low hlow, heq, mod_of_digits hlow']

/-! ## Owners and places -/

theorem owner_lt {chunk size : ℕ} (hsize : 0 < size) (index : ℕ) :
    owner chunk size index < size :=
  Nat.mod_lt _ hsize

section Places

variable {chunk size rank : ℕ} (hchunk : 0 < chunk)
include hchunk

theorem owner_position (hrank : rank < size) (index : ℕ) :
    owner chunk size (position chunk size rank index) = rank := by
  rw [owner, position, div_of_digits (Nat.mod_lt index hchunk), mod_of_digits hrank]

theorem place_position (hrank : rank < size) (index : ℕ) :
    place chunk size (position chunk size rank index) = index := by
  have hlow := Nat.mod_lt index hchunk
  rw [place, position, mod_of_digits hlow, ← Nat.div_div_eq_div_mul, div_of_digits hlow,
    div_of_digits hrank, Nat.div_add_mod']

theorem position_place (index : ℕ) :
    position chunk size (owner chunk size index) (place chunk size index) = index := by
  have hlow := Nat.mod_lt index hchunk
  rw [position, owner, place, div_of_digits hlow, mod_of_digits hlow,
    ← Nat.div_div_eq_div_mul, Nat.div_add_mod', Nat.div_add_mod']

/-! ## Prefixes -/

/-- The places that a prefix fills are the first ones. -/
theorem position_lt_iff (hrank : rank < size) (index length : ℕ) :
    position chunk size rank index < length ↔ index < count chunk size rank length := by
  have hsize : 0 < size := Nat.zero_lt_of_lt hrank
  have hindex : index / chunk * chunk + index % chunk = index := Nat.div_add_mod' index chunk
  have hlength : (length / chunk / size * size + length / chunk % size) * chunk +
      length % chunk = length := by
    rw [Nat.div_add_mod', Nat.div_add_mod']
  have hlow := Nat.mod_lt index hchunk
  have hlow' := Nat.mod_lt length hchunk
  have hturn := Nat.mod_lt (length / chunk) hsize
  rw [count, position]
  generalize length / chunk / size = rounds at *
  generalize length / chunk % size = turn at *
  generalize length % chunk = rest at *
  generalize index / chunk = high at *
  generalize index % chunk = low at *
  subst hindex hlength
  have hrest : (rounds * size + turn) * chunk + rest - rounds * chunk * size =
      turn * chunk + rest := by
    rw [Nat.add_mul, Nat.mul_right_comm, Nat.add_assoc, Nat.add_sub_cancel_left]
  rw [hrest, digits_lt_digits hlow hlow', digits_lt_digits hrank hturn,
    digits_eq_digits hrank hturn]
  rcases Nat.lt_trichotomy rank turn with hlt | rfl | hgt
  · -- The round that is in progress has given the rank a whole chunk.
    have hchunks : (rank + 1) * chunk ≤ turn * chunk := Nat.mul_le_mul_right chunk hlt
    rw [Nat.succ_mul] at hchunks
    rw [Nat.min_eq_right (by omega), ← Nat.succ_mul, ← Nat.add_zero (rounds.succ * chunk),
      digits_lt_digits hlow hchunk]
    omega
  · rw [Nat.add_sub_cancel_left, Nat.min_eq_left hlow'.le, digits_lt_digits hlow hlow']
    omega
  · have hchunks : (turn + 1) * chunk ≤ rank * chunk := Nat.mul_le_mul_right chunk hgt
    rw [Nat.succ_mul] at hchunks
    rw [Nat.sub_eq_zero_of_le (by omega), Nat.zero_min, digits_lt_digits hlow hchunk]
    omega

/-- The positions of a rank are in the order of their places. -/
theorem position_lt_position (hrank : rank < size) (index other : ℕ) :
    position chunk size rank index < position chunk size rank other ↔ index < other := by
  have hlow := Nat.mod_lt index hchunk
  have hlow' := Nat.mod_lt other hchunk
  have hdigits := @digits_lt_digits chunk (index / chunk) (other / chunk) _ _ hlow hlow'
  rw [Nat.div_add_mod', Nat.div_add_mod'] at hdigits
  rw [position, position, digits_lt_digits hlow hlow', digits_lt_digits hrank hrank,
    digits_eq_digits hrank hrank, hdigits]
  omega

end Places

/-! ## All ranks -/

section Counts

variable {chunk size rank : ℕ} (hchunk : 0 < chunk)
include hchunk

/-- Before a position its owner has filled the places below its place. -/
theorem count_owner (hsize : 0 < size) (length : ℕ) :
    count chunk size (owner chunk size length) length = place chunk size length := by
  have howner : owner chunk size length < size := owner_lt hsize length
  refine eq_of_forall_lt_iff fun index => ?_
  calc index < count chunk size (owner chunk size length) length
      ↔ position chunk size (owner chunk size length) index < length :=
        (position_lt_iff hchunk howner index length).symm
    _ ↔ position chunk size (owner chunk size length) index <
          position chunk size (owner chunk size length) (place chunk size length) := by
        rw [position_place hchunk]
    _ ↔ index < place chunk size length := position_lt_position hchunk howner _ _

/-- One more position is one more place on its owner. -/
theorem count_succ (hrank : rank < size) (length : ℕ) :
    count chunk size rank (length + 1) =
      count chunk size rank length + if owner chunk size length = rank then 1 else 0 := by
  have hsize : 0 < size := Nat.zero_lt_of_lt hrank
  refine eq_of_forall_lt_iff fun index => ?_
  rw [← position_lt_iff hchunk hrank, Nat.lt_succ_iff_lt_or_eq, position_lt_iff hchunk hrank]
  by_cases howner : owner chunk size length = rank
  · subst howner
    have hplace : position chunk size (owner chunk size length) index = length ↔
        index = place chunk size length := by
      constructor
      · rintro heq
        rw [← place_position hchunk hrank index, heq]
      · rintro rfl
        exact position_place hchunk length
    rw [if_pos rfl, hplace, ← count_owner hchunk hsize, Nat.lt_succ_iff_lt_or_eq]
  · have hother : position chunk size rank index ≠ length := by
      rintro rfl
      exact howner (owner_position hchunk hrank index)
    rw [if_neg howner, Nat.add_zero, or_iff_left hother]

/-- Together the ranks own every position of a prefix. -/
theorem sum_count (hsize : 0 < size) (length : ℕ) :
    ∑ rank ∈ Finset.range size, count chunk size rank length = length := by
  induction length with
  | zero => exact Finset.sum_eq_zero fun rank _ => by simp [count]
  | succ length ih =>
      calc ∑ rank ∈ Finset.range size, count chunk size rank (length + 1)
          = ∑ rank ∈ Finset.range size, (count chunk size rank length +
              if owner chunk size length = rank then 1 else 0) :=
            Finset.sum_congr rfl fun rank hrank =>
              count_succ hchunk (Finset.mem_range.mp hrank) length
        _ = length + 1 := by
            rw [Finset.sum_add_distrib, ih, Finset.sum_ite_eq,
              if_pos (Finset.mem_range.mpr (owner_lt hsize length))]

end Counts

end GlmFlash.Library.BlockCyclic
