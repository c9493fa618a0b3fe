import Mathlib.Algebra.BigOperators.Group.List.Basic
import Mathlib.Algebra.GroupWithZero.Nat
import Mathlib.Data.List.GetD
import Mathlib.Data.List.TakeDrop

/-!
# Segments of one buffer

Lists of different lengths are laid one after the other in one buffer, and beside it
stands where each of them ends.  A segment starts where the one before it ends, so its
elements are found from two neighbouring ends.  Buffers are joined by moving the ends of
the second behind the first.
-/

namespace GlmFlash.Library

variable {A : Type*}

/-- Where each segment ends in a buffer that starts at `base`. -/
def segmentEnds (base : ℕ) : List (List A) → List ℕ
  | [] => []
  | segment :: segments =>
      (base + segment.length) :: segmentEnds (base + segment.length) segments

/-- Where a segment starts. -/
def segmentStart (ends : List ℕ) (index : ℕ) : ℕ :=
  if 0 < index then ends.getD (index - 1) 0 else 0

theorem segmentEnds_append (base : ℕ) (before after : List (List A)) :
    segmentEnds base (before ++ after) =
      segmentEnds base before ++ segmentEnds (base + before.flatten.length) after := by
  induction before generalizing base with
  | nil => rfl
  | cons segment before ih =>
      rw [List.cons_append, segmentEnds, ih, segmentEnds, List.cons_append,
        List.flatten_cons, List.length_append, Nat.add_assoc]

/-- Moving a buffer moves its ends. -/
theorem segmentEnds_add (offset base : ℕ) (segments : List (List A)) :
    segmentEnds (offset + base) segments =
      (segmentEnds base segments).map (offset + ·) := by
  induction segments generalizing base with
  | nil => rfl
  | cons segment segments ih =>
      rw [segmentEnds, Nat.add_assoc, ih, segmentEnds, List.map_cons]

theorem getD_segmentEnds {base index : ℕ} {segments : List (List A)}
    (hindex : index < segments.length) :
    (segmentEnds base segments).getD index 0 =
      base + (segments.take (index + 1)).flatten.length := by
  induction segments generalizing base index with
  | nil => exact absurd hindex (Nat.not_lt_zero _)
  | cons segment segments ih =>
      cases index with
      | zero => simp [segmentEnds]
      | succ index =>
          rw [segmentEnds, List.getD_cons_succ, ih (Nat.lt_of_succ_lt_succ hindex),
            List.take_succ_cons, List.flatten_cons, List.length_append, Nat.add_assoc]

theorem segmentStart_segmentEnds {index : ℕ} {segments : List (List A)}
    (hindex : index < segments.length) :
    segmentStart (segmentEnds 0 segments) index = (segments.take index).flatten.length := by
  cases index with
  | zero => simp [segmentStart]
  | succ index =>
      rw [segmentStart, if_pos (Nat.succ_pos index), Nat.add_sub_cancel,
        getD_segmentEnds (Nat.lt_of_succ_lt hindex), Nat.zero_add]

/-- The length of a segment is the distance between its ends. -/
theorem segmentEnd_sub_segmentStart {index : ℕ} {segments : List (List A)}
    (hindex : index < segments.length) :
    (segmentEnds 0 segments).getD index 0 - segmentStart (segmentEnds 0 segments) index =
      segments[index].length := by
  rw [getD_segmentEnds hindex, segmentStart_segmentEnds hindex, Nat.zero_add,
    List.take_succ_eq_append_getElem hindex, List.flatten_append, List.length_append,
    List.flatten_singleton, Nat.add_sub_cancel_left]

/-- The elements of a segment follow its start. -/
theorem getD_flatten_segment {index offset : ℕ} {segments : List (List A)}
    (hindex : index < segments.length) (hoffset : offset < segments[index].length)
    (default : A) :
    segments.flatten.getD (segmentStart (segmentEnds 0 segments) index + offset) default =
      segments[index].getD offset default := by
  have hsplit : segments.flatten =
      (segments.take index).flatten ++
        (segments[index] ++ (segments.drop (index + 1)).flatten) := by
    rw [← List.flatten_cons, ← List.flatten_append, ← List.drop_eq_getElem_cons hindex,
      List.take_append_drop]
  rw [segmentStart_segmentEnds hindex, hsplit,
    List.getD_append_right _ _ _ _ (Nat.le_add_right _ _), Nat.add_sub_cancel_left,
    List.getD_append _ _ _ _ hoffset]

/-! ## Pieces of one length -/

section Pieces

variable {B : Type*} {piece : A → List B} {size : ℕ}
  (hlength : ∀ item, (piece item).length = size)
include hlength

theorem length_flatMap_pieces (items : List A) :
    (items.flatMap piece).length = items.length * size := by
  induction items with
  | nil => rw [List.flatMap_nil, List.length_nil, List.length_nil, Nat.zero_mul]
  | cons item items ih =>
      rw [List.flatMap_cons, List.length_append, ih, hlength, List.length_cons, Nat.succ_mul,
        Nat.add_comm]

/-- An element is found in the piece that its index falls into. -/
theorem getD_flatMap_pieces (items : List A) (index : ℕ) (default : B) (hsize : 0 < size) :
    (items.flatMap piece).getD index default =
      ((items[index / size]?.map piece).getD []).getD (index % size) default := by
  induction items generalizing index with
  | nil => simp
  | cons item items ih =>
      rw [List.flatMap_cons]
      by_cases hhead : index < size
      · rw [Nat.div_eq_of_lt hhead, Nat.mod_eq_of_lt hhead,
          List.getD_append _ _ _ _ (by rwa [hlength])]
        rfl
      · rw [Nat.not_lt] at hhead
        rw [List.getD_append_right _ _ _ _ (by rwa [hlength]), hlength, ih,
          Nat.div_eq_sub_div hsize hhead, ← Nat.mod_eq_sub_mod hhead]
        rfl

end Pieces

end GlmFlash.Library
