import GlmFlash.Library.Outcome
import Mathlib.Data.List.TakeDrop
import Mathlib.Algebra.GroupWithZero.Nat
import Mathlib.Data.Nat.Cast.Basic
import Mathlib.Algebra.BigOperators.Group.List.Basic

/-!
# Rows packed by a cursor

A row of fixed width starts out as filling and is written from the left: each segment
goes where the cursor stands and moves it on.  What a loop of such writes leaves is the
segments in order and filling behind them, so a segment is read back at the total length
of those before it.
-/

namespace GlmFlash.Library

universe u

variable {E : Type*} {A : Type u} {B : Type*}

/-- A row with a written part and filling behind it. -/
def filled (width : ℕ) (filling : A) (written : List A) : List A :=
  written ++ List.replicate (width - written.length) filling

theorem length_filled {width : ℕ} {filling : A} {written : List A}
    (hfits : written.length ≤ width) : (filled width filling written).length = width := by
  rw [filled, List.length_append, List.length_replicate]
  omega

theorem drop_filled (width : ℕ) (filling : A) (written : List A) :
    (filled width filling written).drop written.length =
      List.replicate (width - written.length) filling :=
  List.drop_left

/-- `row[cursor : cursor + len(segment)] = segment`, which does not grow the row. -/
def putSegment (failure : E) (row : List A) (cursor : ℕ) (segment : List A) :
    Except E (List A) :=
  if cursor + segment.length ≤ row.length then
    .ok (row.take cursor ++ segment ++ row.drop (cursor + segment.length))
  else .error failure

theorem putSegment_filled (failure : E) {width : ℕ} {filling : A} {written segment : List A}
    (hfits : written.length + segment.length ≤ width) :
    putSegment failure (filled width filling written) written.length segment =
      .ok (filled width filling (written ++ segment)) := by
  have hwritten : written.length ≤ width := (Nat.le_add_right _ _).trans hfits
  have hrest : (filled width filling written).drop (written.length + segment.length) =
      List.replicate (width - (written ++ segment).length) filling := by
    rw [← List.drop_drop, drop_filled, List.drop_replicate, List.length_append, Nat.sub_sub]
  have htake : (filled width filling written).take written.length = written :=
    List.take_left
  rw [putSegment, if_pos (by rwa [length_filled hwritten]), htake, hrest, filled]

/-- A row and where its cursor stands. -/
structure Packing (A : Type u) where
  row : List A
  cursor : ℕ

/-- The packing of a written part. -/
def packed (width : ℕ) (filling : A) (written : List A) : Packing A where
  row := filled width filling written
  cursor := written.length

/-- Write one segment. -/
def Packing.put (failure : E) (packing : Packing A) (segment : List A) :
    Except E (Packing A) := do
  let row ← putSegment failure packing.row packing.cursor segment
  return { row := row, cursor := packing.cursor + segment.length }

theorem put_packed (failure : E) {width : ℕ} {filling : A} {written segment : List A}
    (hfits : written.length + segment.length ≤ width) :
    (packed width filling written).put failure segment =
      .ok (packed width filling (written ++ segment)) := by
  rw [Packing.put, packed, putSegment_filled failure hfits, ok_bind, packed,
    List.length_append]
  rfl

/-- A loop whose rounds each write the segment of an item packs all segments in order. -/
theorem foldlM_packed {round : Packing A → B → Except E (Packing A)} {width : ℕ} {filling : A}
    {segment : B → List A} {items : List B} {written : List A}
    (hround : ∀ item ∈ items, ∀ before,
      before.length + (segment item).length ≤ width →
        round (packed width filling before) item =
          .ok (packed width filling (before ++ segment item)))
    (hfits : (written ++ items.flatMap segment).length ≤ width) :
    items.foldlM round (packed width filling written) =
      .ok (packed width filling (written ++ items.flatMap segment)) := by
  induction items generalizing written with
  | nil => simp [pure, Except.pure]
  | cons item items ih =>
      rw [List.flatMap_cons, ← List.append_assoc] at hfits ⊢
      have hfirst : written.length + (segment item).length ≤ width := by
        rw [List.length_append, List.length_append] at hfits
        omega
      rw [List.foldlM_cons, hround item List.mem_cons_self written hfirst, ok_bind]
      exact ih (fun later hlater => hround later (List.mem_cons_of_mem item hlater)) hfits

/-- A fallible map whose items all succeed is a plain map. -/
theorem mapM_eq_map {C D : Type u} {function : C → Except E D} {target : C → D}
    {items : List C} (hall : ∀ item ∈ items, function item = .ok (target item)) :
    items.mapM function = .ok (items.map target) := by
  induction items with
  | nil => rfl
  | cons item items ih =>
      rw [List.mapM_cons, hall item List.mem_cons_self, ok_bind,
        ih fun later hlater => hall later (List.mem_cons_of_mem item hlater), ok_bind]
      rfl

/-- `row[start : start + count]` -/
def portion (row : List A) (start count : ℕ) : List A :=
  (row.drop start).take count

theorem portion_append_left {before segment after : List A} :
    portion (before ++ segment ++ after) before.length segment.length = segment := by
  rw [portion, List.append_assoc, List.drop_left, List.take_left]

/-- The segment of an item stands behind those of the items before it. -/
theorem flatMap_split {segment : B → List A} {items : List B} {index : ℕ} {item : B}
    (hitem : items[index]? = some item) :
    items.flatMap segment = (items.take index).flatMap segment ++ segment item ++
      (items.drop (index + 1)).flatMap segment := by
  obtain ⟨hlt, hget⟩ := List.getElem?_eq_some_iff.mp hitem
  rw [List.append_assoc, ← List.flatMap_cons, ← hget, List.getElem_cons_drop,
    ← List.flatMap_append, List.take_append_drop]

theorem length_flatMap_take {segment : B → List A} {size : B → ℕ} {items : List B}
    (hsize : ∀ item ∈ items, (segment item).length = size item) (index : ℕ) :
    ((items.take index).flatMap segment).length = ((items.take index).map size).sum := by
  rw [List.length_flatMap]
  apply congrArg List.sum
  apply List.map_congr_left
  exact fun item hitem => hsize item (List.mem_of_mem_take hitem)

theorem length_flatMap_const {segment : B → List A} {items : List B} {size : ℕ}
    (hsize : ∀ item ∈ items, (segment item).length = size) :
    (items.flatMap segment).length = items.length * size := by
  rw [List.length_flatMap, List.map_congr_left hsize, List.map_const', List.sum_replicate,
    nsmul_eq_mul, Nat.cast_id]

theorem length_portion {row : List A} {start count : ℕ} (hfits : start + count ≤ row.length) :
    (portion row start count).length = count := by
  rw [portion, List.length_take, List.length_drop]
  omega

/-- Rows of one width, one after another: a part of one row. -/
theorem portion_flatten {rows : List (List A)} {width : ℕ}
    (hrows : ∀ row ∈ rows, row.length = width) {index : ℕ} {row : List A}
    (hrow : rows[index]? = some row) {start count : ℕ} (hfits : start + count ≤ width) :
    portion rows.flatten (index * width + start) count = portion row start count := by
  obtain ⟨hlt, hget⟩ := List.getElem?_eq_some_iff.mp hrow
  have hwidth : row.length = width := hrows row (List.mem_of_getElem? hrow)
  have hbefore : (rows.take index).flatten.length = index * width := by
    rw [List.length_flatten, List.map_congr_left fun earlier hearlier =>
      hrows earlier (List.mem_of_mem_take hearlier), List.map_const', List.sum_replicate,
      List.length_take, min_eq_left hlt.le, nsmul_eq_mul, Nat.cast_id]
  have hsplit : rows.flatten =
      (rows.take index).flatten ++ (row ++ (rows.drop (index + 1)).flatten) := by
    rw [← List.flatten_cons, ← hget, List.getElem_cons_drop, ← List.flatten_append,
      List.take_append_drop]
  rw [portion, ← List.drop_drop, hsplit, ← hbefore, List.drop_left,
    List.drop_append_of_le_length (by omega),
    List.take_append_of_le_length (by rw [List.length_drop]; omega), portion]

end GlmFlash.Library
