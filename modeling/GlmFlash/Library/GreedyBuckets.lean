import GlmFlash.Library.MultipleChoice

/-!
# Greedy buckets of bounded size

Items come in descending weight, and each goes to a bucket of least weight among
those that still have room.  Then the weights of any two buckets differ by at
most one item, although a full bucket may force an item into a heavy one.
-/

namespace GlmFlash.Library

variable {A M : Type*} [AddCommMonoid M] [LinearOrder M]

/-- The buckets after the items that are placed. -/
inductive GreedyFill (weight : A → M) (capacity count : ℕ) :
    List A → List (List A) → Prop where
  | start : GreedyFill weight capacity count [] (List.replicate count [])
  | place {placed : List A} {buckets : List (List A)}
      (filled : GreedyFill weight capacity count placed buckets) {destination : ℕ}
      {bucket : List A} {item : A} (found : buckets[destination]? = some bucket)
      (room : bucket.length < capacity)
      (least : ∀ other ∈ buckets, other.length < capacity →
        total weight bucket ≤ total weight other)
      (light : ∀ earlier ∈ placed, weight item ≤ weight earlier) :
      GreedyFill weight capacity count (placed ++ [item])
        (buckets.modify destination (· ++ [item]))

/-- Adding to one list adds to the concatenation. -/
theorem flatten_modify_perm {buckets : List (List A)} {destination : ℕ} {bucket : List A}
    (item : A) (hfound : buckets[destination]? = some bucket) :
    (buckets.modify destination (· ++ [item])).flatten.Perm (buckets.flatten ++ [item]) := by
  induction buckets generalizing destination with
  | nil => cases hfound
  | cons first buckets ih =>
      cases destination with
      | zero =>
          rw [List.modify_zero_cons, List.flatten_cons, List.flatten_cons,
            List.append_assoc, List.append_assoc]
          exact List.perm_append_comm.append_left first
      | succ destination =>
          rw [List.modify_succ_cons, List.flatten_cons, List.flatten_cons,
            List.append_assoc]
          exact (ih hfound).append_left first

section Lengths

variable {buckets : List (List A)} {capacity : ℕ}

theorem length_flatten_le (hle : ∀ bucket ∈ buckets, bucket.length ≤ capacity) :
    buckets.flatten.length ≤ buckets.length * capacity := by
  induction buckets with
  | nil => exact Nat.zero_le _
  | cons first buckets ih =>
      obtain ⟨hfirst, hrest⟩ := List.forall_mem_cons.mp hle
      rw [List.flatten_cons, List.length_append, List.length_cons, Nat.succ_mul, Nat.add_comm]
      exact Nat.add_le_add (ih hrest) hfirst

theorem le_length_flatten (hle : ∀ bucket ∈ buckets, capacity ≤ bucket.length) :
    buckets.length * capacity ≤ buckets.flatten.length := by
  induction buckets with
  | nil => rw [List.length_nil, Nat.zero_mul]; exact Nat.zero_le _
  | cons first buckets ih =>
      obtain ⟨hfirst, hrest⟩ := List.forall_mem_cons.mp hle
      rw [List.flatten_cons, List.length_append, List.length_cons, Nat.succ_mul, Nat.add_comm]
      exact Nat.add_le_add hfirst (ih hrest)

/-- Lists of bounded length that are as long as the bound together are all full. -/
theorem length_eq_of_flatten (hle : ∀ bucket ∈ buckets, bucket.length ≤ capacity)
    (hlength : buckets.length * capacity ≤ buckets.flatten.length) :
    ∀ bucket ∈ buckets, bucket.length = capacity := by
  induction buckets with
  | nil => exact List.forall_mem_nil _
  | cons first buckets ih =>
      obtain ⟨hfirst, hrest⟩ := List.forall_mem_cons.mp hle
      have hbound := length_flatten_le hrest
      rw [List.length_cons, Nat.succ_mul, List.flatten_cons, List.length_append] at hlength
      exact List.forall_mem_cons.mpr ⟨by omega, ih hrest (by omega)⟩

end Lengths

namespace GreedyFill

variable {weight : A → M} {capacity count : ℕ} {placed : List A} {buckets : List (List A)}

section Fill

variable (hfill : GreedyFill weight capacity count placed buckets)
include hfill

theorem length_eq :
    buckets.length = count := by
  induction hfill with
  | start => exact List.length_replicate
  | place _ _ _ _ _ ih => rw [List.length_modify, ih]

theorem perm :
    buckets.flatten.Perm placed := by
  induction hfill with
  | start =>
      rw [List.flatten_replicate_nil]
  | place _ hfound _ _ _ ih =>
      exact (flatten_modify_perm _ hfound).trans (ih.append_right _)

theorem length_le :
    ∀ bucket ∈ buckets, bucket.length ≤ capacity := by
  induction hfill with
  | start =>
      intro bucket hmem
      rw [List.eq_of_mem_replicate hmem]
      exact Nat.zero_le capacity
  | @place placed buckets _ destination bucket item hfound hroom _ _ ih =>
      intro other hmem
      obtain ⟨index, hindex⟩ := List.mem_iff_getElem?.mp hmem
      rw [List.getElem?_modify] at hindex
      obtain ⟨before, hbefore, rfl⟩ := Option.map_eq_some_iff.mp hindex
      by_cases heq : destination = index
      · subst heq
        rw [hfound] at hbefore
        cases hbefore
        rw [if_pos rfl, List.length_append, List.length_singleton]
        exact hroom
      · rw [if_neg heq]
        exact ih before (List.mem_of_getElem? hbefore)

/-- There is room as long as not all places are taken. -/
theorem exists_room (hplaced : placed.length < count * capacity) :
    ∃ bucket ∈ buckets, bucket.length < capacity := by
  by_contra hnone
  push Not at hnone
  have hlong := le_length_flatten hnone
  rw [hfill.length_eq, hfill.perm.length_eq] at hlong
  exact absurd hplaced (Nat.not_lt.mpr hlong)

theorem length_eq_capacity (hplaced : count * capacity ≤ placed.length) :
    ∀ bucket ∈ buckets, bucket.length = capacity := by
  apply length_eq_of_flatten hfill.length_le
  rwa [hfill.length_eq, hfill.perm.length_eq]

theorem mem_placed {index : ℕ} {bucket : List A} (hfound : buckets[index]? = some bucket)
    {item : A} (hitem : item ∈ bucket) : item ∈ placed :=
  hfill.perm.mem_iff.mp (List.mem_flatten_of_mem (List.mem_of_getElem? hfound) hitem)

end Fill

section Balance

variable [IsOrderedAddMonoid M]

/-- An item that the lightest bucket takes, or that goes to a bucket with no more
items than the other one has. -/
theorem balanced_item {head item : A} {rest right : List A}
    (hlight : ∀ other ∈ right, weight item ≤ weight other)
    (hhead : weight item ≤ weight head)
    (hleast : right.length < rest.length + 1 →
      total weight (head :: rest) ≤ total weight right)
    (hrest : total weight rest ≤ total weight (right.take rest.length)) :
    total weight (rest ++ [item]) ≤ total weight (right.take (rest.length + 1)) := by
  rw [total_append, total_singleton]
  by_cases hshort : right.length < rest.length + 1
  · rw [List.take_of_length_le (Nat.le_of_lt hshort)]
    calc total weight rest + weight item
        ≤ total weight rest + weight head := add_le_add_right hhead _
      _ = total weight (head :: rest) := add_comm _ _
      _ ≤ total weight right := hleast hshort
  · have hlt : rest.length < right.length := by omega
    rw [← List.take_concat_get' right rest.length hlt, total_append, total_singleton]
    exact add_le_add hrest (hlight _ (List.getElem_mem hlt))

/-- Without its first item, no bucket outweighs the first items of another, one less
than it has itself. -/
theorem balanced (hfill : GreedyFill weight capacity count placed buckets)
    (hnonneg : ∀ item ∈ placed, 0 ≤ weight item) {index index' : ℕ} (hne : index ≠ index')
    {left right : List A} (hleft : buckets[index]? = some left)
    (hright : buckets[index']? = some right) :
    total weight left.tail ≤ total weight (right.take (left.length - 1)) := by
  induction hfill generalizing left right with
  | start =>
      rw [List.eq_of_mem_replicate (List.mem_of_getElem? hleft)]
      exact total_nonneg fun _ hmem => absurd (List.mem_of_mem_take hmem)
        (List.eq_of_mem_replicate (List.mem_of_getElem? hright) ▸ List.not_mem_nil)
  | @place placed buckets hfilled destination bucket item hfound hroom hleast hlight ih =>
      have hearlier : ∀ earlier ∈ placed, 0 ≤ weight earlier :=
        fun earlier hmem => hnonneg earlier (List.mem_append_left _ hmem)
      have hitem : 0 ≤ weight item :=
        hnonneg item (List.mem_append_right _ (List.mem_singleton_self item))
      rw [List.getElem?_modify] at hleft hright
      obtain ⟨before, hbefore, rfl⟩ := Option.map_eq_some_iff.mp hleft
      obtain ⟨before', hbefore', rfl⟩ := Option.map_eq_some_iff.mp hright
      by_cases hdestination : destination = index
      · subst hdestination
        rw [hfound] at hbefore
        cases hbefore
        rw [if_pos rfl, if_neg hne]
        cases bucket with
        | nil =>
            exact total_nonneg fun other hmem => hearlier other
              (hfilled.mem_placed hbefore' (List.mem_of_mem_take hmem))
        | cons head rest =>
            have hmem : head ∈ placed := hfilled.mem_placed hfound List.mem_cons_self
            rw [List.length_append, List.length_singleton, Nat.add_sub_cancel]
            apply balanced_item
            · exact fun other hother => hlight other (hfilled.mem_placed hbefore' hother)
            · exact hlight head hmem
            · intro hshort
              have hroom' : before'.length < capacity := by
                rw [List.length_cons] at hroom
                omega
              exact hleast before' (List.mem_of_getElem? hbefore') hroom'
            · exact ih hearlier hfound hbefore'
      · rw [if_neg hdestination]
        by_cases hother : destination = index'
        · rw [if_pos hother, List.take_append, total_append]
          refine (ih hearlier hbefore hbefore').trans (le_add_of_nonneg_right ?_)
          apply total_nonneg
          intro other hmem
          rw [List.mem_singleton.mp (List.mem_of_mem_take hmem)]
          exact hitem
        · rw [if_neg hother]
          exact ih hearlier hbefore hbefore'

/-- No bucket outweighs another by more than the heaviest item. -/
theorem total_le (hfill : GreedyFill weight capacity count placed buckets)
    (hnonneg : ∀ item ∈ placed, 0 ≤ weight item) {bound : M}
    (hbound : ∀ item ∈ placed, weight item ≤ bound) (hzero : 0 ≤ bound) {index index' : ℕ}
    {left right : List A} (hleft : buckets[index]? = some left)
    (hright : buckets[index']? = some right) :
    total weight left ≤ bound + total weight right := by
  by_cases heq : index = index'
  · subst heq
    rw [hleft] at hright
    cases hright
    exact le_add_of_nonneg_left hzero
  · have hrest := hfill.balanced hnonneg heq hleft hright
    have htake : total weight (right.take (left.length - 1)) ≤ total weight right :=
      total_take_le (fun item hmem => hnonneg item (hfill.mem_placed hright hmem)) _
    cases left with
    | nil =>
        have hright : 0 ≤ total weight right :=
          total_nonneg fun item hmem => hnonneg item (hfill.mem_placed hright hmem)
        exact add_nonneg hzero hright
    | cons head rest =>
        have hhead : weight head ≤ bound :=
          hbound head (hfill.mem_placed hleft List.mem_cons_self)
        exact add_le_add hhead (hrest.trans htake)

end Balance

end GreedyFill

end GlmFlash.Library
