import Mathlib.Data.List.TakeWhile

/-!
# Fences over numbered work

Work is numbered when it is issued and finished in the order of its numbers.
Items that unfinished work may still use wait in a queue of fenced lists; a
list is opened once the number of its fence is finished.  The queue is opened
from the front and stops at the first fence that is not reached.
-/

namespace GlmFlash.Library

/-- The numbers in flight lie between the finished and the issued ones, in
order. -/
structure InOrder (finished issued : ℕ) (numbers : List ℕ) : Prop where
  sorted : numbers.Pairwise (· < ·)
  bounds : ∀ number ∈ numbers, finished < number ∧ number ≤ issued
  le : finished ≤ issued

theorem inOrder_nil : InOrder 0 0 [] :=
  ⟨.nil, fun _ hmem => by simp at hmem, Nat.le_refl 0⟩

theorem InOrder.issue {finished issued : ℕ} {numbers : List ℕ}
    (horder : InOrder finished issued numbers) :
    InOrder finished (issued + 1) (numbers ++ [issued + 1]) where
  sorted := by
    rw [List.pairwise_append]
    refine ⟨horder.sorted, List.pairwise_singleton _ _, ?_⟩
    intro number hmem last hlast
    rw [List.mem_singleton.mp hlast]
    have hbounds := horder.bounds number hmem
    omega
  bounds := by
    intro number hmem
    have hle := horder.le
    cases List.mem_append.mp hmem with
    | inl hold =>
        have hbounds := horder.bounds number hold
        omega
    | inr hnew =>
        rw [List.mem_singleton.mp hnew]
        omega
  le := by
    have hle := horder.le
    omega

theorem InOrder.finish {finished issued number : ℕ} {numbers : List ℕ}
    (horder : InOrder finished issued (number :: numbers)) :
    InOrder (finished + 1) issued numbers where
  sorted := horder.sorted.of_cons
  bounds := by
    intro other hmem
    have hhead := horder.bounds number List.mem_cons_self
    have hother := horder.bounds other (List.mem_cons_of_mem _ hmem)
    have hless := List.rel_of_pairwise_cons horder.sorted hmem
    omega
  le := by
    have hhead := horder.bounds number List.mem_cons_self
    omega

/-! ## The fenced queue -/

variable {A : Type*} {S : Type*}

/-- All items that wait behind a fence. -/
def fencedItems (entries : List (ℕ × List A)) : List A :=
  entries.flatMap Prod.snd

/-- Open the entries from the front up to the first fence not reached. -/
def openFences (release : S → List A → S) (reached : ℕ) (state : S) :
    List (ℕ × List A) → S × List (ℕ × List A)
  | [] => (state, [])
  | (fence, items) :: entries =>
      if reached < fence then (state, (fence, items) :: entries)
      else openFences release reached (release state items) entries

variable {release : S → List A → S} {reached : ℕ}

/-- The entries that an opening takes from the queue. -/
def openedEntries (reached : ℕ) (entries : List (ℕ × List A)) :
    List (ℕ × List A) :=
  entries.takeWhile fun entry => decide (entry.1 ≤ reached)

variable (release reached) in
theorem openFences_rest (state : S) (entries : List (ℕ × List A)) :
    openedEntries reached entries ++
      (openFences release reached state entries).2 = entries := by
  induction entries generalizing state with
  | nil => rfl
  | cons head entries ih =>
      rw [openFences, openedEntries]
      by_cases hreached : head.1 ≤ reached
      · rw [if_neg (Nat.not_lt.mpr hreached),
          List.takeWhile_cons_of_pos (by simpa using hreached),
          List.cons_append]
        exact congrArg (List.cons head) (ih _)
      · rw [if_pos (Nat.not_le.mp hreached),
          List.takeWhile_cons_of_neg (by simpa using hreached)]
        rfl

theorem openFences_subset {state : S} {entries : List (ℕ × List A)}
    {entry : ℕ × List A}
    (hmem : entry ∈ (openFences release reached state entries).2) :
    entry ∈ entries := by
  rw [← openFences_rest release reached state entries]
  exact List.mem_append_right _ hmem

/-- What waits behind a fence that is not reached keeps waiting. -/
theorem openFences_keeps {state : S} {entries : List (ℕ × List A)}
    {entry : ℕ × List A} (hmem : entry ∈ entries)
    (hahead : reached < entry.1) :
    entry ∈ (openFences release reached state entries).2 := by
  rw [← openFences_rest release reached state entries] at hmem
  cases List.mem_append.mp hmem with
  | inl hopened =>
      rw [openedEntries] at hopened
      have hreached := List.mem_takeWhile_imp hopened
      rw [decide_eq_true_eq] at hreached
      omega
  | inr hrest => exact hrest

theorem openFences_all {state : S} {entries : List (ℕ × List A)}
    (hreached : ∀ entry ∈ entries, entry.1 ≤ reached) :
    (openFences release reached state entries).2 = [] := by
  induction entries generalizing state with
  | nil => rfl
  | cons head entries ih =>
      rw [openFences,
        if_neg (Nat.not_lt.mpr (hreached head List.mem_cons_self))]
      exact ih fun entry hmem => hreached entry (List.mem_cons_of_mem _ hmem)

variable (release reached) in
theorem count_fencedItems_rest [DecidableEq A] (state : S)
    (entries : List (ℕ × List A)) (item : A) :
    (fencedItems (openedEntries reached entries)).count item +
        (fencedItems (openFences release reached state entries).2).count
          item =
      (fencedItems entries).count item := by
  have hrest : fencedItems (openedEntries reached entries) ++
      fencedItems (openFences release reached state entries).2 =
        fencedItems entries := by
    rw [fencedItems, fencedItems, ← List.flatMap_append, openFences_rest]
    rfl
  rw [← hrest, List.count_append]

variable (release reached) in
/-- A projection that no release touches. -/
theorem openFences_frame_eq {B : Type*} (projection : S → B)
    (hrelease : ∀ state items,
      projection (release state items) = projection state)
    (state : S) (entries : List (ℕ × List A)) :
    projection (openFences release reached state entries).1 =
      projection state := by
  induction entries generalizing state with
  | nil => rfl
  | cons head entries ih =>
      rw [openFences]
      split
      · rfl
      · rw [ih, hrelease]

variable [DecidableEq A]

variable (release reached) in
/-- Frame rule: a release that gives up exactly its items makes the opening
give up exactly what leaves the queue. -/
theorem openFences_frame (holds : S → (A → ℕ) → Prop)
    (hrelease : ∀ state items (frame : A → ℕ),
      holds state (fun item => frame item + items.count item) →
        holds (release state items) frame)
    {state : S} {entries : List (ℕ × List A)} (frame : A → ℕ)
    (hstate : holds state fun item =>
      frame item + (fencedItems entries).count item) :
    holds (openFences release reached state entries).1 fun item =>
      frame item +
        (fencedItems (openFences release reached state entries).2).count
          item := by
  induction entries generalizing state with
  | nil => exact hstate
  | cons head entries ih =>
      rw [openFences]
      split
      · exact hstate
      · apply ih
        apply hrelease
        convert hstate using 2
        simp only [fencedItems, List.flatMap_cons, List.count_append]
        omega

end GlmFlash.Library
