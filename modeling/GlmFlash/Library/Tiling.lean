import Mathlib.Data.Int.Order.Basic
import Mathlib.Order.Basic
import Mathlib.Data.List.Pairwise
import Mathlib.Tactic.Common

/-!
# Ranges that tile an interval

A sweep over ranges in the order of their starts accepts them when each starts
where the one before it ends.  This is the case exactly when the ranges are
disjoint and cover the interval, and none of the empty ones lies strictly
inside another range.
-/

namespace GlmFlash.Library

structure Range where
  start : ℤ
  stop : ℤ
  deriving DecidableEq, Repr

namespace Range

def Covers (range : Range) (offset : ℤ) : Prop :=
  range.start ≤ offset ∧ offset < range.stop

/-- The order of pairs of bounds. -/
def Before (range other : Range) : Prop :=
  range.start < other.start ∨
    range.start = other.start ∧ range.stop ≤ other.stop

def Disjoint (range other : Range) : Prop :=
  ∀ offset, range.Covers offset → ¬other.Covers offset

/-- The place of an empty range, strictly between the bounds of the other. -/
def Splits (range other : Range) : Prop :=
  range.start = range.stop ∧ other.start < range.start ∧
    range.start < other.stop

theorem Disjoint.symm {range other : Range} (hdisjoint : range.Disjoint other) :
    other.Disjoint range :=
  fun offset hother hrange => hdisjoint offset hrange hother

end Range

/-- Each range starts where the last one stopped; the end of the last one. -/
def sweep : ℤ → List Range → Option ℤ
  | cursor, [] => some cursor
  | cursor, range :: ranges =>
      if range.start = cursor then sweep range.stop ranges else none

/-- The ranges divide the interval among them. -/
structure Tiles (first last : ℤ) (ranges : List Range) : Prop where
  bounds : first ≤ last
  inside : ∀ range ∈ ranges,
    first ≤ range.start ∧ range.start ≤ range.stop ∧ range.stop ≤ last
  disjoint : ranges.Pairwise Range.Disjoint
  covered : ∀ offset, first ≤ offset → offset < last →
    ∃ range ∈ ranges, range.Covers offset

/-- No empty range lies strictly inside another one. -/
def Settled (ranges : List Range) : Prop :=
  ∀ range ∈ ranges, ∀ other ∈ ranges, ¬range.Splits other

variable {first last cursor : ℤ} {range : Range} {ranges : List Range}

theorem tiles_cons (hstart : range.start ≤ range.stop)
    (htiles : Tiles range.stop last ranges) :
    Tiles range.start last (range :: ranges) where
  bounds := hstart.trans htiles.bounds
  inside := by
    intro other hmem
    rcases List.mem_cons.mp hmem with rfl | hrest
    · exact ⟨le_rfl, hstart, htiles.bounds⟩
    · obtain ⟨hfirst, hlast⟩ := htiles.inside other hrest
      exact ⟨hstart.trans hfirst, hlast⟩
  disjoint := by
    refine List.pairwise_cons.mpr ⟨?_, htiles.disjoint⟩
    intro other hmem offset hcovers hother
    have hafter := (htiles.inside other hmem).1
    exact absurd (hafter.trans hother.1) (not_le.mpr hcovers.2)
  covered := by
    intro offset hfirst hlast
    by_cases hown : offset < range.stop
    · exact ⟨range, List.mem_cons_self, hfirst, hown⟩
    · obtain ⟨other, hmem, hcovers⟩ :=
        htiles.covered offset (not_lt.mp hown) hlast
      exact ⟨other, List.mem_cons_of_mem range hmem, hcovers⟩

theorem settled_cons (hstart : range.start ≤ range.stop)
    (htiles : Tiles range.stop last ranges) (hsettled : Settled ranges) :
    Settled (range :: ranges) := by
  intro inner hinner outer houter ⟨hempty, hlow, hhigh⟩
  rcases List.mem_cons.mp hinner with rfl | hlater
  · rcases List.mem_cons.mp houter with rfl | hother
    · exact absurd hlow (lt_irrefl _)
    · have hafter := (htiles.inside outer hother).1
      rw [← hempty] at hafter
      exact absurd hafter (not_le.mpr hlow)
  · rcases List.mem_cons.mp houter with rfl | hother
    · exact absurd (htiles.inside inner hlater).1 (not_le.mpr hhigh)
    · exact hsettled inner hlater outer hother ⟨hempty, hlow, hhigh⟩

theorem tiles_of_sweep (hvalid : ∀ range ∈ ranges, range.start ≤ range.stop)
    (hsweep : sweep cursor ranges = some last) :
    Tiles cursor last ranges ∧ Settled ranges := by
  induction ranges generalizing cursor with
  | nil =>
      cases hsweep
      refine ⟨⟨le_rfl, ?_, List.Pairwise.nil, ?_⟩, ?_⟩
      · exact fun range hmem => absurd hmem List.not_mem_nil
      · exact fun offset hfirst hlast => absurd hfirst (not_le.mpr hlast)
      · exact fun range hmem => absurd hmem List.not_mem_nil
  | cons range ranges ih =>
      rw [sweep] at hsweep
      split at hsweep
      · rename_i hcursor
        obtain ⟨htiles, hsettled⟩ := ih (fun other hmem =>
          hvalid other (List.mem_cons_of_mem range hmem)) hsweep
        have hstart := hvalid range List.mem_cons_self
        rw [← hcursor]
        exact ⟨tiles_cons hstart htiles, settled_cons hstart htiles hsettled⟩
      · cases hsweep

/-- The first range in order starts where the interval does. -/
theorem Tiles.start_eq (htiles : Tiles first last (range :: ranges))
    (hsorted : ∀ other ∈ ranges, range.Before other) : range.start = first := by
  obtain ⟨hlow, hstart, hhigh⟩ := htiles.inside range List.mem_cons_self
  refine le_antisymm ?_ hlow
  rcases htiles.bounds.lt_or_eq with hlt | heq
  · obtain ⟨other, hmem, hcovers⟩ := htiles.covered first le_rfl hlt
    rcases List.mem_cons.mp hmem with rfl | hrest
    · exact hcovers.1
    · rcases hsorted other hrest with hbefore | ⟨hsame, -⟩
      · exact hbefore.le.trans hcovers.1
      · exact hsame.le.trans hcovers.1
  · rw [heq]
    exact hstart.trans hhigh

/-- The others start behind it. -/
theorem Tiles.stop_le (htiles : Tiles first last (range :: ranges))
    (hsettled : Settled (range :: ranges))
    (hsorted : ∀ other ∈ ranges, range.Before other) {other : Range}
    (hmem : other ∈ ranges) : range.stop ≤ other.start := by
  have hafter : range.start ≤ other.start := by
    rcases hsorted other hmem with hbefore | ⟨hsame, -⟩
    · exact hbefore.le
    · exact hsame.le
  obtain ⟨-, hother, -⟩ :=
    htiles.inside other (List.mem_cons_of_mem range hmem)
  by_contra hinside
  have hlt := not_le.mp hinside
  rcases hother.lt_or_eq with hlong | hempty
  · have hdisjoint := List.rel_of_pairwise_cons htiles.disjoint hmem
    exact hdisjoint other.start ⟨hafter, hlt⟩ ⟨le_rfl, hlong⟩
  · rcases hafter.lt_or_eq with hsplit | hsame
    · exact hsettled other (List.mem_cons_of_mem range hmem) range
        List.mem_cons_self ⟨hempty, hsplit, hlt⟩
    · rcases hsorted other hmem with hbefore | ⟨-, hstop⟩
      · exact absurd hsame hbefore.ne
      · exact absurd (hstop.trans hempty.ge) (not_le.mpr hlt)

theorem Tiles.tail (htiles : Tiles first last (range :: ranges))
    (hsettled : Settled (range :: ranges))
    (hsorted : ∀ other ∈ ranges, range.Before other) :
    Tiles range.stop last ranges where
  bounds := (htiles.inside range List.mem_cons_self).2.2
  inside := fun other hmem =>
    ⟨htiles.stop_le hsettled hsorted hmem,
      (htiles.inside other (List.mem_cons_of_mem range hmem)).2⟩
  disjoint := (List.pairwise_cons.mp htiles.disjoint).2
  covered := by
    intro offset hfirst hlast
    obtain ⟨hlow, hstart, -⟩ := htiles.inside range List.mem_cons_self
    obtain ⟨other, hmem, hcovers⟩ :=
      htiles.covered offset (hlow.trans (hstart.trans hfirst)) hlast
    rcases List.mem_cons.mp hmem with rfl | hrest
    · exact absurd hfirst (not_le.mpr hcovers.2)
    · exact ⟨other, hrest, hcovers⟩

/-- The sweep over sorted ranges succeeds exactly when they tile the interval
and are settled. -/
theorem sweep_eq_some_iff (hsorted : ranges.Pairwise Range.Before)
    (hvalid : ∀ range ∈ ranges, range.start ≤ range.stop) :
    sweep first ranges = some last ↔
      Tiles first last ranges ∧ Settled ranges := by
  refine ⟨tiles_of_sweep hvalid, ?_⟩
  rintro ⟨htiles, hsettled⟩
  induction ranges generalizing first with
  | nil =>
      rcases htiles.bounds.lt_or_eq with hlt | heq
      · obtain ⟨range, hmem, -⟩ := htiles.covered first le_rfl hlt
        exact absurd hmem List.not_mem_nil
      · rw [sweep, heq]
  | cons range ranges ih =>
      obtain ⟨hbefore, hrest⟩ := List.pairwise_cons.mp hsorted
      rw [sweep, if_pos (htiles.start_eq hbefore)]
      exact ih hrest (fun other hmem =>
          hvalid other (List.mem_cons_of_mem range hmem))
        (htiles.tail hsettled hbefore) fun inner hinner outer houter =>
          hsettled inner (List.mem_cons_of_mem range hinner) outer
            (List.mem_cons_of_mem range houter)

def Range.shift (amount : ℤ) (range : Range) : Range where
  start := amount + range.start
  stop := amount + range.stop

theorem sweep_shift (amount : ℤ) :
    sweep (amount + cursor) (ranges.map (Range.shift amount)) =
      (sweep cursor ranges).map (amount + ·) := by
  induction ranges generalizing cursor with
  | nil => rfl
  | cons range ranges ih =>
      have hstart : (range.shift amount).start = amount + cursor ↔
          range.start = cursor := Int.add_right_inj amount
      rw [List.map_cons, sweep, sweep]
      by_cases hcursor : range.start = cursor
      · rw [if_pos (hstart.mpr hcursor), if_pos hcursor]
        exact ih
      · rw [if_neg (mt hstart.mp hcursor), if_neg hcursor]
        rfl

/-- Both properties do not depend on the order of the ranges. -/
theorem tiles_perm {ranges' : List Range} (hperm : ranges.Perm ranges') :
    Tiles first last ranges ↔ Tiles first last ranges' := by
  suffices hone : ∀ {left right : List Range}, left.Perm right →
      Tiles first last left → Tiles first last right from
    ⟨hone hperm, hone hperm.symm⟩
  intro left right hsame htiles
  refine ⟨htiles.bounds, ?_, ?_, ?_⟩
  · exact fun range hmem => htiles.inside range (hsame.mem_iff.mpr hmem)
  · exact hsame.pairwise htiles.disjoint fun {_ _} => Range.Disjoint.symm
  · intro offset hfirst hlast
    obtain ⟨range, hmem, hcovers⟩ := htiles.covered offset hfirst hlast
    exact ⟨range, hsame.mem_iff.mp hmem, hcovers⟩

theorem settled_perm {ranges' : List Range} (hperm : ranges.Perm ranges') :
    Settled ranges ↔ Settled ranges' := by
  simp only [Settled, hperm.mem_iff]

end GlmFlash.Library
