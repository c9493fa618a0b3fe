import GlmFlash.Library.CeilDiv
import Mathlib.Logic.Function.Basic
import Mathlib.Data.List.Range

/-!
# Grids of programs over tensors

A launch runs one program for each index of a grid, in any order.  A program
stores values lane by lane; a masked loop over blocks of lanes visits exactly
the lanes below its bound.  When every program keeps what the others rely on,
what each program establishes holds after the launch, whatever the order.
-/

namespace GlmFlash.Library

/-! ## Stores -/

section Stores

variable {V : Type*}

/-- One store for each lane. -/
def storeLanes (tensor : ℤ → V) (lanes : List ℕ) (addr : ℕ → ℤ)
    (value : ℕ → V) : ℤ → V :=
  lanes.foldl
    (fun tensor lane => Function.update tensor (addr lane) (value lane)) tensor

/-- The lanes that a loop over blocks visits under the mask `lane < count`. -/
def blockLanes (count blockSize : ℕ) : List ℕ :=
  (List.range (cdiv count blockSize)).flatMap fun block =>
    ((List.range blockSize).map fun lane => block * blockSize + lane).filter
      fun lane => decide (lane < count)

/-- The lanes of one block under the mask `lane < count`. -/
def maskedLanes (count : ℤ) (blockSize : ℕ) : List ℕ :=
  (List.range blockSize).filter fun lane => decide ((lane : ℤ) < count)

theorem storeLanes_of_ne {tensor : ℤ → V} {lanes : List ℕ} {addr : ℕ → ℤ}
    {value : ℕ → V} {cell : ℤ} (hne : ∀ lane ∈ lanes, cell ≠ addr lane) :
    storeLanes tensor lanes addr value cell = tensor cell := by
  induction lanes generalizing tensor with
  | nil => rfl
  | cons lane lanes ih =>
      have hrest : ∀ other ∈ lanes, cell ≠ addr other := fun other hmem =>
        hne other (List.mem_cons_of_mem lane hmem)
      calc storeLanes tensor (lane :: lanes) addr value cell
          = Function.update tensor (addr lane) (value lane) cell := ih hrest
        _ = tensor cell :=
          Function.update_of_ne (hne lane List.mem_cons_self) _ _

/-- Lanes with different addresses do not overwrite each other. -/
theorem storeLanes_apply {tensor : ℤ → V} {lanes : List ℕ} {addr : ℕ → ℤ}
    {value : ℕ → V} (hinj : Function.Injective addr) {lane : ℕ}
    (hmem : lane ∈ lanes) :
    storeLanes tensor lanes addr value (addr lane) = value lane := by
  induction lanes generalizing tensor with
  | nil => cases hmem
  | cons head lanes ih =>
      by_cases hrest : lane ∈ lanes
      · exact ih hrest
      · have hhead : lane = head := (List.mem_cons.mp hmem).resolve_right hrest
        subst hhead
        have hne : ∀ other ∈ lanes, addr lane ≠ addr other := by
          intro other hother heq
          exact hrest (hinj heq ▸ hother)
        calc storeLanes tensor (lane :: lanes) addr value (addr lane)
            = Function.update tensor (addr lane) (value lane) (addr lane) :=
              storeLanes_of_ne hne
          _ = value lane := Function.update_self _ _ _

theorem mem_blockLanes {count blockSize lane : ℕ} (hblock : 0 < blockSize) :
    lane ∈ blockLanes count blockSize ↔ lane < count := by
  simp only [blockLanes, List.mem_flatMap, List.mem_range, List.mem_filter,
    List.mem_map, decide_eq_true_eq]
  constructor
  · rintro ⟨block, -, -, hlt⟩
    exact hlt
  · intro hlt
    have hsplit : lane / blockSize * blockSize + lane % blockSize = lane := by
      rw [Nat.mul_comm]
      exact Nat.div_add_mod lane blockSize
    have hblockLt : lane / blockSize < cdiv count blockSize := by
      rw [lt_cdiv_iff hblock]
      exact (Nat.mul_div_le lane blockSize).trans_lt hlt
    exact ⟨lane / blockSize, hblockLt,
      ⟨lane % blockSize, Nat.mod_lt lane hblock, hsplit⟩, hlt⟩

/-- A masked loop over one segment changes the cells of the segment. -/
theorem storeLanes_segment {tensor : ℤ → V} {base count blockSize : ℕ}
    (hblock : 0 < blockSize) {value : ℕ → V} (cell : ℕ) :
    storeLanes tensor (blockLanes count blockSize) (fun lane => (base + lane : ℕ)) value cell =
      if base ≤ cell ∧ cell < base + count then value (cell - base) else tensor cell := by
  have hinjective : Function.Injective fun lane => ((base + lane : ℕ) : ℤ) :=
    fun _ _ heq => Nat.add_left_cancel (Int.ofNat_inj.mp heq)
  by_cases hcell : base ≤ cell ∧ cell < base + count
  · obtain ⟨lane, rfl⟩ := Nat.exists_eq_add_of_le hcell.1
    have hlane : lane < count := Nat.lt_of_add_lt_add_left hcell.2
    rw [if_pos hcell, Nat.add_sub_cancel_left]
    exact storeLanes_apply hinjective ((mem_blockLanes hblock).mpr hlane)
  · rw [if_neg hcell]
    refine storeLanes_of_ne fun lane hlane heq => hcell ?_
    rw [mem_blockLanes hblock] at hlane
    rw [Int.ofNat_inj.mp heq]
    exact ⟨Nat.le_add_right _ _, Nat.add_lt_add_left hlane _⟩

theorem mem_maskedLanes {count : ℤ} {blockSize lane : ℕ} :
    lane ∈ maskedLanes count blockSize ↔ lane < blockSize ∧ (lane : ℤ) < count := by
  rw [maskedLanes, List.mem_filter, List.mem_range, decide_eq_true_eq]

end Stores

/-! ## Launches -/

section Launches

variable {S : Type*}

/-- The programs of a grid, in some order. -/
def launch (order : List ℕ) (program : ℕ → S → S) (state : S) : S :=
  order.foldl (fun state index => program index state) state

variable {order : List ℕ} {program : ℕ → S → S} {fresh done : ℕ → S → Prop}

/-- What every program keeps, started where its own part is untouched, holds
after the launch. -/
theorem launch_keeps {kept : S → Prop} (hnodup : order.Nodup)
    (hfresh : ∀ index ∈ order, ∀ other ∈ order, other ≠ index → ∀ state,
      fresh index state → fresh other state →
        fresh other (program index state))
    (hkept : ∀ index ∈ order, ∀ state, fresh index state → kept state →
      kept (program index state))
    {state : S} (hstart : ∀ index ∈ order, fresh index state)
    (hbefore : kept state) : kept (launch order program state) := by
  induction order generalizing state with
  | nil => exact hbefore
  | cons index order ih =>
      have hhead : fresh index state := hstart index List.mem_cons_self
      have hnotin : index ∉ order := (List.nodup_cons.mp hnodup).1
      refine ih (List.nodup_cons.mp hnodup).2 ?_ ?_ ?_ ?_
      · intro index' hindex other hother
        exact hfresh index' (List.mem_cons_of_mem _ hindex) other
          (List.mem_cons_of_mem _ hother)
      · intro index' hindex
        exact hkept index' (List.mem_cons_of_mem _ hindex)
      · intro other hother
        have hne : other ≠ index := fun heq => hnotin (heq ▸ hother)
        exact hfresh index List.mem_cons_self other
          (List.mem_cons_of_mem _ hother) hne state hhead
          (hstart other (List.mem_cons_of_mem _ hother))
      · exact hkept index List.mem_cons_self state hhead hbefore

/-- What each program establishes on its own part holds after the launch, if
the other programs leave it alone. -/
theorem launch_establishes (hnodup : order.Nodup)
    (hfresh : ∀ index ∈ order, ∀ other ∈ order, other ≠ index → ∀ state,
      fresh index state → fresh other state →
        fresh other (program index state))
    (hdone : ∀ index ∈ order, ∀ other ∈ order, other ≠ index → ∀ state,
      fresh index state → done other state → done other (program index state))
    (hown : ∀ index ∈ order, ∀ state, fresh index state →
      done index (program index state))
    {state : S} (hstart : ∀ index ∈ order, fresh index state) {index : ℕ}
    (hmem : index ∈ order) : done index (launch order program state) := by
  induction order generalizing state with
  | nil => cases hmem
  | cons head order ih =>
      have hnotin : head ∉ order := (List.nodup_cons.mp hnodup).1
      have hnodup' : order.Nodup := (List.nodup_cons.mp hnodup).2
      have hhead : fresh head state := hstart head List.mem_cons_self
      have hfresh' : ∀ index ∈ order, ∀ other ∈ order, other ≠ index →
          ∀ state, fresh index state → fresh other state →
            fresh other (program index state) := by
        intro index' hindex other hother
        exact hfresh index' (List.mem_cons_of_mem _ hindex) other
          (List.mem_cons_of_mem _ hother)
      have hrest : ∀ other ∈ order, fresh other (program head state) := by
        intro other hother
        have hne : other ≠ head := fun heq => hnotin (heq ▸ hother)
        exact hfresh head List.mem_cons_self other
          (List.mem_cons_of_mem _ hother) hne state hhead
          (hstart other (List.mem_cons_of_mem _ hother))
      rcases List.mem_cons.mp hmem with rfl | htail
      · -- The head is done at once, and the later programs leave it so.
        refine launch_keeps hnodup' hfresh' ?_ hrest
          (hown index List.mem_cons_self state hhead)
        intro later hlater state' hlate hdoneState
        have hne : index ≠ later := fun heq => hnotin (heq ▸ hlater)
        exact hdone later (List.mem_cons_of_mem _ hlater) index
          List.mem_cons_self hne state' hlate hdoneState
      · refine ih hnodup' hfresh' ?_ ?_ hrest htail
        · intro index' hindex other hother
          exact hdone index' (List.mem_cons_of_mem _ hindex) other
            (List.mem_cons_of_mem _ hother)
        · intro index' hindex
          exact hown index' (List.mem_cons_of_mem _ hindex)

end Launches

end GlmFlash.Library
