import Mathlib.Data.List.Induction

/-!
# Chained hashes

A list of blocks is hashed block by block, each hash taking the one before it
as its parent.  When a step reveals its parent and its block, one hash of the
chain pins down every block up to it.  Blocks are cut off a list in slices of
one size; agreeing on the first slices is agreeing on a prefix.
-/

namespace GlmFlash.Library

variable {P X A : Type*}

/-- The hashes of `blocks`, each one hashed onto the one before it. -/
def chain (step : P → X → P) : P → List X → List P
  | _, [] => []
  | parent, block :: blocks =>
      step parent block :: chain step (step parent block) blocks

variable {step : P → X → P}

@[simp]
theorem length_chain (parent : P) (blocks : List X) :
    (chain step parent blocks).length = blocks.length := by
  induction blocks generalizing parent with
  | nil => rfl
  | cons block blocks ih => simp [chain, ih]

theorem chain_append (parent : P) (blocks later : List X) :
    chain step parent (blocks ++ later) =
      chain step parent blocks ++
        chain step (blocks.foldl step parent) later := by
  induction blocks generalizing parent with
  | nil => rfl
  | cons block blocks ih => simp [chain, ih]

theorem chain_getElem? (parent : P) {blocks : List X} {index : ℕ}
    (hindex : index < blocks.length) :
    (chain step parent blocks)[index]? =
      some ((blocks.take (index + 1)).foldl step parent) := by
  induction blocks generalizing parent index with
  | nil => simp at hindex
  | cons block blocks ih =>
      cases index with
      | zero => simp [chain]
      | succ index =>
          simp only [List.length_cons, Nat.add_lt_add_iff_right] at hindex
          simpa [chain] using ih (step parent block) hindex

theorem getLast?_chain (parent : P) {blocks : List X} (hblocks : blocks ≠ []) :
    (chain step parent blocks).getLast? = some (blocks.foldl step parent) := by
  have hpos : 0 < blocks.length := List.length_pos_iff.mpr hblocks
  have hindex : blocks.length - 1 < blocks.length := by omega
  have hlength : blocks.length - 1 + 1 = blocks.length := by omega
  rw [List.getLast?_eq_getElem?, length_chain, chain_getElem? parent hindex,
    hlength, List.take_length]

/-- A hash reveals its block, and its parent when that is a hash itself. -/
structure Revealing (step : P → X → P) (start : P) : Prop where
  first : ∀ block block', step start block = step start block' →
    block = block'
  next : ∀ parent block parent' block' later later',
    step (step parent block) later = step (step parent' block') later' →
    step parent block = step parent' block' ∧ later = later'

theorem Revealing.foldl_injective {start : P} (hstep : Revealing step start)
    {blocks blocks' : List X} (hlength : blocks.length = blocks'.length)
    (hhash : blocks.foldl step start = blocks'.foldl step start) :
    blocks = blocks' := by
  induction blocks using List.reverseRecOn generalizing blocks' with
  | nil => exact (List.length_eq_zero_iff.mp hlength.symm).symm
  | append_singleton blocks block ih =>
      cases blocks' using List.reverseRecOn with
      | nil => simp at hlength
      | append_singleton blocks' block' _ =>
          simp only [List.length_append, List.length_singleton,
            Nat.add_right_cancel_iff] at hlength
          simp only [List.foldl_append, List.foldl_cons, List.foldl_nil]
            at hhash
          cases blocks using List.reverseRecOn with
          | nil =>
              have hempty : blocks' = [] :=
                List.length_eq_zero_iff.mp hlength.symm
              rw [hempty] at hhash ⊢
              rw [hstep.first _ _ hhash]
          | append_singleton earlier before _ =>
              cases blocks' using List.reverseRecOn with
              | nil => simp at hlength
              | append_singleton earlier' before' =>
                  have hparents : (earlier ++ [before]).foldl step start =
                      (earlier' ++ [before']).foldl step start := by
                    simp only [List.foldl_append, List.foldl_cons,
                      List.foldl_nil] at hhash ⊢
                    exact (hstep.next _ _ _ _ _ _ hhash).1
                  have hlast : block = block' := by
                    simp only [List.foldl_append, List.foldl_cons,
                      List.foldl_nil] at hhash
                    exact (hstep.next _ _ _ _ _ _ hhash).2
                  rw [ih hlength hparents, hlast]

/-- Equal hashes at one position are equal blocks up to it. -/
theorem Revealing.chain_getElem?_eq_iff {start : P}
    (hstep : Revealing step start) {blocks blocks' : List X} {index : ℕ}
    (hindex : index < blocks.length) (hindex' : index < blocks'.length) :
    (chain step start blocks)[index]? = (chain step start blocks')[index]? ↔
      blocks.take (index + 1) = blocks'.take (index + 1) := by
  rw [chain_getElem? start hindex, chain_getElem? start hindex',
    Option.some_inj]
  constructor
  · intro hhash
    apply hstep.foldl_injective _ hhash
    rw [List.length_take, List.length_take]
    omega
  · intro hblocks
    rw [hblocks]

theorem Revealing.chain_injective {start : P} (hstep : Revealing step start)
    {blocks blocks' : List X}
    (hchain : chain step start blocks = chain step start blocks') :
    blocks = blocks' := by
  have hlength : blocks.length = blocks'.length := by
    rw [← length_chain start blocks, hchain, length_chain]
  cases hlast : blocks.length with
  | zero =>
      rw [hlast] at hlength
      rw [List.length_eq_zero_iff.mp hlast,
        List.length_eq_zero_iff.mp hlength.symm]
  | succ index =>
      have hindex : index < blocks.length := by omega
      have hindex' : index < blocks'.length := by omega
      have hblocks := (hstep.chain_getElem?_eq_iff hindex hindex').mp
        (by rw [hchain])
      rwa [List.take_of_length_le (by omega),
        List.take_of_length_le (by omega)] at hblocks

/-- The part of a list from `start` up to `stop`. -/
def slice (items : List A) (start stop : ℕ) : List A :=
  (items.drop start).take (stop - start)

theorem slice_append_right {items later : List A} {start stop : ℕ}
    (hstop : stop ≤ items.length) :
    slice (items ++ later) start stop = slice items start stop := by
  rw [slice, slice, List.drop_append]
  rw [List.take_append_of_le_length]
  rw [List.length_drop]
  omega

theorem take_eq_iff_slices {items items' : List A} {size count : ℕ} :
    items.take (count * size) = items'.take (count * size) ↔
      ∀ index < count, slice items (index * size) ((index + 1) * size) =
        slice items' (index * size) ((index + 1) * size) := by
  constructor
  · intro htake index hindex
    have hstop : (index + 1) * size ≤ count * size :=
      Nat.mul_le_mul_right size hindex
    have hslice : ∀ list : List A,
        slice list (index * size) ((index + 1) * size) =
          slice (list.take (count * size)) (index * size)
            ((index + 1) * size) := by
      intro list
      rw [slice, slice, List.drop_take, List.take_take]
      congr 1
      omega
    rw [hslice items, hslice items', htake]
  · intro hslices
    induction count with
    | zero => simp
    | succ count ih =>
        have hlast := hslices count (Nat.lt_succ_self count)
        have hwidth : (count + 1) * size - count * size = size := by
          rw [Nat.succ_mul, Nat.add_sub_cancel_left]
        rw [slice, slice, hwidth] at hlast
        rw [Nat.succ_mul, List.take_add, List.take_add, hlast,
          ih fun index hindex => hslices index (Nat.lt_succ_of_lt hindex)]

end GlmFlash.Library
