import GlmFlash.Cache.Ledger
import Mathlib.Algebra.Order.BigOperators.Group.List

/-!
# What a request holds

The blocks of a request in all groups, and the endpoints of the copies that are
still pending.  An operation keeps hold of a block when the block stays with
its request or becomes an endpoint of a pending copy; only the release of
skipped blocks and the freeing of a request let go of any.
-/

set_option linter.unusedSectionVars false

namespace GlmFlash.Cache.KVCacheManager

open GlmFlash.Library
open SingleTypeKVCacheManager (Retains Drops)

variable {R H : Type} [DecidableEq R] [DecidableEq H]

theorem cowEndpoints_eq (self : KVCacheManager R H) :
    self.cowEndpoints = self.singleTypeManagers.flatMap fun manager =>
      endpoints manager.pendingCowCopies := by
  simp only [cowEndpoints, takeKvCacheBlockCopies, endpoints,
    List.flatMap_assoc]

theorem mem_cowEndpoints {self : KVCacheManager R H} {block : BlockId} :
    block ∈ self.cowEndpoints ↔ ∃ manager ∈ self.singleTypeManagers,
      block ∈ endpoints manager.pendingCowCopies := by
  rw [cowEndpoints_eq, List.mem_flatMap]

/-- Every request but the exempt ones keeps hold of its blocks. -/
structure Keeps (exempt : R → Prop) (before after : KVCacheManager R H) :
    Prop where
  row : ∀ requestId, ¬exempt requestId →
    ∀ block ∈ before.requestBlocks requestId, block ≠ nullBlock →
      block ∈ after.requestBlocks requestId ∨ block ∈ after.cowEndpoints
  cow : ∀ block ∈ before.cowEndpoints, block ∈ after.cowEndpoints

variable {exempt : R → Prop}

theorem Keeps.trans {before middle after : KVCacheManager R H}
    (hfirst : Keeps exempt before middle)
    (hsecond : Keeps exempt middle after) : Keeps exempt before after where
  row requestId hexempt block hmem hnull := by
    cases hfirst.row requestId hexempt block hmem hnull with
    | inl hrow => exact hsecond.row requestId hexempt block hrow hnull
    | inr hcow => exact .inr (hsecond.cow block hcow)
  cow block hmem := hsecond.cow block (hfirst.cow block hmem)

/-- The same tables and pending copies. -/
theorem keeps_of_forall₂ {before after : KVCacheManager R H}
    (hgroups : List.Forall₂ (fun manager manager' =>
      manager'.reqToBlocks = manager.reqToBlocks ∧
        manager'.pendingCowCopies = manager.pendingCowCopies)
      before.singleTypeManagers after.singleTypeManagers) :
    Keeps exempt before after where
  row requestId _ block hmem _ := by
    obtain ⟨manager, hmanager, hblock⟩ := List.mem_flatMap.mp hmem
    obtain ⟨manager', hmanager', hsame⟩ := forall₂_mem_left hgroups hmanager
    refine .inl (List.mem_flatMap.mpr ⟨manager', hmanager', ?_⟩)
    rwa [SingleTypeKVCacheManager.blocks, hsame.1]
  cow block hmem := by
    obtain ⟨manager, hmanager, hblock⟩ := mem_cowEndpoints.mp hmem
    obtain ⟨manager', hmanager', hsame⟩ := forall₂_mem_left hgroups hmanager
    refine mem_cowEndpoints.mpr ⟨manager', hmanager', ?_⟩
    rwa [hsame.2]

theorem Conserves.keeps {before after : KVCacheManager R H}
    (hstage : Conserves Retains before after) : Keeps exempt before after where
  row requestId _ block hmem hnull := by
    obtain ⟨manager, hmanager, hblock⟩ := List.mem_flatMap.mp hmem
    obtain ⟨manager', hmanager', hretains⟩ :=
      forall₂_mem_left hstage.groups hmanager
    cases hretains.row requestId block hblock hnull with
    | inl hrow =>
        exact .inl (List.mem_flatMap.mpr ⟨manager', hmanager', hrow⟩)
    | inr hcow =>
        exact .inr (mem_cowEndpoints.mpr ⟨manager', hmanager', hcow⟩)
  cow block hmem := by
    obtain ⟨manager, hmanager, hblock⟩ := mem_cowEndpoints.mp hmem
    obtain ⟨manager', hmanager', hretains⟩ :=
      forall₂_mem_left hstage.groups hmanager
    exact mem_cowEndpoints.mpr
      ⟨manager', hmanager', hretains.pending block hblock⟩

theorem Conserves.keeps_others {before after : KVCacheManager R H}
    {owner : R} (hstage : Conserves (Drops owner) before after) :
    Keeps (fun requestId => requestId = owner) before after where
  row requestId hother block hmem _ := by
    obtain ⟨manager, hmanager, hblock⟩ := List.mem_flatMap.mp hmem
    obtain ⟨manager', hmanager', hdrops⟩ :=
      forall₂_mem_left hstage.groups hmanager
    refine .inl (List.mem_flatMap.mpr ⟨manager', hmanager', ?_⟩)
    rwa [hdrops.row_ne requestId hother]
  cow block hmem := by
    obtain ⟨manager, hmanager, hblock⟩ := mem_cowEndpoints.mp hmem
    obtain ⟨manager', hmanager', hdrops⟩ :=
      forall₂_mem_left hstage.groups hmanager
    refine mem_cowEndpoints.mpr ⟨manager', hmanager', ?_⟩
    rwa [hdrops.pending_eq]

theorem allocateSlots_keeps {self self' : KVCacheManager R H}
    {call : SlotsCall R H} {result : Option (List (List BlockId))}
    (hrun : self.allocateSlots call = .ok (self', result)) :
    Keeps (fun requestId => requestId = call.requestId) self self' := by
  obtain ⟨gated, released, hgated, hreleased, hfinal⟩ :=
    allocateSlots_conserves hrun
  exact (hgated.keeps.trans hreleased.keeps_others).trans hfinal.keeps

theorem allocateSlots_covers {self self' : KVCacheManager R H}
    {call : SlotsCall R H} {result : Option (List (List BlockId))}
    (hrun : self.allocateSlots call = .ok (self', result))
    {frame : BlockId → ℕ} (hcovers : self.Covers frame) :
    self'.Covers frame := by
  obtain ⟨gated, released, hgated, hreleased, hfinal⟩ :=
    allocateSlots_conserves hrun
  exact hfinal.covers _ (hreleased.covers _ (hgated.covers _ hcovers))

theorem pinOffloads_groups {self self' : KVCacheManager R H}
    {entries : List (PartialTailOffload R)}
    (hrun : self.pinOffloads entries = .ok self') :
    self'.singleTypeManagers = self.singleTypeManagers := by
  induction entries generalizing self with
  | nil =>
      simp only [pinOffloads, Except.ok.injEq] at hrun
      rw [hrun]
  | cons entry entries ih =>
      simp only [pinOffloads, bind_eq_ok] at hrun
      obtain ⟨touched, -, hrest⟩ := hrun
      have htail := ih hrest
      exact htail

theorem takePartialTailOffloads_keeps {self self' : KVCacheManager R H}
    {entries : List (PartialTailOffload R)}
    (hrun : self.takePartialTailOffloads = .ok (self', entries)) :
    Keeps exempt self self' := by
  simp only [takePartialTailOffloads, bind_eq_ok, pure_eq_ok,
    Prod.mk.injEq] at hrun
  obtain ⟨_, hpin, rfl, -⟩ := hrun
  apply keeps_of_forall₂
  rw [pinOffloads_groups hpin, List.forall₂_map_right_iff]
  exact List.forall₂_same.mpr fun _ _ => ⟨rfl, rfl⟩

theorem newStepStarts_keeps (self : KVCacheManager R H) :
    Keeps exempt self self.newStepStarts := by
  apply keeps_of_forall₂
  simp only [newStepStarts, List.forall₂_map_right_iff]
  exact List.forall₂_same.mpr fun _ _ => ⟨rfl, rfl⟩

theorem newStepStarts_covers {self : KVCacheManager R H}
    {frame : BlockId → ℕ} (hcovers : self.Covers frame) :
    self.newStepStarts.Covers frame := by
  refine hcovers.congr fun block _ => ?_
  simp only [refs, groupRefs, newStepStarts, List.map_map, Function.comp_def]
  rfl

/-! ## Held blocks are referenced -/

theorem refs_pos_of_requestBlocks {self : KVCacheManager R H}
    {requestId : R} {block : BlockId}
    (hmem : block ∈ self.requestBlocks requestId) : 0 < self.refs block := by
  obtain ⟨manager, hmanager, hblock⟩ := List.mem_flatMap.mp hmem
  have hcount : 0 < (manager.blocks requestId).count block :=
    List.count_pos_iff.mpr hblock
  have hrow : (manager.blocks requestId).count block ≤
      manager.reqToBlocks.occurrences block := Tables.count_row_le _ _ _
  have hgroup : manager.refs block ≤ self.groupRefs block :=
    List.single_le_sum (fun _ _ => Nat.zero_le _) _
      (List.mem_map_of_mem hmanager)
  simp only [SingleTypeKVCacheManager.refs] at hgroup
  simp only [refs]
  omega

theorem refs_pos_of_cowEndpoints {self : KVCacheManager R H}
    {block : BlockId} (hmem : block ∈ self.cowEndpoints) :
    0 < self.refs block := by
  obtain ⟨manager, hmanager, hblock⟩ := mem_cowEndpoints.mp hmem
  have hcount : 0 < (endpoints manager.pendingCowCopies).count block :=
    List.count_pos_iff.mpr hblock
  have hgroup : manager.refs block ≤ self.groupRefs block :=
    List.single_le_sum (fun _ _ => Nat.zero_le _) _
      (List.mem_map_of_mem hmanager)
  simp only [SingleTypeKVCacheManager.refs] at hgroup
  simp only [refs]
  omega

/-! ## Freed requests and taken copies -/

/-- The blocks a request gives up when it is freed. -/
def heldBlocks (self : KVCacheManager R H) (requestId : R) : List BlockId :=
  (self.popBlocksForFree requestId).1

theorem heldBlocks_eq (self : KVCacheManager R H) (requestId : R) :
    self.heldBlocks requestId =
      self.partialTailPins.row requestId ++ self.requestBlocks requestId := by
  simp [heldBlocks, popBlocksForFree, requestBlocks, List.flatMap,
    SingleTypeKVCacheManager.popBlocksForFree, Function.comp_def]

theorem keeps_of_popped {before after : KVCacheManager R H} {owner : R}
    (hgroups : List.Forall₂ (Popped owner) before.singleTypeManagers
      after.singleTypeManagers) :
    Keeps (fun requestId => requestId = owner) before after where
  row requestId hother block hmem _ := by
    obtain ⟨manager, hmanager, hblock⟩ := List.mem_flatMap.mp hmem
    obtain ⟨manager', hmanager', rfl⟩ := forall₂_mem_left hgroups hmanager
    refine .inl (List.mem_flatMap.mpr ⟨_, hmanager', ?_⟩)
    rwa [blocks_popBlocksForFree_ne manager hother]
  cow block hmem := by
    obtain ⟨manager, hmanager, hblock⟩ := mem_cowEndpoints.mp hmem
    obtain ⟨manager', hmanager', rfl⟩ := forall₂_mem_left hgroups hmanager
    exact mem_cowEndpoints.mpr ⟨_, hmanager', hblock⟩

/-- Freeing a request leaves the same references as popping its blocks. -/
theorem free_refs {self self' : KVCacheManager R H} {requestId : R}
    (hrun : self.free requestId = .ok self') (block : BlockId) :
    self'.refs block + (self.heldBlocks requestId).count block =
      self.refs block := by
  have hstage := free_conserves hrun
  have hgroups : self'.singleTypeManagers =
      (self.popBlocksForFree requestId).2.singleTypeManagers := by
    have hpopped : List.Forall₂ (· = ·)
        ((self.unpin requestId).singleTypeManagers.map fun manager =>
          (manager.popBlocksForFree requestId).2)
        self'.singleTypeManagers := by
      rw [List.forall₂_map_left_iff]
      exact hstage.groups.imp fun _ _ hpop => hpop.symm
    rw [List.forall₂_eq_eq_eq] at hpopped
    rw [← hpopped]
    simp only [popBlocksForFree, List.map_map]
    rfl
  have hpins : self'.partialTailPins =
      (self.popBlocksForFree requestId).2.partialTailPins := hstage.pins_eq
  rw [← popBlocksForFree_refs self requestId block]
  simp only [refs, groupRefs, hgroups, hpins, heldBlocks]

theorem requestBlocks_takeKvCacheBlockCopies (self : KVCacheManager R H)
    (requestId : R) :
    self.takeKvCacheBlockCopies.2.requestBlocks requestId =
      self.requestBlocks requestId := by
  simp only [requestBlocks, takeKvCacheBlockCopies, List.flatMap_map]
  rfl

end GlmFlash.Cache.KVCacheManager
