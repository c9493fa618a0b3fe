import GlmFlash.Cache.BlockHash
import Mathlib.Data.List.Basic

/-!
# Hashing a growing request

The block hasher runs when a request is created and after every piece of
generated tokens.  A later run starts its multi-modal cursor at the last
feature, so a block that a later run completes carries no key of an earlier
feature.  With the hashes of a single run the coarser view of a group is the
hash of the group's prefix.
-/

namespace GlmFlash.Cache

open GlmFlash.Library

namespace HashedRequest

variable {Row : Type}

/-- Append what the block hasher returns to `block_hashes`. -/
def updateBlockHashes (request : HashedRequest Row)
    (hasher : BlockHasher Row) : HashedRequest Row :=
  { request with
    blockHashes := request.blockHashes ++ hasher.requestBlockHasher request }

def appendTokens (request : HashedRequest Row) (tokens : List ℕ) :
    HashedRequest Row :=
  { request with allTokenIds := request.allTokenIds ++ tokens }

/-- The request after its creation and some pieces of generated tokens. -/
def grown (request : HashedRequest Row) (hasher : BlockHasher Row)
    (pieces : List (List ℕ)) : HashedRequest Row :=
  pieces.foldl
    (fun grown piece => (grown.appendTokens piece).updateBlockHashes hasher)
    (request.updateBlockHashes hasher)

/-- The request without its hashes, cut to its first tokens. -/
def truncated (request : HashedRequest Row) (count : ℕ) : HashedRequest Row :=
  { request with
    allTokenIds := request.allTokenIds.take count
    blockHashes := [] }

end HashedRequest

/-- The request's hashes are those of one run over all its tokens, and a group
view holds the hashes of the prefixes of the group's blocks. -/
structure HashedFromScratch {Row : Type} (hasher : BlockHasher Row)
    (request : HashedRequest Row) : Prop where
  same : request.blockHashes =
    hasher.requestBlockHasher { request with blockHashes := [] }
  grouped : ∀ targetBlockSize view, 0 < targetBlockSize →
    groupView request.blockHashes hasher.hashBlockSize targetBlockSize =
      some view →
    ∀ index < view.length,
      view.getValueAt index = (hasher.requestBlockHasher
        (request.truncated ((index + 1) * targetBlockSize))).getLast?

namespace HashedRequest

variable {Row : Type}

/-- No later run completes a block that an earlier feature reaches into. -/
def Settled (request : HashedRequest Row) (hasher : BlockHasher Row)
    (pieces : List (List ℕ)) : Prop :=
  request.fullBlocks hasher = 0 ∨
    (request.numTokens + pieces.flatten.length) / hasher.hashBlockSize =
      request.fullBlocks hasher ∨
    ∀ feature ∈ request.mmFeatures.dropLast,
      feature.stop ≤ request.fullBlocks hasher * hasher.hashBlockSize

theorem blockContent_eq_iff_mmKeys {request : HashedRequest Row}
    {hasher : BlockHasher Row} {visible visible' : List MultiModalFeature}
    {index : ℕ} :
    request.blockContent hasher visible index =
        request.blockContent hasher visible' index ↔
      mmKeysOf visible (index * hasher.hashBlockSize)
          ((index + 1) * hasher.hashBlockSize) =
        mmKeysOf visible' (index * hasher.hashBlockSize)
          ((index + 1) * hasher.hashBlockSize) := by
  constructor
  · intro hcontent
    have hkeys := packKeys_injective (Prod.mk.inj hcontent).2
    simpa [joinExtraKeys] using hkeys
  · intro hkeys
    simp only [blockContent, hkeys]

/-- Tokens appended later do not change the content of a full block. -/
theorem blockContent_appendTokens (request : HashedRequest Row)
    (hasher : BlockHasher Row) (tokens : List ℕ)
    (visible : List MultiModalFeature) {index : ℕ}
    (hindex : index < request.fullBlocks hasher) :
    (request.appendTokens tokens).blockContent hasher visible index =
      request.blockContent hasher visible index := by
  have hstop : (index + 1) * hasher.hashBlockSize ≤
      request.allTokenIds.length :=
    (Nat.mul_le_mul_right _ hindex).trans (Nat.div_mul_le_self _ _)
  apply Prod.ext
  · exact slice_append_right hstop
  · rfl

theorem fullBlocks_le_appendTokens (request : HashedRequest Row)
    (hasher : BlockHasher Row) (tokens : List ℕ) :
    request.fullBlocks hasher ≤
      (request.appendTokens tokens).fullBlocks hasher := by
  apply Nat.div_le_div_right
  simp [numTokens, appendTokens]

/-- The content a growing request hashes for a block, when its prompt had
`promptBlocks` full ones. -/
def shownContent (request : HashedRequest Row) (hasher : BlockHasher Row)
    (promptBlocks index : ℕ) : BlockContent :=
  request.blockContent hasher
    (if index < max 1 promptBlocks then request.mmFeatures
      else request.mmFeatures.getLast?.toList) index

/-- What holds of a growing request between two runs. -/
structure Growing (hasher : BlockHasher Row) (promptBlocks : ℕ)
    (request : HashedRequest Row) : Prop where
  hashes : request.blockHashes = chain hasher.link hasher.noneHash
    ((List.range (request.fullBlocks hasher)).map
      (request.shownContent hasher promptBlocks))
  promptBlocks_le : promptBlocks ≤ request.fullBlocks hasher
  ended : promptBlocks = 0 → ∀ feature ∈ request.mmFeatures,
    feature.stop ≤ hasher.hashBlockSize
  inOrder : FeaturesInOrder request.mmFeatures

theorem getD_getLast?_chain {hasher : BlockHasher Row}
    (contents : List BlockContent) :
    (chain hasher.link hasher.noneHash contents).getLast?.getD
        hasher.noneHash =
      contents.foldl hasher.link hasher.noneHash := by
  by_cases hnil : contents = []
  · rw [hnil]
    rfl
  · rw [getLast?_chain hasher.noneHash hnil]
    rfl

section Growing

variable {hasher : BlockHasher Row} {request : HashedRequest Row}
  (hsize : 0 < hasher.hashBlockSize)
include hsize

/-- A run that sees for each new block what is to be shown extends the
chain. -/
theorem updateBlockHashes_blockHashes
    (horder : FeaturesInOrder request.mmFeatures) {done : ℕ}
    {content : ℕ → BlockContent}
    (hdone : request.blockHashes = chain hasher.link hasher.noneHash
      ((List.range done).map content))
    (hle : done ≤ request.fullBlocks hasher)
    (hseen : ∀ index, done ≤ index → index < request.fullBlocks hasher →
      content index = request.blockContent hasher
        (BlockHasher.visibleAfter request done) index) :
    (request.updateBlockHashes hasher).blockHashes =
      chain hasher.link hasher.noneHash
        ((List.range (request.fullBlocks hasher)).map content) := by
  have hlength : request.blockHashes.length = done := by
    rw [hdone, length_chain, List.length_map, List.length_range]
  have hnew : (List.range' done (request.fullBlocks hasher - done)).map
        (request.blockContent hasher
          (BlockHasher.visibleAfter request done)) =
      (List.range' done (request.fullBlocks hasher - done)).map content := by
    apply List.map_congr_left
    intro index hindex
    rw [List.mem_range'_1] at hindex
    exact (hseen index hindex.1 (by omega)).symm
  have hsplit : List.range (request.fullBlocks hasher) =
      List.range done ++
        List.range' done (request.fullBlocks hasher - done) := by
    have happend : List.range' 0 done ++
          List.range' (0 + done) (request.fullBlocks hasher - done) =
        List.range' 0 (done + (request.fullBlocks hasher - done)) :=
      List.range'_append_1
    rw [Nat.zero_add, Nat.add_sub_cancel' hle] at happend
    rw [List.range_eq_range', List.range_eq_range', happend]
  simp only [updateBlockHashes]
  rw [BlockHasher.requestBlockHasher_eq_chain hsize horder, hlength, hnew,
    hdone, getD_getLast?_chain, ← chain_append, ← List.map_append, hsplit]

theorem growing_created (horder : FeaturesInOrder request.mmFeatures)
    (hinside : ∀ feature ∈ request.mmFeatures, feature.stop ≤ request.numTokens)
    (hcreated : request.blockHashes = []) :
    Growing hasher (request.fullBlocks hasher)
      (request.updateBlockHashes hasher) where
  hashes := by
    have hold : request.blockHashes = chain hasher.link hasher.noneHash
        ((List.range 0).map (request.shownContent hasher
          (request.fullBlocks hasher))) := hcreated
    refine updateBlockHashes_blockHashes hsize horder hold (Nat.zero_le _) ?_
    intro index _ hindex
    have hfirst : index < max 1 (request.fullBlocks hasher) :=
      Nat.lt_of_lt_of_le hindex (Nat.le_max_right _ _)
    rw [shownContent, if_pos hfirst]
    rfl
  promptBlocks_le := le_refl _
  ended := by
    intro hnone feature hmem
    rw [fullBlocks, Nat.div_eq_zero_iff] at hnone
    have hshort : request.numTokens < hasher.hashBlockSize :=
      hnone.resolve_left (Nat.pos_iff_ne_zero.mp hsize)
    exact (hinside feature hmem).trans (Nat.le_of_lt hshort)
  inOrder := horder

/-- One piece of generated tokens and the run after it. -/
theorem Growing.step {promptBlocks : ℕ}
    (hgrowing : Growing hasher promptBlocks request) (tokens : List ℕ) :
    Growing hasher promptBlocks
      ((request.appendTokens tokens).updateBlockHashes hasher) where
  hashes := by
    have hle := fullBlocks_le_appendTokens request hasher tokens
    have hold : (request.appendTokens tokens).blockHashes =
        chain hasher.link hasher.noneHash
          ((List.range (request.fullBlocks hasher)).map
            ((request.appendTokens tokens).shownContent hasher
              promptBlocks)) := by
      have hkept : (List.range (request.fullBlocks hasher)).map
            (request.shownContent hasher promptBlocks) =
          (List.range (request.fullBlocks hasher)).map
            ((request.appendTokens tokens).shownContent hasher
              promptBlocks) := by
        apply List.map_congr_left
        intro index hindex
        exact (blockContent_appendTokens request hasher tokens _
          (List.mem_range.mp hindex)).symm
      rw [← hkept]
      exact hgrowing.hashes
    have horder : FeaturesInOrder (request.appendTokens tokens).mmFeatures :=
      hgrowing.inOrder
    refine updateBlockHashes_blockHashes hsize horder hold hle ?_
    intro index hdone _
    rw [shownContent]
    by_cases hearly : index < max 1 promptBlocks
    · -- nothing was hashed before: the run starts at the first block
      have hnone : request.fullBlocks hasher = 0 := by
        have hprompt := hgrowing.promptBlocks_le
        omega
      rw [if_pos hearly, hnone]
      rfl
    · rw [if_neg hearly]
      by_cases hnone : request.fullBlocks hasher = 0
      · -- the prompt ends in the first block, and so do its features
        have hprompt : promptBlocks = 0 := by
          have hle := hgrowing.promptBlocks_le
          omega
        have hstart : hasher.hashBlockSize ≤ index * hasher.hashBlockSize :=
          Nat.le_mul_of_pos_left _ (by omega)
        rw [hnone]
        change (request.appendTokens tokens).blockContent hasher
            request.mmFeatures.getLast?.toList index =
          (request.appendTokens tokens).blockContent hasher
            request.mmFeatures index
        rw [blockContent_eq_iff_mmKeys, mmKeysOf_eq_nil, mmKeysOf_eq_nil]
        · intro feature hmem
          exact Or.inr ((hgrowing.ended hprompt feature hmem).trans hstart)
        · intro feature hmem
          have hmem' := List.mem_of_getLast? (Option.mem_toList.mp hmem)
          exact Or.inr ((hgrowing.ended hprompt feature hmem').trans hstart)
      · rw [BlockHasher.visibleAfter, if_neg hnone]
        rfl
  promptBlocks_le := hgrowing.promptBlocks_le.trans
    (fullBlocks_le_appendTokens request hasher tokens)
  ended := hgrowing.ended
  inOrder := hgrowing.inOrder

theorem growing_grown (horder : FeaturesInOrder request.mmFeatures)
    (hinside : ∀ feature ∈ request.mmFeatures, feature.stop ≤ request.numTokens)
    (hcreated : request.blockHashes = []) (pieces : List (List ℕ)) :
    Growing hasher (request.fullBlocks hasher)
      (request.grown hasher pieces) := by
  have hrun : ∀ current, Growing hasher (request.fullBlocks hasher) current →
      Growing hasher (request.fullBlocks hasher)
        (pieces.foldl (fun grown piece =>
          (grown.appendTokens piece).updateBlockHashes hasher) current) := by
    induction pieces with
    | nil =>
        intro current hcurrent
        exact hcurrent
    | cons piece pieces ih =>
        intro current hcurrent
        exact ih _ (hcurrent.step hsize piece)
  exact hrun _ (growing_created hsize horder hinside hcreated)

end Growing

/-- Growth only appends tokens and hashes. -/
theorem grown_eq (request : HashedRequest Row) (hasher : BlockHasher Row)
    (pieces : List (List ℕ)) :
    request.grown hasher pieces =
      { request with
        allTokenIds := request.allTokenIds ++ pieces.flatten
        blockHashes := (request.grown hasher pieces).blockHashes } := by
  have hrun : ∀ current : HashedRequest Row, ∃ hashes,
      pieces.foldl (fun grown piece =>
          (grown.appendTokens piece).updateBlockHashes hasher) current =
        { current with
          allTokenIds := current.allTokenIds ++ pieces.flatten
          blockHashes := hashes } := by
    induction pieces with
    | nil =>
        intro current
        exact ⟨current.blockHashes, by simp⟩
    | cons piece pieces ih =>
        intro current
        cases ih ((current.appendTokens piece).updateBlockHashes hasher) with
        | intro hashes hgrown =>
            refine ⟨hashes, ?_⟩
            rw [List.foldl_cons, hgrown]
            simp [updateBlockHashes, appendTokens]
  cases hrun (request.updateBlockHashes hasher) with
  | intro hashes hgrown =>
      rw [grown, hgrown]
      rfl

theorem mmKeysOf_split_last (features : List MultiModalFeature)
    (startTokenIdx endTokenIdx : ℕ) :
    mmKeysOf features startTokenIdx endTokenIdx =
      mmKeysOf features.dropLast startTokenIdx endTokenIdx ++
        mmKeysOf features.getLast?.toList startTokenIdx endTokenIdx := by
  rw [← mmKeysOf_append]
  cases hlast : features.getLast? with
  | none => simp [List.getLast?_eq_none_iff.mp hlast]
  | some last =>
      rw [Option.toList_some, List.dropLast_append_getLast? last hlast]

theorem mmKeysOf_last_eq_iff {features : List MultiModalFeature}
    {startTokenIdx endTokenIdx : ℕ} :
    mmKeysOf features.getLast?.toList startTokenIdx endTokenIdx =
        mmKeysOf features startTokenIdx endTokenIdx ↔
      ∀ feature ∈ features.dropLast,
        feature.overlaps startTokenIdx endTokenIdx = false := by
  rw [mmKeysOf_split_last features, List.self_eq_append_left, mmKeysOf,
    List.map_eq_nil_iff, List.filter_eq_nil_iff]
  simp only [Bool.not_eq_true]

theorem fullBlocks_grown (request : HashedRequest Row)
    (hasher : BlockHasher Row) (pieces : List (List ℕ)) :
    (request.grown hasher pieces).fullBlocks hasher =
      (request.numTokens + pieces.flatten.length) / hasher.hashBlockSize := by
  rw [fullBlocks, grown_eq, numTokens, List.length_append]
  rfl

theorem mmFeatures_grown (request : HashedRequest Row)
    (hasher : BlockHasher Row) (pieces : List (List ℕ)) :
    (request.grown hasher pieces).mmFeatures = request.mmFeatures := by
  rw [grown_eq]

section Grown

variable {hasher : BlockHasher Row} {request : HashedRequest Row}
  {pieces : List (List ℕ)}

/-- What a settled request shows for a block is what one run sees. -/
theorem Settled.shownContent_eq
    (hgrowing : Growing hasher (request.fullBlocks hasher)
      (request.grown hasher pieces))
    (hsettled : request.Settled hasher pieces) {index : ℕ}
    (hindex : index < (request.grown hasher pieces).fullBlocks hasher) :
    (request.grown hasher pieces).shownContent hasher
        (request.fullBlocks hasher) index =
      (request.grown hasher pieces).blockContent hasher
        (request.grown hasher pieces).mmFeatures index := by
  rw [shownContent]
  split
  · rfl
  · rename_i hlater
    rw [blockContent_eq_iff_mmKeys, mmKeysOf_last_eq_iff]
    intro feature hmem
    simp only [MultiModalFeature.overlaps, decide_eq_false_iff_not, not_and,
      not_lt]
    intro _
    cases hsettled with
    | inl hnone =>
        have hended := hgrowing.ended hnone feature
          ((List.dropLast_sublist _).subset hmem)
        have hstart : hasher.hashBlockSize ≤ index * hasher.hashBlockSize :=
          Nat.le_mul_of_pos_left _ (by omega)
        exact hended.trans hstart
    | inr hsettled =>
        cases hsettled with
        | inl hsame =>
            rw [fullBlocks_grown, hsame] at hindex
            omega
        | inr hended =>
            rw [mmFeatures_grown] at hmem
            have hstart : request.fullBlocks hasher * hasher.hashBlockSize ≤
                index * hasher.hashBlockSize :=
              Nat.mul_le_mul_right _ (by omega)
            exact (hended feature hmem).trans hstart

/-- If the block behind the prompt's full blocks shows what one run sees,
the request is settled. -/
theorem settled_of_shownContent_eq (hsize : 0 < hasher.hashBlockSize)
    (hinside : ∀ feature ∈ request.mmFeatures,
      feature.stop ≤ request.numTokens)
    (hpos : ∀ feature ∈ request.mmFeatures, 0 < feature.length)
    (hshown : ∀ index < (request.grown hasher pieces).fullBlocks hasher,
      (request.grown hasher pieces).shownContent hasher
          (request.fullBlocks hasher) index =
        (request.grown hasher pieces).blockContent hasher
          (request.grown hasher pieces).mmFeatures index) :
    request.Settled hasher pieces := by
  by_cases hnone : request.fullBlocks hasher = 0
  · exact Or.inl hnone
  by_cases hsame : (request.numTokens + pieces.flatten.length) /
      hasher.hashBlockSize = request.fullBlocks hasher
  · exact Or.inr (Or.inl hsame)
  refine Or.inr (Or.inr fun feature hmem => ?_)
  have hmore : request.fullBlocks hasher <
      (request.grown hasher pieces).fullBlocks hasher := by
    rw [fullBlocks_grown]
    have hle : request.fullBlocks hasher ≤
        (request.numTokens + pieces.flatten.length) / hasher.hashBlockSize :=
      Nat.div_le_div_right (Nat.le_add_right _ _)
    omega
  have hblock := hshown _ hmore
  rw [shownContent, if_neg (by omega), blockContent_eq_iff_mmKeys,
    mmKeysOf_last_eq_iff, mmFeatures_grown] at hblock
  have hclosed := hblock feature hmem
  simp only [MultiModalFeature.overlaps, decide_eq_false_iff_not, not_and,
    not_lt] at hclosed
  apply hclosed
  have hmem' := (List.dropLast_sublist _).subset hmem
  calc feature.offset
      < feature.stop := Nat.lt_add_of_pos_right (hpos feature hmem')
    _ ≤ request.numTokens := hinside feature hmem'
    _ < (request.fullBlocks hasher + 1) * hasher.hashBlockSize := by
        rw [← Nat.div_lt_iff_lt_mul hsize]
        exact Nat.lt_succ_self _

end Grown

/-- Cutting a request behind a full block keeps the content of the block. -/
theorem blockContent_truncated (request : HashedRequest Row)
    (hasher : BlockHasher Row) (visible : List MultiModalFeature)
    {count index : ℕ} (hindex : index < count) :
    (request.truncated (count * hasher.hashBlockSize)).blockContent hasher
        visible index =
      request.blockContent hasher visible index := by
  have hstop : (index + 1) * hasher.hashBlockSize ≤
      count * hasher.hashBlockSize :=
    Nat.mul_le_mul_right _ hindex
  apply Prod.ext
  · change slice (request.allTokenIds.take _) _ _ = slice request.allTokenIds _ _
    rw [slice, slice, List.drop_take, List.take_take]
    congr 1
    omega
  · rfl

theorem fullBlocks_truncated (request : HashedRequest Row)
    (hasher : BlockHasher Row) (hsize : 0 < hasher.hashBlockSize) {count : ℕ}
    (hcount : count ≤ request.fullBlocks hasher) :
    (request.truncated (count * hasher.hashBlockSize)).fullBlocks hasher =
      count := by
  have hlength : count * hasher.hashBlockSize ≤ request.allTokenIds.length :=
    (Nat.mul_le_mul_right _ hcount).trans (Nat.div_mul_le_self _ _)
  rw [fullBlocks, numTokens, truncated, List.length_take,
    Nat.min_eq_left hlength, Nat.mul_div_cancel _ hsize]

/-- One run over all tokens makes every group view right. -/
theorem hashedFromScratch_of_same {hasher : BlockHasher Row}
    {request : HashedRequest Row} (hsize : 0 < hasher.hashBlockSize)
    (horder : FeaturesInOrder request.mmFeatures)
    (hsame : request.blockHashes =
      hasher.requestBlockHasher { request with blockHashes := [] }) :
    HashedFromScratch hasher request where
  same := hsame
  grouped targetBlockSize view htarget hview index hindex := by
    have hscratch := @BlockHasher.requestBlockHasher_eq_chain_scratch Row
      hasher { request with blockHashes := [] } hsize horder rfl
    have hchain : request.blockHashes = chain hasher.link hasher.noneHash
        ((List.range (request.fullBlocks hasher)).map
          (request.blockContent hasher request.mmFeatures)) :=
      hsame.trans hscratch
    simp only [groupView] at hview
    split at hview
    · rename_i hdvd
      cases hview
      have hfactor : targetBlockSize / hasher.hashBlockSize *
          hasher.hashBlockSize = targetBlockSize :=
        Nat.div_mul_cancel (Nat.dvd_of_mod_eq_zero hdvd)
      generalize targetBlockSize / hasher.hashBlockSize = scale at *
      have hscale : 0 < scale := by
        apply Nat.pos_of_ne_zero
        intro hzero
        rw [hzero, Nat.zero_mul] at hfactor
        omega
      have hcount : (index + 1) * scale ≤ request.fullBlocks hasher := by
        simp only [BlockHashListWithBlockSize.length] at hindex
        rw [hchain, length_chain, List.length_map, List.length_range]
          at hindex
        exact (Nat.le_div_iff_mul_le hscale).mp hindex
      have hpos : 0 < (index + 1) * scale :=
        Nat.mul_pos (Nat.succ_pos index) hscale
      have hprefix : (List.range (request.fullBlocks hasher)).take
          ((index + 1) * scale) = List.range ((index + 1) * scale) := by
        rw [List.take_range, Nat.min_eq_left hcount]
      have hcontents : (List.range ((index + 1) * scale)).map
            (request.blockContent hasher request.mmFeatures) =
          (List.range ((index + 1) * scale)).map
            ((request.truncated ((index + 1) * targetBlockSize)).blockContent
              hasher request.mmFeatures) := by
        apply List.map_congr_left
        intro other hother
        rw [← hfactor, ← Nat.mul_assoc]
        exact (blockContent_truncated request hasher _
          (List.mem_range.mp hother)).symm
      have hblocks :
          (request.truncated ((index + 1) * targetBlockSize)).fullBlocks
            hasher = (index + 1) * scale := by
        rw [← hfactor, ← Nat.mul_assoc]
        exact fullBlocks_truncated request hasher hsize hcount
      have hlast : (index + 1) * scale - 1 <
          ((List.range (request.fullBlocks hasher)).map
            (request.blockContent hasher request.mmFeatures)).length := by
        rw [List.length_map, List.length_range]
        omega
      have hnonempty : (List.range ((index + 1) * scale)).map
          (request.blockContent hasher request.mmFeatures) ≠ [] := by
        rw [Ne, List.map_eq_nil_iff, List.range_eq_nil]
        omega
      have htruncated := @BlockHasher.requestBlockHasher_eq_chain_scratch Row
        hasher (request.truncated ((index + 1) * targetBlockSize)) hsize
        horder rfl
      simp only [BlockHashListWithBlockSize.getValueAt]
      rw [htruncated, hblocks]
      change _ = (chain hasher.link hasher.noneHash
        ((List.range ((index + 1) * scale)).map
          ((request.truncated ((index + 1) * targetBlockSize)).blockContent
            hasher request.mmFeatures))).getLast?
      rw [← hcontents, hchain, chain_getElem? _ hlast, ← List.map_take,
        Nat.sub_add_cancel hpos, hprefix, getLast?_chain _ hnonempty]
    · cases hview

section Grown

variable {hasher : BlockHasher Row} {request : HashedRequest Row}
  {pieces : List (List ℕ)}

theorem Settled.hashedFromScratch (hsize : 0 < hasher.hashBlockSize)
    (hgrowing : Growing hasher (request.fullBlocks hasher)
      (request.grown hasher pieces))
    (hsettled : request.Settled hasher pieces) :
    HashedFromScratch hasher (request.grown hasher pieces) := by
  have hscratch := @BlockHasher.requestBlockHasher_eq_chain_scratch Row
    hasher { request.grown hasher pieces with blockHashes := [] } hsize
    hgrowing.inOrder rfl
  apply hashedFromScratch_of_same hsize hgrowing.inOrder
  rw [hscratch, hgrowing.hashes]
  congr 1
  apply List.map_congr_left
  intro index hindex
  exact hsettled.shownContent_eq hgrowing (List.mem_range.mp hindex)

/-- Without collisions equal hashes show the same keys in every block. -/
theorem settled_of_hashedFromScratch (hfree : hasher.CollisionFree)
    (hsize : 0 < hasher.hashBlockSize)
    (horder : FeaturesInOrder request.mmFeatures)
    (hinside : ∀ feature ∈ request.mmFeatures,
      feature.stop ≤ request.numTokens)
    (hgrowing : Growing hasher (request.fullBlocks hasher)
      (request.grown hasher pieces))
    (hfrom : HashedFromScratch hasher (request.grown hasher pieces)) :
    request.Settled hasher pieces := by
  have hscratch := @BlockHasher.requestBlockHasher_eq_chain_scratch Row
    hasher { request.grown hasher pieces with blockHashes := [] } hsize
    hgrowing.inOrder rfl
  have hchains := hfrom.same
  rw [hscratch, hgrowing.hashes] at hchains
  have hcontents := hfree.revealing.chain_injective hchains
  apply settled_of_shownContent_eq hsize hinside horder.pos
  intro index hindex
  exact List.map_inj_left.mp hcontents index (List.mem_range.mpr hindex)

end Grown

/-- A request that grows by pieces is hashed as from scratch when it is
settled and, without hash collisions, only then. -/
theorem grown_hashedFromScratch_iff {hasher : BlockHasher Row}
    {request : HashedRequest Row} (hsize : 0 < hasher.hashBlockSize)
    (horder : FeaturesInOrder request.mmFeatures)
    (hinside : ∀ feature ∈ request.mmFeatures,
      feature.stop ≤ request.numTokens)
    (hcreated : request.blockHashes = []) (pieces : List (List ℕ)) :
    (request.Settled hasher pieces →
        HashedFromScratch hasher (request.grown hasher pieces)) ∧
      (hasher.CollisionFree →
        HashedFromScratch hasher (request.grown hasher pieces) →
          request.Settled hasher pieces) := by
  have hgrowing := growing_grown hsize horder hinside hcreated pieces
  constructor
  · intro hsettled
    exact hsettled.hashedFromScratch hsize hgrowing
  · intro hfree hfrom
    exact settled_of_hashedFromScratch hfree hsize horder hinside hgrowing
      hfrom

section Example

/-- A prompt of seven tokens with two images behind its first block of four. -/
def twoImages : HashedRequest ℕ where
  allTokenIds := [1, 2, 3, 4, 0, 0, 5]
  mmFeatures := [⟨"a", 4, 1⟩, ⟨"b", 5, 1⟩]
  loraName := none
  cacheSalt := none
  promptEmbeds := none
  blockHashes := []

theorem twoImages_inOrder : FeaturesInOrder twoImages.mmFeatures where
  apart := by decide
  pos := by decide

theorem grown_hashedFromScratch_iff_twoImages :
    HashedFromScratch (BlockHasher.unaryHasher 2)
        (twoImages.grown (BlockHasher.unaryHasher 2) [[6], [7, 8]]) ∧
      twoImages.Settled (BlockHasher.unaryHasher 2) [[6], [7, 8]] := by
  have hiff := @grown_hashedFromScratch_iff ℕ (BlockHasher.unaryHasher 2)
    twoImages (by decide) twoImages_inOrder (by decide) rfl [[6], [7, 8]]
  have hfrom := hiff.1 (Or.inr (Or.inr (by decide)))
  exact ⟨hfrom, hiff.2 (BlockHasher.unaryHasher_collisionFree 2) hfrom⟩

/-- One generated token completes the second block, whose hash then has no
key of the first image. -/
theorem grown_drops_image :
    ¬HashedFromScratch (BlockHasher.unaryHasher 4)
      (twoImages.grown (BlockHasher.unaryHasher 4) [[6]]) := by
  intro hfrom
  have hsize : 0 < (BlockHasher.unaryHasher 4).hashBlockSize := by decide
  have hgrowing := @growing_grown ℕ (BlockHasher.unaryHasher 4) twoImages
    hsize twoImages_inOrder (by decide) rfl [[6]]
  have hsettled := settled_of_hashedFromScratch
    (BlockHasher.unaryHasher_collisionFree 4) hsize twoImages_inOrder
    (by decide) hgrowing hfrom
  revert hsettled
  simp only [Settled]
  decide

end Example

end HashedRequest

end GlmFlash.Cache
