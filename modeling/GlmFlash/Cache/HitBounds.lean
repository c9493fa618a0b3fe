import GlmFlash.Cache.HitFinders

/-!
# Bounds of the cache-hit finders

On a query that its kind supports a finder returns, its rows are the blocks
that cover the hit length, and a query that is allowed to look further reports
a hit that is no shorter.
-/

namespace GlmFlash.Cache

open GlmFlash.Library

theorem length_toList_view (view : BlockHashListWithBlockSize)
    (hscale : 0 < view.scaleFactor) : view.toList.length = view.length := by
  rw [BlockHashListWithBlockSize.toList, List.length_filterMap_eq_countP,
    List.countP_eq_length.mpr, List.length_range]
  intro index hindex
  have hle : (index + 1) * view.scaleFactor ≤ view.blockHashes.length :=
    (Nat.le_div_iff_mul_le hscale).mp (List.mem_range.mp hindex)
  have hpos : 0 < (index + 1) * view.scaleFactor :=
    Nat.mul_pos (Nat.succ_pos _) hscale
  rw [BlockHashListWithBlockSize.getValueAt, isSome_getElem?]
  omega

namespace HitQuery

/-- The tokens of one block of the result. -/
def blockSize (query : HitQuery) : ℕ :=
  if query.kvCacheSpec.isFullAttention then
    query.kvCacheSpec.scaledBlockSize query.dcpWorldSize
  else query.kvCacheSpec.blockSize

/-- Hits may end inside a block. -/
def FineGrained (query : HitQuery) : Prop :=
  query.alignmentTokens < query.blockSize ∧
    query.blockSize % query.alignmentTokens = 0

instance (query : HitQuery) : Decidable query.FineGrained :=
  inferInstanceAs (Decidable (_ ∧ _))

/-- What the finder of the query's kind asserts, and that the request has
hashes for all tokens that it may look at. -/
structure Supported (query : HitQuery) : Prop where
  hash_pos : 0 < query.blockPool.hashBlockSize
  block_pos : 0 < query.blockSize
  alignment_pos : 0 < query.alignmentTokens
  hash_dvd : query.blockPool.hashBlockSize ∣ query.blockSize
  aligned : query.alignmentTokens = query.blockPool.hashBlockSize ∨
    query.blockSize ∣ query.alignmentTokens
  covers : query.maxLength / query.blockPool.hashBlockSize ≤
    query.blockHashes.length
  single : query.kvCacheSpec.isFullAttention = false →
    query.dcpWorldSize = 1
  coarse : query.kvCacheSpec.supportsFineGrained = false →
    query.blockSize ∣ query.alignmentTokens
  chunked : ∀ chunkSize, query.kvCacheSpec.kind = .chunkedLocal chunkSize →
    query.dropEagleBlock = false ∧ query.blockSize = query.alignmentTokens

namespace Supported

variable {query : HitQuery}

theorem alignment_eq (hquery : query.Supported)
    (hfine : query.FineGrained) :
    query.alignmentTokens = query.blockPool.hashBlockSize :=
  hquery.aligned.resolve_right fun hdvd =>
    absurd (Nat.le_of_dvd hquery.alignment_pos hdvd)
      (Nat.not_le.mpr hfine.1)

theorem ne_hash (hquery : query.Supported) (hfine : query.FineGrained) :
    query.blockSize ≠ query.blockPool.hashBlockSize := by
  rw [← hquery.alignment_eq hfine]
  exact (Nat.ne_of_lt hfine.1).symm

end Supported

/-- The hashes at the ends of whole blocks. -/
def blockEndHashes (query : HitQuery) : List BlockHash :=
  if query.blockSize = query.blockPool.hashBlockSize then query.blockHashes
  else
    match groupView query.blockHashes query.blockPool.hashBlockSize
      query.blockSize with
    | some view => view.toList
    | none => []

theorem length_blockEndHashes {query : HitQuery} (hquery : query.Supported) :
    query.maxLength / query.blockSize ≤ query.blockEndHashes.length := by
  cases hquery.hash_dvd with
  | intro scale hscale =>
      have hpos : 0 < scale := by
        apply Nat.pos_of_ne_zero
        intro hzero
        have hblock := hquery.block_pos
        rw [hscale, hzero, Nat.mul_zero] at hblock
        exact Nat.lt_irrefl 0 hblock
      rw [blockEndHashes]
      split
      · rename_i hsame
        rw [hsame]
        exact hquery.covers
      · have hview : groupView query.blockHashes
            query.blockPool.hashBlockSize query.blockSize =
              some ⟨query.blockHashes, scale⟩ := by
          rw [groupView, if_pos (Nat.mod_eq_zero_of_dvd hquery.hash_dvd),
            hscale, Nat.mul_div_cancel_left scale hquery.hash_pos]
        rw [hview]
        dsimp only
        rw [length_toList_view _ hpos, BlockHashListWithBlockSize.length,
          hscale, ← Nat.div_div_eq_div_mul]
        exact Nat.div_le_div_right hquery.covers

theorem resolveBlockHashes_blockEnds {query : HitQuery}
    (hquery : query.Supported) {supportsFineGrained : Bool}
    (hcoarse : ¬(supportsFineGrained = true ∧ query.FineGrained)) :
    resolveBlockHashes query.blockHashes query.blockPool.hashBlockSize
        query.blockSize supportsFineGrained query.alignmentTokens =
      .ok query.blockEndHashes := by
  simp only [resolveBlockHashes, blockEndHashes]
  by_cases hsame : query.blockSize = query.blockPool.hashBlockSize
  · rw [if_pos hsame, if_pos hsame]
  · rw [if_neg hsame, if_neg hsame]
    change (if supportsFineGrained = true ∧ query.FineGrained then _ else _) =
      _
    rw [if_neg hcoarse, groupView,
      if_pos (Nat.mod_eq_zero_of_dvd hquery.hash_dvd)]

theorem resolveBlockHashes_fine {query : HitQuery}
    (hquery : query.Supported) (hfine : query.FineGrained) :
    resolveBlockHashes query.blockHashes query.blockPool.hashBlockSize
        query.blockSize true query.alignmentTokens =
      .ok query.blockHashes := by
  rw [resolveBlockHashes, if_neg (hquery.ne_hash hfine),
    if_pos ⟨rfl, hfine.1, hfine.2⟩]

/-- The end of the drop and of the alignment of a full-attention hit. -/
def lowered (query : HitQuery) (raw : ℕ) : ℕ :=
  let hitLength :=
    if query.dropEagleBlock ∧ 0 < raw then
      raw - min query.alignmentTokens query.blockSize
    else raw
  hitLength - hitLength % query.alignmentTokens

theorem lowered_le (query : HitQuery) (raw : ℕ) :
    query.lowered raw ≤ raw := by
  simp only [lowered]
  split <;> omega

theorem sub_mod_mono {alignmentTokens count count' : ℕ}
    (hcount : count ≤ count') :
    count - count % alignmentTokens ≤ count' - count' % alignmentTokens := by
  have hcount' : ∀ value, value - value % alignmentTokens =
      alignmentTokens * (value / alignmentTokens) := by
    intro value
    have hsplit := Nat.div_add_mod value alignmentTokens
    omega
  rw [hcount', hcount']
  exact Nat.mul_le_mul_left _ (Nat.div_le_div_right hcount)

theorem lowered_mono (query : HitQuery) {raw raw' : ℕ} (hraw : raw ≤ raw') :
    query.lowered raw ≤ query.lowered raw' := by
  simp only [lowered]
  apply sub_mod_mono
  by_cases hdrop : query.dropEagleBlock = true
  · simp only [hdrop, true_and]
    split <;> split <;> omega
  · rw [if_neg fun hboth => hdrop hboth.1, if_neg fun hboth => hdrop hboth.1]
    exact hraw

/-- The whole blocks that are cached and allowed. -/
def wholeBlocks (query : HitQuery) : ℕ :=
  min (query.maxLength / query.blockSize)
    (cachedRun query.blockPool query.kvCacheGroupIds
      query.blockEndHashes).length

/-- The search behind the whole blocks for a cached boundary inside the next
one. -/
def tailSearch (query : HitQuery) : Except Failure (Option (ℕ × Row)) :=
  let scaleFactor := query.blockSize / query.alignmentTokens
  let firstPartialIdx := query.wholeBlocks * scaleFactor
  searchBack query.blockPool query.kvCacheGroupIds query.blockHashes
    (fun _ => true) firstPartialIdx
    (min (firstPartialIdx + scaleFactor - 1)
        (min (query.maxLength / query.alignmentTokens)
          query.blockHashes.length) -
      firstPartialIdx)

/-- The full-attention hit before the drop. -/
def rawHit (query : HitQuery) : Option (ℕ × Row) → ℕ
  | none => query.wholeBlocks * query.blockSize
  | some found => (found.1 + 1) * query.alignmentTokens

theorem wholeBlocks_mul_le (query : HitQuery) :
    query.wholeBlocks * query.blockSize ≤ query.maxLength := by
  calc query.wholeBlocks * query.blockSize
      ≤ query.maxLength / query.blockSize * query.blockSize :=
        Nat.mul_le_mul_right _ (Nat.min_le_left _ _)
    _ ≤ query.maxLength := Nat.div_mul_le_self _ _

/-- Where a boundary inside the next block lies. -/
theorem tailSearch_bounds {query : HitQuery} (hquery : query.Supported)
    (hfine : query.FineGrained) {found : ℕ × Row}
    (htail : query.tailSearch = .ok (some found)) :
    query.wholeBlocks * query.blockSize <
        (found.1 + 1) * query.alignmentTokens ∧
      (found.1 + 1) * query.alignmentTokens <
        (query.wholeBlocks + 1) * query.blockSize ∧
      (found.1 + 1) * query.alignmentTokens ≤ query.maxLength := by
  have hbounds := searchBack_bounds htail
  have hscale : query.blockSize / query.alignmentTokens *
      query.alignmentTokens = query.blockSize :=
    Nat.div_mul_cancel (Nat.dvd_of_mod_eq_zero hfine.2)
  have hfirst : query.wholeBlocks *
      (query.blockSize / query.alignmentTokens) * query.alignmentTokens =
        query.wholeBlocks * query.blockSize := by
    rw [Nat.mul_assoc, hscale]
  refine ⟨?_, ?_, ?_⟩
  · rw [← hfirst]
    exact Nat.mul_lt_mul_of_pos_right (Nat.lt_succ_of_le hbounds.1)
      hquery.alignment_pos
  · have hindex : found.1 + 1 < query.wholeBlocks *
        (query.blockSize / query.alignmentTokens) +
          query.blockSize / query.alignmentTokens := by
      omega
    calc (found.1 + 1) * query.alignmentTokens
        < (query.wholeBlocks * (query.blockSize / query.alignmentTokens) +
            query.blockSize / query.alignmentTokens) *
              query.alignmentTokens :=
          Nat.mul_lt_mul_of_pos_right hindex hquery.alignment_pos
      _ = (query.wholeBlocks + 1) * query.blockSize := by
          rw [Nat.add_mul, hfirst, hscale, Nat.succ_mul]
  · have hindex : found.1 + 1 ≤
        query.maxLength / query.alignmentTokens := by
      omega
    exact (Nat.mul_le_mul_right _ hindex).trans (Nat.div_mul_le_self _ _)

theorem tailSearch_ok (query : HitQuery) :
    ∃ found, query.tailSearch = .ok found := by
  by_cases hempty : query.blockHashes.length ≤
      query.wholeBlocks * (query.blockSize / query.alignmentTokens)
  · refine ⟨none, ?_⟩
    have hnone : min (query.wholeBlocks *
          (query.blockSize / query.alignmentTokens) +
            query.blockSize / query.alignmentTokens - 1)
          (min (query.maxLength / query.alignmentTokens)
            query.blockHashes.length) -
        query.wholeBlocks * (query.blockSize / query.alignmentTokens) = 0 := by
      omega
    simp only [tailSearch, hnone]
    rfl
  · apply searchBack_ok
    omega

theorem rawHit_le {query : HitQuery} (hquery : query.Supported)
    (hfine : query.FineGrained) {found : Option (ℕ × Row)}
    (htail : query.tailSearch = .ok found) :
    query.rawHit found ≤ query.maxLength := by
  cases found with
  | none => exact query.wholeBlocks_mul_le
  | some found => exact (tailSearch_bounds hquery hfine htail).2.2

theorem length_cachedRun_blockEnds (query : HitQuery) :
    (cachedRun query.blockPool query.kvCacheGroupIds
      (query.blockEndHashes.take
        (query.maxLength / query.blockSize))).length = query.wholeBlocks := by
  rw [cachedRun_take, List.length_take, wholeBlocks]

/-- The rows in front of the lowered hit. -/
def fullRows (query : HitQuery) (tail : Option (ℕ × Row)) : List Row :=
  (cachedRun query.blockPool query.kvCacheGroupIds
      (query.blockEndHashes.take (query.maxLength / query.blockSize)) ++
    (tail.map (·.2)).toList).take
      (cdiv (query.lowered (query.rawHit tail)) query.blockSize)

theorem length_fullRows {query : HitQuery} (hquery : query.Supported)
    {tail : Option (ℕ × Row)}
    (htail : ∀ found, tail = some found →
      query.FineGrained ∧ query.tailSearch = .ok tail) :
    (query.fullRows tail).length =
      cdiv (query.lowered (query.rawHit tail)) query.blockSize := by
  have hrows : (cachedRun query.blockPool query.kvCacheGroupIds
        (query.blockEndHashes.take (query.maxLength / query.blockSize)) ++
      (tail.map (·.2)).toList).length =
        cdiv (query.rawHit tail) query.blockSize := by
    rw [List.length_append, length_cachedRun_blockEnds]
    cases tail with
    | none =>
        rw [rawHit, cdiv_mul hquery.block_pos]
        rfl
    | some found =>
        have hfound := htail found rfl
        have hbounds := tailSearch_bounds hquery hfound.1 hfound.2
        rw [rawHit, cdiv_eq_succ hquery.block_pos hbounds.1
          (Nat.le_of_lt hbounds.2.1)]
        rfl
  rw [fullRows, List.length_take, hrows]
  exact Nat.min_eq_left (cdiv_mono hquery.block_pos (query.lowered_le _))

/-- What a full-attention finder returns. -/
structure FullHit (query : HitQuery) (tail : Option (ℕ × Row)) : Prop where
  result : query.findFullAttention =
    .ok (query.fullRows tail, query.lowered (query.rawHit tail))
  fine : query.FineGrained → query.tailSearch = .ok tail
  coarse : ¬query.FineGrained → tail = none

theorem findFullAttention_ok {query : HitQuery} (hquery : query.Supported)
    (hkind : query.kvCacheSpec.isFullAttention = true) :
    ∃ tail, FullHit query tail := by
  have hblock : query.kvCacheSpec.scaledBlockSize query.dcpWorldSize =
      query.blockSize := by
    rw [blockSize, if_pos hkind]
  have hrun := query.length_cachedRun_blockEnds
  by_cases hfine : query.FineGrained
  · cases query.tailSearch_ok with
    | intro tail htail =>
        have hview : groupView query.blockHashes query.alignmentTokens
            query.blockSize = some ⟨query.blockHashes,
              query.blockSize / query.alignmentTokens⟩ :=
          if_pos hfine.2
        have hends : BlockHashListWithBlockSize.toList
              ⟨query.blockHashes, query.blockSize / query.alignmentTokens⟩ =
            query.blockEndHashes := by
          rw [blockEndHashes, if_neg (hquery.ne_hash hfine),
            ← hquery.alignment_eq hfine, hview]
        refine ⟨tail, ?_, fun _ => htail, fun hcoarse =>
          absurd hfine hcoarse⟩
        have hfine' : query.alignmentTokens < query.blockSize ∧
            query.blockSize % query.alignmentTokens = 0 := hfine
        simp only [tailSearch, ← hrun] at htail
        simp only [findFullAttention, hblock,
          resolveBlockHashes_fine hquery hfine, if_pos hfine', hview, hends,
          bind, Except.bind, pure, Except.pure, htail]
        cases tail with
        | none =>
            simp only [fullRows, rawHit, lowered, ← hrun]
        | some found =>
            simp only [fullRows, rawHit, lowered]
            rfl
  · refine ⟨none, ?_, fun hfine' => absurd hfine' hfine, fun _ => rfl⟩
    have hfine' : ¬(query.alignmentTokens < query.blockSize ∧
        query.blockSize % query.alignmentTokens = 0) := hfine
    simp only [findFullAttention, hblock,
      resolveBlockHashes_blockEnds hquery fun hboth => hfine hboth.2,
      if_neg hfine', bind, Except.bind, pure, Except.pure, fullRows, rawHit,
      lowered, hrun]
    rfl

/-- The same query with another bound. -/
def withMaxLength (query : HitQuery) (maxLength : ℕ) : HitQuery :=
  { query with maxLength := maxLength }

theorem wholeBlocks_mono (query : HitQuery) {maxLength : ℕ}
    (hle : query.maxLength ≤ maxLength) :
    query.wholeBlocks ≤ (query.withMaxLength maxLength).wholeBlocks := by
  have hdiv : query.maxLength / query.blockSize ≤
      maxLength / query.blockSize :=
    Nat.div_le_div_right hle
  exact min_le_min_right _ hdiv

theorem reach_le_rawHit {query : HitQuery} (hquery : query.Supported)
    (hfine : query.FineGrained) {tail : Option (ℕ × Row)}
    (htail : query.tailSearch = .ok tail) :
    query.rawHit tail =
      max (query.wholeBlocks * query.blockSize)
        (reach tail * query.alignmentTokens) := by
  cases tail with
  | none => simp [rawHit, reach]
  | some found =>
      have hbounds := tailSearch_bounds hquery hfine htail
      exact (max_eq_right (Nat.le_of_lt hbounds.1)).symm

theorem rawHit_mono {query : HitQuery} {maxLength : ℕ}
    (hquery : query.Supported)
    (hquery' : (query.withMaxLength maxLength).Supported)
    (hle : query.maxLength ≤ maxLength) {tail tail' : Option (ℕ × Row)}
    (hhit : FullHit query tail)
    (hhit' : FullHit (query.withMaxLength maxLength) tail') :
    query.rawHit tail ≤ (query.withMaxLength maxLength).rawHit tail' := by
  have hwhole := query.wholeBlocks_mono hle
  by_cases hfine : query.FineGrained
  · have htail := hhit.fine hfine
    have htail' := hhit'.fine hfine
    rw [reach_le_rawHit hquery hfine htail,
      reach_le_rawHit hquery' hfine htail']
    by_cases hsame : query.wholeBlocks =
        (query.withMaxLength maxLength).wholeBlocks
    · -- both searches start at the same boundary
      have hdiv : query.maxLength / query.alignmentTokens ≤
          maxLength / query.alignmentTokens :=
        Nat.div_le_div_right hle
      simp only [tailSearch, ← hsame] at htail htail'
      have hreach := searchBack_mono (by
        change _ ≤ min (_ + _ - 1) (min (maxLength / _) _) - _
        exact Nat.sub_le_sub_right
          (min_le_min_left _ (min_le_min_right _ hdiv)) _) htail htail'
      exact max_le_max (Nat.mul_le_mul_right _ hwhole)
        (Nat.mul_le_mul_right _ hreach)
    · -- the shorter search ends inside a block that the longer one has
      have hnext : query.wholeBlocks + 1 ≤
          (query.withMaxLength maxLength).wholeBlocks := by
        omega
      have hnext' : (query.wholeBlocks + 1) * query.blockSize ≤
          (query.withMaxLength maxLength).wholeBlocks * query.blockSize :=
        Nat.mul_le_mul_right _ hnext
      apply le_max_of_le_left
      refine le_trans ?_ hnext'
      rw [← reach_le_rawHit hquery hfine htail]
      cases tail with
      | none => exact Nat.mul_le_mul_right _ (Nat.le_succ _)
      | some found =>
          exact Nat.le_of_lt (tailSearch_bounds hquery hfine htail).2.1
  · rw [hhit.coarse hfine, hhit'.coarse hfine]
    exact Nat.mul_le_mul_right _ hwhole

/-- The step of a Mamba search. -/
def mambaUnit (query : HitQuery) : ℕ :=
  if query.FineGrained then query.alignmentTokens else query.blockSize

/-- The search of a Mamba finder. -/
def mambaSearch (query : HitQuery) : Except Failure (Option (ℕ × Row)) :=
  if query.FineGrained then
    searchBack query.blockPool query.kvCacheGroupIds query.blockHashes
      (fun _ => true) 0
      (min (query.maxLength / query.alignmentTokens)
        query.blockHashes.length)
  else
    searchBack query.blockPool query.kvCacheGroupIds query.blockEndHashes
      (fun index => decide (query.blockSize = query.alignmentTokens ∨
        (index + 1) * query.blockSize % query.alignmentTokens = 0)) 0
      (query.maxLength / query.blockSize)

theorem blockSize_eq {query : HitQuery}
    (hkind : query.kvCacheSpec.isFullAttention = false) :
    query.blockSize = query.kvCacheSpec.blockSize := by
  simp only [blockSize, hkind, Bool.false_eq_true, if_false]

theorem mambaSearch_ok {query : HitQuery} (hquery : query.Supported) :
    ∃ found, query.mambaSearch = .ok found ∧
      reach found * query.mambaUnit ≤ query.maxLength := by
  have hends := length_blockEndHashes hquery
  by_cases hfine : query.FineGrained
  · simp only [mambaSearch, mambaUnit, if_pos hfine]
    cases @searchBack_ok query.blockPool query.kvCacheGroupIds
        query.blockHashes (fun _ => true) 0
        (min (query.maxLength / query.alignmentTokens)
          query.blockHashes.length) (by omega) with
    | intro found hfound =>
        refine ⟨found, hfound, ?_⟩
        have hreach : reach found ≤
            query.maxLength / query.alignmentTokens := by
          cases found with
          | none => exact Nat.zero_le _
          | some entry =>
              have hbounds := searchBack_bounds hfound
              simp only [reach]
              omega
        exact (Nat.mul_le_mul_right _ hreach).trans (Nat.div_mul_le_self _ _)
  · simp only [mambaSearch, mambaUnit, if_neg hfine]
    cases @searchBack_ok query.blockPool query.kvCacheGroupIds
        query.blockEndHashes
        (fun index => decide (query.blockSize = query.alignmentTokens ∨
          (index + 1) * query.blockSize % query.alignmentTokens = 0)) 0
        (query.maxLength / query.blockSize) (by omega) with
    | intro found hfound =>
        refine ⟨found, hfound, ?_⟩
        have hreach : reach found ≤ query.maxLength / query.blockSize := by
          cases found with
          | none => exact Nat.zero_le _
          | some entry =>
              have hbounds := searchBack_bounds hfound
              simp only [reach]
              omega
        exact (Nat.mul_le_mul_right _ hreach).trans (Nat.div_mul_le_self _ _)

theorem length_nullRows (groupIds : List ℕ) (count : ℕ) :
    (nullRows groupIds count).length = count := by
  simp [nullRows]

theorem findMamba_ok {query : HitQuery} (hquery : query.Supported)
    (hkind : query.kvCacheSpec.kind = .mamba) {found : Option (ℕ × Row)}
    (hfound : query.mambaSearch = .ok found) :
    ∃ rows, query.findMamba = .ok (rows, reach found * query.mambaUnit) ∧
      rows.length = cdiv (reach found * query.mambaUnit) query.blockSize := by
  have hfull : query.kvCacheSpec.isFullAttention = false := by
    simp [GroupSpec.isFullAttention, hkind]
  have hdcp := hquery.single hfull
  have hblock := (blockSize_eq hfull).symm
  by_cases hfine : query.FineGrained
  · have hfine' : query.alignmentTokens < query.blockSize ∧
        query.blockSize % query.alignmentTokens = 0 := hfine
    simp only [mambaSearch, if_pos hfine] at hfound
    simp only [findMamba, hdcp, hblock, if_pos hfine', hfound, mambaUnit,
      if_pos hfine, resolveBlockHashes_fine hquery hfine, bind, Except.bind,
      pure, Except.pure, ne_eq, not_true_eq_false, if_false]
    cases found with
    | none => exact ⟨[], by simp [reach], by simp [reach]⟩
    | some entry =>
        refine ⟨_, rfl, ?_⟩
        have hscale : query.blockSize / query.alignmentTokens *
            query.alignmentTokens = query.blockSize :=
          Nat.div_mul_cancel (Nat.dvd_of_mod_eq_zero hfine.2)
        have hpos : 0 < query.blockSize / query.alignmentTokens :=
          Nat.div_pos (Nat.le_of_lt hfine.1) hquery.alignment_pos
        rw [List.length_append, length_nullRows, List.length_singleton, reach]
        symm
        apply cdiv_eq_succ hquery.block_pos
        · calc entry.1 / (query.blockSize / query.alignmentTokens) *
                query.blockSize
              = entry.1 / (query.blockSize / query.alignmentTokens) *
                  (query.blockSize / query.alignmentTokens) *
                    query.alignmentTokens := by
                rw [Nat.mul_assoc, hscale]
            _ ≤ entry.1 * query.alignmentTokens :=
                Nat.mul_le_mul_right _ (Nat.div_mul_le_self _ _)
            _ < (entry.1 + 1) * query.alignmentTokens :=
                Nat.mul_lt_mul_of_pos_right (Nat.lt_succ_self _)
                  hquery.alignment_pos
        · have hnext := Nat.lt_mul_div_succ entry.1 hpos
          rw [Nat.mul_comm] at hnext
          calc (entry.1 + 1) * query.alignmentTokens
              ≤ (entry.1 / (query.blockSize / query.alignmentTokens) + 1) *
                  (query.blockSize / query.alignmentTokens) *
                    query.alignmentTokens :=
                Nat.mul_le_mul_right _ hnext
            _ = (entry.1 / (query.blockSize / query.alignmentTokens) + 1) *
                  query.blockSize := by
                rw [Nat.mul_assoc, hscale]
  · have hfine' : ¬(query.alignmentTokens < query.blockSize ∧
        query.blockSize % query.alignmentTokens = 0) := hfine
    simp only [mambaSearch, if_neg hfine] at hfound
    simp only [findMamba, hdcp, hblock, if_neg hfine', hfound, mambaUnit,
      if_neg hfine, resolveBlockHashes_blockEnds hquery fun hboth =>
        hfine hboth.2, bind, Except.bind, pure, Except.pure, ne_eq,
      not_true_eq_false, if_false]
    cases found with
    | none => exact ⟨[], by simp [reach], by simp [reach]⟩
    | some entry =>
        refine ⟨_, rfl, ?_⟩
        rw [List.length_append, length_nullRows, List.length_singleton, reach,
          cdiv_mul hquery.block_pos]

theorem mambaSearch_mono {query : HitQuery} {maxLength : ℕ}
    (hle : query.maxLength ≤ maxLength) {found found' : Option (ℕ × Row)}
    (hfound : query.mambaSearch = .ok found)
    (hfound' : (query.withMaxLength maxLength).mambaSearch = .ok found') :
    reach found ≤ reach found' := by
  by_cases hfine : query.FineGrained
  · have hfine' : (query.withMaxLength maxLength).FineGrained := hfine
    simp only [mambaSearch, if_pos hfine] at hfound
    simp only [mambaSearch, if_pos hfine'] at hfound'
    have hdiv : query.maxLength / query.alignmentTokens ≤
        maxLength / query.alignmentTokens :=
      Nat.div_le_div_right hle
    exact searchBack_mono (min_le_min_right _ hdiv) hfound hfound'
  · have hfine' : ¬(query.withMaxLength maxLength).FineGrained := hfine
    simp only [mambaSearch, if_neg hfine] at hfound
    simp only [mambaSearch, if_neg hfine'] at hfound'
    have hdiv : query.maxLength / query.blockSize ≤
        maxLength / query.blockSize :=
      Nat.div_le_div_right hle
    exact searchBack_mono hdiv hfound hfound'

/-- The aligned part of `count` blocks. -/
def alignedCount (query : HitQuery) (count : ℕ) : ℕ :=
  if query.blockSize = query.alignmentTokens then count
  else alignedBlocks query.blockSize query.alignmentTokens count

theorem alignedCount_le (query : HitQuery) (count : ℕ) :
    query.alignedCount count ≤ count := by
  rw [alignedCount]
  split
  · exact Nat.le_refl _
  · exact alignedBlocks_le _ _ _

theorem alignedCount_mono (query : HitQuery) {count count' : ℕ}
    (hcount : count ≤ count') :
    query.alignedCount count ≤ query.alignedCount count' := by
  rw [alignedCount, alignedCount]
  split
  · exact hcount
  · exact alignedBlocks_mono hcount

/-- The search of a sliding-window finder. -/
def windowMatch (query : HitQuery) (slidingWindow : ℕ) :
    Except Failure (Option ℕ × List Row) :=
  windowSearch query.blockPool query.kvCacheGroupIds query.blockEndHashes
    (cdiv (slidingWindow - 1) query.blockSize +
      if query.dropEagleBlock then 1 else 0)
    (fun index => decide (query.blockSize = query.alignmentTokens ∨
      (if query.dropEagleBlock then index else index + 1) *
        query.blockSize % query.alignmentTokens = 0))
    (query.maxLength / query.blockSize) []

/-- The blocks that a sliding-window finder makes of a match. -/
def keptBlocks (query : HitQuery) (found : Option ℕ × List Row) : ℕ :=
  let count := if found.1.isSome then windowCount found
    else query.alignedCount (windowCount found)
  if query.dropEagleBlock ∧ count ≠ 0 then query.alignedCount (count - 1)
  else count

theorem windowMatch_ok {query : HitQuery} (hquery : query.Supported)
    (slidingWindow : ℕ) :
    ∃ found, query.windowMatch slidingWindow = .ok found ∧
      windowCount found ≤ query.maxLength / query.blockSize := by
  cases windowSearch_ok (length_blockEndHashes hquery) [] with
  | intro found hfound => exact ⟨found, hfound, windowCount_le hfound⟩

theorem keptBlocks_le (query : HitQuery) (found : Option ℕ × List Row) :
    query.keptBlocks found ≤
      windowCount found - if query.dropEagleBlock then 1 else 0 := by
  have haligned := query.alignedCount_le (windowCount found)
  have hcount : (if found.1.isSome = true then windowCount found
      else query.alignedCount (windowCount found)) ≤ windowCount found := by
    split
    · exact Nat.le_refl _
    · exact haligned
  simp only [keptBlocks]
  generalize (if found.1.isSome = true then windowCount found
    else query.alignedCount (windowCount found)) = count at hcount ⊢
  have hpred := query.alignedCount_le (count - 1)
  by_cases hdrop : query.dropEagleBlock = true
  · rw [if_pos hdrop]
    split
    · omega
    · rename_i hzero
      have hzero' : count = 0 := not_not.mp fun hne => hzero ⟨hdrop, hne⟩
      omega
  · rw [if_neg hdrop, if_neg fun hboth => hdrop hboth.1]
    exact hcount

theorem keptBlocks_mono (query : HitQuery)
    {found found' : Option ℕ × List Row} (hle : WindowLe found found') :
    query.keptBlocks found ≤ query.keptBlocks found' := by
  have haligned := query.alignedCount_mono hle.count
  have hself := query.alignedCount_le (windowCount found')
  have hcount : (if found.1.isSome = true then windowCount found
        else query.alignedCount (windowCount found)) ≤
      if found'.1.isSome = true then windowCount found'
        else query.alignedCount (windowCount found') := by
    by_cases hsome : found.1.isSome = true
    · rw [if_pos hsome, if_pos (hle.isSome hsome)]
      exact hle.count
    · rw [if_neg hsome]
      split
      · exact haligned.trans hself
      · exact haligned
  simp only [keptBlocks]
  generalize (if found.1.isSome = true then windowCount found
    else query.alignedCount (windowCount found)) = count at hcount ⊢
  generalize (if found'.1.isSome = true then windowCount found'
    else query.alignedCount (windowCount found')) = count' at hcount ⊢
  by_cases hdrop : query.dropEagleBlock = true
  · simp only [hdrop, true_and]
    split
    · rw [if_pos (by omega)]
      exact query.alignedCount_mono (by omega)
    · rename_i hzero
      rw [not_not.mp hzero]
      exact Nat.zero_le _
  · rw [if_neg fun hboth => hdrop hboth.1, if_neg fun hboth => hdrop hboth.1]
    exact hcount

/-- The rows of a match, with null blocks in front of it. -/
def windowRows (query : HitQuery) : Option ℕ × List Row → List Row
  | (some index, run) => nullRows query.kvCacheGroupIds index ++ run
  | (none, run) => run.take (query.alignedCount run.length)

/-- The rows that are left after the drop. -/
def keptRows (query : HitQuery) (rows : List Row) : List Row :=
  if query.dropEagleBlock ∧ rows ≠ [] then
    rows.take (query.alignedCount (rows.length - 1))
  else rows

theorem length_windowRows (query : HitQuery) (found : Option ℕ × List Row) :
    (query.windowRows found).length =
      if found.1.isSome then windowCount found
      else query.alignedCount (windowCount found) := by
  match found with
  | (some index, run) => simp [windowRows, windowCount, length_nullRows]
  | (none, run) =>
      simp [windowRows, windowCount, query.alignedCount_le]

theorem length_keptRows (query : HitQuery) (found : Option ℕ × List Row) :
    (query.keptRows (query.windowRows found)).length =
      query.keptBlocks found := by
  have hnil : query.windowRows found ≠ [] ↔
      (query.windowRows found).length ≠ 0 :=
    not_congr List.length_eq_zero_iff.symm
  simp only [keptRows, keptBlocks, hnil, ← length_windowRows]
  split
  · rw [List.length_take]
    apply Nat.min_eq_left
    exact (query.alignedCount_le _).trans (Nat.sub_le _ _)
  · rfl

theorem findSlidingWindow_ok {query : HitQuery} (hquery : query.Supported)
    {slidingWindow : ℕ}
    (hkind : query.kvCacheSpec.kind = .slidingWindow slidingWindow)
    {found : Option ℕ × List Row}
    (hfound : query.windowMatch slidingWindow = .ok found) :
    ∃ rows, query.findSlidingWindow slidingWindow =
        .ok (rows, query.keptBlocks found * query.blockSize) ∧
      rows.length = query.keptBlocks found := by
  have hfull : query.kvCacheSpec.isFullAttention = false := by
    simp [GroupSpec.isFullAttention, hkind]
  have hcoarse := hquery.coarse (by
    simp [GroupSpec.supportsFineGrained, GroupSpec.isMamba, hfull, hkind])
  have hdcp := hquery.single hfull
  have hblock := (blockSize_eq hfull).symm
  refine ⟨query.keptRows (query.windowRows found), ?_,
    query.length_keptRows found⟩
  rw [← length_keptRows]
  simp only [windowMatch] at hfound
  simp only [findSlidingWindow, hdcp, hblock, ne_eq, not_true_eq_false,
    false_and, if_false, Nat.mod_eq_zero_of_dvd hcoarse,
    resolveBlockHashes_blockEnds hquery fun hboth =>
      Bool.false_ne_true hboth.1, bind, Except.bind, pure, Except.pure, hfound]
  match found with
  | (some index, run) => rfl
  | (none, run) => rfl

/-- The block that holds the start of the last chunk. -/
def chunkStart (query : HitQuery) (attentionChunkSize : ℕ) : ℕ :=
  query.maxLength / attentionChunkSize * attentionChunkSize / query.blockSize

theorem chunkStart_le (query : HitQuery) (attentionChunkSize : ℕ) :
    query.chunkStart attentionChunkSize ≤
      query.maxLength / query.blockSize :=
  Nat.div_le_div_right (Nat.div_mul_le_self _ _)

/-- The cached rows of the last chunk. -/
def chunkRows (query : HitQuery) (attentionChunkSize : ℕ) :
    Except Failure (List Row) :=
  cachedRange query.blockPool query.kvCacheGroupIds query.blockEndHashes
    (query.maxLength / query.blockSize) (query.maxLength / query.blockSize)
    (query.chunkStart attentionChunkSize)

theorem chunkRows_ok {query : HitQuery} (hquery : query.Supported)
    (attentionChunkSize : ℕ) :
    ∃ rows, query.chunkRows attentionChunkSize = .ok rows ∧
      query.chunkStart attentionChunkSize + rows.length ≤
        query.maxLength / query.blockSize := by
  cases @cachedRange_ok query.blockPool query.kvCacheGroupIds
      query.blockEndHashes _ (query.maxLength / query.blockSize)
      (query.chunkStart attentionChunkSize)
      (length_blockEndHashes hquery) with
  | intro rows hrows =>
      have hstart := query.chunkStart_le attentionChunkSize
      refine ⟨rows, hrows.1, ?_⟩
      omega

theorem findChunkedLocal_ok {query : HitQuery} (hquery : query.Supported)
    {attentionChunkSize : ℕ}
    (hkind : query.kvCacheSpec.kind = .chunkedLocal attentionChunkSize)
    {found : List Row}
    (hfound : query.chunkRows attentionChunkSize = .ok found) :
    ∃ rows, query.findChunkedLocal attentionChunkSize =
        .ok (rows, rows.length * query.blockSize) ∧
      rows.length =
        query.chunkStart attentionChunkSize + found.length := by
  have hfull : query.kvCacheSpec.isFullAttention = false := by
    simp [GroupSpec.isFullAttention, hkind]
  have hdcp := hquery.single hfull
  have hblock := (blockSize_eq hfull).symm
  have hchunked := hquery.chunked attentionChunkSize hkind
  refine ⟨nullRows query.kvCacheGroupIds
    (query.chunkStart attentionChunkSize) ++ found, ?_, ?_⟩
  · simp only [chunkRows, chunkStart] at hfound
    simp only [findChunkedLocal, hdcp, hblock, hchunked.1, ne_eq,
      not_true_eq_false, if_false, Bool.false_eq_true,
      resolveBlockHashes_blockEnds hquery fun hboth =>
        Bool.false_ne_true hboth.1, bind, Except.bind, pure, Except.pure,
      hfound]
    rw [if_neg (not_not.mpr hchunked.2)]
    rfl
  · rw [List.length_append, length_nullRows]

/-- A later bound leaves the search in the same chunk or moves it behind the
earlier bound. -/
theorem chunkRows_mono {query : HitQuery} {maxLength : ℕ}
    (hle : query.maxLength ≤ maxLength) (hquery : query.Supported)
    {attentionChunkSize : ℕ} {found found' : List Row}
    (hfound : query.chunkRows attentionChunkSize = .ok found)
    (hfound' : (query.withMaxLength maxLength).chunkRows attentionChunkSize =
      .ok found') :
    query.chunkStart attentionChunkSize + found.length ≤
      (query.withMaxLength maxLength).chunkStart attentionChunkSize +
        found'.length := by
  have hdiv : query.maxLength / query.blockSize ≤
      maxLength / query.blockSize :=
    Nat.div_le_div_right hle
  by_cases hsame : query.maxLength / attentionChunkSize =
      maxLength / attentionChunkSize
  · have hstart : (query.withMaxLength maxLength).chunkStart
        attentionChunkSize = query.chunkStart attentionChunkSize := by
      simp only [chunkStart, hsame]
      rfl
    rw [hstart]
    simp only [chunkRows, hstart] at hfound hfound'
    exact Nat.add_le_add_left (cachedRange_mono hdiv hdiv hfound hfound') _
  · have hlt : query.maxLength / attentionChunkSize <
        maxLength / attentionChunkSize :=
      lt_of_le_of_ne (Nat.div_le_div_right hle) hsame
    have hpos : 0 < attentionChunkSize := by
      apply Nat.pos_of_ne_zero
      intro hzero
      rw [hzero, Nat.div_zero, Nat.div_zero] at hlt
      exact Nat.lt_irrefl 0 hlt
    have hbound : query.maxLength ≤
        maxLength / attentionChunkSize * attentionChunkSize :=
      Nat.le_of_lt ((Nat.div_lt_iff_lt_mul hpos).mp hlt)
    have hstart : query.maxLength / query.blockSize ≤
        (query.withMaxLength maxLength).chunkStart attentionChunkSize :=
      Nat.div_le_div_right hbound
    cases chunkRows_ok hquery attentionChunkSize with
    | intro rows hrows =>
        have hrows' := hrows.2
        rw [Except.ok.inj (hrows.1.symm.trans hfound)] at hrows'
        omega

/-- The tokens that an EAGLE drop takes off at least. -/
def dropped (query : HitQuery) : ℕ :=
  if query.dropEagleBlock ∧ ¬query.kvCacheSpec.isMamba then
    min query.alignmentTokens query.blockSize
  else 0

/-- A finder's rows, with as many of them as the hit length needs. -/
structure Hit (query : HitQuery) (rows : List Row) (hitLength : ℕ) :
    Prop where
  result : query.findLongestCacheHit = .ok (rows, hitLength)
  blocks : rows.length = cdiv hitLength query.blockSize
  bound : hitLength ≤ query.maxLength - query.dropped

section Kind

variable {query : HitQuery}

theorem findLongestCacheHit_fullAttention
    (hkind : query.kvCacheSpec.kind = .fullAttention) :
    query.findLongestCacheHit = query.findFullAttention := by
  simp only [findLongestCacheHit, hkind]

theorem findLongestCacheHit_mamba
    (hkind : query.kvCacheSpec.kind = .mamba) :
    query.findLongestCacheHit = query.findMamba := by
  simp only [findLongestCacheHit, hkind]

theorem findLongestCacheHit_slidingWindow {slidingWindow : ℕ}
    (hkind : query.kvCacheSpec.kind = .slidingWindow slidingWindow) :
    query.findLongestCacheHit = query.findSlidingWindow slidingWindow := by
  simp only [findLongestCacheHit, hkind]

theorem findLongestCacheHit_chunkedLocal {attentionChunkSize : ℕ}
    (hkind : query.kvCacheSpec.kind = .chunkedLocal attentionChunkSize) :
    query.findLongestCacheHit =
      query.findChunkedLocal attentionChunkSize := by
  simp only [findLongestCacheHit, hkind]

end Kind

theorem lowered_le_sub (query : HitQuery)
    (hkind : query.kvCacheSpec.isMamba = false) {raw : ℕ}
    (hraw : raw ≤ query.maxLength) :
    query.lowered raw ≤ query.maxLength - query.dropped := by
  simp only [lowered, dropped, hkind, Bool.false_eq_true, not_false_eq_true,
    and_true]
  by_cases hdrop : query.dropEagleBlock = true
  · simp only [hdrop, true_and, if_true]
    split <;> omega
  · rw [if_neg fun hboth => hdrop hboth.1, if_neg hdrop]
    omega

theorem findFullAttention_hit {query : HitQuery} (hquery : query.Supported)
    (hkind : query.kvCacheSpec.kind = .fullAttention) :
    ∃ rows hitLength, query.Hit rows hitLength := by
  have hfull : query.kvCacheSpec.isFullAttention = true := by
    simp [GroupSpec.isFullAttention, hkind]
  have hmamba : query.kvCacheSpec.isMamba = false := by
    simp [GroupSpec.isMamba, hkind]
  cases findFullAttention_ok hquery hfull with
  | intro tail htail =>
      have hraw : query.rawHit tail ≤ query.maxLength := by
        by_cases hfine : query.FineGrained
        · exact rawHit_le hquery hfine (htail.fine hfine)
        · rw [htail.coarse hfine]
          exact query.wholeBlocks_mul_le
      have hrows : (query.fullRows tail).length =
          cdiv (query.lowered (query.rawHit tail)) query.blockSize := by
        apply length_fullRows hquery
        intro found hfound
        have hfine : query.FineGrained := by
          by_contra hcoarse
          rw [htail.coarse hcoarse] at hfound
          cases hfound
        exact ⟨hfine, htail.fine hfine⟩
      refine ⟨_, _, ?_, hrows, query.lowered_le_sub hmamba hraw⟩
      exact (findLongestCacheHit_fullAttention hkind).trans htail.result

theorem findMamba_hit {query : HitQuery} (hquery : query.Supported)
    (hkind : query.kvCacheSpec.kind = .mamba) :
    ∃ rows hitLength, query.Hit rows hitLength := by
  cases mambaSearch_ok hquery with
  | intro found hfound =>
      cases findMamba_ok hquery hkind hfound.1 with
      | intro rows hrows =>
          refine ⟨rows, _, ?_, hrows.2, ?_⟩
          · exact (findLongestCacheHit_mamba hkind).trans hrows.1
          · simpa [dropped, GroupSpec.isMamba, hkind] using hfound.2

theorem findSlidingWindow_hit {query : HitQuery} (hquery : query.Supported)
    {slidingWindow : ℕ}
    (hkind : query.kvCacheSpec.kind = .slidingWindow slidingWindow) :
    ∃ rows hitLength, query.Hit rows hitLength := by
  have hfull : query.kvCacheSpec.isFullAttention = false := by
    simp [GroupSpec.isFullAttention, hkind]
  cases windowMatch_ok hquery slidingWindow with
  | intro found hfound =>
      cases findSlidingWindow_ok hquery hkind hfound.1 with
      | intro rows hrows =>
          refine ⟨rows, query.keptBlocks found * query.blockSize, ?_, ?_, ?_⟩
          · exact (findLongestCacheHit_slidingWindow hkind).trans hrows.1
          · rw [hrows.2, cdiv_mul hquery.block_pos]
          · have hdropped : query.dropped ≤
                (if query.dropEagleBlock then 1 else 0) *
                  query.blockSize := by
              by_cases hdrop : query.dropEagleBlock = true
              · rw [if_pos hdrop, Nat.one_mul, dropped]
                split
                · exact Nat.min_le_right _ _
                · exact Nat.zero_le _
              · rw [dropped, if_neg fun hboth => hdrop hboth.1]
                exact Nat.zero_le _
            calc query.keptBlocks found * query.blockSize
                ≤ (query.maxLength / query.blockSize -
                    if query.dropEagleBlock then 1 else 0) *
                      query.blockSize :=
                  Nat.mul_le_mul_right _ ((query.keptBlocks_le found).trans
                    (Nat.sub_le_sub_right hfound.2 _))
              _ = query.maxLength / query.blockSize * query.blockSize -
                    (if query.dropEagleBlock then 1 else 0) *
                      query.blockSize :=
                  Nat.sub_mul _ _ _
              _ ≤ query.maxLength - query.dropped := by
                  have hle := Nat.div_mul_le_self query.maxLength
                    query.blockSize
                  omega

theorem findChunkedLocal_hit {query : HitQuery} (hquery : query.Supported)
    {attentionChunkSize : ℕ}
    (hkind : query.kvCacheSpec.kind = .chunkedLocal attentionChunkSize) :
    ∃ rows hitLength, query.Hit rows hitLength := by
  cases chunkRows_ok hquery attentionChunkSize with
  | intro found hfound =>
      cases findChunkedLocal_ok hquery hkind hfound.1 with
      | intro rows hrows =>
          refine ⟨rows, _, ?_, (cdiv_mul hquery.block_pos).symm, ?_⟩
          · exact (findLongestCacheHit_chunkedLocal hkind).trans hrows.1
          · have hdropped : query.dropped = 0 := by
              simp [dropped, (hquery.chunked attentionChunkSize hkind).1]
            rw [hdropped, Nat.sub_zero, hrows.2]
            exact (Nat.mul_le_mul_right _ hfound.2).trans
              (Nat.div_mul_le_self _ _)

/-- On a supported query the finder returns. -/
theorem findLongestCacheHit_hit {query : HitQuery}
    (hquery : query.Supported) :
    ∃ rows hitLength, query.Hit rows hitLength := by
  cases hkind : query.kvCacheSpec.kind with
  | fullAttention => exact findFullAttention_hit hquery hkind
  | slidingWindow window => exact findSlidingWindow_hit hquery hkind
  | chunkedLocal chunkSize => exact findChunkedLocal_hit hquery hkind
  | mamba => exact findMamba_hit hquery hkind

theorem Hit.length_eq {query : HitQuery} {rows rows' : List Row}
    {hitLength hitLength' : ℕ} (hhit : query.Hit rows hitLength)
    (hresult : query.findLongestCacheHit = .ok (rows', hitLength')) :
    hitLength = hitLength' :=
  congrArg Prod.snd (Except.ok.inj (hhit.result.symm.trans hresult))

section Mono

variable {query : HitQuery} {maxLength : ℕ} (hquery : query.Supported)
  (hquery' : (query.withMaxLength maxLength).Supported)
  (hle : query.maxLength ≤ maxLength) {rows rows' : List Row}
  {hitLength hitLength' : ℕ} (hhit : query.Hit rows hitLength)
  (hhit' : (query.withMaxLength maxLength).Hit rows' hitLength')

include hquery hquery' hle hhit hhit'

theorem Hit.mono_fullAttention
    (hkind : query.kvCacheSpec.kind = .fullAttention) :
    hitLength ≤ hitLength' := by
  have hkind' : (query.withMaxLength maxLength).kvCacheSpec.kind =
      .fullAttention := hkind
  have hfull : query.kvCacheSpec.isFullAttention = true := by
    simp [GroupSpec.isFullAttention, hkind]
  cases findFullAttention_ok hquery hfull with
  | intro tail htail =>
      cases findFullAttention_ok hquery' hfull with
      | intro tail' htail' =>
          have hresult := htail.result
          have hresult' := htail'.result
          have hraw := rawHit_mono hquery hquery' hle htail htail'
          rw [hhit.length_eq
              ((findLongestCacheHit_fullAttention hkind).trans hresult),
            hhit'.length_eq
              ((findLongestCacheHit_fullAttention hkind').trans hresult')]
          exact lowered_mono query hraw

theorem Hit.mono_mamba (hkind : query.kvCacheSpec.kind = .mamba) :
    hitLength ≤ hitLength' := by
  have hkind' : (query.withMaxLength maxLength).kvCacheSpec.kind =
      .mamba := hkind
  obtain ⟨found, hfound, -⟩ := mambaSearch_ok hquery
  obtain ⟨found', hfound', -⟩ := mambaSearch_ok hquery'
  obtain ⟨_, hresult, -⟩ := findMamba_ok hquery hkind hfound
  obtain ⟨_, hresult', -⟩ := findMamba_ok hquery' hkind' hfound'
  rw [hhit.length_eq ((findLongestCacheHit_mamba hkind).trans hresult),
    hhit'.length_eq
      ((findLongestCacheHit_mamba hkind').trans hresult')]
  exact Nat.mul_le_mul_right _ (mambaSearch_mono hle hfound hfound')

theorem Hit.mono_slidingWindow {slidingWindow : ℕ}
    (hkind : query.kvCacheSpec.kind = .slidingWindow slidingWindow) :
    hitLength ≤ hitLength' := by
  have hkind' : (query.withMaxLength maxLength).kvCacheSpec.kind =
      .slidingWindow slidingWindow := hkind
  have hdiv : query.maxLength / query.blockSize ≤
      maxLength / query.blockSize :=
    Nat.div_le_div_right hle
  obtain ⟨found, hfound, -⟩ := windowMatch_ok hquery slidingWindow
  obtain ⟨found', hfound', -⟩ := windowMatch_ok hquery' slidingWindow
  obtain ⟨_, hresult, -⟩ := findSlidingWindow_ok hquery hkind hfound
  obtain ⟨_, hresult', -⟩ := findSlidingWindow_ok hquery' hkind' hfound'
  rw [hhit.length_eq ((findLongestCacheHit_slidingWindow hkind).trans hresult),
    hhit'.length_eq
      ((findLongestCacheHit_slidingWindow hkind').trans hresult')]
  exact Nat.mul_le_mul_right _
    (query.keptBlocks_mono (windowSearch_mono hdiv hfound hfound'))

theorem Hit.mono_chunkedLocal {attentionChunkSize : ℕ}
    (hkind : query.kvCacheSpec.kind = .chunkedLocal attentionChunkSize) :
    hitLength ≤ hitLength' := by
  have hkind' : (query.withMaxLength maxLength).kvCacheSpec.kind =
      .chunkedLocal attentionChunkSize := hkind
  obtain ⟨found, hfound, -⟩ := chunkRows_ok hquery attentionChunkSize
  obtain ⟨found', hfound', -⟩ := chunkRows_ok hquery' attentionChunkSize
  obtain ⟨_, hresult, hrows⟩ := findChunkedLocal_ok hquery hkind hfound
  obtain ⟨_, hresult', hrows'⟩ := findChunkedLocal_ok hquery' hkind' hfound'
  rw [hhit.length_eq ((findLongestCacheHit_chunkedLocal hkind).trans hresult),
    hhit'.length_eq
      ((findLongestCacheHit_chunkedLocal hkind').trans hresult'),
    hrows, hrows']
  exact Nat.mul_le_mul_right _ (chunkRows_mono hle hquery hfound hfound')

/-- A query that may look further finds a hit that is no shorter. -/
theorem Hit.mono : hitLength ≤ hitLength' := by
  cases hkind : query.kvCacheSpec.kind with
  | fullAttention =>
      exact Hit.mono_fullAttention hquery hquery' hle hhit hhit' hkind
  | slidingWindow window =>
      exact Hit.mono_slidingWindow hquery hquery' hle hhit hhit' hkind
  | chunkedLocal chunkSize =>
      exact Hit.mono_chunkedLocal hquery hquery' hle hhit hhit' hkind
  | mamba => exact Hit.mono_mamba hquery hquery' hle hhit hhit' hkind

end Mono

end HitQuery

end GlmFlash.Cache
