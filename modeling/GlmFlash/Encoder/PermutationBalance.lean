import GlmFlash.Encoder.Permutation
import GlmFlash.Library.GreedyBuckets
import GlmFlash.Normalization.PriorSearch

/-!
# Balanced permutations

The greedy loop always finds a bucket with room, fills every bucket, and keeps the
energies of any two of them within the largest single energy of each other.
-/

namespace GlmFlash.Encoder.Permutation

open GlmFlash.Library

/-! ## Permutations -/

theorem insertionSort_eq_range {permutation : List ℕ} {size : ℕ} :
    permutation.insertionSort (fun left right => left ≤ right) = List.range size ↔
      permutation.Perm (List.range size) := by
  constructor
  · intro heq
    rw [← heq]
    exact (permutation.perm_insertionSort _).symm
  · intro hperm
    exact ((permutation.perm_insertionSort _).trans hperm).eq_of_pairwise
      (fun _ _ _ _ => Nat.le_antisymm) (permutation.pairwise_insertionSort _)
      List.pairwise_le_range

theorem validatePermutation_eq_ok {permutation found : List ℕ} {size : ℕ} :
    validatePermutation permutation size = .ok found ↔
      permutation.Perm (List.range size) ∧ found = permutation := by
  simp only [validatePermutation, bind_eq_ok, require_eq_ok, pure_eq_ok,
    insertionSort_eq_range]
  constructor
  · rintro ⟨_, ⟨_, hperm⟩, rfl⟩
    exact ⟨hperm, rfl⟩
  · rintro ⟨hperm, rfl⟩
    exact ⟨(), ⟨hperm.length_eq.trans List.length_range, hperm⟩, rfl⟩

/-! ## Orders of energy -/

section Descending

variable {values : List ℚ} {indices : List ℕ}

/-- The energy of a channel. -/
def energy (values : List ℚ) (index : ℕ) : ℚ := values.getD index 0

instance : Std.Total (Precedes values) := ⟨fun _ _ => le_total _ _⟩

instance : IsTrans ℕ (Precedes values) := ⟨fun _ _ _ => le_trans⟩

theorem descending_perm (values : List ℚ) (indices : List ℕ) :
    (descending values indices).Perm indices :=
  indices.perm_insertionSort _

theorem energy_le_of_precedes {index index' : ℕ} (hprecedes : Precedes values index index') :
    energy values index' ≤ energy values index :=
  neg_le_neg_iff.mp (Prod.Lex.monotone_fst _ _ hprecedes)

theorem pairwise_descending (values : List ℚ) (indices : List ℕ) :
    (descending values indices).Pairwise fun index index' =>
      energy values index' ≤ energy values index :=
  (indices.pairwise_insertionSort (Precedes values)).imp energy_le_of_precedes

theorem of_mem_zip_tail {A : Type*} {relation : A → A → Prop} {items : List A}
    (hpairwise : items.Pairwise relation) {pair : A × A}
    (hmem : pair ∈ items.zip items.tail) : relation pair.1 pair.2 := by
  induction items with
  | nil => cases hmem
  | cons first items ih =>
      obtain ⟨hfirst, hrest⟩ := List.pairwise_cons.mp hpairwise
      cases items with
      | nil => cases hmem
      | cons second items =>
          rw [List.tail_cons, List.zip_cons_cons] at hmem
          cases List.mem_cons.mp hmem with
          | inl heq => rw [heq]; exact hfirst second List.mem_cons_self
          | inr hlater => exact ih hrest hlater

/-- The bottom-up walk over the reversed order finds descending energies. -/
theorem descendingDiagPermutation_eq_ok (diagonal : List ℚ) :
    descendingDiagPermutation diagonal =
      .ok (descending diagonal (List.range diagonal.length)).reverse := by
  set ranked := descending diagonal (List.range diagonal.length) with hranked
  have hlength : ranked.reverse.length = diagonal.length := by
    rw [List.length_reverse, (descending_perm _ _).length_eq, List.length_range]
  have hvisit : ldlqVisitOldIndices ranked.reverse = .ok ranked := by
    have hvalid : validatePermutation ranked.reverse ranked.reverse.length =
        .ok ranked.reverse := by
      refine validatePermutation_eq_ok.mpr ⟨?_, rfl⟩
      rw [hlength]
      exact (List.reverse_perm ranked).trans (descending_perm _ _)
    rw [ldlqVisitOldIndices, hvalid]
    exact congrArg Except.ok (List.reverse_reverse ranked)
  have hdescends : ((ranked.map (energy diagonal)).zip
      (ranked.map (energy diagonal)).tail).any (fun pair => pair.1 < pair.2) = false := by
    rw [List.any_eq_false]
    intro pair hpair
    have hpairwise : (ranked.map (energy diagonal)).Pairwise (· ≥ ·) :=
      List.pairwise_map.mpr (pairwise_descending diagonal _)
    have hle := of_mem_zip_tail hpairwise hpair
    rw [decide_eq_true_eq]
    exact not_lt.mpr hle
  have hassert : assertLdlqVisitDescending ranked.reverse diagonal = .ok () := by
    rw [assertLdlqVisitDescending, hvisit]
    exact require_eq_ok.mpr hdescends
  rw [descendingDiagPermutation, ← hranked]
  change (assertLdlqVisitDescending ranked.reverse diagonal >>= fun _ => _) = _
  rw [hassert]
  rfl

end Descending

/-! ## Balanced blocks -/

section Fill

variable {values : List ℚ} {block nblocks : ℕ} {placed : List ℕ} {filling : Filling}

/-- The buckets of a greedy filling, with the totals kept beside them. -/
structure Filled (values : List ℚ) (block nblocks : ℕ) (placed : List ℕ)
    (filling : Filling) : Prop where
  greedy : GreedyFill (energy values) block nblocks placed filling.buckets
  totals : filling.totals = filling.buckets.map (total (energy values))

theorem Filled.getD_totals (hfilled : Filled values block nblocks placed filling)
    {bucket : ℕ} {indices : List ℕ} (hbucket : filling.buckets[bucket]? = some indices) :
    filling.totals.getD bucket 0 = total (energy values) indices := by
  rw [hfilled.totals, List.getD_eq_getElem?_getD, List.getElem?_map, hbucket,
    Option.map_some, Option.getD_some]

theorem totals_modify {buckets : List (List ℕ)} {destination : ℕ} (index : ℕ) :
    (buckets.map (total (energy values))).modify destination (· + values.getD index 0) =
      (buckets.modify destination (· ++ [index])).map (total (energy values)) := by
  apply List.ext_getElem?
  intro place
  simp only [List.getElem?_modify, List.getElem?_map]
  cases buckets[place]? with
  | none => rfl
  | some bucket =>
      by_cases heq : destination = place
      · simp [heq, energy]
      · simp [heq]

/-- While a place is free, the channel goes to a lightest bucket with room. -/
theorem placeIndex_eq_ok (hfilled : Filled values block nblocks placed filling)
    (hroom : placed.length < nblocks * block) {index : ℕ}
    (hlight : ∀ earlier ∈ placed, energy values index ≤ energy values earlier) :
    ∃ next, placeIndex values block nblocks filling index = .ok next ∧
      Filled values block nblocks (placed ++ [index]) next := by
  have hlength := hfilled.greedy.length_eq
  have heligible (bucket : ℕ) (indices : List ℕ)
      (hbucket : filling.buckets[bucket]? = some indices) :
      bucket ∈ (List.range nblocks).filter (fun bucket =>
        (filling.buckets.getD bucket []).length < block) ↔ indices.length < block := by
    have hlt := (List.getElem?_eq_some_iff.mp hbucket).1
    rw [List.mem_filter, List.mem_range, List.getD_eq_getElem?_getD, hbucket,
      Option.getD_some, decide_eq_true_eq, ← hlength]
    exact and_iff_right hlt
  rw [placeIndex]
  set eligible := (List.range nblocks).filter fun bucket =>
    (filling.buckets.getD bucket []).length < block with helig
  cases hdestination : eligible.argmin fun bucket =>
      toLex (filling.totals.getD bucket 0, bucket) with
  | none =>
      obtain ⟨indices, hmem, hshort⟩ := hfilled.greedy.exists_room hroom
      obtain ⟨bucket, hbucket⟩ := List.mem_iff_getElem?.mp hmem
      have hbucketMem := (heligible bucket indices hbucket).mpr hshort
      rw [List.argmin_eq_none.mp hdestination] at hbucketMem
      cases hbucketMem
  | some destination =>
      have hmem : destination ∈ eligible := List.argmin_mem hdestination
      have hlt : destination < filling.buckets.length := by
        rw [hlength]
        exact List.mem_range.mp (List.mem_of_mem_filter hmem)
      have hbucket := List.getElem?_eq_getElem hlt
      refine ⟨_, rfl, ?_, ?_⟩
      · refine hfilled.greedy.place hbucket ((heligible _ _ hbucket).mp hmem) ?_ hlight
        intro other hother hshort
        obtain ⟨place, hplace⟩ := List.mem_iff_getElem?.mp hother
        have hle := List.le_of_mem_argmin ((heligible _ _ hplace).mpr hshort) hdestination
        have hfirst := Prod.Lex.monotone_fst _ _ hle
        change filling.totals.getD destination 0 ≤ filling.totals.getD place 0 at hfirst
        rwa [hfilled.getD_totals hbucket, hfilled.getD_totals hplace] at hfirst
      · change filling.totals.modify _ _ = _
        rw [hfilled.totals]
        exact totals_modify index

theorem fillBuckets_eq_ok (hdvd : block ∣ values.length) :
    ∃ filling, fillBuckets values block = .ok filling ∧
      Filled values block (values.length / block)
        (descending values (List.range values.length)) filling := by
  set ranked := descending values (List.range values.length) with hranked
  have hlength : ranked.length = values.length / block * block := by
    rw [hranked, (descending_perm _ _).length_eq, List.length_range,
      Nat.div_mul_cancel hdvd]
  have hstart : Filled values block (values.length / block) []
      ⟨List.replicate (values.length / block) [],
        List.replicate (values.length / block) 0⟩ := by
    refine ⟨.start, ?_⟩
    rw [List.map_replicate]
    rfl
  rw [fillBuckets]
  refine foldlM_prefix_total (Filled values block (values.length / block)) ?_ hstart
  intro before index after hsplit filling hfilled
  rw [List.nil_append, ← hranked] at hsplit
  have hpairwise := pairwise_descending values (List.range values.length)
  rw [← hranked, hsplit, List.pairwise_append] at hpairwise
  apply placeIndex_eq_ok hfilled
  · rw [← hlength, hsplit, List.length_append, List.length_cons]
    omega
  · exact fun earlier hearlier => hpairwise.2.2 earlier hearlier index List.mem_cons_self

end Fill

section Arrange

variable {values : List ℚ} {block : ℕ} {serpentine : Bool}

theorem arrangeBucket_perm (values : List ℚ) (serpentine : Bool) (bucket : ℕ)
    (indices : List ℕ) : (arrangeBucket values serpentine bucket indices).Perm indices := by
  rw [arrangeBucket]
  split
  · exact (List.reverse_perm _).trans (descending_perm values indices)
  · exact descending_perm values indices

theorem arranged_perm (values : List ℚ) (serpentine : Bool) (buckets : List (List ℕ))
    (start : ℕ) : List.Forall₂ List.Perm ((buckets.zipIdx start).map fun entry =>
      arrangeBucket values serpentine entry.2 entry.1) buckets := by
  induction buckets generalizing start with
  | nil => exact .nil
  | cons bucket buckets ih =>
      exact .cons (arrangeBucket_perm values serpentine start bucket) (ih (start + 1))

/-- A run of positions in the concatenation of full lists is one of them. -/
theorem run_flatten {A : Type*} {lists : List (List A)}
    (hlength : ∀ items ∈ lists, items.length = block) {place : ℕ} {items : List A}
    (hitems : lists[place]? = some items) :
    (lists.flatten.drop (place * block)).take block = items := by
  induction lists generalizing place with
  | nil => cases hitems
  | cons first lists ih =>
      obtain ⟨hfirst, hrest⟩ := List.forall_mem_cons.mp hlength
      cases place with
      | zero =>
          cases hitems
          rw [Nat.zero_mul, List.drop_zero, List.flatten_cons, ← hfirst, List.take_left]
      | succ place =>
          rw [List.flatten_cons, Nat.succ_mul, Nat.add_comm, ← List.drop_drop, ← hfirst,
            List.drop_left, hfirst]
          exact ih hrest hitems

/-- The channels of a block of the permutation. -/
def run (permutation : List ℕ) (block place : ℕ) : List ℕ :=
  (permutation.drop (place * block)).take block

/-- What a balanced permutation is: a bijection whose runs are the buckets, each of
them full, with energies that differ by at most any bound of the single ones. -/
structure Balanced (values : List ℚ) (block : ℕ) (permutation : List ℕ) : Prop where
  perm : permutation.Perm (List.range values.length)
  buckets : ∃ filling, fillBuckets values block = .ok filling ∧
    filling.buckets.length = values.length / block ∧
    ∀ place bucket, filling.buckets[place]? = some bucket →
      bucket.length = block ∧ (run permutation block place).Perm bucket
  energies : ∀ bound, (∀ value ∈ values, value ≤ bound) →
    ∀ place < values.length / block, ∀ place' < values.length / block,
      ((run permutation block place).map (energy values)).sum ≤
        bound + ((run permutation block place').map (energy values)).sum

theorem arrangedIndices_balanced (hvalues : values ≠ []) (hdvd : block ∣ values.length)
    (hnonneg : ∀ value ∈ values, 0 ≤ value)
    (serpentine : Bool) :
    ∃ indices, arrangedIndices values block serpentine = .ok indices ∧
      Balanced values block indices := by
  obtain ⟨filling, hfill, hfilled⟩ := fillBuckets_eq_ok hdvd
  set arranged := filling.buckets.zipIdx.map fun entry =>
    arrangeBucket values serpentine entry.2 entry.1 with harranged
  have hperms : List.Forall₂ List.Perm arranged filling.buckets :=
    arranged_perm values serpentine filling.buckets 0
  have hranked := descending_perm values (List.range values.length)
  have hfull : ∀ bucket ∈ filling.buckets, bucket.length = block := by
    apply hfilled.greedy.length_eq_capacity
    rw [hranked.length_eq, List.length_range, Nat.div_mul_cancel hdvd]
  have hlengths : ∀ items ∈ arranged, items.length = block := by
    intro items hitems
    obtain ⟨bucket, hbucket, hperm⟩ := forall₂_mem_left hperms hitems
    rw [hperm.length_eq, hfull bucket hbucket]
  have hrun (place : ℕ) (bucket : List ℕ) (hbucket : filling.buckets[place]? = some bucket) :
      (run arranged.flatten block place).Perm bucket := by
    have hitems : arranged[place]? = some (arrangeBucket values serpentine place bucket) := by
      rw [harranged, List.getElem?_map, List.getElem?_zipIdx, hbucket, Option.map_some,
        Option.map_some, Nat.zero_add]
    rw [run, run_flatten hlengths hitems]
    exact arrangeBucket_perm values serpentine place bucket
  have hmem : ∀ index ∈ descending values (List.range values.length),
      energy values index ∈ values := by
    intro index hindex
    have hlt := List.mem_range.mp (hranked.mem_iff.mp hindex)
    rw [energy, List.getD_eq_getElem?_getD, List.getElem?_eq_getElem hlt, Option.getD_some]
    exact List.getElem_mem hlt
  refine ⟨arranged.flatten, ?_, ?_, ?_, ?_⟩
  · rw [arrangedIndices, hfill]
    rfl
  · exact (List.Perm.flatten_congr hperms).trans (hfilled.greedy.perm.trans hranked)
  · refine ⟨filling, hfill, hfilled.greedy.length_eq, ?_⟩
    intro place bucket hbucket
    exact ⟨hfull bucket (List.mem_of_getElem? hbucket), hrun place bucket hbucket⟩
  · intro bound hbound place hplace place' hplace'
    rw [← hfilled.greedy.length_eq] at hplace hplace'
    have hleft := List.getElem?_eq_getElem hplace
    have hright := List.getElem?_eq_getElem hplace'
    have hzero : 0 ≤ bound := by
      obtain ⟨value, hvalue⟩ := List.exists_mem_of_ne_nil values hvalues
      exact (hnonneg value hvalue).trans (hbound value hvalue)
    have hle := hfilled.greedy.total_le (fun index hindex => hnonneg _ (hmem index hindex))
      (fun index hindex => hbound _ (hmem index hindex)) hzero hleft hright
    rwa [total, total, ← ((hrun place _ hleft).map _).sum_eq,
      ← ((hrun place' _ hright).map _).sum_eq] at hle

/-- Both implementations return the same balanced permutation. -/
theorem energyBalancedPermutation_balanced (hblock : 1 ≤ block) (hvalues : values ≠ [])
    (hdvd : block ∣ values.length) (hnonneg : ∀ value ∈ values, 0 ≤ value)
    (serpentine : Bool) :
    ∃ permutation, energyBalancedPermutation values block serpentine = .ok permutation ∧
      Normalization.energyBalancedPermutation values block serpentine = .ok permutation ∧
      Balanced values block permutation := by
  obtain ⟨indices, harranged, hbalanced⟩ :=
    arrangedIndices_balanced hvalues hdvd hnonneg serpentine
  have hzero : values.length % block = 0 := Nat.mod_eq_zero_of_dvd hdvd
  refine ⟨indices, ?_, ?_, hbalanced⟩
  · simp only [energyBalancedPermutation, bind_eq_ok, require_eq_ok]
    exact ⟨(), hvalues, (), Nat.ne_of_gt hblock, (), hzero, indices, harranged,
      validatePermutation_eq_ok.mpr ⟨hbalanced.perm, rfl⟩⟩
  · simp only [Normalization.energyBalancedPermutation, Normalization.validatePermutation,
      bind_eq_ok, require_eq_ok, pure_eq_ok, Option.getD_some, insertionSort_eq_range]
    have hpos : 1 ≤ values.length := List.length_pos_of_ne_nil hvalues
    have hlength : indices.length = values.length :=
      hbalanced.perm.length_eq.trans List.length_range
    exact ⟨(), ⟨hvalues, hblock, hzero, hnonneg⟩, indices, harranged, (),
      ⟨hpos, hlength, hbalanced.perm⟩, rfl⟩

end Arrange

end GlmFlash.Encoder.Permutation
