import GlmFlash.Encoder.PermutationBalance

/-!
# Permuted experts

A permutation of the intermediate channels reorders the terms of the sum that an
expert computes, and the inverse permutation restores its weights.
-/

namespace GlmFlash.Encoder.Permutation

open GlmFlash.Library

variable {permutation : List ℕ} {size : ℕ}

/-! ## Inverses -/

section Writes

variable {entries : List (ℕ × ℕ)} {start : List ℕ}

theorem length_foldl_set :
    (entries.foldl (fun inverse entry => inverse.set entry.1 entry.2) start).length =
      start.length := by
  induction entries generalizing start with
  | nil => rfl
  | cons entry entries ih => rw [List.foldl_cons, ih, List.length_set]

theorem foldl_set_of_notMem {place : ℕ} (hplace : place ∉ entries.map Prod.fst) :
    (entries.foldl (fun inverse entry => inverse.set entry.1 entry.2) start)[place]? =
      start[place]? := by
  induction entries generalizing start with
  | nil => rfl
  | cons entry entries ih =>
      rw [List.map_cons, List.mem_cons, not_or] at hplace
      rw [List.foldl_cons, ih hplace.2, List.getElem?_set_ne (Ne.symm hplace.1)]

/-- Every place that is written once keeps what was written. -/
theorem foldl_set_of_mem (hnodup : (entries.map Prod.fst).Nodup) {entry : ℕ × ℕ}
    (hmem : entry ∈ entries) (hplace : entry.1 < start.length) :
    (entries.foldl (fun inverse entry => inverse.set entry.1 entry.2) start)[entry.1]? =
      some entry.2 := by
  induction entries generalizing start with
  | nil => cases hmem
  | cons first entries ih =>
      rw [List.map_cons, List.nodup_cons] at hnodup
      rw [List.foldl_cons]
      cases List.mem_cons.mp hmem with
      | inl heq =>
          subst heq
          rw [foldl_set_of_notMem hnodup.1, List.getElem?_set_self hplace]
      | inr hlater => exact ih hnodup.2 hlater (by rwa [List.length_set])

end Writes

/-- The inverse of a permutation, and how the two undo each other. -/
theorem inversePermutation_eq_ok (hperm : permutation.Perm (List.range size)) :
    ∃ inverse, inversePermutation permutation = .ok inverse ∧
      inverse.Perm (List.range size) ∧
      ∀ old < size, permutation.getD (inverse.getD old 0) 0 = old := by
  have hlength : permutation.length = size := hperm.length_eq.trans List.length_range
  have hvalid : validatePermutation permutation permutation.length = .ok permutation :=
    validatePermutation_eq_ok.mpr ⟨hlength ▸ hperm, rfl⟩
  set inverse := permutation.zipIdx.foldl (fun inverse entry =>
    inverse.set entry.1 entry.2) (List.replicate permutation.length 0) with hinverse
  have hkeys : permutation.zipIdx.map Prod.fst = permutation := List.zipIdx_map_fst 0 _
  have hundo (new : ℕ) (hnew : new < permutation.length) :
      inverse.getD permutation[new] 0 = new := by
    have hmem : (permutation[new], new) ∈ permutation.zipIdx :=
      List.mk_mem_zipIdx_iff_getElem?.mpr (List.getElem?_eq_getElem hnew)
    have hold : permutation[new] < (List.replicate permutation.length 0).length := by
      rw [List.length_replicate, hlength]
      exact List.mem_range.mp (hperm.mem_iff.mp (List.getElem_mem hnew))
    have hnodup : (permutation.zipIdx.map Prod.fst).Nodup := by
      rw [hkeys]
      exact hperm.nodup_iff.mpr List.nodup_range
    have hget := foldl_set_of_mem hnodup hmem hold
    rw [← hinverse] at hget
    rw [List.getD_eq_getElem?_getD, hget, Option.getD_some]
  have hmap : permutation.map (fun old => inverse.getD old 0) = List.range size := by
    apply List.ext_getElem
    · rw [List.length_map, List.length_range, hlength]
    · intro new hleft hright
      rw [List.getElem_map, List.getElem_range]
      exact hundo new (by rwa [List.length_map] at hleft)
  have hself : (List.range size).map (fun old => inverse.getD old 0) = inverse := by
    have hinverseLength : inverse.length = size := by
      rw [hinverse, length_foldl_set, List.length_replicate, hlength]
    apply List.ext_getElem
    · rw [List.length_map, List.length_range, hinverseLength]
    · intro old hleft hright
      rw [List.getElem_map, List.getElem_range, List.getD_eq_getElem?_getD,
        List.getElem?_eq_getElem hright, Option.getD_some]
  refine ⟨inverse, ?_, ?_, ?_⟩
  · rw [inversePermutation, hvalid]
    rfl
  · have hmapped := (hperm.map fun old => inverse.getD old 0).symm
    rwa [hself, hmap] at hmapped
  · intro old hold
    obtain ⟨new, hnew, rfl⟩ :=
      List.getElem_of_mem (hperm.mem_iff.mpr (List.mem_range.mpr hold))
    rw [hundo new hnew, List.getD_eq_getElem?_getD, List.getElem?_eq_getElem hnew,
      Option.getD_some]

/-! ## Experts -/

/-- A sum over the channels does not depend on their order. -/
theorem sum_permuted {R : Type} [AddCommMonoid R] (hperm : permutation.Perm (List.range size))
    (term : ℕ → R) :
    ∑ channel ∈ Finset.range permutation.length, term (permutation.getD channel 0) =
      ∑ channel ∈ Finset.range size, term channel := by
  have hlisted : (List.range permutation.length).map
      (fun channel => term (permutation.getD channel 0)) = permutation.map term := by
    apply List.ext_getElem
    · rw [List.length_map, List.length_map, List.length_range]
    · intro channel hleft hright
      rw [List.length_map] at hright
      rw [List.getElem_map, List.getElem_map, List.getElem_range,
        List.getD_eq_getElem?_getD, List.getElem?_eq_getElem hright, Option.getD_some]
  calc ∑ channel ∈ Finset.range permutation.length, term (permutation.getD channel 0)
      = ((List.range permutation.length).map fun channel =>
          term (permutation.getD channel 0)).sum := rfl
    _ = (permutation.map term).sum := by rw [hlisted]
    _ = ((List.range size).map term).sum := (hperm.map term).sum_eq
    _ = ∑ channel ∈ Finset.range size, term channel := rfl

section Experts

variable {R : Type} {expert permuted : Expert R}

theorem permuteExpertHf_eq_ok : permuteExpertHf expert permutation = .ok permuted ↔
    permutation.Perm (List.range expert.gate.rows) ∧
      (expert.gate.rows = expert.up.rows ∧ expert.gate.cols = expert.up.cols) ∧
      expert.down.cols = expert.gate.rows ∧
      permuted = ⟨expert.gate.selectRows permutation, expert.up.selectRows permutation,
        expert.down.selectCols permutation⟩ := by
  simp only [permuteExpertHf, bind_eq_ok, require_eq_ok, pure_eq_ok,
    validatePermutation_eq_ok]
  constructor
  · rintro ⟨_, ⟨hperm, rfl⟩, _, hshape, _, hdown, rfl⟩
    exact ⟨hperm, hshape, hdown, rfl⟩
  · rintro ⟨hperm, hshape, hdown, rfl⟩
    exact ⟨permutation, ⟨hperm, rfl⟩, (), hshape, (), hdown, rfl⟩

/-- The permuted expert computes the same function. -/
theorem forward_permuteExpertHf [NonUnitalNonAssocSemiring R] (act : R → R)
    (hpermuted : permuteExpertHf expert permutation = .ok permuted) :
    permuted.forward act = expert.forward act := by
  obtain ⟨hperm, _, _, rfl⟩ := permuteExpertHf_eq_ok.mp hpermuted
  funext input output
  exact sum_permuted hperm fun channel =>
    act (∑ place ∈ Finset.range expert.gate.cols, input place * expert.gate.entry channel place) *
      (∑ place ∈ Finset.range expert.up.cols, input place * expert.up.entry channel place) *
        expert.down.entry output channel

/-- The inverse permutation restores the weights. -/
theorem permuteExpertHf_inverse
    (hpermuted : permuteExpertHf expert permutation = .ok permuted) :
    ∃ inverse restored, inversePermutation permutation = .ok inverse ∧
      permuteExpertHf permuted inverse = .ok restored ∧
      restored.gate.Equal expert.gate ∧ restored.up.Equal expert.up ∧
      restored.down.Equal expert.down := by
  obtain ⟨hperm, hshape, hdown, rfl⟩ := permuteExpertHf_eq_ok.mp hpermuted
  obtain ⟨inverse, hinverse, hinversePerm, hundo⟩ := inversePermutation_eq_ok hperm
  have hlength : permutation.length = expert.gate.rows :=
    hperm.length_eq.trans List.length_range
  have hinverseLength : inverse.length = expert.gate.rows :=
    hinversePerm.length_eq.trans List.length_range
  refine ⟨inverse, _, hinverse, permuteExpertHf_eq_ok.mpr ⟨?_, ?_, rfl, rfl⟩, ?_, ?_, ?_⟩
  · change inverse.Perm (List.range permutation.length)
    rwa [hlength]
  · exact ⟨rfl, hshape.2⟩
  · refine ⟨hinverseLength, rfl, ?_⟩
    intro row hrow col _
    exact congrArg (expert.gate.entry · col) (hundo row hrow)
  · refine ⟨hinverseLength.trans hshape.1, rfl, ?_⟩
    intro row hrow col _
    exact congrArg (expert.up.entry · col) (hundo row (hshape.1 ▸ hrow))
  · refine ⟨rfl, hinverseLength.trans hdown.symm, ?_⟩
    intro row _ col hcol
    exact congrArg (expert.down.entry row ·) (hundo col (hdown ▸ hcol))

end Experts

/-- A balanced permutation is a bijection into full buckets of about equal energy, the
same in both implementations; the descending one never raises and stores the channels
in rising energy; and every permutation of an expert moves its rows and columns, keeps
its function and is undone by its inverse. -/
theorem energy_balanced_permutations :
    (∀ (values : List ℚ) (block : ℕ) (serpentine : Bool), 1 ≤ block → values ≠ [] →
      block ∣ values.length → (∀ value ∈ values, 0 ≤ value) →
      ∃ permutation, energyBalancedPermutation values block serpentine = .ok permutation ∧
        Normalization.energyBalancedPermutation values block serpentine = .ok permutation ∧
        Balanced values block permutation) ∧
    (∀ diagonal : List ℚ, ∃ stored, descendingDiagPermutation diagonal = .ok stored ∧
      stored.Perm (List.range diagonal.length) ∧
      stored.reverse.Pairwise (Precedes diagonal)) ∧
    ∀ (R : Type) [NonUnitalNonAssocSemiring R] (expert : Expert R) (permutation : List ℕ),
      permutation.Perm (List.range expert.gate.rows) →
      expert.gate.rows = expert.up.rows → expert.gate.cols = expert.up.cols →
      expert.down.cols = expert.gate.rows →
      ∃ permuted inverse restored, permuteExpertHf expert permutation = .ok permuted ∧
        inversePermutation permutation = .ok inverse ∧
        permuted.gate = expert.gate.selectRows permutation ∧
        permuted.up = expert.up.selectRows permutation ∧
        permuted.down = expert.down.selectCols permutation ∧
        permuteExpertHf permuted inverse = .ok restored ∧
        restored.gate.Equal expert.gate ∧ restored.up.Equal expert.up ∧
        restored.down.Equal expert.down ∧
        ∀ act : R → R, permuted.forward act = expert.forward act := by
  refine ⟨?balanced, ?descending, ?expert⟩
  case balanced =>
    intro values block serpentine hblock hvalues hdvd hnonneg
    exact energyBalancedPermutation_balanced hblock hvalues hdvd hnonneg serpentine
  case descending =>
    intro diagonal
    refine ⟨_, descendingDiagPermutation_eq_ok diagonal, ?_, ?_⟩
    · exact (List.reverse_perm _).trans (descending_perm diagonal _)
    · rw [List.reverse_reverse]
      exact List.pairwise_insertionSort (Precedes diagonal) _
  case expert =>
    intro R _ expert permutation hperm hrows hcols hdown
    have hpermuted := permuteExpertHf_eq_ok.mpr ⟨hperm, ⟨hrows, hcols⟩, hdown, rfl⟩
    obtain ⟨inverse, restored, hinverse, hrestored, hgate, hup, hdown⟩ :=
      permuteExpertHf_inverse hpermuted
    refine ⟨_, inverse, restored, hpermuted, hinverse, rfl, rfl, rfl, hrestored, hgate, hup,
      hdown, ?_⟩
    exact fun act => forward_permuteExpertHf act hpermuted

/-- Two blocks of three channels, of which one is forced into the heavy block, and an
expert of two channels that change places. -/
theorem energy_balanced_permutations_forced :
    (∃ permutation,
      energyBalancedPermutation [10, 1, 1, 1, 1, 1] 3 true = .ok permutation ∧
      Normalization.energyBalancedPermutation [10, 1, 1, 1, 1, 1] 3 true =
        .ok permutation ∧
      Balanced [10, 1, 1, 1, 1, 1] 3 permutation) ∧
    (∃ stored, descendingDiagPermutation [2, 5, 2] = .ok stored ∧ stored = [2, 0, 1]) ∧
    ∃ permuted inverse restored,
      permuteExpertHf (⟨⟨2, 1, fun row _ => row⟩, ⟨2, 1, fun _ _ => 1⟩,
        ⟨1, 2, fun _ col => col + 3⟩⟩ : Expert ℕ) [1, 0] = .ok permuted ∧
      inversePermutation [1, 0] = .ok inverse ∧
      permuteExpertHf permuted inverse = .ok restored ∧
      permuted.gate.entry 0 0 = 1 ∧ permuted.down.entry 0 0 = 4 ∧
      restored.down.entry 0 0 = 3 := by
  obtain ⟨hbalanced, hdescending, hexpert⟩ := energy_balanced_permutations
  refine ⟨?balanced, ?descending, ?expert⟩
  case balanced =>
    exact hbalanced [10, 1, 1, 1, 1, 1] 3 true (by decide) (by decide) (by decide) (by simp)
  case descending =>
    obtain ⟨stored, hstored, _⟩ := hdescending [2, 5, 2]
    have hcomputed : descendingDiagPermutation [2, 5, 2] = .ok [2, 0, 1] := by
      decide +kernel
    exact ⟨stored, hstored, Except.ok.inj (hstored.symm.trans hcomputed)⟩
  case expert =>
    obtain ⟨permuted, inverse, restored, hpermuted, hinverse, hgate, _, hdown, hrestored, _, _,
        hequal, _⟩ :=
      hexpert ℕ ⟨⟨2, 1, fun row _ => row⟩, ⟨2, 1, fun _ _ => 1⟩, ⟨1, 2, fun _ col => col + 3⟩⟩
        [1, 0] (by decide) rfl rfl rfl
    refine ⟨permuted, inverse, restored, hpermuted, hinverse, hrestored, ?_, ?_, ?_⟩
    · rw [hgate]
      rfl
    · rw [hdown]
      rfl
    · rw [hequal.entry 0 Nat.one_pos 0 Nat.two_pos]

end GlmFlash.Encoder.Permutation
