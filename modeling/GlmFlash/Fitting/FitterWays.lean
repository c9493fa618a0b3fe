import GlmFlash.Fitting.CarriedRows

/-!
# Ways to fit the same rows

Rows may be cut into batches, the batches given to several fitters and the fitters
merged in any nesting.  All ways end with the direct sums over the rows, or all of
them raise.
-/

namespace GlmFlash.Fitting

open GlmFlash.Library

/-- How a fitter comes about. -/
inductive Way where
  | fresh (address : ℕ)
  | update (way : Way) (batch : CalibrationBatch)
  | merge (left right : Way)

namespace Way

/-- The fitter after a call, if the call has not raised. -/
def returned {S : Type} (called : S × Except Failure Unit) : Except Failure S :=
  called.2.map fun _ => called.1

def run (identity : Identity) : Way → Except Failure CalibrationFitter
  | .fresh address => .ok (.new address identity)
  | .update way batch => do
      let fitter ← way.run identity
      returned (fitter.update batch)
  | .merge left right => do
      let self ← left.run identity
      let other ← right.run identity
      let both ← returned (self.merge other)
      return both.1

/-- The fitters that take part. -/
def addresses : Way → List ℕ
  | .fresh address => [address]
  | .update way _ => way.addresses
  | .merge left right => left.addresses ++ right.addresses

end Way

/-- The way fits these rows: each of them is in one batch of one fitter. -/
inductive Cuts (identity : Identity) : Way → List Row → Prop
  | fresh (address : ℕ) : Cuts identity (.fresh address) []
  | update {way : Way} {batch : CalibrationBatch} {old rows : List Row}
      (hway : Cuts identity way old) (hcarries : Carries identity batch rows) :
      Cuts identity (.update way batch) (old ++ rows)
  | merge {left right : Way} {first second : List Row} (hleft : Cuts identity left first)
      (hright : Cuts identity right second)
      (hdisjoint : left.addresses.Disjoint right.addresses) :
      Cuts identity (.merge left right) (first ++ second)
  | reorder {way : Way} {rows other : List Row} (hway : Cuts identity way rows)
      (hperm : rows.Perm other) : Cuts identity way other

section Ways

variable {identity : Identity} {way : Way} {rows : List Row} {fitter : CalibrationFitter}

theorem returned_eq_ok {S : Type} {called : S × Except Failure Unit} {state : S} :
    Way.returned called = .ok state ↔ called = (state, .ok ()) := by
  obtain ⟨final, result⟩ := called
  cases result with
  | error failure => exact iff_of_false (by rintro ⟨⟩) (by rintro ⟨⟩)
  | ok =>
      constructor
      · rintro ⟨⟩
        rfl
      · rintro ⟨⟩
        rfl

theorem Holds.perm {other : List Row} (hholds : Holds fitter identity rows)
    (hperm : rows.Perm other) : Holds fitter identity other where
  identity_eq := hholds.identity_eq
  nodup := hholds.nodup
  experts expert := (hholds.experts expert).trans (directExpert_perm hperm)
  weighted row hrow := hholds.weighted row (hperm.mem_iff.mpr hrow)
  unique := (hperm.map Row.place).nodup_iff.mp hholds.unique

/-- A way that does not raise ends with the direct sums. -/
theorem Cuts.holds_of_run (hcuts : Cuts identity way rows)
    (hvalid : ∀ row ∈ rows, row.Valid) (hrun : way.run identity = .ok fitter) :
    Holds fitter identity rows := by
  induction hcuts generalizing fitter with
  | fresh address =>
      cases hrun
      exact holds_new address identity
  | reorder _ hperm ih =>
      exact (ih (fun row hrow => hvalid row (hperm.mem_iff.mp hrow)) hrun).perm hperm
  | @update way batch old new _ hcarries ih =>
      rw [List.forall_mem_append] at hvalid
      simp only [Way.run, bind_eq_ok, returned_eq_ok] at hrun
      obtain ⟨before, hbefore, hupdate⟩ := hrun
      rcases (ih hvalid.1 hbefore).update_cases batch with
        ⟨failure, hfailure⟩ | ⟨read, final, hread, hfinal, -, hholds⟩
      · rw [hfailure] at hupdate
        cases hupdate
      · rw [hcarries.readBatch hvalid.2] at hread
        rw [hfinal] at hupdate
        cases hread
        cases hupdate
        exact hholds
  | @merge left right first second _ _ _ ihleft ihright =>
      rw [List.forall_mem_append] at hvalid
      simp only [Way.run, bind_eq_ok, returned_eq_ok, pure_eq_ok] at hrun
      obtain ⟨self, hself, other, hother, both, hmerge, rfl⟩ := hrun
      rcases (ihleft hvalid.1 hself).merge_cases (ihright hvalid.2 hother) with
        ⟨failure, hfailure⟩ | ⟨final, hfinal, -, hholds⟩
      · rw [hfailure] at hmerge
        cases hmerge
      · rw [hfinal] at hmerge
        cases hmerge
        exact hholds

/-- A way does not raise if no expert has two rows for one place of a document. -/
theorem Cuts.run_succeeds (hcuts : Cuts identity way rows)
    (hvalid : ∀ row ∈ rows, row.Valid) (hunique : (rows.map Row.place).Nodup) :
    ∃ fitter, way.run identity = .ok fitter ∧ fitter.address ∈ way.addresses := by
  induction hcuts with
  | fresh address => exact ⟨.new address identity, rfl, List.mem_singleton_self address⟩
  | reorder _ hperm ih =>
      exact ih (fun row hrow => hvalid row (hperm.mem_iff.mp hrow))
        ((hperm.map Row.place).nodup_iff.mpr hunique)
  | @update way batch old new hway hcarries ih =>
      rw [List.forall_mem_append] at hvalid
      have hboth := hunique
      rw [List.map_append] at hboth
      obtain ⟨before, hbefore, haddress⟩ := ih hvalid.1 hboth.of_append_left
      have hholds := hway.holds_of_run hvalid.1 hbefore
      have hpositive : ∀ row ∈ new, 0 < row.routeWeight :=
        fun row hrow => (hvalid.2 row hrow).weight.1
      obtain ⟨final, hupdate, hsame, -⟩ :=
        hholds.update_succeeds (hcarries.readBatch hvalid.2) hunique hpositive
      refine ⟨final, ?_, hsame.symm ▸ haddress⟩
      rw [Way.run, hbefore, ok_bind, returned_eq_ok]
      exact hupdate
  | @merge left right first second hleft hright hdisjoint ihleft ihright =>
      rw [List.forall_mem_append] at hvalid
      rw [List.map_append, List.nodup_append'] at hunique
      obtain ⟨self, hself, hown⟩ := ihleft hvalid.1 hunique.1
      obtain ⟨other, hother, htheirs⟩ := ihright hvalid.2 hunique.2.1
      have hne : other.address ≠ self.address := by
        intro hsame
        exact hdisjoint hown (hsame ▸ htheirs)
      obtain ⟨final, hmerge, hsame, -⟩ := (hleft.holds_of_run hvalid.1 hself).merge_succeeds
        (hright.holds_of_run hvalid.2 hother) hne hunique.2.2
      refine ⟨final, ?_, List.mem_append_left _ (hsame.symm ▸ hown)⟩
      rw [Way.run, hself, ok_bind, hother, ok_bind, returned_eq_ok.mpr hmerge]
      rfl

/-- Whether a way raises depends on its rows alone. -/
theorem Cuts.raises_iff (hcuts : Cuts identity way rows) (hvalid : ∀ row ∈ rows, row.Valid) :
    (∃ failure, way.run identity = .error failure) ↔ ¬(rows.map Row.place).Nodup := by
  constructor
  · rintro ⟨failure, hfailure⟩ hunique
    obtain ⟨fitter, hrun, -⟩ := hcuts.run_succeeds hvalid hunique
    rw [hfailure] at hrun
    cases hrun
  · intro htwice
    cases hrun : way.run identity with
    | error failure => exact ⟨failure, rfl⟩
    | ok fitter => exact absurd (hcuts.holds_of_run hvalid hrun).unique htwice

end Ways

/-! ## Fitters in use -/

/-- The fitters that any calls lead to, also calls that have raised. -/
inductive Reachable : CalibrationFitter → Prop
  | new (address : ℕ) (identity : Identity) : Reachable (.new address identity)
  | update {fitter : CalibrationFitter} (hfitter : Reachable fitter)
      (batch : CalibrationBatch) : Reachable (fitter.update batch).1
  | merge {self other : CalibrationFitter} (hself : Reachable self)
      (hother : Reachable other) : Reachable (self.merge other).1.1

theorem Reachable.holds {fitter : CalibrationFitter} (hreachable : Reachable fitter) :
    ∃ identity rows, Holds fitter identity rows := by
  induction hreachable with
  | new address identity => exact ⟨identity, [], holds_new address identity⟩
  | @update fitter _ batch ih =>
      obtain ⟨identity, old, hholds⟩ := ih
      rcases hholds.update_cases batch with
        ⟨failure, hfailure⟩ | ⟨rows, final, -, hfinal, -, hadded⟩
      · rw [hfailure]
        exact ⟨identity, old, hholds⟩
      · rw [hfinal]
        exact ⟨identity, old ++ rows, hadded⟩
  | @merge self other _ _ ihself ihother =>
      obtain ⟨identity, left, hself⟩ := ihself
      obtain ⟨_, right, hother⟩ := ihother
      rcases hself.merge_cases hother with ⟨failure, hfailure⟩ | ⟨final, hfinal, -, hadded⟩
      · rw [hfailure]
        exact ⟨identity, left, hself⟩
      · rw [hfinal]
        exact ⟨identity, left ++ right, hadded⟩

theorem Reachable.update_unchanged {fitter : CalibrationFitter}
    (hreachable : Reachable fitter) {batch : CalibrationBatch} {failure : Failure}
    (hraised : (fitter.update batch).2 = .error failure) :
    (fitter.update batch).1 = fitter := by
  obtain ⟨identity, old, hholds⟩ := hreachable.holds
  rcases hholds.update_cases batch with ⟨_, hfailure⟩ | ⟨_, _, -, hfinal, -⟩
  · rw [hfailure]
  · rw [hfinal] at hraised
    cases hraised

theorem Reachable.merge_unchanged {self other : CalibrationFitter} (hself : Reachable self)
    (hother : Reachable other) {failure : Failure}
    (hraised : (self.merge other).2 = .error failure) :
    (self.merge other).1 = (self, other) := by
  obtain ⟨identity, left, hleft⟩ := hself.holds
  obtain ⟨identity', right, hright⟩ := hother.holds
  rcases hleft.merge_cases hright with ⟨_, hfailure⟩ | ⟨_, hfinal, -⟩
  · rw [hfailure]
  · rw [hfinal] at hraised
    cases hraised

/-- All ways to fit the same rows raise, or all end with the direct sums, whose combined
account is the natural and the corrected supplemental one.  A call that raises changes
no accumulator of either fitter. -/
theorem fitting_exact (identity : Identity) :
    (∀ way rows, Cuts identity way rows → (∀ row ∈ rows, row.Valid) →
      ((∃ failure, way.run identity = .error failure) ↔ ¬(rows.map Row.place).Nodup) ∧
      ∀ fitter, way.run identity = .ok fitter → ∀ expert,
        fitter.experts.get? expert = directExpert identity rows expert ∧
        ∀ ledger, fitter.experts.get? expert = some ledger → ∀ power,
          SumOf (ledger (.combined, power)) (ledger (.natural, power))
            (ledger (.supplementalCorrected, power))) ∧
    (∀ fitter, Reachable fitter → ∀ batch failure,
      (fitter.update batch).2 = .error failure → (fitter.update batch).1 = fitter) ∧
    ∀ self other, Reachable self → Reachable other → ∀ failure,
      (self.merge other).2 = .error failure → (self.merge other).1 = (self, other) := by
  refine ⟨?_, ?_, ?_⟩
  · intro way rows hcuts hvalid
    refine ⟨hcuts.raises_iff hvalid, ?_⟩
    intro fitter hrun expert
    have hholds := hcuts.holds_of_run hvalid hrun
    refine ⟨hholds.experts expert, ?_⟩
    intro ledger hledger power
    have hdirect := hholds.experts expert
    rw [hledger, directExpert] at hdirect
    split at hdirect
    · cases hdirect
    · rw [Option.some.inj hdirect]
      apply directLedger_combined
      exact fun row hrow => hholds.weighted row (mem_expertRows.mp hrow).1
  · intro fitter hreachable batch failure hraised
    exact hreachable.update_unchanged hraised
  · intro self other hself hother failure hraised
    exact hself.merge_unchanged hother hraised

section Shards

theorem one_dvd_two (_ : CovarianceMode.diagonal = .blockDiagonal) : 1 ∣ 2 := one_dvd 2

def diagonalIdentity : Identity where
  layerId := 3
  projection := "gate"
  hiddenSize := 2
  predecessorCheckpointHash := "base"
  sourceIdentities := [("corpus", "sealed")]
  regularizationFloor := 1
  retainedAccounting := [.combined]
  retainedPowers := [1]
  covarianceMode := .diagonal
  blockSize := 1
  artifactDtype := .float64
  hiddenSize_pos := Nat.two_pos
  blocks := one_dvd_two

def naturalRow : Row where
  expert := "shared"
  documentId := "letter"
  tokenOffset := 0
  origin := .natural
  routeWeight := 1 / 2
  inclusion := 1
  values := [1, 2]

def supplementalRow : Row where
  expert := "shared"
  documentId := "letter"
  tokenOffset := 1
  origin := .supplemental
  routeWeight := 1 / 4
  inclusion := 1 / 2
  values := [3, 0]

theorem naturalRow_fits : ∀ row ∈ [naturalRow], row.Fits diagonalIdentity := by
  rintro row hrow
  rw [List.mem_singleton.mp hrow]
  exact ⟨rfl, rfl⟩

theorem supplementalRow_fits : ∀ row ∈ [supplementalRow], row.Fits diagonalIdentity := by
  rintro row hrow
  rw [List.mem_singleton.mp hrow]
  exact ⟨rfl, rfl⟩

/-- Each row in a fitter of its own. -/
def twoShards : Way :=
  .merge (.update (.fresh 0) (batchOf diagonalIdentity [naturalRow] naturalRow_fits))
    (.update (.fresh 1) (batchOf diagonalIdentity [supplementalRow] supplementalRow_fits))

theorem twoShards_cuts : Cuts diagonalIdentity twoShards [naturalRow, supplementalRow] := by
  have hfirst := Cuts.update (.fresh 0) (carries_batchOf naturalRow_fits)
  have hsecond := Cuts.update (.fresh 1) (carries_batchOf supplementalRow_fits)
  exact Cuts.merge hfirst hsecond (List.disjoint_singleton.mpr (by decide))

theorem shardRows_valid : ∀ row ∈ [naturalRow, supplementalRow], row.Valid := by
  intro row hrow
  rcases List.mem_pair.mp hrow with rfl | rfl
  · refine ⟨by decide, ?_, ?_, ?_, ?_⟩ <;> norm_num [naturalRow]
  · refine ⟨by decide, ?_, ?_, ?_, ?_⟩ <;> simp [supplementalRow] <;> norm_num

/-- Two shards together weigh the corrected supplemental row like the natural one. -/
theorem fitting_exact_twoShards : ∃ fitter ledger,
    twoShards.run diagonalIdentity = .ok fitter ∧
      fitter.experts.get? "shared" = some ledger ∧
      ledger = directLedger diagonalIdentity [naturalRow, supplementalRow] ∧
      (ledger (.combined, 1)).weightSum = 1 := by
  obtain ⟨hraises, hdirect⟩ := (fitting_exact diagonalIdentity).1 twoShards
    [naturalRow, supplementalRow] twoShards_cuts shardRows_valid
  cases hrun : twoShards.run diagonalIdentity with
  | error failure => exact absurd (by decide) (hraises.mp ⟨failure, hrun⟩)
  | ok fitter =>
      refine ⟨fitter, _, rfl, ((hdirect fitter hrun "shared").1).trans rfl, rfl, ?_⟩
      calc (directLedger diagonalIdentity [naturalRow, supplementalRow]
            (.combined, 1)).weightSum
          = (1 / 2 : ℚ) ^ 1 + ((1 / 4) ^ 1 / (1 / 2) + 0) := rfl
        _ = 1 := by norm_num

end Shards

end GlmFlash.Fitting
