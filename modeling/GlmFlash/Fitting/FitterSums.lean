import GlmFlash.Fitting.LedgerSums

/-!
# What a fitter holds

The ledgers of a fitter are the direct sums over the rows that it was given.  An
update and a merge either keep that with the new rows or change nothing, and which
of the two depends on the rows alone.
-/

namespace GlmFlash.Fitting

open GlmFlash.Library

def expertRows (expert : String) (rows : List Row) : List Row :=
  rows.filter fun row => row.expert = expert

/-- An expert, a document and an offset, which a row should not share with another. -/
def Row.place (row : Row) : String × SampleKey := (row.expert, row.key)

/-- The ledger of an expert, if some row is for it. -/
def directExpert (identity : Identity) (rows : List Row) (expert : String) : Option Ledger :=
  if expertRows expert rows = [] then none
  else some (directLedger identity (expertRows expert rows))

structure Holds (fitter : CalibrationFitter) (identity : Identity) (rows : List Row) :
    Prop where
  identity_eq : fitter.identity = identity
  nodup : (Dict.keys fitter.experts).Nodup
  experts : ∀ expert, fitter.experts.get? expert = directExpert identity rows expert
  weighted : ∀ row ∈ rows, row.Weighted
  unique : (rows.map Row.place).Nodup

section Rows

variable {identity : Identity} {rows left right : List Row} {expert : String}

theorem expertRows_append :
    expertRows expert (left ++ right) = expertRows expert left ++ expertRows expert right :=
  List.filter_append ..

theorem expertRows_snoc_self (row : Row) (rows : List Row) :
    expertRows row.expert (rows ++ [row]) = expertRows row.expert rows ++ [row] := by
  rw [expertRows_append]
  congr 1
  exact List.filter_eq_self.mpr fun other hmem =>
    decide_eq_true (congrArg Row.expert (List.mem_singleton.mp hmem))

theorem expertRows_snoc_of_ne {row : Row} (hne : row.expert ≠ expert) :
    expertRows expert (rows ++ [row]) = expertRows expert rows := by
  have hnone : expertRows expert [row] = [] :=
    List.filter_eq_nil_iff.mpr fun other hmem heq =>
      hne (List.mem_singleton.mp hmem ▸ of_decide_eq_true heq)
  rw [expertRows_append, hnone, List.append_nil]

theorem mem_expertRows {row : Row} :
    row ∈ expertRows expert rows ↔ row ∈ rows ∧ row.expert = expert := by
  rw [expertRows, List.mem_filter, decide_eq_true_eq]

theorem getD_directExpert (identity : Identity) (rows : List Row) (expert : String) :
    (directExpert identity rows expert).getD (newExpert identity) =
      directLedger identity (expertRows expert rows) := by
  rw [directExpert]
  by_cases hempty : expertRows expert rows = []
  · rw [if_pos hempty, hempty, directLedger_nil]
    rfl
  · rw [if_neg hempty]
    rfl

theorem directExpert_perm (hperm : left.Perm right) :
    directExpert identity left expert = directExpert identity right expert := by
  have hrows : (expertRows expert left).Perm (expertRows expert right) := hperm.filter _
  rw [directExpert, directExpert, directLedger_perm hrows]
  by_cases hempty : expertRows expert left = []
  · rw [if_pos hempty, if_pos (hempty ▸ hrows.symm).eq_nil]
  · rw [if_neg hempty, if_neg fun hnil => hempty (hnil ▸ hrows).eq_nil]

theorem key_mem_of_place {row : Row} (hplace : row.place ∈ rows.map Row.place) :
    row.key ∈ (expertRows row.expert rows).map Row.key := by
  obtain ⟨other, hother, heq⟩ := List.mem_map.mp hplace
  rw [Row.place, Row.place, Prod.mk.injEq] at heq
  exact heq.2 ▸ List.mem_map_of_mem (mem_expertRows.mpr ⟨hother, heq.1⟩)

theorem place_mem_of_key {row : Row}
    (hkey : row.key ∈ (expertRows row.expert rows).map Row.key) :
    row.place ∈ rows.map Row.place := by
  obtain ⟨other, hother, heq⟩ := List.mem_map.mp hkey
  obtain ⟨hmem, hexpert⟩ := mem_expertRows.mp hother
  exact List.mem_map.mpr ⟨other, hmem, Prod.ext hexpert heq⟩

theorem disjoint_keys (hplaces : (left.map Row.place).Disjoint (right.map Row.place)) :
    ((expertRows expert left).map Row.key).Disjoint
      ((expertRows expert right).map Row.key) := by
  intro key hleft hright
  obtain ⟨row, hrow, rfl⟩ := List.mem_map.mp hleft
  obtain ⟨hmem, rfl⟩ := mem_expertRows.mp hrow
  exact hplaces (List.mem_map_of_mem hmem) (place_mem_of_key hright)

end Rows

theorem sortExperts_perm (experts : List String) : (sortExperts experts).Perm experts :=
  List.perm_insertionSort _ experts

theorem holds_new (address : ℕ) (identity : Identity) :
    Holds (.new address identity) identity [] where
  identity_eq := rfl
  nodup := List.nodup_nil
  experts _ := rfl
  weighted := by rintro _ ⟨⟩
  unique := List.nodup_nil

/-! ## Loops over experts -/

/-- When no expert raises, each expert that has a turn gets its new ledger. -/
theorem runAll_modifyExpert {identity : Identity}
    {step : CalibrationFitter → String → CalibrationFitter × Except Failure Unit}
    {round : String → Ledger → Ledger × Except Failure Unit} {next : String → Ledger}
    {experts : List String} {fitter : CalibrationFitter}
    (hidentity : fitter.identity = identity) (hnodup : experts.Nodup)
    (hkeys : (Dict.keys fitter.experts).Nodup)
    (hstep : ∀ self, ∀ expert ∈ experts, step self expert = self.modifyExpert expert (round expert))
    (hround : ∀ expert ∈ experts,
      round expert ((fitter.experts.get? expert).getD (newExpert identity)) =
        (next expert, .ok ())) :
    ∃ final, runAll step fitter experts = (final, .ok ()) ∧
      final.address = fitter.address ∧ final.identity = identity ∧
      (Dict.keys final.experts).Nodup ∧
      ∀ expert, final.experts.get? expert =
        if expert ∈ experts then some (next expert) else fitter.experts.get? expert := by
  induction experts generalizing fitter with
  | nil => exact ⟨fitter, rfl, rfl, hidentity, hkeys, fun _ => rfl⟩
  | cons first experts ih =>
      obtain ⟨hnew, hrest⟩ := List.nodup_cons.mp hnodup
      let changed : CalibrationFitter :=
        { fitter with experts := fitter.experts.set first (next first) }
      have hfirst : step fitter first = (changed, .ok ()) := by
        have hstart := hround first List.mem_cons_self
        rw [← hidentity] at hstart
        rw [hstep fitter first List.mem_cons_self, CalibrationFitter.modifyExpert, hstart]
      have hother : ∀ expert ∈ experts, changed.experts.get? expert =
          fitter.experts.get? expert := by
        intro expert hmem
        apply Dict.get?_set_of_ne
        rintro rfl
        exact hnew hmem
      obtain ⟨final, hrun, haddress, hid, hfinal, hget⟩ := @ih changed hidentity hrest
        (Dict.nodup_keys_set hkeys)
        (fun self expert hmem => hstep self expert (List.mem_cons_of_mem first hmem))
        (by
          intro expert hmem
          rw [hother expert hmem]
          exact hround expert (List.mem_cons_of_mem first hmem))
      refine ⟨final, (runAll_cons hfirst).trans hrun, haddress, hid, hfinal, fun expert => ?_⟩
      rw [hget]
      by_cases hmem : expert ∈ experts
      · rw [if_pos hmem, if_pos (List.mem_cons_of_mem first hmem)]
      · rw [if_neg hmem]
        by_cases heq : expert = first
        · rw [heq, if_pos List.mem_cons_self]
          exact Dict.get?_set_self
        · rw [if_neg fun h => (List.mem_cons.mp h).elim heq hmem]
          exact Dict.get?_set_of_ne heq

/-! ## Keys of a batch -/

/-- The keys that a batch brings are those of its rows, which are all different. -/
structure Collected (incoming : Incoming) (rows : List Row) : Prop where
  nodup : (Dict.keys incoming).Nodup
  keys : ∀ expert, incoming.get? expert =
    if expertRows expert rows = [] then none
    else some ((expertRows expert rows).map Row.key).toFinset
  unique : (rows.map Row.place).Nodup

section Collect

variable {incoming : Incoming} {rows done : List Row} {row : Row}

theorem Collected.mem_keys (hcollected : Collected incoming rows) {expert : String} :
    expert ∈ Dict.keys incoming ↔ expertRows expert rows ≠ [] := by
  rw [Dict.mem_keys_iff, hcollected.keys]
  by_cases hempty : expertRows expert rows = []
  · rw [if_pos hempty]
    exact iff_of_false (by rintro ⟨_, ⟨⟩⟩) (not_not_intro hempty)
  · rw [if_neg hempty]
    exact iff_of_true ⟨_, rfl⟩ hempty

theorem Collected.getD (hcollected : Collected incoming rows) (expert : String) :
    (incoming.get? expert).getD ∅ = ((expertRows expert rows).map Row.key).toFinset := by
  rw [hcollected.keys]
  by_cases hempty : expertRows expert rows = []
  · rw [if_pos hempty, hempty]
    rfl
  · rw [if_neg hempty]
    rfl

theorem Collected.mem_getD (hcollected : Collected incoming done) :
    row.key ∈ (incoming.get? row.expert).getD ∅ ↔ row.place ∈ done.map Row.place := by
  rw [hcollected.getD, List.mem_toFinset]
  exact ⟨place_mem_of_key, key_mem_of_place⟩

/-- One row more is refused exactly when its place is taken. -/
theorem Collected.addIncoming (hcollected : Collected incoming done)
    (hnew : row.place ∉ done.map Row.place) :
    ∃ next, addIncoming incoming row = .ok next ∧ Collected next (done ++ [row]) := by
  have hkey : row.key ∉ (incoming.get? row.expert).getD ∅ :=
    fun hmem => hnew (hcollected.mem_getD.mp hmem)
  refine ⟨incoming.set row.expert (insert row.key ((incoming.get? row.expert).getD ∅)), ?_,
    Dict.nodup_keys_set hcollected.nodup, ?_, ?_⟩
  · rw [Fitting.addIncoming, require, if_pos hkey]
    rfl
  · intro expert
    by_cases hexpert : row.expert = expert
    · subst hexpert
      have hne : expertRows row.expert done ++ [row] ≠ [] :=
        List.append_ne_nil_of_right_ne_nil _ (List.cons_ne_nil row [])
      rw [Dict.get?_set_self, expertRows_snoc_self, if_neg hne, hcollected.getD,
        List.map_append, List.toFinset_append, Finset.insert_eq, Finset.union_comm]
      rfl
    · rw [Dict.get?_set_of_ne (Ne.symm hexpert), expertRows_snoc_of_ne hexpert,
        hcollected.keys]
  · rw [List.map_append]
    exact List.Nodup.append hcollected.unique (List.nodup_singleton _)
      (List.disjoint_singleton.mpr hnew)

theorem Collected.addIncoming_taken (hcollected : Collected incoming done)
    (htaken : row.place ∈ done.map Row.place) :
    ∃ failure, Fitting.addIncoming incoming row = .error failure := by
  have hkey : ¬row.key ∉ (incoming.get? row.expert).getD ∅ :=
    not_not_intro (hcollected.mem_getD.mpr htaken)
  rw [Fitting.addIncoming, require, if_neg hkey]
  exact ⟨_, rfl⟩

theorem collected_nil : Collected [] [] :=
  ⟨List.nodup_nil, fun _ => rfl, List.nodup_nil⟩

theorem collect (hcollected : Collected incoming done)
    (hunique : ((done ++ rows).map Row.place).Nodup) :
    ∃ final, rows.foldlM Fitting.addIncoming incoming = .ok final ∧
      Collected final (done ++ rows) := by
  induction rows generalizing incoming done with
  | nil => exact ⟨incoming, rfl, (List.append_nil done).symm ▸ hcollected⟩
  | cons row rows ih =>
      rw [List.append_cons] at hunique ⊢
      have hnew : row.place ∉ done.map Row.place := by
        intro htaken
        rw [List.map_append, List.map_append] at hunique
        have hfirst := (List.nodup_append.mp hunique).1
        exact (List.nodup_append.mp hfirst).2.2 _ htaken _ (List.mem_singleton_self _) rfl
      obtain ⟨next, hstep, hnext⟩ := hcollected.addIncoming hnew
      obtain ⟨final, hrun, hfinal⟩ := ih hnext hunique
      refine ⟨final, ?_, hfinal⟩
      rw [List.foldlM_cons, hstep, ok_bind, hrun]

theorem collect_unique {final : Incoming} (hcollected : Collected incoming done)
    (hrun : rows.foldlM Fitting.addIncoming incoming = .ok final) :
    Collected final (done ++ rows) := by
  induction rows generalizing incoming done with
  | nil =>
      cases hrun
      exact (List.append_nil done).symm ▸ hcollected
  | cons row rows ih =>
      rw [List.foldlM_cons, bind_eq_ok] at hrun
      obtain ⟨next, hstep, hrest⟩ := hrun
      by_cases htaken : row.place ∈ done.map Row.place
      · obtain ⟨failure, hfailure⟩ := hcollected.addIncoming_taken htaken
        rw [hfailure] at hstep
        cases hstep
      · obtain ⟨next', hnext, hadded⟩ := hcollected.addIncoming htaken
        rw [hnext] at hstep
        cases hstep
        rw [List.append_cons]
        exact ih hadded hrest

end Collect

/-! ## Updates -/

section Update

variable {fitter : CalibrationFitter} {identity : Identity} {rows old : List Row}
  {batch : CalibrationBatch} {incoming : Incoming}

/-- Which samples an expert has can be seen from its first combined accumulator. -/
theorem Holds.sampleKeys (hholds : Holds fitter identity old) {expert : String}
    {ledger : Ledger} (hget : fitter.experts.get? expert = some ledger) :
    (ledger sampleAccount).sampleKeys = ((expertRows expert old).map Row.key).toFinset := by
  have hledger : ledger = directLedger identity (expertRows expert old) := by
    have hdirect := hholds.experts expert
    rw [hget, directExpert] at hdirect
    split at hdirect
    · cases hdirect
    · exact Option.some.inj hdirect
  have hall : (expertRows expert old).filter (Accounting.covers .combined) =
      expertRows expert old :=
    List.filter_eq_self.mpr fun _ _ => rfl
  rw [hledger]
  change ((accounted sampleAccount (expertRows expert old)).map Sample.key).toFinset = _
  rw [accounted, hall, List.map_map]
  rfl

theorem Holds.rows_of_none (hholds : Holds fitter identity old) {expert : String}
    (hget : fitter.experts.get? expert = none) : expertRows expert old = [] := by
  have hdirect := hholds.experts expert
  rw [hget, directExpert] at hdirect
  by_contra hne
  rw [if_neg hne] at hdirect
  cases hdirect

theorem Holds.checkExisting (hholds : Holds fitter identity old) {expert : String}
    {keys : Finset SampleKey} : fitter.checkExisting (expert, keys) = .ok () ↔
      ∀ key ∈ keys, key ∉ (expertRows expert old).map Row.key := by
  rw [CalibrationFitter.checkExisting]
  cases hget : fitter.experts.get? expert with
  | none =>
      rw [hholds.rows_of_none hget]
      exact iff_of_true rfl fun _ _ => List.not_mem_nil
  | some ledger =>
      dsimp only
      rw [require_eq_ok, hholds.sampleKeys hget, Finset.not_nonempty_iff_eq_empty,
        ← Finset.disjoint_iff_inter_eq_empty, disjoint_comm, Finset.disjoint_left]
      simp only [List.mem_toFinset]

theorem Holds.checkExisting_all (hholds : Holds fitter identity old)
    (hcollected : Collected incoming rows) :
    incoming.forM fitter.checkExisting = .ok () ↔
      (old.map Row.place).Disjoint (rows.map Row.place) := by
  rw [forM_eq_ok]
  constructor
  · intro hall place hold hnew
    obtain ⟨row, hrow, rfl⟩ := List.mem_map.mp hnew
    have hmine : row ∈ expertRows row.expert rows := mem_expertRows.mpr ⟨hrow, rfl⟩
    have hget := hcollected.keys row.expert
    rw [if_neg (List.ne_nil_of_mem hmine)] at hget
    have hentry := hall _ (Dict.mem_of_get? hget)
    exact hholds.checkExisting.mp hentry row.key
      (List.mem_toFinset.mpr (List.mem_map_of_mem hmine)) (key_mem_of_place hold)
  · intro hdisjoint entry hentry
    have hget := (hcollected.keys entry.1).symm.trans
      (Dict.get?_of_mem hcollected.nodup hentry)
    apply hholds.checkExisting.mpr
    intro key hkey hold
    split at hget
    · cases hget
    · rw [← Option.some.inj hget] at hkey
      obtain ⟨row, hrow, rfl⟩ := List.mem_map.mp (List.mem_toFinset.mp hkey)
      obtain ⟨hmem, hexpert⟩ := mem_expertRows.mp hrow
      rw [← hexpert] at hold
      exact hdisjoint (place_mem_of_key hold) (List.mem_map_of_mem hmem)

theorem Holds.validate_eq_ok (hholds : Holds fitter identity old)
    (hvalidate : fitter.validate batch = .ok (rows, incoming)) :
    readBatch identity batch = .ok rows ∧ Collected incoming rows ∧
      (old.map Row.place).Disjoint (rows.map Row.place) ∧
      ∀ row ∈ rows, 0 < row.routeWeight := by
  simp only [CalibrationFitter.validate, bind_eq_ok, require_eq_ok, pure_eq_ok] at hvalidate
  obtain ⟨read, hread, found, hfound, ⟨⟩, hexisting, ⟨⟩, hpositive, hresult⟩ := hvalidate
  cases hresult
  have hcollected : Collected incoming rows := collect_unique collected_nil hfound
  rw [hholds.identity_eq] at hread
  refine ⟨hread, hcollected, (hholds.checkExisting_all hcollected).mp hexisting, ?_⟩
  intro row hrow
  exact of_decide_eq_true (List.all_eq_true.mp hpositive row hrow)

/-- A batch passes when its rows are new and have weight. -/
theorem Holds.validate_succeeds (hholds : Holds fitter identity old)
    (hread : readBatch identity batch = .ok rows)
    (hunique : ((old ++ rows).map Row.place).Nodup)
    (hpositive : ∀ row ∈ rows, 0 < row.routeWeight) :
    ∃ incoming, fitter.validate batch = .ok (rows, incoming) := by
  rw [List.map_append, List.nodup_append'] at hunique
  obtain ⟨-, hrows, hdisjoint⟩ := hunique
  obtain ⟨incoming, hincoming, hcollected⟩ := collect collected_nil hrows
  refine ⟨incoming, ?_⟩
  simp only [CalibrationFitter.validate, bind_eq_ok, require_eq_ok, pure_eq_ok]
  rw [hholds.identity_eq]
  refine ⟨rows, hread, incoming, hincoming, (), (hholds.checkExisting_all hcollected).mpr
    hdisjoint, (), ?_, rfl⟩
  exact List.all_eq_true.mpr fun row hrow => decide_eq_true (hpositive row hrow)

/-- The rows that passed are added, and nothing raises any more. -/
theorem Holds.absorb (hholds : Holds fitter identity old) (hcollected : Collected incoming rows)
    (hweighted : ∀ row ∈ rows, row.Weighted)
    (hdisjoint : (old.map Row.place).Disjoint (rows.map Row.place)) :
    ∃ final, runAll (CalibrationFitter.absorbExpert rows) fitter
        (sortExperts (Dict.keys incoming)) = (final, .ok ()) ∧
      final.address = fitter.address ∧ Holds final identity (old ++ rows) := by
  have hsorted := sortExperts_perm (Dict.keys incoming)
  have hround : ∀ expert ∈ sortExperts (Dict.keys incoming),
      absorbLedger (expertRows expert rows)
          ((fitter.experts.get? expert).getD (newExpert identity)) =
        (directLedger identity (expertRows expert (old ++ rows)), .ok ()) := by
    intro expert _
    rw [hholds.experts, getD_directExpert, expertRows_append]
    apply absorbLedger_direct
    · exact fun row hrow => hholds.weighted row (mem_expertRows.mp hrow).1
    · exact fun row hrow => hweighted row (mem_expertRows.mp hrow).1
  obtain ⟨final, hrun, haddress, hidentity, hkeys, hget⟩ :=
    runAll_modifyExpert hholds.identity_eq (hsorted.nodup_iff.mpr hcollected.nodup)
      hholds.nodup (fun _ _ _ => rfl) hround
  refine ⟨final, hrun, haddress, hidentity, hkeys, ?_, ?_, ?_⟩
  · intro expert
    have hturn : expert ∈ sortExperts (Dict.keys incoming) ↔ expertRows expert rows ≠ [] :=
      hsorted.mem_iff.trans hcollected.mem_keys
    rw [hget, directExpert, expertRows_append]
    by_cases hempty : expertRows expert rows = []
    · rw [if_neg fun hmem => hturn.mp hmem hempty, hempty, List.append_nil, hholds.experts]
      rfl
    · rw [if_pos (hturn.mpr hempty), if_neg (List.append_ne_nil_of_right_ne_nil _ hempty)]
  · intro row hrow
    exact (List.mem_append.mp hrow).elim (hholds.weighted row) (hweighted row)
  · rw [List.map_append]
    exact List.Nodup.append hholds.unique hcollected.unique hdisjoint

theorem checkInclusion_pos {given : Option (List ℚ)} {origins : List Origin}
    {inclusion : List ℚ} (hcheck : checkInclusion given origins = .ok inclusion) :
    ∀ value ∈ inclusion, 0 < value := by
  cases given with
  | none =>
      simp only [checkInclusion, bind_eq_ok, require_eq_ok, pure_eq_ok] at hcheck
      obtain ⟨-, -, rfl⟩ := hcheck
      intro value hvalue
      rw [List.eq_of_mem_replicate hvalue]
      exact one_pos
  | some given =>
      simp only [checkInclusion, bind_eq_ok, require_eq_ok, pure_eq_ok] at hcheck
      obtain ⟨-, -, -, hrange, -, -, rfl⟩ := hcheck
      intro value hvalue
      have hvalid := List.all_eq_true.mp hrange value hvalue
      rw [Bool.and_eq_true, decide_eq_true_eq] at hvalid
      exact hvalid.1

theorem readBatch_inclusion (hread : readBatch identity batch = .ok rows) :
    ∀ row ∈ rows, 0 < row.inclusion := by
  simp only [readBatch, bind_eq_ok, require_eq_ok, pure_eq_ok] at hread
  obtain ⟨-, -, -, -, -, -, -, -, _, -, -, -, -, -, -, -, -, -, -, -, _, -, inclusion,
    hinclusion, rfl⟩ := hread
  intro row hrow
  obtain ⟨index, -, rfl⟩ := List.mem_map.mp hrow
  dsimp only
  by_cases hindex : index < inclusion.length
  · rw [List.getD_eq_getElem _ _ hindex]
    exact checkInclusion_pos hinclusion _ (List.getElem_mem hindex)
  · rw [List.getD_eq_default _ _ (not_lt.mp hindex)]
    exact one_pos

theorem update_refused {failure : Failure} (hrefused : fitter.validate batch = .error failure) :
    fitter.update batch = (fitter, .error failure) := by
  rw [CalibrationFitter.update, hrefused]

theorem Holds.update_accepted (hholds : Holds fitter identity old)
    (haccepted : fitter.validate batch = .ok (rows, incoming)) :
    ∃ final, fitter.update batch = (final, .ok ()) ∧ final.address = fitter.address ∧
      Holds final identity (old ++ rows) := by
  obtain ⟨hread, hcollected, hdisjoint, hpositive⟩ := hholds.validate_eq_ok haccepted
  have hweighted : ∀ row ∈ rows, row.Weighted := fun row hrow =>
    ⟨(hpositive row hrow).le, readBatch_inclusion hread row hrow⟩
  obtain ⟨final, hrun, hfinal⟩ := hholds.absorb hcollected hweighted hdisjoint
  refine ⟨final, ?_, hfinal⟩
  rw [CalibrationFitter.update, haccepted]
  exact hrun

/-- An update raises and changes nothing, or adds the rows of its batch. -/
theorem Holds.update_cases (hholds : Holds fitter identity old) (batch : CalibrationBatch) :
    (∃ failure, fitter.update batch = (fitter, .error failure)) ∨
      ∃ rows final, readBatch identity batch = .ok rows ∧
        fitter.update batch = (final, .ok ()) ∧ final.address = fitter.address ∧
        Holds final identity (old ++ rows) := by
  cases hvalidate : fitter.validate batch with
  | error failure => exact .inl ⟨failure, update_refused hvalidate⟩
  | ok accepted =>
      obtain ⟨rows, incoming⟩ := accepted
      obtain ⟨final, hupdate⟩ := hholds.update_accepted hvalidate
      exact .inr ⟨rows, final, (hholds.validate_eq_ok hvalidate).1, hupdate⟩

/-- Rows that are new and have weight are added. -/
theorem Holds.update_succeeds (hholds : Holds fitter identity old)
    (hread : readBatch identity batch = .ok rows)
    (hunique : ((old ++ rows).map Row.place).Nodup)
    (hpositive : ∀ row ∈ rows, 0 < row.routeWeight) :
    ∃ final, fitter.update batch = (final, .ok ()) ∧ final.address = fitter.address ∧
      Holds final identity (old ++ rows) := by
  obtain ⟨incoming, hvalidate⟩ := hholds.validate_succeeds hread hunique hpositive
  exact hholds.update_accepted hvalidate

end Update

/-! ## Merges -/

section Merge

variable {self other : CalibrationFitter} {identity : Identity} {left right : List Row}

theorem checkOverlap_iff (hself : Holds self identity left) (hother : Holds other identity right)
    (expert : String) : self.checkOverlap other expert = .ok () ↔
      ((expertRows expert left).map Row.key).Disjoint
        ((expertRows expert right).map Row.key) := by
  rw [CalibrationFitter.checkOverlap]
  cases hown : self.experts.get? expert with
  | none =>
      rw [hself.rows_of_none hown]
      exact iff_of_true rfl (List.disjoint_nil_left _)
  | some own =>
      cases htheirs : other.experts.get? expert with
      | none =>
          rw [hother.rows_of_none htheirs]
          exact iff_of_true rfl (List.disjoint_nil_right _)
      | some theirs =>
          dsimp only
          rw [require_eq_ok, hself.sampleKeys hown, hother.sampleKeys htheirs,
            Finset.not_nonempty_iff_eq_empty, ← Finset.disjoint_iff_inter_eq_empty,
            Finset.disjoint_left]
          simp only [List.mem_toFinset]
          rfl

theorem checkOverlap_all (hself : Holds self identity left)
    (hother : Holds other identity right) :
    (Dict.keys self.experts).forM (self.checkOverlap other) = .ok () ↔
      (left.map Row.place).Disjoint (right.map Row.place) := by
  rw [forM_eq_ok]
  constructor
  · intro hall place hleft hright
    obtain ⟨row, hrow, rfl⟩ := List.mem_map.mp hleft
    have hkey : row.expert ∈ Dict.keys self.experts := by
      by_contra hnone
      have hempty := hself.rows_of_none (Dict.get?_eq_none_iff.mpr hnone)
      exact List.ne_nil_of_mem (mem_expertRows.mpr ⟨hrow, rfl⟩) hempty
    exact (checkOverlap_iff hself hother row.expert).mp (hall _ hkey)
      (List.mem_map_of_mem (mem_expertRows.mpr ⟨hrow, rfl⟩)) (key_mem_of_place hright)
  · exact fun hdisjoint expert _ =>
      (checkOverlap_iff hself hother expert).mpr (disjoint_keys hdisjoint)

/-- The ledgers of another fitter are taken in, and nothing raises. -/
theorem Holds.takeIn (hself : Holds self identity left) (hother : Holds other identity right)
    (hdisjoint : (left.map Row.place).Disjoint (right.map Row.place)) :
    ∃ final, runAll (CalibrationFitter.mergeExpert other) self
        (sortExperts (Dict.keys other.experts)) = (final, .ok ()) ∧
      final.address = self.address ∧ Holds final identity (left ++ right) := by
  have hsorted := sortExperts_perm (Dict.keys other.experts)
  have hturn : ∀ expert, expert ∈ sortExperts (Dict.keys other.experts) ↔
      expertRows expert right ≠ [] := by
    intro expert
    rw [hsorted.mem_iff, ← not_iff_not, not_not, ← Dict.get?_eq_none_iff, hother.experts,
      directExpert]
    by_cases hempty : expertRows expert right = []
    · exact iff_of_true (if_pos hempty) hempty
    · rw [if_neg hempty]
      exact iff_of_false (by rintro ⟨⟩) hempty
  have hstep : ∀ fitter, ∀ expert ∈ sortExperts (Dict.keys other.experts),
      CalibrationFitter.mergeExpert other fitter expert = fitter.modifyExpert expert
        fun own => runAll (modifyCell fun place moments =>
          moments.merge (directLedger identity (expertRows expert right) place) true) own
            CalibrationFitter.allPlaces := by
    intro fitter expert hmem
    rw [CalibrationFitter.mergeExpert, hother.experts, directExpert,
      if_neg ((hturn expert).mp hmem)]
  have hround : ∀ expert ∈ sortExperts (Dict.keys other.experts),
      runAll (modifyCell fun place moments =>
          moments.merge (directLedger identity (expertRows expert right) place) true)
            ((self.experts.get? expert).getD (newExpert identity))
              CalibrationFitter.allPlaces =
        (directLedger identity (expertRows expert (left ++ right)), .ok ()) := by
    intro expert _
    rw [hself.experts, getD_directExpert, expertRows_append]
    apply mergeLedger_direct
    · exact fun row hrow => hself.weighted row (mem_expertRows.mp hrow).1
    · exact fun row hrow => hother.weighted row (mem_expertRows.mp hrow).1
    · exact disjoint_keys hdisjoint
  obtain ⟨final, hrun, haddress, hidentity, hkeys, hget⟩ :=
    runAll_modifyExpert hself.identity_eq (hsorted.nodup_iff.mpr hother.nodup) hself.nodup
      hstep hround
  refine ⟨final, hrun, haddress, hidentity, hkeys, ?_, ?_, ?_⟩
  · intro expert
    rw [hget, directExpert, expertRows_append]
    by_cases hempty : expertRows expert right = []
    · rw [if_neg fun hmem => (hturn expert).mp hmem hempty, hempty, List.append_nil,
        hself.experts]
      rfl
    · rw [if_pos ((hturn expert).mpr hempty),
        if_neg (List.append_ne_nil_of_right_ne_nil _ hempty)]
  · intro row hrow
    exact (List.mem_append.mp hrow).elim (hself.weighted row) (hother.weighted row)
  · rw [List.map_append]
    exact List.Nodup.append hself.unique hother.unique hdisjoint

/-- A merge raises and changes neither fitter, or adds the rows of the other fitter. -/
theorem Holds.merge_cases {identity' : Identity} (hself : Holds self identity left)
    (hother : Holds other identity' right) :
    (∃ failure, self.merge other = ((self, other), .error failure)) ∨
      ∃ final, self.merge other = ((final, other), .ok ()) ∧
        final.address = self.address ∧ Holds final identity (left ++ right) := by
  rw [CalibrationFitter.merge]
  by_cases hsame : other.address = self.address
  · rw [if_pos hsame]
    exact .inl ⟨_, rfl⟩
  rw [if_neg hsame]
  by_cases hdrift : self.identity ≠ other.identity
  · rw [if_pos hdrift]
    exact .inl ⟨_, rfl⟩
  rw [if_neg hdrift]
  rw [not_not, hself.identity_eq, hother.identity_eq] at hdrift
  subst hdrift
  cases hcheck : (Dict.keys self.experts).forM (self.checkOverlap other) with
  | error failure => exact .inl ⟨failure, rfl⟩
  | ok =>
      obtain ⟨final, hrun, hfinal⟩ :=
        hself.takeIn hother ((checkOverlap_all hself hother).mp hcheck)
      refine .inr ⟨final, ?_, hfinal⟩
      dsimp only
      rw [hrun]

theorem Holds.merge_succeeds (hself : Holds self identity left)
    (hother : Holds other identity right) (hne : other.address ≠ self.address)
    (hdisjoint : (left.map Row.place).Disjoint (right.map Row.place)) :
    ∃ final, self.merge other = ((final, other), .ok ()) ∧
      final.address = self.address ∧ Holds final identity (left ++ right) := by
  obtain ⟨final, hrun, hfinal⟩ := hself.takeIn hother hdisjoint
  refine ⟨final, ?_, hfinal⟩
  have hsame : ¬self.identity ≠ other.identity :=
    not_not_intro (hself.identity_eq.trans hother.identity_eq.symm)
  rw [CalibrationFitter.merge, if_neg hne, if_neg hsame,
    (checkOverlap_all hself hother).mpr hdisjoint]
  dsimp only
  rw [hrun]

end Merge

end GlmFlash.Fitting
