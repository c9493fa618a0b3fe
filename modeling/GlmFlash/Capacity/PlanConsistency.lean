import GlmFlash.Capacity.TokenCapacity

/-!
# Consistent plans

A composite of one component agrees with the closed form, and a plan that
projects its target is feasible.
-/

namespace GlmFlash.Capacity

open GlmFlash.Library

/-! ## One component -/

namespace CompositeKVLayout

variable {layout : CompositeKVLayout}

theorem bytesPerRank_eq_ok {tokens : ℤ} {bytes : ℕ} :
    layout.bytesPerRank tokens = .ok bytes ↔
      layout.validate = .ok () ∧ 0 ≤ tokens ∧ bytes = layout.bytes tokens.toNat := by
  simp only [bytesPerRank, bind_eq_ok, pure_eq_ok, requireNonNegative_eq_ok]
  constructor
  · rintro ⟨_, hvalid, _, htokens, rfl⟩
    exact ⟨hvalid, htokens, rfl⟩
  · rintro ⟨hvalid, htokens, rfl⟩
    exact ⟨(), hvalid, (), htokens, rfl⟩

/-- The search of a valid layout ends, with the largest multiple of the quantum that
fits. -/
theorem globalTokens_spec (hvalidate : layout.validate = .ok ()) {rankBytes : ℤ}
    (hrank : 0 ≤ rankBytes) :
    ∃ tokens, IsGreatest {number | layout.quantum ∣ number ∧
        layout.bytes number ≤ rankBytes.toNat} tokens ∧
      ∃ rounds, ∀ more ≥ rounds,
        layout.globalTokensFromRankBytes more rankBytes = some (.ok tokens) := by
  obtain ⟨tokens, hgreatest, rounds, hsearch⟩ :=
    (valid_of_validate hvalidate).search_spec rankBytes.toNat
  refine ⟨tokens, hgreatest, rounds, ?_⟩
  intro more hmore
  rw [globalTokensFromRankBytes, hvalidate]
  simp only [requireNonNegative, require, if_pos hrank, hsearch more hmore,
    Option.map_some]

end CompositeKVLayout

/-- The composite of one component with the geometry of a layout. -/
def KVLayout.asComposite (layout : KVLayout) (name : String) : CompositeKVLayout where
  components := [{
    name := name
    cacheLayers := layout.cacheLayers
    recordBytesPerTokenLayer := layout.recordBytesPerTokenLayer
    shardSize := layout.dcpSize
    blockTokens := layout.blockTokens }]
  deploymentRanks := layout.dcpSize

namespace KVLayout

variable {layout : KVLayout} {name : String}

theorem validate_asComposite (hname : name ≠ "") :
    (layout.asComposite name).validate = .ok () ↔ layout.Valid := by
  simp only [CompositeKVLayout.validate, asComposite,
    CompositeKVLayout.validateComponents, bind_eq_ok, require_eq_ok,
    KVComponent.validate_eq_ok]
  constructor
  · rintro ⟨_, _, _, _, _, hcomponent, _⟩
    exact ⟨hcomponent.cacheLayers, hcomponent.recordBytes, hcomponent.shardSize,
      hcomponent.blockTokens⟩
  · intro hvalid
    refine ⟨(), require_eq_ok.mpr hvalid.dcpSize, (),
      require_eq_ok.mpr (List.cons_ne_nil _ _), (), ?_, (), List.not_mem_nil, (),
      Nat.mod_self _, trivial⟩
    exact ⟨hname, hvalid.cacheLayers, hvalid.recordBytes, hvalid.dcpSize,
      hvalid.blockTokens⟩

theorem bytes_asComposite (tokens : ℕ) :
    (layout.asComposite name).bytes tokens =
      blockBytes layout.blockTokens layout.dcpSize layout.tokenBytes tokens := by
  rw [CompositeKVLayout.bytes, asComposite, List.map_singleton, List.sum_singleton,
    KVComponent.bytesPerRank_eq]
  rfl

theorem quantum_asComposite :
    (layout.asComposite name).quantum = layout.blockTokens * layout.dcpSize := by
  rw [CompositeKVLayout.quantum, asComposite, List.map_singleton, List.foldr_cons,
    List.foldr_nil, Nat.lcm_one_right]

theorem bytesPerRank_asComposite (hname : name ≠ "") (tokens : ℤ) :
    ((layout.asComposite name).bytesPerRank tokens).toOption =
      (layout.bytesPerRank tokens).toOption := by
  apply toOption_eq_of_iff
  intro bytes
  rw [CompositeKVLayout.bytesPerRank_eq_ok, bytesPerRank_eq_ok,
    validate_asComposite hname, bytes_asComposite]

/-- The closed form is the largest multiple of the quantum that fits. -/
theorem Valid.isGreatest (hvalid : layout.Valid) (budget : ℕ) :
    IsGreatest {number | layout.blockTokens * layout.dcpSize ∣ number ∧
        blockBytes layout.blockTokens layout.dcpSize layout.tokenBytes number ≤ budget}
      (budget / (layout.blockTokens * layout.tokenBytes) * layout.dcpSize *
        layout.blockTokens) := by
  have hadjoint (tokens : ℕ) :
      blockBytes layout.blockTokens layout.dcpSize layout.tokenBytes tokens ≤ budget ↔
        tokens ≤ budget / (layout.blockTokens * layout.tokenBytes) * layout.dcpSize *
          layout.blockTokens :=
    blockBytes_le_iff hvalid.blockTokens hvalid.dcpSize hvalid.tokenBytes_pos
  constructor
  · refine ⟨⟨budget / (layout.blockTokens * layout.tokenBytes), by ring⟩, ?_⟩
    exact (hadjoint _).mpr le_rfl
  · rintro number ⟨_, hfits⟩
    exact (hadjoint number).mp hfits

/-- The search of one component ends as the closed form does, errors included. -/
theorem globalTokens_asComposite (hname : name ≠ "") (rankBytes : ℤ) :
    ∃ rounds, ∀ more ≥ rounds,
      ((layout.asComposite name).globalTokensFromRankBytes more rankBytes).map
        Except.toOption = some (layout.globalTokensFromRankBytes rankBytes).toOption := by
  cases hvalidate : (layout.asComposite name).validate with
  | error failure =>
      refine ⟨0, fun more _ => ?_⟩
      have hnot : ¬layout.Valid := by
        rw [← validate_asComposite hname, hvalidate]
        rintro ⟨⟩
      rw [CompositeKVLayout.globalTokensFromRankBytes, hvalidate]
      refine congrArg some (toOption_eq_of_iff fun tokens => ?_)
      rw [globalTokens_eq_ok]
      exact ⟨(by rintro ⟨⟩), fun hall => absurd hall.1 hnot⟩
  | ok token =>
      have hvalid := (validate_asComposite hname).mp hvalidate
      by_cases hrank : 0 ≤ rankBytes
      · obtain ⟨tokens, hgreatest, rounds, hsearch⟩ :=
          CompositeKVLayout.globalTokens_spec hvalidate hrank
        rw [quantum_asComposite] at hgreatest
        simp only [bytes_asComposite] at hgreatest
        have heq := hgreatest.unique (hvalid.isGreatest rankBytes.toNat)
        refine ⟨rounds, fun more hmore => ?_⟩
        rw [hsearch more hmore, globalTokens_eq_ok.mpr ⟨hvalid, hrank, heq⟩]
        rfl
      · refine ⟨0, fun more _ => ?_⟩
        rw [CompositeKVLayout.globalTokensFromRankBytes, hvalidate]
        have hnegative : requireNonNegative "rank_bytes" rankBytes =
            .error (.valueError "rank_bytes must be a non-negative integer") :=
          if_neg hrank
        rw [hnegative]
        refine congrArg some (toOption_eq_of_iff fun tokens => ?_)
        rw [globalTokens_eq_ok]
        exact ⟨(by rintro ⟨⟩), fun hall => absurd hall.2.1 hrank⟩

end KVLayout

/-! ## Plans -/

/-- A capacity of a rank: the targets up to it fit, and for one layout no others. -/
def Fits (layout : Layout) (available : ℤ) (capacity : ℕ) : Prop :=
  ∀ target bytes, layout.bytesPerRank target = .ok bytes →
    (target ≤ capacity → (bytes : ℤ) ≤ available) ∧
    ∀ single, layout = .single single → (bytes : ℤ) ≤ available → target ≤ capacity

/-- The search for the tokens of so many bytes ends with the capacity. -/
def HasCapacity (layout : Layout) (available : ℤ) (capacity : ℕ) : Prop :=
  ∃ rounds, ∀ more ≥ rounds,
    layout.globalTokensFromRankBytes more available = some (.ok capacity)

theorem exists_globalTokens {layout : Layout} (hvalidate : layout.validate = .ok ())
    {available : ℤ} (havailable : 0 ≤ available) :
    ∃ capacity, HasCapacity layout available capacity ∧
      Fits layout available capacity := by
  cases layout with
  | single layout =>
      have hvalid := KVLayout.validate_eq_ok.mp hvalidate
      have hcapacity := KVLayout.globalTokens_eq_ok.mpr ⟨hvalid, havailable, rfl⟩
      refine ⟨_, ⟨0, fun _ _ => congrArg some hcapacity⟩, ?_⟩
      intro target bytes hbytes
      have hiff := KVLayout.bytes_le_iff hcapacity hbytes
      exact ⟨hiff.mpr, fun _ _ => hiff.mp⟩
  | composite layout =>
      obtain ⟨capacity, hgreatest, hrounds⟩ :=
        layout.globalTokens_spec hvalidate havailable
      refine ⟨capacity, hrounds, ?_⟩
      intro target bytes hbytes
      obtain ⟨_, _, rfl⟩ := CompositeKVLayout.bytesPerRank_eq_ok.mp hbytes
      refine ⟨?_, (by rintro _ ⟨⟩)⟩
      intro hle
      rw [← Int.le_toNat havailable]
      have hvalid := CompositeKVLayout.valid_of_validate hvalidate
      exact (hvalid.bytes_mono (Int.toNat_le.mpr hle)).trans hgreatest.1.2

theorem exists_bytesPerRank {layout : Layout} (hvalidate : layout.validate = .ok ())
    {target : ℤ} (htarget : 0 ≤ target) :
    ∃ bytes, layout.bytesPerRank target = .ok bytes := by
  cases layout with
  | single layout =>
      exact ⟨_, KVLayout.bytesPerRank_eq_ok.mpr
        ⟨KVLayout.validate_eq_ok.mp hvalidate, htarget, rfl⟩⟩
  | composite layout =>
      exact ⟨_, CompositeKVLayout.bytesPerRank_eq_ok.mpr ⟨hvalidate, htarget, rfl⟩⟩

section Plans

variable {U : Type} {ops : Utilization U} {layout : Layout}

theorem DeviceBudget.kvAvailableBytes_nonneg (ops : Utilization U)
    (row : DeviceBudget U) : 0 ≤ row.kvAvailableBytes ops :=
  le_max_left 0 _

theorem exists_capacities (ops : Utilization U) (hvalidate : layout.validate = .ok ())
    (rows : List (DeviceBudget U)) :
    ∃ found, (∃ rounds, ∀ more ≥ rounds,
        capacities ops layout more rows = some (.ok found)) ∧
      List.Forall₂ (fun row capacity =>
        HasCapacity layout (row.kvAvailableBytes ops) capacity ∧
          Fits layout (row.kvAvailableBytes ops) capacity) rows found := by
  induction rows with
  | nil => exact ⟨[], ⟨0, fun _ _ => rfl⟩, .nil⟩
  | cons row rows ih =>
      obtain ⟨first, ⟨rounds, hfirst⟩, hfits⟩ :=
        exists_globalTokens hvalidate (row.kvAvailableBytes_nonneg ops)
      obtain ⟨found, ⟨rounds', hfound⟩, hall⟩ := ih
      refine ⟨first :: found, ⟨max rounds rounds', ?_⟩,
        .cons ⟨⟨rounds, hfirst⟩, hfits⟩ hall⟩
      intro more hmore
      rw [capacities, hfirst more ((Nat.le_max_left _ _).trans hmore)]
      change (capacities ops layout more rows >>= _) = _
      rw [hfound more ((Nat.le_max_right _ _).trans hmore)]
      rfl

theorem limitingIndex_spec {found : List ℕ} (hne : found ≠ []) :
    ∃ index capacity, limitingIndex found = some index ∧
      found[index]? = some capacity ∧ ∀ other ∈ found, capacity ≤ other := by
  have hsome : limitingIndex found ≠ none := by
    rw [limitingIndex, Ne, List.argmin_eq_none, List.range_eq_nil]
    exact fun hlength => hne (List.eq_nil_of_length_eq_zero hlength)
  obtain ⟨index, hindex⟩ := Option.ne_none_iff_exists'.mp hsome
  have hlt : index < found.length := List.mem_range.mp (List.argmin_mem hindex)
  refine ⟨index, found[index], hindex, List.getElem?_eq_getElem hlt, ?_⟩
  intro other hother
  obtain ⟨place, hplace, rfl⟩ := List.getElem_of_mem hother
  have hle := List.le_of_mem_argmin (List.mem_range.mpr hplace) hindex
  have hfirst := Prod.Lex.monotone_fst _ _ hle
  simpa [List.getD_eq_getElem?_getD, hlt, hplace] using hfirst

theorem checkPlan_eq_ok {rows : List (DeviceBudget U)} {target : ℤ}
    (hcheck : checkPlan ops layout rows target = .ok ()) :
    layout.validate = .ok () ∧ rows ≠ [] ∧ 1 ≤ target := by
  simp only [checkPlan, bind_eq_ok, require_eq_ok] at hcheck
  obtain ⟨_, hvalidate, _, hrows, _, _, _, htarget, _⟩ := hcheck
  exact ⟨hvalidate, hrows, htarget⟩

/-- No shortfall: the bytes of the target fit every device. -/
theorem all_shortfalls_iff {rows : List (DeviceBudget U)} {bytes : ℕ} :
    ((rows.map fun row => max 0 ((bytes : ℤ) - row.kvAvailableBytes ops)).all
        fun shortfall => shortfall = 0) = true ↔
      ∀ row ∈ rows, (bytes : ℤ) ≤ row.kvAvailableBytes ops := by
  rw [List.all_eq_true]
  simp only [List.forall_mem_map, decide_eq_true_eq, max_eq_left_iff, sub_nonpos]

/-- The plan projects the smallest capacity of its devices, and is feasible when each
of them has the bytes of the target. -/
structure Planned (ops : Utilization U) (layout : Layout) (rows : List (DeviceBudget U))
    (target : ℤ) (plan : RuntimeCapacityPlan U) : Prop where
  projected : ∃ found, List.Forall₂ (fun row capacity =>
      HasCapacity layout (row.kvAvailableBytes ops) capacity) rows found ∧
    IsLeast {capacity | capacity ∈ found} plan.projectedTokens
  bytes : layout.bytesPerRank target = .ok plan.targetKvBytesPerRank
  feasible : plan.feasible = true ↔
    ∀ row ∈ rows, (plan.targetKvBytesPerRank : ℤ) ≤ row.kvAvailableBytes ops

/-- The plan of checked inputs: what the target asks of the devices, and the smallest
capacity. -/
theorem buildCapacityPlan_spec {rows : List (DeviceBudget U)} {target : ℤ}
    (hcheck : checkPlan ops layout rows target = .ok ()) :
    ∃ plan, (∃ rounds, ∀ more ≥ rounds,
        buildCapacityPlan ops more layout rows target = some (.ok plan)) ∧
      Planned ops layout rows target plan ∧
      (target ≤ plan.projectedTokens → plan.feasible = true) ∧
      ∀ single, layout = .single single →
        plan.feasible = true → target ≤ plan.projectedTokens := by
  obtain ⟨hvalidate, hrows, htarget⟩ := checkPlan_eq_ok hcheck
  obtain ⟨bytes, hbytes⟩ := exists_bytesPerRank hvalidate (Int.le_of_lt htarget)
  obtain ⟨found, ⟨rounds, hfound⟩, hall⟩ := exists_capacities ops hvalidate rows
  have hne : found ≠ [] := by
    intro heq
    subst heq
    cases hall
    exact hrows rfl
  obtain ⟨index, capacity, hindex, hcapacity, hmin⟩ := limitingIndex_spec hne
  have hprojected : found.getD index 0 = capacity := by
    rw [List.getD_eq_getElem?_getD, hcapacity, Option.getD_some]
  let shortfalls := rows.map fun row => max 0 ((bytes : ℤ) - row.kvAvailableBytes ops)
  let plan : RuntimeCapacityPlan U := {
    layout := layout
    devices := rows
    targetTokens := target
    limitingDevice := ((rows.map DeviceBudget.device)[index]?).getD 0
    projectedTokens := found.getD index 0
    targetKvBytesPerRank := bytes
    requiredAdditionalBytesByDevice := shortfalls
    maximumWeightBytesForTargetByDevice := rows.map fun row =>
      max 0 (row.usableBytes ops - row.nonWeightNonKvBytes - row.safetyMarginBytes - bytes)
    feasible := shortfalls.all fun shortfall => shortfall = 0 }
  have hfeasible : plan.feasible = true ↔
      ∀ row ∈ rows, (bytes : ℤ) ≤ row.kvAvailableBytes ops := all_shortfalls_iff
  refine ⟨plan, ⟨rounds, ?_⟩, ⟨⟨found, hall.imp fun _ _ => And.left, ?_, ?_⟩, hbytes,
    hfeasible⟩, ?_, ?_⟩
  · intro more hmore
    rw [buildCapacityPlan, hcheck]
    change (capacities ops layout more rows >>= _) = _
    rw [hfound more hmore]
    change some (layout.bytesPerRank target >>= _) = _
    rw [hbytes, ok_bind, hindex]
    rfl
  · change found.getD index 0 ∈ found
    rw [hprojected]
    exact List.mem_of_getElem? hcapacity
  · intro other hother
    change found.getD index 0 ≤ other
    rw [hprojected]
    exact hmin other hother
  · intro hle
    rw [hfeasible]
    intro row hrow
    obtain ⟨other, hother, -, hfits⟩ := forall₂_mem_left hall hrow
    have hsmallest : (capacity : ℤ) ≤ other := Int.ofNat_le.mpr (hmin other hother)
    have htarget' : target ≤ other := by
      calc target
          ≤ found.getD index 0 := hle
        _ = capacity := by rw [hprojected]
        _ ≤ other := hsmallest
    exact (hfits target bytes hbytes).1 htarget'
  · intro single hsingle hfits
    have hcapacityMem : capacity ∈ found := List.mem_of_getElem? hcapacity
    obtain ⟨row, hrow, -, hrowFits⟩ := forall₂_mem_right hall hcapacityMem
    have hle := (hrowFits target bytes hbytes).2 single hsingle (hfeasible.mp hfits row hrow)
    change target ≤ ((found.getD index 0 : ℕ) : ℤ)
    rw [hprojected]
    exact hle

end Plans

/-! ## Consistency -/

theorem CompositeKVLayout.quantum_dvd_iff {layout : CompositeKVLayout} {number : ℕ} :
    layout.quantum ∣ number ↔
      ∀ component ∈ layout.components,
        component.blockTokens * component.shardSize ∣ number := by
  rw [CompositeKVLayout.quantum]
  induction layout.components with
  | nil => simp
  | cons component components ih =>
      rw [List.map_cons, List.foldr_cons, List.forall_mem_cons, ← ih]
      exact Nat.lcm_dvd_iff

theorem Layout.bytesPerRank_mono {layout : Layout} {tokens tokens' : ℤ}
    {bytes bytes' : ℕ} (hbytes : layout.bytesPerRank tokens = .ok bytes)
    (hbytes' : layout.bytesPerRank tokens' = .ok bytes') (hle : tokens ≤ tokens') :
    bytes ≤ bytes' := by
  cases layout with
  | single layout =>
      obtain ⟨hvalid, _, rfl⟩ := KVLayout.bytesPerRank_eq_ok.mp hbytes
      obtain ⟨_, _, rfl⟩ := KVLayout.bytesPerRank_eq_ok.mp hbytes'
      exact blockBytes_mono hvalid.blockTokens hvalid.dcpSize (Int.toNat_le_toNat hle)
  | composite layout =>
      obtain ⟨hvalidate, _, rfl⟩ := CompositeKVLayout.bytesPerRank_eq_ok.mp hbytes
      obtain ⟨_, _, rfl⟩ := CompositeKVLayout.bytesPerRank_eq_ok.mp hbytes'
      have hvalid := CompositeKVLayout.valid_of_validate hvalidate
      exact hvalid.bytes_mono (Int.toNat_le_toNat hle)

/-- Capacity planning is consistent: the search of a valid composite ends with the
largest common multiple of the blocks of its components that fits, bytes grow with
tokens, one component agrees with the closed form on every input, and a plan that
projects its target is feasible, for one layout exactly then.  It projects the
smallest capacity of its devices and is feasible when they have the bytes. -/
theorem capacity_planning_consistent :
    (∀ layout : CompositeKVLayout, layout.validate = .ok () →
      ∀ rankBytes : ℤ, 0 ≤ rankBytes → ∃ tokens,
        (∃ rounds, ∀ more ≥ rounds,
          layout.globalTokensFromRankBytes more rankBytes = some (.ok tokens)) ∧
        IsGreatest {number : ℕ |
          (∀ component ∈ layout.components,
            component.blockTokens * component.shardSize ∣ number) ∧
          ∃ bytes, layout.bytesPerRank number = .ok bytes ∧ (bytes : ℤ) ≤ rankBytes}
          tokens) ∧
    (∀ (layout : Layout) (tokens tokens' : ℤ) (bytes bytes' : ℕ),
      layout.bytesPerRank tokens = .ok bytes → layout.bytesPerRank tokens' = .ok bytes' →
      tokens ≤ tokens' → bytes ≤ bytes') ∧
    (∀ (layout : KVLayout) (name : String), name ≠ "" → ∀ input : ℤ,
      ((layout.asComposite name).bytesPerRank input).toOption =
        (layout.bytesPerRank input).toOption ∧
      ∃ rounds, ∀ more ≥ rounds,
        ((layout.asComposite name).globalTokensFromRankBytes more input).map
          Except.toOption = some (layout.globalTokensFromRankBytes input).toOption) ∧
    ∀ (U : Type) (ops : Utilization U) (layout : Layout) (rows : List (DeviceBudget U))
      (target : ℤ), checkPlan ops layout rows target = .ok () →
      ∃ plan, (∃ rounds, ∀ more ≥ rounds,
          buildCapacityPlan ops more layout rows target = some (.ok plan)) ∧
        Planned ops layout rows target plan ∧
        (target ≤ plan.projectedTokens → plan.feasible = true) ∧
        ∀ single, layout = .single single →
          plan.feasible = true → target ≤ plan.projectedTokens := by
  refine ⟨?search, ?mono, ?single, ?plan⟩
  case search =>
    intro layout hvalidate rankBytes hrank
    obtain ⟨tokens, hgreatest, hrounds⟩ := layout.globalTokens_spec hvalidate hrank
    refine ⟨tokens, hrounds, ?_⟩
    convert hgreatest using 3 with number
    rw [CompositeKVLayout.quantum_dvd_iff]
    refine and_congr_right fun _ => ?_
    rw [Int.le_toNat hrank]
    constructor
    · rintro ⟨bytes, hbytes, hle⟩
      obtain ⟨_, _, rfl⟩ := CompositeKVLayout.bytesPerRank_eq_ok.mp hbytes
      exact hle
    · intro hle
      exact ⟨_, CompositeKVLayout.bytesPerRank_eq_ok.mpr
        ⟨hvalidate, Int.natCast_nonneg number, rfl⟩, hle⟩
  case mono =>
    intro layout tokens tokens' bytes bytes' hbytes hbytes' hle
    exact layout.bytesPerRank_mono hbytes hbytes' hle
  case single =>
    intro layout name hname input
    exact ⟨layout.bytesPerRank_asComposite hname input,
      layout.globalTokens_asComposite hname input⟩
  case plan =>
    intro U ops layout rows target hcheck
    exact buildCapacityPlan_spec hcheck

/-- Two components with shards of two and four ranks, and a device for each rank: the
target is projected, so the plan is feasible. -/
theorem capacity_planning_consistent_mixed :
    let target : KVComponent := ⟨"target", 2, 3, 4, 4⟩
    let draft : KVComponent := ⟨"draft", 1, 3, 2, 6⟩
    let layout : CompositeKVLayout := ⟨[target, draft], 4⟩
    let ops : Utilization (ℤ × ℤ) := ⟨fun share => share.2 ≠ 0,
      fun share => 0 < share.1 ∧ share.1 ≤ share.2,
      fun bytes share => bytes * share.1 / share.2⟩
    let row (device : ℤ) : DeviceBudget (ℤ × ℤ) := ⟨device, 400, 300, (1, 2), 40, 10, 0⟩
    (∃ tokens, (∃ rounds, ∀ more ≥ rounds,
        layout.globalTokensFromRankBytes more 150 = some (.ok tokens)) ∧
      IsGreatest {number : ℕ |
        (∀ component ∈ layout.components,
          component.blockTokens * component.shardSize ∣ number) ∧
        ∃ bytes, layout.bytesPerRank number = .ok bytes ∧ (bytes : ℤ) ≤ 150} tokens) ∧
    ∃ plan, (∃ rounds, ∀ more ≥ rounds,
        buildCapacityPlan ops more (.composite layout) [row 1, row 0, row 3, row 2] 48 =
          some (.ok plan)) ∧
      48 ≤ plan.projectedTokens ∧ plan.feasible = true := by
  intro target draft layout ops row
  have hvalidate : layout.validate = .ok () := by decide
  have hcheck : checkPlan ops (.composite layout) [row 1, row 0, row 3, row 2] 48 =
      .ok () := by decide
  obtain ⟨hsearch, _, _, hplan⟩ := capacity_planning_consistent
  obtain ⟨tokens, ⟨rounds, htokens⟩, hgreatest⟩ := hsearch layout hvalidate 150 (by decide)
  refine ⟨⟨tokens, ⟨rounds, htokens⟩, hgreatest⟩, ?_⟩
  obtain ⟨plan, hrounds, hplanned, hfeasible, _⟩ := hplan (ℤ × ℤ) ops _ _ _ hcheck
  obtain ⟨found, hcapacities, hleast⟩ := hplanned.projected
  obtain ⟨device, hdevice, rounds', hcapacity⟩ := forall₂_mem_right hcapacities hleast.1
  have havailable : device.kvAvailableBytes ops = 150 := by
    simp only [List.mem_cons, List.not_mem_nil, or_false] at hdevice
    rcases hdevice with rfl | rfl | rfl | rfl <;> rfl
  rw [havailable] at hcapacity
  have hsame : plan.projectedTokens = tokens := Except.ok.inj (Option.some.inj
    ((hcapacity (max rounds rounds') (le_max_right _ _)).symm.trans
      (htokens (max rounds rounds') (le_max_left _ _))))
  have hprojected : 48 ≤ plan.projectedTokens := by
    rw [hsame]
    exact hgreatest.2 ⟨by decide, 144, by decide, by decide⟩
  exact ⟨plan, hrounds, hprojected, hfeasible (Int.ofNat_le.mpr hprojected)⟩

end GlmFlash.Capacity
