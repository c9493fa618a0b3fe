import GlmFlash.Calibration.RoleWindows
import Mathlib.Data.List.Flatten

/-!
# The windows that are selected

What `build_windows` returns is part of the full windows of its documents, as
many of them as there are up to the limit, and even over the domains.
-/

namespace GlmFlash.Calibration

open GlmFlash.Library

variable {runtime : Runtime} {shuffles : Shuffles Window} {documents : List Document}
  {encode : String → List ℤ} {windowTokens limit seed : ℤ} {windows : List Window}

theorem keys_shuffleDomains (byDomain : Dict String (List Window)) :
    Dict.keys (shuffleDomains shuffles seed byDomain) = Dict.keys byDomain := by
  have hkeys : ∀ (groups : Dict String (List Window)) (start : ℕ),
      ((groups.zipIdx start).map fun entry =>
        (entry.1.1, shuffles.shuffle seed entry.2 entry.1.2)).map Prod.fst =
          groups.map Prod.fst := by
    intro groups
    induction groups with
    | nil => exact fun _ => rfl
    | cons group groups ih =>
        intro start
        rw [List.zipIdx_cons, List.map_cons, List.map_cons, List.map_cons, ih]
  exact hkeys byDomain 0

theorem groupOf_shuffleDomains (byDomain : Dict String (List Window)) (domain : String) :
    (groupOf (shuffleDomains shuffles seed byDomain) domain).Perm
      (groupOf byDomain domain) := by
  have hgroups : ∀ (groups : Dict String (List Window)) (start : ℕ),
      (groupOf ((groups.zipIdx start).map fun entry =>
        (entry.1.1, shuffles.shuffle seed entry.2 entry.1.2)) domain).Perm
          (groupOf groups domain) := by
    intro groups
    induction groups with
    | nil => exact fun _ => List.Perm.refl _
    | cons group groups ih =>
        intro start
        rw [List.zipIdx_cons, List.map_cons, groupOf, groupOf, Dict.get?, Dict.get?]
        by_cases hgroup : group.1 = domain
        · rw [if_pos hgroup, if_pos hgroup]
          exact shuffles.shuffle_perm seed start group.2
        · rw [if_neg hgroup, if_neg hgroup]
          exact ih (start + 1)
  exact hgroups byDomain 0

theorem cut_domain {byDomain : Dict String (List Window)} {items : List Cut}
    (hgrouped : Grouped runtime byDomain items) {domain : String} {window : Window}
    (hmem : window ∈ groupOf byDomain domain) : window.domain = domain := by
  have hcut := List.mem_map_of_mem (f := Window.cut) hmem
  rw [hgrouped.cuts_eq] at hcut
  exact of_decide_eq_true (List.mem_filter.mp hcut).2

/-- What the caller of `build_windows` gets. -/
structure Selected (runtime : Runtime) (items : List Cut) (limit : ℤ)
    (windows : List Window) : Prop where
  hashed : ∀ window ∈ windows,
    tokenSha256 runtime window.tokenIds = .ok window.tokenSha256
  subperm : (windows.map Window.cut).Subperm items
  length_eq : windows.length = min limit.toNat items.length
  balanced : ∀ left right : String,
    (windows.filter fun window => window.domain = left).length ≤
        (windows.filter fun window => window.domain = right).length + 1 ∨
      (windows.filter fun window => window.domain = right).length =
        (items.filter fun cut => cut.domain = right).length

theorem buildWindows_selected (hbuild : buildWindows runtime shuffles documents encode
      windowTokens limit seed = .ok windows) :
    Selected runtime (documents.flatMap (cuts encode windowTokens)) limit windows := by
  simp only [buildWindows, bind_eq_ok, pure_eq_ok] at hbuild
  obtain ⟨byDomain, hloop, hselect⟩ := hbuild
  let items := documents.flatMap (cuts encode windowTokens)
  have hgrouped : Grouped runtime byDomain items := by
    apply foldlM_run (fun done state =>
      Grouped runtime state (done.flatMap (cuts encode windowTokens))) _ hloop
    · exact ⟨List.nodup_nil, fun _ => rfl, fun _ _ hmem => absurd hmem List.not_mem_nil⟩
    · intro done document state next hround hstate
      rw [List.flatMap_append, List.flatMap_singleton]
      exact addDocument_grouped hround hstate
  let candidates := groupOf (shuffleDomains shuffles seed byDomain)
  let domains := sortedKeys (shuffleDomains shuffles seed byDomain)
  have hdomains : domains.Nodup :=
    nodup_sortedKeys (keys_shuffleDomains byDomain ▸ hgrouped.nodup)
  have hperm : ∀ domain, (candidates domain).Perm (groupOf byDomain domain) :=
    groupOf_shuffleDomains byDomain
  have hlength : ∀ domain, (candidates domain).length =
      (items.filter fun cut => cut.domain = domain).length := by
    intro domain
    rw [(hperm domain).length_eq, ← hgrouped.cuts_eq, List.length_map]
  have hgroup : ∀ domain, ∀ window ∈ candidates domain, window.domain = domain :=
    fun domain window hmem => cut_domain hgrouped ((hperm domain).mem_iff.mp hmem)
  have hall : ∀ cut ∈ items, cut.domain ∈ domains := by
    intro cut hcut
    apply mem_sortedKeys.mpr
    rw [keys_shuffleDomains]
    apply mem_keys_of_groupOf_ne
    intro hempty
    have hnone := hgrouped.cuts_eq cut.domain
    rw [hempty] at hnone
    exact List.ne_nil_of_mem (List.mem_filter.mpr ⟨hcut, decide_eq_true rfl⟩) hnone.symm
  have htotal : (domains.map fun domain => (candidates domain).length).sum = items.length := by
    rw [← (flatMap_filter_perm Cut.domain hdomains hall).length_eq, List.length_flatMap]
    exact congrArg List.sum (List.map_congr_left fun domain _ => hlength domain)
  have hfuel : (domains.map fun domain => (candidates domain).length).sum <
      (domains.map fun domain => (candidates domain).length).sum + 1 := Nat.lt_succ_self _
  obtain ⟨taken, htaken, hselected, hfair, hcount⟩ :=
    RoundRobin.select_spec hdomains candidates limit.toNat hfuel
  change RoundRobin.select limit.toNat domains
    ((domains.map fun domain => (candidates domain).length).sum + 1) [] candidates =
      windows at hselect
  rw [hselect] at hselected hcount
  rw [htotal] at hcount
  have hfilter : ∀ domain, (windows.filter fun window => window.domain = domain).length =
      taken domain := by
    intro domain
    have hlast : ∀ key, ∀ window ∈ RoundRobin.last candidates (taken key) key,
        window.domain = key :=
      fun key window hmem => hgroup key window (List.mem_of_mem_drop hmem)
    rw [(hselected.filter _).length_eq, filter_flatMap_groups Window.domain hdomains hlast]
    split
    · exact RoundRobin.length_last (htaken domain)
    · rename_i hnone
      have hempty : candidates domain = [] := by
        by_contra hne
        exact hnone (mem_sortedKeys.mpr (mem_keys_of_groupOf_ne hne))
      have hzero := htaken domain
      rw [hempty] at hzero
      exact (Nat.le_zero.mp hzero).symm
  constructor
  · intro window hmem
    obtain ⟨domain, -, hlast⟩ := List.mem_flatMap.mp (hselected.mem_iff.mp hmem)
    exact hgrouped.hashed domain window
      ((hperm domain).mem_iff.mp (List.mem_of_mem_drop hlast))
  · have hsublist : (domains.flatMap fun domain =>
        RoundRobin.last candidates (taken domain) domain).Sublist
          (domains.flatMap candidates) :=
      List.Sublist.flatMap_right domains fun domain _ => List.drop_sublist _ _
    have hcandidates : ((domains.flatMap candidates).map Window.cut).Perm items := by
      have hcuts : ((domains.flatMap (groupOf byDomain)).map Window.cut) =
          domains.flatMap fun domain => items.filter fun cut => cut.domain = domain := by
        rw [List.map_flatMap]
        exact List.flatMap_congr fun domain _ => hgrouped.cuts_eq domain
      have hgroups : (domains.flatMap candidates).Perm (domains.flatMap (groupOf byDomain)) :=
        List.Perm.flatMap_left domains fun domain _ => hperm domain
      exact ((hgroups.map Window.cut).trans (List.Perm.of_eq hcuts)).trans
        (flatMap_filter_perm Cut.domain hdomains hall)
    exact ((hselected.map Window.cut).subperm.trans (hsublist.map Window.cut).subperm).trans
      hcandidates.subperm
  · exact hcount
  · intro left right
    rw [hfilter, hfilter, ← hlength]
    exact hfair left right

end GlmFlash.Calibration
