import GlmFlash.Calibration.Windows

/-!
# The documents and windows of the roles

The documents of a domain go to the roles in turn, so the roles get equally
many of them up to one.  The windows of a role are cut from its documents, each
at most once, and the round robin keeps its domains even.
-/

namespace GlmFlash.Calibration

open GlmFlash.Library

/-! ## Groups -/

section

variable {A K : Type} [DecidableEq K] (keyOf : A → K)

/-- Groups with their keys side by side: one group is what has its key. -/
theorem filter_flatMap_groups {keys : List K} (hkeys : keys.Nodup) {group : K → List A}
    (hgroup : ∀ key, ∀ item ∈ group key, keyOf item = key) (key : K) :
    (keys.flatMap group).filter (fun item => keyOf item = key) =
      if key ∈ keys then group key else [] := by
  induction keys with
  | nil => rw [if_neg List.not_mem_nil]; rfl
  | cons first rest ih =>
      obtain ⟨hnotin, hrest⟩ := List.nodup_cons.mp hkeys
      rw [List.flatMap_cons, List.filter_append, ih hrest]
      by_cases hfirst : first = key
      · subst hfirst
        have hall : (group first).filter (fun item => keyOf item = first) = group first := by
          apply List.filter_eq_self.mpr
          intro item hitem
          exact decide_eq_true (hgroup first item hitem)
        rw [hall, if_neg hnotin, if_pos List.mem_cons_self, List.append_nil]
      · have hnone : (group first).filter (fun item => keyOf item = key) = [] := by
          apply List.filter_eq_nil_iff.mpr
          intro item hitem heq
          exact hfirst ((hgroup first item hitem).symm.trans (of_decide_eq_true heq))
        have hmem : key ∈ first :: rest ↔ key ∈ rest := by
          rw [List.mem_cons, or_iff_right (Ne.symm hfirst)]
        simp only [hnone, hmem, List.nil_append]

/-- A list is the groups of its keys, in another order. -/
theorem flatMap_filter_perm [DecidableEq A] {keys : List K} (hkeys : keys.Nodup)
    {items : List A} (hall : ∀ item ∈ items, keyOf item ∈ keys) :
    (keys.flatMap fun key => items.filter fun item => keyOf item = key).Perm items := by
  apply List.perm_iff_count.mpr
  intro target
  have hcount : ∀ list : List A, list.count target =
      (list.filter fun item => keyOf item = keyOf target).count target := by
    intro list
    exact (List.count_filter (p := fun item => decide (keyOf item = keyOf target))
      (decide_eq_true rfl)).symm
  rw [hcount, hcount items, filter_flatMap_groups keyOf hkeys]
  · split
    · rfl
    · rename_i hnone
      have hempty : (items.filter fun item => keyOf item = keyOf target) = [] := by
        apply List.filter_eq_nil_iff.mpr
        intro item hitem heq
        exact hnone (of_decide_eq_true heq ▸ hall item hitem)
      rw [hempty]
  · intro key item hitem
    exact of_decide_eq_true (List.mem_filter.mp hitem).2

end

section

variable {V : Type} {groups : Dict String (List V)}

/-- The list of a key, which is empty for a key that is not there. -/
def groupOf (groups : Dict String (List V)) (key : String) : List V :=
  (groups.get? key).getD []

theorem groupOf_append (key other : String) (value : V) :
    groupOf (append groups key value) other =
      if other = key then groupOf groups key ++ [value] else groupOf groups other := by
  by_cases hother : other = key
  · subst hother
    rw [groupOf, append, Dict.get?_set_self, if_pos rfl]
    rfl
  · rw [groupOf, append, Dict.get?_set_of_ne hother, if_neg hother]
    rfl

theorem mem_keys_of_groupOf_ne {key : String} (hne : groupOf groups key ≠ []) :
    key ∈ Dict.keys groups := by
  by_contra hnone
  apply hne
  rw [groupOf, Dict.get?_eq_none_iff.mpr hnone]
  rfl

theorem nodup_sortedKeys (hnodup : (Dict.keys groups).Nodup) : (sortedKeys groups).Nodup :=
  (List.perm_insertionSort _ _).nodup_iff.mpr hnodup

theorem mem_sortedKeys {key : String} : key ∈ sortedKeys groups ↔ key ∈ Dict.keys groups :=
  (List.perm_insertionSort _ _).mem_iff

end

/-! ## Documents -/

theorem nodup_readLines {number : ℕ} {documents result : List Document} {lines : List Line}
    (hread : readLines number documents lines = .ok result)
    (hnodup : (documents.map Document.id).Nodup) : (result.map Document.id).Nodup := by
  induction lines generalizing number documents with
  | nil =>
      cases hread
      exact hnodup
  | cons line lines ih =>
      match line with
      | .blank => exact ih hread hnodup
      | .malformed => cases hread
      | .row (some id) (some domain) (some text) =>
          simp only [readLines, bind_eq_ok, require_eq_ok] at hread
          obtain ⟨-, hnew, hrest⟩ := hread
          apply ih hrest
          rw [List.map_append]
          apply List.Nodup.append hnodup (List.nodup_singleton id)
          intro other hold hlast
          exact hnew (List.mem_singleton.mp hlast ▸ hold)
      | .row none _ _ => cases hread
      | .row (some _) none _ => cases hread
      | .row (some _) (some _) none => cases hread

theorem groupDocuments_spec (documents : List Document) :
    (Dict.keys (groupDocuments documents)).Nodup ∧
      ∀ domain, groupOf (groupDocuments documents) domain =
        documents.filter fun document => document.domain = domain := by
  let invariant : List Document → Dict String (List Document) → Prop := fun done groups =>
    (Dict.keys groups).Nodup ∧ ∀ domain, groupOf groups domain =
      done.filter fun document => document.domain = domain
  have hkeep : ∀ done document groups, invariant done groups →
      invariant (done ++ [document]) (append groups document.domain document) := by
    intro done document groups hgroups
    refine ⟨Dict.nodup_keys_set hgroups.1, ?_⟩
    intro domain
    rw [groupOf_append, List.filter_append, List.filter_singleton]
    by_cases hdomain : document.domain = domain
    · rw [if_pos hdomain.symm, hgroups.2, hdomain, decide_eq_true rfl]
      rfl
    · rw [if_neg (Ne.symm hdomain), hgroups.2, decide_eq_false hdomain]
      exact (List.append_nil _).symm
  have hstart : invariant [] [] := ⟨List.nodup_nil, fun _ => rfl⟩
  exact foldl_prefix hkeep hstart

variable {runtime : Runtime} {documents : List Document} {seed : ℤ}

/-- The documents of a domain that a role gets. -/
def share (runtime : Runtime) (documents : List Document) (seed : ℤ) (role : Role)
    (domain : String) : List Document :=
  ((keyed runtime seed domain (groupOf (groupDocuments documents) domain)).zipIdx.filter
    fun entry => roleAt entry.2 = role).map Prod.fst

theorem foldl_assignRow (entries : List (Document × ℕ)) (result : Role → List Document)
    (role : Role) : entries.foldl assignRow result role =
      result role ++ (entries.filter fun entry => roleAt entry.2 = role).map Prod.fst := by
  induction entries generalizing result with
  | nil => exact (List.append_nil _).symm
  | cons entry entries ih =>
      rw [List.foldl_cons, ih, assignRow]
      rw [List.filter_cons]
      by_cases hrole : roleAt entry.2 = role
      · rw [if_pos (decide_eq_true hrole), ← hrole, Function.update_self, List.append_assoc]
        rfl
      · rw [if_neg fun h => hrole (of_decide_eq_true h),
          Function.update_of_ne (Ne.symm hrole)]

theorem documentSplit_eq (role : Role) : documentSplit runtime documents seed role =
    (sortedKeys (groupDocuments documents)).flatMap (share runtime documents seed role) := by
  have hfold : ∀ (domains : List String) (result : Role → List Document),
      domains.foldl (fun result domain =>
        (keyed runtime seed domain
          (((groupDocuments documents).get? domain).getD [])).zipIdx.foldl assignRow result)
        result role =
      result role ++ domains.flatMap (share runtime documents seed role) := by
    intro domains
    induction domains with
    | nil => exact fun result => (List.append_nil _).symm
    | cons domain domains ih =>
        intro result
        rw [List.foldl_cons, ih, foldl_assignRow, List.flatMap_cons, List.append_assoc]
        rfl
  exact hfold _ _

theorem mem_share {role : Role} {domain : String} {document : Document} :
    document ∈ share runtime documents seed role domain ↔
      ∃ index, (keyed runtime seed domain
          (groupOf (groupDocuments documents) domain))[index]? = some document ∧
        roleAt index = role := by
  rw [share, List.mem_map]
  constructor
  · rintro ⟨entry, hentry, rfl⟩
    obtain ⟨hmem, hrole⟩ := List.mem_filter.mp hentry
    exact ⟨entry.2, List.mem_zipIdx_iff_getElem?.mp hmem, of_decide_eq_true hrole⟩
  · rintro ⟨index, hget, hrole⟩
    exact ⟨(document, index), List.mem_filter.mpr
      ⟨List.mem_zipIdx_iff_getElem?.mpr hget, decide_eq_true hrole⟩, rfl⟩

theorem keyed_perm (runtime : Runtime) (seed : ℤ) (domain : String) (rows : List Document) :
    (keyed runtime seed domain rows).Perm rows :=
  List.perm_insertionSort _ _

theorem share_subset {role : Role} {domain : String} {document : Document}
    (hmem : document ∈ share runtime documents seed role domain) :
    document ∈ documents ∧ document.domain = domain := by
  obtain ⟨index, hget, -⟩ := mem_share.mp hmem
  have hgroup := (keyed_perm runtime seed domain _).mem_iff.mp (List.mem_of_getElem? hget)
  rw [(groupDocuments_spec documents).2] at hgroup
  obtain ⟨hin, hdomain⟩ := List.mem_filter.mp hgroup
  exact ⟨hin, of_decide_eq_true hdomain⟩

theorem nodup_keyed_group (runtime : Runtime) (seed : ℤ) (hnodup : documents.Nodup)
    (domain : String) :
    (keyed runtime seed domain (groupOf (groupDocuments documents) domain)).Nodup := by
  rw [(keyed_perm runtime seed domain _).nodup_iff, (groupDocuments_spec documents).2]
  exact hnodup.filter _

theorem mem_documentSplit {role : Role} {document : Document} :
    document ∈ documentSplit runtime documents seed role ↔
      document ∈ share runtime documents seed role document.domain := by
  rw [documentSplit_eq, List.mem_flatMap]
  constructor
  · rintro ⟨domain, -, hmem⟩
    rw [(share_subset hmem).2]
    exact hmem
  · intro hmem
    refine ⟨document.domain, mem_sortedKeys.mpr (mem_keys_of_groupOf_ne ?_), hmem⟩
    rw [(groupDocuments_spec documents).2]
    exact List.ne_nil_of_mem
      (List.mem_filter.mpr ⟨(share_subset hmem).1, decide_eq_true rfl⟩)

theorem documentSplit_subset {role : Role} {document : Document}
    (hmem : document ∈ documentSplit runtime documents seed role) : document ∈ documents :=
  (share_subset (mem_documentSplit.mp hmem)).1

/-- A document is in the turn of one role only. -/
theorem documentSplit_role (hnodup : documents.Nodup) {left right : Role}
    {document : Document} (hleft : document ∈ documentSplit runtime documents seed left)
    (hright : document ∈ documentSplit runtime documents seed right) : left = right := by
  obtain ⟨first, hfirst, rfl⟩ := mem_share.mp (mem_documentSplit.mp hleft)
  obtain ⟨second, hsecond, rfl⟩ := mem_share.mp (mem_documentSplit.mp hright)
  have hindex : first = second := by
    have hkeyed := nodup_keyed_group runtime seed hnodup document.domain
    apply (List.getElem?_inj (List.getElem?_eq_some_iff.mp hfirst).1 hkeyed).mp
    rw [hfirst, hsecond]
  rw [hindex]

theorem filter_documentSplit (role : Role) (domain : String) :
    (documentSplit runtime documents seed role).filter
        (fun document => document.domain = domain) =
      share runtime documents seed role domain := by
  rw [documentSplit_eq, filter_flatMap_groups Document.domain
    (nodup_sortedKeys (groupDocuments_spec documents).1)
    fun _ _ hmem => (share_subset hmem).2]
  split
  · rfl
  · rename_i hnone
    symm
    apply List.eq_nil_iff_forall_not_mem.mpr
    intro document hmem
    have hgroup : groupOf (groupDocuments documents) domain ≠ [] := by
      rw [(groupDocuments_spec documents).2]
      exact List.ne_nil_of_mem (List.mem_filter.mpr
        ⟨(share_subset hmem).1, decide_eq_true (share_subset hmem).2⟩)
    exact hnone (mem_sortedKeys.mpr (mem_keys_of_groupOf_ne hgroup))

theorem nodup_documentSplit (hnodup : documents.Nodup) (role : Role) :
    (documentSplit runtime documents seed role).Nodup := by
  rw [documentSplit_eq, List.nodup_flatMap]
  constructor
  · intro domain _
    have hkeyed := nodup_keyed_group runtime seed hnodup domain
    rw [← List.zipIdx_map_fst 0 (keyed _ _ _ _)] at hkeyed
    exact hkeyed.sublist (List.filter_sublist.map Prod.fst)
  · apply (nodup_sortedKeys (groupDocuments_spec documents).1).imp
    intro left right hne document hleft hright
    exact hne ((share_subset hleft).2.symm.trans (share_subset hright).2)

theorem roleAt_eq_iff (index : ℕ) (role : Role) :
    roleAt index = role ↔ index % 5 = allRoles.idxOf role := by
  have hroleAt : roleAt index = allRoles.getD (index % 5) .fit := rfl
  have hlt : index % 5 < 5 := Nat.mod_lt _ (by decide)
  have hall : ∀ turn < 5,
      allRoles.getD turn .fit = role ↔ turn = allRoles.idxOf role := by
    cases role <;> decide
  rw [hroleAt]
  exact hall (index % 5) hlt

theorem length_share (role : Role) (domain : String) :
    (share runtime documents seed role domain).length =
      ((groupOf (groupDocuments documents) domain).length + 4 - allRoles.idxOf role) / 5 := by
  have hturns : ∀ count : ℕ, ((List.range count).filter fun index =>
      roleAt index = role).length = (count + 4 - allRoles.idxOf role) / 5 := by
    have hrole : allRoles.idxOf role < 5 := by cases role <;> decide
    intro count
    induction count with
    | zero =>
        rw [List.range_zero, List.filter_nil, List.length_nil]
        omega
    | succ count ih =>
        rw [List.range_succ, List.filter_append, List.length_append, ih,
          List.filter_singleton]
        have hturn := roleAt_eq_iff count role
        by_cases hcount : roleAt count = role
        · rw [decide_eq_true hcount]
          have hmod := hturn.mp hcount
          change _ + 1 = _
          omega
        · rw [decide_eq_false hcount]
          have hmod := mt hturn.mpr hcount
          change _ + 0 = _
          omega
  have hmap : ((keyed runtime seed domain (groupOf (groupDocuments documents)
        domain)).zipIdx.filter fun entry => roleAt entry.2 = role).map Prod.snd =
      (List.range (groupOf (groupDocuments documents) domain).length).filter fun index =>
        roleAt index = role := by
    rw [← (keyed_perm runtime seed domain _).length_eq,
      List.range_eq_range', ← List.zipIdx_map_snd 0 (keyed _ _ _ _), List.filter_map]
    rfl
  have hlength := congrArg List.length hmap
  rw [List.length_map, hturns] at hlength
  rw [share, List.length_map, hlength]

/-- Of each domain two roles get equally many documents, up to one. -/
theorem documentSplit_balanced (runtime : Runtime) (documents : List Document) (seed : ℤ)
    (left right : Role) (domain : String) :
    ((documentSplit runtime documents seed left).filter
        fun document => document.domain = domain).length ≤
      ((documentSplit runtime documents seed right).filter
        fun document => document.domain = domain).length + 1 := by
  have hleft : allRoles.idxOf left < 5 := by cases left <;> decide
  have hright : allRoles.idxOf right < 5 := by cases right <;> decide
  rw [filter_documentSplit, filter_documentSplit, length_share, length_share]
  omega

/-! ## Windows -/

/-- A window without its digest. -/
structure Cut where
  documentId : String
  domain : String
  offset : ℤ
  tokenIds : List ℤ
  deriving DecidableEq

def Window.cut (window : Window) : Cut :=
  ⟨window.documentId, window.domain, window.offset, window.tokenIds⟩

def cutAt (encode : String → List ℤ) (windowTokens : ℤ) (document : Document) (offset : ℤ) :
    Cut :=
  ⟨document.id, document.domain, offset,
    ((encode document.text).drop offset.toNat).take windowTokens.toNat⟩

/-- The full windows of a document. -/
def cuts (encode : String → List ℤ) (windowTokens : ℤ) (document : Document) : List Cut :=
  (List.range ((encode document.text).length / windowTokens.toNat)).map fun index : ℕ =>
    cutAt encode windowTokens document (index * windowTokens)

/-- The windows of a dictionary are these cuts, by domain and in this order. -/
structure Grouped (runtime : Runtime) (byDomain : Dict String (List Window))
    (items : List Cut) : Prop where
  nodup : (Dict.keys byDomain).Nodup
  cuts_eq : ∀ domain, (groupOf byDomain domain).map Window.cut =
    items.filter fun cut => cut.domain = domain
  hashed : ∀ domain, ∀ window ∈ groupOf byDomain domain,
    tokenSha256 runtime window.tokenIds = .ok window.tokenSha256

variable {encode : String → List ℤ} {windowTokens limit : ℤ}

theorem Grouped.append {byDomain : Dict String (List Window)} {items : List Cut}
    (hgrouped : Grouped runtime byDomain items) {window : Window}
    (hhashed : tokenSha256 runtime window.tokenIds = .ok window.tokenSha256) :
    Grouped runtime (append byDomain window.domain window) (items ++ [window.cut]) := by
  refine ⟨Dict.nodup_keys_set hgrouped.nodup, ?_, ?_⟩
  · intro domain
    rw [groupOf_append, List.filter_append, List.filter_singleton]
    by_cases hdomain : window.domain = domain
    · rw [if_pos hdomain.symm, List.map_append, hgrouped.cuts_eq, hdomain]
      have hcut : decide (window.cut.domain = domain) = true := decide_eq_true hdomain
      rw [hcut]
      rfl
    · have hcut : decide (window.cut.domain = domain) = false := decide_eq_false hdomain
      rw [if_neg (Ne.symm hdomain), hgrouped.cuts_eq, hcut]
      exact (List.append_nil _).symm
  · intro domain found hfound
    rw [groupOf_append] at hfound
    split at hfound
    · rcases List.mem_append.mp hfound with hold | hnew
      · exact hgrouped.hashed _ found hold
      · rw [List.mem_singleton.mp hnew]
        exact hhashed
    · exact hgrouped.hashed _ found hfound

theorem addWindow_grouped {byDomain next : Dict String (List Window)} {items : List Cut}
    {document : Document} {offset : ℤ}
    (hadd : addWindow runtime document (encode document.text) windowTokens byDomain offset =
      .ok next) (hgrouped : Grouped runtime byDomain items) :
    Grouped runtime next (items ++ ([cutAt encode windowTokens document offset].filter
      fun cut => (cut.tokenIds.length : ℤ) = windowTokens)) := by
  rw [List.filter_singleton]
  rw [addWindow] at hadd
  by_cases hfull : ((((encode document.text).drop offset.toNat).take
      windowTokens.toNat).length : ℤ) = windowTokens
  · rw [if_neg (not_not_intro hfull)] at hadd
    simp only [bind_eq_ok, pure_eq_ok] at hadd
    obtain ⟨sha256, hsha256, rfl⟩ := hadd
    have hkept : decide (((cutAt encode windowTokens document offset).tokenIds.length : ℤ) =
        windowTokens) = true := decide_eq_true hfull
    let window : Window := ⟨document.id, document.domain, offset,
      ((encode document.text).drop offset.toNat).take windowTokens.toNat, sha256⟩
    have hhashed : tokenSha256 runtime window.tokenIds = .ok window.tokenSha256 := hsha256
    rw [hkept]
    exact hgrouped.append hhashed
  · rw [if_pos hfull, pure_eq_ok] at hadd
    have hdropped : decide (((cutAt encode windowTokens document offset).tokenIds.length : ℤ) =
        windowTokens) = false := decide_eq_false hfull
    rw [hdropped, ← hadd]
    change Grouped runtime byDomain (items ++ [])
    rw [List.append_nil]
    exact hgrouped

/-- The offsets are those of the full windows. -/
theorem pyRange_offsets {tokens : List ℤ} {offsets : List ℤ}
    (hrange : pyRange (max 0 ((tokens.length : ℤ) - windowTokens + 1)).toNat windowTokens =
      .ok offsets) :
    offsets = (List.range (tokens.length / windowTokens.toNat)).map fun index : ℕ =>
      (index : ℤ) * windowTokens := by
  rw [pyRange] at hrange
  split at hrange
  · cases hrange
  · rename_i hzero
    split at hrange
    · rename_i hnegative
      have hnone : windowTokens.toNat = 0 := Int.toNat_of_nonpos (Int.le_of_lt hnegative)
      cases hrange
      rw [hnone, Nat.div_zero]
      rfl
    · rename_i hnonneg
      cases hrange
      have hpositive : 0 < windowTokens.toNat := by omega
      have hcount : ((max 0 ((tokens.length : ℤ) - windowTokens + 1)).toNat +
          windowTokens.toNat - 1) / windowTokens.toNat =
            tokens.length / windowTokens.toNat := by
        by_cases hroom : windowTokens.toNat ≤ tokens.length
        · have hstop : (max 0 ((tokens.length : ℤ) - windowTokens + 1)).toNat +
              windowTokens.toNat - 1 = tokens.length := by omega
          rw [hstop]
        · rw [Nat.div_eq_of_lt (by omega), Nat.div_eq_of_lt (by omega)]
      rw [hcount]

theorem length_cutAt (document : Document) {index : ℕ}
    (hindex : index < (encode document.text).length / windowTokens.toNat) :
    ((cutAt encode windowTokens document (index * windowTokens)).tokenIds.length : ℤ) =
      windowTokens := by
  have hpositive : 0 < windowTokens.toNat := by
    by_contra hzero
    rw [Nat.eq_zero_of_not_pos hzero, Nat.div_zero] at hindex
    exact Nat.not_lt_zero index hindex
  have hroom : (index + 1) * windowTokens.toNat ≤ (encode document.text).length :=
    (Nat.le_div_iff_mul_le hpositive).mp hindex
  have hoffset : ((index : ℤ) * windowTokens).toNat = index * windowTokens.toNat := by
    rw [Int.toNat_mul (by omega) (by omega), Int.toNat_natCast]
  rw [Nat.succ_mul] at hroom
  rw [cutAt, hoffset, List.length_take, List.length_drop]
  omega

theorem addDocument_grouped {byDomain next : Dict String (List Window)} {items : List Cut}
    {document : Document}
    (hadd : addDocument runtime encode windowTokens byDomain document = .ok next)
    (hgrouped : Grouped runtime byDomain items) :
    Grouped runtime next (items ++ cuts encode windowTokens document) := by
  simp only [addDocument, bind_eq_ok] at hadd
  obtain ⟨offsets, hrange, hloop⟩ := hadd
  have hfinal := foldlM_run (fun done state => Grouped runtime state
    (items ++ (done.map (cutAt encode windowTokens document)).filter
      fun cut => (cut.tokenIds.length : ℤ) = windowTokens)) (by
        intro done offset state after hround hstate
        have hnext := addWindow_grouped hround hstate
        rw [List.append_assoc, ← List.filter_append] at hnext
        rw [List.map_append]
        exact hnext) hloop (by
          change Grouped runtime byDomain (items ++ [])
          rw [List.append_nil]
          exact hgrouped)
  have hall : ((offsets.map (cutAt encode windowTokens document)).filter
      fun cut => (cut.tokenIds.length : ℤ) = windowTokens) =
        cuts encode windowTokens document := by
    rw [pyRange_offsets hrange, List.map_map]
    apply List.filter_eq_self.mpr
    intro cut hcut
    obtain ⟨index, hindex, rfl⟩ := List.mem_map.mp hcut
    exact decide_eq_true (length_cutAt document (List.mem_range.mp hindex))
  rw [← hall]
  exact hfinal

end GlmFlash.Calibration
