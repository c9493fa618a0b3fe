import GlmFlash.Cache.BlockHash
import GlmFlash.Library.CeilDiv
import Mathlib.Data.List.Nodup

/-!
# What equal prefix hashes say

Two requests with the same hash at some position hold the same tokens, the
same multi-modal items and the same prompt embeddings up to it.  The adapter's
name and the cache salt are both plain strings in the tuple of extra keys, so
the first block alone cannot always tell them apart; from the second block on
it can, as the salt stands in the first block only.
-/

namespace GlmFlash.Cache

open GlmFlash.Library

namespace ExtraKey

def isName : ExtraKey → Bool
  | .name _ => true
  | _ => false

def isFeature : ExtraKey → Bool
  | .feature _ _ => true
  | _ => false

def isDigest : ExtraKey → Bool
  | .digest _ => true
  | _ => false

end ExtraKey

/-- An item of the prefix as its keys show it: identifier, offset, and the
number of blocks up to the last one of the prefix that it reaches. -/
def prefixFeatures (features : List MultiModalFeature)
    (hashBlockSize count : ℕ) : List (String × ℕ × ℕ) :=
  (features.filter fun feature =>
      decide (feature.offset < count * hashBlockSize)).map fun feature =>
    (feature.identifier, feature.offset,
      min count (cdiv feature.stop hashBlockSize))

namespace FeaturesInOrder

variable {features : List MultiModalFeature}

theorem offsets (horder : FeaturesInOrder features) :
    features.Pairwise fun first second => first.offset < second.offset := by
  refine horder.apart.imp_of_mem ?_
  intro first second hfirst _ hapart
  exact Nat.lt_of_lt_of_le
    (Nat.lt_add_of_pos_right (horder.pos first hfirst)) hapart

theorem eq_of_offset (horder : FeaturesInOrder features)
    {first second : MultiModalFeature} (hfirst : first ∈ features)
    (hsecond : second ∈ features) (hoffset : first.offset = second.offset) :
    first = second := by
  have hnodup : (features.map (·.offset)).Nodup := by
    rw [List.nodup_iff_pairwise_ne, List.pairwise_map]
    exact horder.offsets.imp Nat.ne_of_lt
  exact List.inj_on_of_nodup_map hnodup hfirst hsecond hoffset

end FeaturesInOrder

theorem mem_mmKeysOf {features : List MultiModalFeature}
    {startTokenIdx endTokenIdx : ℕ} {identifier : String}
    {relativeOffset : ℤ} :
    .feature identifier relativeOffset ∈
        mmKeysOf features startTokenIdx endTokenIdx ↔
      ∃ feature ∈ features, feature.offset < endTokenIdx ∧
        startTokenIdx < feature.stop ∧ feature.identifier = identifier ∧
          (feature.offset : ℤ) - startTokenIdx = relativeOffset := by
  simp only [mmKeysOf, List.mem_map, List.mem_filter,
    MultiModalFeature.overlaps, decide_eq_true_eq, ExtraKey.feature.injEq]
  constructor
  · rintro ⟨feature, ⟨hmem, hstart, hstop⟩, hidentifier, hoffset⟩
    exact ⟨feature, hmem, hstart, hstop, hidentifier, hoffset⟩
  · rintro ⟨feature, hmem, hstart, hstop, hidentifier, hoffset⟩
    exact ⟨feature, ⟨hmem, hstart, hstop⟩, hidentifier, hoffset⟩

section Features

variable {features features' : List MultiModalFeature}
  {hashBlockSize count : ℕ}

/-- The keys of a block can be read off the items of a prefix around it. -/
theorem mmKeysOf_eq_prefixFeatures (hsize : 0 < hashBlockSize) {index : ℕ}
    (hindex : index < count) :
    mmKeysOf features (index * hashBlockSize) ((index + 1) * hashBlockSize) =
      ((prefixFeatures features hashBlockSize count).filter fun item =>
          decide (item.2.1 < (index + 1) * hashBlockSize ∧
            index < item.2.2)).map fun item =>
        .feature item.1 (item.2.1 - (index * hashBlockSize : ℕ)) := by
  have hstop : (index + 1) * hashBlockSize ≤ count * hashBlockSize :=
    Nat.mul_le_mul_right _ hindex
  rw [prefixFeatures, List.filter_map, List.map_map, List.filter_filter]
  have hfilter : features.filter
        (·.overlaps (index * hashBlockSize) ((index + 1) * hashBlockSize)) =
      features.filter fun feature =>
        ((fun item : String × ℕ × ℕ =>
            decide (item.2.1 < (index + 1) * hashBlockSize ∧
              index < item.2.2)) ∘ fun feature : MultiModalFeature =>
          (feature.identifier, feature.offset,
            min count (cdiv feature.stop hashBlockSize))) feature &&
        decide (feature.offset < count * hashBlockSize) := by
    apply List.filter_congr
    intro feature _
    rw [Bool.eq_iff_iff]
    simp only [MultiModalFeature.overlaps, decide_eq_true_eq,
      Function.comp_apply, Bool.and_eq_true, lt_min_iff, lt_cdiv_iff hsize]
    rw [Nat.mul_comm hashBlockSize index]
    constructor
    · intro hoverlap
      exact ⟨⟨hoverlap.1, hindex, hoverlap.2⟩, hoverlap.1.trans_le hstop⟩
    · intro hitem
      exact ⟨hitem.1.1, hitem.1.2.2⟩
  rw [mmKeysOf, hfilter]
  rfl

/-- Of two items that agree in identifier and offset, one reaches as far as
the other when the keys of all blocks agree. -/
theorem reach_le (hsize : 0 < hashBlockSize)
    (horder' : FeaturesInOrder features')
    (hkeys : ∀ index < count,
      mmKeysOf features (index * hashBlockSize)
          ((index + 1) * hashBlockSize) =
        mmKeysOf features' (index * hashBlockSize)
          ((index + 1) * hashBlockSize))
    {feature feature' : MultiModalFeature} (hmem : feature ∈ features)
    (hmem' : feature' ∈ features')
    (hoffset : feature.offset = feature'.offset)
    (hpos' : 0 < feature'.length) :
    min count (cdiv feature.stop hashBlockSize) ≤
      min count (cdiv feature'.stop hashBlockSize) := by
  by_contra hless
  rw [not_le] at hless
  have hcount : cdiv feature'.stop hashBlockSize < count := by omega
  have hreach : cdiv feature'.stop hashBlockSize <
      cdiv feature.stop hashBlockSize := by omega
  -- the first block that the second item does not reach
  have hopen : cdiv feature'.stop hashBlockSize * hashBlockSize <
      feature.stop := by
    rw [Nat.mul_comm]
    exact (lt_cdiv_iff hsize).mp hreach
  have hclosed : feature'.stop ≤
      cdiv feature'.stop hashBlockSize * hashBlockSize := by
    rw [Nat.mul_comm]
    exact (cdiv_le_iff hsize).mp (le_refl _)
  have hstart : feature.offset <
      (cdiv feature'.stop hashBlockSize + 1) * hashBlockSize := by
    calc feature.offset = feature'.offset := hoffset
      _ < feature'.stop := Nat.lt_add_of_pos_right hpos'
      _ ≤ cdiv feature'.stop hashBlockSize * hashBlockSize := hclosed
      _ ≤ (cdiv feature'.stop hashBlockSize + 1) * hashBlockSize :=
        Nat.mul_le_mul_right _ (Nat.le_succ _)
  have hkey := mem_mmKeysOf.mpr ⟨feature, hmem, hstart, hopen, rfl, rfl⟩
  rw [hkeys _ hcount, mem_mmKeysOf] at hkey
  obtain ⟨other, hother, _, hreaches, _, hsame⟩ := hkey
  have heq : other = feature' := by
    apply horder'.eq_of_offset hother hmem'
    omega
  rw [heq] at hreaches
  omega

theorem mem_prefixFeatures_of_keys (hsize : 0 < hashBlockSize)
    (horder : FeaturesInOrder features)
    (horder' : FeaturesInOrder features')
    (hkeys : ∀ index < count,
      mmKeysOf features (index * hashBlockSize)
          ((index + 1) * hashBlockSize) =
        mmKeysOf features' (index * hashBlockSize)
          ((index + 1) * hashBlockSize))
    {item : String × ℕ × ℕ}
    (hitem : item ∈ prefixFeatures features hashBlockSize count) :
    item ∈ prefixFeatures features' hashBlockSize count := by
  simp only [prefixFeatures, List.mem_map, List.mem_filter,
    decide_eq_true_eq] at hitem ⊢
  obtain ⟨feature, ⟨hmem, hprefix⟩, rfl⟩ := hitem
  have hfirst : feature.offset / hashBlockSize < count :=
    (Nat.div_lt_iff_lt_mul hsize).mpr hprefix
  have hstart : feature.offset <
      (feature.offset / hashBlockSize + 1) * hashBlockSize := by
    rw [← Nat.div_lt_iff_lt_mul hsize]
    exact Nat.lt_succ_self _
  have hopen : feature.offset / hashBlockSize * hashBlockSize <
      feature.stop :=
    Nat.lt_of_le_of_lt (Nat.div_mul_le_self _ _)
      (Nat.lt_add_of_pos_right (horder.pos feature hmem))
  have hkey := mem_mmKeysOf.mpr ⟨feature, hmem, hstart, hopen, rfl, rfl⟩
  rw [hkeys _ hfirst, mem_mmKeysOf] at hkey
  obtain ⟨other, hother, _, _, hidentifier, hrelative⟩ := hkey
  have hoffset : feature.offset = other.offset := by omega
  refine ⟨other, ⟨hother, hoffset ▸ hprefix⟩, ?_⟩
  rw [hidentifier, hoffset, Nat.le_antisymm
    (reach_le hsize horder' hkeys hmem hother hoffset
      (horder'.pos other hother))
    (reach_le hsize horder (fun index hindex => (hkeys index hindex).symm)
      hother hmem hoffset.symm (horder.pos feature hmem))]

theorem FeaturesInOrder.prefixFeatures_offsets
    (horder : FeaturesInOrder features) :
    (prefixFeatures features hashBlockSize count).Pairwise
      fun first second => first.2.1 < second.2.1 := by
  rw [prefixFeatures, List.pairwise_map]
  exact horder.offsets.sublist List.filter_sublist

/-- The keys of the first blocks and the items of the prefix determine each
other. -/
theorem mmKeysOf_eq_iff_prefixFeatures (hsize : 0 < hashBlockSize)
    (horder : FeaturesInOrder features)
    (horder' : FeaturesInOrder features') :
    (∀ index < count,
      mmKeysOf features (index * hashBlockSize)
          ((index + 1) * hashBlockSize) =
        mmKeysOf features' (index * hashBlockSize)
          ((index + 1) * hashBlockSize)) ↔
      prefixFeatures features hashBlockSize count =
        prefixFeatures features' hashBlockSize count := by
  constructor
  · intro hkeys
    have hoffsets :=
      @FeaturesInOrder.prefixFeatures_offsets _ hashBlockSize count horder
    have hoffsets' :=
      @FeaturesInOrder.prefixFeatures_offsets _ hashBlockSize count horder'
    have hperm : (prefixFeatures features hashBlockSize count).Perm
        (prefixFeatures features' hashBlockSize count) := by
      rw [List.perm_ext_iff_of_nodup]
      · intro item
        exact ⟨mem_prefixFeatures_of_keys hsize horder horder' hkeys,
          mem_prefixFeatures_of_keys hsize horder' horder
            fun index hindex => (hkeys index hindex).symm⟩
      · exact hoffsets.imp fun hlt heq => by simp [heq] at hlt
      · exact hoffsets'.imp fun hlt heq => by simp [heq] at hlt
    refine hperm.eq_of_pairwise ?_ hoffsets hoffsets'
    intro first second _ _ hlt hgt
    exact absurd hgt (Nat.lt_asymm hlt)
  · intro hitems index hindex
    rw [mmKeysOf_eq_prefixFeatures hsize hindex,
      mmKeysOf_eq_prefixFeatures hsize hindex, hitems]

end Features

theorem mmKeysOf_isFeature {features : List MultiModalFeature}
    {startTokenIdx endTokenIdx : ℕ} {key : ExtraKey}
    (hkey : key ∈ mmKeysOf features startTokenIdx endTokenIdx) :
    key.isFeature = true := by
  rw [mmKeysOf, List.mem_map] at hkey
  cases hkey with
  | intro feature hfeature =>
      rw [← hfeature.2]
      rfl

theorem names_isName {names : List String} {key : ExtraKey}
    (hkey : key ∈ names.map ExtraKey.name) : key.isName = true := by
  rw [List.mem_map] at hkey
  cases hkey with
  | intro name hname =>
      rw [← hname.2]
      rfl

/-- Lists of names, items and digests in the order of the tuple. -/
structure KeyParts where
  lora : List String
  mm : List ExtraKey
  salt : List String
  digests : List Bytes
  mm_isFeature : ∀ key ∈ mm, key.isFeature = true

namespace KeyParts

def joined (parts : KeyParts) : List ExtraKey :=
  parts.lora.map .name ++ parts.mm ++ parts.salt.map .name ++
    parts.digests.map .digest

theorem filter_isFeature (parts : KeyParts) :
    parts.joined.filter ExtraKey.isFeature = parts.mm := by
  have hmm : parts.mm.filter ExtraKey.isFeature = parts.mm :=
    List.filter_eq_self.mpr parts.mm_isFeature
  have hnames : ∀ names : List String,
      (names.map ExtraKey.name).filter ExtraKey.isFeature = [] := by
    intro names
    simp [List.filter_eq_nil_iff, ExtraKey.isFeature]
  have hdigests :
      (parts.digests.map ExtraKey.digest).filter ExtraKey.isFeature = [] := by
    simp [List.filter_eq_nil_iff, ExtraKey.isFeature]
  simp only [joined, List.filter_append, hmm, hnames, hdigests,
    List.nil_append, List.append_nil]

theorem filter_isDigest (parts : KeyParts) :
    parts.joined.filter ExtraKey.isDigest =
      parts.digests.map .digest := by
  have hmm : parts.mm.filter ExtraKey.isDigest = [] := by
    rw [List.filter_eq_nil_iff]
    intro key hkey
    have hfeature := parts.mm_isFeature key hkey
    cases key <;> simp [ExtraKey.isFeature, ExtraKey.isDigest] at hfeature ⊢
  have hnames : ∀ names : List String,
      (names.map ExtraKey.name).filter ExtraKey.isDigest = [] := by
    intro names
    simp [List.filter_eq_nil_iff, ExtraKey.isDigest]
  have hdigests :
      (parts.digests.map ExtraKey.digest).filter ExtraKey.isDigest =
        parts.digests.map ExtraKey.digest := by
    simp [List.filter_eq_self, ExtraKey.isDigest]
  simp only [joined, List.filter_append, hmm, hnames, hdigests,
    List.nil_append]

theorem filter_isName (parts : KeyParts) :
    parts.joined.filter ExtraKey.isName =
      (parts.lora ++ parts.salt).map .name := by
  have hmm : parts.mm.filter ExtraKey.isName = [] := by
    rw [List.filter_eq_nil_iff]
    intro key hkey
    have hfeature := parts.mm_isFeature key hkey
    cases key <;> simp [ExtraKey.isFeature, ExtraKey.isName] at hfeature ⊢
  have hnames : ∀ names : List String,
      (names.map ExtraKey.name).filter ExtraKey.isName =
        names.map ExtraKey.name := by
    intro names
    simp [List.filter_eq_self, ExtraKey.isName]
  have hdigests :
      (parts.digests.map ExtraKey.digest).filter ExtraKey.isName = [] := by
    simp [List.filter_eq_nil_iff, ExtraKey.isName]
  simp only [joined, List.filter_append, hmm, hnames, hdigests,
    List.append_nil, List.map_append]

theorem takeWhile_isName (parts : KeyParts) (hmm : parts.mm ≠ []) :
    parts.joined.takeWhile ExtraKey.isName = parts.lora.map .name := by
  cases hitems : parts.mm with
  | nil => exact absurd hitems hmm
  | cons key keys =>
      have hkey : key.isName = false := by
        have hfeature := parts.mm_isFeature key (by
          rw [hitems]
          exact List.mem_cons_self)
        cases key <;> simp [ExtraKey.isFeature, ExtraKey.isName] at hfeature ⊢
      simp only [joined, hitems, List.append_assoc, List.cons_append]
      rw [List.takeWhile_append_of_pos fun key hname => names_isName hname]
      simp [hkey]

theorem map_name_injective : Function.Injective (List.map ExtraKey.name) :=
  List.map_injective_iff.mpr fun _ _ hname => ExtraKey.name.inj hname

theorem map_digest_injective : Function.Injective (List.map ExtraKey.digest) :=
  List.map_injective_iff.mpr fun _ _ hdigest => ExtraKey.digest.inj hdigest

/-- Equal tuples have equal parts, up to which of the two names is which. -/
theorem joined_eq {parts parts' : KeyParts}
    (hjoined : parts.joined = parts'.joined) :
    parts.mm = parts'.mm ∧ parts.digests = parts'.digests ∧
      parts.lora ++ parts.salt = parts'.lora ++ parts'.salt ∧
        (parts.mm ≠ [] → parts.lora = parts'.lora) := by
  have hmm : parts.mm = parts'.mm := by
    rw [← parts.filter_isFeature, hjoined, parts'.filter_isFeature]
  refine ⟨hmm, ?_, ?_, ?_⟩
  · apply map_digest_injective
    rw [← parts.filter_isDigest, hjoined, parts'.filter_isDigest]
  · apply map_name_injective
    rw [← parts.filter_isName, hjoined, parts'.filter_isName]
  · intro hitems
    apply map_name_injective
    rw [← parts.takeWhile_isName hitems, hjoined,
      parts'.takeWhile_isName (hmm ▸ hitems)]

end KeyParts

namespace HashedRequest

variable {Row : Type}

/-- The parts of the keys of a block when every feature is seen. -/
def blockKeyParts (request : HashedRequest Row) (hasher : BlockHasher Row)
    (index : ℕ) : KeyParts where
  lora := request.loraName.toList
  mm := mmKeysOf request.mmFeatures (index * hasher.hashBlockSize)
    ((index + 1) * hasher.hashBlockSize)
  salt := if index * hasher.hashBlockSize = 0 then request.salt.toList else []
  digests := request.promptEmbeds.toList.map fun rows =>
    hasher.digestEmbeds (slice rows (index * hasher.hashBlockSize)
      ((index + 1) * hasher.hashBlockSize))
  mm_isFeature _ hkey := mmKeysOf_isFeature hkey

theorem blockContent_eq_joined (request : HashedRequest Row)
    (hasher : BlockHasher Row) (index : ℕ) :
    request.blockContent hasher request.mmFeatures index =
      (slice request.allTokenIds (index * hasher.hashBlockSize)
        ((index + 1) * hasher.hashBlockSize),
        packKeys (request.blockKeyParts hasher index).joined) := by
  have hsalt : request.cacheSaltKeys (index * hasher.hashBlockSize) =
      (if index * hasher.hashBlockSize = 0 then request.salt.toList
        else []).map ExtraKey.name := by
    rw [cacheSaltKeys]
    split <;> rfl
  simp only [blockContent, joinExtraKeys, KeyParts.joined, blockKeyParts,
    hsalt, genLoraExtraHashKeys, genPromptEmbedsExtraHashKeys, List.map_map]
  rfl

/-- Agreement of two requests on their first blocks. -/
structure AgreeUpTo (hasher : BlockHasher Row) (count : ℕ)
    (request request' : HashedRequest Row) : Prop where
  tokens : request.allTokenIds.take (count * hasher.hashBlockSize) =
    request'.allTokenIds.take (count * hasher.hashBlockSize)
  lora : request.loraName = request'.loraName
  salt : request.salt = request'.salt
  items : prefixFeatures request.mmFeatures hasher.hashBlockSize count =
    prefixFeatures request'.mmFeatures hasher.hashBlockSize count
  embeds :
    request.promptEmbeds.map (·.take (count * hasher.hashBlockSize)) =
      request'.promptEmbeds.map (·.take (count * hasher.hashBlockSize))

/-- One request has an adapter and no salt, the other a salt of that name and
no adapter. -/
def NamesCross (request request' : HashedRequest Row) : Prop :=
  request.loraName.isSome ∧ request.salt = none ∧
    request'.loraName = none ∧ request'.salt = request.loraName

/-- A first block without items, where an adapter and a salt cannot be told
apart. -/
def Confusable (hasher : BlockHasher Row) (index : ℕ)
    (request request' : HashedRequest Row) : Prop :=
  index = 0 ∧ mmKeysOf request.mmFeatures 0 hasher.hashBlockSize = [] ∧
    (NamesCross request request' ∨ NamesCross request' request)

section Agreement

variable {hasher : BlockHasher Row} {request request' : HashedRequest Row}

theorem embeds_eq_iff {count : ℕ} (hcount : 0 < count)
    (hdigest : Function.Injective hasher.digestEmbeds) :
    (∀ index < count, (request.blockKeyParts hasher index).digests =
        (request'.blockKeyParts hasher index).digests) ↔
      request.promptEmbeds.map (·.take (count * hasher.hashBlockSize)) =
        request'.promptEmbeds.map (·.take (count * hasher.hashBlockSize)) := by
  simp only [blockKeyParts]
  cases request.promptEmbeds with
  | none =>
      cases request'.promptEmbeds with
      | none => simp
      | some rows' =>
          simp only [Option.toList_none, List.map_nil, Option.toList_some,
            List.map_cons, Option.map_none, Option.map_some, reduceCtorEq,
            iff_false]
          intro hindex
          cases hindex 0 hcount
  | some rows =>
      cases request'.promptEmbeds with
      | none =>
          simp only [Option.toList_none, List.map_nil, Option.toList_some,
            List.map_cons, Option.map_none, Option.map_some, reduceCtorEq,
            iff_false]
          intro hindex
          cases hindex 0 hcount
      | some rows' =>
          simp only [Option.toList_some, List.map_cons, List.map_nil,
            List.cons.injEq, and_true, hdigest.eq_iff, Option.map_some,
            Option.some.injEq]
          exact take_eq_iff_slices.symm

/-- The two names of a block, when its tuple does not say which is which. -/
theorem names_eq_of_append {lora lora' salt salt' : Option String}
    (hnames : lora.toList ++ salt.toList = lora'.toList ++ salt'.toList) :
    (lora = lora' ∧ salt = salt') ∨
      (lora.isSome ∧ salt = none ∧ lora' = none ∧ salt' = lora) ∨
        (lora'.isSome ∧ salt' = none ∧ lora = none ∧ salt = lora') := by
  cases lora <;> cases lora' <;> cases salt <;> cases salt' <;>
    simp_all

theorem toList_injective {first second : Option String}
    (hlist : first.toList = second.toList) : first = second := by
  cases first <;> cases second <;> simp_all

/-- The first block's tuple gives the names away unless they cross there, and
any later tuple gives the adapter's name away. -/
theorem names_of_joined (hsize : 0 < hasher.hashBlockSize) {index : ℕ}
    (hclear : ¬Confusable hasher index request request')
    (hjoined : ∀ block < index + 1,
      (request.blockKeyParts hasher block).joined =
        (request'.blockKeyParts hasher block).joined) :
    request.loraName = request'.loraName ∧ request.salt = request'.salt := by
  have hfirst := KeyParts.joined_eq (hjoined 0 (Nat.succ_pos index))
  have hnames : request.loraName.toList ++ request.salt.toList =
      request'.loraName.toList ++ request'.salt.toList := by
    simpa [blockKeyParts] using hfirst.2.2.1
  by_cases hindex : index = 0
  · cases names_eq_of_append hnames with
    | inl hsame => exact hsame
    | inr hcross =>
        exfalso
        by_cases hitems : (request.blockKeyParts hasher 0).mm = []
        · have hnone : mmKeysOf request.mmFeatures 0 hasher.hashBlockSize =
              [] := by
            simpa [blockKeyParts] using hitems
          exact hclear ⟨hindex, hnone, hcross⟩
        · have hlora := toList_injective (hfirst.2.2.2 hitems)
          cases hcross with
          | inl hcross =>
              rw [hlora, hcross.2.2.1] at hcross
              cases hcross.1
          | inr hcross =>
              rw [← hlora, hcross.2.2.1] at hcross
              cases hcross.1
  · have hstart : 1 * hasher.hashBlockSize ≠ 0 := by omega
    have hsecond := KeyParts.joined_eq (hjoined 1 (by omega))
    have hlora : request.loraName = request'.loraName := by
      apply toList_injective
      simpa only [blockKeyParts, if_neg hstart, List.append_nil] using
        hsecond.2.2.1
    rw [hlora] at hnames
    exact ⟨hlora, toList_injective (List.append_cancel_left hnames)⟩

theorem blockContent_eq_of_agree (hdigest : Function.Injective
      hasher.digestEmbeds) (hsize : 0 < hasher.hashBlockSize)
    (horder : FeaturesInOrder request.mmFeatures)
    (horder' : FeaturesInOrder request'.mmFeatures) {count : ℕ}
    (hagree : AgreeUpTo hasher count request request') {index : ℕ}
    (hindex : index < count) :
    request.blockContent hasher request.mmFeatures index =
      request'.blockContent hasher request'.mmFeatures index := by
  have hcount : 0 < count := Nat.zero_lt_of_lt hindex
  have htokens := take_eq_iff_slices.mp hagree.tokens index hindex
  have hmm : (request.blockKeyParts hasher index).mm =
      (request'.blockKeyParts hasher index).mm :=
    (mmKeysOf_eq_iff_prefixFeatures hsize horder horder').mpr hagree.items
      index hindex
  have hdigests :=
    (embeds_eq_iff hcount hdigest).mpr hagree.embeds index hindex
  have hlora : (request.blockKeyParts hasher index).lora =
      (request'.blockKeyParts hasher index).lora :=
    congrArg Option.toList hagree.lora
  have hsalt : (request.blockKeyParts hasher index).salt =
      (request'.blockKeyParts hasher index).salt := by
    simp only [blockKeyParts, hagree.salt]
  rw [blockContent_eq_joined, blockContent_eq_joined, htokens,
    KeyParts.joined, KeyParts.joined, hmm, hdigests, hlora, hsalt]

theorem agree_of_blockContent_eq (hdigest : Function.Injective
      hasher.digestEmbeds) (hsize : 0 < hasher.hashBlockSize)
    (horder : FeaturesInOrder request.mmFeatures)
    (horder' : FeaturesInOrder request'.mmFeatures) {index : ℕ}
    (hclear : ¬Confusable hasher index request request')
    (hcontents : ∀ block < index + 1,
      request.blockContent hasher request.mmFeatures block =
        request'.blockContent hasher request'.mmFeatures block) :
    AgreeUpTo hasher (index + 1) request request' := by
  have hparts : ∀ block < index + 1,
      slice request.allTokenIds (block * hasher.hashBlockSize)
            ((block + 1) * hasher.hashBlockSize) =
          slice request'.allTokenIds (block * hasher.hashBlockSize)
            ((block + 1) * hasher.hashBlockSize) ∧
        (request.blockKeyParts hasher block).joined =
          (request'.blockKeyParts hasher block).joined := by
    intro block hblock
    have hcontent := hcontents block hblock
    rw [blockContent_eq_joined, blockContent_eq_joined, Prod.mk.injEq]
      at hcontent
    exact ⟨hcontent.1, packKeys_injective hcontent.2⟩
  have hnames := names_of_joined hsize hclear fun block hblock =>
    (hparts block hblock).2
  exact {
    tokens := take_eq_iff_slices.mpr fun block hblock =>
      (hparts block hblock).1
    lora := hnames.1
    salt := hnames.2
    items := (mmKeysOf_eq_iff_prefixFeatures hsize horder horder').mp
      fun block hblock => (KeyParts.joined_eq (hparts block hblock).2).1
    embeds := (embeds_eq_iff (Nat.succ_pos index) hdigest).mp
      fun block hblock => (KeyParts.joined_eq (hparts block hblock).2).2.1 }

end Agreement

/-- Runs over two whole requests give equal hashes at a position exactly when
the requests agree up to it. -/
theorem hash_eq_iff_agree {hasher : BlockHasher Row}
    (hfree : hasher.CollisionFree)
    (hdigest : Function.Injective hasher.digestEmbeds)
    (hsize : 0 < hasher.hashBlockSize) {request request' : HashedRequest Row}
    (horder : FeaturesInOrder request.mmFeatures)
    (horder' : FeaturesInOrder request'.mmFeatures)
    (hscratch : request.blockHashes = [])
    (hscratch' : request'.blockHashes = []) {index : ℕ}
    (hindex : index < (hasher.requestBlockHasher request).length)
    (hindex' : index < (hasher.requestBlockHasher request').length)
    (hclear : ¬Confusable hasher index request request') :
    (hasher.requestBlockHasher request)[index]? =
        (hasher.requestBlockHasher request')[index]? ↔
      AgreeUpTo hasher (index + 1) request request' := by
  have hchain := BlockHasher.requestBlockHasher_eq_chain_scratch hsize horder
    hscratch
  have hchain' := BlockHasher.requestBlockHasher_eq_chain_scratch hsize
    horder' hscratch'
  rw [hchain, length_chain, List.length_map, List.length_range] at hindex
  rw [hchain', length_chain, List.length_map, List.length_range] at hindex'
  rw [hchain, hchain', hfree.revealing.chain_getElem?_eq_iff
      (by rwa [List.length_map, List.length_range])
      (by rwa [List.length_map, List.length_range]),
    ← List.map_take, ← List.map_take, List.take_range, List.take_range,
    Nat.min_eq_left hindex, Nat.min_eq_left hindex', List.map_inj_left]
  constructor
  · intro hcontents
    apply agree_of_blockContent_eq hdigest hsize horder horder' hclear
    intro block hblock
    exact hcontents block (List.mem_range.mpr hblock)
  · intro hagree block hblock
    exact blockContent_eq_of_agree hdigest hsize horder horder' hagree
      (List.mem_range.mp hblock)

section Example

def plainRequest (tokens : List ℕ) : HashedRequest ℕ where
  allTokenIds := tokens
  mmFeatures := []
  loraName := none
  cacheSalt := none
  promptEmbeds := none
  blockHashes := []

def withItem (length : ℕ) : HashedRequest ℕ :=
  { plainRequest [0, 0, 0, 0] with mmFeatures := [⟨"a", 0, length⟩] }

def withLora (name : String) : HashedRequest ℕ :=
  { plainRequest [1, 2] with loraName := some name }

def withSalt (name : String) : HashedRequest ℕ :=
  { plainRequest [1, 2] with cacheSalt := some name }

theorem withItem_inOrder {length : ℕ} (hlength : 0 < length) :
    FeaturesInOrder (withItem length).mmFeatures where
  apart := List.pairwise_singleton _ _
  pos feature hmem := by
    rw [List.mem_singleton.mp hmem]
    exact hlength

theorem plain_inOrder : FeaturesInOrder [] where
  apart := List.Pairwise.nil
  pos _ hmem := by cases hmem

/-- Items of three and of four tokens reach the same block of two. -/
theorem hash_eq_iff_agree_items :
    ((BlockHasher.unaryHasher 2).requestBlockHasher (withItem 3))[1]? =
        ((BlockHasher.unaryHasher 2).requestBlockHasher (withItem 4))[1]? ↔
      AgreeUpTo (BlockHasher.unaryHasher 2) 2 (withItem 3) (withItem 4) :=
  hash_eq_iff_agree (BlockHasher.unaryHasher_collisionFree 2)
    (BlockHasher.unaryHasher_digestEmbeds_injective 2) (by decide)
    (withItem_inOrder (by decide)) (withItem_inOrder (by decide)) rfl rfl
    (Nat.lt_succ_self 1) (Nat.lt_succ_self 1) (by
      intro hconfusable
      cases hconfusable.1)

/-- An item that reaches one block further changes the hash of that block, and
the first block does not tell an adapter from a salt. -/
theorem hash_eq_not_iff_listed :
    ((withItem 1).allTokenIds = (withItem 3).allTokenIds ∧
      (withItem 1).mmFeatures.map (fun item => (item.identifier, item.offset))
        = (withItem 3).mmFeatures.map
          (fun item => (item.identifier, item.offset)) ∧
      ((BlockHasher.unaryHasher 2).requestBlockHasher (withItem 1))[1]? ≠
        ((BlockHasher.unaryHasher 2).requestBlockHasher (withItem 3))[1]?) ∧
    ((withLora "x").loraName ≠ (withSalt "x").loraName ∧
      (withLora "x").salt ≠ (withSalt "x").salt ∧
      ((BlockHasher.unaryHasher 2).requestBlockHasher (withLora "x"))[0]? =
        ((BlockHasher.unaryHasher 2).requestBlockHasher
          (withSalt "x"))[0]?) := by
  have hsize : 0 < (BlockHasher.unaryHasher 2).hashBlockSize := by decide
  refine ⟨⟨rfl, rfl, fun hhash => ?_⟩, by decide, by decide, ?_⟩
  · have hchain := BlockHasher.requestBlockHasher_eq_chain_scratch hsize
      (withItem_inOrder (Nat.succ_pos 0)) rfl
    have hchain' := BlockHasher.requestBlockHasher_eq_chain_scratch hsize
      (withItem_inOrder (Nat.succ_pos 2)) rfl
    rw [hchain, hchain', (BlockHasher.unaryHasher_collisionFree
      2).revealing.chain_getElem?_eq_iff (by decide) (by decide)] at hhash
    revert hhash
    decide
  · have hchain := @BlockHasher.requestBlockHasher_eq_chain_scratch ℕ
      (BlockHasher.unaryHasher 2) (withLora "x") hsize plain_inOrder rfl
    have hchain' := @BlockHasher.requestBlockHasher_eq_chain_scratch ℕ
      (BlockHasher.unaryHasher 2) (withSalt "x") hsize plain_inOrder rfl
    have hcontents :
        (List.range ((withLora "x").fullBlocks (BlockHasher.unaryHasher 2))).map
            ((withLora "x").blockContent (BlockHasher.unaryHasher 2) []) =
          (List.range
              ((withSalt "x").fullBlocks (BlockHasher.unaryHasher 2))).map
            ((withSalt "x").blockContent (BlockHasher.unaryHasher 2) []) := by
      decide
    rw [hchain, hchain']
    exact congrArg (fun contents => (chain (BlockHasher.unaryHasher 2).link
      (BlockHasher.unaryHasher 2).noneHash contents)[0]?) hcontents

end Example

end HashedRequest

end GlmFlash.Cache
