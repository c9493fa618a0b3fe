import GlmFlash.Library.HashChain
import Mathlib.Data.Int.Notation
import Mathlib.Logic.Encodable.Basic
import Mathlib.Logic.Equiv.List
import Mathlib.Data.List.Pairwise
import Mathlib.Data.List.TakeDrop
import Mathlib.Order.Nat

/-!
# Prefix hashes of a request

Every full block of a request is hashed together with the hash of the block
before it and with the extra keys of the block: the adapter's name, the
multi-modal items it overlaps, the cache salt in the first block, and a digest
of its prompt embeddings.  The caching hash function, `NONE_HASH` and the
digest of embedding rows are parameters.
-/

namespace GlmFlash.Cache

open GlmFlash.Library

abbrev Bytes := List UInt8

abbrev BlockHash := Bytes

/-- A multi-modal item and its `mm_position`. -/
structure MultiModalFeature where
  identifier : String
  offset : ℕ
  length : ℕ
  deriving DecidableEq

/-- The end of the item's placeholder range. -/
def MultiModalFeature.stop (feature : MultiModalFeature) : ℕ :=
  feature.offset + feature.length

/-- The fields of a request that its block hashes depend on. -/
structure HashedRequest (Row : Type) where
  allTokenIds : List ℕ
  mmFeatures : List MultiModalFeature
  loraName : Option String
  cacheSalt : Option String
  promptEmbeds : Option (List Row)
  blockHashes : List BlockHash

/-- One entry of the untagged tuple of extra keys: a string, a pair of an
identifier and an offset relative to the block, or bytes. -/
inductive ExtraKey where
  | name (text : String)
  | feature (identifier : String) (relativeOffset : ℤ)
  | digest (bytes : Bytes)
  deriving DecidableEq

/-- What is hashed onto the parent: the tokens of a block and its extra keys,
`None` when there are none. -/
abbrev BlockContent := List ℕ × Option (List ExtraKey)

structure BlockHasher (Row : Type) where
  cachingHashFn : BlockHash × BlockContent → BlockHash
  noneHash : BlockHash
  digestEmbeds : List Row → Bytes
  hashBlockSize : ℕ

/-- The loop of `_gen_mm_extra_hash_keys` over the features from the cursor
on; the second result is the cursor it leaves. -/
def mmKeysFrom (startTokenIdx endTokenIdx : ℕ) :
    List MultiModalFeature → ℕ → List ExtraKey × ℕ
  | [], currMmIdx => ([], currMmIdx)
  | feature :: features, currMmIdx =>
      if feature.offset < endTokenIdx then
        if feature.stop ≤ startTokenIdx then
          mmKeysFrom startTokenIdx endTokenIdx features (currMmIdx + 1)
        else
          let key := ExtraKey.feature feature.identifier
            (feature.offset - startTokenIdx)
          if feature.stop ≤ endTokenIdx then
            let rest :=
              mmKeysFrom startTokenIdx endTokenIdx features (currMmIdx + 1)
            (key :: rest.1, rest.2)
          else ([key], currMmIdx)
      else ([], currMmIdx)

namespace HashedRequest

variable {Row : Type}

def numTokens (request : HashedRequest Row) : ℕ :=
  request.allTokenIds.length

/-- A negative index counts from the end; -1 is the only one in use, and there
is a last feature when it is looked up. -/
def mmIndex (request : HashedRequest Row) (startMmIdx : ℤ) : ℕ :=
  if startMmIdx < 0 then (request.mmFeatures.length + startMmIdx).toNat
  else startMmIdx.toNat

def genMmExtraHashKeys (request : HashedRequest Row)
    (startTokenIdx endTokenIdx : ℕ) (startMmIdx : ℤ) : List ExtraKey × ℤ :=
  match request.mmFeatures.getLast? with
  | none => ([], startMmIdx)
  | some last =>
      if last.stop ≤ startTokenIdx then ([], startMmIdx)
      else
        let currMmIdx := request.mmIndex startMmIdx
        let found := mmKeysFrom startTokenIdx endTokenIdx
          (request.mmFeatures.drop currMmIdx) currMmIdx
        (found.1, found.2)

def genLoraExtraHashKeys (request : HashedRequest Row) : List ExtraKey :=
  request.loraName.toList.map .name

/-- An empty salt counts as none. -/
def salt (request : HashedRequest Row) : Option String :=
  request.cacheSalt.filter (· ≠ "")

def cacheSaltKeys (request : HashedRequest Row) (startTokenIdx : ℕ) :
    List ExtraKey :=
  if startTokenIdx = 0 then request.salt.toList.map .name else []

/-- The digests kept on the request are what this computes. -/
def genPromptEmbedsExtraHashKeys (request : HashedRequest Row)
    (hasher : BlockHasher Row) (startTokenIdx endTokenIdx : ℕ) :
    List ExtraKey :=
  request.promptEmbeds.toList.map fun rows =>
    .digest (hasher.digestEmbeds (slice rows startTokenIdx endTokenIdx))

/-- `None` for an empty list of keys. -/
def packKeys (keys : List ExtraKey) : Option (List ExtraKey) :=
  if keys = [] then none else some keys

theorem packKeys_injective : Function.Injective packKeys := by
  intro keys keys' hkeys
  simp only [packKeys] at hkeys
  by_cases hnil : keys = []
  · by_cases hnil' : keys' = []
    · rw [hnil, hnil']
    · simp [hnil, hnil'] at hkeys
  · by_cases hnil' : keys' = []
    · simp [hnil, hnil'] at hkeys
    · simpa [hnil, hnil'] using hkeys

/-- The keys of a block, in the order of the tuple. -/
def joinExtraKeys (request : HashedRequest Row) (hasher : BlockHasher Row)
    (mmExtraKeys : List ExtraKey) (startTokenIdx endTokenIdx : ℕ) :
    List ExtraKey :=
  request.genLoraExtraHashKeys ++ mmExtraKeys ++
    request.cacheSaltKeys startTokenIdx ++
      request.genPromptEmbedsExtraHashKeys hasher startTokenIdx endTokenIdx

def generateBlockHashExtraKeys (request : HashedRequest Row)
    (hasher : BlockHasher Row) (startTokenIdx endTokenIdx : ℕ)
    (startMmIdx : ℤ) : Option (List ExtraKey) × ℤ :=
  let mm := request.genMmExtraHashKeys startTokenIdx endTokenIdx startMmIdx
  (packKeys
    (request.joinExtraKeys hasher mm.1 startTokenIdx endTokenIdx), mm.2)

end HashedRequest

namespace BlockHasher

variable {Row : Type}

/-- A missing or empty parent hash is replaced by `NONE_HASH`. -/
def hashBlockTokens (hasher : BlockHasher Row)
    (parentBlockHash : Option BlockHash) (content : BlockContent) :
    BlockHash :=
  let parent := match parentBlockHash with
    | none => hasher.noneHash
    | some hash => if hash = [] then hasher.noneHash else hash
  hasher.cachingHashFn (parent, content)

/-- The loop of `request_block_hasher`.  A turn hashes at least one token, so
the number of tokens bounds the turns. -/
def hashBlocks (hasher : BlockHasher Row) (request : HashedRequest Row) :
    ℕ → ℕ → ℤ → Option BlockHash → List BlockHash
  | 0, _, _, _ => []
  | turns + 1, startTokenIdx, currMmIdx, prevBlockHash =>
      let endTokenIdx := startTokenIdx + hasher.hashBlockSize
      if request.numTokens < endTokenIdx then []
      else
        let extraKeys := request.generateBlockHashExtraKeys hasher
          startTokenIdx endTokenIdx currMmIdx
        let blockTokens := slice request.allTokenIds startTokenIdx endTokenIdx
        let blockHash := hasher.hashBlockTokens prevBlockHash
          (blockTokens, extraKeys.1)
        blockHash :: hasher.hashBlocks request turns endTokenIdx
          extraKeys.2 (some blockHash)

/-- The hashes of the full blocks that have none yet. -/
def requestBlockHasher (hasher : BlockHasher Row)
    (request : HashedRequest Row) : List BlockHash :=
  let startTokenIdx := request.blockHashes.length * hasher.hashBlockSize
  if request.numTokens < startTokenIdx + hasher.hashBlockSize then []
  else
    hasher.hashBlocks request request.numTokens startTokenIdx
      (if 0 < startTokenIdx then -1 else 0) request.blockHashes.getLast?

end BlockHasher

/-- A view of block hashes at a coarser block size. -/
structure BlockHashListWithBlockSize where
  blockHashes : List BlockHash
  scaleFactor : ℕ

namespace BlockHashListWithBlockSize

def length (view : BlockHashListWithBlockSize) : ℕ :=
  view.blockHashes.length / view.scaleFactor

def getValueAt (view : BlockHashListWithBlockSize) (index : ℕ) :
    Option BlockHash :=
  view.blockHashes[(index + 1) * view.scaleFactor - 1]?

end BlockHashListWithBlockSize

/-- The view of a group; its block size must be a multiple of the hash block
size. -/
def groupView (blockHashes : List BlockHash)
    (hashBlockSize targetBlockSize : ℕ) : Option BlockHashListWithBlockSize :=
  if targetBlockSize % hashBlockSize = 0 then
    some ⟨blockHashes, targetBlockSize / hashBlockSize⟩
  else none

/-- Features in the order of their offsets, none of them empty and no two
overlapping. -/
structure FeaturesInOrder (features : List MultiModalFeature) : Prop where
  apart : features.Pairwise fun first second => first.stop ≤ second.offset
  pos : ∀ feature ∈ features, 0 < feature.length

/-- The feature has a placeholder in the block. -/
def MultiModalFeature.overlaps (feature : MultiModalFeature)
    (startTokenIdx endTokenIdx : ℕ) : Bool :=
  decide (feature.offset < endTokenIdx ∧ startTokenIdx < feature.stop)

/-- The keys of all features with a placeholder in the block. -/
def mmKeysOf (features : List MultiModalFeature)
    (startTokenIdx endTokenIdx : ℕ) : List ExtraKey :=
  (features.filter (·.overlaps startTokenIdx endTokenIdx)).map fun feature =>
    .feature feature.identifier (feature.offset - startTokenIdx)

theorem mmKeysOf_append (features later : List MultiModalFeature)
    (startTokenIdx endTokenIdx : ℕ) :
    mmKeysOf (features ++ later) startTokenIdx endTokenIdx =
      mmKeysOf features startTokenIdx endTokenIdx ++
        mmKeysOf later startTokenIdx endTokenIdx := by
  simp [mmKeysOf]

theorem mmKeysOf_eq_nil {features : List MultiModalFeature}
    {startTokenIdx endTokenIdx : ℕ}
    (houtside : ∀ feature ∈ features,
      endTokenIdx ≤ feature.offset ∨ feature.stop ≤ startTokenIdx) :
    mmKeysOf features startTokenIdx endTokenIdx = [] := by
  simp only [mmKeysOf, List.map_eq_nil_iff, List.filter_eq_nil_iff,
    MultiModalFeature.overlaps, decide_eq_true_eq]
  intro feature hmem
  have hfeature := houtside feature hmem
  omega

theorem FeaturesInOrder.tail {feature : MultiModalFeature}
    {features : List MultiModalFeature}
    (horder : FeaturesInOrder (feature :: features)) :
    FeaturesInOrder features where
  apart := (List.pairwise_cons.mp horder.apart).2
  pos other hmem := horder.pos other (List.mem_cons_of_mem _ hmem)

theorem FeaturesInOrder.sublist {features features' : List MultiModalFeature}
    (horder : FeaturesInOrder features)
    (hsublist : features'.Sublist features) :
    FeaturesInOrder features' where
  apart := horder.apart.sublist hsublist
  pos feature hmem := horder.pos feature (hsublist.subset hmem)

theorem FeaturesInOrder.stop_le_getLast {features : List MultiModalFeature}
    (horder : FeaturesInOrder features) {last feature : MultiModalFeature}
    (hlast : features.getLast? = some last) (hmem : feature ∈ features) :
    feature.stop ≤ last.stop := by
  induction features with
  | nil => cases hmem
  | cons head features ih =>
      cases features with
      | nil =>
          simp only [List.getLast?_singleton, Option.some.injEq] at hlast
          rw [List.mem_singleton.mp hmem, hlast]
      | cons second features =>
          rw [List.getLast?_cons_cons] at hlast
          cases hmem with
          | head =>
              have hlater := (List.pairwise_cons.mp horder.apart).1 last
                (List.mem_of_getLast? hlast)
              exact hlater.trans (Nat.le_add_right _ _)
          | tail _ hmem => exact ih horder.tail hlast hmem

/-- From a cursor with no open feature behind it, the loop collects the keys
of the block and moves only over features that end in it. -/
theorem mmKeysFrom_eq {features : List MultiModalFeature}
    (horder : FeaturesInOrder features) {startTokenIdx endTokenIdx : ℕ}
    (hblock : startTokenIdx ≤ endTokenIdx) (currMmIdx : ℕ) :
    ∃ passed,
      mmKeysFrom startTokenIdx endTokenIdx features currMmIdx =
        (mmKeysOf features startTokenIdx endTokenIdx, currMmIdx + passed) ∧
      ∀ feature ∈ features.take passed, feature.stop ≤ endTokenIdx := by
  induction features generalizing currMmIdx with
  | nil =>
      refine ⟨0, rfl, ?_⟩
      intro feature hmem
      cases hmem
  | cons feature features ih =>
      have hlater := (List.pairwise_cons.mp horder.apart).1
      have hsplit := mmKeysOf_append [feature] features startTokenIdx
        endTokenIdx
      rw [List.singleton_append] at hsplit
      simp only [mmKeysFrom]
      split
      · rename_i hreached
        split
        · rename_i hpassed
          cases ih horder.tail (currMmIdx + 1) with
          | intro passed hrest =>
              refine ⟨passed + 1, ?_, ?_⟩
              · rw [hrest.1, hsplit, mmKeysOf_eq_nil (by
                    simp [hpassed] : ∀ other ∈ [feature],
                      endTokenIdx ≤ other.offset ∨
                        other.stop ≤ startTokenIdx)]
                simp only [List.nil_append, Prod.mk.injEq, true_and]
                omega
              · intro other hmem
                rw [List.take_succ_cons] at hmem
                cases hmem with
                | head => exact hpassed.trans hblock
                | tail _ hmem => exact hrest.2 other hmem
        · rename_i hopen
          have hkey : mmKeysOf [feature] startTokenIdx endTokenIdx =
              [.feature feature.identifier
                (feature.offset - startTokenIdx)] := by
            simp [mmKeysOf, MultiModalFeature.overlaps, hreached,
              Nat.lt_of_not_le hopen]
          split
          · rename_i hends
            cases ih horder.tail (currMmIdx + 1) with
            | intro passed hrest =>
                refine ⟨passed + 1, ?_, ?_⟩
                · rw [hrest.1, hsplit, hkey]
                  simp only [List.singleton_append, Prod.mk.injEq, true_and]
                  omega
                · intro other hmem
                  rw [List.take_succ_cons] at hmem
                  cases hmem with
                  | head => exact hends
                  | tail _ hmem => exact hrest.2 other hmem
          · rename_i hcontinues
            refine ⟨0, ?_, by simp⟩
            have hrest : mmKeysOf features startTokenIdx endTokenIdx = [] := by
              apply mmKeysOf_eq_nil
              intro other hmem
              exact Or.inl ((Nat.le_of_lt (Nat.lt_of_not_le hcontinues)).trans
                (hlater other hmem))
            rw [hsplit, hkey, hrest]
            rfl
      · rename_i hahead
        refine ⟨0, ?_, by simp⟩
        rw [mmKeysOf_eq_nil]
        · rfl
        · intro other hmem
          have hstop := Nat.le_of_not_lt hahead
          cases hmem with
          | head => exact Or.inl hstop
          | tail _ hmem =>
              exact Or.inl (hstop.trans
                ((Nat.le_add_right _ _).trans (hlater other hmem)))

namespace HashedRequest

variable {Row : Type}

/-- Of the `visible` features, those in front of the cursor have ended. -/
def Sees (request : HashedRequest Row) (startMmIdx : ℤ) (startTokenIdx : ℕ)
    (visible : List MultiModalFeature) : Prop :=
  ∃ passed : List MultiModalFeature,
    visible = passed ++ request.mmFeatures.drop (request.mmIndex startMmIdx) ∧
      ∀ feature ∈ passed, feature.stop ≤ startTokenIdx

theorem mmIndex_natCast (request : HashedRequest Row) (index : ℕ) :
    request.mmIndex index = index := by
  rw [mmIndex, if_neg (by omega), Int.toNat_natCast]

/-- The keys of a block are those of the visible features, and the cursor left
behind sees the same features from the next block on. -/
theorem genMmExtraHashKeys_spec {request : HashedRequest Row}
    (horder : FeaturesInOrder request.mmFeatures)
    {startTokenIdx endTokenIdx : ℕ} (hblock : startTokenIdx ≤ endTokenIdx)
    {startMmIdx : ℤ} {visible : List MultiModalFeature}
    (hsees : request.Sees startMmIdx startTokenIdx visible) :
    (request.genMmExtraHashKeys startTokenIdx endTokenIdx startMmIdx).1 =
        mmKeysOf visible startTokenIdx endTokenIdx ∧
      request.Sees
        (request.genMmExtraHashKeys startTokenIdx endTokenIdx startMmIdx).2
        endTokenIdx visible := by
  cases hsees with
  | intro passed hvisible =>
      have hpassed : ∀ feature ∈ passed, feature.stop ≤ endTokenIdx :=
        fun feature hmem => (hvisible.2 feature hmem).trans hblock
      have hclosed : mmKeysOf passed startTokenIdx endTokenIdx = [] :=
        mmKeysOf_eq_nil fun feature hmem => Or.inr (hvisible.2 feature hmem)
      rw [hvisible.1, mmKeysOf_append, hclosed, List.nil_append]
      simp only [genMmExtraHashKeys]
      split
      · rename_i hempty
        rw [List.getLast?_eq_none_iff] at hempty
        refine ⟨?_, passed, rfl, hpassed⟩
        rw [hempty, List.drop_nil]
        rfl
      · rename_i last hlast
        split
        · rename_i hended
          refine ⟨(mmKeysOf_eq_nil ?_).symm, passed, rfl, hpassed⟩
          intro feature hmem
          exact Or.inr ((horder.stop_le_getLast hlast
            (List.mem_of_mem_drop hmem)).trans hended)
        · have hrest := horder.sublist
            (List.drop_sublist (request.mmIndex startMmIdx)
              request.mmFeatures)
          cases mmKeysFrom_eq hrest hblock (request.mmIndex startMmIdx) with
          | intro count hcount =>
              rw [hcount.1]
              refine ⟨rfl, passed ++ (request.mmFeatures.drop
                (request.mmIndex startMmIdx)).take count, ?_, ?_⟩
              · rw [mmIndex_natCast, List.append_assoc, ← List.drop_drop,
                  List.take_append_drop]
              · intro feature hmem
                cases List.mem_append.mp hmem with
                | inl hold => exact hpassed feature hold
                | inr hnew => exact hcount.2 feature hnew

/-- A run that starts at the first block sees every feature. -/
theorem sees_all (request : HashedRequest Row) :
    request.Sees 0 0 request.mmFeatures := by
  refine ⟨[], ?_, ?_⟩
  · rw [mmIndex, if_neg (by omega), Int.toNat_zero, List.drop_zero,
      List.nil_append]
  · intro feature hmem
    cases hmem

/-- A run that starts further on sees the last feature only. -/
theorem sees_last (request : HashedRequest Row) (startTokenIdx : ℕ) :
    request.Sees (-1) startTokenIdx request.mmFeatures.getLast?.toList := by
  refine ⟨[], ?_, ?_⟩
  · rw [mmIndex, if_pos (by omega), List.nil_append]
    cases hfeatures : request.mmFeatures.getLast? with
    | none =>
        rw [List.getLast?_eq_none_iff.mp hfeatures, List.drop_nil]
        rfl
    | some last =>
        have hnonempty : request.mmFeatures ≠ [] := by
          intro hempty
          simp [hempty] at hfeatures
        have hindex : ((request.mmFeatures.length : ℤ) + -1).toNat =
            request.mmFeatures.length - 1 := by
          omega
        rw [hindex, List.drop_length_sub_one hnonempty]
        rw [List.getLast?_eq_some_getLast hnonempty] at hfeatures
        rw [Option.some.inj hfeatures]
        rfl
  · intro feature hmem
    cases hmem

/-- What the block with this index is hashed from when the run sees the
`visible` features. -/
def blockContent (request : HashedRequest Row) (hasher : BlockHasher Row)
    (visible : List MultiModalFeature) (index : ℕ) : BlockContent :=
  let startTokenIdx := index * hasher.hashBlockSize
  let endTokenIdx := (index + 1) * hasher.hashBlockSize
  (slice request.allTokenIds startTokenIdx endTokenIdx,
    packKeys (request.joinExtraKeys hasher
      (mmKeysOf visible startTokenIdx endTokenIdx) startTokenIdx
      endTokenIdx))

def fullBlocks (request : HashedRequest Row) (hasher : BlockHasher Row) : ℕ :=
  request.numTokens / hasher.hashBlockSize

end HashedRequest

namespace BlockHasher

variable {Row : Type}

/-- One link of the chain of block hashes. -/
def link (hasher : BlockHasher Row) (parent : BlockHash)
    (content : BlockContent) : BlockHash :=
  hasher.hashBlockTokens (some parent) content

theorem hashBlockTokens_eq_link (hasher : BlockHasher Row)
    (parent : Option BlockHash) (content : BlockContent) :
    hasher.hashBlockTokens parent content =
      hasher.link (parent.getD hasher.noneHash) content := by
  cases parent with
  | none => simp [link, hashBlockTokens]
  | some hash => rfl

/-- The caching hash function is injective and never yields `NONE_HASH`. -/
structure CollisionFree (hasher : BlockHasher Row) : Prop where
  injective : Function.Injective hasher.cachingHashFn
  ne_noneHash : ∀ input, hasher.cachingHashFn input ≠ hasher.noneHash

theorem CollisionFree.revealing {hasher : BlockHasher Row}
    (hfree : hasher.CollisionFree) :
    Revealing hasher.link hasher.noneHash where
  first content content' hlink := (Prod.mk.inj (hfree.injective hlink)).2
  next parent content parent' content' later later' hlink := by
    have hparts := Prod.mk.inj (hfree.injective hlink)
    refine ⟨?_, hparts.2⟩
    have hne := hfree.ne_noneHash
    have hparent : hasher.link parent content ≠ hasher.noneHash := hne _
    have hparent' : hasher.link parent' content' ≠ hasher.noneHash := hne _
    have hnormal := hparts.1
    -- an empty hash stands for `NONE_HASH`, which no hash equals
    by_cases hempty : hasher.link parent content = []
    · by_cases hempty' : hasher.link parent' content' = []
      · rw [hempty, hempty']
      · simp only [hempty, hempty', if_true, if_false] at hnormal
        exact absurd hnormal.symm hparent'
    · by_cases hempty' : hasher.link parent' content' = []
      · simp only [hempty, hempty', if_true, if_false] at hnormal
        exact absurd hnormal hparent
      · simpa only [hempty, hempty', if_false] using hnormal

section Scratch

variable {hasher : BlockHasher Row} {request : HashedRequest Row}
  (hsize : 0 < hasher.hashBlockSize)
  (horder : FeaturesInOrder request.mmFeatures)
include hsize horder

theorem hashBlocks_eq_chain {visible : List MultiModalFeature}
    {turns first count : ℕ}
    (hcount : request.fullBlocks hasher = first + count)
    (hturns : count ≤ turns) {currMmIdx : ℤ}
    (hsees : request.Sees currMmIdx (first * hasher.hashBlockSize) visible)
    (parent : Option BlockHash) :
    hasher.hashBlocks request turns (first * hasher.hashBlockSize) currMmIdx
        parent =
      chain hasher.link (parent.getD hasher.noneHash)
        ((List.range' first count).map
          (request.blockContent hasher visible)) := by
  induction turns generalizing first count currMmIdx parent with
  | zero =>
      rw [Nat.le_zero.mp hturns]
      rfl
  | succ turns ih =>
      have hnext : first * hasher.hashBlockSize + hasher.hashBlockSize =
          (first + 1) * hasher.hashBlockSize := (Nat.succ_mul _ _).symm
      simp only [hashBlocks]
      rw [hnext]
      cases count with
      | zero =>
          have hstop : request.numTokens <
              (first + 1) * hasher.hashBlockSize := by
            rw [← Nat.div_lt_iff_lt_mul hsize]
            exact Nat.lt_succ_of_le (Nat.le_of_eq hcount)
          rw [if_pos hstop]
          rfl
      | succ count =>
          have hfull : ¬request.numTokens <
              (first + 1) * hasher.hashBlockSize := by
            rw [← Nat.div_lt_iff_lt_mul hsize]
            change ¬request.fullBlocks hasher < first + 1
            omega
          have hblock : first * hasher.hashBlockSize ≤
              (first + 1) * hasher.hashBlockSize :=
            Nat.mul_le_mul_right _ (Nat.le_succ first)
          have hkeys :=
            HashedRequest.genMmExtraHashKeys_spec horder hblock hsees
          have hmore : request.fullBlocks hasher = first + 1 + count := by
            omega
          rw [if_neg hfull, List.range'_succ, List.map_cons, chain]
          simp only [HashedRequest.generateBlockHashExtraKeys]
          rw [hkeys.1, hashBlockTokens_eq_link,
            ih hmore (Nat.le_of_succ_le_succ hturns) hkeys.2]
          rfl

/-- The features that a run sees which starts behind `done` hashes. -/
def visibleAfter (request : HashedRequest Row) (done : ℕ) :
    List MultiModalFeature :=
  if done = 0 then request.mmFeatures
  else request.mmFeatures.getLast?.toList

/-- The hashes a run adds continue the chain over the contents it sees. -/
theorem requestBlockHasher_eq_chain :
    hasher.requestBlockHasher request =
      chain hasher.link
        (request.blockHashes.getLast?.getD hasher.noneHash)
        ((List.range' request.blockHashes.length
          (request.fullBlocks hasher - request.blockHashes.length)).map
            (request.blockContent hasher
              (visibleAfter request request.blockHashes.length))) := by
  simp only [requestBlockHasher]
  rw [← Nat.succ_mul]
  split
  · rename_i hstop
    rw [← Nat.div_lt_iff_lt_mul hsize] at hstop
    have hnone : request.fullBlocks hasher - request.blockHashes.length = 0 :=
      Nat.sub_eq_zero_of_le (Nat.le_of_lt_succ hstop)
    rw [hnone]
    rfl
  · rename_i hfull
    rw [← Nat.div_lt_iff_lt_mul hsize] at hfull
    have hmore : request.blockHashes.length < request.fullBlocks hasher :=
      Nat.lt_of_succ_le (Nat.le_of_not_lt hfull)
    have hturns : request.fullBlocks hasher - request.blockHashes.length ≤
        request.numTokens :=
      (Nat.sub_le _ _).trans (Nat.div_le_self _ _)
    apply hashBlocks_eq_chain hsize horder (by omega) hturns
    by_cases hfirst : request.blockHashes.length = 0
    · rw [hfirst, visibleAfter, if_pos rfl, Nat.zero_mul,
        if_neg (Nat.lt_irrefl 0)]
      exact request.sees_all
    · rw [visibleAfter, if_neg hfirst,
        if_pos (Nat.mul_pos (Nat.pos_of_ne_zero hfirst) hsize)]
      exact request.sees_last _

/-- A run over a request without hashes. -/
theorem requestBlockHasher_eq_chain_scratch
    (hscratch : request.blockHashes = []) :
    hasher.requestBlockHasher request =
      chain hasher.link hasher.noneHash
        ((List.range (request.fullBlocks hasher)).map
          (request.blockContent hasher request.mmFeatures)) := by
  rw [requestBlockHasher_eq_chain hsize horder, hscratch,
    List.range_eq_range']
  rfl

end Scratch

section Example

/-- The parts of an extra key as numbers, its kind in front. -/
def keyParts : ExtraKey → ℕ × List ℕ × ℤ
  | .name text => (0, text.toList.map Char.toNat, 0)
  | .feature identifier relativeOffset =>
      (1, identifier.toList.map Char.toNat, relativeOffset)
  | .digest bytes => (2, bytes.map UInt8.toNat, 0)

theorem codePoints_injective {text text' : String}
    (hpoints : text.toList.map Char.toNat = text'.toList.map Char.toNat) :
    text = text' := by
  apply String.ext
  refine List.map_injective_iff.mpr ?_ hpoints
  intro char char' hchar
  exact Char.toNat_inj.mp hchar

theorem bytes_injective :
    Function.Injective (List.map UInt8.toNat) := by
  rw [List.map_injective_iff]
  intro byte byte' hbyte
  exact UInt8.toNat_inj.mp hbyte

theorem keyParts_injective : Function.Injective keyParts := by
  intro key key' hparts
  cases key with
  | name text =>
      cases key' with
      | name text' =>
          simp only [keyParts, Prod.mk.injEq, true_and, and_true] at hparts
          rw [codePoints_injective hparts]
      | feature identifier' relativeOffset' => simp [keyParts] at hparts
      | digest bytes' => simp [keyParts] at hparts
  | feature identifier relativeOffset =>
      cases key' with
      | name text' => simp [keyParts] at hparts
      | feature identifier' relativeOffset' =>
          simp only [keyParts, Prod.mk.injEq, true_and] at hparts
          rw [codePoints_injective hparts.1, hparts.2]
      | digest bytes' => simp [keyParts] at hparts
  | digest bytes =>
      cases key' with
      | name text' => simp [keyParts] at hparts
      | feature identifier' relativeOffset' => simp [keyParts] at hparts
      | digest bytes' =>
          simp only [keyParts, Prod.mk.injEq, true_and, and_true] at hparts
          rw [bytes_injective hparts]

/-- A hash function that writes its whole input as a run of zero bytes. -/
def unaryHash (input : BlockHash × BlockContent) : BlockHash :=
  List.replicate
    (Encodable.encode (input.1.map UInt8.toNat, input.2.1,
      input.2.2.map (List.map keyParts))) 0

theorem unaryHash_injective : Function.Injective unaryHash := by
  intro input input' hhash
  have hlength := congrArg List.length hhash
  simp only [unaryHash, List.length_replicate] at hlength
  have hparts := Encodable.encode_injective hlength
  simp only [Prod.mk.injEq] at hparts
  apply Prod.ext
  · exact bytes_injective hparts.1
  · apply Prod.ext
    · exact hparts.2.1
    · exact Option.map_injective
        (List.map_injective_iff.mpr keyParts_injective) hparts.2.2

def unaryHasher (hashBlockSize : ℕ) : BlockHasher ℕ where
  cachingHashFn := unaryHash
  noneHash := [1]
  digestEmbeds rows := List.replicate (Encodable.encode rows) 0
  hashBlockSize := hashBlockSize

theorem unaryHasher_collisionFree (hashBlockSize : ℕ) :
    (unaryHasher hashBlockSize).CollisionFree where
  injective := unaryHash_injective
  ne_noneHash input hhash := by
    have hmem : (1 : UInt8) ∈ unaryHash input := by
      change unaryHash input = [1] at hhash
      rw [hhash]
      exact List.mem_singleton_self 1
    have hzero := List.eq_of_mem_replicate hmem
    exact absurd hzero (by decide)

theorem unaryHasher_digestEmbeds_injective (hashBlockSize : ℕ) :
    Function.Injective (unaryHasher hashBlockSize).digestEmbeds := by
  intro rows rows' hdigest
  have hlength := congrArg List.length hdigest
  simp only [unaryHasher, List.length_replicate] at hlength
  exact Encodable.encode_injective hlength

end Example

end BlockHasher

end GlmFlash.Cache
