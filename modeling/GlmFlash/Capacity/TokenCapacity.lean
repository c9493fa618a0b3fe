import GlmFlash.Capacity.KVLayout
import Mathlib.Algebra.Order.BigOperators.Group.List
import Mathlib.Tactic.Ring

/-!
# Token capacities

The bytes of a layout grow with the tokens, so the search of a composite layout
ends with the largest multiple of its quantum that fits.  For one component
this is the closed form.
-/

namespace GlmFlash.Capacity

open GlmFlash.Library

theorem requirePositive_eq_ok {name : String} {value : ℕ} {token : Unit} :
    requirePositive name value = .ok token ↔ 1 ≤ value :=
  require_eq_ok

theorem requireNonNegative_eq_ok {name : String} {value : ℤ} {token : Unit} :
    requireNonNegative name value = .ok token ↔ 0 ≤ value :=
  require_eq_ok

/-! ## Blocks -/

/-- The bytes that hold the tokens of a rank, in blocks shared by `shards` ranks. -/
def blockBytes (blockTokens shards tokenBytes tokens : ℕ) : ℕ :=
  cdiv (cdiv tokens blockTokens) shards * (blockTokens * tokenBytes)

section Blocks

variable {blockTokens shards tokenBytes : ℕ}

theorem blockBytes_mono (hblock : 1 ≤ blockTokens) (hshards : 1 ≤ shards)
    {tokens tokens' : ℕ} (hle : tokens ≤ tokens') :
    blockBytes blockTokens shards tokenBytes tokens ≤
      blockBytes blockTokens shards tokenBytes tokens' :=
  Nat.mul_le_mul_right _ (cdiv_mono hshards (cdiv_mono hblock hle))

/-- The closed form is the adjoint of the bytes. -/
theorem blockBytes_le_iff (hblock : 1 ≤ blockTokens) (hshards : 1 ≤ shards)
    (hbytes : 1 ≤ tokenBytes) {tokens budget : ℕ} :
    blockBytes blockTokens shards tokenBytes tokens ≤ budget ↔
      tokens ≤ budget / (blockTokens * tokenBytes) * shards * blockTokens := by
  have hunit : 0 < blockTokens * tokenBytes := Nat.mul_pos hblock hbytes
  rw [blockBytes, ← Nat.le_div_iff_mul_le hunit, cdiv_le_iff hshards, cdiv_le_iff hblock]
  have heq : blockTokens * (shards * (budget / (blockTokens * tokenBytes))) =
      budget / (blockTokens * tokenBytes) * shards * blockTokens := by ring
  rw [heq]

theorem le_blockBytes (hblock : 1 ≤ blockTokens) (hshards : 1 ≤ shards)
    (hbytes : 1 ≤ tokenBytes) (tokens : ℕ) :
    tokens ≤ blockBytes blockTokens shards tokenBytes tokens * shards := by
  have hcover := (blockBytes_le_iff hblock hshards hbytes).mp
    (le_refl (blockBytes blockTokens shards tokenBytes tokens))
  have hunit : blockTokens ≤ blockTokens * tokenBytes := Nat.le_mul_of_pos_right _ hbytes
  have hdiv := Nat.div_mul_le_self (blockBytes blockTokens shards tokenBytes tokens)
    (blockTokens * tokenBytes)
  calc tokens
      ≤ blockBytes blockTokens shards tokenBytes tokens / (blockTokens * tokenBytes) *
          shards * blockTokens := hcover
    _ = blockBytes blockTokens shards tokenBytes tokens / (blockTokens * tokenBytes) *
          blockTokens * shards := by ring
    _ ≤ blockBytes blockTokens shards tokenBytes tokens * shards :=
        Nat.mul_le_mul_right _ ((Nat.mul_le_mul_left _ hunit).trans hdiv)

end Blocks

/-! ## One layout -/

namespace KVLayout

/-- What `validate` asks for. -/
structure Valid (layout : KVLayout) : Prop where
  cacheLayers : 1 ≤ layout.cacheLayers
  recordBytes : 1 ≤ layout.recordBytesPerTokenLayer
  dcpSize : 1 ≤ layout.dcpSize
  blockTokens : 1 ≤ layout.blockTokens

variable {layout : KVLayout}

theorem validate_eq_ok {token : Unit} : layout.validate = .ok token ↔ layout.Valid := by
  simp only [validate, bind_eq_ok, requirePositive_eq_ok]
  constructor
  · rintro ⟨_, hlayers, _, hrecord, _, hdcp, hblock⟩
    exact ⟨hlayers, hrecord, hdcp, hblock⟩
  · intro hvalid
    exact ⟨(), hvalid.cacheLayers, (), hvalid.recordBytes, (), hvalid.dcpSize,
      hvalid.blockTokens⟩

/-- The bytes of one token on a rank. -/
def tokenBytes (layout : KVLayout) : ℕ :=
  layout.cacheLayers * layout.recordBytesPerTokenLayer

theorem Valid.tokenBytes_pos (hvalid : layout.Valid) : 1 ≤ layout.tokenBytes :=
  Nat.mul_pos hvalid.cacheLayers hvalid.recordBytes

theorem bytesPerRank_eq_ok {tokens : ℤ} {bytes : ℕ} :
    layout.bytesPerRank tokens = .ok bytes ↔ layout.Valid ∧ 0 ≤ tokens ∧
      bytes = blockBytes layout.blockTokens layout.dcpSize layout.tokenBytes
        tokens.toNat := by
  have hassoc (blocks : ℕ) : blocks * layout.blockTokens * layout.cacheLayers *
      layout.recordBytesPerTokenLayer =
        blocks * (layout.blockTokens * layout.tokenBytes) := by
    rw [tokenBytes]
    ring
  simp only [bytesPerRank, localBlocks, bind_eq_ok, pure_eq_ok, validate_eq_ok,
    requireNonNegative_eq_ok, hassoc]
  constructor
  · rintro ⟨_, ⟨_, hvalid, _, htokens, rfl⟩, rfl⟩
    exact ⟨hvalid, htokens, rfl⟩
  · rintro ⟨hvalid, htokens, rfl⟩
    exact ⟨_, ⟨(), hvalid, (), htokens, rfl⟩, rfl⟩

theorem globalTokens_eq_ok {rankBytes : ℤ} {tokens : ℕ} :
    layout.globalTokensFromRankBytes rankBytes = .ok tokens ↔
      layout.Valid ∧ 0 ≤ rankBytes ∧
        tokens = rankBytes.toNat / (layout.blockTokens * layout.tokenBytes) *
          layout.dcpSize * layout.blockTokens := by
  simp only [globalTokensFromRankBytes, bind_eq_ok, pure_eq_ok, validate_eq_ok,
    requireNonNegative_eq_ok, tokenBytes, Nat.mul_assoc]
  constructor
  · rintro ⟨_, hvalid, _, hbytes, rfl⟩
    exact ⟨hvalid, hbytes, rfl⟩
  · rintro ⟨hvalid, hbytes, rfl⟩
    exact ⟨(), hvalid, (), hbytes, rfl⟩

/-- The tokens that fit are those up to the closed form. -/
theorem bytes_le_iff {rankBytes target : ℤ} {tokens bytes : ℕ}
    (htokens : layout.globalTokensFromRankBytes rankBytes = .ok tokens)
    (hbytes : layout.bytesPerRank target = .ok bytes) :
    (bytes : ℤ) ≤ rankBytes ↔ target ≤ tokens := by
  obtain ⟨hvalid, hrank, rfl⟩ := globalTokens_eq_ok.mp htokens
  obtain ⟨_, htarget, rfl⟩ := bytesPerRank_eq_ok.mp hbytes
  rw [← Int.le_toNat hrank, blockBytes_le_iff hvalid.blockTokens hvalid.dcpSize
    hvalid.tokenBytes_pos, Int.toNat_le]

end KVLayout

/-! ## Several components -/

namespace KVComponent

structure Valid (component : KVComponent) : Prop where
  name : component.name ≠ ""
  cacheLayers : 1 ≤ component.cacheLayers
  recordBytes : 1 ≤ component.recordBytesPerTokenLayer
  shardSize : 1 ≤ component.shardSize
  blockTokens : 1 ≤ component.blockTokens

variable {component : KVComponent}

theorem validate_eq_ok {token : Unit} :
    component.validate = .ok token ↔ component.Valid := by
  simp only [validate, bind_eq_ok, require_eq_ok, requirePositive_eq_ok]
  constructor
  · rintro ⟨_, hname, _, hlayers, _, hrecord, _, hshard, hblock⟩
    exact ⟨hname, hlayers, hrecord, hshard, hblock⟩
  · intro hvalid
    exact ⟨(), hvalid.name, (), hvalid.cacheLayers, (), hvalid.recordBytes, (),
      hvalid.shardSize, hvalid.blockTokens⟩

def tokenBytes (component : KVComponent) : ℕ :=
  component.cacheLayers * component.recordBytesPerTokenLayer

theorem bytesPerRank_eq (component : KVComponent) (tokens : ℕ) :
    component.bytesPerRank tokens =
      blockBytes component.blockTokens component.shardSize component.tokenBytes
        tokens := by
  rw [bytesPerRank, blockBytes, tokenBytes]
  ring

end KVComponent

namespace CompositeKVLayout

variable {layout : CompositeKVLayout}

theorem validateComponents_eq_ok {names : List String} {components : List KVComponent}
    {token : Unit} (hok : layout.validateComponents names components = .ok token) :
    ∀ component ∈ components, component.Valid := by
  induction components generalizing names with
  | nil => exact List.forall_mem_nil _
  | cons component components ih =>
      simp only [validateComponents, bind_eq_ok, require_eq_ok,
        KVComponent.validate_eq_ok] at hok
      obtain ⟨_, hvalid, _, _, _, _, hrest⟩ := hok
      exact List.forall_mem_cons.mpr ⟨hvalid, ih hrest⟩

/-- What is used of a valid layout. -/
structure Valid (layout : CompositeKVLayout) : Prop where
  ne_nil : layout.components ≠ []
  components : ∀ component ∈ layout.components, component.Valid

theorem valid_of_validate {token : Unit} (hok : layout.validate = .ok token) :
    layout.Valid := by
  simp only [validate, bind_eq_ok, require_eq_ok] at hok
  obtain ⟨_, _, _, hne, hcomponents⟩ := hok
  exact ⟨hne, validateComponents_eq_ok hcomponents⟩

theorem Valid.bytes_mono (hvalid : layout.Valid) {tokens tokens' : ℕ}
    (hle : tokens ≤ tokens') : layout.bytes tokens ≤ layout.bytes tokens' := by
  apply List.sum_le_sum
  intro component hmem
  have hcomponent := hvalid.components component hmem
  rw [component.bytesPerRank_eq, component.bytesPerRank_eq]
  exact blockBytes_mono hcomponent.blockTokens hcomponent.shardSize hle

theorem bytes_zero (layout : CompositeKVLayout) : layout.bytes 0 = 0 := by
  rw [bytes, List.sum_eq_zero_iff]
  intro bytes hmem
  obtain ⟨component, _, rfl⟩ := List.mem_map.mp hmem
  rw [component.bytesPerRank_eq, blockBytes, cdiv_zero, cdiv_zero, Nat.zero_mul]

/-- Enough tokens exceed every budget. -/
theorem Valid.exists_bound (hvalid : layout.Valid) (budget : ℕ) :
    ∃ bound, ∀ tokens ≥ bound, ¬layout.bytes tokens ≤ budget := by
  obtain ⟨component, hmem⟩ := List.exists_mem_of_ne_nil _ hvalid.ne_nil
  have hcomponent := hvalid.components component hmem
  refine ⟨(budget + 1) * component.shardSize, ?_⟩
  intro tokens htokens hle
  have hone : component.bytesPerRank tokens ≤ layout.bytes tokens :=
    List.single_le_sum (fun _ _ => Nat.zero_le _) _ (List.mem_map_of_mem hmem)
  have hcover := le_blockBytes hcomponent.blockTokens hcomponent.shardSize
    (Nat.mul_pos hcomponent.cacheLayers hcomponent.recordBytes) tokens
  change _ ≤ blockBytes component.blockTokens component.shardSize component.tokenBytes
    tokens * _ at hcover
  rw [← component.bytesPerRank_eq] at hcover
  have hlt : (budget + 1) * component.shardSize ≤ budget * component.shardSize :=
    htokens.trans (hcover.trans (Nat.mul_le_mul_right _ (hone.trans hle)))
  have hle' := Nat.le_of_mul_le_mul_right hlt hcomponent.shardSize
  exact Nat.not_succ_le_self budget hle'

/-- The search ends, with the largest multiple of the quantum that fits. -/
theorem Valid.search_spec (hvalid : layout.Valid) (budget : ℕ) :
    ∃ tokens, IsGreatest {number | layout.quantum ∣ number ∧
        layout.bytes number ≤ budget} tokens ∧
      ∃ rounds, ∀ more ≥ rounds, layout.search more budget = some tokens := by
  let within : ℕ → Prop := fun tokens => layout.bytes tokens ≤ budget
  have hdown : ∀ number number', number ≤ number' → within number' → within number :=
    fun _ _ hle hin => (hvalid.bytes_mono hle).trans hin
  obtain ⟨bound, hbound⟩ := hvalid.exists_bound budget
  have hstop : ∃ stop, 0 < stop ∧ ¬within stop ∧
      ∀ more > bound, doubling within more 1 = some stop :=
    doubling_spec hbound Nat.one_pos (Nat.le_add_left bound 1)
  obtain ⟨high, hpos, hhigh, hdoubling⟩ := hstop
  have hzero : within 0 := by
    change layout.bytes 0 ≤ budget
    rw [bytes_zero]
    exact Nat.zero_le budget
  obtain ⟨largest, hin, hout, hbisect⟩ :=
    bisect_spec hzero hhigh hpos (Nat.le_add_left high 0)
  refine ⟨_, isGreatest_multiple hdown hin hout, max (bound + 1) high, ?_⟩
  intro more hmore
  rw [search]
  change (doubling within more 1 >>= fun high => bisect within more 0 high >>= _) = _
  rw [hdoubling more ((Nat.le_max_left _ _).trans hmore)]
  change (bisect within more 0 high >>= _) = _
  rw [hbisect more ((Nat.le_max_right _ _).trans hmore)]
  rfl

end CompositeKVLayout

end GlmFlash.Capacity
