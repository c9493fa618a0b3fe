import GlmFlash.Worker.BlockZeroer

/-!
# One kernel block for three components

The views, the metadata builders and the zeroer choose the kernel block of a
compressed cache by three rules.  They choose the same number of storage rows
exactly under the condition below: the rows of an MLA block must be a multiple
of 32, or the block must not be split by the token kernel block and have at
most 64 rows.
-/

namespace GlmFlash.Worker

namespace KVCacheSpec

/-- The storage rows of a block that compresses `tokens` tokens a row. -/
def storageRows (spec : KVCacheSpec) (tokens : ℕ) : ℕ :=
  spec.blockSize / tokens

/-- The three components choose one number of rows, and it tiles the block. -/
def SameKernelBlock (spec : KVCacheSpec) (tokens kernelBlockSize : ℕ) :
    Prop :=
  ∃ rows, rows ∣ spec.storageRows tokens ∧
    viewKernelBlockSize spec kernelBlockSize = rows * tokens ∧
    (∀ layerNames groupId,
      (AttentionGroup.mk layerNames spec groupId).builderBlockSize
        (some kernelBlockSize) = rows * tokens) ∧
    KVBlockZeroer.layerKernelBlockSize spec kernelBlockSize = rows * tokens

/-- The rows of a block, the token kernel block and the kind of the spec. -/
def Splits (spec : KVCacheSpec) (tokens kernelBlockSize : ℕ) : Prop :=
  if spec.kind = .mla then
    32 ∣ spec.storageRows tokens ∨
      kernelBlockSize = spec.blockSize ∧ spec.storageRows tokens ≤ 64
  else
    tokens ∣ kernelBlockSize ∧
      (64 ∣ spec.storageRows tokens → kernelBlockSize = 64 * tokens) ∧
      (¬64 ∣ spec.storageRows tokens → 32 ∣ spec.storageRows tokens →
        kernelBlockSize = 32 * tokens)

instance (spec : KVCacheSpec) (tokens kernelBlockSize : ℕ) :
    Decidable (spec.Splits tokens kernelBlockSize) := by
  unfold Splits
  infer_instance

variable {spec : KVCacheSpec} {tokens kernelBlockSize : ℕ}

theorem compression_eq_some (htokens : spec.compression = some tokens) :
    spec.tokensPerState = .int tokens ∧ 1 < tokens := by
  rw [compression] at htokens
  split at htokens
  · rename_i count hcount
    split at htokens
    · rename_i hone
      cases htokens
      rw [hcount, Int.toNat_of_nonneg (by omega)]
      exact ⟨rfl, by omega⟩
    · cases htokens
  · cases htokens

theorem storageBlockSize_mla (htokens : spec.compression = some tokens)
    (hmla : spec.kind = .mla) :
    spec.storageBlockSize = some (spec.storageRows tokens) := by
  obtain ⟨hstate, hone⟩ := compression_eq_some htokens
  have hpositive : spec.tokensPerState.Positive := by
    rw [hstate]
    exact Int.natCast_pos.mpr (by omega)
  rw [storageBlockSize, if_pos hmla, if_pos hpositive, hstate]
  rfl

theorem storageBlockSize_other (hother : spec.kind ≠ .mla) :
    spec.storageBlockSize = none :=
  if_neg hother

section Choices

variable (htokens : spec.compression = some tokens)

include htokens

/-- What `create_kv_cache_views` chooses. -/
theorem viewKernelBlockSize_eq :
    viewKernelBlockSize spec kernelBlockSize =
      if 64 ∣ spec.storageRows tokens then 64 * tokens
      else if 32 ∣ spec.storageRows tokens then 32 * tokens
      else kernelBlockSize := by
  rw [viewKernelBlockSize, htokens]
  simp only [storageRows, Nat.dvd_iff_mod_eq_zero, List.find?_cons,
    List.find?_nil]
  by_cases hwide : spec.blockSize / tokens % 64 = 0
  · simp [hwide]
  · by_cases hnarrow : spec.blockSize / tokens % 32 = 0
    · simp [hwide, hnarrow]
    · simp [hwide, hnarrow]

theorem layerKernelBlockSize_mla (hmla : spec.kind = .mla) :
    KVBlockZeroer.layerKernelBlockSize spec kernelBlockSize =
      compressedKernelBlockSize spec * tokens := by
  rw [KVBlockZeroer.layerKernelBlockSize, htokens,
    storageBlockSize_mla htokens hmla]

theorem layerKernelBlockSize_other (hother : spec.kind ≠ .mla) :
    KVBlockZeroer.layerKernelBlockSize spec kernelBlockSize =
      kernelBlockSize := by
  rw [KVBlockZeroer.layerKernelBlockSize, htokens,
    storageBlockSize_other hother]

theorem builderBlockSize_mla (hmla : spec.kind = .mla)
    (hdvd : tokens ∣ spec.blockSize) (hpos : 0 < spec.blockSize)
    (layerNames : List String) (groupId : ℕ) :
    (AttentionGroup.mk layerNames spec groupId).builderBlockSize
        (some kernelBlockSize) =
      compressedKernelBlockSize spec * tokens := by
  obtain ⟨-, hone⟩ := compression_eq_some htokens
  obtain ⟨rows, hrows⟩ := hdvd
  have hstorage : spec.storageRows tokens = rows := by
    rw [storageRows, hrows, Nat.mul_div_cancel_left _ (by omega)]
  have hrowsPos : 0 < rows := Nat.pos_of_ne_zero fun hzero => by
    rw [hzero, Nat.mul_zero] at hrows
    omega
  have hne : rows ≠ spec.blockSize := by
    rw [hrows]
    exact (Nat.lt_mul_iff_one_lt_left hrowsPos).mpr hone |>.ne
  have hattention : spec.isAttentionSpec = true := by
    rw [isAttentionSpec, hmla]
    rfl
  have hratio : spec.blockSize / rows = tokens := by
    rw [hrows, Nat.mul_div_cancel _ hrowsPos]
  simp only [AttentionGroup.builderBlockSize,
    storageBlockSize_mla htokens hmla, hstorage]
  rw [if_pos ⟨hattention, hne⟩, hratio]

theorem compressedKernelBlockSize_eq (hmla : spec.kind = .mla) :
    compressedKernelBlockSize spec =
      if spec.storageRows tokens ≤ 64 then spec.storageRows tokens
      else if 64 ∣ spec.storageRows tokens then 64
      else 32 := by
  rw [compressedKernelBlockSize, storageBlockSize_mla htokens hmla,
    Option.getD_some]
  simp only [Nat.dvd_iff_mod_eq_zero]

end Choices

theorem builderBlockSize_other (hother : spec.kind ≠ .mla)
    (layerNames : List String) (groupId : ℕ) :
    (AttentionGroup.mk layerNames spec groupId).builderBlockSize
        (some kernelBlockSize) = kernelBlockSize := by
  simp only [AttentionGroup.builderBlockSize, storageBlockSize_other hother]

theorem storageRows_mul (hdvd : tokens ∣ spec.blockSize) :
    spec.storageRows tokens * tokens = spec.blockSize :=
  Nat.div_mul_cancel hdvd

section Agreement

variable (htokens : spec.compression = some tokens)
  (hdvd : tokens ∣ spec.blockSize) (hpos : 0 < spec.blockSize)

include htokens hdvd hpos

omit htokens in
theorem storageRows_pos : 0 < spec.storageRows tokens := by
  rcases Nat.eq_zero_or_pos (spec.storageRows tokens) with hzero | hrows
  · have hmul := storageRows_mul hdvd
    rw [hzero, Nat.zero_mul] at hmul
    omega
  · exact hrows

theorem sameKernelBlock_mla_iff (hmla : spec.kind = .mla) :
    spec.SameKernelBlock tokens kernelBlockSize ↔
      compressedKernelBlockSize spec ∣ spec.storageRows tokens ∧
        viewKernelBlockSize spec kernelBlockSize =
          compressedKernelBlockSize spec * tokens := by
  have hlayer := @layerKernelBlockSize_mla _ _ kernelBlockSize htokens hmla
  constructor
  · rintro ⟨rows, hrows, hview, -, hzeroer⟩
    rw [hlayer] at hzeroer
    have htokensPos : 0 < tokens := by
      have := (compression_eq_some htokens).2
      omega
    have hsame := Nat.eq_of_mul_eq_mul_right htokensPos hzeroer
    rw [hsame]
    exact ⟨hrows, hview⟩
  · rintro ⟨hrows, hview⟩
    exact ⟨compressedKernelBlockSize spec, hrows, hview,
      builderBlockSize_mla htokens hmla hdvd hpos, hlayer⟩

theorem sameKernelBlock_mla (hmla : spec.kind = .mla) :
    spec.SameKernelBlock tokens kernelBlockSize ↔
      32 ∣ spec.storageRows tokens ∨
        kernelBlockSize = spec.blockSize ∧ spec.storageRows tokens ≤ 64 := by
  have hrowsPos := storageRows_pos hdvd hpos
  have hmul := storageRows_mul hdvd
  rw [sameKernelBlock_mla_iff htokens hdvd hpos hmla,
    viewKernelBlockSize_eq htokens, compressedKernelBlockSize_eq htokens hmla]
  by_cases hwide : 64 ∣ spec.storageRows tokens
  · have hnarrow : 32 ∣ spec.storageRows tokens :=
      (by decide : 32 ∣ 64).trans hwide
    have hle := Nat.le_of_dvd hrowsPos hwide
    have hchoice : (if spec.storageRows tokens ≤ 64 then
        spec.storageRows tokens else 64) = 64 := by
      split
      · omega
      · rfl
    simp [hwide, hnarrow, hchoice]
  · by_cases hnarrow : 32 ∣ spec.storageRows tokens
    · have hchoice : (if spec.storageRows tokens ≤ 64 then
          spec.storageRows tokens else 32) = 32 := by
        split
        · omega
        · rfl
      simp [hwide, hnarrow, hchoice]
    · by_cases hsmall : spec.storageRows tokens ≤ 64
      · simp [hwide, hnarrow, hsmall, hmul]
      · simp [hwide, hnarrow, hsmall]

omit hpos in
theorem sameKernelBlock_other (hother : spec.kind ≠ .mla)
    (hkernel : kernelBlockSize ∣ spec.blockSize) :
    spec.SameKernelBlock tokens kernelBlockSize ↔
      tokens ∣ kernelBlockSize ∧
        (64 ∣ spec.storageRows tokens → kernelBlockSize = 64 * tokens) ∧
        (¬64 ∣ spec.storageRows tokens → 32 ∣ spec.storageRows tokens →
          kernelBlockSize = 32 * tokens) := by
  have hmul := storageRows_mul hdvd
  have htokensPos : 0 < tokens := by
    have := (compression_eq_some htokens).2
    omega
  have hlayer := @layerKernelBlockSize_other _ _ kernelBlockSize htokens hother
  have hview := @viewKernelBlockSize_eq _ _ kernelBlockSize htokens
  constructor
  · rintro ⟨rows, -, hrows, -, hzeroer⟩
    rw [hlayer] at hzeroer
    rw [hview, ← hzeroer] at hrows
    refine ⟨⟨rows, by rw [hzeroer, Nat.mul_comm]⟩, fun hwide => ?_,
      fun hwide hnarrow => ?_⟩
    · rw [if_pos hwide] at hrows
      exact hrows.symm
    · rw [if_neg hwide, if_pos hnarrow] at hrows
      exact hrows.symm
  · rintro ⟨⟨rows, hrows⟩, hwide, hnarrow⟩
    have hkernelEq : kernelBlockSize = rows * tokens := by
      rw [hrows, Nat.mul_comm]
    refine ⟨rows, ?_, ?_, ?_, hlayer.trans hkernelEq⟩
    · rw [hkernelEq, ← hmul] at hkernel
      exact Nat.dvd_of_mul_dvd_mul_right htokensPos hkernel
    · rw [hview, ← hkernelEq]
      split
      · rename_i hdvd64
        exact (hwide hdvd64).symm
      · rename_i hnot64
        split
        · rename_i hdvd32
          exact (hnarrow hnot64 hdvd32).symm
        · rfl
    · intro layerNames groupId
      rw [builderBlockSize_other hother]
      exact hkernelEq

/-- The three components agree exactly on the specs that split. -/
theorem sameKernelBlock_iff (hkernel : kernelBlockSize ∣ spec.blockSize) :
    spec.SameKernelBlock tokens kernelBlockSize ↔
      spec.Splits tokens kernelBlockSize := by
  rw [Splits]
  split
  · rename_i hmla
    exact sameKernelBlock_mla htokens hdvd hpos hmla
  · rename_i hother
    exact sameKernelBlock_other htokens hdvd hother hkernel

end Agreement

end KVCacheSpec

end GlmFlash.Worker
