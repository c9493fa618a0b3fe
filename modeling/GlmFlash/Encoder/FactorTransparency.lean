import GlmFlash.Encoder.FactorCache
import Mathlib.Tactic.Linarith

/-!
# The factor cache does not show

A factor comes from the cache only under the key that its covariance, its
scales and its sigma have, so the cache does not show as long as the digests
that are remembered are those of what the tensors hold.  They are, except that
a write to an inference tensor does not show in its version.
-/

namespace GlmFlash.Encoder.FactorCache

open GlmFlash.Library

variable {C D S : Type}

/-! ## Keys -/

theorem length_packBytes (count value : ℕ) :
    (Safetensors.packBytes count value).length = count := by
  induction count generalizing value with
  | zero => rfl
  | succ count ih => exact congrArg (· + 1) (ih (value / 256))

/-- Words of one width are read back from their bytes. -/
theorem eq_of_packed {width count : ℕ} (hwidth : 2 ^ width = 256 ^ count)
    (hcount : 0 < count) {left right : List (BitVec width)}
    (hpacked : (left.flatMap fun word => Safetensors.packBytes count word.toNat) =
      right.flatMap fun word => Safetensors.packBytes count word.toNat) :
    left = right := by
  have hlength : ∀ words : List (BitVec width),
      (words.flatMap fun word => Safetensors.packBytes count word.toNat).length =
        words.length * count := by
    intro words
    induction words with
    | nil => exact (Nat.zero_mul count).symm
    | cons word words ih =>
        rw [List.flatMap_cons, List.length_append, ih, length_packBytes,
          List.length_cons, Nat.succ_mul, Nat.add_comm]
  induction left generalizing right with
  | nil =>
      cases right with
      | nil => rfl
      | cons word words =>
          have hzero := congrArg List.length hpacked
          rw [hlength, hlength, List.length_nil, Nat.zero_mul] at hzero
          have hpositive : 0 < (word :: words).length * count :=
            Nat.mul_pos (Nat.succ_pos _) hcount
          exact absurd hzero (Nat.ne_of_lt hpositive)
  | cons word words ih =>
      cases right with
      | nil =>
          have hzero := congrArg List.length hpacked
          rw [hlength, hlength, List.length_nil, Nat.zero_mul] at hzero
          have hpositive : 0 < (word :: words).length * count :=
            Nat.mul_pos (Nat.succ_pos _) hcount
          exact absurd hzero.symm (Nat.ne_of_lt hpositive)
      | cons other others =>
          rw [List.flatMap_cons, List.flatMap_cons] at hpacked
          obtain ⟨hhead, htail⟩ := List.append_inj hpacked
            ((length_packBytes count _).trans (length_packBytes count _).symm)
          have hnumbers := congrArg Safetensors.unpackLength hhead
          rw [Safetensors.unpackLength_packBytes, Safetensors.unpackLength_packBytes,
            ← hwidth, Nat.mod_eq_of_lt word.isLt, Nat.mod_eq_of_lt other.isLt] at hnumbers
          rw [BitVec.eq_of_toNat_eq hnumbers, ih htail]

theorem Tensor32.eq_of_bytes {left right : Tensor32} (hshape : left.shape = right.shape)
    (hbytes : left.bytes = right.bytes) : left = right := by
  have hvalues : left.values = right.values :=
    eq_of_packed (by decide) (by decide) hbytes
  cases left
  cases right
  congr

variable (device : Device C D S) (config : CodecConfig S)

/-- Scales as they are stored, promoted to float32. -/
def Stored (su : List (BitVec 32)) : Prop :=
  ∃ stored : List (BitVec 16), stored.all isFinite16 ∧ su = stored.map device.float

variable {device config}

theorem stored_of_validateVectors {suh svh su sv : List (BitVec 32)} {k n : ℕ}
    (hvalid : validateVectors device suh svh k n = .ok (su, sv)) : Stored device su := by
  simp only [validateVectors, bind_eq_ok, require_eq_ok, pure_eq_ok,
    Prod.mk.injEq] at hvalid
  obtain ⟨-, -, -, -, -, -, -, hfinite, -, -, hsu, -⟩ := hvalid
  exact ⟨suh.map device.half, hfinite.1, hsu.symm⟩

theorem Stored.eq_of_half {left right : List (BitVec 32)} (hleft : Stored device left)
    (hright : Stored device right)
    (hhalf : left.map device.half = right.map device.half) : left = right := by
  have hread : ∀ stored : List (BitVec 16), stored.all isFinite16 = true →
      (stored.map device.float).map device.half = stored := by
    intro stored hstored
    rw [List.map_map]
    refine (List.map_congr_left fun value hvalue => ?_).trans (List.map_id stored)
    exact device.half_float value (List.all_eq_true.mp hstored value hvalue)
  obtain ⟨first, hfirst, rfl⟩ := hleft
  obtain ⟨second, hsecond, rfl⟩ := hright
  rw [hread first hfirst, hread second hsecond] at hhalf
  rw [hhalf]

/-- A factor of everything that has this key. -/
def IsFactor (device : Device C D S) (config : CodecConfig S) (key : Key D)
    (factor : Tensor32) : Prop :=
  ∀ source su size bits sigmaReg, source.shape = [size, size] → Stored device su →
    Codec.factorCacheKey device config (device.sha256 source.bytes) su sigmaReg size = key →
      factorize device config source su size (config.quantArgs bits sigmaReg) = .ok factor

theorem isFactor_of_factorize {source : Tensor32} {su : List (BitVec 32)} {size : ℕ}
    {bits : ℤ} {sigmaReg : S} {factor : Tensor32} (hshape : source.shape = [size, size])
    (hstored : Stored device su)
    (hfactor : factorize device config source su size (config.quantArgs bits sigmaReg) =
      .ok factor) :
    IsFactor device config
      (Codec.factorCacheKey device config (device.sha256 source.bytes) su sigmaReg size)
      factor := by
  intro source' su' size' bits' sigmaReg' hshape' hstored' hkey
  simp only [Codec.factorCacheKey, Key.mk.injEq] at hkey
  obtain ⟨hsource, hsu, hsigma, rfl, -, -⟩ := hkey
  have hbytes := device.sha256_injective hsource
  have htensor := Tensor32.eq_of_bytes (hshape'.trans hshape.symm) hbytes
  have hhalf : su'.map device.half = su.map device.half :=
    eq_of_packed (by decide) (by decide) (device.sha256_injective hsu)
  rw [htensor, hstored'.eq_of_half hstored hhalf, device.hex_injective hsigma]
  -- The bit width is in the arguments of the quantizer only.
  exact hfactor

theorem shape_of_checkSource {source : Tensor32} {su : List (BitVec 32)} {size : ℕ}
    (hcheck : checkSource config source su = .ok size) : source.shape = [size, size] := by
  simp only [checkSource, bind_eq_ok, require_eq_ok] at hcheck
  obtain ⟨-, -, hmatch⟩ := hcheck
  split at hmatch
  · rename_i rows columns hshape
    simp only [bind_eq_ok, require_eq_ok, pure_eq_ok] at hmatch
    obtain ⟨-, hsquare, rfl⟩ := hmatch
    rw [hshape, hsquare.1]
  · cases hmatch

/-! ## The size of the cache -/

namespace Codec

/-- The recorded size is the size, and both caches are within their limits. -/
structure Bounded (codec : Codec D) : Prop where
  nodup : (Dict.keys codec.factorCache).Nodup
  size_eq : codec.factorCacheSize = Dict.total tensorNbytes codec.factorCache
  size_le : Dict.total tensorNbytes codec.factorCache ≤ codec.factorCacheBytes
  nodup_digests : (Dict.keys codec.covarianceDigests).Nodup
  length_digests_le : codec.covarianceDigests.length ≤ codec.digestCacheEntries

theorem bounded_init {factorCacheBytes digestCacheEntries : ℤ} {codec : Codec D}
    (hinit : init factorCacheBytes digestCacheEntries = .ok codec) : codec.Bounded := by
  simp only [init, bind_eq_ok, require_eq_ok, pure_eq_ok] at hinit
  obtain ⟨-, -, -, -, rfl⟩ := hinit
  exact ⟨List.nodup_nil, rfl, Nat.zero_le _, List.nodup_nil, Nat.zero_le _⟩

/-- The counters do not matter. -/
theorem Bounded.counted {codec : Codec D} (hbounded : codec.Bounded) :
    Bounded { codec with
      factorCacheMisses := codec.factorCacheMisses + 1
      factorizations := codec.factorizations + 1 } :=
  ⟨hbounded.nodup, hbounded.size_eq, hbounded.size_le, hbounded.nodup_digests,
    hbounded.length_digests_le⟩

theorem bounded_clearCaches {codec : Codec D} : codec.clearCaches.Bounded :=
  ⟨List.nodup_nil, rfl, Nat.zero_le _, List.nodup_nil, Nat.zero_le _⟩

variable [DecidableEq D] {codec : Codec D}

/-- A factor is put at the end, and factors in front of it make room. -/
theorem rememberFactor_spec (hbounded : codec.Bounded) (key : Key D) (factor : Tensor32) :
    ∃ kept size, codec.rememberFactor key factor =
        .ok { codec with factorCache := kept, factorCacheSize := size } ∧
      Bounded { codec with factorCache := kept, factorCacheSize := size } ∧
      ∀ item ∈ kept, item = (key, factor) ∨ item ∈ codec.factorCache := by
  by_cases hnone : codec.factorCacheBytes = 0
  · exact ⟨codec.factorCache, codec.factorCacheSize, by rw [rememberFactor, if_pos hnone],
      hbounded, fun _ => .inr⟩
  · by_cases hlarge : codec.factorCacheBytes < tensorNbytes factor
    · exact ⟨codec.factorCache, codec.factorCacheSize,
        by rw [rememberFactor, if_neg hnone, if_pos hlarge], hbounded, fun _ => .inr⟩
    · let added := codec.factorCache.erase key ++ [(key, factor)]
      obtain ⟨kept, hevict, hsuffix, hfits⟩ := Dict.evict_total tensorNbytes
        Failure.keyError codec.factorCacheBytes added
      have hsize : codec.factorCacheSize - codec.incumbentNbytes key + tensorNbytes factor =
          Dict.total tensorNbytes added := by
        rw [hbounded.size_eq, Dict.total_append, incumbentNbytes]
        cases hget : codec.factorCache.get? key with
        | none =>
            rw [Dict.erase_of_not_mem (Dict.get?_eq_none_iff.mp hget)]
            simp
        | some incumbent =>
            rw [Dict.total_perm tensorNbytes (Dict.perm_erase_append hget hbounded.nodup),
              Dict.total_append]
            simp
      have hnodup : (Dict.keys added).Nodup := by
        rw [Dict.keys, List.map_append]
        apply List.Nodup.append
        · exact hbounded.nodup.sublist (Dict.erase_sublist.map Prod.fst)
        · exact List.nodup_singleton key
        · intro other hold hlast
          rw [List.map_singleton, List.mem_singleton] at hlast
          exact Dict.not_mem_keys_erase (hlast ▸ hold)
      refine ⟨kept, Dict.total tensorNbytes kept, ?_,
        ⟨hnodup.sublist (hsuffix.sublist.map Prod.fst), rfl, hfits, hbounded.nodup_digests,
          hbounded.length_digests_le⟩, ?_⟩
      · rw [rememberFactor, if_neg hnone, if_neg hlarge]
        rw [hsize, hevict]
        rfl
      · intro item hitem
        rcases List.mem_append.mp (hsuffix.subset hitem) with hold | hlast
        · exact .inr (Dict.erase_sublist.subset hold)
        · exact .inl (List.mem_singleton.mp hlast)

/-! ## One request -/

section

variable {source : Tensor32} {su : List (BitVec 32)} {bits : ℤ} {sigmaReg : S} {digest : D}
  {size : ℕ} {factor : Tensor32} {failure : Failure}

theorem factorCovarianceCached_refused (hcheck : checkSource config source su = .error failure) :
    codec.factorCovarianceCached device config source su bits sigmaReg digest =
      (.error failure, codec) := by
  simp only [factorCovarianceCached, hcheck]

theorem factorCovarianceCached_hit (hcheck : checkSource config source su = .ok size)
    (hget : codec.factorCache.get?
      (factorCacheKey device config digest su sigmaReg size) = some factor) :
    codec.factorCovarianceCached device config source su bits sigmaReg digest =
      (.ok (factor, config.quantArgs bits sigmaReg), { codec with
        factorCacheHits := codec.factorCacheHits + 1
        factorCache := codec.factorCache.moveToEnd
          (factorCacheKey device config digest su sigmaReg size) }) := by
  simp only [factorCovarianceCached, hcheck, hget]

theorem factorCovarianceCached_failed (hcheck : checkSource config source su = .ok size)
    (hget : codec.factorCache.get?
      (factorCacheKey device config digest su sigmaReg size) = none)
    (hfactorize : factorize device config source su size (config.quantArgs bits sigmaReg) =
      .error failure) :
    codec.factorCovarianceCached device config source su bits sigmaReg digest =
      (.error failure, { codec with factorCacheMisses := codec.factorCacheMisses + 1 }) := by
  simp only [factorCovarianceCached, hcheck, hget, hfactorize]

theorem factorCovarianceCached_miss (hcheck : checkSource config source su = .ok size)
    (hget : codec.factorCache.get?
      (factorCacheKey device config digest su sigmaReg size) = none)
    (hfactorize : factorize device config source su size (config.quantArgs bits sigmaReg) =
      .ok factor) {after : Codec D}
    (hremember : rememberFactor { codec with
        factorCacheMisses := codec.factorCacheMisses + 1
        factorizations := codec.factorizations + 1 }
      (factorCacheKey device config digest su sigmaReg size) factor = .ok after) :
    codec.factorCovarianceCached device config source su bits sigmaReg digest =
      (.ok (factor, config.quantArgs bits sigmaReg), after) := by
  simp only [factorCovarianceCached, hcheck, hget, hfactorize, hremember]

end

/-- What `_factor_covariance_cached` leaves behind. -/
theorem factorCovarianceCached_after (device : Device C D S) (config : CodecConfig S)
    (hbounded : codec.Bounded) (source : Tensor32)
    (su : List (BitVec 32)) (bits : ℤ) (sigmaReg : S) (digest : D) :
    let after := (codec.factorCovarianceCached device config source su bits sigmaReg digest).2
    after.Bounded ∧ after.factorCacheBytes = codec.factorCacheBytes ∧
      after.covarianceDigests = codec.covarianceDigests ∧
        ∀ item ∈ after.factorCache, item ∈ codec.factorCache ∨
          ∃ size, checkSource config source su = .ok size ∧
            item.1 = factorCacheKey device config digest su sigmaReg size ∧
              factorize device config source su size (config.quantArgs bits sigmaReg) =
                .ok item.2 := by
  cases hcheck : checkSource config source su with
  | error failure =>
      rw [factorCovarianceCached_refused hcheck]
      exact ⟨hbounded, rfl, rfl, fun _ => .inl⟩
  | ok size =>
      cases hget : codec.factorCache.get?
          (factorCacheKey device config digest su sigmaReg size) with
      | some factor =>
          have hperm := Dict.moveToEnd_perm hbounded.nodup
            (factorCacheKey device config digest su sigmaReg size)
          rw [factorCovarianceCached_hit hcheck hget]
          refine ⟨⟨?_, ?_, ?_, hbounded.nodup_digests, hbounded.length_digests_le⟩, rfl, rfl,
            fun item hitem => .inl (hperm.subset hitem)⟩
          · exact (hperm.map Prod.fst).nodup_iff.mpr hbounded.nodup
          · exact hbounded.size_eq.trans
              (congrArg Nat.cast (Dict.total_perm tensorNbytes hperm).symm)
          · exact (Dict.total_perm tensorNbytes hperm).trans_le hbounded.size_le
      | none =>
          cases hfactorize : factorize device config source su size
              (config.quantArgs bits sigmaReg) with
          | error failure =>
              rw [factorCovarianceCached_failed hcheck hget hfactorize]
              exact ⟨⟨hbounded.nodup, hbounded.size_eq, hbounded.size_le,
                hbounded.nodup_digests, hbounded.length_digests_le⟩, rfl, rfl, fun _ => .inl⟩
          | ok factor =>
              obtain ⟨kept, total, hremember, hkept, hitems⟩ :=
                rememberFactor_spec hbounded.counted
                  (factorCacheKey device config digest su sigmaReg size) factor
              rw [factorCovarianceCached_miss hcheck hget hfactorize hremember]
              refine ⟨hkept, rfl, rfl, ?_⟩
              intro item hitem
              cases hitems item hitem with
              | inl hnew =>
                  refine .inr ⟨size, rfl, by rw [hnew], ?_⟩
                  rw [hnew]
                  exact hfactorize
              | inr hold => exact .inl hold

/-- With the digest of the covariance, the factor is the one that would be computed. -/
theorem factorCovarianceCached_result (hbounded : codec.Bounded)
    (hfactors : ∀ item ∈ codec.factorCache, IsFactor device config item.1 item.2)
    {source : Tensor32} {su : List (BitVec 32)} (hstored : Stored device su) (bits : ℤ)
    (sigmaReg : S) :
    (codec.factorCovarianceCached device config source su bits sigmaReg
        (device.sha256 source.bytes)).1 = (do
      let size ← checkSource config source su
      let factor ← factorize device config source su size (config.quantArgs bits sigmaReg)
      return (factor, config.quantArgs bits sigmaReg)) := by
  cases hcheck : checkSource config source su with
  | error failure =>
      rw [factorCovarianceCached_refused hcheck]
      rfl
  | ok size =>
      change _ = factorize device config source su size _ >>= fun _ => _
      cases hget : codec.factorCache.get?
          (factorCacheKey device config (device.sha256 source.bytes) su sigmaReg size) with
      | some factor =>
          have hfactor := hfactors _ (Dict.mem_of_get? hget) source su size bits sigmaReg
            (shape_of_checkSource hcheck) hstored rfl
          rw [factorCovarianceCached_hit hcheck hget, hfactor]
          rfl
      | none =>
          cases hfactorize : factorize device config source su size
              (config.quantArgs bits sigmaReg) with
          | error failure =>
              rw [factorCovarianceCached_failed hcheck hget hfactorize]
              rfl
          | ok factor =>
              obtain ⟨kept, total, hremember, -, -⟩ := rememberFactor_spec hbounded.counted
                (factorCacheKey device config (device.sha256 source.bytes) su sigmaReg size)
                factor
              rw [factorCovarianceCached_miss hcheck hget hfactorize hremember]
              rfl

end Codec

end GlmFlash.Encoder.FactorCache
