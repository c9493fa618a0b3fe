import GlmFlash.Encoder.FactorTransparency
import Mathlib.Tactic.NormNum

/-!
# Runs of the factor cache

Tensors are made, written to in place and freed between the requests, and an
`id` may come back.  The sizes hold in every state that a run reaches.  Each
request gets the factor of what its covariance holds in the runs that do not
change an inference tensor while its digest is remembered.
-/

namespace GlmFlash.Encoder.FactorCache

open GlmFlash.Library

variable {C D S : Type} {device : Device C D S} {config : CodecConfig S}

namespace Codec

variable {codec : Codec D}

/-- Only the digest of the covariance itself is added. -/
theorem covarianceSha256_after (device : Device C D S) (hbounded : codec.Bounded)
    (covariance : Argument C) :
    ∃ digests, (codec.covarianceSha256 device covariance).2 =
        { codec with covarianceDigests := digests } ∧
      Bounded { codec with covarianceDigests := digests } ∧
      ∀ item ∈ digests, item ∈ codec.covarianceDigests ∨
        ∃ identity object, covariance = .tensor identity object ∧
          item = (identity, ⟨object.serial, object.version,
            contentSha256 device object.content⟩) := by
  cases covariance with
  | array content => exact ⟨codec.covarianceDigests, rfl, hbounded, fun _ => .inl⟩
  | tensor identity object =>
      let entry : DigestEntry D :=
        ⟨object.serial, object.version, contentSha256 device object.content⟩
      let used := (codec.covarianceDigests.set identity entry).moveToEnd identity
      have hremembered : Bounded { codec with
            covarianceDigests := Dict.trim codec.digestCacheEntries used } ∧
          ∀ item ∈ Dict.trim codec.digestCacheEntries used, item ∈ codec.covarianceDigests ∨
            ∃ identity' object', Argument.tensor identity object =
                .tensor identity' object' ∧
              item = (identity', ⟨object'.serial, object'.version,
                contentSha256 device object'.content⟩) := by
        have hsuffix := Dict.trim_suffix codec.digestCacheEntries used
        have hset : (Dict.keys (codec.covarianceDigests.set identity entry)).Nodup :=
          Dict.nodup_keys_set hbounded.nodup_digests
        have hperm := Dict.moveToEnd_perm hset identity
        have hused : (Dict.keys used).Nodup := (hperm.map Prod.fst).nodup_iff.mpr hset
        refine ⟨⟨hbounded.nodup, hbounded.size_eq, hbounded.size_le,
          hused.sublist (hsuffix.sublist.map Prod.fst), Dict.length_trim_le _ _⟩, ?_⟩
        intro item hitem
        rcases Dict.mem_of_mem_set (hperm.subset (hsuffix.subset hitem)) with hnew | hold
        · exact .inr ⟨identity, object, rfl, hnew⟩
        · exact .inl hold
      rw [covarianceSha256]
      by_cases hnone : codec.digestCacheEntries = 0
      · exact ⟨codec.covarianceDigests, by rw [if_pos hnone], hbounded, fun _ => .inl⟩
      · rw [if_neg hnone]
        cases hget : codec.covarianceDigests.get? identity with
        | none => exact ⟨_, rfl, hremembered⟩
        | some cached =>
            by_cases hsame : cached.reference = object.serial ∧
                cached.version = object.version
            · have hperm := Dict.moveToEnd_perm hbounded.nodup_digests identity
              refine ⟨codec.covarianceDigests.moveToEnd identity,
                congrArg Prod.snd (if_pos hsame),
                ⟨hbounded.nodup, hbounded.size_eq, hbounded.size_le, ?_, ?_⟩,
                fun item hitem => .inl (hperm.subset hitem)⟩
              · exact (hperm.map Prod.fst).nodup_iff.mpr hbounded.nodup_digests
              · exact hperm.length_eq.trans_le hbounded.length_digests_le
            · exact ⟨_, congrArg Prod.snd (if_neg hsame), hremembered⟩

/-- The digest is that of the covariance unless a wrong one is remembered. -/
theorem covarianceSha256_result {covariance : Argument C}
    (hright : ∀ identity object cached, covariance = .tensor identity object →
      codec.covarianceDigests.get? identity = some cached →
        cached.reference = object.serial → cached.version = object.version →
          cached.digest = contentSha256 device object.content) :
    (codec.covarianceSha256 device covariance).1 =
      contentSha256 device covariance.content := by
  cases covariance with
  | array content => rfl
  | tensor identity object =>
      rw [covarianceSha256]
      by_cases hnone : codec.digestCacheEntries = 0
      · rw [if_pos hnone]
        rfl
      · rw [if_neg hnone]
        cases hget : codec.covarianceDigests.get? identity with
        | none => rfl
        | some cached =>
            by_cases hsame : cached.reference = object.serial ∧
                cached.version = object.version
            · exact (congrArg Prod.fst (if_pos hsame)).trans
                (hright identity object cached rfl hget hsame.1 hsame.2)
            · exact congrArg Prod.fst (if_neg hsame)

variable [DecidableEq D]

theorem encode_refused {request : Request (Argument C) S} {failure : Failure}
    (hvalid : validateVectors device request.suh request.svh request.k request.n =
      .error failure) :
    codec.encode device config request = (.error failure, codec) := by
  simp only [encode, hvalid]

theorem encode_eq {request : Request (Argument C) S} {vectors : List (BitVec 32) × _}
    (hvalid : validateVectors device request.suh request.svh request.k request.n =
      .ok vectors) {digest : D} {digested : Codec D}
    (hdigested : codec.covarianceSha256 device request.covariance = (digest, digested)) :
    codec.encode device config request =
      digested.factorCovarianceCached device config
        (device.asFloat32 request.covariance.content) vectors.1 request.bits
        (request.sigmaReg.getD config.sigmaReg) digest := by
  simp only [encode, hvalid, hdigested]

/-- What a request leaves behind; with the right digest, only right factors. -/
theorem encode_after (device : Device C D S) (config : CodecConfig S)
    (hbounded : codec.Bounded) (request : Request (Argument C) S) :
    let after := (codec.encode device config request).2
    after.Bounded ∧ after.factorCacheBytes = codec.factorCacheBytes ∧
      (∀ item ∈ after.covarianceDigests, item ∈ codec.covarianceDigests ∨
        ∃ identity object, request.covariance = .tensor identity object ∧
          item = (identity, ⟨object.serial, object.version,
            contentSha256 device object.content⟩)) ∧
      ((codec.covarianceSha256 device request.covariance).1 =
          contentSha256 device request.covariance.content →
        (∀ item ∈ codec.factorCache, IsFactor device config item.1 item.2) →
          ∀ item ∈ after.factorCache, IsFactor device config item.1 item.2) := by
  cases hvalid : validateVectors device request.suh request.svh request.k request.n with
  | error failure =>
      rw [encode_refused hvalid]
      exact ⟨hbounded, rfl, fun _ => .inl, fun _ => id⟩
  | ok vectors =>
      obtain ⟨digests, hdigested, hmiddle, hitems⟩ :=
        covarianceSha256_after device hbounded request.covariance
      obtain ⟨hafterBounded, hbytes, hdigests, hfactors⟩ :=
        factorCovarianceCached_after device config hmiddle
          (device.asFloat32 request.covariance.content) vectors.1 request.bits
          (request.sigmaReg.getD config.sigmaReg)
          (codec.covarianceSha256 device request.covariance).1
      have hpair : codec.covarianceSha256 device request.covariance =
          ((codec.covarianceSha256 device request.covariance).1,
            { codec with covarianceDigests := digests }) := Prod.ext rfl hdigested
      rw [encode_eq hvalid hpair]
      refine ⟨hafterBounded, hbytes, ?_, ?_⟩
      · rw [hdigests]
        exact hitems
      · intro hdigest hold item hitem
        cases hfactors item hitem with
        | inl hkept => exact hold item hkept
        | inr hnew =>
            obtain ⟨size, hcheck, hkey, hfactor⟩ := hnew
            rw [hkey, hdigest]
            exact isFactor_of_factorize (shape_of_checkSource hcheck)
              (stored_of_validateVectors hvalid) hfactor

/-- With the right digest, a request gets the factor of its covariance. -/
theorem encode_result (hbounded : codec.Bounded)
    (hfactors : ∀ item ∈ codec.factorCache, IsFactor device config item.1 item.2)
    {request : Request (Argument C) S}
    (hdigest : (codec.covarianceSha256 device request.covariance).1 =
      contentSha256 device request.covariance.content) :
    (codec.encode device config request).1 = uncachedFactor device config request := by
  rw [uncachedFactor]
  cases hvalid : validateVectors device request.suh request.svh request.k request.n with
  | error failure =>
      rw [encode_refused hvalid]
      rfl
  | ok vectors =>
      obtain ⟨digests, hdigested, hmiddle, -⟩ :=
        covarianceSha256_after device hbounded request.covariance
      have hpair : codec.covarianceSha256 device request.covariance =
          (device.sha256 (device.asFloat32 request.covariance.content).bytes,
            { codec with covarianceDigests := digests }) := Prod.ext hdigest hdigested
      rw [encode_eq hvalid hpair]
      exact factorCovarianceCached_result hmiddle hfactors
        (stored_of_validateVectors hvalid) request.bits _

end Codec

/-! ## The remembered digests -/

/-- What an entry says of the object that it was made of: the digest is right
as long as the version is the same, and versions only grow. -/
structure Describes (device : Device C D S) (cached : DigestEntry D)
    (object : TensorObject C) : Prop where
  digest_eq : cached.version = object.version →
    cached.digest = Codec.contentSha256 device object.content
  version_le : ∀ old new, cached.version = some old → object.version = some new → old ≤ new

namespace World

/-- Every remembered digest is right, or can be seen to be old. -/
structure Fresh (device : Device C D S) (config : CodecConfig S) (world : World C D) :
    Prop where
  factors : ∀ item ∈ world.codec.factorCache, IsFactor device config item.1 item.2
  serial_lt : ∀ identity object, world.objects.get? identity = some object →
    object.serial < world.born
  reference_lt : ∀ item ∈ world.codec.covarianceDigests, item.2.reference < world.born
  describes : ∀ identity object cached, world.objects.get? identity = some object →
    (identity, cached) ∈ world.codec.covarianceDigests →
      cached.reference = object.serial → Describes device cached object

/-- A write to an inference tensor whose digest is remembered does not change
what the tensor holds. -/
def Noticed (device : Device C D S) (world : World C D) : Event C S → Prop
  | .write identity content _ =>
      ∀ object, world.objects.get? identity = some object → object.version = none →
        device.asFloat32 content = device.asFloat32 object.content ∨
          ∀ cached, world.codec.covarianceDigests.get? identity = some cached →
            cached.reference ≠ object.serial
  | _ => True

variable {world next : World C D}

theorem resolve_tensor {request : Request (Covariance C) S}
    {resolved : Request (Argument C) S} (hresolve : world.resolve request = .ok resolved)
    {identity : ℕ} {object : TensorObject C}
    (htensor : resolved.covariance = .tensor identity object) :
    world.objects.get? identity = some object := by
  rw [resolve] at hresolve
  cases hcovariance : request.covariance with
  | array content =>
      rw [hcovariance] at hresolve
      cases hresolve
      cases htensor
  | tensor named =>
      rw [hcovariance] at hresolve
      obtain ⟨found, hfound, hresolved⟩ := bind_eq_ok.mp hresolve
      cases hresolved
      cases htensor
      rw [World.object] at hfound
      split at hfound
      · cases hfound
      · cases hfound
        assumption

/-- In a fresh world the digest of a request is that of its covariance. -/
theorem Fresh.covarianceSha256_eq (hfresh : world.Fresh device config)
    {request : Request (Covariance C) S} {resolved : Request (Argument C) S}
    (hresolve : world.resolve request = .ok resolved) :
    (world.codec.covarianceSha256 device resolved.covariance).1 =
      Codec.contentSha256 device resolved.covariance.content := by
  apply Codec.covarianceSha256_result
  intro identity object cached htensor hget hreference hversion
  exact (hfresh.describes identity object cached (resolve_tensor hresolve htensor)
    (Dict.mem_of_get? hget) hreference).digest_eq hversion

theorem Fresh.create (hfresh : world.Fresh device config) (identity : ℕ) (content : C)
    (version : Option ℕ) :
    Fresh device config { world with
      objects := world.objects.set identity ⟨world.born, content, version⟩
      born := world.born + 1 } where
  factors := hfresh.factors
  serial_lt := by
    intro other object hget
    by_cases hother : other = identity
    · subst hother
      rw [Dict.get?_set_self] at hget
      cases hget
      exact Nat.lt_succ_self world.born
    · rw [Dict.get?_set_of_ne hother] at hget
      exact Nat.lt_succ_of_lt (hfresh.serial_lt other object hget)
  reference_lt item hitem := Nat.lt_succ_of_lt (hfresh.reference_lt item hitem)
  describes := by
    intro other object cached hget hcached hreference
    by_cases hother : other = identity
    · -- No entry is about an object that is made only now.
      subst hother
      rw [Dict.get?_set_self] at hget
      cases hget
      exact absurd hreference (Nat.ne_of_lt (hfresh.reference_lt _ hcached))
    · rw [Dict.get?_set_of_ne hother] at hget
      exact hfresh.describes other object cached hget hcached hreference

theorem Fresh.write (hfresh : world.Fresh device config) (hbounded : world.codec.Bounded)
    {identity : ℕ} {object : TensorObject C}
    (hobject : world.objects.get? identity = some object) {content : C} (growth : ℕ)
    (hnoticed : world.Noticed device (S := S) (.write identity content growth)) :
    Fresh device config { world with
      objects := world.objects.set identity
        ⟨object.serial, content, object.version.map (· + growth + 1)⟩ } where
  factors := hfresh.factors
  serial_lt := by
    intro other found hget
    by_cases hother : other = identity
    · subst hother
      rw [Dict.get?_set_self] at hget
      cases hget
      exact hfresh.serial_lt other object hobject
    · rw [Dict.get?_set_of_ne hother] at hget
      exact hfresh.serial_lt other found hget
  reference_lt := hfresh.reference_lt
  describes := by
    intro other found cached hget hcached hreference
    by_cases hother : other = identity
    · subst hother
      rw [Dict.get?_set_self] at hget
      cases hget
      have hold := hfresh.describes other object cached hobject hcached hreference
      cases hversion : object.version with
      | none =>
          -- The version does not tell, so the content must be the same.
          refine ⟨?_, (by rintro _ _ _ ⟨⟩)⟩
          intro hnone
          have hdigest := hold.digest_eq (hnone.trans hversion.symm)
          cases hnoticed object hobject hversion with
          | inl hsame =>
              rw [hdigest, Codec.contentSha256, Codec.contentSha256, ← hsame]
          | inr huncached =>
              exact absurd hreference (huncached cached
                (Dict.get?_of_mem hbounded.nodup_digests hcached))
      | some version =>
          have hle : ∀ old, cached.version = some old → old ≤ version :=
            fun old hcachedVersion => hold.version_le old version hcachedVersion hversion
          constructor
          · intro hnew
            have hlarge := hle (version + growth + 1) hnew
            omega
          · intro old new hcachedVersion hnew
            have hlarge := hle old hcachedVersion
            cases hnew
            change old ≤ version + growth + 1
            omega
    · rw [Dict.get?_set_of_ne hother] at hget
      exact hfresh.describes other found cached hget hcached hreference

theorem Fresh.free (hfresh : world.Fresh device config) (identity : ℕ) :
    Fresh device config { world with objects := world.objects.erase identity } := by
  have hlive : ∀ other object, (world.objects.erase identity).get? other = some object →
      world.objects.get? other = some object := by
    intro other object hget
    rw [Dict.erase, Dict.get?_filter fun key => decide (key ≠ identity)] at hget
    split at hget
    · exact hget
    · cases hget
  exact {
    factors := hfresh.factors
    serial_lt := fun other object hget => hfresh.serial_lt other object (hlive other object hget)
    reference_lt := hfresh.reference_lt
    describes := fun other object cached hget =>
      hfresh.describes other object cached (hlive other object hget) }

theorem fresh_start {factorCacheBytes digestCacheEntries : ℤ} {codec : Codec D}
    (hinit : Codec.init factorCacheBytes digestCacheEntries = .ok codec) :
    Fresh device config (start (C := C) codec) := by
  simp only [Codec.init, bind_eq_ok, require_eq_ok, pure_eq_ok] at hinit
  obtain ⟨-, -, -, -, rfl⟩ := hinit
  exact ⟨fun _ hitem => absurd hitem List.not_mem_nil, (by rintro _ _ ⟨⟩),
    fun _ hitem => absurd hitem List.not_mem_nil, (by rintro _ _ _ ⟨⟩)⟩

variable [DecidableEq D]

theorem Fresh.encode (hfresh : world.Fresh device config) (hbounded : world.codec.Bounded)
    {request : Request (Covariance C) S} {resolved : Request (Argument C) S}
    (hresolve : world.resolve request = .ok resolved) :
    Fresh device config { world with
      codec := (world.codec.encode device config resolved).2 } := by
  obtain ⟨-, -, hdigests, hfactors⟩ :=
    Codec.encode_after device config hbounded resolved
  refine ⟨hfactors (hfresh.covarianceSha256_eq hresolve) hfresh.factors, hfresh.serial_lt,
    ?_, ?_⟩
  · intro item hitem
    cases hdigests item hitem with
    | inl hold => exact hfresh.reference_lt item hold
    | inr hnew =>
        obtain ⟨identity, object, htensor, hitemEq⟩ := hnew
        rw [hitemEq]
        exact hfresh.serial_lt identity object (resolve_tensor hresolve htensor)
  · intro identity object cached hget hcached hreference
    cases hdigests _ hcached with
    | inl hold => exact hfresh.describes identity object cached hget hold hreference
    | inr hnew =>
        obtain ⟨named, found, htensor, hitemEq⟩ := hnew
        cases hitemEq
        have hfound := resolve_tensor hresolve htensor
        rw [hget] at hfound
        cases hfound
        refine ⟨fun _ => rfl, ?_⟩
        intro old new hold hnew
        have hsame : old = new := Option.some.inj (hold.symm.trans hnew)
        exact Nat.le_of_eq hsame

/-- One step keeps the sizes. -/
theorem step_bounded {event : Event C S} (hstep : step device config world event = .ok next)
    (hbounded : world.codec.Bounded) : next.codec.Bounded ∧
      next.codec.factorCacheBytes = world.codec.factorCacheBytes := by
  cases event with
  | create identity content version =>
      simp only [step, bind_eq_ok, pure_eq_ok] at hstep
      obtain ⟨-, -, rfl⟩ := hstep
      exact ⟨hbounded, rfl⟩
  | write identity content growth =>
      simp only [step, bind_eq_ok, pure_eq_ok] at hstep
      obtain ⟨-, -, rfl⟩ := hstep
      exact ⟨hbounded, rfl⟩
  | free identity =>
      simp only [step, bind_eq_ok, pure_eq_ok] at hstep
      obtain ⟨-, -, rfl⟩ := hstep
      exact ⟨hbounded, rfl⟩
  | encode request =>
      simp only [step, bind_eq_ok, pure_eq_ok] at hstep
      obtain ⟨resolved, -, rfl⟩ := hstep
      have hafter := Codec.encode_after device config hbounded resolved
      exact ⟨hafter.1, hafter.2.1⟩
  | clearCaches =>
      cases hstep
      exact ⟨Codec.bounded_clearCaches, rfl⟩

/-- One step keeps the digests right when its write, if it is one, is noticed. -/
theorem step_fresh {event : Event C S} (hstep : step device config world event = .ok next)
    (hnoticed : world.Noticed device event) (hbounded : world.codec.Bounded)
    (hfresh : world.Fresh device config) : next.Fresh device config := by
  cases event with
  | create identity content version =>
      simp only [step, bind_eq_ok, pure_eq_ok] at hstep
      obtain ⟨-, -, rfl⟩ := hstep
      exact hfresh.create identity content version
  | write identity content growth =>
      simp only [step, bind_eq_ok, pure_eq_ok] at hstep
      obtain ⟨object, hobject, rfl⟩ := hstep
      rw [World.object] at hobject
      split at hobject
      · cases hobject
      · cases hobject
        rename_i hget
        exact hfresh.write hbounded hget growth hnoticed
  | free identity =>
      simp only [step, bind_eq_ok, pure_eq_ok] at hstep
      obtain ⟨-, -, rfl⟩ := hstep
      exact hfresh.free identity
  | encode request =>
      simp only [step, bind_eq_ok, pure_eq_ok] at hstep
      obtain ⟨resolved, hresolve, rfl⟩ := hstep
      exact hfresh.encode hbounded hresolve
  | clearCaches =>
      cases hstep
      exact ⟨fun _ hitem => absurd hitem List.not_mem_nil, hfresh.serial_lt,
        fun _ hitem => absurd hitem List.not_mem_nil,
        fun _ _ _ _ hcached => absurd hcached List.not_mem_nil⟩

end World

/-- After any run the recorded size is the size of the stored factors and
within the limit.  When every write of the run to a remembered inference tensor
left its content as it was, a request gets the factor of what its covariance
holds now. -/
theorem factor_cache_transparent (device : Device C D S) (config : CodecConfig S)
    [DecidableEq D] {factorCacheBytes digestCacheEntries : ℤ} {codec : Codec D}
    (hinit : Codec.init factorCacheBytes digestCacheEntries = .ok codec)
    {events : List (Event C S)} {world : World C D}
    (hrun : runSteps (World.step device config) (World.start codec) events = .ok world) :
    (world.codec.factorCacheSize = Dict.total tensorNbytes world.codec.factorCache ∧
      world.codec.factorCacheSize ≤ factorCacheBytes) ∧
    (Along (World.step device config) (World.Noticed device) (World.start codec) events →
      ∀ request resolved, world.resolve request = .ok resolved →
        (world.codec.encode device config resolved).1 =
          uncachedFactor device config resolved) := by
  have hlimit : (codec.factorCacheBytes : ℤ) = factorCacheBytes := by
    simp only [Codec.init, bind_eq_ok, require_eq_ok, pure_eq_ok] at hinit
    obtain ⟨-, hnonneg, -, -, rfl⟩ := hinit
    exact Int.toNat_of_nonneg hnonneg
  have hbounded : world.codec.Bounded ∧
      world.codec.factorCacheBytes = codec.factorCacheBytes := by
    let invariant : World C D → Prop := fun state =>
      state.codec.Bounded ∧ state.codec.factorCacheBytes = codec.factorCacheBytes
    have hkeep : ∀ state event next, World.step device config state event = .ok next →
        invariant state → invariant next := by
      intro state event next hstep hstate
      have hnext := World.step_bounded hstep hstate.1
      exact ⟨hnext.1, hnext.2.trans hstate.2⟩
    exact runSteps_invariant hkeep hrun ⟨Codec.bounded_init hinit, rfl⟩
  refine ⟨⟨hbounded.1.size_eq, ?_⟩, ?_⟩
  · rw [hbounded.1.size_eq, ← hlimit, ← hbounded.2]
    exact Int.ofNat_le.mpr hbounded.1.size_le
  · intro halong request resolved hresolve
    have hfresh : world.codec.Bounded ∧ world.Fresh device config := by
      let invariant : World C D → Prop := fun state =>
        state.codec.Bounded ∧ state.Fresh device config
      have hkeep : ∀ state event next, World.Noticed device state event →
          World.step device config state event = .ok next →
            invariant state → invariant next := by
        intro state event next hnoticed hstep hstate
        exact ⟨(World.step_bounded hstep hstate.1).1,
          World.step_fresh hstep hnoticed hstate.1 hstate.2⟩
      exact runSteps_invariant_along hkeep hrun halong
        ⟨Codec.bounded_init hinit, World.fresh_start hinit⟩
    exact Codec.encode_result hfresh.1 hfresh.2.factors
      (hfresh.2.covarianceSha256_eq hresolve)

/-! ## An inference tensor -/

namespace Sample

/-- A covariance whose entries are all the same. -/
def constant (value : BitVec 32) : Tensor32 :=
  ⟨[128, 128], List.replicate 16384 value, by rw [List.length_replicate]; rfl⟩

/-- Exact on normal numbers. -/
def half (value : BitVec 32) : BitVec 16 :=
  BitVec.ofNat 16 (value.toNat / 2 ^ 31 * 2 ^ 15 +
    (value.toNat / 2 ^ 23 % 256 - 112) * 2 ^ 10 + value.toNat / 2 ^ 13 % 2 ^ 10)

def float (stored : BitVec 16) : BitVec 32 :=
  BitVec.ofNat 32 (stored.toNat / 2 ^ 15 * 2 ^ 31 +
    (stored.toNat / 2 ^ 10 % 32 + 112) * 2 ^ 23 + stored.toNat % 2 ^ 10 * 2 ^ 13)

theorem half_float (stored : BitVec 16) : half (float stored) = stored := by
  have hstored : stored.toNat < 2 ^ 16 := stored.isLt
  apply BitVec.eq_of_toNat_eq
  rw [half, float, BitVec.toNat_ofNat, BitVec.toNat_ofNat]
  omega

/-- Sigma is given by its hexadecimal text.  A constant covariance has its
entries for mean. -/
def numerics : Device Tensor32 (List UInt8) String where
  asFloat32 := id
  sha256 := id
  sha256_injective := Function.injective_id
  hex := id
  hex_injective := Function.injective_id
  half := half
  float := float
  half_float stored _ := half_float stored
  symmetrize := id
  diagonalMean h := h.values.headD 0
  damp _ _ := id
  scaleColumns _ := id
  scaleRows _ := id
  blockwisePreapplyHadR _ := id
  blockwisePreapplyHadL _ := id
  cholesky := some
  raiseDiagonal _ := id
  normalizeBlocks _ := .ok
  zeroDiagonal := id

def recipe : CodecConfig String where
  deviceType := "cuda"
  deviceIndex := some 0
  sigmaReg := "0x1.999999999999ap-6"
  factorizationPolicy := ldlFactorizationPolicy

def one : BitVec 32 := 0x3F800000

def request : Request (Covariance Tensor32) String where
  covariance := .tensor 0
  suh := List.replicate 128 one
  svh := List.replicate 16 one
  k := 128
  n := 16
  bits := 3
  sigmaReg := none

def resolved (object : TensorObject Tensor32) : Request (Argument Tensor32) String :=
  { request with covariance := .tensor 0 object }

set_option maxRecDepth 4000 in
theorem validateVectors_request :
    validateVectors numerics request.suh request.svh request.k request.n =
      .ok (request.suh, request.svh) := by
  decide

theorem validateVectors_eq (object : TensorObject Tensor32) :
    validateVectors numerics (resolved object).suh (resolved object).svh
        (resolved object).k (resolved object).n = .ok (request.suh, request.svh) :=
  validateVectors_request

theorem value_one : RoutedMass.Float32.value one = 1 := by
  have hmsb : one.msb = false := by decide
  have hexponent : RoutedMass.Float32.exponent one = 127 := by decide
  have hfraction : RoutedMass.Float32.fraction one = 0 := by decide
  rw [RoutedMass.Float32.value, hmsb, hexponent, hfraction]
  norm_num

theorem value_zero : RoutedMass.Float32.value 0 = 0 := by
  have hexponent : RoutedMass.Float32.exponent 0 = 0 := by decide
  have hfraction : RoutedMass.Float32.fraction 0 = 0 := by decide
  rw [RoutedMass.Float32.value, hexponent, hfraction]
  norm_num

theorem all_constant (property : BitVec 32 → Bool) (value : BitVec 32) :
    (constant value).values.all property = property value := by
  rw [constant, List.all_replicate, if_neg (by decide)]

theorem factorize_one (quantArgs : QuantArgs String) :
    factorize numerics recipe (constant one) request.suh 128 quantArgs =
      .ok (constant one) := by
  have hfinite : RoutedMass.Float32.isFinite one = true := by decide
  have hmean : ¬RoutedMass.Float32.value one ≤ 1 / 10 ^ 20 := by
    rw [value_one]
    norm_num
  rw [factorize]
  change (require ((constant one).values.all RoutedMass.Float32.isFinite = true ∧
    RoutedMass.Float32.isFinite one = true) _ >>= fun _ => _) = _
  rw [all_constant, require, if_pos ⟨hfinite, hfinite⟩]
  change (require (¬RoutedMass.Float32.value one ≤ 1 / 10 ^ 20) _ >>= fun _ => _) = _
  rw [require, if_pos hmean]
  rfl

theorem factorize_zero (quantArgs : QuantArgs String) :
    factorize numerics recipe (constant 0) request.suh 128 quantArgs =
      .error (.valueError "degenerate covariance; identity-H fallback is forbidden") := by
  have hfinite : RoutedMass.Float32.isFinite 0 = true := by decide
  have hmean : RoutedMass.Float32.value 0 ≤ 1 / 10 ^ 20 := by
    rw [value_zero]
    norm_num
  rw [factorize]
  change (require ((constant 0).values.all RoutedMass.Float32.isFinite = true ∧
    RoutedMass.Float32.isFinite 0 = true) _ >>= fun _ => _) = _
  rw [all_constant, require, if_pos ⟨hfinite, hfinite⟩]
  change (require (¬RoutedMass.Float32.value 0 ≤ 1 / 10 ^ 20) _ >>= fun _ => _) = _
  rw [require, if_neg (not_not_intro hmean)]
  rfl

theorem checkSource_eq (value : BitVec 32) :
    checkSource recipe (constant value) request.suh = .ok 128 := by
  have hlength : request.suh.length = 128 := List.length_replicate
  have hpolicy : recipe.factorizationPolicy = ldlFactorizationPolicy := rfl
  have hshape : (constant value).shape = [128, 128] := rfl
  rw [checkSource, require, if_pos hpolicy, hshape]
  simp only [require, hlength]
  rfl

theorem tensorNbytes_constant (value : BitVec 32) : tensorNbytes (constant value) = 65536 := by
  rw [tensorNbytes, constant, List.length_replicate]

def codec : Codec (List UInt8) where
  factorCacheBytes := 536870912
  digestCacheEntries := 64
  factorCache := []
  factorCacheSize := 0
  covarianceDigests := []
  factorCacheHits := 0
  factorCacheMisses := 0
  factorizations := 0

theorem init_eq : Codec.init 536870912 64 = .ok codec := rfl

def digest (value : BitVec 32) : List UInt8 := Codec.contentSha256 numerics (constant value)

def key : Key (List UInt8) :=
  Codec.factorCacheKey numerics recipe (digest one) request.suh recipe.sigmaReg 128

/-- The codec after it has served a tensor of ones. -/
def served (version : Option ℕ) : Codec (List UInt8) :=
  { codec with
    factorCache := [(key, constant one)]
    factorCacheSize := 65536
    covarianceDigests := [(0, ⟨0, version, digest one⟩)]
    factorCacheMisses := 1
    factorizations := 1 }

theorem encode_one (version : Option ℕ) :
    (codec.encode numerics recipe (resolved ⟨0, constant one, version⟩)).2 =
      served version := by
  let digested : Codec (List UInt8) :=
    { codec with covarianceDigests := [(0, ⟨0, version, digest one⟩)] }
  let counted : Codec (List UInt8) :=
    { digested with factorCacheMisses := 1, factorizations := 1 }
  have hdigest : codec.covarianceSha256 numerics
      (resolved ⟨0, constant one, version⟩).covariance = (digest one, digested) := rfl
  have hremember : counted.rememberFactor key (constant one) = .ok (served version) := by
    have hlimit : counted.factorCacheBytes = 536870912 := rfl
    have hfits : ¬536870912 < tensorNbytes (constant one) := by
      rw [tensorNbytes_constant]
      decide
    rw [Codec.rememberFactor, hlimit, if_neg (by decide), if_neg hfits]
    change (Dict.evict tensorNbytes Failure.keyError 536870912 [(key, constant one)]
      (0 - 0 + tensorNbytes (constant one)) >>= fun _ => _) = _
    rw [tensorNbytes_constant, Dict.evict, if_neg (by decide)]
    rfl
  have hmiss : digested.factorCache.get? key = none := rfl
  rw [Codec.encode_eq (validateVectors_eq _) hdigest]
  exact congrArg Prod.snd (Codec.factorCovarianceCached_miss (checkSource_eq one) hmiss
    (factorize_one _) hremember)

/-- A write in place to an inference tensor is not seen: the factor of ones is
served for zeros. -/
theorem encode_zero : ((served none).encode numerics recipe
    (resolved ⟨0, constant 0, none⟩)).1 =
      .ok (constant one, recipe.quantArgs 3 recipe.sigmaReg) := by
  have hdigest : (served none).covarianceSha256 numerics
      (resolved ⟨0, constant 0, none⟩).covariance = (digest one, served none) := rfl
  have hget : (served none).factorCache.get? key = some (constant one) := by
    change (if key = key then some (constant one) else none) = _
    exact if_pos rfl
  rw [Codec.encode_eq (validateVectors_eq _) hdigest]
  exact congrArg Prod.fst (Codec.factorCovarianceCached_hit (checkSource_eq 0) hget)

theorem uncachedFactor_zero (version : Option ℕ) :
    uncachedFactor numerics recipe (resolved ⟨0, constant 0, version⟩) =
      .error (.valueError "degenerate covariance; identity-H fallback is forbidden") := by
  apply bind_eq_error.mpr
  refine .inr ⟨_, validateVectors_eq _, ?_⟩
  apply bind_eq_error.mpr
  refine .inr ⟨128, checkSource_eq 0, ?_⟩
  apply bind_eq_error.mpr
  exact .inl (factorize_zero _)

/-- The tensor is made, serves a request and is then written over with zeros. -/
def events (version : Option ℕ) : List (Event Tensor32 String) :=
  [.create 0 (constant one) version, .encode request, .write 0 (constant 0) 0]

def created (version : Option ℕ) : World Tensor32 (List UInt8) :=
  ⟨[(0, ⟨0, constant one, version⟩)], 1, codec⟩

def encoded (version : Option ℕ) : World Tensor32 (List UInt8) :=
  ⟨[(0, ⟨0, constant one, version⟩)], 1, served version⟩

def written (version : Option ℕ) : World Tensor32 (List UInt8) :=
  ⟨[(0, ⟨0, constant 0, version.map (· + 0 + 1)⟩)], 1, served version⟩

theorem step_create (version : Option ℕ) :
    World.step numerics recipe (World.start codec) (.create 0 (constant one) version) =
      .ok (created version) := rfl

theorem step_encode (version : Option ℕ) :
    World.step numerics recipe (created version) (.encode request) =
      .ok (encoded version) :=
  congrArg (fun after => (Except.ok ⟨(created version).objects, 1, after⟩ :
    Except Impossible (World Tensor32 (List UInt8)))) (encode_one version)

theorem runSteps_events (version : Option ℕ) :
    runSteps (World.step numerics recipe) (World.start codec) (events version) =
      .ok (written version) := by
  apply runSteps_cons_eq_ok.mpr
  refine ⟨created version, step_create version, ?_⟩
  apply runSteps_cons_eq_ok.mpr
  exact ⟨encoded version, step_encode version, rfl⟩

/-- The version of a plain tensor shows the write. -/
theorem along_events (version : ℕ) :
    Along (World.step numerics recipe) (World.Noticed numerics) (World.start codec)
      (events (some version)) := by
  refine ⟨trivial, fun next hnext => ⟨trivial, fun later hlater => ⟨?_, fun _ _ => trivial⟩⟩⟩
  have hcreated := Except.ok.inj ((step_create (some version)).symm.trans hnext)
  rw [← hcreated] at hlater
  have hencoded := Except.ok.inj ((step_encode (some version)).symm.trans hlater)
  intro object hobject hversion
  rw [← hencoded] at hobject
  cases hobject
  cases hversion

end Sample

/-- The cache serves an inference tensor that was written in place with the
factor of what it held before. -/
theorem factor_cache_stale : ∃ world resolved,
    runSteps (World.step Sample.numerics Sample.recipe) (World.start Sample.codec)
        (Sample.events none) = .ok world ∧
      world.resolve Sample.request = .ok resolved ∧
      (world.codec.encode Sample.numerics Sample.recipe resolved).1 =
        .ok (Sample.constant Sample.one,
          Sample.recipe.quantArgs 3 Sample.recipe.sigmaReg) ∧
      uncachedFactor Sample.numerics Sample.recipe resolved =
        .error (.valueError "degenerate covariance; identity-H fallback is forbidden") :=
  ⟨Sample.written none, Sample.resolved ⟨0, Sample.constant 0, none⟩,
    Sample.runSteps_events none, rfl, Sample.encode_zero, Sample.uncachedFactor_zero none⟩

theorem factor_cache_transparent_plain : ∃ world : World Tensor32 (List UInt8),
    runSteps (World.step Sample.numerics Sample.recipe) (World.start Sample.codec)
        (Sample.events (some 0)) = .ok world ∧
      (world.codec.factorCacheSize = Dict.total tensorNbytes world.codec.factorCache ∧
        world.codec.factorCacheSize ≤ 536870912) ∧
      ∀ request resolved, world.resolve request = .ok resolved →
        (world.codec.encode Sample.numerics Sample.recipe resolved).1 =
          uncachedFactor Sample.numerics Sample.recipe resolved := by
  have htransparent := factor_cache_transparent Sample.numerics Sample.recipe Sample.init_eq
    (Sample.runSteps_events (some 0))
  exact ⟨Sample.written (some 0), Sample.runSteps_events (some 0), htransparent.1,
    htransparent.2 (Sample.along_events 0)⟩

end GlmFlash.Encoder.FactorCache
