import GlmFlash.Encoder.RoutedMass
import GlmFlash.Library.Runs
import GlmFlash.Library.UseOrder
import GlmFlash.Safetensors.Reader

/-!
# The cache of covariance factors

`R10TrellisCodec` keeps two dictionaries.  One remembers the digest of a
covariance tensor under the tensor's `id`, together with a weak reference and
the tensor's version; the other keeps the factors under the digest of the
covariance, within a limit of bytes.
-/

namespace GlmFlash.Encoder.FactorCache

open GlmFlash.Library

inductive Failure where
  | valueError (message : String)
  | assertionError
  | linAlgError
  | keyError
  deriving DecidableEq, Repr

def ldlFactorizationPolicy : String := "cuda-only-no-oom-fallback-v1"

def hadK : ℕ := 128

/-! ## Tensors -/

structure Tensor32 where
  shape : List ℕ
  values : List (BitVec 32)
  sized : values.length = shape.prod
  deriving DecidableEq

/-- `_tensor_bytes` -/
def Tensor32.bytes (tensor : Tensor32) : List UInt8 :=
  tensor.values.flatMap fun value => Safetensors.packBytes 4 value.toNat

/-- `value.numel() * value.element_size()` -/
def tensorNbytes (tensor : Tensor32) : ℕ := tensor.values.length * 4

def isZero32 (value : BitVec 32) : Bool := value.extractLsb' 0 31 = 0

def isFinite16 (value : BitVec 16) : Bool := value.extractLsb' 10 5 ≠ 31

def isZero16 (value : BitVec 16) : Bool := value.extractLsb' 0 15 = 0

/-- What the codec uses of torch, of hashlib and of its numeric core.  `C` is
what a tensor of any dtype holds, `D` are the digests and `S` the values of
sigma. -/
structure Device (C D S : Type) where
  asFloat32 : C → Tensor32
  sha256 : List UInt8 → D
  sha256_injective : Function.Injective sha256
  hex : S → String
  hex_injective : Function.Injective hex
  half : BitVec 32 → BitVec 16
  float : BitVec 16 → BitVec 32
  half_float : ∀ stored, isFinite16 stored = true → half (float stored) = stored
  /-- `(h + h.T) * 0.5` -/
  symmetrize : Tensor32 → Tensor32
  /-- `h.diagonal().mean()` -/
  diagonalMean : Tensor32 → BitVec 32
  /-- `diagonal.add_(float(sigma_reg) * mean)` -/
  damp : S → BitVec 32 → Tensor32 → Tensor32
  scaleColumns : List (BitVec 32) → Tensor32 → Tensor32
  scaleRows : List (BitVec 32) → Tensor32 → Tensor32
  blockwisePreapplyHadR : ℕ → Tensor32 → Tensor32
  blockwisePreapplyHadL : ℕ → Tensor32 → Tensor32
  /-- Without a result: `LinAlgError`. -/
  cholesky : Tensor32 → Option Tensor32
  /-- `h.diagonal().add_(2.0 * sigma_reg * h.diagonal().mean())` -/
  raiseDiagonal : S → Tensor32 → Tensor32
  /-- The columns of each block times the inverse of its diagonal block. -/
  normalizeBlocks : ℕ → Tensor32 → Except Failure Tensor32
  /-- `factor[indices, indices] = 0` -/
  zeroDiagonal : Tensor32 → Tensor32

structure CodecConfig (S : Type) where
  deviceType : String
  deviceIndex : Option ℕ
  sigmaReg : S
  factorizationPolicy : String

variable {C D S : Type}

/-- `str(self.config.device)` -/
def CodecConfig.device (config : CodecConfig S) : String :=
  match config.deviceIndex with
  | none => config.deviceType
  | some index => config.deviceType ++ ":" ++ toString index

structure QuantArgs (S : Type) where
  bits : ℤ
  devices : List ℕ
  mcg : Bool
  sigmaReg : S
  bufSizeK : ℕ
  deriving DecidableEq

/-- `_quant_args` -/
def CodecConfig.quantArgs (config : CodecConfig S) (bits : ℤ) (sigmaReg : S) :
    QuantArgs S where
  bits := bits
  devices := [config.deviceIndex.getD 0]
  mcg := true
  sigmaReg := sigmaReg
  bufSizeK := 128

variable (device : Device C D S) (config : CodecConfig S)

/-! ## The factor without a cache -/

/-- `_validate_vectors` -/
def validateVectors (suh svh : List (BitVec 32)) (k n : ℕ) :
    Except Failure (List (BitVec 32) × List (BitVec 32)) := do
  require (suh.length = k ∧ svh.length = n)
    (.valueError (s!"rotation shape mismatch: suh=({suh.length},) vs {k}, " ++
      s!"svh=({svh.length},) vs {n}"))
  require (suh.all RoutedMass.Float32.isFinite ∧ svh.all RoutedMass.Float32.isFinite)
    (.valueError "rotation vectors must be finite")
  require (¬(suh.any isZero32 ∨ svh.any isZero32))
    (.valueError "zero rotation/scale entry is not invertible")
  let suStored := suh.map device.half
  let svStored := svh.map device.half
  require (suStored.all isFinite16 ∧ svStored.all isFinite16)
    (.valueError "rotation vector overflows its stored FP16 representation")
  require (¬(suStored.any isZero16 ∨ svStored.any isZero16))
    (.valueError "rotation vector underflows its stored FP16 representation")
  return (suStored.map device.float, svStored.map device.float)

/-- The loop around the Cholesky factorization. -/
def choleskyLoop (sigmaReg : S) : ℕ → Tensor32 → Except Failure Tensor32
  | retries, h =>
      match device.cholesky h with
      | some factor => .ok factor
      | none =>
          match retries with
          | 0 => .error .linAlgError
          | retries + 1 => choleskyLoop sigmaReg retries (device.raiseDiagonal sigmaReg h)

/-- `_cuda_only_block_ldl_without_proxy` -/
def cudaOnlyBlockLdlWithoutProxy (h : Tensor32) (size block : ℕ)
    (quantArgs : QuantArgs S) : Except Failure Tensor32 := do
  require (config.deviceType = "cuda")
    (.valueError "production LDL factorization is pinned to CUDA")
  require (size % block = 0) (.valueError "LDL dimension is not divisible by its block")
  let factor ← choleskyLoop device quantArgs.sigmaReg 10 h
  device.normalizeBlocks block factor

/-- What `_factor_covariance_cached` checks before it looks for a factor. -/
def checkSource (source : Tensor32) (su : List (BitVec 32)) : Except Failure ℕ := do
  require (config.factorizationPolicy = ldlFactorizationPolicy)
    (.valueError "LDL factorization policy differs from the sealed recipe")
  match source.shape with
  | [rows, columns] =>
      require (rows = columns ∧ rows = su.length)
        (.valueError "full covariance shape does not match tensor K")
      return rows
  | _ => .error (.valueError "full covariance shape does not match tensor K")

/-- What it does when it has no factor. -/
def factorize (source : Tensor32) (su : List (BitVec 32)) (size : ℕ)
    (quantArgs : QuantArgs S) : Except Failure Tensor32 := do
  let h := device.symmetrize source
  let mean := device.diagonalMean h
  require (h.values.all RoutedMass.Float32.isFinite ∧ RoutedMass.Float32.isFinite mean)
    (.valueError "non-finite covariance")
  require (¬RoutedMass.Float32.value mean ≤ 1 / 10 ^ 20)
    (.valueError "degenerate covariance; identity-H fallback is forbidden")
  let h := device.scaleColumns su (device.damp quantArgs.sigmaReg mean h)
  require (size % hadK = 0) .assertionError
  let h := device.scaleRows su (device.blockwisePreapplyHadR hadK h)
  let h := device.blockwisePreapplyHadL hadK h
  let factor ← cudaOnlyBlockLdlWithoutProxy device config h size 16 quantArgs
  return device.zeroDiagonal factor

/-! ## The codec -/

/-- The key of a factor. -/
structure Key (D : Type) where
  covarianceSha256 : D
  storedSuSha256 : D
  sigmaReg : String
  size : ℕ
  device : String
  factorizationPolicy : String
  deriving DecidableEq

/-- What is remembered about a tensor: the object that a weak reference leads
to, its version then, and the digest of what it held then. -/
structure DigestEntry (D : Type) where
  reference : ℕ
  version : Option ℕ
  digest : D

structure Codec (D : Type) where
  factorCacheBytes : ℕ
  digestCacheEntries : ℕ
  factorCache : Dict (Key D) Tensor32
  factorCacheSize : ℤ
  covarianceDigests : Dict ℕ (DigestEntry D)
  factorCacheHits : ℕ
  factorCacheMisses : ℕ
  factorizations : ℕ

/-- `__init__` -/
def Codec.init (factorCacheBytes digestCacheEntries : ℤ) : Except Failure (Codec D) := do
  require (0 ≤ factorCacheBytes)
    (.valueError "factor_cache_bytes must be nonnegative")
  require (0 ≤ digestCacheEntries)
    (.valueError "digest_cache_entries must be nonnegative")
  return {
    factorCacheBytes := factorCacheBytes.toNat
    digestCacheEntries := digestCacheEntries.toNat
    factorCache := []
    factorCacheSize := 0
    covarianceDigests := []
    factorCacheHits := 0
    factorCacheMisses := 0
    factorizations := 0 }

def Codec.clearCaches (codec : Codec D) : Codec D :=
  { codec with factorCache := [], factorCacheSize := 0, covarianceDigests := [] }

/-- A live tensor object.  The serial number says which object it is; the
version is `None` on an inference tensor. -/
structure TensorObject (C : Type) where
  serial : ℕ
  content : C
  version : Option ℕ

/-- The covariance of a request: a tensor with its `id`, or an array that is no
tensor. -/
inductive Argument (C : Type) where
  | tensor (identity : ℕ) (object : TensorObject C)
  | array (content : C)

def Argument.content : Argument C → C
  | .tensor _ object => object.content
  | .array content => content

namespace Codec

variable [DecidableEq D] (codec : Codec D)

/-- The digest of what a tensor holds, with nothing remembered. -/
def contentSha256 (content : C) : D := device.sha256 (device.asFloat32 content).bytes

/-- `_covariance_sha256` -/
def covarianceSha256 (covariance : Argument C) : D × Codec D :=
  match covariance with
  | .array content => (contentSha256 device content, codec)
  | .tensor identity object =>
      let digest := contentSha256 device object.content
      let remembered : Codec D :=
        { codec with
          covarianceDigests := Dict.trim codec.digestCacheEntries
            ((codec.covarianceDigests.set identity
              ⟨object.serial, object.version, digest⟩).moveToEnd identity) }
      if codec.digestCacheEntries = 0 then (digest, codec)
      else
        match codec.covarianceDigests.get? identity with
        | none => (digest, remembered)
        | some cached =>
            -- The tensor is alive, so the reference leads to it if it is its own.
            if cached.reference = object.serial ∧ cached.version = object.version then
              (cached.digest, { codec with
                covarianceDigests := codec.covarianceDigests.moveToEnd identity })
            else (digest, remembered)

/-- `_factor_cache_key` -/
def factorCacheKey (covarianceSha256 : D) (su : List (BitVec 32)) (sigmaReg : S)
    (size : ℕ) : Key D where
  covarianceSha256 := covarianceSha256
  storedSuSha256 := device.sha256
    ((su.map device.half).flatMap fun stored => Safetensors.packBytes 2 stored.toNat)
  sigmaReg := device.hex sigmaReg
  size := size
  device := config.device
  factorizationPolicy := config.factorizationPolicy

/-- The bytes of the factor that has the key. -/
def incumbentNbytes (key : Key D) : ℤ :=
  match codec.factorCache.get? key with
  | none => 0
  | some incumbent => tensorNbytes incumbent

/-- `_remember_factor` -/
def rememberFactor (key : Key D) (factor : Tensor32) : Except Failure (Codec D) :=
  if codec.factorCacheBytes = 0 then .ok codec
  else if codec.factorCacheBytes < tensorNbytes factor then .ok codec
  else do
    let (factorCache, factorCacheSize) ← Dict.evict tensorNbytes Failure.keyError
      codec.factorCacheBytes (codec.factorCache.erase key ++ [(key, factor)])
      (codec.factorCacheSize - codec.incumbentNbytes key + tensorNbytes factor)
    return { codec with
      factorCache := factorCache
      factorCacheSize := factorCacheSize }

/-- `_factor_covariance_cached`, with the codec it leaves behind. -/
def factorCovarianceCached (source : Tensor32) (su : List (BitVec 32)) (bits : ℤ)
    (sigmaReg : S) (covarianceSha256 : D) :
    Except Failure (Tensor32 × QuantArgs S) × Codec D :=
  let quantArgs := config.quantArgs bits sigmaReg
  match checkSource config source su with
  | .error failure => (.error failure, codec)
  | .ok size =>
      let key := factorCacheKey device config covarianceSha256 su sigmaReg size
      match codec.factorCache.get? key with
      | some factor =>
          (.ok (factor, quantArgs), { codec with
            factorCacheHits := codec.factorCacheHits + 1
            factorCache := codec.factorCache.moveToEnd key })
      | none =>
          let missed := { codec with factorCacheMisses := codec.factorCacheMisses + 1 }
          match factorize device config source su size quantArgs with
          | .error failure => (.error failure, missed)
          | .ok factor =>
              let counted := { missed with factorizations := missed.factorizations + 1 }
              match counted.rememberFactor key factor with
              | .error failure => (.error failure, counted)
              | .ok after => (.ok (factor, quantArgs), after)

end Codec

/-- The part of an encode request that its factor depends on. -/
structure Request (Covariance S : Type) where
  covariance : Covariance
  suh : List (BitVec 32)
  svh : List (BitVec 32)
  k : ℕ
  n : ℕ
  bits : ℤ
  sigmaReg : Option S

/-- The factor of one request of `encode_group`. -/
def Codec.encode [DecidableEq D] (codec : Codec D) (request : Request (Argument C) S) :
    Except Failure (Tensor32 × QuantArgs S) × Codec D :=
  match validateVectors device request.suh request.svh request.k request.n with
  | .error failure => (.error failure, codec)
  | .ok (su, _) =>
      let (covarianceSha256, codec) := codec.covarianceSha256 device request.covariance
      codec.factorCovarianceCached device config
        (device.asFloat32 request.covariance.content) su request.bits
        (request.sigmaReg.getD config.sigmaReg) covarianceSha256

/-- The factor that a codec without caches computes of what the covariance
holds now. -/
def uncachedFactor (request : Request (Argument C) S) :
    Except Failure (Tensor32 × QuantArgs S) := do
  let (su, _) ← validateVectors device request.suh request.svh request.k request.n
  let source := device.asFloat32 request.covariance.content
  let quantArgs := config.quantArgs request.bits (request.sigmaReg.getD config.sigmaReg)
  let size ← checkSource config source su
  let factor ← factorize device config source su size quantArgs
  return (factor, quantArgs)

/-! ## The program around the codec -/

/-- The covariance of a request by name: the tensor at an `id`, or an array. -/
inductive Covariance (C : Type) where
  | tensor (identity : ℕ)
  | array (content : C)

structure World (C D : Type) where
  objects : Dict ℕ (TensorObject C)
  /-- The serial number of the next object. -/
  born : ℕ
  codec : Codec D

inductive Event (C S : Type) where
  | create (identity : ℕ) (content : C) (version : Option ℕ)
  /-- A write in place; the version of a plain tensor grows by one or more. -/
  | write (identity : ℕ) (content : C) (growth : ℕ)
  | free (identity : ℕ)
  | encode (request : Request (Covariance C) S)
  | clearCaches

/-- What cannot happen: two live objects at one `id`, and using none. -/
inductive Impossible where
  | identityTaken
  | noObject
  deriving DecidableEq, Repr

namespace World

variable [DecidableEq D] (world : World C D)

def object (identity : ℕ) : Except Impossible (TensorObject C) :=
  match world.objects.get? identity with
  | none => .error .noObject
  | some object => .ok object

/-- The request with the object that its covariance is. -/
def resolve (request : Request (Covariance C) S) :
    Except Impossible (Request (Argument C) S) :=
  match request.covariance with
  | .array content => .ok { request with covariance := .array content }
  | .tensor identity => do
      let object ← world.object identity
      return { request with covariance := .tensor identity object }

def step (world : World C D) : Event C S → Except Impossible (World C D)
  | .create identity content version => do
      require (identity ∉ world.objects.keys) Impossible.identityTaken
      return { world with
        objects := world.objects.set identity ⟨world.born, content, version⟩
        born := world.born + 1 }
  | .write identity content growth => do
      let object ← world.object identity
      return { world with
        objects := world.objects.set identity
          ⟨object.serial, content, object.version.map (· + growth + 1)⟩ }
  | .free identity => do
      let _ ← world.object identity
      return { world with objects := world.objects.erase identity }
  | .encode request => do
      let resolved ← world.resolve request
      return { world with codec := (world.codec.encode device config resolved).2 }
  | .clearCaches => .ok { world with codec := world.codec.clearCaches }

/-- A program that has just made its codec. -/
def start (codec : Codec D) : World C D := ⟨[], 0, codec⟩

end World

end GlmFlash.Encoder.FactorCache
