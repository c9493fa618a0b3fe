import GlmFlash.Library.Bisection
import GlmFlash.Library.CeilDiv
import GlmFlash.Library.Outcome
import Mathlib.Data.List.MinMax
import Mathlib.Data.Prod.Lex
import Mathlib.Algebra.GCDMonoid.Nat

/-!
# Capacity plans

How many tokens of cache fit in the memory of a rank, for one layout in closed
form and for a sum of components by search, and the plan that a set of devices
allows for a target.
-/

namespace GlmFlash.Capacity

open GlmFlash.Library

inductive Failure where
  | valueError (message : String)
  deriving DecidableEq, Repr

def requirePositive (name : String) (value : ℕ) : Except Failure Unit :=
  require (1 ≤ value) (.valueError (name ++ " must be a positive integer"))

def requireNonNegative (name : String) (value : ℤ) : Except Failure Unit :=
  require (0 ≤ value) (.valueError (name ++ " must be a non-negative integer"))

/-! ## One layout -/

structure KVLayout where
  cacheLayers : ℕ
  recordBytesPerTokenLayer : ℕ
  dcpSize : ℕ
  blockTokens : ℕ
  deriving DecidableEq

namespace KVLayout

variable (layout : KVLayout)

def validate : Except Failure Unit := do
  requirePositive "cache_layers" layout.cacheLayers
  requirePositive "record_bytes_per_token_layer" layout.recordBytesPerTokenLayer
  requirePositive "dcp_size" layout.dcpSize
  requirePositive "block_tokens" layout.blockTokens

def localBlocks (globalTokens : ℤ) : Except Failure ℕ := do
  layout.validate
  requireNonNegative "global_tokens" globalTokens
  let globalBlocks := cdiv globalTokens.toNat layout.blockTokens
  return cdiv globalBlocks layout.dcpSize

def bytesPerRank (globalTokens : ℤ) : Except Failure ℕ := do
  let localBlocks ← layout.localBlocks globalTokens
  return localBlocks * layout.blockTokens * layout.cacheLayers *
    layout.recordBytesPerTokenLayer

def globalTokensFromRankBytes (rankBytes : ℤ) : Except Failure ℕ := do
  layout.validate
  requireNonNegative "rank_bytes" rankBytes
  let oneLocalBlock :=
    layout.blockTokens * layout.cacheLayers * layout.recordBytesPerTokenLayer
  let localBlocks := rankBytes.toNat / oneLocalBlock
  return localBlocks * layout.dcpSize * layout.blockTokens

end KVLayout

/-! ## Several components -/

structure KVComponent where
  name : String
  cacheLayers : ℕ
  recordBytesPerTokenLayer : ℕ
  shardSize : ℕ
  blockTokens : ℕ
  deriving DecidableEq

namespace KVComponent

variable (component : KVComponent)

def validate : Except Failure Unit := do
  require (component.name ≠ "") (.valueError "KV component name must be nonempty")
  requirePositive "KV component cache_layers" component.cacheLayers
  requirePositive "KV component record_bytes_per_token_layer"
    component.recordBytesPerTokenLayer
  requirePositive "KV component shard_size" component.shardSize
  requirePositive "KV component block_tokens" component.blockTokens

/-- `bytes_per_rank`, once the component is valid -/
def bytesPerRank (globalTokens : ℕ) : ℕ :=
  let blocks := cdiv (cdiv globalTokens component.blockTokens) component.shardSize
  blocks * component.blockTokens * component.cacheLayers *
    component.recordBytesPerTokenLayer

end KVComponent

structure CompositeKVLayout where
  components : List KVComponent
  deploymentRanks : ℕ
  deriving DecidableEq

namespace CompositeKVLayout

variable (layout : CompositeKVLayout)

/-- The loop of `validate`, with the names seen. -/
def validateComponents (names : List String) :
    List KVComponent → Except Failure Unit
  | [] => .ok ()
  | component :: components => do
      component.validate
      require (component.name ∉ names)
        (.valueError "KV component names must be unique")
      require (layout.deploymentRanks % component.shardSize = 0)
        (.valueError "component shard_size must divide deployment_ranks")
      validateComponents (component.name :: names) components

def validate : Except Failure Unit := do
  require (1 ≤ layout.deploymentRanks) (.valueError "deployment_ranks must be positive")
  require (layout.components ≠ [])
    (.valueError "composite KV layout requires at least one component")
  layout.validateComponents [] layout.components

/-- The sum of `bytes_per_rank`, once the layout is valid. -/
def bytes (globalTokens : ℕ) : ℕ :=
  (layout.components.map fun component => component.bytesPerRank globalTokens).sum

def bytesPerRank (globalTokens : ℤ) : Except Failure ℕ := do
  layout.validate
  requireNonNegative "global_tokens" globalTokens
  return layout.bytes globalTokens.toNat

/-- `math.lcm` of the tokens that the shards of a component hold in one block each -/
def quantum : ℕ :=
  (layout.components.map fun component =>
    component.blockTokens * component.shardSize).foldr Nat.lcm 1

/-- The two loops and the rounding, `none` where the rounds do not suffice. -/
def search (rounds : ℕ) (rankBytes : ℕ) : Option ℕ := do
  let high ← doubling (fun tokens => layout.bytes tokens ≤ rankBytes) rounds 1
  let low ← bisect (fun tokens => layout.bytes tokens ≤ rankBytes) rounds 0 high
  return low / layout.quantum * layout.quantum

def globalTokensFromRankBytes (rounds : ℕ) (rankBytes : ℤ) :
    Option (Except Failure ℕ) :=
  match layout.validate with
  | .error failure => some (.error failure)
  | .ok _ =>
      match requireNonNegative "rank_bytes" rankBytes with
      | .error failure => some (.error failure)
      | .ok _ => (layout.search rounds rankBytes.toNat).map .ok

end CompositeKVLayout

/-! ## Devices -/

/-- What is used of the floats that say how much of a memory is used. -/
structure Utilization (U : Type) where
  isFinite : U → Bool
  /-- above zero and at most one -/
  inUnit : U → Bool
  /-- the floor of a product -/
  floorProduct : ℤ → U → ℤ

structure DeviceBudget (U : Type) where
  device : ℤ
  totalHbmBytes : ℤ
  startupFreeBytes : ℤ
  utilization : U
  weightBytes : ℤ
  nonWeightNonKvBytes : ℤ
  safetyMarginBytes : ℤ

namespace DeviceBudget

variable {U : Type} (ops : Utilization U) (row : DeviceBudget U)

def validate : Except Failure Unit := do
  requireNonNegative "device" row.device
  requireNonNegative "total_hbm_bytes" row.totalHbmBytes
  requireNonNegative "startup_free_bytes" row.startupFreeBytes
  requireNonNegative "weight_bytes" row.weightBytes
  requireNonNegative "non_weight_non_kv_bytes" row.nonWeightNonKvBytes
  requireNonNegative "safety_margin_bytes" row.safetyMarginBytes
  require (ops.isFinite row.utilization) (.valueError "utilization must be finite")
  require (ops.inUnit row.utilization) (.valueError "utilization must be in (0, 1]")

def usableBytes : ℤ :=
  min (ops.floorProduct row.totalHbmBytes row.utilization) row.startupFreeBytes

def kvAvailableBytes : ℤ :=
  max 0 (row.usableBytes ops - row.weightBytes - row.nonWeightNonKvBytes -
    row.safetyMarginBytes)

end DeviceBudget

/-! ## Plans -/

inductive Layout where
  | single (layout : KVLayout)
  | composite (layout : CompositeKVLayout)

namespace Layout

def validate : Layout → Except Failure Unit
  | single layout => layout.validate
  | composite layout => layout.validate

def dcpSize : Layout → ℕ
  | single layout => layout.dcpSize
  | composite layout => layout.deploymentRanks

def bytesPerRank : Layout → ℤ → Except Failure ℕ
  | single layout => layout.bytesPerRank
  | composite layout => layout.bytesPerRank

def globalTokensFromRankBytes (rounds : ℕ) : Layout → ℤ → Option (Except Failure ℕ)
  | single layout, rankBytes => some (layout.globalTokensFromRankBytes rankBytes)
  | composite layout, rankBytes => layout.globalTokensFromRankBytes rounds rankBytes

end Layout

structure RuntimeCapacityPlan (U : Type) where
  layout : Layout
  devices : List (DeviceBudget U)
  targetTokens : ℤ
  limitingDevice : ℤ
  projectedTokens : ℕ
  targetKvBytesPerRank : ℕ
  requiredAdditionalBytesByDevice : List ℤ
  maximumWeightBytesForTargetByDevice : List ℤ
  feasible : Bool

variable {U : Type}

/-- The index of the smallest capacity, the first of equal ones. -/
def limitingIndex (capacities : List ℕ) : Option ℕ :=
  (List.range capacities.length).argmin fun index =>
    toLex (capacities.getD index 0, index)

/-- The capacities of the rows, `none` while some search still runs. -/
def capacities (ops : Utilization U) (layout : Layout) (rounds : ℕ) :
    List (DeviceBudget U) → Option (Except Failure (List ℕ))
  | [] => some (.ok [])
  | row :: rows => do
      let first ← layout.globalTokensFromRankBytes rounds (row.kvAvailableBytes ops)
      match first with
      | .error failure => return .error failure
      | .ok first => do
          let rest ← capacities ops layout rounds rows
          return rest.map (first :: ·)

/-- The checks of `build_capacity_plan` before it computes. -/
def checkPlan (ops : Utilization U) (layout : Layout) (rows : List (DeviceBudget U))
    (targetTokens : ℤ) : Except Failure Unit := do
  layout.validate
  require (rows ≠ []) (.valueError "at least one device budget is required")
  require (rows.length = layout.dcpSize)
    (.valueError "device count must equal dcp_size for this conservative planner")
  require (1 ≤ targetTokens) (.valueError "target_tokens must be a positive integer")
  require ((rows.map DeviceBudget.device).insertionSort (fun left right => left ≤ right) =
      (List.range rows.length).map (↑))
    (.valueError "device IDs must be contiguous from zero")
  rows.forM fun row => row.validate ops

def buildCapacityPlan (ops : Utilization U) (rounds : ℕ) (layout : Layout)
    (rows : List (DeviceBudget U)) (targetTokens : ℤ) :
    Option (Except Failure (RuntimeCapacityPlan U)) :=
  match checkPlan ops layout rows targetTokens with
  | .error failure => some (.error failure)
  | .ok _ => do
      let capacities ← capacities ops layout rounds rows
      return do
        let capacities ← capacities
        let targetKv ← layout.bytesPerRank targetTokens
        match limitingIndex capacities with
        | none => .error (.valueError "min() arg is an empty sequence")
        | some index =>
            let shortfalls := rows.map fun row =>
              max 0 ((targetKv : ℤ) - row.kvAvailableBytes ops)
            return {
              layout := layout
              devices := rows
              targetTokens := targetTokens
              limitingDevice := ((rows.map DeviceBudget.device)[index]?).getD 0
              projectedTokens := capacities.getD index 0
              targetKvBytesPerRank := targetKv
              requiredAdditionalBytesByDevice := shortfalls
              maximumWeightBytesForTargetByDevice := rows.map fun row =>
                max 0 (row.usableBytes ops - row.nonWeightNonKvBytes -
                  row.safetyMarginBytes - targetKv)
              feasible := shortfalls.all fun shortfall => shortfall = 0 }

end GlmFlash.Capacity
