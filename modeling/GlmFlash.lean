import GlmFlash.Library.CeilDiv
import GlmFlash.Library.Outcome
import GlmFlash.Library.Tables
import GlmFlash.Cache.BlockPool
import GlmFlash.Cache.PoolLedger
import GlmFlash.Cache.Manager
import GlmFlash.Cache.ManagerLedger
import GlmFlash.Cache.KVCacheManager
import GlmFlash.Cache.Ledger
import GlmFlash.Cache.Driver
import GlmFlash.Cache.Admission
import GlmFlash.Cache.Reserve
import GlmFlash.Cache.PoolCapacity
import GlmFlash.Cache.ManagerCapacity
import GlmFlash.Cache.PrefixCapacity
import GlmFlash.Cache.Capacity
import GlmFlash.Cache.CapacityRuns
import GlmFlash.Cache.Holdings
import GlmFlash.Sched.FenceRuns
import GlmFlash.Sched.Chunk
import GlmFlash.Sched.Throttle
import GlmFlash.Sched.Cadence
import GlmFlash.Cache.HashIncrement
import GlmFlash.Cache.HashIsolation
import GlmFlash.Cache.HitAgreement
import GlmFlash.Cache.PoolRuns
import GlmFlash.Worker.SplitCaches
import GlmFlash.Worker.TokenBookkeeping
import GlmFlash.Alloc.GlobalOptimum
import GlmFlash.Alloc.CoupledOptimum
import GlmFlash.Encode.Completion
import GlmFlash.Campaign.RecoveryRuns
import GlmFlash.Checkpoint.NoWeightLost
import GlmFlash.Codec.Packing
import GlmFlash.Safetensors.RoundTrip
import GlmFlash.Encoder.SequentialOptimum
import GlmFlash.Encoder.JournalRuns
import GlmFlash.Cache.ManagerMasks
import GlmFlash.Worker.ConfidenceRuns
import GlmFlash.Worker.TrimmedBatches
import GlmFlash.Encoder.PoolCalls
import GlmFlash.Capacity.PlanConsistency
import GlmFlash.Encoder.RoutedBatches
import GlmFlash.Encoder.ExactOptimum
import GlmFlash.Encoder.ExpertPermutation
import GlmFlash.Encoder.FactorRuns
import GlmFlash.Calibration.CorpusSealing
import GlmFlash.Worker.PromptLogprobs
import GlmFlash.Fitting.FitterWays
import GlmFlash.Worker.PromptCaptures
import GlmFlash.Cache.HitSoundness
import GlmFlash.Checkpoint.BtxRoundTrip
import GlmFlash.Worker.BlockTableRuns
import GlmFlash.Worker.ContextParallel
