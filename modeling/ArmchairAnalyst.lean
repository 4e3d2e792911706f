import ArmchairAnalyst.Library.Collections
import ArmchairAnalyst.Library.RootedPath
import ArmchairAnalyst.Library.KeyedMerge
import ArmchairAnalyst.PoolLog
import ArmchairAnalyst.RequestTracking
import ArmchairAnalyst.RequestTargets
import ArmchairAnalyst.Kernel.PoolRegistry
import ArmchairAnalyst.Kernel.TokenRegistry
import ArmchairAnalyst.Kernel.BlocksGraph
import ArmchairAnalyst.Kernel.PendingRequests
import ArmchairAnalyst.Kernel.Transition
import ArmchairAnalyst.Library.TransitionSystem
import ArmchairAnalyst.Kernel.GraphInvariant
import ArmchairAnalyst.Kernel.AdmissionProofs
import ArmchairAnalyst.Kernel.ReanchoringProofs
import ArmchairAnalyst.Kernel.FoldProofs
import ArmchairAnalyst.Kernel.BlockFacts
import ArmchairAnalyst.Kernel.FinalizationProofs
import ArmchairAnalyst.Kernel.InvisibleFinalization
import ArmchairAnalyst.Kernel.SchedulingProofs
import ArmchairAnalyst.Kernel.StepProofs
import ArmchairAnalyst.Kernel.BlocksUpdates
import ArmchairAnalyst.Kernel.TrackedPools
import ArmchairAnalyst.Kernel.RequestIds
import ArmchairAnalyst.Kernel.GroundTruth
import ArmchairAnalyst.Kernel.HeaderRequests
import ArmchairAnalyst.Kernel.WorkInFlight
import ArmchairAnalyst.Kernel.ScheduledWork
import ArmchairAnalyst.Kernel.IdleSchedule
import ArmchairAnalyst.Kernel.HeaderRetry
import ArmchairAnalyst.Kernel.BackfillGraph
import ArmchairAnalyst.Kernel.Backfill
import ArmchairAnalyst.Kernel.BackfillFinality
import ArmchairAnalyst.Kernel.OrphanProbe
import ArmchairAnalyst.Kernel.StreamedLogs
import ArmchairAnalyst.Kernel.ArrivalOrder
import ArmchairAnalyst.PoolReserves
import ArmchairAnalyst.Bootstrap
import ArmchairAnalyst.MultiChainKernel
import ArmchairAnalyst.MultiChain.Lifecycles
import ArmchairAnalyst.MultiChain.Projection
import ArmchairAnalyst.MultiChain.InertShortcut
import ArmchairAnalyst.MultiChain.VerifiedStates
import ArmchairAnalyst.MultiChain.ProjectionStalls
import ArmchairAnalyst.Wire
import ArmchairAnalyst.Server.Core
import ArmchairAnalyst.Server.Serve
import ArmchairAnalyst.Library.Fallible
import ArmchairAnalyst.Client.Endpoints
import ArmchairAnalyst.Client.PoolMetadata
import ArmchairAnalyst.Client.UniswapV4Subgraph
import ArmchairAnalyst.TokenWhitelist
import ArmchairAnalyst.Client.MetadataResolvers
import ArmchairAnalyst.Kernel.MetadataRequests
import ArmchairAnalyst.Kernel.MetadataLoop
import ArmchairAnalyst.Library.ChunkedDrain
import ArmchairAnalyst.Kernel.SeedRequests
import ArmchairAnalyst.Kernel.SeedRounds
import ArmchairAnalyst.Kernel.PartialCompaction
import ArmchairAnalyst.Library.Runs
import ArmchairAnalyst.Kernel.MissingRanges
import ArmchairAnalyst.Kernel.StoredProjection
import ArmchairAnalyst.Kernel.AdmissionOrder
import ArmchairAnalyst.Kernel.MissCounter
import ArmchairAnalyst.Library.FloorShares
import ArmchairAnalyst.LosslessReplay
import ArmchairAnalyst.TickMath
import ArmchairAnalyst.ReserveValues
import ArmchairAnalyst.Optimization.RoutingFilter
import ArmchairAnalyst.ClientCore.Catalog
import ArmchairAnalyst.ClientCore.PendingFetches
import ArmchairAnalyst.ClientCore.State
import ArmchairAnalyst.ClientCore.FetchHistory
import ArmchairAnalyst.ClientCore.SafeHistory
import ArmchairAnalyst.ClientCore.Runtime
import ArmchairAnalyst.ClientCore.LatestPush
import ArmchairAnalyst.ClientCore.HeldResults
import ArmchairAnalyst.Kernel.MetadataCatalog
import ArmchairAnalyst.Server.PoolsMeta
import ArmchairAnalyst.ClientCore.ServedCatalog
import ArmchairAnalyst.ClientCore.WirePath
import ArmchairAnalyst.Client.WeightedRotation
import ArmchairAnalyst.Library.ConstantProduct
import ArmchairAnalyst.SwapSequences
import ArmchairAnalyst.Library.GroupedFold
import ArmchairAnalyst.Optimization.Plan
import ArmchairAnalyst.ReplayEffects
import ArmchairAnalyst.StageOrder
import ArmchairAnalyst.ReserveConvention
import ArmchairAnalyst.Library.FlooredProducts
import ArmchairAnalyst.TickRange
import ArmchairAnalyst.SeededGraph
import ArmchairAnalyst.Optimization.ModelLayout
import ArmchairAnalyst.Optimization.LayoutInvariant
import ArmchairAnalyst.Optimization.Model
import ArmchairAnalyst.Optimization.ModelGrowth
import ArmchairAnalyst.PoolLogRuns
import ArmchairAnalyst.Client.LogDebounce
import ArmchairAnalyst.Client.Failover
import ArmchairAnalyst.Optimization.ModelMirror
import ArmchairAnalyst.Library.Batches
import ArmchairAnalyst.Library.ByteKeys
import ArmchairAnalyst.Library.ReadThrough
import ArmchairAnalyst.Client.MetadataCache
import ArmchairAnalyst.Client.CachedResolutions
import ArmchairAnalyst.Server.WarmStart
import ArmchairAnalyst.Client.Multicall
import ArmchairAnalyst.Client.AnsweredMulticalls
import ArmchairAnalyst.Client.MulticallFetches
import ArmchairAnalyst.SoleRequest
import ArmchairAnalyst.Bootstrap.Exchanges
import ArmchairAnalyst.Bootstrap.Paging
import ArmchairAnalyst.Library.SortedContents
import ArmchairAnalyst.Client.RangeLogs
import ArmchairAnalyst.Client.ConsistentReads
import ArmchairAnalyst.Library.Multigraph
import ArmchairAnalyst.Optimization.CoreStripping
import ArmchairAnalyst.Optimization.RoutableTokens
import ArmchairAnalyst.MultiChain.DispatchedSnapshots
import ArmchairAnalyst.MultiChain.Isolation
import ArmchairAnalyst.Library.EffectLoop
import ArmchairAnalyst.Kernel.Execution
import ArmchairAnalyst.Server.RequestLoop
import ArmchairAnalyst.MultiChain.RequestLoop
import ArmchairAnalyst.MultiChain.PlanVerification
