import Allocazam.Bitmap
import Allocazam.CoalescedTiling
import Allocazam.ExclusiveAllocator
import Allocazam.ExclusiveLedger
import Allocazam.ExclusiveOwned
import Allocazam.ExclusivePlacement
import Allocazam.ExclusiveResource
import Allocazam.FencedArenas
import Allocazam.GeometricLists
import Allocazam.IntrusiveList
import Allocazam.MatchedLists
import Allocazam.NoheapSpan
import Allocazam.NumberedSlots
import Allocazam.OwnedMemory
import Allocazam.PoolChecks
import Allocazam.PoolConservation
import Allocazam.PoolGranules
import Allocazam.PoolGrowth
import Allocazam.PoolInvariant
import Allocazam.PoolLayout
import Allocazam.PoolLoans
import Allocazam.PoolModel
import Allocazam.PoolMove
import Allocazam.PoolOperations
import Allocazam.PoolOwnership
import Allocazam.PoolPairs
import Allocazam.PoolRefinement
import Allocazam.PoolSafety
import Allocazam.PoolSession
import Allocazam.PoolSizing
import Allocazam.PoolTerritory
import Allocazam.PoolThreads
import Allocazam.PoolThreadsInvariant
import Allocazam.PoolThreadsSafety
import Allocazam.PoolThreadsSteps
import Allocazam.PoolUsage
import Allocazam.ProcessMemory
import Allocazam.PublishedList
import Allocazam.PushedChain
import Allocazam.RunnerAllocate
import Allocazam.RunnerAllocationSafety
import Allocazam.RunnerBinIndex
import Allocazam.RunnerBinLists
import Allocazam.RunnerBoundaryTags
import Allocazam.RunnerChunks
import Allocazam.RunnerCompleteness
import Allocazam.RunnerCuts
import Allocazam.RunnerDelayedFree
import Allocazam.RunnerDeterminacy
import Allocazam.RunnerExchange
import Allocazam.RunnerExhaustion
import Allocazam.RunnerExits
import Allocazam.RunnerExpansion
import Allocazam.RunnerFailure
import Allocazam.RunnerFreeIndex
import Allocazam.RunnerGaps
import Allocazam.RunnerGauges
import Allocazam.RunnerGrowth
import Allocazam.RunnerHeapStep
import Allocazam.RunnerHoldings
import Allocazam.RunnerInterleaving
import Allocazam.RunnerInvariant
import Allocazam.RunnerLayout
import Allocazam.RunnerLiveBytes
import Allocazam.RunnerLoans
import Allocazam.RunnerLocality
import Allocazam.RunnerLockstep
import Allocazam.RunnerModel
import Allocazam.RunnerObservation
import Allocazam.RunnerOperations
import Allocazam.RunnerPairs
import Allocazam.RunnerPasses
import Allocazam.RunnerProvision
import Allocazam.RunnerRemoteParking
import Allocazam.RunnerResets
import Allocazam.RunnerRetiling
import Allocazam.RunnerRoom
import Allocazam.RunnerScanCount
import Allocazam.RunnerScans
import Allocazam.RunnerSearch
import Allocazam.RunnerSession
import Allocazam.RunnerSizes
import Allocazam.RunnerStarted
import Allocazam.RunnerStatistics
import Allocazam.RunnerSteps
import Allocazam.RunnerStretch
import Allocazam.RunnerSupply
import Allocazam.RunnerTags
import Allocazam.RunnerTerritory
import Allocazam.RunnerTwinAllocate
import Allocazam.RunnerTwinSearch
import Allocazam.RunnerTwinStart
import Allocazam.RunnerTwinSteps
import Allocazam.RunnerTwins
import Allocazam.SharedMemory
import Allocazam.SizeArithmetic
import Allocazam.SlotUsage
import Allocazam.SuballocatedAllocate
import Allocazam.SuballocatedBounds
import Allocazam.SuballocatedCache
import Allocazam.SuballocatedClassLists
import Allocazam.SuballocatedClassifier
import Allocazam.SuballocatedConfinement
import Allocazam.SuballocatedConservation
import Allocazam.SuballocatedDeallocate
import Allocazam.SuballocatedDiscretion
import Allocazam.SuballocatedDrain
import Allocazam.SuballocatedExhaustion
import Allocazam.SuballocatedExpansion
import Allocazam.SuballocatedGrowth
import Allocazam.SuballocatedInvariant
import Allocazam.SuballocatedIsolation
import Allocazam.SuballocatedModel
import Allocazam.SuballocatedNodes
import Allocazam.SuballocatedObservation
import Allocazam.SuballocatedOperations
import Allocazam.SuballocatedQuiescence
import Allocazam.SuballocatedRefill
import Allocazam.SuballocatedRegistry
import Allocazam.SuballocatedReports
import Allocazam.SuballocatedReturns
import Allocazam.SuballocatedRouting
import Allocazam.SuballocatedRunners
import Allocazam.SuballocatedSafety
import Allocazam.SuballocatedServing
import Allocazam.SuballocatedSession
import Allocazam.SuballocatedSizing
import Allocazam.SuballocatedSpan
import Allocazam.SuballocatedStarvation
import Allocazam.SuballocatedStates
import Allocazam.SuballocatedSteps
import Allocazam.SuballocatedUsers
import Allocazam.SuballocatedWatermark
import Allocazam.SuballocatedWhereabouts
import Allocazam.TransitionSystem
