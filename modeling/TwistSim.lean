import TwistSim.Interaction
import TwistSim.DecisionTree
import TwistSim.Basic
import TwistSim.Scheduler
import TwistSim.DfsSchedule
import TwistSim.DfsScheduler
import TwistSim.CausalClocks
import TwistSim.DfsExploration
import TwistSim.MemoryModel
import TwistSim.HappensBefore
import TwistSim.ClockInvariant
import TwistSim.ClockTracking
import TwistSim.ClockSoundness
import TwistSim.ClockRuns
import TwistSim.DataRaces
import TwistSim.RaceDetection
import TwistSim.RaceReports
import TwistSim.DfsClient
import TwistSim.DfsInterleavings
import TwistSim.DfsCoverage
import TwistSim.Effects
import TwistSim.TimerHeap
import TwistSim.Kernel
import TwistSim.SystemCalls
import TwistSim.RunLoop
import TwistSim.CoopScheduler
import TwistSim.RandomScheduler
import TwistSim.PctScheduler
import TwistSim.DfsHoldings
import TwistSim.Replay
import TwistSim.LockFreeMode
import TwistSim.Recording
import TwistSim.Restart
import TwistSim.Custody
import TwistSim.RunQueues
import TwistSim.DfsExplored
import TwistSim.ReplayQueues
import TwistSim.Mutex
import TwistSim.SharedMutexOrder
import TwistSim.CondVar
import TwistSim.HeapOrder
import TwistSim.TimerOrder
import TwistSim.TimerRuns
import TwistSim.PctDiscipline
import TwistSim.AccessHistory
import TwistSim.ObjectLifetimes
import TwistSim.TimedMutex
import TwistSim.Idling
import TwistSim.Keepers
import TwistSim.Placement
import TwistSim.Waking
import TwistSim.Handlers
import TwistSim.Burning
import TwistSim.Dispatch
import TwistSim.Places
import TwistSim.Whereabouts
import TwistSim.Fates
import TwistSim.FutexWaits
import TwistSim.Turns
import TwistSim.Sleeping
import TwistSim.IsolatedMemory
import TwistSim.Extents
import TwistSim.HeapLayout
import TwistSim.HeapBooks
import TwistSim.HeapSteps
import TwistSim.HeapSessions
import TwistSim.HeapRanges
import TwistSim.HeapAccess
import TwistSim.HeapReports
import TwistSim.FmtBuffers
import TwistSim.ThreadLocals
import TwistSim.StaticVars
import TwistSim.WaitGroup
import TwistSim.WaitGroupOrder
import TwistSim.StateBase
import TwistSim.DebugSessions
import TwistSim.ClockConsistency
import TwistSim.StdTimedMutex
import TwistSim.FaultyTimedMutex
import TwistSim.LockFreeAdversary
import TwistSim.Suspensions
import TwistSim.FaultyCondVar
import TwistSim.Notifications
import TwistSim.Logger
import TwistSim.LogEvents
import TwistSim.Footprints
import TwistSim.Inversion
import TwistSim.Pinning
import TwistSim.SequentialMemory
import TwistSim.SyncHistories
import TwistSim.Exclusion
import TwistSim.UserCode
import TwistSim.AtomicBase
import TwistSim.Questions
import TwistSim.Mirroring
import TwistSim.Replaying
import TwistSim.Aborts
import TwistSim.Departures
import TwistSim.Dangling
import TwistSim.Endings
import TwistSim.AbortedRuns
