import Pspin.Clocked.Machine
import Pspin.Clocked.Fallible
import Pspin.Clocked.Tournament
import Pspin.Clocked.Flow
import Pspin.Clocked.Selection
import Pspin.Clocked.Regions
import Pspin.Clocked.Tiling
import Pspin.Clocked.Interval
import Pspin.Clocked.Path
import Pspin.Clocked.Threads
import Pspin.Clocked.Loops
import Pspin.Clocked.Packed
import Pspin.Clocked.ByteMem
import Pspin.Clocked.ByteLanes
import Pspin.Clocked.Segments
import Pspin.Clocked.Bursts
import Pspin.Config
import Pspin.CommonCells.Lzc
import Pspin.CommonCells.RrArbTree
import Pspin.CommonCells.FifoV3
import Pspin.CommonCells.SpillRegister
import Pspin.CommonCells.TcSram
import Pspin.PktScheduler.FifoEngine
import Pspin.PktScheduler.FifoQueues
import Pspin.PktScheduler.FifoReservation
import Pspin.PktScheduler.MpqEngine
import Pspin.PktScheduler.MpqMerge
import Pspin.PktScheduler.MpqPlan
import Pspin.PktScheduler.MpqPhase
import Pspin.PktScheduler.MpqInvariant
import Pspin.PktScheduler.MpqLifecycle
import Pspin.PktScheduler.MpqStock
import Pspin.PktScheduler.MpqHandshake
import Pspin.PktScheduler.MpqBoundary
import Pspin.PktScheduler.MpqIdentity
import Pspin.PktScheduler.Scheduler
import Pspin.PktScheduler.SchedulerConservation
import Pspin.PktScheduler.SchedulerPlacement
import Pspin.PktScheduler.ClusterRb
import Pspin.PktScheduler.ClusterRbLive
import Pspin.PktScheduler.ClusterRbSafe
import Pspin.PktScheduler.ClusterRbOffer
import Pspin.PktScheduler.ClusterRbReclaim
import Pspin.PktScheduler.ClusterScheduler
import Pspin.PktScheduler.ClusterDispatch
import Pspin.PktScheduler.L1Safety
import Pspin.PktScheduler.TaskFrontend
import Pspin.PktScheduler.CmdFrontend
import Pspin.PktScheduler.CmdInFlight
import Pspin.PktScheduler.CmdHandles
import Pspin.PktScheduler.HpuDriver
import Pspin.PktScheduler.CmdAccesses
import Pspin.PktScheduler.CmdAllocation
import Pspin.PktScheduler.CmdTest
import Pspin.PktScheduler.HpuCompletion
import Pspin.PktScheduler.PulpCluster
import Pspin.PktScheduler.ClusterFeedback
import Pspin.Dma.PulpClusterFrontend
import Pspin.Dma.Outstanding
import Pspin.Cmds.CmdUnit
import Pspin.Cmds.CmdRouting
import Pspin.Cmds.CmdDescr
import Pspin.Cmds.HostDirect
import Pspin.Cmds.HostDirectWrites
import Pspin.Runtime.Atomics
import Pspin.Runtime.RwLock
import Pspin.Runtime.SpinCmd
import Pspin.Dma.ClusterDma
import Pspin.Dma.SocDmaWrap
import Pspin.Dma.SocDmaResponses
import Pspin.Dma.EdmaCmds
import Pspin.Dma.SpinDma
import Pspin.Dma.DmaHandles
import Pspin.Dma.DmaAnswers
import Pspin.Dma.DmaCluster
import Pspin.Dma.BurstReshaper
import Pspin.Dma.BurstBytes
import Pspin.Dma.DmaDataPath
import Pspin.Dma.DataPathLanes
import Pspin.Dma.AxiDmaBackend
import Pspin.Dma.BackendTrace
import Pspin.Dma.BackendQueues
import Pspin.Dma.BackendBus
import Pspin.Dma.BackendCopies
import Pspin.Dma.BackendProgress
import Pspin.Dma.BackendWedge
import Pspin.VerilatorModel.HerHandshake
import Pspin.VerilatorModel.AxiDriver
import Pspin.VerilatorModel.AxiMasterWrite
import Pspin.VerilatorModel.AxiMasterRead
import Pspin.VerilatorModel.AxiReadWork
import Pspin.VerilatorModel.AxiReadData
import Pspin.VerilatorModel.PcieMaster
import Pspin.VerilatorModel.PcieSlave
import Pspin.VerilatorModel.PcieSlaveDrain
import Pspin.VerilatorModel.NicOutbound
import Pspin.VerilatorModel.NicOutboundRuns
import Pspin.VerilatorModel.NicOutboundDrain
import Pspin.VerilatorModel.PktRing
import Pspin.VerilatorModel.PktRingSafety
import Pspin.VerilatorModel.PktRingReclaim
import Pspin.VerilatorModel.PktPath
import Pspin.VerilatorModel.PktAccounting
import Pspin.Handlers.Packets
import Pspin.Handlers.Kvs
import Pspin.Handlers.MsgRun
import Pspin.Handlers.MapReduce
import Pspin.Handlers.AggregateGlobal
import Pspin.Handlers.IntSum
import Pspin.Handlers.AllReduce
import Pspin.Handlers.SlpFrame
import Pspin.Handlers.PldBounds
import Pspin.Handlers.SlpL1
import Pspin.Handlers.SlpTraining
import Pspin.Handlers.SlpPredict
import Pspin.Handlers.HistogramL1
import Pspin.Ooorb.Lazylist
import Pspin.Ooorb.LazylistPool
import Pspin.Ooorb.LazylistCalls
import Pspin.Ooorb.LazylistRefinement
import Pspin.Ooorb.LazylistErrors
import Pspin.Ooorb.OoorbHandlers
import Pspin.Ooorb.LazylistMemory
import Pspin.Ooorb.LazylistThreads
import Pspin.Ooorb.LazylistInvariant
import Pspin.Ooorb.LazylistAccount
import Pspin.Ooorb.LazylistFrame
import Pspin.Ooorb.LazylistMoves
import Pspin.Ooorb.LazylistLocks
import Pspin.Ooorb.LazylistStores
import Pspin.Ooorb.LazylistLinks
import Pspin.Ooorb.LazylistConservation
import Pspin.Dma.DmaClusterRuns
