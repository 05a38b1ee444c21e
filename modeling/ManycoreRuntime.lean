import ManycoreRuntime.BitField
import ManycoreRuntime.Striping
import ManycoreRuntime.Coordinate
import ManycoreRuntime.Config
import ManycoreRuntime.Machines
import ManycoreRuntime.ConfigPod
import ManycoreRuntime.EvaToNpa
import ManycoreRuntime.DramTranslation
import ManycoreRuntime.DramStriping
import ManycoreRuntime.ByteStore
import ManycoreRuntime.ChunkedTransfer
import ManycoreRuntime.EvaMemory
import ManycoreRuntime.EvaWrap
import ManycoreRuntime.FinishAttribution
import ManycoreRuntime.IdleWait
import ManycoreRuntime.PodPool
import ManycoreRuntime.PodGeometry
import ManycoreRuntime.ReadHistory
import ManycoreRuntime.TransmitCredits
import ManycoreRuntime.SymbolSearch
import ManycoreRuntime.NpaRoundTrip
import ManycoreRuntime.DmaTables
import ManycoreRuntime.PodView
import ManycoreRuntime.LegacyReplicate
import ManycoreRuntime.ElfLoad
import ManycoreRuntime.DmaCoherence
import ManycoreRuntime.LaunchScan
import ManycoreRuntime.LaunchAtomicity
import ManycoreRuntime.PodExhaustion
import ManycoreRuntime.EnqueueTable
import ManycoreRuntime.KernelRefs
import ManycoreRuntime.ArgvBlocks
import ManycoreRuntime.FinishSignal
import ManycoreRuntime.EvaSegments
import ManycoreRuntime.FileSymbols
import ManycoreRuntime.BulkDma
import ManycoreRuntime.PacketFidelity
import ManycoreRuntime.VcacheTags
import ManycoreRuntime.VcacheRange
import ManycoreRuntime.SegmentCapacity
import ManycoreRuntime.ConfigSound
import ManycoreRuntime.PodInit
import ManycoreRuntime.DmaWriteFrame
import ManycoreRuntime.DmaFailure
import ManycoreRuntime.Loops
import ManycoreRuntime.CoordinateScan
import ManycoreRuntime.PacketEquals
import ManycoreRuntime.ReplicatedMalloc
import ManycoreRuntime.ReadRejects
import ManycoreRuntime.FifoDrain
import ManycoreRuntime.ManycoreInit
import ManycoreRuntime.ReadCredits
import ManycoreRuntime.LinkToAxil
import ManycoreRuntime.ReceivePath
import ManycoreRuntime.PacketWords
import ManycoreRuntime.RequestDelivery
import ManycoreRuntime.Fence
import ManycoreRuntime.PodHeap
import ManycoreRuntime.Responders
import ManycoreRuntime.EndpointToFifos
