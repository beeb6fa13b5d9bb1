import NewPerf.Engine.PrpMapping
import NewPerf.Engine.PageReuse
import NewPerf.Engine.JobStart
import NewPerf.Driver.AllocDma
import NewPerf.Driver.Pairing
import NewPerf.Lib.Programs
import NewPerf.Tools.Hardware
import NewPerf.Tools.Admin
import NewPerf.Tools.AdminRules
import NewPerf.Tools.AdminMemory
import NewPerf.Tools.IoQueue
import NewPerf.Tools.QueueProtocol
import NewPerf.Tools.QueueRules
import NewPerf.Tools.PairRules
import NewPerf.Engine.QueueLifetime
import NewPerf.Engine.QueueIds
import NewPerf.Tools.Doorbells
import NewPerf.Engine.DoorbellRange
import NewPerf.Tools.PageSize
import NewPerf.Tools.AdminChannel
import NewPerf.Tools.AdminSequence
import NewPerf.Tools.AdminTimeout
import NewPerf.Driver.Devices
import NewPerf.Driver.EntryLifetime
import NewPerf.Driver.Removal
import NewPerf.Driver.Isolation
import NewPerf.Driver.Handles
import NewPerf.Driver.Instances
import NewPerf.Driver.OneDevice
import NewPerf.Lib.Handlers
import NewPerf.Tools.Syscalls
import NewPerf.Tools.NamedController
import NewPerf.Engine.DirectClient
import NewPerf.Tools.SqEntry
import NewPerf.Engine.Encoding
import NewPerf.Engine.EventsBound
import NewPerf.Lib.Loops
import NewPerf.Tools.PollSplit
import NewPerf.Lib.Traces
import NewPerf.Tools.AdminFields
import NewPerf.Tools.FileSize
import NewPerf.Engine.NamespaceBounds
import NewPerf.Lib.Strtoul
import NewPerf.Tools.ParseTarget
import NewPerf.Tools.CreateAtomic
import NewPerf.Lib.Simulation
import NewPerf.Lib.Transfers
import NewPerf.Engine.BlockDevice
import NewPerf.Engine.DataPath
import NewPerf.Engine.DataRefinement
import NewPerf.Engine.AtomicRequests
import NewPerf.Engine.StoreByStore
import NewPerf.Engine.Progress
import NewPerf.Driver.Module
import NewPerf.Tools.PciConfig
import NewPerf.Tools.Handshake
import NewPerf.Tools.Resources
import NewPerf.Engine.ListMemory
import NewPerf.Tools.PairBuilt
import NewPerf.Engine.PairCreation
import NewPerf.Engine.SharedController
import NewPerf.Engine.SharedController
