import HAL9000.Lib.Run
import HAL9000.Lib.Threads
import HAL9000.Lib.Ring
import HAL9000.Lib.Chain
import HAL9000.Lib.Program
import HAL9000.CommonLib.Base
import HAL9000.CommonLib.RefCount
import HAL9000.CommonLib.Bitmap
import HAL9000.CommonLib.BitmapBits
import HAL9000.CommonLib.ListEntry
import HAL9000.CommonLib.HashTable.Model
import HAL9000.CommonLib.HashTable.Search
import HAL9000.CommonLib.HashTable.Buckets
import HAL9000.CommonLib.HashTable.Runs
import HAL9000.CommonLib.Heap.Model
import HAL9000.CommonLib.Heap.Links
import HAL9000.CommonLib.Heap.Layout
import HAL9000.CommonLib.Heap.Free
import HAL9000.CommonLib.Heap.Search
import HAL9000.CommonLib.Heap.Calls
import HAL9000.CommonLib.Heap.Runs
import HAL9000.CommonLib.Heap.Completeness
import HAL9000.Vmm.ReservationSpace
import HAL9000.Vmm.Slots
import HAL9000.Vmm.Calls
import HAL9000.Vmm.Overlap
import HAL9000.Vmm.Metadata
import HAL9000.Vmm.BufferValid
import HAL9000.Vmm.BufferSound
import HAL9000.Vmm.PageFault
import HAL9000.Sync.ExEvent
import HAL9000.Sync.Mutex
import HAL9000.Sync.MutexInvariant
import HAL9000.Sync.WaitObject
import HAL9000.Sync.RwSpinlock
import HAL9000.Sync.RecRwSpinlock
import HAL9000.Mmu.Pmm
import HAL9000.Mmu.ZeroWorker
import HAL9000.Smp.Ipc
import HAL9000.Smp.EventList
import HAL9000.Process.Lifetime
import HAL9000.Thread.Scheduler
import HAL9000.Thread.Placement
import HAL9000.Thread.Switch
import HAL9000.Thread.SchedulerRuns
import HAL9000.Thread.Termination
import HAL9000.Thread.DeadWaiters
import HAL9000.Thread.TerminationRuns
import HAL9000.Thread.Lifetime
import HAL9000.Thread.Parked
import HAL9000.Thread.LifetimeRuns
import HAL9000.Fat32.Utils
import HAL9000.Fat32.Operations
import HAL9000.Fat32.Chains
import HAL9000.Fat32.Layout
import HAL9000.Fat32.Extension
import HAL9000.Fat32.Writing
import HAL9000.Fat32.Creating
import HAL9000.Fat32.Runs
import HAL9000.Io.Files
import HAL9000.Vmm.Cycles
import HAL9000.Io.Irp
import HAL9000.Io.IrpProtocol
import HAL9000.Network.Frames
import HAL9000.Network.TxRing
import HAL9000.Fat32.Names
import HAL9000.Fat32.Searching
import HAL9000.Lib.Walk
import HAL9000.Fat32.Requests
import HAL9000.Fat32.Walks
import HAL9000.Fat32.DirectoryWalks
import HAL9000.Fat32.Termination
import HAL9000.Lib.RadixTree
import HAL9000.Mmu.MemoryMap
import HAL9000.Vmm.PageTables
import HAL9000.Vmm.PageMapping
import HAL9000.Vmm.Unmapping
import HAL9000.Vmm.PagingRuns
import HAL9000.Mmu.Mdl
import HAL9000.Vmm.FaultExits
import HAL9000.Vmm.RegionAllocation
import HAL9000.Mmu.PeImage
import HAL9000.Mmu.PeMapping
import HAL9000.Vmm.RangeRights
import HAL9000.Vmm.CommitHistory
import HAL9000.Network.Dispatch
import HAL9000.Io.AtaChannel
import HAL9000.Io.AtaChannelRuns
import HAL9000.Mmu.MdlRefusal
import HAL9000.Mmu.UserBuffer
import HAL9000.Mmu.ZeroedFrames
import HAL9000.Vmm.Releases
import HAL9000.Thread.Creation
import HAL9000.Thread.StackRelease
import HAL9000.Thread.CreationFailure
import HAL9000.Fat32.FreeClusters
import HAL9000.Fat32.LongNames
import HAL9000.Io.VolumeRequests
import HAL9000.Io.Partitions
import HAL9000.Io.PartitionLayout
import HAL9000.Fat32.VolumeInit
import HAL9000.Fat32.Reading
import HAL9000.Fat32.FileData
import HAL9000.Fat32.ByteAccess
import HAL9000.Io.DmaTransfer
import HAL9000.Fat32.DirectoryEntries
import HAL9000.Fat32.DirectoryRecords
import HAL9000.Fat32.DirectoryBytes
import HAL9000.Fat32.NameSlots
import HAL9000.Fat32.DirectoryListing
import HAL9000.CommonLib.Strings
import HAL9000.CommonLib.HashTable.Iteration
import HAL9000.CommonLib.Numbers
import HAL9000.CommonLib.Printing
import HAL9000.CommonLib.PrintingBounds
import HAL9000.CommonLib.PrintingText
import HAL9000.CommonLib.Tokens
import HAL9000.Io.InterruptRegistration
import HAL9000.Io.SystemTime
import HAL9000.Lib.Tracing
import HAL9000.Mmu.PeParser
import HAL9000.Process.CommandLine
import HAL9000.CommonLib.CaseFolding
import HAL9000.CommonLib.Memory
import HAL9000.CommonLib.Trim
import HAL9000.Fat32.EntryFrames
import HAL9000.Fat32.ExtensionFailure
import HAL9000.Fat32.CreationFailure
import HAL9000.Fat32.FileSizes
import HAL9000.Io.AcpiTables
import HAL9000.Io.InterruptOverrides
import HAL9000.Io.PciCapabilities
import HAL9000.Io.PciExpress
import HAL9000.Console.Commands
import HAL9000.Console.Keyboard
import HAL9000.Io.ConfigurationAccess
import HAL9000.Io.PciHierarchy
import HAL9000.Io.PciSearch
import HAL9000.Network.DeviceStatus
import HAL9000.CommonLib.BitmapRanges
import HAL9000.CommonLib.CheckinQueue
import HAL9000.CommonLib.ListExecution
import HAL9000.CommonLib.MemoryCopy
import HAL9000.CommonLib.PrintingCut
import HAL9000.CommonLib.StackDynamic
import HAL9000.Console.Logging
import HAL9000.Console.LineEditor
import HAL9000.Network.Registration
