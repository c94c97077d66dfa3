import Vajra.ByteMemory
import Vajra.TransitionTrace
import Vajra.RingQueue
import Vajra.PhysicalMemory
import Vajra.AddressSpace
import Vajra.ObjectStore
import Vajra.NetMessage
import Vajra.ActorTable
import Vajra.SyscallGate
import Vajra.KernelMachine
import Vajra.KernelSteps
import Vajra.EntryTables
import Vajra.ActorOperations
import Vajra.SchedulerInvariant
import Vajra.MailboxFifo
import Vajra.CapabilityTables
import Vajra.CapabilityProvenance
import Vajra.PageAllocator
import Vajra.PageTables
import Vajra.RecordedIdentity
import Vajra.AddressSpaceBuild
import Vajra.MemoryInvariant
import Vajra.SpawnMemory
import Vajra.Isolation
import Vajra.FreshOccupant
import Vajra.StoreOperations
import Vajra.ObjectSecrecy
import Vajra.Mediation
import Vajra.OutPointers
import Vajra.DirectoryImage
import Vajra.StoreHistory
import Vajra.NameKeys
import Vajra.DurableDirectory
import Vajra.TrustBinding
import Vajra.ReadYourWrites
import Vajra.TrustLevels
import Vajra.BootObjects
import Vajra.BitmapBounds
import Vajra.AllocatorRuns
import Vajra.StackPages
import Vajra.ReliableLink
import Vajra.OneDelivery
import Vajra.Footprint
import Vajra.Console
import Vajra.PaneInterference
import Vajra.PaneText
import Vajra.ShellLine
import Vajra.DirectoryCodec
import Vajra.PartialInjection
import Vajra.Namespace
import Vajra.CounterRing
import Vajra.Virtqueue
import Vajra.VirtioReceive
import Vajra.VirtioTransmit
import Vajra.WireFormat
import Vajra.UnicastAddressing
import Vajra.RoundRobin
import Vajra.SchedulerFairness
import Vajra.SpawnBudget
import Vajra.SyscallContracts
import Vajra.ProgramImages
import Vajra.FailedLoads
import Vajra.QuarantineActors
import Vajra.QuarantineSteps
import Vajra.QuarantineBoot
import Vajra.QuarantineAuthority
import Vajra.QuarantineObjects
import Vajra.QuarantineTurns
import Vajra.QuarantineFrames
import Vajra.QuarantineMoves
import Vajra.QuarantineScanner
import Vajra.QuarantineGrants
import Vajra.QuarantineOrdering
import Vajra.DecimalNumerals
import Vajra.ShellCommands
import Vajra.EscapeParams
import Vajra.BoundedWalk
import Vajra.PciCapabilities
import Vajra.PciScan
import Vajra.ClockRegisters
import Vajra.InspectorVerdict
import Vajra.Keyboard
import Vajra.KeyDecoding
import Vajra.FreeListBound
import Vajra.PageScans
import Vajra.PageConservation
import Vajra.StackMachine
import Vajra.InterruptStubs
import Vajra.ThreadSwitch
import Vajra.KernelView
import Vajra.SecondCore
import Vajra.LockedSections
import Vajra.SharedConsole
import Vajra.AtaDriver
import Vajra.DiskRefinement
import Vajra.StepStores
import Vajra.PrivateMemory
import Vajra.InterruptDelivery
import Vajra.DescriptorTables
import Vajra.BootMemoryMap
import Vajra.VirtqueueMemory
import Vajra.CardMemory
import Vajra.CardDriver
