import KernelHacking.Foundations.Threads
import KernelHacking.Foundations.Handoff
import KernelHacking.Foundations.RingBuffer
import KernelHacking.Foundations.Census
import KernelHacking.Foundations.Age
import KernelHacking.Foundations.Forest
import KernelHacking.Foundations.Word
import KernelHacking.Model.BurgerBuddies
import KernelHacking.Model.PageReplacement
import KernelHacking.Model.ReferenceRecords
import KernelHacking.Model.ProcessTree
import KernelHacking.Model.PageTable
import KernelHacking.Model.PageTableClients
import KernelHacking.Proofs.BurgerLocks
import KernelHacking.Proofs.RackProtocol
import KernelHacking.Proofs.RackBound
import KernelHacking.Proofs.QueueProtocol
import KernelHacking.Proofs.OrderFlow
import KernelHacking.Proofs.ServiceLedger
import KernelHacking.Proofs.Wakeup
import KernelHacking.Proofs.Progress
import KernelHacking.Proofs.ReferenceCounter
import KernelHacking.Proofs.PageReuse
import KernelHacking.Proofs.ReferenceRecords
import KernelHacking.Proofs.DisplayTree
import KernelHacking.Proofs.PageWalk
import KernelHacking.Proofs.RequestedSlots
import KernelHacking.Proofs.ExposedTable
import KernelHacking.Proofs.TableClients
import KernelHacking.Model.PageTableSystem
import KernelHacking.Proofs.LiveWalk
import KernelHacking.Proofs.CallSafety
import KernelHacking.Proofs.ClientReads
import KernelHacking.Model.UserAccess
import KernelHacking.Proofs.WindowWrites
import KernelHacking.Foundations.Overlay
import KernelHacking.Model.SyscallTable
import KernelHacking.Proofs.SyscallHooks
import KernelHacking.Foundations.TreeWalk
import KernelHacking.Model.PtreeCall
import KernelHacking.Proofs.PtreeCall
import KernelHacking.Proofs.TaskInvariant
import KernelHacking.Proofs.TaskRuns
import KernelHacking.Proofs.PtreeListing
import KernelHacking.Proofs.PtreeRelations
import KernelHacking.Proofs.Activation
import KernelHacking.Foundations.Actions
import KernelHacking.Model.CounterUpdates
import KernelHacking.Proofs.CounterUpdates
import KernelHacking.Model.ActiveList
import KernelHacking.Proofs.ActiveList
import KernelHacking.Proofs.Rotation
import KernelHacking.Proofs.PtreeOrder
import KernelHacking.Proofs.SiblingRepair
import KernelHacking.Model.ShopClosing
import KernelHacking.Proofs.ShopClosing
import KernelHacking.Model.AddressText
import KernelHacking.Proofs.AddressText
import KernelHacking.Proofs.DisplaySafety
import KernelHacking.Model.CallResources
import KernelHacking.Proofs.CallResources
import KernelHacking.Proofs.WindowPlacement
import KernelHacking.Foundations.Refinement
import KernelHacking.Model.ShopFloor
import KernelHacking.Model.PageReclaim
import KernelHacking.Proofs.ShopFloor
import KernelHacking.Model.InactiveList
import KernelHacking.Proofs.PageReclaim
import KernelHacking.Proofs.InactiveList
import KernelHacking.Model.ZoneReclaim
import KernelHacking.Proofs.ZoneReclaim
import KernelHacking.Proofs.PtreeProgram
import KernelHacking.Foundations.Buddy
import KernelHacking.Model.PageAllocator
import KernelHacking.Proofs.BuddySystem
import KernelHacking.Proofs.PageAllocator
import KernelHacking.Proofs.AllocatorRuns
