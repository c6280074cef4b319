import Yallnix.ToMathlib.Outcome
import Yallnix.ToMathlib.Transition
import Yallnix.ToMathlib.WaitQueue
import Yallnix.ToMathlib.CallOrder
import Yallnix.ToMathlib.ServiceOrder
import Yallnix.ToMathlib.ServiceBlocks
import Yallnix.ToMathlib.LinkedList
import Yallnix.ToMathlib.LineDelivery
import Yallnix.ToMathlib.ExclusivePlaces
import Yallnix.ToMathlib.ByteMemory
import Yallnix.ToMathlib.RoundRobin
import Yallnix.ToMathlib.AccountedPlaces
import Yallnix.ToMathlib.OutcomeStops
import Yallnix.Construction.Queue
import Yallnix.Construction.HashMap
import Yallnix.Construction.Hardware
import Yallnix.Construction.FrameList
import Yallnix.Construction.PageTable
import Yallnix.Construction.State
import Yallnix.Construction.Scheduler
import Yallnix.Construction.LoadProgram
import Yallnix.Construction.GeneralKernelCalls
import Yallnix.Construction.ArgumentBlock
import Yallnix.Construction.SyncKernelCalls
import Yallnix.Construction.TtyKernelCalls
import Yallnix.Construction.QueueNodes
import Yallnix.Construction.SetNodes
import Yallnix.Construction.View
import Yallnix.Construction.TrapHandlers
import Yallnix.Construction.KernelStart
import Yallnix.Construction.SmallMachine
import Yallnix.Construction.ForkFailure
import Yallnix.Construction.ForkBuild
import Yallnix.Construction.Mmu
import Yallnix.Construction.KernelMemory
import Yallnix.Construction.ContextSwitch
import Yallnix.Construction.AddressSpace
import Yallnix.Construction.MemoryMachine
import Yallnix.Construction.SwitchMachine
import Yallnix.Construction.SmallMemory
import Yallnix.Construction.PrivateMemory
import Yallnix.Proof.Residence
import Yallnix.Proof.SchedulerRefinement
import Yallnix.Proof.TerminalRefinement
import Yallnix.Proof.ProcessRefinement
import Yallnix.Proof.FamilyRefinement
import Yallnix.Proof.SyncRefinement
import Yallnix.Proof.FamilyInvariant
import Yallnix.Proof.Refinement
import Yallnix.Proof.Reachability
import Yallnix.Proof.TerminalFrame
import Yallnix.Proof.TerminalStep
import Yallnix.Proof.TerminalWakeup
import Yallnix.Proof.TerminalWrites
import Yallnix.Proof.LineReads
import Yallnix.Proof.SyncStep
import Yallnix.Proof.PcbFrame
import Yallnix.Proof.ForkReturn
import Yallnix.Proof.ExitLedger
import Yallnix.Proof.WaitAnswer
import Yallnix.Proof.WaitEntry
import Yallnix.Proof.ObjectInvariant
import Yallnix.Proof.SingleResidence
import Yallnix.Proof.WakeStep
import Yallnix.Proof.LockStep
import Yallnix.Proof.LockExclusion
import Yallnix.Proof.LockQueue
import Yallnix.Proof.PipeStep
import Yallnix.Proof.PipeQueue
import Yallnix.Proof.CvarQueue
import Yallnix.Proof.WakeMatch
import Yallnix.Proof.StaleReference
import Yallnix.Proof.LockWaiters
import Yallnix.Proof.SignalOrder
import Yallnix.Proof.PipeStream
import Yallnix.Proof.PipeCapacity
import Yallnix.Proof.ReadOrder
import Yallnix.Proof.PipeWork
import Yallnix.Proof.PipeDrain
import Yallnix.Proof.PipeProgress
import Yallnix.Proof.PipeService
import Yallnix.Proof.ReclaimSafety
import Yallnix.Proof.MmuStep
import Yallnix.Proof.BootMemory
import Yallnix.Proof.FrameCalls
import Yallnix.Proof.MemoryFrame
import Yallnix.Proof.TlbCoherence
import Yallnix.Proof.HeapMove
import Yallnix.Proof.KernelHeap
import Yallnix.Proof.StackMemory
import Yallnix.Proof.SwitchContext
import Yallnix.Proof.PageRange
import Yallnix.Proof.FrameTaking
import Yallnix.Proof.BufferCheck
import Yallnix.Proof.StringCheck
import Yallnix.Proof.BreakPages
import Yallnix.Proof.BreakFailure
import Yallnix.Proof.ArrayBounds
import Yallnix.Proof.ForkMemory
import Yallnix.Proof.FrameReturn
import Yallnix.Proof.FreeNumbers
import Yallnix.Proof.FrameBounds
import Yallnix.Proof.HeapGrowth
import Yallnix.Proof.PageCopy
import Yallnix.Proof.ForkCopy
import Yallnix.Proof.LiveParent
import Yallnix.Proof.InitFailure
import Yallnix.Proof.ForkTrace
import Yallnix.Proof.ReadyQueue
import Yallnix.Proof.StackGap
import Yallnix.Proof.StackGrowth
import Yallnix.Proof.ImageFrames
import Yallnix.Proof.ImageLayout
import Yallnix.Proof.ProgramImage
import Yallnix.Proof.ExitFrames
import Yallnix.Proof.PageWrites
import Yallnix.Proof.ExecOutcome
import Yallnix.Proof.FramePlaces
import Yallnix.Proof.SiteFrame
import Yallnix.Proof.ValidPages
import Yallnix.Proof.ImageHeap
import Yallnix.Proof.SiteLoops
import Yallnix.Proof.SiteCalls
import Yallnix.Proof.SiteFork
import Yallnix.Proof.SiteExit
import Yallnix.Proof.SiteBoot
import Yallnix.Proof.UnsharedFrames
import Yallnix.Proof.PrivateView
import Yallnix.Proof.PrivateWork
import Yallnix.Proof.PrivateBoot
import Yallnix.Proof.PrivateFork
import Yallnix.Proof.PrivateImage
import Yallnix.Proof.PrivateIsolation
import Yallnix.Proof.PrivateRefinement
import Yallnix.Proof.PrivateSwitch
import Yallnix.Proof.StatusStore
import Yallnix.Proof.WaitOutcome
import Yallnix.Proof.SetIteration
import Yallnix.Proof.DelayTick
import Yallnix.Proof.MapRefinement
import Yallnix.Proof.MapIteration
import Yallnix.Proof.QueueRefinement
import Yallnix.Proof.ArgumentPassing
import Yallnix.Proof.ReadyOrder
import Yallnix.Proof.DelayService
import Yallnix.Proof.FrameAccount
import Yallnix.Proof.AccountLoops
import Yallnix.Proof.AccountCalls
import Yallnix.Proof.FrameParts
import Yallnix.Proof.AccountFork
import Yallnix.Proof.AccountBoot
import Yallnix.Proof.AccountedFrames
import Yallnix.Proof.MachineHalt
import Yallnix.Proof.StableIds
