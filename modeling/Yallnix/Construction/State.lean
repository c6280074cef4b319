import Yallnix.Construction.Queue
import Yallnix.Construction.HashMap
import Yallnix.Construction.PageTable
import Mathlib.Data.Finset.Basic
import Mathlib.Logic.Function.Basic

namespace Yallnix

/-- `malloc` gives this address to a PCB and may give it out again after a `free`. -/
abbrev Addr := Nat

/-- A sync object is named by the id that it got at its creation. -/
abbrev ObjPtr := Int

abbrev Byte := UInt8

structure UserContext where
  pc : Int
  sp : Int
  ebp : Int
  deriving DecidableEq, Repr

/-- These fields of `struct load_info` describe one executable. -/
structure LoadInfo where
  entry : Nat
  tVaddr : Nat
  tNpg : Nat
  idVaddr : Nat
  idNpg : Nat
  udNpg : Nat
  deriving DecidableEq, Repr

/-- An `Exec` request carries what the file system and `malloc` answer. -/
structure ExecRequest where
  stringsValid : Bool
  file : Option LoadInfo
  argLengths : List Nat
  argbuf : Bool
  textRead : Bool
  dataRead : Bool
  deriving DecidableEq, Repr

/-- The code and the registers of the user context name one kernel call. -/
inductive Call where
  | fork
  | exec (request : ExecRequest)
  | exit (status : Int)
  | wait (statusPtr : Nat)
  | getPid
  | brk (addr : Nat)
  | delay (clockTicks : Int)
  | reclaim (id : Int)
  | ttyRead (ttyId : Int) (buf : Nat) (len : Int)
  | ttyWrite (ttyId : Int) (buf : Nat) (len : Int) (bytes : List Byte)
  | lockInit
  | acquire (lockId : Int)
  | release (lockId : Int)
  | cvarInit
  | cvarSignal (cvarId : Int)
  | cvarBroadcast (cvarId : Int)
  | cvarWait (cvarId lockId : Int)
  | pipeInit
  | pipeRead (pipeId len : Int)
  | pipeWrite (pipeId len : Int) (bytes : List Byte)
  | unknown
  deriving DecidableEq

structure Zombie where
  pid : Int
  exitStatus : Int
  deriving DecidableEq, Repr

/-- The calls of `unblockProcess` stand at these places of the code. -/
inductive Cause where
  | childExit (child : Addr)
  | release (lockp : ObjPtr)
  | signal (cvar : ObjPtr)
  | broadcast (cvar : ObjPtr)
  | pipe (pipep : ObjPtr)
  deriving DecidableEq, Repr

section
variable [Hardware]

/-- A saved kernel stack resumes at one of these points of the kernel code. -/
inductive Pos where
  /-- The process runs user code. -/
  | user
  /-- The starter kernel state returns to user mode at the end of `KernelStart`. -/
  | starter
  /-- An interrupt handler returns after its context switch. -/
  | trapReturn
  /-- `KernelExit` begins. -/
  | exit (status : Int)
  /-- `sleepProcess` returns. -/
  | delay (clockTicks : Int)
  /-- `forkProcess` returns in the parent or in the child. -/
  | fork (parentPCB childPCB : Addr)
  /-- `KernelWait` dequeues a zombie. -/
  | waitWoken (statusPtr : Nat)
  /-- The loop of `KernelAcquire` tests the owner. -/
  | acquire (lockp : ObjPtr) (call : Call)
  /-- `KernelCvarWait` reacquires the lock. -/
  | cvarWoken (cvarId lockId : Int)
  /-- The loop of `KernelPipeRead` tests the number of bytes. -/
  | pipeRead (pipep : ObjPtr) (pipeId len : Int)
  /-- The loop of `KernelTtyWrite` tests the terminal. -/
  | ttyWrite (tty : Fin numTerminals) (call : Call) (r0Buf : List Byte)
  /-- The loop of `KernelTtyWrite` goes on after one batch. -/
  | ttyBatch (tty : Fin numTerminals) (call : Call) (r0Buf : List Byte) (bytesTransmitted : Nat)
  /-- The loop of `readBuffer` tests `isLineReady`. -/
  | ttyRead (tty : Fin numTerminals) (call : Call) (len : Int)

/-- The log records what a run did. -/
inductive Event where
  | forked (parent child : Int)
  | exited (pid status : Int)
  | returned (pid : Int) (call : Call) (code : Int)
  | waited (pid child status : Int)
  | released (pid lockId : Int)
  | created (pid id : Int)
  | unblocked (cause : Cause) (pcb : Addr)
  | pipeRead (pipep : ObjPtr) (len : Int) (bytes : List Byte)
  | pipeWritten (pipep : ObjPtr) (bytes : List Byte)
  | transmitted (tty : Fin numTerminals) (pid : Int) (bytes : List Byte)
  | received (tty : Fin numTerminals) (pid : Int) (bytes : List Byte)

structure PCB where
  pid : Int
  brk : Nat
  uctxt : UserContext
  /-- The saved kernel context and stack are NULL in a new process. -/
  kctxt : Option Pos
  childrenMap : HashMap Addr
  numChildren : Nat
  parent : Option Addr
  zombieQ : Option (Queue Zombie)
  r1PageTable : PageTable
  numRemainingDelayTicks : Int
  stackPfns : Fin kernelStackPages → Nat

/-- This state belongs to `Scheduler.c` and to the globals that it uses. -/
structure Scheduler where
  currPCB : Addr
  /-- The current process executes at this point. -/
  cpu : Pos
  idlePCB : Addr
  initPid : Int
  nextPid : Int
  readyQ : Queue Addr
  blockedMap : HashMap Addr
  sleepingMap : HashMap Addr
  currTransmitters : Fin numTerminals → Option Addr
  transmittingQs : Fin numTerminals → Queue Addr
  readingQs : Fin numTerminals → Queue Addr
  /-- The terminal hardware has a transmission in progress. -/
  transmitting : Fin numTerminals → Bool
  pcbs : Addr → PCB
  /-- `malloc` has given out these PCBs. -/
  allocated : Finset Addr
  /-- These processes have started and have not exited. -/
  live : Finset Addr
  frameList : FrameList
  r0PageTable : PageTable
  /-- The newest event comes first. -/
  log : List Event

structure Lock where
  ownerPcbp : Option Addr
  waitingQ : Queue Addr
  deriving DecidableEq, Repr

structure Pipe where
  buffer : List Byte
  numBytesWritten : Int
  waitingQ : Queue Addr
  deriving DecidableEq

/-- An object is `none` before its creation and after a `free`. -/
structure SyncObjects where
  nextSyncId : Int
  lockMap : HashMap ObjPtr
  cvarMap : HashMap ObjPtr
  pipeMap : HashMap ObjPtr
  locks : ObjPtr → Option Lock
  cvars : ObjPtr → Option (Queue Addr)
  pipes : ObjPtr → Option Pipe

structure TtyBuf where
  base : List Byte
  numBytesWritten : Int
  isLineReady : Bool
  deriving DecidableEq

structure Kernel extends Scheduler, SyncObjects where
  buffers : Fin numTerminals → TtyBuf

/-- A C function returns a code, or control goes on where the new state points. -/
inductive Flow (S : Type) where
  | ret (s : S) (code : Int)
  | go (s : S)

def Flow.map {S T : Type} (f : S → T) : Flow S → Flow T
  | .ret s code => .ret (f s) code
  | .go s => .go (f s)

/-- An update of one PCB keeps all others. -/
def Scheduler.updatePcb (s : Scheduler) (pcbp : Addr) (f : PCB → PCB) : Scheduler :=
  { s with pcbs := Function.update s.pcbs pcbp (f (s.pcbs pcbp)) }

def Scheduler.record (s : Scheduler) (event : Event) : Scheduler :=
  { s with log := event :: s.log }

/-- The current process. -/
def Scheduler.curr (s : Scheduler) : PCB := s.pcbs s.currPCB

/-- The point where a process runs or resumes. -/
def Scheduler.pos (s : Scheduler) (pcbp : Addr) : Pos :=
  if pcbp = s.currPCB then s.cpu else ((s.pcbs pcbp).kctxt).getD .starter

end

end Yallnix
