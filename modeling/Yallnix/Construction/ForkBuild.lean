import Yallnix.Construction.AddressSpace
import Yallnix.Construction.ForkFailure

namespace Yallnix

section
variable [Hardware]

/-- These fields of a PCB describe a process and its family. -/
structure PcbBook where
  pid : Int
  uctxt : UserContext
  childrenMap : HashMap Addr
  numChildren : Int
  parent : Option Addr
  zombieQ : Option (Queue Zombie)
  numRemainingDelayTicks : Int

/-- `KernelFork` sees the memory of the kernel and the books of all processes. -/
structure ForkState extends KernelMemory where
  books : Addr → PcbBook
  nextPid : Int

namespace ForkState

/-- A step of the memory keeps the books. -/
def withMemory (s : ForkState) (m : KernelMemory) : ForkState := { s with toKernelMemory := m }

def updateBook (s : ForkState) (pcbp : Addr) (f : PcbBook → PcbBook) : ForkState :=
  { s with books := Function.update s.books pcbp (f (s.books pcbp)) }

/-- `initPCB` begins a PCB if its first `malloc` finds memory. -/
def findsPcb (s : ForkState) : Bool :=
  match s.library with
  | [] => true
  | answer :: _ => answer.found

/-- `initPCB` sets these fields, and the user context stays as `malloc` found it. -/
def beginBook (newPCB : Addr) (junk : PcbBook) (s : ForkState) : ForkState :=
  if s.findsPcb then
    { s.updateBook newPCB fun _ =>
        { junk with
          pid := s.nextPid
          childrenMap := hashMapNew childrenMapHashBuckets childrenMapHashBuckets_pos
          parent := none
          zombieQ := none
          numRemainingDelayTicks := 0
          numChildren := 0 } with
      nextPid := s.nextPid + 1 }
  else s

/-- `KernelFork` builds the child up to the call of `forkProcess`. -/
def buildChild (memory : ProcessMemory) (junk : PcbBook) (s : ForkState) :
    Outcome (Bool × ForkState) := do
  let parentPCB := s.currPCB
  let childPCB := memory.pcb
  let (made, m) ← s.initPCB memory
  let s := (s.beginBook childPCB junk).withMemory m
  if !made then return (false, s)
  let (found, m) ← m.malloc
  let m := m.updatePcb childPCB fun pcb =>
    { pcb with
      kctxt := if found then some memory.kctxt else none
      brk := m.curr.brk }
  let s := s.updateBook childPCB fun book => { book with uctxt := (s.books parentPCB).uctxt }
  let (copied, m) ← m.copyPages m.curr.r1PageTable memory.r1PageTable maxPtLen 0
  if !copied then return (false, s.withMemory m)
  let m ← m.setPageTableEntry m.tempPtep ⟨false, protNone, 0⟩
  let s := s.updateBook childPCB fun book => { book with parent := some parentPCB }
  let (node, m) ← m.malloc
  let inserted ← hashMapInsertWith node (s.books parentPCB).childrenMap
    (s.books childPCB).pid childPCB
  let s := s.updateBook parentPCB fun book =>
    { book with
      childrenMap := inserted.getD book.childrenMap
      numChildren := book.numChildren + 1 }
  return (true, s.withMemory m)

end ForkState

end

end Yallnix
