import Yallnix.Construction.KernelStart

namespace Yallnix

section
variable [Hardware]

/-- `delete_process` reads these fields of a PCB, and `initPCB` sets them one by one. -/
inductive PcbField where
  | pid
  | uctxt
  | childrenMap
  | kctxt
  | parent
  | zombieQ
  | r1PageTable
  | numRemainingDelayTicks
  | numChildren
  | stackPfn (i : Fin kernelStackPages)
  deriving DecidableEq

/-- Each call of `malloc` in `initPCB` finds memory or not. -/
structure PcbMemory where
  pcb : Bool
  uctxt : Bool
  childrenMap : Bool
  r1PageTable : Bool
  /-- A walk of the page table NULL reads these entries. -/
  nullTable : PageTable

/-- `KernelFork` also allocates the kernel context and two nodes. -/
structure ForkMemory extends PcbMemory where
  kctxt : Bool
  childNode : Bool
  readyNode : Bool

/-- The ghost lists name the fields that `initPCB` set and that `delete_process` read. -/
structure InitResult where
  code : Int
  scheduler : Scheduler
  wasSet : List PcbField
  wasRead : List PcbField

/-- `delete_process` reads these fields of every PCB. -/
def deleteProcessReads : List PcbField :=
  [.pid, .uctxt, .kctxt, .childrenMap, .zombieQ, .r1PageTable] ++
    (List.finRange kernelStackPages).map .stackPfn

/-- Each failure of `initPCB` behind its first `malloc` deletes the PCB. The heap is not part of
the state, so a `free` of an unset pointer shows only in the ghost lists. -/
def initFailed (newPCB : Addr) (junk : PCB) (wasSet : List PcbField) (s : Scheduler) :
    InitResult :=
  ⟨errorCode, deleteProcess newPCB junk s, wasSet, deleteProcessReads⟩

/-- The loop of `initPCB` sets the slots of the kernel stack in order. -/
def takeStackSlots (newPCB : Addr) :
    List (Fin kernelStackPages) → List PcbField → Scheduler → Bool × List PcbField × Scheduler
  | [], wasSet, s => (true, wasSet, s)
  | i :: rest, wasSet, s =>
      match getFrame s.frameList with
      | (none, frames) => (false, wasSet, { s with frameList := frames })
      | (some pfn, frames) =>
          takeStackSlots newPCB rest (.stackPfn i :: wasSet)
            ({ s with frameList := frames }.updatePcb newPCB fun pcb =>
              { pcb with stackPfns := Function.update pcb.stackPfns i pfn })

/-- `initPCB` gets these answers of `malloc`. -/
def initPCBWith (memory : PcbMemory) (newPCB : Addr) (junk : PCB) (s : Scheduler) :
    InitResult :=
  if !memory.pcb then ⟨errorCode, s, [], []⟩
  else
    let s := { s.updatePcb newPCB fun pcb => { pcb with pid := s.nextPid } with
      nextPid := s.nextPid + 1
      allocated := insert newPCB s.allocated }
    let wasSet : List PcbField := [.uctxt, .pid]
    if !memory.uctxt then initFailed newPCB junk wasSet s
    else
      let wasSet := .childrenMap :: wasSet
      if !memory.childrenMap then initFailed newPCB junk wasSet s
      else
        let s := s.updatePcb newPCB fun pcb =>
          { pcb with
            childrenMap := hashMapNew childrenMapHashBuckets childrenMapHashBuckets_pos
            kctxt := none
            parent := none
            zombieQ := none
            r1PageTable :=
              if memory.r1PageTable then initializeRegionPageTable else memory.nullTable }
        let wasSet := .r1PageTable :: .zombieQ :: .parent :: .kctxt :: wasSet
        if !memory.r1PageTable then initFailed newPCB junk wasSet s
        else
          let s := s.updatePcb newPCB fun pcb =>
            { pcb with numRemainingDelayTicks := 0, numChildren := 0 }
          let wasSet := .numChildren :: .numRemainingDelayTicks :: wasSet
          match takeStackSlots newPCB (List.finRange kernelStackPages) wasSet s with
          | (true, wasSet, s) => ⟨successCode, s, wasSet, []⟩
          | (false, wasSet, s) => initFailed newPCB junk wasSet s

/-- `forkProcess` needs a node of `readyQ`, and `forkTo` writes through the new context. -/
def forkProcessWith (memory : ForkMemory) (currKctxt : Pos) (childPCB : Addr) (s : Scheduler) :
    Outcome (Flow Scheduler) :=
  match (s.pcbs childPCB).parent with
  | none => .ok (.ret s errorCode)
  | some parent =>
      if (s.pcbs parent).pid ≠ s.curr.pid then .ok (.ret s errorCode)
      else if !memory.readyNode then .ok (.ret s errorCode)
      else if !memory.kctxt then .error .fault
      else .ok (forkProcess currKctxt childPCB s)

/-- `HashMap_insert` gives up without a node. -/
def hashMapInsertWith (node : Bool) (map : HashMap Addr) (key : Int) (item : Addr) :
    Outcome (Option (HashMap Addr)) :=
  if node then hashMapInsert map key item else .ok none

/-- `KernelFork` gets these answers of `malloc` and ignores the result of `HashMap_insert`. -/
def kernelForkWith (memory : ForkMemory) (oracle : Oracle) (s : Scheduler) :
    Outcome (Flow Scheduler) := do
  let parentPCB := s.currPCB
  let childPCB := oracle.pcb
  let made := initPCBWith memory.toPcbMemory childPCB oracle.junk s
  let s := made.scheduler
  if made.code = errorCode then return .ret s errorCode
  let parent := s.pcbs parentPCB
  let (copied, table, frames, temp) := copyPages parent.r1PageTable s.frameList
    (s.r0PageTable.getD tempIndex ⟨false, protNone, 0⟩)
  let s := { s.updatePcb childPCB fun pcb =>
      { pcb with uctxt := parent.uctxt, brk := parent.brk, r1PageTable := table } with
    frameList := frames
    r0PageTable := s.r0PageTable.set tempIndex temp }
  if !copied then return .ret s errorCode
  let s := { s with r0PageTable := s.r0PageTable.set tempIndex ⟨false, protNone, 0⟩ }
  let s := s.updatePcb childPCB fun pcb => { pcb with parent := some parentPCB }
  let inserted ← hashMapInsertWith memory.childNode (s.pcbs parentPCB).childrenMap
    (s.pcbs childPCB).pid childPCB
  let s := s.updatePcb parentPCB fun pcb =>
    { pcb with
      childrenMap := inserted.getD pcb.childrenMap
      numChildren := pcb.numChildren + 1 }
  forkProcessWith memory (.fork parentPCB childPCB) childPCB s

/-- An input comes with the answers of `malloc` for a fork. -/
structure ScarceInput where
  input : Input
  memory : ForkMemory

/-- Memory may run out in `KernelFork`, and every other input finds its memory. -/
def handleWith (s : Kernel) (i : ScarceInput) : Outcome Kernel :=
  match i.input with
  | .kernelCall .fork oracle => do
      return finishScheduler .fork s (← kernelForkWith i.memory oracle s.toScheduler)
  | input => handle s input

/-- The kernel also answers forks that run out of memory. -/
def scarceYallnix : Machine Kernel ScarceInput where
  start := yallnix.start
  step s i t := enabled s i.input ∧ handleWith s i = .ok t

end

end Yallnix
