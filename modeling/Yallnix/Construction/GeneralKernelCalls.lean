import Yallnix.Construction.LoadProgram

namespace Yallnix

section
variable [Hardware]

/-- A kernel call gets the answers of `malloc` and the memory that it may read by mistake. -/
structure Oracle where
  /-- `malloc` gives this address to a new PCB. -/
  pcb : Addr
  /-- The memory of a deleted PCB holds this later. -/
  junk : PCB
  /-- These entries lie behind the region 1 page table. -/
  pastTable : Nat → Pte
  /-- `malloc` leaves these bytes in a new buffer. -/
  freshBytes : Nat → Byte

/-- The loop of `isValidBuffer` steps one entry for each page size of the remaining length. -/
def isValidPages (table : Nat → Pte) (prot : Prot) : Nat → Nat → Bool
  | 0, _ => true
  | pages + 1, index =>
      (table index).valid && (table index).prot.includes prot &&
        isValidPages table prot pages (index + 1)

/-- `isValidBuffer` reads the entries from the first page on, even behind the table. -/
def isValidBuffer (r0 r1 : Nat → Pte) (buffer : Nat) (len : Int) (prot : Prot) : Bool :=
  if buffer = 0 then false
  else if len ≤ 0 then true
  else
    let firstPageVpn := buffer / pageSize
    let pages := (len.toNat + pageSize - 1) / pageSize
    if firstPageVpn < maxPtLen then isValidPages r0 prot pages firstPageVpn
    else if firstPageVpn < maxPtLen * 2 then isValidPages r1 prot pages (firstPageVpn - userBaseVpn)
    else false

/-- The inner loop of `isValidString` looks at this many bytes for a zero. -/
def hasZero (memory : Nat → Byte) : Nat → Nat → Bool
  | 0, _ => false
  | count + 1, currChar => memory currChar == 0 || hasZero memory count (currChar + 1)

/-- The loop of `isValidString` never advances the entry that it tests. -/
def isValidStringPages (currPte : Pte) (memory : Nat → Byte) : Nat → Nat → Nat → Bool
  | 0, _, _ => false
  | pages + 1, currChar, nextPageBase =>
      if !(currPte.valid && currPte.prot.includes protRead) then false
      else if hasZero memory (nextPageBase - currChar) currChar then true
      else isValidStringPages currPte memory pages nextPageBase (nextPageBase + pageSize)

/-- `isValidString` stays in the region in which the string begins. -/
def isValidString (r0 r1 : Nat → Pte) (memory : Nat → Byte) (string : Nat) : Bool :=
  if string = 0 then false
  else
    let firstPageVpn := string / pageSize
    let nextPageBase := firstPageVpn * pageSize + pageSize
    if firstPageVpn < maxPtLen then
      isValidStringPages (r0 firstPageVpn) memory (maxPtLen - firstPageVpn) string nextPageBase
    else if firstPageVpn < maxPtLen * 2 then
      isValidStringPages (r1 (firstPageVpn - userBaseVpn)) memory (maxPtLen * 2 - firstPageVpn)
        string nextPageBase
    else false

/-- The loop of `KernelFork` copies the valid pages through the temporary entry. -/
def copyPages : PageTable → FrameList → Pte → Bool × PageTable × FrameList × Pte
  | [], frames, temp => (true, [], frames, temp)
  | pte :: rest, frames, temp =>
      if pte.valid then
        match getFrame frames with
        | (none, frames) =>
            (false, List.replicate (rest.length + 1) ⟨false, protNone, 0⟩, frames, temp)
        | (some pfn, frames) =>
            let (copied, table, frames, temp) :=
              copyPages rest frames ⟨true, ⟨false, true, false⟩, pfn⟩
            (copied, ⟨true, pte.prot, pfn⟩ :: table, frames, temp)
      else
        let (copied, table, frames, temp) := copyPages rest frames temp
        (copied, ⟨false, protNone, 0⟩ :: table, frames, temp)

/-- `KernelFork` builds the child and runs it. -/
def kernelFork (oracle : Oracle) (s : Scheduler) : Outcome (Flow Scheduler) := do
  let parentPCB := s.currPCB
  let childPCB := oracle.pcb
  let (code, s) := initPCB childPCB oracle.junk s
  if code = errorCode then return .ret s errorCode
  let parent := s.pcbs parentPCB
  let (copied, table, frames, temp) := copyPages parent.r1PageTable s.frameList
    (s.r0PageTable.getD tempIndex ⟨false, protNone, 0⟩)
  let s := { s.updatePcb childPCB fun pcb =>
      { pcb with uctxt := parent.uctxt, brk := parent.brk, r1PageTable := table } with
    frameList := frames
    r0PageTable := s.r0PageTable.set tempIndex temp }
  if !copied then return .ret s errorCode
  let s := { s with r0PageTable := s.r0PageTable.set tempIndex ⟨false, protNone, 0⟩ }
  let s := s.updatePcb childPCB fun pcb => { pcb with parent := some parentPCB }
  let inserted ← hashMapInsert (s.pcbs parentPCB).childrenMap (s.pcbs childPCB).pid childPCB
  let s := s.updatePcb parentPCB fun pcb =>
    { pcb with
      childrenMap := inserted.getD pcb.childrenMap
      numChildren := pcb.numChildren + 1 }
  return forkProcess (.fork parentPCB childPCB) childPCB s

/-- `KernelFork` reads both PCBs again after the context switch. -/
def kernelForkReturn (parentPCB childPCB : Addr) (s : Scheduler) : Int :=
  if s.curr.pid = (s.pcbs parentPCB).pid then (s.pcbs childPCB).pid
  else if s.curr.pid = (s.pcbs childPCB).pid then successCode
  else errorCode

/-- A failed load after the last check ends the process. -/
def kernelExec (request : ExecRequest) (s : Scheduler) : Outcome (Flow Scheduler) := do
  if !request.stringsValid then return .ret s errorCode
  let (status, proc, frames) ← loadProgram request s.curr s.frameList
  let s := { s.updatePcb s.currPCB fun _ => proc with frameList := frames }
  if status = killCode then return .go { s with cpu := .exit errorCode }
  if status = errorCode then return .ret s errorCode
  return execProcess s

/-- The exit of `init` halts the machine. -/
def kernelExit (status : Int) (junk : PCB) (s : Scheduler) : Outcome Scheduler := do
  if s.curr.pid = s.initPid then .error .halt
  else
    match ← exitProcess status junk s with
    | .ret _ _ => .error .halt
    | .go s => return s

/-- `KernelWait` resumes here after a block, whatever woke it. -/
def kernelWaitCollect (s : Scheduler) : Int × Scheduler :=
  match deqQ (s.curr.zombieQ.getD makeQ) with
  | (none, _) => (errorCode, s)
  | (some childZombie, rest) =>
      (childZombie.pid,
        (s.updatePcb s.currPCB fun pcb =>
          { pcb with zombieQ := pcb.zombieQ.map fun _ => rest }).record
            (.waited s.curr.pid childZombie.pid childZombie.exitStatus))

def kernelWait (statusPtr : Nat) (s : Scheduler) : Outcome (Flow Scheduler) := do
  if getAddressRegion statusPtr ≠ 1 then return .ret s errorCode
  let prot ← getAddressProt s.curr.r1PageTable statusPtr
  if prot ≠ protReadWrite then return .ret s errorCode
  if s.curr.numChildren ≤ 0 then return .ret s errorCode
  if peekQ (s.curr.zombieQ.getD makeQ) = none then
    match ← blockProcess (.waitWoken statusPtr) s with
    | .ret _ _ => .error .halt
    | .go s => return .go s
  else
    let (code, s) := kernelWaitCollect s
    return .ret s code

/-- A page table and the frames go back into the state of the current process. -/
def Scheduler.setMemory (s : Scheduler) (memory : PageTable × FrameList) : Scheduler :=
  { s.updatePcb s.currPCB fun pcb => { pcb with r1PageTable := memory.1 } with
    frameList := memory.2 }

/-- The three cases of `KernelBrk` compare the pages of the two addresses. -/
def brkPages (addr currBrk : Nat) (memory : PageTable × FrameList) :
    Outcome (Bool × PageTable × FrameList) :=
  let addrVpn := addr / pageSize
  let currBrkVpn := currBrk / pageSize
  if addrVpn < currBrkVpn then do
    let currVpn := if downToPage addr = addr then addrVpn else addrVpn + 1
    let lastVpn := if downToPage currBrk = currBrk then currBrkVpn - 1 else currBrkVpn
    let memory ← unmapPages (lastVpn + 1 - currVpn) (currVpn - userBaseVpn) memory
    return (true, memory)
  else if addrVpn = currBrkVpn then
    if addr < currBrk ∧ downToPage addr = addr then do
      let memory ← unmapPages 1 (addrVpn - userBaseVpn) memory
      return (true, memory)
    else if currBrk < addr ∧ downToPage currBrk = currBrk then
      mapPages protReadWrite 1 (addrVpn - userBaseVpn) memory
    else .ok (true, memory)
  else
    let currVpn := if downToPage currBrk = currBrk then currBrkVpn else currBrkVpn + 1
    let lastVpn := if downToPage addr = addr then addrVpn - 1 else addrVpn
    mapPages protReadWrite (lastVpn + 1 - currVpn) (currVpn - userBaseVpn) memory

/-- `KernelBrk` leaves the mapped pages in place when it runs out of frames. -/
def kernelBrk (addr : Nat) (s : Scheduler) : Outcome (Int × Scheduler) := do
  if getAddressRegion addr ≠ 1 then return (errorCode, s)
  let (mapped, memory) ← brkPages addr s.curr.brk (s.curr.r1PageTable, s.frameList)
  let s := s.setMemory memory
  if !mapped then return (errorCode, s)
  return (successCode, s.updatePcb s.currPCB fun pcb => { pcb with brk := addr })

def kernelDelay (clockTicks : Int) (s : Scheduler) : Outcome (Flow Scheduler) := do
  if clockTicks = 0 then return .ret s successCode
  if clockTicks < 0 then return .ret s errorCode
  sleepProcess clockTicks s

/-- `handleTrapMemory` grows the stack or ends the process. -/
def handleTrapMemory (addr : Nat) (s : Scheduler) : Outcome Scheduler := do
  let targetPageNumber := addr / pageSize
  let breakPageNumber := s.curr.brk / pageSize
  if targetPageNumber ≤ breakPageNumber + 1 then return { s with cpu := .exit errorCode }
  let (mapped, memory) ← growStack (2 * maxPtLen - targetPageNumber) (maxPtLen - 1)
    (s.curr.r1PageTable, s.frameList)
  let s := s.setMemory memory
  if !mapped then return { s with cpu := .exit errorCode }
  return s

end

end Yallnix
