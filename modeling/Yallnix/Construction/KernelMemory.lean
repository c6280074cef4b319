import Yallnix.Construction.Mmu
import Yallnix.Construction.Scheduler

namespace Yallnix

/-- A frame of physical memory holds one page of bytes. -/
abbrev Page := List Byte

/-- The bytes of a saved kernel context. -/
abbrev KernelContext := List Byte

/-- The C library calls `SetKernelBrk` with these addresses before it answers. -/
structure LibraryAnswer where
  breaks : List Nat
  found : Bool
  deriving DecidableEq, Repr

/-- The CPU runs user code, kernel code, or the start of `KernelExit`. -/
inductive Mode where
  | user
  | kernel
  | exiting
  deriving DecidableEq, Repr

section
variable [Hardware]

/-- These fields of a PCB describe memory and the saved context. -/
structure MemoryPcb where
  brk : Nat
  kctxt : Option KernelContext
  r1PageTable : Addr
  stackPfns : Fin kernelStackPages → Nat

/-- This state holds the page tables, the frames and the memory fields of all processes. -/
structure KernelMemory extends Mmu where
  /-- The frame with this number holds these bytes. -/
  pages : Nat → Page
  frameList : FrameList
  kernelDataStart : Nat
  kernelDataEnd : Nat
  currKernelBrk : Nat
  pcbs : Addr → MemoryPcb
  live : Finset Addr
  currPCB : Addr
  idlePCB : Addr
  initPcbp : Addr
  starterKctxt : KernelContext
  starterKernelStack : Fin kernelStackPages → Page
  mode : Mode
  /-- The next calls of `malloc` and `free` get these answers. -/
  library : List LibraryAnswer
  /-- This ghost list records the entries that successful calls of `SetKernelBrk` wrote. -/
  breakWritten : List PtePtr

/-- The temporary entry has this protection while it is in use. -/
def protWrite : Prot := ⟨false, true, false⟩

/-- `KERNEL_STACK_BASE` -/
def kernelStackBase : Nat := r0StackBase * pageSize

namespace KernelMemory

/-- The PCB of the running process. -/
def curr (m : KernelMemory) : MemoryPcb := m.pcbs m.currPCB

def updatePcb (m : KernelMemory) (pcbp : Addr) (f : MemoryPcb → MemoryPcb) : KernelMemory :=
  { m with pcbs := Function.update m.pcbs pcbp (f (m.pcbs pcbp)) }

/-- `r0StackBasePtep + i` -/
def stackPtep (m : KernelMemory) (i : Fin kernelStackPages) : PtePtr :=
  ⟨m.regPtbr0, r0StackBase + i.val⟩

/-- `tempPtep` -/
def tempPtep (m : KernelMemory) : PtePtr := ⟨m.regPtbr0, (r0StackBase : Int) - 1⟩

/-- A read of a page goes through its entry. -/
def readPage (vpn : Nat) (m : KernelMemory) : Outcome Page :=
  match m.entryOf vpn with
  | none => .error .fault
  | some pte => if pte.valid && pte.prot.read then .ok (m.pages pte.pfn) else .error .fault

/-- A write of a page goes through its entry. -/
def writePage (vpn : Nat) (page : Page) (m : KernelMemory) : Outcome KernelMemory :=
  match m.entryOf vpn with
  | none => .error .fault
  | some pte =>
      if pte.valid && pte.prot.write then
        .ok { m with pages := Function.update m.pages pte.pfn page }
      else .error .fault

/-- `memmove` copies a whole page. -/
def copyPage (target source : Nat) (m : KernelMemory) : Outcome KernelMemory := do
  let page ← m.readPage source
  m.writePage target page

def setPageTableEntry (ptep : PtePtr) (pte : Pte) (m : KernelMemory) : Outcome KernelMemory := do
  return { m with toMmu := ← m.toMmu.setPageTableEntry ptep pte }

def setPageTableEntryNoFlush (ptep : PtePtr) (pte : Pte) (m : KernelMemory) :
    Outcome KernelMemory := do
  return { m with toMmu := ← m.toMmu.setPageTableEntryNoFlush ptep pte }

def invalidatePageTableEntry (ptep : PtePtr) (m : KernelMemory) : Outcome KernelMemory := do
  return { m with toMmu := ← m.toMmu.invalidatePageTableEntry ptep }

/-- The growth loops map `count` pages upwards and stop at the first missing frame. -/
def mapPages (prot : Prot) : Nat → PtePtr → KernelMemory → Outcome (Bool × KernelMemory)
  | 0, _, m => .ok (true, m)
  | count + 1, ptep, m =>
      match getFrame m.frameList with
      | (none, frames) => .ok (false, { m with frameList := frames })
      | (some pfn, frames) => do
          let m ← { m with frameList := frames }.setPageTableEntry ptep ⟨true, prot, pfn⟩
          mapPages prot count ptep.next m

/-- The shrink loops free the frame of every entry whatever its valid bit says. -/
def unmapPages : Nat → PtePtr → KernelMemory → Outcome KernelMemory
  | 0, _, m => .ok m
  | count + 1, ptep, m => do
      let pte ← readEntry (m.tables ptep.table) ptep.index
      let m ← { m with
        frameList := freeFrame m.frameList pte.pfn }.invalidatePageTableEntry ptep
      unmapPages count ptep.next m

/-- `KernelBrk` and `SetKernelBrk` compare the pages of the two addresses. -/
def brkPages (table : Addr) (baseVpn addr currBrk : Nat) (m : KernelMemory) :
    Outcome (Bool × KernelMemory) :=
  let addrVpn := addr / pageSize
  let currBrkVpn := currBrk / pageSize
  if addrVpn < currBrkVpn then do
    let currVpn := if downToPage addr = addr then addrVpn else addrVpn + 1
    let lastVpn := if downToPage currBrk = currBrk then currBrkVpn - 1 else currBrkVpn
    let m ← m.unmapPages (lastVpn + 1 - currVpn) ⟨table, (currVpn : Int) - baseVpn⟩
    return (true, m)
  else if addrVpn = currBrkVpn then
    if addr < currBrk ∧ downToPage addr = addr then do
      let m ← m.unmapPages 1 ⟨table, (addrVpn : Int) - baseVpn⟩
      return (true, m)
    else if currBrk < addr ∧ downToPage currBrk = currBrk then
      m.mapPages protReadWrite 1 ⟨table, (addrVpn : Int) - baseVpn⟩
    else .ok (true, m)
  else
    let currVpn := if downToPage currBrk = currBrk then currBrkVpn else currBrkVpn + 1
    let lastVpn := if downToPage addr = addr then addrVpn - 1 else addrVpn
    m.mapPages protReadWrite (lastVpn + 1 - currVpn) ⟨table, (currVpn : Int) - baseVpn⟩

/-- `SetKernelBrk` moves pages only after virtual memory is enabled. -/
def setKernelBrk (addr : Nat) (m : KernelMemory) : Outcome (Int × KernelMemory) := do
  if kernelStackBase ≤ addr then return (errorCode, m)
  if addr < m.kernelDataEnd then return (errorCode, m)
  if !m.regVmEnable then return (successCode, { m with currKernelBrk := addr })
  let (moved, next) ← m.brkPages m.regPtbr0 0 addr m.currKernelBrk
  if !moved then return (errorCode, next)
  return (successCode, { next with
    currKernelBrk := addr
    breakWritten :=
      next.written.take (next.written.length - m.written.length) ++ next.breakWritten })

/-- The C library moves the break step by step. -/
def moveBreaks : List Nat → KernelMemory → Outcome KernelMemory
  | [], m => .ok m
  | addr :: rest, m => do
      let (_, m) ← m.setKernelBrk addr
      moveBreaks rest m

/-- `malloc` may move the kernel break and may find no memory. -/
def malloc (m : KernelMemory) : Outcome (Bool × KernelMemory) :=
  match m.library with
  | [] => .ok (true, m)
  | answer :: library => do
      let m ← { m with library := library }.moveBreaks answer.breaks
      return (answer.found, m)

/-- `free` may move the kernel break too. -/
def free (m : KernelMemory) : Outcome KernelMemory := do
  let (_, m) ← m.malloc
  return m

/-- The machine stops when an allocation fails and the code relies on it. -/
def orElse (stop : Stop) (result : Outcome (Bool × KernelMemory)) : Outcome KernelMemory :=
  match result with
  | .ok (true, m) => .ok m
  | .ok (false, _) => .error stop
  | .error stop => .error stop

/-- The kernel allocates a table of invalid entries. -/
def initializeRegionPageTable (table : Addr) (m : KernelMemory) :
    Outcome (Bool × KernelMemory) := do
  let (found, m) ← m.malloc
  if !found then return (false, m)
  return (true, { m with
    tables := Function.update m.tables table Yallnix.initializeRegionPageTable })

end KernelMemory

end

end Yallnix
