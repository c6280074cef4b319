import Yallnix.ToMathlib.Transition
import Yallnix.Construction.AddressSpace

namespace Yallnix

section
variable [Hardware]

/-- `KernelStart` finds this memory and gets these answers of the C library. -/
structure MemoryBoot where
  pmemSize : UInt32
  kernelDataStart : Nat
  kernelDataEnd : Nat
  currKernelBrk : Nat
  /-- The three calls of `malloc` before virtual memory get these answers. -/
  r0Answer : LibraryAnswer
  initR1Answer : LibraryAnswer
  frameListAnswer : LibraryAnswer
  library : List LibraryAnswer
  fills : List (List Nat)
  tables : Addr → PageTable
  r0PageTable : Addr
  initR1PageTable : Addr
  pages : Nat → Page
  pastFrames : Frame
  pcbs : Addr → MemoryPcb
  idle : ProcessMemory
  initPcbp : Addr
  initKctxt : KernelContext
  currKctxt : KernelContext
  request : ImageRequest
  distinctTables : [r0PageTable, initR1PageTable, idle.r1PageTable].Nodup
  distinctPcbs : idle.pcb ≠ initPcbp

/-- An address of 32 bits that is cast to `int` may become negative. -/
def intAddr (addr : Nat) : Int := if addr < 2 ^ 31 then addr else addr - 2 ^ 32

namespace KernelMemory

/-- Nothing is set up when `KernelStart` begins. -/
def beforeStart (boot : MemoryBoot) : KernelMemory where
  tables := boot.tables
  regVmEnable := false
  regPtbr0 := boot.r0PageTable
  regPtbr1 := boot.initR1PageTable
  tlb := fun _ => none
  fills := boot.fills
  written := []
  pages := boot.pages
  frameList := ⟨[], boot.pastFrames, false⟩
  kernelDataStart := boot.kernelDataStart
  kernelDataEnd := boot.kernelDataEnd
  currKernelBrk := boot.currKernelBrk
  pcbs := boot.pcbs
  live := ∅
  currPCB := boot.initPcbp
  idlePCB := boot.idle.pcb
  initPcbp := boot.initPcbp
  starterKctxt := []
  starterKernelStack := fun _ => []
  mode := .kernel
  library := [boot.r0Answer, boot.initR1Answer, boot.frameListAnswer] ++ boot.library
  breakWritten := []

/-- The frames below the break and below the kernel stack limit are in use. -/
def frameAt (brk i : Nat) : Frame :=
  let frameAddr := intAddr (i * pageSize)
  ⟨(frameAddr / pageSize).toNat,
    !(decide (frameAddr < intAddr brk) ||
      decide ((kernelStackBase : Int) ≤ frameAddr) && decide (frameAddr < (vmem1Base : Int)))⟩

/-- `initFrameList` allocates the list before it looks at the break that it was given. -/
def initFrameList (numFrames brk : Nat) (m : KernelMemory) : Outcome (Bool × KernelMemory) := do
  let (found, m) ← m.malloc
  if !found then return (false, m)
  return (true, { m with
    frameList := { m.frameList with frames := (List.range numFrames).map (frameAt brk) } })

/-- The first cutoff at or above the end of the page gives its protection. -/
def r0Prot (kernelDataStart currKernelBrk addr : Nat) : Option Prot :=
  if ((addr + pageSize : Nat) : Int) ≤ intAddr kernelDataStart then some protReadExec
  else if ((addr + pageSize : Nat) : Int) ≤ intAddr currKernelBrk then some protReadWrite
  else if kernelStackBase < addr + pageSize then some protReadWrite
  else none

/-- A page without a protection is skipped. -/
def fillR0Entry (addr : Nat) (ptep : PtePtr) (m : KernelMemory) : Outcome KernelMemory :=
  match r0Prot m.kernelDataStart m.currKernelBrk addr with
  | none => .ok m
  | some prot => m.setPageTableEntryNoFlush ptep ⟨true, prot, addr / pageSize⟩

/-- The loop of `KernelStart` fills the region 0 table. -/
def fillR0PageTable : Nat → Nat → PtePtr → KernelMemory → Outcome KernelMemory
  | 0, _, _, m => .ok m
  | count + 1, addr, ptep, m => do
      let m ← m.fillR0Entry addr ptep
      fillR0PageTable count (addr + pageSize) ptep.next m

/-- `KernelStart` writes the registers. -/
def enableVm (boot : MemoryBoot) (m : KernelMemory) : KernelMemory :=
  { m with toMmu := { m.toMmu with
      regPtbr0 := boot.r0PageTable
      regPtbr1 := boot.initR1PageTable
      regVmEnable := true } }

/-- `KernelStart` runs to the write of `REG_VM_ENABLE`. -/
def enableMemory (boot : MemoryBoot) : Outcome KernelMemory := do
  let m ← orElse .halt ((beforeStart boot).initializeRegionPageTable boot.r0PageTable)
  let m ← orElse .halt (m.initializeRegionPageTable boot.initR1PageTable)
  let m ← orElse .halt (m.initFrameList (boot.pmemSize.toNat / pageSize) m.currKernelBrk)
  let m ← m.fillR0PageTable maxPtLen 0 ⟨boot.r0PageTable, 0⟩
  return m.enableVm boot

/-- `initBuffers` maps one page below the temporary page. -/
def initBuffers (m : KernelMemory) : Outcome KernelMemory := do
  match getFrame m.frameList with
  | (none, _) => .error .halt
  | (some pfn, frames) =>
      let m ← { m with frameList := frames }.setPageTableEntry m.tempPtep.previous
        ⟨true, protReadWrite, pfn⟩
      orElse .halt m.malloc

/-- `LoadIdle` maps one stack page in a table that no register names. -/
def loadIdle (idlePCB : Addr) (m : KernelMemory) : Outcome KernelMemory :=
  match getFrame m.frameList with
  | (none, _) => .error .halt
  | (some pfn, frames) =>
      { m with frameList := frames }.setPageTableEntryNoFlush
        ⟨(m.pcbs idlePCB).r1PageTable, (maxPtLen : Int) - 1⟩ ⟨true, protReadWrite, pfn⟩

/-- `initInitProcess` takes over the kernel stack of the machine. -/
def initInitProcess (boot : MemoryBoot) (m : KernelMemory) : Outcome KernelMemory := do
  let m ← orElse .halt m.malloc
  let m := m.updatePcb boot.initPcbp fun pcb =>
    { pcb with
      kctxt := some boot.initKctxt
      r1PageTable := boot.initR1PageTable
      stackPfns := fun i =>
        ((m.entryOf (r0StackBase + i.val)).getD ⟨false, protNone, 0⟩).pfn }
  return { m with live := insert boot.initPcbp m.live }

/-- `KernelStart` goes on after virtual memory is enabled and lets `init` run. -/
def startProcesses (boot : MemoryBoot) (m : KernelMemory) : Outcome KernelMemory := do
  let m ← m.initBuffers
  let m ← orElse .halt m.malloc
  let m ← orElse .halt (m.initPCB boot.idle)
  let m ← { m with live := insert boot.idle.pcb m.live }.loadIdle boot.idle.pcb
  let m ← m.initInitProcess boot
  let (status, m) ← m.loadProgram boot.request boot.initPcbp
  if status ≠ successCode then .error .halt
  else do
    let m ← orElse .halt { m with currPCB := boot.initPcbp }.malloc
    let (_, m) ← m.getStarterKernelState boot.currKctxt
    return m

/-- The kernel boots from physical memory to the first return to user mode. -/
def boot (boot : MemoryBoot) : Outcome KernelMemory := do
  let m ← enableMemory boot
  m.startProcesses boot

end KernelMemory

/-- Kernel calls and traps act on memory, and kernel code goes on until it returns. -/
inductive MemoryAct where
  | fork (memory : ProcessMemory) (currKctxt : KernelContext)
  | exec (request : ImageRequest)
  | brk (addr : Nat)
  | memoryTrap (addr : Nat)
  | exit
  | userStore (vpn : Nat) (page : Page)
  | ttyReceive (page : Page)
  /-- All other calls and interrupts allocate and run other processes. -/
  | allocate
  | switch (currKctxt : KernelContext) (nextPCB : Addr)
  | kernelExit (freedTable : PageTable) (nextPCB : Addr)
  | returnToUser

/-- An input comes with the TLB fills and the answers of the C library during its work. -/
structure MemoryInput where
  act : MemoryAct
  fills : List (List Nat)
  library : List LibraryAnswer

namespace KernelMemory

/-- The kernel works on one input. -/
def perform (m : KernelMemory) : MemoryAct → Outcome KernelMemory
  | .fork memory currKctxt => { m with mode := .kernel }.kernelFork memory currKctxt
  | .exec request => { m with mode := .kernel }.kernelExec request
  | .brk addr => do
      let (_, m) ← { m with mode := .kernel }.kernelBrk addr
      return m
  | .memoryTrap addr => { m with mode := .kernel }.handleTrapMemory addr
  | .exit => .ok { m with mode := .exiting }
  | .userStore vpn page => { m with toMmu := m.toMmu.tick }.writePage vpn page
  | .ttyReceive page => { m with mode := .kernel }.writePage (tempIndex - 1) page
  | .allocate => { m with mode := .kernel }.free
  | .switch currKctxt nextPCB => do
      let (_, m) ← { m with mode := .kernel }.switchBetween currKctxt (some m.currPCB) nextPCB
      return m
  | .kernelExit freedTable nextPCB => do
      let m ← m.kernelExit freedTable nextPCB
      return { m with mode := .kernel }
  | .returnToUser => .ok { m with mode := .user }

def handle (m : KernelMemory) (i : MemoryInput) : Outcome KernelMemory :=
  { m with fills := i.fills, library := i.library }.perform i.act

/-- No live process and no register names a free table. -/
def freeTable (m : KernelMemory) (table : Addr) : Prop :=
  table ≠ m.regPtbr0 ∧ table ≠ m.regPtbr1 ∧ ∀ pcbp ∈ m.live, table ≠ (m.pcbs pcbp).r1PageTable

instance (m : KernelMemory) (table : Addr) : Decidable (m.freeTable table) := by
  unfold freeTable
  infer_instance

/-- The idle process makes no call and does not fault, and `malloc` gives free memory. -/
def enabled (m : KernelMemory) (i : MemoryInput) : Prop :=
  match i.act with
  | .fork memory _ =>
      m.mode = .user ∧ m.currPCB ≠ m.idlePCB ∧ memory.pcb ∉ m.live ∧
        m.freeTable memory.r1PageTable
  | .exec _ | .brk _ | .memoryTrap _ | .exit => m.mode = .user ∧ m.currPCB ≠ m.idlePCB
  | .userStore vpn _ => m.mode = .user ∧ maxPtLen ≤ vpn
  | .ttyReceive _ => m.mode = .user
  | .allocate => m.mode ≠ .exiting
  | .switch _ nextPCB => m.mode ≠ .exiting ∧ nextPCB ∈ m.live
  | .kernelExit _ nextPCB => m.mode = .exiting ∧ nextPCB ∈ m.live ∧ nextPCB ≠ m.currPCB
  | .returnToUser => m.mode = .kernel

instance (m : KernelMemory) (i : MemoryInput) : Decidable (m.enabled i) := by
  unfold enabled
  split <;> infer_instance

end KernelMemory

/-- The memory of the kernel starts in some states and answers the enabled inputs. -/
def memoryMachine (first : KernelMemory → Prop) : Machine KernelMemory MemoryInput where
  start := first
  step m i n := m.enabled i ∧ m.handle i = .ok n

/-- The memory of the kernel starts where `KernelStart` leaves it. -/
def bootedMemory : Machine KernelMemory MemoryInput :=
  memoryMachine fun m => ∃ boot, KernelMemory.boot boot = .ok m

namespace KernelMemory

/-- The machine answers a list of enabled inputs in order. -/
def drive (guard : KernelMemory → MemoryInput → Prop) [∀ m i, Decidable (guard m i)]
    (m : KernelMemory) : List MemoryInput → Outcome KernelMemory
  | [] => .ok m
  | i :: inputs =>
      if guard m i ∧ m.enabled i then m.handle i >>= fun n => drive guard n inputs
      else .error .halt

theorem run_drive {first : KernelMemory → Prop} {guard : KernelMemory → MemoryInput → Prop}
    [∀ m i, Decidable (guard m i)] {m n : KernelMemory} (inputs : List MemoryInput)
    (run : (memoryMachine first).Run guard m) (driven : m.drive guard inputs = .ok n) :
    (memoryMachine first).Run guard n := by
  induction inputs generalizing m with
  | nil =>
      cases driven
      exact run
  | cons i inputs ih =>
      rw [drive] at driven
      split at driven
      · rename_i ready
        obtain ⟨k, handled, driven⟩ := Outcome.bind_eq_ok.mp driven
        exact ih (run.step ready.1 ⟨ready.2, handled⟩) driven
      · cases driven

end KernelMemory

end

end Yallnix
