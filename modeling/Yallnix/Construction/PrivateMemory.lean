import Yallnix.Construction.MemoryMachine

namespace Yallnix

section
variable [Hardware]

/-- A program sees the protection and the bytes of a page. -/
structure UserPage where
  prot : Prot
  bytes : Page

/-- A process has a break, a region 1, a kernel stack and a saved context of its own. -/
structure PrivateProcess where
  brk : Nat
  region1 : Nat → Option UserPage
  stack : Fin kernelStackPages → Page
  kctxt : Option KernelContext

/-- These inputs let a process run that did not run before. -/
def MemoryAct.enters : MemoryAct → Option Addr
  | .fork memory _ => some memory.pcb
  | .switch _ nextPCB | .kernelExit _ nextPCB => some nextPCB
  | _ => none

/-- The other inputs change or end the region 1 of the running process. -/
def MemoryAct.sparesPages : MemoryAct → Bool
  | .exec _ | .brk _ | .memoryTrap _ | .exit | .userStore .. | .kernelExit .. => false
  | _ => true

/-- The processes share no memory, and one of them runs. -/
@[ext]
structure PrivateMemory where
  running : Addr
  mode : Mode
  processes : Addr → Option PrivateProcess
  starterKctxt : KernelContext
  starterKernelStack : Fin kernelStackPages → Page

/-- The first address of a page of region 1. -/
def region1Addr (i : Nat) : Nat := (maxPtLen + i) * pageSize

namespace PrivateProcess

/-- A program stores to one of its writable pages. -/
inductive Stores (vpn : Nat) (bytes : Page) (p : PrivateProcess) : PrivateProcess → Prop where
  | store {old : UserPage} (mapped : p.region1 (vpn - maxPtLen) = some old)
      (writable : old.prot.write = true) :
      Stores vpn bytes p { p with
        region1 := Function.update p.region1 (vpn - maxPtLen) (some { old with bytes := bytes }) }

/-- The bytes of a new page are whatever its frame held. -/
def Fresh (page : Option UserPage) : Prop := ∃ bytes, page = some ⟨protReadWrite, bytes⟩

/-- `KernelBrk` unmaps or maps the pages between the two breaks and keeps all other pages. -/
inductive MovesBreak (addr : Nat) (p : PrivateProcess) : PrivateProcess → Prop where
  | refuses (outside : getAddressRegion addr ≠ 1) : MovesBreak addr p p
  | moves {region1 : Nat → Option UserPage} (inside : getAddressRegion addr = 1)
      (unmapped : ∀ i, addr ≤ region1Addr i → region1Addr i < p.brk → region1 i = none)
      (mapped : ∀ i, p.brk ≤ region1Addr i → region1Addr i < addr → Fresh (region1 i))
      (kept : ∀ i, (region1Addr i < addr ↔ region1Addr i < p.brk) → region1 i = p.region1 i) :
      MovesBreak addr p { p with brk := addr, region1 := region1 }

/-- The memory trap ends the process, or all pages from the fault upwards are mapped. -/
inductive GrowsStack (addr : Nat) (p : PrivateProcess) : PrivateProcess → Mode → Prop where
  | ends (low : addr / pageSize ≤ p.brk / pageSize + 1) : GrowsStack addr p p .exiting
  | grows {region1 : Nat → Option UserPage} (high : p.brk / pageSize + 1 < addr / pageSize)
      (mapped : ∀ i < maxPtLen, addr / pageSize ≤ maxPtLen + i → p.region1 i = none →
        Fresh (region1 i))
      (kept : ∀ i, p.region1 i ≠ none ∨ maxPtLen + i < addr / pageSize ∨ maxPtLen ≤ i →
        region1 i = p.region1 i) :
      GrowsStack addr p { p with region1 := region1 } .kernel

/-- A loaded program has its text, its data and its stack, and nothing else. -/
def imagePage (li : LoadInfo) (request : ImageRequest) (i : Nat) : Option UserPage :=
  if i < li.tNpg then some ⟨protReadExec, request.image (maxPtLen + i)⟩
  else if i < li.tNpg + (li.idNpg + li.udNpg) ∨
      maxPtLen ≤ loadStackPages request.argLengths + i ∧ i < maxPtLen then
    some ⟨protReadWrite, request.image (maxPtLen + i)⟩
  else none

/-- `KernelExec` refuses the program, ends the process or replaces the whole process. -/
inductive Executes (s : PrivateMemory) (request : ImageRequest) (p : PrivateProcess) :
    PrivateProcess → Mode → Prop where
  | refuses : Executes s request p p .kernel
  | ends (brk : Nat) (region1 : Nat → Option UserPage) :
      Executes s request p { p with brk := brk, region1 := region1 } .exiting
  | loads {li : LoadInfo} (file : request.file = some li) :
      Executes s request p
        ⟨(maxPtLen + (li.idNpg + li.udNpg + li.tNpg)) * pageSize, imagePage li request,
          s.starterKernelStack, some s.starterKctxt⟩ .kernel

end PrivateProcess

namespace PrivateMemory

/-- One process changes. -/
def set (s : PrivateMemory) (pcbp : Addr) (p : PrivateProcess) : PrivateMemory :=
  { s with processes := Function.update s.processes pcbp (some p) }

def remove (s : PrivateMemory) (pcbp : Addr) : PrivateMemory :=
  { s with processes := Function.update s.processes pcbp none }

/-- A process without a context starts, and any other one goes on. -/
def resume (s : PrivateMemory) (p : PrivateProcess) : PrivateProcess :=
  match p.kctxt with
  | some _ => p
  | none => { p with kctxt := some s.starterKctxt, stack := s.starterKernelStack }

/-- The kernel runs another process. -/
def enter (s : PrivateMemory) (pcbp : Addr) (p : PrivateProcess) : PrivateMemory :=
  { s.set pcbp (s.resume p) with running := pcbp, mode := .kernel }

/-- Only the running process changes, and a fork copies it. -/
inductive Step (s : PrivateMemory) : MemoryAct → PrivateMemory → Prop where
  | forkFails {memory : ProcessMemory} {currKctxt : KernelContext} (user : s.mode = .user) :
      Step s (.fork memory currKctxt) { s with mode := .kernel }
  | fork {memory : ProcessMemory} {currKctxt : KernelContext} {p : PrivateProcess}
      (user : s.mode = .user) (runs : s.processes s.running = some p)
      (fresh : s.processes memory.pcb = none) :
      Step s (.fork memory currKctxt)
        { (s.set s.running { p with kctxt := some currKctxt }).set memory.pcb
            { p with kctxt := some currKctxt } with
          running := memory.pcb
          mode := .kernel }
  | exec {request : ImageRequest} {p q : PrivateProcess} {mode : Mode} (user : s.mode = .user)
      (runs : s.processes s.running = some p) (executes : p.Executes s request q mode) :
      Step s (.exec request) { s.set s.running q with mode := mode }
  | brk {addr : Nat} {p q : PrivateProcess} (user : s.mode = .user)
      (runs : s.processes s.running = some p) (moves : p.MovesBreak addr q) :
      Step s (.brk addr) { s.set s.running q with mode := .kernel }
  | memoryTrap {addr : Nat} {p q : PrivateProcess} {mode : Mode} (user : s.mode = .user)
      (runs : s.processes s.running = some p) (grows : p.GrowsStack addr q mode) :
      Step s (.memoryTrap addr) { s.set s.running q with mode := mode }
  | exit (user : s.mode = .user) : Step s .exit { s with mode := .exiting }
  | userStore {vpn : Nat} {page : Page} {p q : PrivateProcess} (user : s.mode = .user)
      (runs : s.processes s.running = some p) (stores : p.Stores vpn page q) :
      Step s (.userStore vpn page) (s.set s.running q)
  | ttyReceive {page : Page} (user : s.mode = .user) :
      Step s (.ttyReceive page) { s with mode := .kernel }
  | allocate (goesOn : s.mode ≠ .exiting) : Step s .allocate { s with mode := .kernel }
  | switch {currKctxt : KernelContext} {nextPCB : Addr} {p q : PrivateProcess}
      (goesOn : s.mode ≠ .exiting) (runs : s.processes s.running = some p)
      (waits : (s.set s.running { p with kctxt := some currKctxt }).processes nextPCB = some q) :
      Step s (.switch currKctxt nextPCB)
        ((s.set s.running { p with kctxt := some currKctxt }).enter nextPCB q)
  | kernelExit {freedTable : PageTable} {nextPCB : Addr} {q : PrivateProcess}
      (exits : s.mode = .exiting) (waits : (s.remove s.running).processes nextPCB = some q) :
      Step s (.kernelExit freedTable nextPCB) ((s.remove s.running).enter nextPCB q)
  | returnToUser (kernel : s.mode = .kernel) : Step s .returnToUser { s with mode := .user }

end PrivateMemory

namespace KernelMemory

/-- A process finds this at a page of region 1. -/
def region1 (m : KernelMemory) (pcbp : Addr) (i : Nat) : Option UserPage :=
  if i < maxPtLen then
    ((m.tables (m.pcbs pcbp).r1PageTable)[i]?.filter Pte.valid).map fun pte =>
      ⟨pte.prot, m.pages pte.pfn⟩
  else none

/-- The tables and frames of the kernel give each process this. -/
def privateProcess (m : KernelMemory) (pcbp : Addr) : PrivateProcess where
  brk := (m.pcbs pcbp).brk
  region1 := m.region1 pcbp
  stack i := m.pages ((m.pcbs pcbp).stackPfns i)
  kctxt := (m.pcbs pcbp).kctxt

/-- The abstract memory has the live processes only. -/
def privateMemory (m : KernelMemory) : PrivateMemory where
  running := m.currPCB
  mode := m.mode
  processes pcbp := if pcbp ∈ m.live then some (m.privateProcess pcbp) else none
  starterKctxt := m.starterKctxt
  starterKernelStack := m.starterKernelStack

end KernelMemory

end

end Yallnix
