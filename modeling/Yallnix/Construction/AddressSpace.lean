import Yallnix.Construction.ContextSwitch
import Yallnix.Construction.LoadProgram

namespace Yallnix

section
variable [Hardware]

/-- An executable and its arguments come with the bytes that go into each page. -/
structure ImageRequest where
  stringsValid : Bool
  file : Option LoadInfo
  argLengths : List Nat
  textRead : Bool
  dataRead : Bool
  image : Nat → Page

/-- A new process gets these answers of `malloc`, whose memory may hold anything. -/
structure ProcessMemory where
  pcb : Addr
  r1PageTable : Addr
  junk : MemoryPcb
  kctxt : KernelContext
  /-- A freed page table holds this later. -/
  freedTable : PageTable

namespace KernelMemory

/-- The loop frees the frame of each valid entry, as `delete_process` does. -/
def freeValidFrames (table : Addr) (m : KernelMemory) : KernelMemory :=
  { m with frameList := Yallnix.freeValidFrames (m.tables table) m.frameList }

/-- `delete_process` frees the page table and the frames of a process without a flush. -/
def deleteProcess (pcbp : Addr) (freedTable : PageTable) (m : KernelMemory) :
    Outcome KernelMemory := do
  let m ← m.free
  let pcb := m.pcbs pcbp
  let m := m.freeValidFrames pcb.r1PageTable
  let m := { m with tables := Function.update m.tables pcb.r1PageTable freedTable }
  let m ← m.free
  let frames := (List.finRange kernelStackPages).foldl
    (fun frames i => freeFrame frames (pcb.stackPfns i)) m.frameList
  { m with frameList := frames }.free

/-- The loop of `initPCB` takes one frame for each page of the kernel stack. -/
def takeStackFrames (newPCB : Addr) :
    List (Fin kernelStackPages) → KernelMemory → Bool × KernelMemory
  | [], m => (true, m)
  | i :: rest, m =>
      match getFrame m.frameList with
      | (none, frames) => (false, { m with frameList := frames })
      | (some pfn, frames) =>
          takeStackFrames newPCB rest
            ({ m with frameList := frames }.updatePcb newPCB fun pcb =>
              { pcb with stackPfns := Function.update pcb.stackPfns i pfn })

/-- After a failed `malloc`, `initPCB` deletes a PCB whose page table is not set yet. -/
def initPCB (memory : ProcessMemory) (m : KernelMemory) : Outcome (Bool × KernelMemory) := do
  let (found, m) ← m.malloc
  if !found then return (false, m)
  let m ← orElse .fault m.malloc
  let m ← orElse .fault (m.initializeRegionPageTable memory.r1PageTable)
  let m := m.updatePcb memory.pcb fun _ =>
    { memory.junk with kctxt := none, r1PageTable := memory.r1PageTable }
  match m.takeStackFrames memory.pcb (List.finRange kernelStackPages) with
  | (true, m) => return (true, m)
  | (false, m) => do
      let m ← m.deleteProcess memory.pcb memory.freedTable
      return (false, m)

/-- The loop of `KernelFork` copies each valid page through the temporary entry. -/
def copyPages (parentTable childTable : Addr) :
    Nat → Nat → KernelMemory → Outcome (Bool × KernelMemory)
  | 0, _, m => .ok (true, m)
  | count + 1, index, m => do
      let pte ← readEntry (m.tables parentTable) index
      if !pte.valid then copyPages parentTable childTable count (index + 1) m
      else
        match getFrame m.frameList with
        | (none, frames) => .ok (false, { m with frameList := frames })
        | (some pfn, frames) => do
            let m ← { m with frameList := frames }.setPageTableEntry m.tempPtep
              ⟨true, protWrite, pfn⟩
            let m ← m.copyPage tempIndex (maxPtLen + index)
            let m ← m.setPageTableEntryNoFlush ⟨childTable, index⟩ ⟨true, pte.prot, pfn⟩
            copyPages parentTable childTable count (index + 1) m

/-- `KernelFork` builds the address space of the child and runs the child. -/
def kernelFork (memory : ProcessMemory) (currKctxt : KernelContext) (m : KernelMemory) :
    Outcome KernelMemory := do
  let (made, m) ← m.initPCB memory
  if !made then return m
  let (found, m) ← m.malloc
  let m := m.updatePcb memory.pcb fun pcb =>
    { pcb with
      kctxt := if found then some memory.kctxt else none
      brk := m.curr.brk }
  let (copied, m) ← m.copyPages m.curr.r1PageTable memory.r1PageTable maxPtLen 0
  if !copied then return m
  let m ← m.setPageTableEntry m.tempPtep ⟨false, protNone, 0⟩
  let (_, m) ← m.malloc
  let (_, m) ← { m with live := insert memory.pcb m.live }.forkTo currKctxt memory.pcb
  return m

/-- `LoadProgram` frees and invalidates each valid entry of the old address space. -/
def freeValidPages (table : Addr) : Nat → Nat → KernelMemory → Outcome KernelMemory
  | 0, _, m => .ok m
  | count + 1, index, m => do
      let pte ← readEntry (m.tables table) index
      if !pte.valid then freeValidPages table count (index + 1) m
      else
        let m ← { m with
          frameList := freeFrame m.frameList pte.pfn }.invalidatePageTableEntry ⟨table, index⟩
        freeValidPages table count (index + 1) m

/-- The kernel stores bytes in `count` pages from one page on. -/
def fillPages (image : Nat → Page) : Nat → Nat → KernelMemory → Outcome KernelMemory
  | 0, _, m => .ok m
  | count + 1, vpn, m => do
      let m ← m.writePage vpn (image vpn)
      fillPages image count (vpn + 1) m

/-- The last loop of `LoadProgram` makes the text pages readable and executable. -/
def protectText (table : Addr) : Nat → Int → KernelMemory → Outcome KernelMemory
  | 0, _, m => .ok m
  | count + 1, index, m => do
      let pte ← readEntry (m.tables table) index
      let m ← m.setPageTableEntry ⟨table, index⟩ { pte with prot := protReadExec }
      protectText table count (index + 1) m

/-- After its last check `LoadProgram` either loads the program or returns KILL. -/
def loadImage (li : LoadInfo) (request : ImageRequest) (proc : Addr) (m : KernelMemory) :
    Outcome (Int × KernelMemory) := do
  let dataNpg := li.idNpg + li.udNpg
  let stackNpg := loadStackPages request.argLengths
  let (found, m) ← m.malloc
  if !found then return (killCode, m)
  let table := (m.pcbs proc).r1PageTable
  let m ← m.freeValidPages table maxPtLen 0
  let (mapped, m) ← m.mapPages protReadWrite li.tNpg ⟨table, loadText li⟩
  if !mapped then return (killCode, m)
  let (mapped, m) ← m.mapPages protReadWrite dataNpg ⟨table, loadData li⟩
  if !mapped then return (killCode, m)
  let m := m.updatePcb proc fun pcb =>
    { pcb with brk := vmem1Base + (dataNpg + li.tNpg) * pageSize }
  let (mapped, m) ← m.mapPages protReadWrite stackNpg.toNat ⟨table, maxPtLen - stackNpg⟩
  if !mapped then return (killCode, m)
  if !request.textRead then return (killCode, m)
  let m ← m.fillPages request.image li.tNpg (li.tVaddr / pageSize)
  if !request.dataRead then return (killCode, m)
  let m ← m.fillPages request.image li.idNpg (li.idVaddr / pageSize)
  let m ← m.protectText table li.tNpg (loadText li)
  let m ← m.fillPages request.image li.udNpg (li.idVaddr / pageSize + li.idNpg)
  let m ← m.fillPages request.image stackNpg.toNat (2 * maxPtLen - stackNpg.toNat)
  let m ← m.free
  return (successCode, m)

/-- The checks of `LoadProgram` come before any change. -/
def loadProgram (request : ImageRequest) (proc : Addr) (m : KernelMemory) :
    Outcome (Int × KernelMemory) :=
  match request.file with
  | none => .ok (errorCode, m)
  | some li =>
      if li.entry < vmem1Base then .ok (errorCode, m)
      else if maxPtLen ≤ loadStackPages request.argLengths + loadData li + (li.idNpg + li.udNpg) then
        .ok (errorCode, m)
      else m.loadImage li request proc

/-- A failed load after the last check ends the process. -/
def kernelExec (request : ImageRequest) (m : KernelMemory) : Outcome KernelMemory := do
  if !request.stringsValid then return m
  let (status, m) ← m.loadProgram request m.currPCB
  if status = killCode then return { m with mode := .exiting }
  if status = errorCode then return m
  let (_, m) ← m.execTo
  return m

/-- `KernelBrk` leaves the mapped pages in place when it runs out of frames. -/
def kernelBrk (addr : Nat) (m : KernelMemory) : Outcome (Int × KernelMemory) := do
  if getAddressRegion addr ≠ 1 then return (errorCode, m)
  let (mapped, m) ← m.brkPages m.curr.r1PageTable userBaseVpn addr m.curr.brk
  if !mapped then return (errorCode, m)
  return (successCode, m.updatePcb m.currPCB fun pcb => { pcb with brk := addr })

/-- The loop of `handleTrapMemory` maps the invalid pages downwards. -/
def growStack : Nat → PtePtr → KernelMemory → Outcome (Bool × KernelMemory)
  | 0, _, m => .ok (true, m)
  | count + 1, ptep, m => do
      let pte ← readEntry (m.tables ptep.table) ptep.index
      if pte.valid then growStack count ptep.previous m
      else
        match getFrame m.frameList with
        | (none, frames) => .ok (false, { m with frameList := frames })
        | (some pfn, frames) => do
            let m ← { m with frameList := frames }.setPageTableEntry ptep
              ⟨true, protReadWrite, pfn⟩
            growStack count ptep.previous m

/-- `handleTrapMemory` grows the stack or ends the process. -/
def handleTrapMemory (addr : Nat) (m : KernelMemory) : Outcome KernelMemory := do
  let targetPageNumber := addr / pageSize
  let breakPageNumber := m.curr.brk / pageSize
  if targetPageNumber ≤ breakPageNumber + 1 then return { m with mode := .exiting }
  let (mapped, m) ← m.growStack (2 * maxPtLen - targetPageNumber)
    ⟨m.curr.r1PageTable, (maxPtLen : Int) - 1⟩
  if !mapped then return { m with mode := .exiting }
  return m

/-- `exitProcess` deletes the current process and runs the next one. -/
def exitProcess (freedTable : PageTable) (nextPCB : Addr) (m : KernelMemory) :
    Outcome KernelMemory := do
  let (_, m) ← m.malloc
  let m ← m.deleteProcess m.currPCB freedTable
  let (_, m) ← { m with live := m.live.erase m.currPCB }.switchBetween [] none nextPCB
  return m

/-- The exit of `init` halts the machine. -/
def kernelExit (freedTable : PageTable) (nextPCB : Addr) (m : KernelMemory) :
    Outcome KernelMemory := do
  if m.currPCB = m.initPcbp then .error .halt
  else m.exitProcess freedTable nextPCB

end KernelMemory

end

end Yallnix
