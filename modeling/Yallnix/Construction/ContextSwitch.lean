import Yallnix.Construction.KernelMemory

namespace Yallnix

section
variable [Hardware]

namespace KernelMemory

/-- A context goes into memory that an earlier `malloc` gave to the PCB. -/
def saveContext (pcbp : Addr) (kctxt : KernelContext) (m : KernelMemory) :
    Outcome KernelMemory :=
  match (m.pcbs pcbp).kctxt with
  | none => .error .fault
  | some _ => .ok (m.updatePcb pcbp fun pcb => { pcb with kctxt := some kctxt })

/-- The entries at `r0StackBasePtep` get the frames of the current process. -/
def mapStack : List (Fin kernelStackPages) → KernelMemory → Outcome KernelMemory
  | [], m => .ok m
  | i :: rest, m => do
      let m ← m.setPageTableEntry (m.stackPtep i) ⟨true, protReadWrite, m.curr.stackPfns i⟩
      mapStack rest m

/-- The starter stack is copied to the addresses of the kernel stack. -/
def loadStarterStack : List (Fin kernelStackPages) → KernelMemory → Outcome KernelMemory
  | [], m => .ok m
  | i :: rest, m => do
      let m ← m.writePage (r0StackBase + i.val) (m.starterKernelStack i)
      loadStarterStack rest m

/-- A new process gets the starter context and the starter stack. -/
def startProcess (m : KernelMemory) : Outcome KernelMemory :=
  match m.curr.kctxt with
  | some _ => .ok m
  | none => do
      let m ← orElse .fault m.malloc
      let m := m.updatePcb m.currPCB fun pcb => { pcb with kctxt := some m.starterKctxt }
      m.loadStarterStack (List.finRange kernelStackPages)

/-- The registers get the region 1 table of the current process. -/
def switchRegion1 (m : KernelMemory) : KernelMemory :=
  { m with toMmu := (m.toMmu.writePtbr1 m.curr.r1PageTable).flushRegion1 }

/-- A context switch function returns the context that runs next. -/
def resumeContext (m : KernelMemory) : Outcome (KernelContext × KernelMemory) :=
  match m.curr.kctxt with
  | none => .error .fault
  | some kctxt => .ok (kctxt, m)

/-- `switchBetween` saves no context when an exiting process calls it. -/
def switchBetween (currKctxt : KernelContext) (currPcbp : Option Addr) (nextPcbp : Addr)
    (m : KernelMemory) : Outcome (KernelContext × KernelMemory) := do
  let m ← match currPcbp with
    | none => .ok m
    | some pcbp => m.saveContext pcbp currKctxt
  let m ← { m with currPCB := nextPcbp }.mapStack (List.finRange kernelStackPages)
  let m ← m.startProcess
  m.switchRegion1.resumeContext

/-- Each page of the stack goes through the temporary entry before its own entry changes. -/
def copyStack : List (Fin kernelStackPages) → KernelMemory → Outcome KernelMemory
  | [], m => .ok m
  | i :: rest, m => do
      let pfn := m.curr.stackPfns i
      let m ← m.setPageTableEntry m.tempPtep ⟨true, protWrite, pfn⟩
      let m ← m.copyPage tempIndex (r0StackBase + i.val)
      let m ← m.setPageTableEntry (m.stackPtep i) ⟨true, protReadWrite, pfn⟩
      copyStack rest m

/-- `forkTo` runs the child with the context and a copy of the stack of the parent. -/
def forkTo (currKctxt : KernelContext) (childPcbp : Addr) (m : KernelMemory) :
    Outcome (KernelContext × KernelMemory) := do
  let m ← m.saveContext m.currPCB currKctxt
  let m ← { m with currPCB := childPcbp }.copyStack (List.finRange kernelStackPages)
  let m ← m.setPageTableEntry m.tempPtep ⟨false, protNone, 0⟩
  let m ← m.saveContext m.currPCB currKctxt
  m.switchRegion1.resumeContext

/-- `execTo` keeps the stack frames and the registers. -/
def execTo (m : KernelMemory) : Outcome (KernelContext × KernelMemory) := do
  let m ← m.saveContext m.currPCB m.starterKctxt
  let m ← m.loadStarterStack (List.finRange kernelStackPages)
  m.resumeContext

/-- The starter stack is read from the addresses of the kernel stack. -/
def saveStarterStack : List (Fin kernelStackPages) → KernelMemory → Outcome KernelMemory
  | [], m => .ok m
  | i :: rest, m => do
      let page ← m.readPage (r0StackBase + i.val)
      saveStarterStack rest
        { m with starterKernelStack := Function.update m.starterKernelStack i page }

/-- `getStarterKernelState` copies the running context and stack. -/
def getStarterKernelState (currKctxt : KernelContext) (m : KernelMemory) :
    Outcome (KernelContext × KernelMemory) := do
  let m ← m.saveStarterStack (List.finRange kernelStackPages)
  let m := { m with starterKctxt := currKctxt }
  return (m.starterKctxt, m)

end KernelMemory

end

end Yallnix
