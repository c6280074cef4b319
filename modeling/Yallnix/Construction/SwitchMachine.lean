import Yallnix.ToMathlib.Transition
import Yallnix.Construction.ContextSwitch

namespace Yallnix

section
variable [Hardware]

/-- A process that is switched out has a context and a kernel stack. -/
structure Snapshot where
  kctxt : KernelContext
  stack : Fin kernelStackPages → Option Page

/-- The hardware runs one context, and a ghost field records what was switched out. -/
structure Switching extends KernelMemory where
  kctxt : KernelContext
  suspended : Addr → Option Snapshot

/-- The kernel stack is read through the entries at `r0StackBasePtep`. -/
def KernelMemory.stackView (m : KernelMemory) (i : Fin kernelStackPages) : Option Page :=
  (m.readPage (r0StackBase + i.val)).toOption

/-- The kernel switches contexts, and between two switches it runs and makes processes. -/
inductive SwitchAct where
  | create (pcb : Addr) (fields : MemoryPcb)
  | storeStack (i : Fin kernelStackPages) (page : Page)
  | storeFrame (pfn : Nat) (page : Page)
  | allocate
  | getStarterKernelState (currKctxt : KernelContext)
  | switchBetween (currKctxt : KernelContext) (nextPcbp : Addr)
  /-- An exiting process is gone before its last switch. -/
  | leave (nextPcbp : Addr)
  /-- `KernelFork` allocates the context of the child before the switch. -/
  | forkTo (currKctxt : KernelContext) (childPcbp : Addr) (childKctxt : Option KernelContext)
  | execTo

/-- An input comes with the TLB fills and the answers of the C library during its work. -/
structure SwitchInput where
  act : SwitchAct
  fills : List (List Nat)
  library : List LibraryAnswer

namespace Switching

/-- `KernelContextSwitch` loads the context that the switch function returns. -/
def resume (s : Switching) (result : Outcome (KernelContext × KernelMemory)) :
    Outcome Switching := do
  let (kctxt, m) ← result
  return { s with toKernelMemory := m, kctxt := kctxt }

/-- The running process is recorded when it is switched out. -/
def suspend (s : Switching) (currKctxt : KernelContext) : Switching :=
  { s with suspended := Function.update s.suspended s.currPCB (some ⟨currKctxt, s.stackView⟩) }

def perform (s : Switching) : SwitchAct → Outcome Switching
  | .create pcb fields =>
      .ok { s with
        pcbs := Function.update s.pcbs pcb { fields with kctxt := none }
        live := insert pcb s.live
        suspended := Function.update s.suspended pcb none }
  | .storeStack i page => do
      return { s with toKernelMemory := ← s.writePage (r0StackBase + i.val) page }
  | .storeFrame pfn page => .ok { s with pages := Function.update s.pages pfn page }
  | .allocate => do
      let (_, m) ← s.malloc
      return { s with toKernelMemory := m }
  | .getStarterKernelState currKctxt => s.resume (s.getStarterKernelState currKctxt)
  | .switchBetween currKctxt nextPcbp =>
      (s.suspend currKctxt).resume (s.switchBetween currKctxt (some s.currPCB) nextPcbp)
  | .leave nextPcbp =>
      let s := { s with live := s.live.erase s.currPCB }
      s.resume (s.switchBetween [] none nextPcbp)
  | .forkTo currKctxt childPcbp childKctxt =>
      (s.suspend currKctxt).resume
        ((s.updatePcb childPcbp fun pcb => { pcb with kctxt := childKctxt }).forkTo
          currKctxt childPcbp)
  | .execTo => s.resume s.execTo

def handle (s : Switching) (i : SwitchInput) : Outcome Switching :=
  { s with fills := i.fills, library := i.library }.perform i.act

/-- No live process has this frame in its kernel stack. -/
def freeOfStacks (s : Switching) (pfn : Nat) : Prop :=
  ∀ pcbp ∈ s.live, ∀ i, (s.pcbs pcbp).stackPfns i ≠ pfn

instance (s : Switching) (pfn : Nat) : Decidable (s.freeOfStacks pfn) := by
  unfold freeOfStacks
  infer_instance

/-- Processes have separate stack frames, and only live processes run. -/
def enabled (s : Switching) (i : SwitchInput) : Prop :=
  match i.act with
  | .create pcb fields => pcb ∉ s.live ∧ (∀ i, s.freeOfStacks (fields.stackPfns i)) ∧
      ∀ i j, fields.stackPfns i = fields.stackPfns j → i = j
  | .storeFrame pfn _ => s.freeOfStacks pfn
  | .switchBetween _ nextPcbp => nextPcbp ∈ s.live
  | .leave nextPcbp => nextPcbp ∈ s.live ∧ nextPcbp ≠ s.currPCB
  | .forkTo _ childPcbp _ => childPcbp ∈ s.live ∧ childPcbp ≠ s.currPCB
  | .storeStack _ _ | .allocate | .getStarterKernelState _ | .execTo => True

instance (s : Switching) (i : SwitchInput) : Decidable (s.enabled i) := by
  unfold enabled
  split <;> infer_instance

end Switching

/-- The entries at `r0StackBasePtep` map the stack frames of the running process. -/
def KernelMemory.MapsStack (m : KernelMemory) : Prop :=
  ∀ i : Fin kernelStackPages,
    m.entryOf (r0StackBase + i.val) = some ⟨true, protReadWrite, m.curr.stackPfns i⟩

instance (m : KernelMemory) : Decidable m.MapsStack := by
  unfold KernelMemory.MapsStack
  infer_instance

/-- All stack frames of all live processes differ. -/
def KernelMemory.StacksApart (m : KernelMemory) : Prop :=
  ∀ p ∈ m.live, ∀ q ∈ m.live, ∀ i j, (m.pcbs p).stackPfns i = (m.pcbs q).stackPfns j →
    p = q ∧ i = j

instance (m : KernelMemory) : Decidable m.StacksApart := by
  unfold KernelMemory.StacksApart
  infer_instance

/-- One process runs on its own stack, and no other process ran before. -/
structure SwitchStart (s : Switching) : Prop where
  fits : kernelStackPages ≤ maxPtLen
  brk : s.currKernelBrk ≤ kernelStackBase
  alive : s.currPCB ∈ s.live
  mapped : s.MapsStack
  apart : s.StacksApart
  fresh : ∀ pcbp ∈ s.live, pcbp ≠ s.currPCB → (s.pcbs pcbp).kctxt = none
  noSnapshot : s.suspended = fun _ => none

/-- The machine switches between any processes with separate stack frames. -/
def switchMachine : Machine Switching SwitchInput where
  start := SwitchStart
  step s i t := s.enabled i ∧ s.handle i = .ok t

end

end Yallnix
