import Yallnix.Construction.TtyKernelCalls

namespace Yallnix

section
variable [Hardware]

/-- A trap or an interrupt enters the kernel, and `resume` lets kernel code go on. -/
inductive Input where
  | kernelCall (call : Call) (oracle : Oracle)
  | clock
  | illegal
  | math
  | memory (addr : Nat)
  | ttyReceive (tty : Fin numTerminals) (line : Option (List Byte))
  | ttyTransmit (tty : Fin numTerminals)
  | disk
  | resume (junk : PCB)

/-- The kernel call that an input makes. -/
def Input.act : Input → Option Call
  | .kernelCall call _ => some call
  | _ => none

/-- The handler stores the code in the user context and returns to user mode. -/
def Kernel.sysReturn (s : Kernel) (call : Call) (code : Int) : Kernel :=
  s.withScheduler { s.record (.returned s.curr.pid call code) with cpu := .user }

def finish (call : Call) : Flow Kernel → Kernel
  | .ret s code => s.sysReturn call code
  | .go s => s

def finishScheduler (call : Call) (s : Kernel) (flow : Flow Scheduler) : Kernel :=
  finish call (flow.map s.withScheduler)

/-- The switch of `handleTrapKernel` selects the kernel call. -/
def handleTrapKernel (oracle : Oracle) (call : Call) (s : Kernel) : Outcome Kernel :=
  match call with
  | .fork => return finishScheduler call s (← kernelFork oracle s.toScheduler)
  | .exec request => return finishScheduler call s (← kernelExec request s.toScheduler)
  | .exit status => return { s with cpu := .exit status }
  | .wait statusPtr => return finishScheduler call s (← kernelWait statusPtr s.toScheduler)
  | .getPid => return s.sysReturn call s.curr.pid
  | .brk addr => do
      let (code, scheduler) ← kernelBrk addr s.toScheduler
      return (s.withScheduler scheduler).sysReturn call code
  | .delay clockTicks => return finishScheduler call s (← kernelDelay clockTicks s.toScheduler)
  | .reclaim id => do
      let (code, s) ← kernelReclaim id s
      return s.sysReturn call code
  | .ttyRead ttyId buf len => return finish call (← kernelTtyRead oracle ttyId buf len s)
  | .ttyWrite ttyId buf len bytes =>
      return finishScheduler call s (← kernelTtyWrite oracle ttyId buf len bytes s.toScheduler)
  | .lockInit => do
      let (code, s) ← kernelLockInit s
      return s.sysReturn call code
  | .acquire lockId => return finish call (← kernelAcquire call lockId s)
  | .release lockId => do
      let (code, s) ← kernelRelease lockId s
      return s.sysReturn call code
  | .cvarInit => do
      let (code, s) ← kernelCvarInit s
      return s.sysReturn call code
  | .cvarSignal cvarId => do
      let (code, s) ← kernelCvarSignal cvarId s
      return s.sysReturn call code
  | .cvarBroadcast cvarId => do
      let (code, s) ← kernelCvarBroadcast cvarId s
      return s.sysReturn call code
  | .cvarWait cvarId lockId => return finish call (← kernelCvarWait cvarId lockId s)
  | .pipeInit => do
      let (code, s) ← kernelPipeInit oracle s
      return s.sysReturn call code
  | .pipeRead pipeId len => return finish call (← kernelPipeRead pipeId len s)
  | .pipeWrite pipeId len bytes => do
      let (code, s) ← kernelPipeWrite pipeId len bytes s
      return s.sysReturn call code
  | .unknown => .error .halt

/-- Kernel code goes on where the saved stack of the current process points. -/
def resumeKernel (junk : PCB) (s : Kernel) : Outcome Kernel :=
  match s.cpu with
  | .user => .error .fault
  | .starter | .trapReturn => return { s with cpu := .user }
  | .exit status => return s.withScheduler (← kernelExit status junk s.toScheduler)
  | .delay clockTicks => return s.sysReturn (.delay clockTicks) successCode
  | .fork parentPCB childPCB =>
      return s.sysReturn .fork (kernelForkReturn parentPCB childPCB s.toScheduler)
  | .waitWoken statusPtr =>
      let (code, scheduler) := kernelWaitCollect s.toScheduler
      return (s.withScheduler scheduler).sysReturn (.wait statusPtr) code
  | .acquire lockp call => return finish call (← acquireLoop lockp call s)
  | .cvarWoken cvarId lockId =>
      return finish (.cvarWait cvarId lockId)
        (← kernelAcquire (.cvarWait cvarId lockId) lockId s)
  | .pipeRead pipep pipeId len =>
      return finish (.pipeRead pipeId len) (← pipeReadLoop pipep pipeId len s)
  | .ttyWrite tty call r0Buf =>
      return finishScheduler call s (ttyWriteLoop tty call r0Buf s.toScheduler)
  | .ttyBatch tty call r0Buf bytesTransmitted =>
      return finishScheduler call s (transmitLoop tty call r0Buf bytesTransmitted s.toScheduler)
  | .ttyRead tty call len => return finish call (← readBufferLoop tty call len s)

def handleTrapClock (s : Scheduler) : Outcome Scheduler := do
  let (code, s) ← tickDownSleepers s
  if code = errorCode then .error .halt
  else
    match kickProcess s with
    | .ret s code => if code = errorCode then .error .halt else return s
    | .go s => return s

/-- The interrupt comes when the terminal hardware ends the transmission. -/
def handleTtyTransmit (tty : Fin numTerminals) (s : Scheduler) : Outcome Scheduler := do
  match signalTransmitter tty
      { s with transmitting := Function.update s.transmitting tty false } with
  | .ret s code =>
      if code = errorCode then .error .halt
      else return s
  | .go s => return s

def handle (s : Kernel) : Input → Outcome Kernel
  | .kernelCall call oracle => handleTrapKernel oracle call s
  | .clock => return s.withScheduler (← handleTrapClock s.toScheduler)
  | .illegal | .math => return { s with cpu := .exit errorCode }
  | .memory addr => return s.withScheduler (← handleTrapMemory addr s.toScheduler)
  | .ttyReceive tty line => writeBuffer tty line s
  | .ttyTransmit tty => return s.withScheduler (← handleTtyTransmit tty s.toScheduler)
  | .disk => .error .halt
  | .resume junk => resumeKernel junk s

def Pos.isUser : Pos → Bool
  | .user => true
  | _ => false

/-- The bytes of a write are the bytes that its buffer holds at the call. -/
def Call.wellFormed : Call → Bool
  | .ttyWrite _ _ len bytes => bytes.length = len.toNat
  | .pipeWrite _ len bytes => bytes.length = len.toNat
  | _ => true

/-- Traps and interrupts come in user mode only. The idle process makes no call and does not
fault, `malloc` gives free memory, and a terminal interrupts once for each transmission. -/
def enabled (s : Kernel) : Input → Bool
  | .kernelCall call oracle =>
      s.cpu.isUser && s.currPCB ≠ s.idlePCB && oracle.pcb ∉ s.allocated && call.wellFormed
  | .clock | .disk => s.cpu.isUser
  | .illegal | .math => s.cpu.isUser && s.currPCB ≠ s.idlePCB
  | .memory addr => s.cpu.isUser && s.currPCB ≠ s.idlePCB && addr < 2 ^ 32
  | .ttyReceive _ line => s.cpu.isUser && (line.getD []).length ≤ terminalMaxLine
  | .ttyTransmit tty => s.cpu.isUser && s.transmitting tty
  | .resume _ => !s.cpu.isUser

end

end Yallnix
