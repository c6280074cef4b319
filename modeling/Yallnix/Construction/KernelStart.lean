import Yallnix.ToMathlib.Transition
import Yallnix.Construction.TrapHandlers

namespace Yallnix

section
variable [Hardware]

/-- `KernelStart` enables virtual memory with these tables and gets these answers of `malloc`. -/
structure Boot where
  /-- The fields of a new PCB are what `malloc` found in memory. -/
  memory : Addr → PCB
  idlePCB : Addr
  initPCB : Addr
  distinct : idlePCB ≠ initPCB
  junk : PCB
  frameList : FrameList
  r0PageTable : PageTable
  request : ExecRequest
  ttyMemory : Fin numTerminals → List Byte

/-- `initBuffers` maps one page below the temporary page. -/
def initBuffers (frames : FrameList) (r0PageTable : PageTable) :
    Outcome (FrameList × PageTable) :=
  match getFrame frames with
  | (none, _) => .error .halt
  | (some pfn, frames) => do
      let table ← setPageTableEntry r0PageTable ((tempIndex : Int) - 1) ⟨true, protReadWrite, pfn⟩
      return (frames, table)

/-- `initScheduler` makes empty queues and maps. -/
def initScheduler (boot : Boot) (frames : FrameList) (r0PageTable : PageTable) : Scheduler where
  currPCB := boot.initPCB
  cpu := .user
  idlePCB := boot.idlePCB
  initPid := 0
  nextPid := 0
  readyQ := makeQ
  blockedMap := hashMapNew blockedMapHashBuckets blockedMapHashBuckets_pos
  sleepingMap := hashMapNew blockedMapHashBuckets blockedMapHashBuckets_pos
  currTransmitters := fun _ => none
  transmittingQs := fun _ => makeQ
  readingQs := fun _ => makeQ
  transmitting := fun _ => false
  pcbs := boot.memory
  allocated := ∅
  live := ∅
  frameList := frames
  r0PageTable := r0PageTable
  log := []

/-- `initProcess` queues a new process behind the ready ones. -/
def initProcess (newPCB : Addr) (junk : PCB) (s : Scheduler) : Int × Scheduler :=
  let (code, s) := initPCB newPCB junk s
  if code = errorCode then (errorCode, s)
  else (successCode, { s with
    readyQ := enqQ s.readyQ newPCB
    live := insert newPCB s.live })

/-- `initInitProcess` takes over the kernel stack of the machine. -/
def initInitProcess (newPCB : Addr) (s : Scheduler) : Scheduler :=
  { s.updatePcb newPCB fun pcb =>
      { pcb with
        pid := s.nextPid
        kctxt := some .starter
        parent := none
        zombieQ := none
        r1PageTable := initializeRegionPageTable
        numRemainingDelayTicks := 0
        numChildren := 0
        childrenMap := hashMapNew childrenMapHashBuckets childrenMapHashBuckets_pos
        stackPfns := fun i =>
          (s.r0PageTable.getD (r0StackBase + i.val) ⟨false, protNone, 0⟩).pfn } with
    initPid := s.nextPid
    nextPid := s.nextPid + 1
    allocated := insert newPCB s.allocated
    live := insert newPCB s.live }

/-- `KernelStart` loads `idle` and `init` and lets `init` run. -/
def startProcesses (boot : Boot) (s : Scheduler) : Outcome Scheduler := do
  let (code, s) := initProcess boot.idlePCB boot.junk s
  if code = errorCode then .error .halt
  let (code, idle, frames) ← loadIdle (s.pcbs boot.idlePCB) s.frameList
  if code = errorCode then .error .halt
  let s := { s.updatePcb boot.idlePCB fun _ => idle with frameList := frames }
  let s := initInitProcess boot.initPCB s
  let (status, init, frames) ← loadProgram boot.request (s.pcbs boot.initPCB) s.frameList
  if status ≠ successCode then .error .halt
  return { s.updatePcb boot.initPCB fun _ => init with
    frameList := frames
    currPCB := boot.initPCB
    cpu := .user }

/-- A booted kernel runs `init` in user mode. -/
def kernelStart (boot : Boot) : Outcome Kernel := do
  let (frames, r0PageTable) ← initBuffers boot.frameList boot.r0PageTable
  let scheduler ← startProcesses boot (initScheduler boot frames r0PageTable)
  return {
    toScheduler := scheduler
    nextSyncId := 0
    lockMap := hashMapNew syncMapHashBuckets syncMapHashBuckets_pos
    cvarMap := hashMapNew syncMapHashBuckets syncMapHashBuckets_pos
    pipeMap := hashMapNew syncMapHashBuckets syncMapHashBuckets_pos
    locks := fun _ => none
    cvars := fun _ => none
    pipes := fun _ => none
    buffers := fun tty => ⟨boot.ttyMemory tty, 0, false⟩ }

/-- The kernel starts from a boot and answers the enabled inputs. -/
def yallnix : Machine Kernel Input where
  start s := ∃ boot, kernelStart boot = .ok s
  step s i t := enabled s i ∧ handle s i = .ok t

/-- A fixed list of inputs drives the kernel as long as each one is enabled and meets the guard. -/
def drive (guard : Kernel → Input → Prop) [∀ s i, Decidable (guard s i)] (s : Kernel) :
    List Input → Outcome Kernel
  | [] => .ok s
  | i :: rest =>
      if enabled s i = true ∧ guard s i then handle s i >>= fun t => drive guard t rest
      else .error .fault

theorem run_drive {guard : Kernel → Input → Prop} [∀ s i, Decidable (guard s i)] {s t : Kernel}
    (inputs : List Input) (run : yallnix.Run guard s) (driven : drive guard s inputs = .ok t) :
    yallnix.Run guard t := by
  induction inputs generalizing s with
  | nil =>
      cases driven
      exact run
  | cons i rest ih =>
      unfold drive at driven
      split at driven
      · rename_i ready
        obtain ⟨next, handled, driven⟩ := Outcome.bind_eq_ok.mp driven
        exact ih (.step run ready.2 ⟨ready.1, handled⟩) driven
      · cases driven

end

end Yallnix
