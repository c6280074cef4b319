import Yallnix.Construction.State
import Mathlib.Data.List.FinRange

namespace Yallnix

/-- `CHILDREN_MAP_HASH_BUCKETS` -/
def childrenMapHashBuckets : Nat := 10

theorem childrenMapHashBuckets_pos : 0 < childrenMapHashBuckets := by decide

/-- `BLOCKED_MAP_HASH_BUCKETS` and `SLEEPING_MAP_HASH_BUCKETS` have this value. -/
def blockedMapHashBuckets : Nat := 20

theorem blockedMapHashBuckets_pos : 0 < blockedMapHashBuckets := by decide

section
variable [Hardware]

/-- The kernel stack pages are the last entries of the region 0 table. -/
def r0StackBase : Nat := maxPtLen - kernelStackPages

/-- `tempPtep` lies right below the kernel stack. -/
def tempIndex : Nat := r0StackBase - 1

/-- A context switch maps the kernel stack of the next process. -/
def writeStackEntries (r0PageTable : PageTable) (stackPfns : Fin kernelStackPages → Nat) :
    PageTable :=
  (List.finRange kernelStackPages).foldl
    (fun table i => table.set (r0StackBase + i.val) ⟨true, protReadWrite, stackPfns i⟩) r0PageTable

/-- `delete_process` frees every frame of a process, and `junk` is what the memory holds later. -/
def deleteProcess (pcbp : Addr) (junk : PCB) (s : Scheduler) : Scheduler :=
  let pcb := s.pcbs pcbp
  let frames := freeValidFrames pcb.r1PageTable s.frameList
  let frames := (List.finRange kernelStackPages).foldl
    (fun frames i => freeFrame frames (pcb.stackPfns i)) frames
  { s.updatePcb pcbp fun _ => junk with
    frameList := frames
    allocated := s.allocated.erase pcbp }

/-- The loop of `initPCB` takes one frame for each page of the kernel stack. -/
def takeStackFrames (newPCB : Addr) : List (Fin kernelStackPages) → Scheduler → Bool × Scheduler
  | [], s => (true, s)
  | i :: rest, s =>
      match getFrame s.frameList with
      | (none, frames) => (false, { s with frameList := frames })
      | (some pfn, frames) =>
          takeStackFrames newPCB rest
            ({ s with frameList := frames }.updatePcb newPCB fun pcb =>
              { pcb with stackPfns := Function.update pcb.stackPfns i pfn })

/-- `initPCB` leaves the fields that it does not set as `malloc` found them. -/
def initPCB (newPCB : Addr) (junk : PCB) (s : Scheduler) : Int × Scheduler :=
  let s := { s.updatePcb newPCB fun pcb =>
      { pcb with
        pid := s.nextPid
        childrenMap := hashMapNew childrenMapHashBuckets childrenMapHashBuckets_pos
        kctxt := none
        parent := none
        zombieQ := none
        r1PageTable := initializeRegionPageTable
        numRemainingDelayTicks := 0
        numChildren := 0 } with
    nextPid := s.nextPid + 1
    allocated := insert newPCB s.allocated }
  match takeStackFrames newPCB (List.finRange kernelStackPages) s with
  | (true, s) => (successCode, s)
  | (false, s) => (errorCode, deleteProcess newPCB junk s)

/-- `switchBetween` saves the context of the old process and resumes the next one.
A new process resumes with the starter kernel state. -/
def switchBetween (currKctxt : Pos) (currPcbp : Option Addr) (nextPcbp : Addr)
    (s : Scheduler) : Scheduler :=
  let s := match currPcbp with
    | some pcbp => s.updatePcb pcbp fun pcb => { pcb with kctxt := some currKctxt }
    | none => s
  let kctxt := ((s.pcbs nextPcbp).kctxt).getD .starter
  let s := s.updatePcb nextPcbp fun pcb => { pcb with kctxt := some kctxt }
  { s with
    currPCB := nextPcbp
    cpu := kctxt
    r0PageTable := writeStackEntries s.r0PageTable (s.pcbs nextPcbp).stackPfns }

/-- `forkTo` gives the child the context and the stack of the parent. -/
def forkTo (currKctxt : Pos) (childPcbp : Addr) (s : Scheduler) : Scheduler :=
  let s := s.updatePcb s.currPCB fun pcb => { pcb with kctxt := some currKctxt }
  let table := writeStackEntries s.r0PageTable (s.pcbs childPcbp).stackPfns
  let s := s.updatePcb childPcbp fun pcb => { pcb with kctxt := some currKctxt }
  { s with
    currPCB := childPcbp
    cpu := currKctxt
    r0PageTable := table.set tempIndex ⟨false, protNone, 0⟩ }

/-- `execTo` keeps the kernel stack frames and restores the starter kernel state. -/
def execTo (s : Scheduler) : Scheduler :=
  { s.updatePcb s.currPCB fun pcb => { pcb with kctxt := some .starter } with cpu := .starter }

/-- The scheduling functions end by running the head of `readyQ`. -/
def runReady (currKctxt : Pos) (s : Scheduler) : Flow Scheduler :=
  match deqQ s.readyQ with
  | (none, _) => .ret s errorCode
  | (some nextPCB, readyQ) =>
      .go (switchBetween currKctxt (some s.currPCB) nextPCB { s with readyQ := readyQ })

def sleepProcess (numRemainingDelayTicks : Int) (s : Scheduler) : Outcome (Flow Scheduler) :=
  if numRemainingDelayTicks ≤ 0 then .ok (.ret s successCode)
  else do
    let s := s.updatePcb s.currPCB fun pcb =>
      { pcb with numRemainingDelayTicks := numRemainingDelayTicks }
    match ← hashMapInsert s.sleepingMap s.curr.pid s.currPCB with
    | none => return .ret s errorCode
    | some sleepingMap =>
        return runReady (.delay numRemainingDelayTicks) { s with sleepingMap := sleepingMap }

/-- `tickDownSleeper` removes the visited sleeper when its ticks run out. -/
def tickDownSleeper (state : Outcome (Int × Scheduler)) (_key : Int) (sleeper : Addr) :
    Outcome (Int × Scheduler) := do
  let (errorCount, s) ← state
  let s := s.updatePcb sleeper fun pcb =>
    { pcb with numRemainingDelayTicks := pcb.numRemainingDelayTicks - 1 }
  if (s.pcbs sleeper).numRemainingDelayTicks ≤ 0 then
    match ← hashMapRemove s.sleepingMap (s.pcbs sleeper).pid with
    | none => return (errorCount + 1, s)
    | some (_, sleepingMap) =>
        return (errorCount, { s with
          sleepingMap := sleepingMap
          readyQ := enqQ s.readyQ sleeper })
  else return (errorCount, s)

def tickDownSleepers (s : Scheduler) : Outcome (Int × Scheduler) := do
  let (errorCount, s) ← hashMapIterate s.sleepingMap tickDownSleeper (.ok (0, s))
  if errorCount > 0 then return (errorCode, s) else return (successCode, s)

/-- `kickProcess` does nothing when `readyQ` is empty. -/
def kickProcess (s : Scheduler) : Flow Scheduler :=
  if peekQ s.readyQ = none then .ret s successCode
  else runReady .trapReturn { s with readyQ := enqQ s.readyQ s.currPCB }

def execProcess (s : Scheduler) : Flow Scheduler := .go (execTo s)

/-- `forkProcess` queues the parent and runs the child next. -/
def forkProcess (currKctxt : Pos) (childPCB : Addr) (s : Scheduler) : Flow Scheduler :=
  match (s.pcbs childPCB).parent with
  | none => .ret s errorCode
  | some parent =>
      if (s.pcbs parent).pid ≠ s.curr.pid then .ret s errorCode
      else
        let s := { s with
          readyQ := enqQ s.readyQ s.currPCB
          live := insert childPCB s.live }
        .go (forkTo currKctxt childPCB (s.record (.forked s.curr.pid (s.pcbs childPCB).pid)))

/-- `unblockProcess` moves a process from `blockedMap` to `readyQ` if the pid is there. -/
def unblockProcess (cause : Cause) (pid : Int) (s : Scheduler) : Outcome Scheduler := do
  match ← hashMapRemove s.blockedMap pid with
  | none => return s
  | some (unblockedPCB, blockedMap) =>
      return { s with
        blockedMap := blockedMap
        readyQ := enqQ s.readyQ unblockedPCB }.record (.unblocked cause unblockedPCB)

/-- `removeParent` writes through the stored pointer whatever it refers to. -/
def removeParent (s : Scheduler) (_pid : Int) (childPCB : Addr) : Scheduler :=
  s.updatePcb childPCB fun pcb => { pcb with parent := none }

/-- The parent gets a zombie and leaves `blockedMap` whatever it waits for. -/
def reportExit (exitStatus : Int) (s : Scheduler) : Outcome Scheduler :=
  match s.curr.parent with
  | none => .ok s
  | some parentPcbp =>
      let t := s.updatePcb parentPcbp fun parent =>
        { parent with
          zombieQ := some (enqQ (parent.zombieQ.getD makeQ) ⟨s.curr.pid, exitStatus⟩) }
      unblockProcess (.childExit s.currPCB) (t.pcbs parentPcbp).pid t

/-- `exitProcess` reports to the parent before it deletes the current process. -/
def exitProcess (exitStatus : Int) (junk : PCB) (s : Scheduler) : Outcome (Flow Scheduler) := do
  let pid := s.curr.pid
  let s ← reportExit exitStatus s
  let s := hashMapIterate s.curr.childrenMap removeParent s
  let s := { deleteProcess s.currPCB junk s with live := s.live.erase s.currPCB }
  let s := s.record (.exited pid exitStatus)
  match deqQ s.readyQ with
  | (none, _) => return .ret s errorCode
  | (some nextPCB, readyQ) =>
      return .go (switchBetween .user none nextPCB { s with readyQ := readyQ })

def blockProcess (currKctxt : Pos) (s : Scheduler) : Outcome (Flow Scheduler) := do
  match ← hashMapInsert s.blockedMap s.curr.pid s.currPCB with
  | none => return .ret s errorCode
  | some blockedMap => return runReady currKctxt { s with blockedMap := blockedMap }

def isTtyTransmitAvailable (tty : Fin numTerminals) (s : Scheduler) : Bool :=
  (s.currTransmitters tty).isNone

def blockTransmitter (currKctxt : Pos) (tty : Fin numTerminals) (s : Scheduler) :
    Flow Scheduler :=
  runReady currKctxt { s with
    transmittingQs := Function.update s.transmittingQs tty
      (enqQ (s.transmittingQs tty) s.currPCB) }

def unblockTransmitter (tty : Fin numTerminals) (s : Scheduler) : Scheduler :=
  let s := { s with currTransmitters := Function.update s.currTransmitters tty none }
  match deqQ (s.transmittingQs tty) with
  | (none, _) => s
  | (some unblockedPCB, transmittingQ) =>
      { s with
        transmittingQs := Function.update s.transmittingQs tty transmittingQ
        readyQ := enqQ s.readyQ unblockedPCB }

def waitTransmitter (currKctxt : Pos) (tty : Fin numTerminals) (s : Scheduler) :
    Flow Scheduler :=
  runReady currKctxt { s with
    currTransmitters := Function.update s.currTransmitters tty (some s.currPCB) }

/-- `signalTransmitter` resumes the waiting transmitter and leaves its slot set. -/
def signalTransmitter (tty : Fin numTerminals) (s : Scheduler) : Flow Scheduler :=
  let s := { s with readyQ := enqQ s.readyQ s.currPCB }
  match s.currTransmitters tty with
  | none => .ret s errorCode
  | some nextPCB => .go (switchBetween .trapReturn (some s.currPCB) nextPCB s)

def blockReader (currKctxt : Pos) (tty : Fin numTerminals) (s : Scheduler) : Flow Scheduler :=
  runReady currKctxt { s with
    readingQs := Function.update s.readingQs tty (enqQ (s.readingQs tty) s.currPCB) }

def unblockReader (tty : Fin numTerminals) (s : Scheduler) : Scheduler :=
  match deqQ (s.readingQs tty) with
  | (none, _) => s
  | (some unblockedPCB, readingQ) =>
      { s with
        readingQs := Function.update s.readingQs tty readingQ
        readyQ := enqQ s.readyQ unblockedPCB }

end

end Yallnix
