import Yallnix.Construction.GeneralKernelCalls

namespace Yallnix

/-- `LOCK_MAP_HASH_BUCKETS`, `CVAR_MAP_HASH_BUCKETS` and `PIPE_MAP_HASH_BUCKETS` have this value. -/
def syncMapHashBuckets : Nat := 20

theorem syncMapHashBuckets_pos : 0 < syncMapHashBuckets := by decide

section
variable [Hardware]

def Kernel.withScheduler (s : Kernel) (scheduler : Scheduler) : Kernel :=
  { s with toScheduler := scheduler }

def Kernel.setLock (s : Kernel) (lockp : ObjPtr) (lock : Option Lock) : Kernel :=
  { s with locks := Function.update s.locks lockp lock }

def Kernel.setCvar (s : Kernel) (cvarp : ObjPtr) (cvarQ : Option (Queue Addr)) : Kernel :=
  { s with cvars := Function.update s.cvars cvarp cvarQ }

def Kernel.setPipe (s : Kernel) (pipep : ObjPtr) (pipe : Option Pipe) : Kernel :=
  { s with pipes := Function.update s.pipes pipep pipe }

/-- A pointer to a freed object gives no access. -/
def deref {A : Type} (object : Option A) : Outcome A :=
  match object with
  | some value => .ok value
  | none => .error .fault

/-- A copy outside the destination is undefined. -/
def memmove (dest : List Byte) (offset : Int) (source : List Byte) : Outcome (List Byte) :=
  if 0 ≤ offset ∧ offset + source.length ≤ dest.length then
    .ok (dest.take offset.toNat ++ source ++ dest.drop (offset.toNat + source.length))
  else .error .fault

/-- A read outside the source is undefined. -/
def readBytes (source : List Byte) (offset len : Int) : Outcome (List Byte) :=
  if 0 ≤ offset ∧ 0 ≤ len ∧ offset + len ≤ source.length then
    .ok ((source.drop offset.toNat).take len.toNat)
  else .error .fault

/-- `unblockProcess` reads the pid through the dequeued pointer. -/
def unblockWaiter (cause : Cause) (waiter : Addr) (s : Kernel) : Outcome Kernel := do
  let scheduler ← unblockProcess cause (s.pcbs waiter).pid s.toScheduler
  return s.withScheduler scheduler

def blockCurrent (currKctxt : Pos) (s : Kernel) : Outcome (Flow Kernel) := do
  let flow ← blockProcess currKctxt s.toScheduler
  return flow.map s.withScheduler

/-- `initLock` puts a free lock into `lockMap` under the next id. -/
def kernelLockInit (s : Kernel) : Outcome (Int × Kernel) := do
  let id := s.nextSyncId
  let s := { s.setLock id (some ⟨none, makeQ⟩) with nextSyncId := s.nextSyncId + 1 }
  let s := s.withScheduler (s.record (.created s.curr.pid id))
  match ← hashMapInsert s.lockMap id id with
  | none => return (errorCode, s)
  | some lockMap => return (successCode, { s with lockMap := lockMap })

/-- The loop of `KernelAcquire` queues and blocks the process while the lock has an owner. -/
def acquireLoop (lockp : ObjPtr) (call : Call) (s : Kernel) : Outcome (Flow Kernel) := do
  let lock ← deref (s.locks lockp)
  match lock.ownerPcbp with
  | some _ =>
      let lock := { lock with waitingQ := enqQ lock.waitingQ s.currPCB }
      blockCurrent (.acquire lockp call) (s.setLock lockp (some lock))
  | none =>
      let lock := { lock with ownerPcbp := some s.currPCB }
      return .ret (s.setLock lockp (some lock)) successCode

def kernelAcquire (call : Call) (lockId : Int) (s : Kernel) : Outcome (Flow Kernel) := do
  match ← hashMapFind s.lockMap lockId with
  | none => return .ret s errorCode
  | some lockp => acquireLoop lockp call s

/-- `KernelRelease` frees the lock and spends one wake-up on the first queue entry. -/
def kernelRelease (lockId : Int) (s : Kernel) : Outcome (Int × Kernel) := do
  match ← hashMapFind s.lockMap lockId with
  | none => return (errorCode, s)
  | some lockp =>
      let lock ← deref (s.locks lockp)
      if lock.ownerPcbp ≠ some s.currPCB then return (errorCode, s)
      else
        let (waiter, waitingQ) := deqQ lock.waitingQ
        let s := s.setLock lockp (some ⟨none, waitingQ⟩)
        let s := s.withScheduler (s.record (.released s.curr.pid lockId))
        match waiter with
        | none => return (successCode, s)
        | some waiterPcbp =>
            let s ← unblockWaiter (.release lockp) waiterPcbp s
            return (successCode, s)

/-- `initCvar` puts an empty queue into `cvarMap` under the next id. -/
def kernelCvarInit (s : Kernel) : Outcome (Int × Kernel) := do
  let id := s.nextSyncId
  let s := { s.setCvar id (some makeQ) with nextSyncId := s.nextSyncId + 1 }
  let s := s.withScheduler (s.record (.created s.curr.pid id))
  match ← hashMapInsert s.cvarMap id id with
  | none => return (errorCode, s)
  | some cvarMap => return (successCode, { s with cvarMap := cvarMap })

/-- `KernelCvarWait` ignores the result of the release. -/
def kernelCvarWait (cvarId lockId : Int) (s : Kernel) : Outcome (Flow Kernel) := do
  match ← hashMapFind s.cvarMap cvarId with
  | none => return .ret s errorCode
  | some cvarp =>
      let cvarQ ← deref (s.cvars cvarp)
      let s := s.setCvar cvarp (some (enqQ cvarQ s.currPCB))
      let (_, s) ← kernelRelease lockId s
      blockCurrent (.cvarWoken cvarId lockId) s

def kernelCvarSignal (cvarId : Int) (s : Kernel) : Outcome (Int × Kernel) := do
  match ← hashMapFind s.cvarMap cvarId with
  | none => return (errorCode, s)
  | some cvarp =>
      let cvarQ ← deref (s.cvars cvarp)
      match deqQ cvarQ with
      | (none, _) => return (successCode, s)
      | (some waitingPcbp, cvarQ) =>
          let s ← unblockWaiter (.signal cvarp) waitingPcbp (s.setCvar cvarp (some cvarQ))
          return (successCode, s)

/-- The loop of `KernelCvarBroadcast` dequeues until the queue is empty. -/
def broadcastLoop (cvarp : ObjPtr) : Queue Addr → Kernel → Outcome Kernel
  | [], s => .ok s
  | waitingPcbp :: cvarQ, s => do
      let s ← unblockWaiter (.broadcast cvarp) waitingPcbp (s.setCvar cvarp (some cvarQ))
      broadcastLoop cvarp cvarQ s

def kernelCvarBroadcast (cvarId : Int) (s : Kernel) : Outcome (Int × Kernel) := do
  match ← hashMapFind s.cvarMap cvarId with
  | none => return (errorCode, s)
  | some cvarp =>
      let cvarQ ← deref (s.cvars cvarp)
      let s ← broadcastLoop cvarp cvarQ s
      return (successCode, s)

/-- `initPipe` leaves the bytes of the new buffer as `malloc` found them. -/
def kernelPipeInit (oracle : Oracle) (s : Kernel) : Outcome (Int × Kernel) := do
  let id := s.nextSyncId
  let buffer := (List.range pipeMaxBytes).map oracle.freshBytes
  let s := { s.setPipe id (some ⟨buffer, 0, makeQ⟩) with nextSyncId := s.nextSyncId + 1 }
  let s := s.withScheduler (s.record (.created s.curr.pid id))
  match ← hashMapInsert s.pipeMap id id with
  | none => return (errorCode, s)
  | some pipeMap => return (successCode, { s with pipeMap := pipeMap })

/-- A read and a write end by waking the head of the queue if there is one. -/
def unblockHead (pipep : ObjPtr) (waitingQ : Queue Addr) (s : Kernel) : Outcome Kernel :=
  match peekQ waitingQ with
  | none => .ok s
  | some nextWaiterPcbp => unblockWaiter (.pipe pipep) nextWaiterPcbp s

/-- A reader blocks until the pipe has its whole length, whatever woke it. -/
def pipeReadLoop (pipep : ObjPtr) (pipeId len : Int) (s : Kernel) : Outcome (Flow Kernel) := do
  let pipe ← deref (s.pipes pipep)
  if pipe.numBytesWritten < len then blockCurrent (.pipeRead pipep pipeId len) s
  else
    match deqQ pipe.waitingQ with
    | (none, _) => return .ret s errorCode
    | (some _, waitingQ) =>
        let bytes ← readBytes pipe.buffer 0 len
        let numRemainingBytes := pipe.numBytesWritten - len
        let s := s.withScheduler (s.record (.pipeRead pipep len bytes))
        if 0 < numRemainingBytes then
          let rest ← readBytes pipe.buffer len numRemainingBytes
          let buffer ← memmove pipe.buffer 0 rest
          let s ← unblockHead pipep waitingQ
            (s.setPipe pipep (some ⟨buffer, numRemainingBytes, waitingQ⟩))
          return .ret s len
        else
          return .ret (s.setPipe pipep (some ⟨pipe.buffer, numRemainingBytes, waitingQ⟩)) len

/-- Only the head of the queue goes on without a first block. -/
def kernelPipeRead (pipeId len : Int) (s : Kernel) : Outcome (Flow Kernel) := do
  if len < 0 then return .ret s errorCode
  if len = 0 then return .ret s successCode
  match ← hashMapFind s.pipeMap pipeId with
  | none => return .ret s errorCode
  | some pipep =>
      let pipe ← deref (s.pipes pipep)
      let waitingQ := enqQ pipe.waitingQ s.currPCB
      let s := s.setPipe pipep (some { pipe with waitingQ := waitingQ })
      if peekQ waitingQ ≠ some s.currPCB then blockCurrent (.pipeRead pipep pipeId len) s
      else pipeReadLoop pipep pipeId len s

/-- The capacity test of `KernelPipeWrite` adds in `int` arithmetic. -/
def kernelPipeWrite (pipeId len : Int) (bytes : List Byte) (s : Kernel) :
    Outcome (Int × Kernel) := do
  if len < 0 then return (errorCode, s)
  if len = 0 then return (successCode, s)
  match ← hashMapFind s.pipeMap pipeId with
  | none => return (errorCode, s)
  | some pipep =>
      let pipe ← deref (s.pipes pipep)
      if (pipeMaxBytes : Int) < wrapInt (pipe.numBytesWritten + len) then return (errorCode, s)
      else
        let buffer ← memmove pipe.buffer pipe.numBytesWritten bytes
        let pipe := { pipe with
          buffer := buffer
          numBytesWritten := pipe.numBytesWritten + len }
        let s := s.withScheduler (s.record (.pipeWritten pipep bytes))
        let s ← unblockHead pipep pipe.waitingQ (s.setPipe pipep (some pipe))
        return (len, s)

/-- `deleteLock` removes the lock and replaces its queue before it looks for an owner. -/
def deleteLock (lockId : Int) (s : Kernel) : Outcome (Int × Kernel) := do
  match ← hashMapRemove s.lockMap lockId with
  | none => return (errorCode, s)
  | some (lockp, lockMap) =>
      let lock ← deref (s.locks lockp)
      let lock := { lock with waitingQ := makeQ }
      let s := { s.setLock lockp (some lock) with lockMap := lockMap }
      if lock.ownerPcbp ≠ none ∨ peekQ lock.waitingQ ≠ none then return (errorCode, s)
      else return (successCode, s.setLock lockp none)

/-- `deleteCvar` removes the condition variable before it looks for waiters. -/
def deleteCvar (cvarId : Int) (s : Kernel) : Outcome (Int × Kernel) := do
  match ← hashMapRemove s.cvarMap cvarId with
  | none => return (errorCode, s)
  | some (cvarp, cvarMap) =>
      let cvarQ ← deref (s.cvars cvarp)
      let s := { s with cvarMap := cvarMap }
      if peekQ cvarQ ≠ none then return (errorCode, s)
      else return (successCode, s.setCvar cvarp none)

/-- `deletePipe` removes the pipe before it looks for waiters. -/
def deletePipe (pipeId : Int) (s : Kernel) : Outcome (Int × Kernel) := do
  match ← hashMapRemove s.pipeMap pipeId with
  | none => return (errorCode, s)
  | some (pipep, pipeMap) =>
      let pipe ← deref (s.pipes pipep)
      let s := { s with pipeMap := pipeMap }
      if peekQ pipe.waitingQ ≠ none then return (errorCode, s)
      else return (successCode, s.setPipe pipep none)

def kernelReclaim (id : Int) (s : Kernel) : Outcome (Int × Kernel) := do
  if (← hashMapFind s.lockMap id).isSome then deleteLock id s
  else if (← hashMapFind s.cvarMap id).isSome then deleteCvar id s
  else if (← hashMapFind s.pipeMap id).isSome then deletePipe id s
  else return (errorCode, s)

end

end Yallnix
