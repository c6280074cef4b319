import Yallnix.Construction.SyncKernelCalls
import Mathlib.Data.Set.Insert
import Mathlib.Logic.Relation

namespace Yallnix

section
variable [Hardware]

/-- The abstract kernel sees a process as its family, its zombies and its program point. -/
structure Proc where
  pid : Int
  parent : Option Addr
  children : Set (Int × Addr)
  zombies : Queue Zombie
  pos : Pos

/-- The abstract scheduler lets any live process run that is not blocked. -/
structure Crowd where
  live : Finset Addr
  blocked : Set Addr
  proc : Addr → Proc
  nextPid : Int
  log : List Event

/-- The abstract kernel knows the sync objects under their ids. -/
structure Objects where
  nextSyncId : Int
  lockIds : Set Int
  cvarIds : Set Int
  pipeIds : Set Int
  locks : ObjPtr → Option Lock
  cvars : ObjPtr → Option (Queue Addr)
  pipes : ObjPtr → Option Pipe

structure View extends Crowd, Objects

def Scheduler.proc (s : Scheduler) (pcbp : Addr) : Proc where
  pid := (s.pcbs pcbp).pid
  parent := (s.pcbs pcbp).parent
  children := {node | node ∈ (s.pcbs pcbp).childrenMap.entries}
  zombies := (s.pcbs pcbp).zombieQ.getD makeQ
  pos := s.pos pcbp

def Scheduler.crowd (s : Scheduler) : Crowd where
  live := s.live
  blocked := {a | a ∈ s.blockedMap.items}
  proc := s.proc
  nextPid := s.nextPid
  log := s.log

def Kernel.view (s : Kernel) : View where
  toCrowd := s.toScheduler.crowd
  nextSyncId := s.nextSyncId
  lockIds := {id | id ∈ s.lockMap.keys}
  cvarIds := {id | id ∈ s.cvarMap.keys}
  pipeIds := {id | id ∈ s.pipeMap.keys}
  locks := s.locks
  cvars := s.cvars
  pipes := s.pipes

def Crowd.update (c : Crowd) (p : Addr) (f : Proc → Proc) : Crowd :=
  { c with proc := Function.update c.proc p (f (c.proc p)) }

/-- A process goes to another program point. -/
def Crowd.move (c : Crowd) (p : Addr) (k : Pos) : Crowd :=
  c.update p fun proc => { proc with pos := k }

def Crowd.block (c : Crowd) (p : Addr) : Crowd := { c with blocked := insert p c.blocked }

def Crowd.record (c : Crowd) (event : Event) : Crowd := { c with log := event :: c.log }

/-- A kernel call of a process returns to user mode. -/
def Crowd.finish (c : Crowd) (p : Addr) (call : Call) (code : Int) : Crowd :=
  (c.record (.returned (c.proc p).pid call code)).move p .user

section
variable (c : Crowd) (p a child : Addr) (k : Pos) (call : Call) (code : Int) (event : Event)
  (f : Proc → Proc)

@[simp] theorem Crowd.update_live : (c.update p f).live = c.live := rfl
@[simp] theorem Crowd.update_blocked : (c.update p f).blocked = c.blocked := rfl
@[simp] theorem Crowd.update_nextPid : (c.update p f).nextPid = c.nextPid := rfl
@[simp] theorem Crowd.update_log : (c.update p f).log = c.log := rfl
@[simp] theorem Crowd.update_proc :
    (c.update p f).proc = Function.update c.proc p (f (c.proc p)) := rfl

@[simp] theorem Crowd.move_live : (c.move p k).live = c.live := rfl
@[simp] theorem Crowd.move_blocked : (c.move p k).blocked = c.blocked := rfl
@[simp] theorem Crowd.move_nextPid : (c.move p k).nextPid = c.nextPid := rfl
@[simp] theorem Crowd.move_log : (c.move p k).log = c.log := rfl

/-- A move changes the program point of one process. -/
theorem Crowd.move_proc : (c.move p k).proc a =
    { c.proc a with pos := if a = p then k else (c.proc a).pos } := by
  by_cases same : a = p
  · subst same
    simp [Crowd.move]
  · simp [Crowd.move, same]

@[simp] theorem Crowd.move_pid : ((c.move p k).proc a).pid = (c.proc a).pid := by
  rw [Crowd.move_proc]
@[simp] theorem Crowd.move_parent : ((c.move p k).proc a).parent = (c.proc a).parent := by
  rw [Crowd.move_proc]
@[simp] theorem Crowd.move_children : ((c.move p k).proc a).children = (c.proc a).children := by
  rw [Crowd.move_proc]
@[simp] theorem Crowd.move_zombies : ((c.move p k).proc a).zombies = (c.proc a).zombies := by
  rw [Crowd.move_proc]
@[simp] theorem Crowd.move_pos :
    ((c.move p k).proc a).pos = if a = p then k else (c.proc a).pos := by
  rw [Crowd.move_proc]

@[simp] theorem Crowd.block_live : (c.block p).live = c.live := rfl
@[simp] theorem Crowd.block_blocked : (c.block p).blocked = insert p c.blocked := rfl
@[simp] theorem Crowd.block_proc : (c.block p).proc = c.proc := rfl
@[simp] theorem Crowd.block_nextPid : (c.block p).nextPid = c.nextPid := rfl
@[simp] theorem Crowd.block_log : (c.block p).log = c.log := rfl

@[simp] theorem Crowd.record_live : (c.record event).live = c.live := rfl
@[simp] theorem Crowd.record_blocked : (c.record event).blocked = c.blocked := rfl
@[simp] theorem Crowd.record_proc : (c.record event).proc = c.proc := rfl
@[simp] theorem Crowd.record_nextPid : (c.record event).nextPid = c.nextPid := rfl
@[simp] theorem Crowd.record_log : (c.record event).log = event :: c.log := rfl

@[simp] theorem Crowd.finish_live : (c.finish p call code).live = c.live := rfl
@[simp] theorem Crowd.finish_blocked : (c.finish p call code).blocked = c.blocked := rfl
@[simp] theorem Crowd.finish_nextPid : (c.finish p call code).nextPid = c.nextPid := rfl
@[simp] theorem Crowd.finish_log :
    (c.finish p call code).log = .returned (c.proc p).pid call code :: c.log := rfl
@[simp] theorem Crowd.finish_pid : ((c.finish p call code).proc a).pid = (c.proc a).pid := by
  simp [Crowd.finish]
@[simp] theorem Crowd.finish_parent :
    ((c.finish p call code).proc a).parent = (c.proc a).parent := by
  simp [Crowd.finish]
@[simp] theorem Crowd.finish_children :
    ((c.finish p call code).proc a).children = (c.proc a).children := by
  simp [Crowd.finish]
@[simp] theorem Crowd.finish_zombies :
    ((c.finish p call code).proc a).zombies = (c.proc a).zombies := by
  simp [Crowd.finish]
@[simp] theorem Crowd.finish_pos :
    ((c.finish p call code).proc a).pos = if a = p then .user else (c.proc a).pos := by
  simp [Crowd.finish]

end

/-- A wake-up by pid finds the blocked process with this pid or nobody. -/
inductive Crowd.Wake (cause : Cause) (pid : Int) (c : Crowd) : Crowd → Prop where
  | nobody (absent : ∀ a ∈ c.blocked, (c.proc a).pid ≠ pid) : Wake cause pid c c
  | somebody {a : Addr} (blocked : a ∈ c.blocked) (same : (c.proc a).pid = pid) :
      Wake cause pid c { c with
        blocked := c.blocked \ {a}
        log := .unblocked cause a :: c.log }

def Call.isTerminal : Call → Bool
  | .ttyRead .. | .ttyWrite .. => true
  | _ => false

/-- These program points hold no queue, no lock and no family of a process. -/
def Pos.isPlain : Pos → Bool
  | .user | .starter | .trapReturn | .exit _ | .delay _ => true
  | .ttyWrite _ call _ | .ttyBatch _ call .. | .ttyRead _ call _ => call.isTerminal
  | _ => false

/-- These returns change nothing that another process sees. -/
def Call.isQuiet (code : Int) : Call → Bool
  | .fork => false
  | .acquire _ | .cvarWait .. => code ≠ successCode
  | _ => true

omit [Hardware] in
theorem Call.isTerminal_isQuiet {call : Call} (terminal : call.isTerminal = true) (code : Int) :
    call.isQuiet code = true := by
  cases call <;> first | rfl | cases terminal

def Event.isQuiet : Event → Bool
  | .returned _ call code => call.isQuiet code
  | .transmitted .. | .received .. => true
  | _ => false

/-- A saved program point carries the call that it belongs to. -/
def Pos.carriesCall : Pos → Bool
  | .acquire l call =>
      match call with
      | .acquire lockId | .cvarWait _ lockId => lockId = l
      | _ => false
  | .ttyWrite _ call _ | .ttyBatch _ call .. | .ttyRead _ call _ => call.isTerminal
  | _ => true

theorem Pos.isPlain_carriesCall {k : Pos} (plain : k.isPlain = true) : k.carriesCall = true := by
  cases k <;> first | rfl | exact plain | cases plain

/-- A child reports its exit to its parent and wakes it by pid. -/
inductive Crowd.Reports (p : Addr) (status : Int) (c : Crowd) : Crowd → Prop where
  | orphan (alone : (c.proc p).parent = none) : Reports p status c c
  | child {q : Addr} {d : Crowd} (parent : (c.proc p).parent = some q)
      (woken : Crowd.Wake (.childExit p) (c.proc q).pid
        (c.update q fun proc =>
          { proc with zombies := enqQ proc.zombies ⟨(c.proc p).pid, status⟩ }) d) :
      Reports p status c d

/-- The children of an exiting process lose their parent. -/
noncomputable def Crowd.disown (c : Crowd) (children : Set (Int × Addr)) : Crowd :=
  { c with proc := fun a =>
      { c.proc a with
        parent := open Classical in if ∃ key, (key, a) ∈ children then none else (c.proc a).parent } }

/-- An exited process leaves an address that may hold anything. -/
def Crowd.remove (c : Crowd) (p : Addr) (junk : Proc) : Crowd :=
  { c.update p fun _ => junk with live := c.live.erase p }

/-- `KernelFork` makes the child and queues the parent. -/
def Crowd.fork (c : Crowd) (p child : Addr) : Crowd :=
  let d := c.update p fun proc =>
    { proc with children := insert (c.nextPid, child) proc.children, pos := .fork p child }
  let d := d.update child fun _ => ⟨c.nextPid, some p, ∅, makeQ, .fork p child⟩
  { d with
    live := insert child c.live
    nextPid := c.nextPid + 1
    log := .forked (c.proc p).pid c.nextPid :: c.log }

/-- The comparison of pids at the end of `KernelFork`. -/
def Crowd.forkCode (c : Crowd) (p parentPCB childPCB : Addr) : Int :=
  if (c.proc p).pid = (c.proc parentPCB).pid then (c.proc childPCB).pid
  else if (c.proc p).pid = (c.proc childPCB).pid then successCode
  else errorCode

/-- A step of the running process that concerns only processes, and `next` runs after it. -/
inductive Crowd.Step (p next : Addr) (c : Crowd) : Crowd → Prop where
  /-- Traps, memory calls, delays, terminal calls and rejected calls. -/
  | quiet {k : Pos} {events : List Event} (before : (c.proc p).pos.isPlain = true)
      (after : k.isPlain = true) (silent : ∀ event ∈ events, event.isQuiet = true) :
      Step p next c ({ c with log := events ++ c.log }.move p k)
  | forkFailed {child : Addr} {junk : Proc} (user : (c.proc p).pos = .user)
      (fresh : child ∉ c.live) :
      Step p next c ({ c.update child fun _ => junk with nextPid := c.nextPid + 1 }.finish p .fork
        errorCode)
  | fork {child : Addr} (user : (c.proc p).pos = .user) (fresh : child ∉ c.live)
      (first : next = child) :
      Step p next c (c.fork p child)
  | forkReturn {parentPCB childPCB : Addr} (point : (c.proc p).pos = .fork parentPCB childPCB) :
      Step p next c (c.finish p .fork (c.forkCode p parentPCB childPCB))
  | exit {status : Int} {d : Crowd} {junk : Proc} (point : (c.proc p).pos = .exit status)
      (reports : c.Reports p status d) :
      Step p next c (((d.disown (c.proc p).children).remove p junk).record
        (.exited (c.proc p).pid status))
  | waitBlock {statusPtr : Nat} (user : (c.proc p).pos = .user)
      (empty : (c.proc p).zombies = []) :
      Step p next c ((c.move p (.waitWoken statusPtr)).block p)
  | waitCollect {statusPtr : Nat} {zombie : Zombie} {rest : Queue Zombie}
      (point : (c.proc p).pos = .user ∨ (c.proc p).pos = .waitWoken statusPtr)
      (zombies : (c.proc p).zombies = zombie :: rest) :
      Step p next c (((c.update p fun proc => { proc with zombies := rest }).record
        (.waited (c.proc p).pid zombie.pid zombie.exitStatus)).finish p (.wait statusPtr)
          zombie.pid)
  | waitEmpty {statusPtr : Nat} (point : (c.proc p).pos = .waitWoken statusPtr)
      (empty : (c.proc p).zombies = []) :
      Step p next c (c.finish p (.wait statusPtr) errorCode)

/-- The bytes behind the read ones move to the base of the buffer. -/
def Pipe.consumed (pipe : Pipe) (len : Int) (rest : Queue Addr) : Pipe where
  buffer :=
    if 0 < pipe.numBytesWritten - len then
      (pipe.buffer.drop len.toNat).take (pipe.numBytesWritten - len).toNat ++
        pipe.buffer.drop (pipe.numBytesWritten - len).toNat
    else pipe.buffer
  numBytesWritten := pipe.numBytesWritten - len
  waitingQ := rest

namespace View

/-- A scheduling change keeps the sync objects. -/
def onCrowd (v : View) (f : Crowd → Crowd) : View := { v with toCrowd := f v.toCrowd }

def finish (v : View) (p : Addr) (call : Call) (code : Int) : View :=
  v.onCrowd fun c => c.finish p call code

/-- A process blocks at a program point. -/
def suspend (v : View) (p : Addr) (k : Pos) : View := v.onCrowd fun c => (c.move p k).block p

def record (v : View) (event : Event) : View := v.onCrowd fun c => c.record event

def setLock (v : View) (lockp : ObjPtr) (lock : Option Lock) : View :=
  { v with locks := Function.update v.locks lockp lock }

def setCvar (v : View) (cvarp : ObjPtr) (cvarQ : Option (Queue Addr)) : View :=
  { v with cvars := Function.update v.cvars cvarp cvarQ }

def setPipe (v : View) (pipep : ObjPtr) (pipe : Option Pipe) : View :=
  { v with pipes := Function.update v.pipes pipep pipe }

section
variable (v : View) (p : Addr) (k : Pos) (call : Call) (code : Int) (event : Event)
  (object : ObjPtr) (lock : Option Lock) (cvarQ : Option (Queue Addr)) (pipe : Option Pipe)
  (f : Crowd → Crowd)

@[simp] theorem onCrowd_toCrowd : (v.onCrowd f).toCrowd = f v.toCrowd := rfl
@[simp] theorem onCrowd_nextSyncId : (v.onCrowd f).nextSyncId = v.nextSyncId := rfl
@[simp] theorem onCrowd_lockIds : (v.onCrowd f).lockIds = v.lockIds := rfl
@[simp] theorem onCrowd_cvarIds : (v.onCrowd f).cvarIds = v.cvarIds := rfl
@[simp] theorem onCrowd_pipeIds : (v.onCrowd f).pipeIds = v.pipeIds := rfl
@[simp] theorem onCrowd_locks : (v.onCrowd f).locks = v.locks := rfl
@[simp] theorem onCrowd_cvars : (v.onCrowd f).cvars = v.cvars := rfl
@[simp] theorem onCrowd_pipes : (v.onCrowd f).pipes = v.pipes := rfl

@[simp] theorem setLock_toCrowd : (v.setLock object lock).toCrowd = v.toCrowd := rfl
@[simp] theorem setLock_nextSyncId : (v.setLock object lock).nextSyncId = v.nextSyncId := rfl
@[simp] theorem setLock_lockIds : (v.setLock object lock).lockIds = v.lockIds := rfl
@[simp] theorem setLock_cvarIds : (v.setLock object lock).cvarIds = v.cvarIds := rfl
@[simp] theorem setLock_pipeIds : (v.setLock object lock).pipeIds = v.pipeIds := rfl
@[simp] theorem setLock_locks :
    (v.setLock object lock).locks = Function.update v.locks object lock := rfl
@[simp] theorem setLock_cvars : (v.setLock object lock).cvars = v.cvars := rfl
@[simp] theorem setLock_pipes : (v.setLock object lock).pipes = v.pipes := rfl

@[simp] theorem setCvar_toCrowd : (v.setCvar object cvarQ).toCrowd = v.toCrowd := rfl
@[simp] theorem setCvar_nextSyncId : (v.setCvar object cvarQ).nextSyncId = v.nextSyncId := rfl
@[simp] theorem setCvar_lockIds : (v.setCvar object cvarQ).lockIds = v.lockIds := rfl
@[simp] theorem setCvar_cvarIds : (v.setCvar object cvarQ).cvarIds = v.cvarIds := rfl
@[simp] theorem setCvar_pipeIds : (v.setCvar object cvarQ).pipeIds = v.pipeIds := rfl
@[simp] theorem setCvar_locks : (v.setCvar object cvarQ).locks = v.locks := rfl
@[simp] theorem setCvar_cvars :
    (v.setCvar object cvarQ).cvars = Function.update v.cvars object cvarQ := rfl
@[simp] theorem setCvar_pipes : (v.setCvar object cvarQ).pipes = v.pipes := rfl

@[simp] theorem setPipe_toCrowd : (v.setPipe object pipe).toCrowd = v.toCrowd := rfl
@[simp] theorem setPipe_nextSyncId : (v.setPipe object pipe).nextSyncId = v.nextSyncId := rfl
@[simp] theorem setPipe_lockIds : (v.setPipe object pipe).lockIds = v.lockIds := rfl
@[simp] theorem setPipe_cvarIds : (v.setPipe object pipe).cvarIds = v.cvarIds := rfl
@[simp] theorem setPipe_pipeIds : (v.setPipe object pipe).pipeIds = v.pipeIds := rfl
@[simp] theorem setPipe_locks : (v.setPipe object pipe).locks = v.locks := rfl
@[simp] theorem setPipe_cvars : (v.setPipe object pipe).cvars = v.cvars := rfl
@[simp] theorem setPipe_pipes :
    (v.setPipe object pipe).pipes = Function.update v.pipes object pipe := rfl

end

/-- A wake-up keeps the sync objects. -/
inductive Wake (cause : Cause) (pid : Int) (v : View) : View → Prop where
  | mk {c : Crowd} (woken : Crowd.Wake cause pid v.toCrowd c) :
      Wake cause pid v { v with toCrowd := c }

/-- The process enters the loop of `KernelAcquire`, or runs on in it. -/
inductive Acquires (v : View) (p : Addr) (l : ObjPtr) : Call → Prop where
  | call (user : (v.proc p).pos = .user) (known : l ∈ v.lockIds) : Acquires v p l (.acquire l)
  | again {call : Call} (point : (v.proc p).pos = .acquire l call) : Acquires v p l call
  | woken {c : Int} (point : (v.proc p).pos = .cvarWoken c l) (known : l ∈ v.lockIds) :
      Acquires v p l (.cvarWait c l)

/-- The owner frees a lock and wakes the first process in its queue. -/
inductive Releases (p : Addr) (l : ObjPtr) (v : View) : View → Prop where
  | alone {lock : Lock} (known : l ∈ v.lockIds) (object : v.locks l = some lock)
      (owner : lock.ownerPcbp = some p) (queue : lock.waitingQ = []) :
      Releases p l v ((v.setLock l (some ⟨none, []⟩)).record (.released (v.proc p).pid l))
  | waiter {lock : Lock} {first : Addr} {rest : Queue Addr} {w : View} (known : l ∈ v.lockIds)
      (object : v.locks l = some lock) (owner : lock.ownerPcbp = some p)
      (queue : lock.waitingQ = first :: rest)
      (woken : Wake (.release l) (v.proc first).pid
        ((v.setLock l (some ⟨none, rest⟩)).record (.released (v.proc p).pid l)) w) :
      Releases p l v w

/-- The first process in the queue of a condition variable is woken. -/
inductive Dequeues (cause : Cause) (c : ObjPtr) (v : View) : View → Prop where
  | mk {first : Addr} {rest : Queue Addr} {w : View} (object : v.cvars c = some (first :: rest))
      (woken : Wake cause (v.proc first).pid (v.setCvar c (some rest)) w) : Dequeues cause c v w

/-- The head of the queue of a pipe is woken and stays in the queue. -/
inductive WakesHead (pipep : ObjPtr) (v : View) : Queue Addr → View → Prop where
  | empty : WakesHead pipep v [] v
  | head {first : Addr} {rest : Queue Addr} {w : View}
      (woken : Wake (.pipe pipep) (v.proc first).pid v w) : WakesHead pipep v (first :: rest) w

/-- A reader enters the queue of a pipe, or runs on in the loop of `KernelPipeRead`. -/
inductive Reads (p : Addr) (act : Option Call) (pipep : ObjPtr) (len : Int) (v : View) :
    Int → Pipe → View → Prop where
  | call {pipe : Pipe} (called : act = some (.pipeRead pipep len))
      (user : (v.proc p).pos = .user) (known : pipep ∈ v.pipeIds) (positive : 0 < len)
      (object : v.pipes pipep = some pipe) :
      Reads p act pipep len v pipep { pipe with waitingQ := enqQ pipe.waitingQ p }
        (v.setPipe pipep (some { pipe with waitingQ := enqQ pipe.waitingQ p }))
  | again {pipe : Pipe} {pipeId : Int} (point : (v.proc p).pos = .pipeRead pipep pipeId len)
      (object : v.pipes pipep = some pipe) : Reads p act pipep len v pipeId pipe v

/-- A new object gets the next id. -/
def created (v : View) (p : Addr) : View :=
  { v with nextSyncId := v.nextSyncId + 1 }.record (.created (v.proc p).pid v.nextSyncId)

/-- A step of the running process that begins with the call `act`, and `next` runs after it. -/
inductive Step (p next : Addr) (act : Option Call) (v : View) : View → Prop where
  | crowd {c : Crowd} (step : v.toCrowd.Step p next c) : Step p next act v { v with toCrowd := c }
  | lockInit (user : (v.proc p).pos = .user) :
      Step p next act v (({ v.created p with lockIds := insert v.nextSyncId v.lockIds }.setLock
        v.nextSyncId (some ⟨none, makeQ⟩)).finish p .lockInit successCode)
  | cvarInit (user : (v.proc p).pos = .user) :
      Step p next act v (({ v.created p with cvarIds := insert v.nextSyncId v.cvarIds }.setCvar
        v.nextSyncId (some makeQ)).finish p .cvarInit successCode)
  | pipeInit {buffer : List Byte} (user : (v.proc p).pos = .user)
      (size : buffer.length = pipeMaxBytes) :
      Step p next act v (({ v.created p with pipeIds := insert v.nextSyncId v.pipeIds }.setPipe
        v.nextSyncId (some ⟨buffer, 0, makeQ⟩)).finish p .pipeInit successCode)
  | acquireTake {l : ObjPtr} {call : Call} {lock : Lock} (acquires : v.Acquires p l call)
      (object : v.locks l = some lock) (free : lock.ownerPcbp = none) :
      Step p next act v
        ((v.setLock l (some { lock with ownerPcbp := some p })).finish p call successCode)
  | acquireBlock {l : ObjPtr} {call : Call} {lock : Lock} (acquires : v.Acquires p l call)
      (object : v.locks l = some lock) (taken : lock.ownerPcbp ≠ none) :
      Step p next act v
        ((v.setLock l (some { lock with waitingQ := enqQ lock.waitingQ p })).suspend p
          (.acquire l call))
  | acquireFailed {c l : Int} (point : (v.proc p).pos = .cvarWoken c l) (unknown : l ∉ v.lockIds) :
      Step p next act v (v.finish p (.cvarWait c l) errorCode)
  | release {l : ObjPtr} {w : View} (called : act = some (.release l))
      (user : (v.proc p).pos = .user) (releases : v.Releases p l w) :
      Step p next act v (w.finish p (.release l) successCode)
  | cvarWait {c l : Int} {cvarQ : Queue Addr} {w : View} (called : act = some (.cvarWait c l))
      (user : (v.proc p).pos = .user) (known : c ∈ v.cvarIds) (object : v.cvars c = some cvarQ)
      (releases : w = v.setCvar c (some (enqQ cvarQ p)) ∨
        (v.setCvar c (some (enqQ cvarQ p))).Releases p l w) :
      Step p next act v (w.suspend p (.cvarWoken c l))
  | signal {c : Int} {w : View} (called : act = some (.cvarSignal c))
      (user : (v.proc p).pos = .user) (known : c ∈ v.cvarIds)
      (dequeues : v.cvars c = some [] ∧ w = v ∨ v.Dequeues (.signal c) c w) :
      Step p next act v (w.finish p (.cvarSignal c) successCode)
  | broadcast {c : Int} {w : View} (called : act = some (.cvarBroadcast c))
      (user : (v.proc p).pos = .user) (known : c ∈ v.cvarIds)
      (dequeues : Relation.ReflTransGen (Dequeues (.broadcast c) c) v w)
      (empty : w.cvars c = some []) :
      Step p next act v (w.finish p (.cvarBroadcast c) successCode)
  | pipeBlock {pipep : ObjPtr} {pipeId len : Int} {pipe : Pipe} {w : View}
      (reads : v.Reads p act pipep len pipeId pipe w)
      (waits : pipe.numBytesWritten < len ∨
        (v.proc p).pos = .user ∧ peekQ pipe.waitingQ ≠ some p) :
      Step p next act v (w.suspend p (.pipeRead pipep pipeId len))
  | pipeTake {pipep : ObjPtr} {pipeId len : Int} {pipe : Pipe} {first : Addr}
      {rest : Queue Addr} {w x : View} (reads : v.Reads p act pipep len pipeId pipe w)
      (enough : len ≤ pipe.numBytesWritten) (queue : pipe.waitingQ = first :: rest)
      (turn : (v.proc p).pos = .user → first = p)
      (wakes : if 0 < pipe.numBytesWritten - len then
          ((w.setPipe pipep (some (pipe.consumed len rest))).record
            (.pipeRead pipep len (pipe.buffer.take len.toNat))).WakesHead pipep rest x
        else x = (w.setPipe pipep (some (pipe.consumed len rest))).record
          (.pipeRead pipep len (pipe.buffer.take len.toNat))) :
      Step p next act v (x.finish p (.pipeRead pipeId len) len)
  | pipeDry {pipep : ObjPtr} {pipeId len : Int} {pipe : Pipe} {w : View}
      (reads : v.Reads p act pipep len pipeId pipe w) (enough : len ≤ pipe.numBytesWritten)
      (queue : pipe.waitingQ = []) :
      Step p next act v (w.finish p (.pipeRead pipeId len) errorCode)
  | pipeWrite {pipep : ObjPtr} {len : Int} {bytes buffer : List Byte} {pipe : Pipe} {w : View}
      (called : act = some (.pipeWrite pipep len bytes)) (user : (v.proc p).pos = .user)
      (known : pipep ∈ v.pipeIds) (positive : 0 < len)
      (size : bytes.length = len.toNat) (object : v.pipes pipep = some pipe)
      (room : wrapInt (pipe.numBytesWritten + len) ≤ pipeMaxBytes)
      (copied : memmove pipe.buffer pipe.numBytesWritten bytes = .ok buffer)
      (wakes : ((v.setPipe pipep (some ⟨buffer, pipe.numBytesWritten + len, pipe.waitingQ⟩)).record
        (.pipeWritten pipep bytes)).WakesHead pipep pipe.waitingQ w) :
      Step p next act v (w.finish p (.pipeWrite pipep len bytes) len)
  | reclaimLock {id : Int} {lock : Lock} (called : act = some (.reclaim id))
      (user : (v.proc p).pos = .user) (known : id ∈ v.lockIds)
      (object : v.locks id = some lock) (free : lock.ownerPcbp = none) :
      Step p next act v (({ v with lockIds := v.lockIds \ {id} }.setLock id none).finish p
        (.reclaim id) successCode)
  | reclaimOwned {id : Int} {lock : Lock} (called : act = some (.reclaim id))
      (user : (v.proc p).pos = .user) (known : id ∈ v.lockIds)
      (object : v.locks id = some lock) (owned : lock.ownerPcbp ≠ none) :
      Step p next act v (({ v with lockIds := v.lockIds \ {id} }.setLock id
        (some { lock with waitingQ := makeQ })).finish p (.reclaim id) errorCode)
  | reclaimCvar {id : Int} (called : act = some (.reclaim id))
      (user : (v.proc p).pos = .user) (known : id ∈ v.cvarIds) (object : v.cvars id = some []) :
      Step p next act v (({ v with cvarIds := v.cvarIds \ {id} }.setCvar id none).finish p
        (.reclaim id) successCode)
  | reclaimWaited {id : Int} {cvarQ : Queue Addr} (called : act = some (.reclaim id))
      (user : (v.proc p).pos = .user) (known : id ∈ v.cvarIds)
      (object : v.cvars id = some cvarQ) (waited : cvarQ ≠ []) :
      Step p next act v ({ v with cvarIds := v.cvarIds \ {id} }.finish p (.reclaim id) errorCode)
  | reclaimPipe {id : Int} {pipe : Pipe} (called : act = some (.reclaim id))
      (user : (v.proc p).pos = .user) (known : id ∈ v.pipeIds)
      (object : v.pipes id = some pipe) (empty : pipe.waitingQ = []) :
      Step p next act v (({ v with pipeIds := v.pipeIds \ {id} }.setPipe id none).finish p
        (.reclaim id) successCode)
  | reclaimRead {id : Int} {pipe : Pipe} (called : act = some (.reclaim id))
      (user : (v.proc p).pos = .user) (known : id ∈ v.pipeIds)
      (object : v.pipes id = some pipe) (waited : pipe.waitingQ ≠ []) :
      Step p next act v ({ v with pipeIds := v.pipeIds \ {id} }.finish p (.reclaim id) errorCode)

end View

end

end Yallnix
