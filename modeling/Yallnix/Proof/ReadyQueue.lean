import Yallnix.Construction.SmallMachine
import Yallnix.Proof.SingleResidence

namespace Yallnix

section
variable [Hardware]

/-- These functions of the scheduler take the next process from `readyQ`. -/
inductive Dispatch where
  | sleepProcess (numRemainingDelayTicks : Int)
  | blockProcess (currKctxt : Pos)
  | blockTransmitter (currKctxt : Pos) (tty : Fin numTerminals)
  | waitTransmitter (currKctxt : Pos) (tty : Fin numTerminals)
  | blockReader (currKctxt : Pos) (tty : Fin numTerminals)
  | exitProcess (exitStatus : Int) (junk : PCB)

def Dispatch.perform : Dispatch → Scheduler → Outcome (Flow Scheduler)
  | .sleepProcess ticks, s => Yallnix.sleepProcess ticks s
  | .blockProcess currKctxt, s => Yallnix.blockProcess currKctxt s
  | .blockTransmitter currKctxt tty, s => .ok (Yallnix.blockTransmitter currKctxt tty s)
  | .waitTransmitter currKctxt tty, s => .ok (Yallnix.waitTransmitter currKctxt tty s)
  | .blockReader currKctxt tty, s => .ok (Yallnix.blockReader currKctxt tty s)
  | .exitProcess exitStatus junk, s => Yallnix.exitProcess exitStatus junk s

/-- The terminal gets one more batch of the running process. -/
def Scheduler.transmits (s : Scheduler) (tty : Fin numTerminals) (bytes : List Byte) : Scheduler :=
  ({ s with transmitting := Function.update s.transmitting tty true } : Scheduler).record
    (.transmitted tty s.curr.pid bytes)

/-- The work on an input reaches one of these functions in this state of the scheduler. -/
inductive Kernel.Calls (s : Kernel) : Input → Dispatch → Scheduler → Prop where
  | delay {clockTicks : Int} {oracle : Oracle} (positive : 0 < clockTicks) :
      Calls s (.kernelCall (.delay clockTicks) oracle) (.sleepProcess clockTicks) s.toScheduler
  | wait {statusPtr : Nat} {oracle : Oracle} :
      Calls s (.kernelCall (.wait statusPtr) oracle) (.blockProcess (.waitWoken statusPtr))
        s.toScheduler
  | acquire {lockId : Int} {lockp : ObjPtr} {oracle : Oracle} :
      Calls s (.kernelCall (.acquire lockId) oracle)
        (.blockProcess (.acquire lockp (.acquire lockId))) s.toScheduler
  | acquireAgain {lockp : ObjPtr} {call : Call} {junk : PCB}
      (point : s.cpu = .acquire lockp call) :
      Calls s (.resume junk) (.blockProcess (.acquire lockp call)) s.toScheduler
  | cvarWait {cvarId lockId code : Int} {cvarp : ObjPtr} {cvarQ : Queue Addr} {oracle : Oracle}
      {t : Kernel} (released : kernelRelease lockId (s.setCvar cvarp (some cvarQ)) = .ok (code, t)) :
      Calls s (.kernelCall (.cvarWait cvarId lockId) oracle)
        (.blockProcess (.cvarWoken cvarId lockId)) t.toScheduler
  | cvarWoken {cvarId lockId : Int} {lockp : ObjPtr} {junk : PCB}
      (point : s.cpu = .cvarWoken cvarId lockId) :
      Calls s (.resume junk) (.blockProcess (.acquire lockp (.cvarWait cvarId lockId)))
        s.toScheduler
  | pipeRead {pipeId len : Int} {pipep : ObjPtr} {oracle : Oracle} :
      Calls s (.kernelCall (.pipeRead pipeId len) oracle)
        (.blockProcess (.pipeRead pipep pipeId len)) s.toScheduler
  | pipeReadAgain {pipeId len : Int} {pipep : ObjPtr} {junk : PCB}
      (point : s.cpu = .pipeRead pipep pipeId len) :
      Calls s (.resume junk) (.blockProcess (.pipeRead pipep pipeId len)) s.toScheduler
  | ttyWrite {ttyId len : Int} {buf : Nat} {bytes : List Byte} {tty : Fin numTerminals}
      {oracle : Oracle} :
      Calls s (.kernelCall (.ttyWrite ttyId buf len bytes) oracle)
        (.blockTransmitter (.ttyWrite tty (.ttyWrite ttyId buf len bytes) bytes) tty) s.toScheduler
  | ttyWriteAgain {tty : Fin numTerminals} {call : Call} {r0Buf : List Byte} {junk : PCB}
      (point : s.cpu = .ttyWrite tty call r0Buf) :
      Calls s (.resume junk) (.blockTransmitter (.ttyWrite tty call r0Buf) tty) s.toScheduler
  | firstBatch {ttyId len : Int} {buf sent : Nat} {bytes batch : List Byte}
      {tty : Fin numTerminals} {oracle : Oracle} :
      Calls s (.kernelCall (.ttyWrite ttyId buf len bytes) oracle)
        (.waitTransmitter (.ttyBatch tty (.ttyWrite ttyId buf len bytes) bytes sent) tty)
        (s.transmits tty batch)
  | firstBatchAgain {tty : Fin numTerminals} {call : Call} {r0Buf batch : List Byte} {sent : Nat}
      {junk : PCB} (point : s.cpu = .ttyWrite tty call r0Buf) :
      Calls s (.resume junk) (.waitTransmitter (.ttyBatch tty call r0Buf sent) tty)
        (s.transmits tty batch)
  | nextBatch {tty : Fin numTerminals} {call : Call} {r0Buf batch : List Byte}
      {sent bytesTransmitted : Nat} {junk : PCB}
      (point : s.cpu = .ttyBatch tty call r0Buf bytesTransmitted) :
      Calls s (.resume junk) (.waitTransmitter (.ttyBatch tty call r0Buf sent) tty)
        (s.transmits tty batch)
  | ttyRead {ttyId len : Int} {buf : Nat} {tty : Fin numTerminals} {oracle : Oracle} :
      Calls s (.kernelCall (.ttyRead ttyId buf len) oracle)
        (.blockReader (.ttyRead tty (.ttyRead ttyId buf len) len) tty) s.toScheduler
  | ttyReadAgain {tty : Fin numTerminals} {call : Call} {len : Int} {junk : PCB}
      (point : s.cpu = .ttyRead tty call len) :
      Calls s (.resume junk) (.blockReader (.ttyRead tty call len) tty) s.toScheduler
  | exit {status : Int} {junk : PCB} (point : s.cpu = .exit status) :
      Calls s (.resume junk) (.exitProcess status junk) s.toScheduler

/-- The idle process never runs code that reaches these functions. -/
theorem Kernel.Calls.notIdle {s : Kernel} {t : Scheduler} {i : Input} {call : Dispatch}
    (placed : Placed s.toScheduler) (ready : enabled s i = true) (calls : s.Calls i call t) :
    s.currPCB ≠ s.idlePCB := by
  have resumed : s.cpu.isIdle = false → s.currPCB ≠ s.idlePCB := by
    intro busy same
    have idle := placed.idlePos
    rw [← same, s.pos_curr, busy] at idle
    cases idle
  have called {act : Call} {oracle : Oracle} (ready : enabled s (.kernelCall act oracle) = true) :
      s.currPCB ≠ s.idlePCB := by
    simp only [enabled, Bool.and_eq_true, decide_eq_true_eq] at ready
    exact ready.1.1.2
  cases calls with
  | delay | wait | acquire | cvarWait | pipeRead | ttyWrite | firstBatch | ttyRead =>
      exact called ready
  | acquireAgain point | cvarWoken point | pipeReadAgain point | ttyWriteAgain point
  | firstBatchAgain point | nextBatch point | ttyReadAgain point | exit point =>
      exact resumed (by rw [point]; rfl)

/-- A queue with the idle process and without the running process serves another process. -/
theorem runReady_serves {s : Scheduler} {k : Pos} (idle : s.idlePCB ∈ s.readyQ)
    (absent : s.currPCB ∉ s.readyQ) :
    ∃ u, runReady k s = .go u ∧ u.currPCB ∈ s.readyQ ∧ u.currPCB ≠ s.currPCB := by
  obtain ⟨next, rest, queue⟩ := List.exists_cons_of_ne_nil (List.ne_nil_of_mem idle)
  refine ⟨switchBetween k (some s.currPCB) next { s with readyQ := rest }, ?_, ?_, ?_⟩
  · simp [runReady, queue]
  · rw [queue]
    exact List.mem_cons_self
  · rintro same
    refine absent ?_
    rw [← same, queue]
    exact List.mem_cons_self

/-- The running process is not in `readyQ`, and the idle process is if it does not run. -/
theorem Placed.queue {s : Scheduler} (placed : Placed s) (notIdle : s.currPCB ≠ s.idlePCB) :
    s.idlePCB ∈ s.readyQ ∧ s.currPCB ∉ s.readyQ := by
  refine ⟨Settled.idle_ready placed fun out => notIdle (Finset.mem_singleton.mp out).symm, ?_⟩
  intro queued
  have waits : 0 < s.occurs .ready s.currPCB := List.count_pos_iff.mpr queued
  obtain ⟨-, notOut, -⟩ := placed.of_occurs waits
  exact notOut (Finset.mem_singleton_self _)

theorem blockProcess_serves {s : Scheduler} (placed : Placed s) (notIdle : s.currPCB ≠ s.idlePCB)
    (k : Pos) : ∃ u, blockProcess k s = .ok (.go u) ∧ u.currPCB ∈ s.readyQ ∧
      u.currPCB ≠ s.currPCB := by
  have absent : s.curr.pid ∉ s.blockedMap.keys := by
    intro known
    obtain ⟨a, entry⟩ := HashMap.mem_keys.mp known
    obtain ⟨same, live, notOut, -⟩ := placed.mem_blocked entry
    rw [placed.pidDistinct _ placed.live a live same] at notOut
    exact notOut (Finset.mem_singleton_self _)
  have nonneg : 0 ≤ s.curr.pid := (placed.pidUsed _ placed.live).1
  obtain ⟨blockedMap, inserted⟩ := HashMap.insert_of_absent
    (s.blockedMap.fits_of_nonneg nonneg) absent s.currPCB
  obtain ⟨idle, out⟩ := placed.queue notIdle
  obtain ⟨u, ran, queued, other⟩ := runReady_serves (k := k)
    (s := { s with blockedMap := blockedMap }) idle out
  refine ⟨u, ?_, queued, other⟩
  rw [blockProcess, inserted, Outcome.ok_bind]
  exact congrArg Except.ok ran

/-- The running process goes into `sleepingMap` under its own pid. -/
theorem insertSleeping_serves {s : Scheduler} (placed : Placed s)
    (notIdle : s.currPCB ≠ s.idlePCB) (k : Pos) :
    ∃ sleepingMap u, hashMapInsert s.sleepingMap s.curr.pid s.currPCB = .ok (some sleepingMap) ∧
      runReady k { s with sleepingMap := sleepingMap } = .go u ∧ u.currPCB ∈ s.readyQ ∧
      u.currPCB ≠ s.currPCB := by
  have absent : s.curr.pid ∉ s.sleepingMap.keys := by
    intro known
    obtain ⟨a, entry⟩ := HashMap.mem_keys.mp known
    obtain ⟨same, live, notOut, -⟩ := placed.mem_sleeping entry
    rw [placed.pidDistinct _ placed.live a live same] at notOut
    exact notOut (Finset.mem_singleton_self _)
  have nonneg : 0 ≤ s.curr.pid := (placed.pidUsed _ placed.live).1
  obtain ⟨sleepingMap, inserted⟩ := HashMap.insert_of_absent
    (s.sleepingMap.fits_of_nonneg nonneg) absent s.currPCB
  obtain ⟨idle, out⟩ := placed.queue notIdle
  obtain ⟨u, ran, queued, other⟩ := runReady_serves (k := k)
    (s := { s with sleepingMap := sleepingMap }) idle out
  exact ⟨sleepingMap, u, inserted, ran, queued, other⟩

theorem sleepProcess_serves {s : Scheduler} (placed : Placed s) (notIdle : s.currPCB ≠ s.idlePCB)
    {ticks : Int} (positive : 0 < ticks) : ∃ u, sleepProcess ticks s = .ok (.go u) ∧
      u.currPCB ∈ s.readyQ ∧ u.currPCB ≠ s.currPCB := by
  have same := sameProcesses_updatePcb s s.currPCB
    (fun pcb => { pcb with numRemainingDelayTicks := ticks }) rfl rfl rfl rfl rfl rfl
  obtain ⟨sleepingMap, u, inserted, ran, queued, other⟩ :=
    insertSleeping_serves (placed.sameProcesses same) notIdle (.delay ticks)
  refine ⟨u, ?_, queued, other⟩
  rw [sleepProcess, if_neg (by omega)]
  dsimp only
  rw [inserted, Outcome.ok_bind]
  exact congrArg Except.ok ran

/-- A wake-up by pid may put one process behind `readyQ`. -/
theorem unblockProcess_appends {s : Scheduler} {cause : Cause} {pid : Int} (nonneg : 0 ≤ pid) :
    ∃ t woken, unblockProcess cause pid s = .ok t ∧ t.readyQ = s.readyQ ++ woken ∧
      t.currPCB = s.currPCB := by
  obtain ⟨removed, outcome⟩ := HashMap.remove_of_fits (s.blockedMap.fits_of_nonneg nonneg)
  rw [unblockProcess, outcome, Outcome.ok_bind]
  cases removed with
  | none => exact ⟨s, [], rfl, (List.append_nil _).symm, rfl⟩
  | some found => exact ⟨_, [found.1], rfl, rfl, rfl⟩

theorem reportExit_appends {s : Scheduler} (placed : Placed s) (family : Family s.crowd)
    (status : Int) :
    ∃ t woken, reportExit status s = .ok t ∧ t.readyQ = s.readyQ ++ woken ∧
      t.currPCB = s.currPCB := by
  unfold reportExit
  split
  · exact ⟨s, [], rfl, (List.append_nil _).symm, rfl⟩
  · rename_i parent isParent
    obtain ⟨alive, -⟩ := family.parentLive s.currPCB placed.live parent isParent
    refine unblockProcess_appends ?_
    simp only [Scheduler.updatePcb, Function.update_self]
    exact (placed.pidUsed parent alive).1

/-- An exit wakes the parent at most before it takes the next process. -/
theorem exitProcess_serves {s : Scheduler} (placed : Placed s) (family : Family s.crowd)
    (notIdle : s.currPCB ≠ s.idlePCB) (status : Int) (junk : PCB) :
    ∃ u, exitProcess status junk s = .ok (.go u) ∧ u.currPCB ∈ s.readyQ ∧
      u.currPCB ≠ s.currPCB := by
  obtain ⟨t, woken, reported, readyQ, curr⟩ := reportExit_appends placed family status
  obtain ⟨idle, out⟩ := placed.queue notIdle
  obtain ⟨next, rest, queue⟩ := List.exists_cons_of_ne_nil (List.ne_nil_of_mem idle)
  rw [queue, List.cons_append] at readyQ
  obtain ⟨pcbs, iterated, -⟩ := removeParent_fold t.curr.childrenMap.entries t
  rw [exitProcess]
  dsimp only
  rw [reported, Outcome.ok_bind, HashMap.iterate_eq_foldl, iterated]
  simp only [deleteProcess, Scheduler.record, Scheduler.updatePcb, readyQ, deqQ_cons]
  refine ⟨_, rfl, ?_, ?_⟩
  · rw [queue]
    exact List.mem_cons_self
  · rintro same
    change next = s.currPCB at same
    refine out ?_
    rw [← same, queue]
    exact List.mem_cons_self

/-- Every call of a scheduling function switches to another process from `readyQ`. -/
theorem Sound.serves {s : Kernel} {t : Scheduler} {i : Input} {call : Dispatch}
    (sound : Sound s) (ready : enabled s i = true) (calls : s.Calls i call t) :
    ∃ u, call.perform t = .ok (.go u) ∧ u.currPCB ∈ t.readyQ ∧ u.currPCB ≠ s.currPCB := by
  have placed := sound.placed
  have notIdle := calls.notIdle placed ready
  obtain ⟨idle, out⟩ := placed.queue notIdle
  have runs {v : Scheduler} (k : Pos) (queue : v.readyQ = s.readyQ)
      (curr : v.currPCB = s.currPCB) (same : v.idlePCB = s.idlePCB) :
      ∃ u, (.ok (runReady k v) : Outcome (Flow Scheduler)) = .ok (.go u) ∧
        u.currPCB ∈ s.readyQ ∧ u.currPCB ≠ s.currPCB := by
    obtain ⟨u, ran, queued, other⟩ := runReady_serves (k := k) (s := v)
      (by rwa [queue, same]) (by rwa [queue, curr])
    rw [queue] at queued
    rw [curr] at other
    exact ⟨u, congrArg Except.ok ran, queued, other⟩
  cases calls with
  | delay positive => exact sleepProcess_serves placed notIdle positive
  | wait | acquire | pipeRead => exact blockProcess_serves placed notIdle _
  | acquireAgain _ | cvarWoken _ | pipeReadAgain _ => exact blockProcess_serves placed notIdle _
  | @cvarWait cvarId lockId code cvarp cvarQ oracle t released =>
      have named := sound.named.of
        (p := (s.setCvar cvarp (some cvarQ)).toSyncObjects) rfl rfl rfl rfl
      rcases kernelRelease_refines (s := s.setCvar cvarp (some cvarQ)) placed named released with
        ⟨-, rfl⟩ | ⟨-, -, result, -, curr, -, sameIdle⟩
      · exact blockProcess_serves placed notIdle _
      · have other : t.currPCB ≠ t.idlePCB := by
          rw [curr, sameIdle]
          exact notIdle
        obtain ⟨u, ran, queued, switched⟩ := blockProcess_serves result other _
        rw [curr] at switched
        exact ⟨u, ran, queued, switched⟩
  | ttyWrite | firstBatch | ttyRead => exact runs _ rfl rfl rfl
  | ttyWriteAgain _ | firstBatchAgain _ | nextBatch _ | ttyReadAgain _ => exact runs _ rfl rfl rfl
  | exit _ => exact exitProcess_serves placed sound.family notIdle _ _

/-- A writer that finds its terminal busy is queued once and gives up the CPU. -/
theorem Sound.queuesOnce {s : Kernel} {t : Scheduler} {i : Input} {tty : Fin numTerminals}
    {call : Call} {r0Buf : List Byte} (sound : Sound s) (ready : enabled s i = true)
    (calls : s.Calls i (.blockTransmitter (.ttyWrite tty call r0Buf) tty) t)
    (busy : isTtyTransmitAvailable tty t = false) :
    ∃ u, ttyWriteLoop tty call r0Buf t = .go u ∧ u.currPCB ≠ s.currPCB ∧
      (u.transmittingQs tty).count s.currPCB = 1 := by
  obtain ⟨u, ran, -, other⟩ := sound.serves ready calls
  have blocked : blockTransmitter (.ttyWrite tty call r0Buf) tty t = .go u := Except.ok.inj ran
  refine ⟨u, ?_, other, ?_⟩
  · rw [ttyWriteLoop, busy, if_neg Bool.false_ne_true, blocked]
  · have same : t = s.toScheduler := by cases calls <;> rfl
    subst same
    have absent := sound.placed.absent s.currPCB
      (fun _ notOut => absurd (Finset.mem_singleton_self _) notOut) (.transmitting tty)
    rw [Scheduler.occurs] at absent
    rw [blockTransmitter, runReady] at blocked
    split at blocked
    · cases blocked
    · cases blocked
      simp [switchBetween, Scheduler.updatePcb, enqQ, absent]

/-- Between two inputs the idle process runs or is in `readyQ` once. Every function that takes a
process from `readyQ` gets one and switches to it, and a waiting writer is queued once. -/
theorem readyQ_neverDry {s : Kernel} (reachable : yallnix.Reachable s) :
    (s.currPCB = s.idlePCB ∧ s.readyQ.count s.idlePCB = 0 ∨
      s.currPCB ≠ s.idlePCB ∧ s.readyQ.count s.idlePCB = 1) ∧
    (∀ i call t, enabled s i = true → s.Calls i call t →
      ∃ u, call.perform t = .ok (.go u) ∧ u.currPCB ∈ t.readyQ ∧ u.currPCB ≠ s.currPCB) ∧
    ∀ i tty call r0Buf t, enabled s i = true →
      s.Calls i (.blockTransmitter (.ttyWrite tty call r0Buf) tty) t →
      isTtyTransmitAvailable tty t = false →
      ∃ u, ttyWriteLoop tty call r0Buf t = .go u ∧ u.currPCB ≠ s.currPCB ∧
        (u.transmittingQs tty).count s.currPCB = 1 := by
  have sound := reachable_sound reachable
  refine ⟨?_, fun i call t => sound.serves, fun i tty call r0Buf t => sound.queuesOnce⟩
  have once := sound.placed.occurs_le_one .ready s.idlePCB
  rw [Scheduler.occurs] at once
  by_cases running : s.currPCB = s.idlePCB
  · refine Or.inl ⟨running, ?_⟩
    rw [← running]
    exact sound.placed.absent s.currPCB
      (fun _ notOut => absurd (Finset.mem_singleton_self _) notOut) .ready
  · have queued := List.count_pos_iff.mpr (sound.placed.queue running).1
    exact Or.inr ⟨running, by omega⟩

end

section
attribute [local instance] smallHardware

/-- A second writer finds the terminal busy and is queued once. -/
theorem readyQ_neverDry_busy : ∃ s u, yallnix.Reachable s ∧ s.currTransmitters 0 ≠ none ∧
    ttyWriteLoop 0 (.ttyWrite 0 144 1 [8]) [8] s.toScheduler = .go u ∧
    u.currPCB ≠ s.currPCB ∧ (u.transmittingQs 0).count s.currPCB = 1 := by
  obtain ⟨s, reachable, tested⟩ := exists_reachable
    (fun s => (s.currTransmitters 0).isSome && enabled s (asks (.ttyWrite 0 144 1 [8])))
    [forks 2, goesOn, forks 3, goesOn, asks (.ttyWrite 0 144 1 [7]), goesOn, .clock, goesOn]
    (by decide +kernel)
  rw [Bool.and_eq_true] at tested
  have taken := Option.isSome_iff_ne_none.mp tested.1
  obtain ⟨u, queued⟩ := (readyQ_neverDry reachable).2.2 _ 0 (.ttyWrite 0 144 1 [8]) [8] _
    tested.2 .ttyWrite (Option.isNone_eq_false_iff.mpr tested.1)
  exact ⟨s, u, reachable, taken, queued⟩

end

end Yallnix
