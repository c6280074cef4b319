import Yallnix.Proof.WaitAnswer
import Yallnix.Proof.SyncStep
import Yallnix.Proof.WakeStep

namespace Yallnix

section
variable [Hardware]

/-- A sync call keeps the running process or leaves it at a point of the sync calls. -/
def Flow.Ends (s : Kernel) : Flow Kernel → Prop
  | .ret t _ => t.currPCB = s.currPCB
  | .go t => (t.pos s.currPCB).isSync = true

section
variable {s t : Kernel}

theorem sysReturn_ends (curr : t.currPCB = s.currPCB) (call : Call) (code : Int) :
    ((t.sysReturn call code).pos s.currPCB).isSync = true := by
  have here : (t.sysReturn call code).pos s.currPCB = .user := if_pos curr.symm
  rw [here]
  rfl

theorem Flow.Ends.finish {flow : Flow Kernel} (ends : flow.Ends s) (call : Call) :
    ((Yallnix.finish call flow).pos s.currPCB).isSync = true := by
  cases flow with
  | ret t code => exact sysReturn_ends ends call code
  | go t => exact ends

theorem Flow.Ends.after {flow : Flow Kernel} (curr : t.currPCB = s.currPCB)
    (ends : flow.Ends t) : flow.Ends s := by
  cases flow with
  | ret u code => exact Eq.trans ends curr
  | go u =>
      change (u.pos t.currPCB).isSync = true at ends
      rwa [curr] at ends

theorem runReady_pos {s : Scheduler} (k : Pos) :
    runReady k s = .ret s errorCode ∨ ∃ t, runReady k s = .go t ∧ t.pos s.currPCB = k := by
  unfold runReady
  cases s.readyQ with
  | nil => exact .inl rfl
  | cons next rest =>
      refine .inr ⟨_, rfl, ?_⟩
      have pos := switchBetween_pos k next s.currPCB { s with readyQ := rest }
      rwa [if_pos rfl] at pos

/-- A process that blocks stays at the point where it blocked. -/
theorem blockProcess_pos {s : Scheduler} {k : Pos} {flow : Flow Scheduler}
    (done : blockProcess k s = .ok flow) :
    (∃ t, flow = .ret t errorCode ∧ t.currPCB = s.currPCB) ∨
      ∃ t, flow = .go t ∧ t.pos s.currPCB = k := by
  unfold blockProcess at done
  obtain ⟨inserted, _, done⟩ := Outcome.bind_eq_ok.mp done
  cases inserted with
  | none => exact .inl ⟨s, (Except.ok.inj done).symm, rfl⟩
  | some blockedMap =>
      have ran := Except.ok.inj done
      rcases runReady_pos (s := { s with blockedMap := blockedMap }) k with failed | ⟨t, goes, pos⟩
      · exact .inl ⟨_, ran.symm.trans failed, rfl⟩
      · exact .inr ⟨t, ran.symm.trans goes, pos⟩

theorem blockCurrent_ends {k : Pos} (sync : k.isSync = true) {flow : Flow Kernel}
    (done : blockCurrent k s = .ok flow) : flow.Ends s := by
  unfold blockCurrent at done
  obtain ⟨inner, blocked, done⟩ := Outcome.bind_eq_ok.mp done
  rcases blockProcess_pos blocked with ⟨t, rfl, curr⟩ | ⟨t, rfl, pos⟩
  · exact Except.ok.inj done ▸ curr
  · refine Except.ok.inj done ▸ ?_
    change (t.pos s.currPCB).isSync = true
    rw [pos]
    exact sync

theorem unblockWaiter_curr {cause : Cause} {waiter : Addr}
    (done : unblockWaiter cause waiter s = .ok t) : t.currPCB = s.currPCB := by
  unfold unblockWaiter at done
  obtain ⟨u, woken, done⟩ := Outcome.bind_eq_ok.mp done
  exact Except.ok.inj done ▸ (unblockProcess_frameList woken).2.2.1

theorem acquireLoop_ends {lockp : ObjPtr} {call : Call} {flow : Flow Kernel}
    (done : acquireLoop lockp call s = .ok flow) : flow.Ends s := by
  unfold acquireLoop at done
  obtain ⟨lock, _, done⟩ := Outcome.bind_eq_ok.mp done
  dsimp only at done
  split at done
  · exact (blockCurrent_ends rfl done).after rfl
  · exact Except.ok.inj done ▸ rfl

theorem kernelAcquire_ends {call : Call} {lockId : Int} {flow : Flow Kernel}
    (done : kernelAcquire call lockId s = .ok flow) : flow.Ends s := by
  unfold kernelAcquire at done
  obtain ⟨found, _, done⟩ := Outcome.bind_eq_ok.mp done
  cases found with
  | none => exact Except.ok.inj done ▸ rfl
  | some lockp => exact acquireLoop_ends done

theorem kernelRelease_curr {lockId code : Int} (done : kernelRelease lockId s = .ok (code, t)) :
    t.currPCB = s.currPCB := by
  unfold kernelRelease at done
  obtain ⟨found, _, done⟩ := Outcome.bind_eq_ok.mp done
  cases found with
  | none => exact (Prod.mk.inj (Except.ok.inj done)).2 ▸ rfl
  | some lockp =>
      obtain ⟨lock, _, done⟩ := Outcome.bind_eq_ok.mp done
      split at done
      · exact (Prod.mk.inj (Except.ok.inj done)).2 ▸ rfl
      cases queue : lock.waitingQ with
      | nil =>
          rw [queue] at done
          exact (Prod.mk.inj (Except.ok.inj done)).2 ▸ rfl
      | cons first rest =>
          rw [queue] at done
          obtain ⟨u, woken, done⟩ := Outcome.bind_eq_ok.mp done
          have curr := unblockWaiter_curr woken
          exact (Prod.mk.inj (Except.ok.inj done)).2 ▸ curr

theorem kernelCvarWait_ends {cvarId lockId : Int} {flow : Flow Kernel}
    (done : kernelCvarWait cvarId lockId s = .ok flow) : flow.Ends s := by
  unfold kernelCvarWait at done
  obtain ⟨found, _, done⟩ := Outcome.bind_eq_ok.mp done
  cases found with
  | none => exact Except.ok.inj done ▸ rfl
  | some cvarp =>
      obtain ⟨cvarQ, _, done⟩ := Outcome.bind_eq_ok.mp done
      obtain ⟨⟨code, u⟩, released, done⟩ := Outcome.bind_eq_ok.mp done
      have curr := kernelRelease_curr released
      exact (blockCurrent_ends rfl done).after curr

theorem kernelCvarSignal_curr {cvarId code : Int}
    (done : kernelCvarSignal cvarId s = .ok (code, t)) : t.currPCB = s.currPCB := by
  unfold kernelCvarSignal at done
  obtain ⟨found, _, done⟩ := Outcome.bind_eq_ok.mp done
  cases found with
  | none => exact (Prod.mk.inj (Except.ok.inj done)).2 ▸ rfl
  | some cvarp =>
      obtain ⟨cvarQ, _, done⟩ := Outcome.bind_eq_ok.mp done
      cases cvarQ with
      | nil => exact (Prod.mk.inj (Except.ok.inj done)).2 ▸ rfl
      | cons first rest =>
          obtain ⟨u, woken, done⟩ := Outcome.bind_eq_ok.mp done
          have curr := unblockWaiter_curr woken
          exact (Prod.mk.inj (Except.ok.inj done)).2 ▸ curr

theorem broadcastLoop_curr {cvarp : ObjPtr} {cvarQ : Queue Addr}
    (done : broadcastLoop cvarp cvarQ s = .ok t) : t.currPCB = s.currPCB := by
  induction cvarQ generalizing s with
  | nil => exact Except.ok.inj done ▸ rfl
  | cons first rest ih =>
      obtain ⟨u, woken, done⟩ := Outcome.bind_eq_ok.mp done
      have curr := unblockWaiter_curr woken
      exact (ih done).trans curr

theorem kernelCvarBroadcast_curr {cvarId code : Int}
    (done : kernelCvarBroadcast cvarId s = .ok (code, t)) : t.currPCB = s.currPCB := by
  unfold kernelCvarBroadcast at done
  obtain ⟨found, _, done⟩ := Outcome.bind_eq_ok.mp done
  cases found with
  | none => exact (Prod.mk.inj (Except.ok.inj done)).2 ▸ rfl
  | some cvarp =>
      obtain ⟨cvarQ, _, done⟩ := Outcome.bind_eq_ok.mp done
      obtain ⟨u, drained, done⟩ := Outcome.bind_eq_ok.mp done
      exact (Prod.mk.inj (Except.ok.inj done)).2 ▸ broadcastLoop_curr drained

theorem unblockHead_curr {pipep : ObjPtr} {waitingQ : Queue Addr}
    (done : unblockHead pipep waitingQ s = .ok t) : t.currPCB = s.currPCB := by
  cases waitingQ with
  | nil => exact Except.ok.inj done ▸ rfl
  | cons first rest => exact unblockWaiter_curr done

theorem pipeReadLoop_ends {pipep : ObjPtr} {pipeId len : Int} {flow : Flow Kernel}
    (done : pipeReadLoop pipep pipeId len s = .ok flow) : flow.Ends s := by
  unfold pipeReadLoop at done
  obtain ⟨pipe, _, done⟩ := Outcome.bind_eq_ok.mp done
  split at done
  · exact blockCurrent_ends rfl done
  split at done
  · exact Except.ok.inj done ▸ rfl
  · obtain ⟨bytes, _, done⟩ := Outcome.bind_eq_ok.mp done
    dsimp only at done
    split at done
    · obtain ⟨rest, _, done⟩ := Outcome.bind_eq_ok.mp done
      obtain ⟨buffer, _, done⟩ := Outcome.bind_eq_ok.mp done
      obtain ⟨u, woken, done⟩ := Outcome.bind_eq_ok.mp done
      have curr := unblockHead_curr woken
      exact Except.ok.inj done ▸ curr
    · exact Except.ok.inj done ▸ rfl

theorem kernelPipeRead_ends {pipeId len : Int} {flow : Flow Kernel}
    (done : kernelPipeRead pipeId len s = .ok flow) : flow.Ends s := by
  unfold kernelPipeRead at done
  split at done
  · exact Except.ok.inj done ▸ rfl
  split at done
  · exact Except.ok.inj done ▸ rfl
  obtain ⟨found, _, done⟩ := Outcome.bind_eq_ok.mp done
  cases found with
  | none => exact Except.ok.inj done ▸ rfl
  | some pipep =>
      obtain ⟨pipe, _, done⟩ := Outcome.bind_eq_ok.mp done
      dsimp only at done
      split at done
      · exact (blockCurrent_ends rfl done).after rfl
      · exact (pipeReadLoop_ends done).after rfl

theorem kernelPipeWrite_curr {pipeId len code : Int} {bytes : List Byte}
    (done : kernelPipeWrite pipeId len bytes s = .ok (code, t)) : t.currPCB = s.currPCB := by
  unfold kernelPipeWrite at done
  split at done
  · exact (Prod.mk.inj (Except.ok.inj done)).2 ▸ rfl
  split at done
  · exact (Prod.mk.inj (Except.ok.inj done)).2 ▸ rfl
  obtain ⟨found, _, done⟩ := Outcome.bind_eq_ok.mp done
  cases found with
  | none => exact (Prod.mk.inj (Except.ok.inj done)).2 ▸ rfl
  | some pipep =>
      obtain ⟨pipe, _, done⟩ := Outcome.bind_eq_ok.mp done
      split at done
      · exact (Prod.mk.inj (Except.ok.inj done)).2 ▸ rfl
      · obtain ⟨buffer, _, done⟩ := Outcome.bind_eq_ok.mp done
        obtain ⟨u, woken, done⟩ := Outcome.bind_eq_ok.mp done
        have curr := unblockHead_curr woken
        exact (Prod.mk.inj (Except.ok.inj done)).2 ▸ curr

theorem deleteLock_curr {id code : Int} (done : deleteLock id s = .ok (code, t)) :
    t.currPCB = s.currPCB := by
  unfold deleteLock at done
  obtain ⟨removed, _, done⟩ := Outcome.bind_eq_ok.mp done
  cases removed with
  | none => exact (Prod.mk.inj (Except.ok.inj done)).2 ▸ rfl
  | some found =>
      obtain ⟨object, _, done⟩ := Outcome.bind_eq_ok.mp done
      dsimp only at done
      split at done <;> exact (Prod.mk.inj (Except.ok.inj done)).2 ▸ rfl

theorem deleteCvar_curr {id code : Int} (done : deleteCvar id s = .ok (code, t)) :
    t.currPCB = s.currPCB := by
  unfold deleteCvar at done
  obtain ⟨removed, _, done⟩ := Outcome.bind_eq_ok.mp done
  cases removed with
  | none => exact (Prod.mk.inj (Except.ok.inj done)).2 ▸ rfl
  | some found =>
      obtain ⟨object, _, done⟩ := Outcome.bind_eq_ok.mp done
      dsimp only at done
      split at done <;> exact (Prod.mk.inj (Except.ok.inj done)).2 ▸ rfl

theorem deletePipe_curr {id code : Int} (done : deletePipe id s = .ok (code, t)) :
    t.currPCB = s.currPCB := by
  unfold deletePipe at done
  obtain ⟨removed, _, done⟩ := Outcome.bind_eq_ok.mp done
  cases removed with
  | none => exact (Prod.mk.inj (Except.ok.inj done)).2 ▸ rfl
  | some found =>
      obtain ⟨object, _, done⟩ := Outcome.bind_eq_ok.mp done
      dsimp only at done
      split at done <;> exact (Prod.mk.inj (Except.ok.inj done)).2 ▸ rfl

theorem kernelReclaim_curr {id code : Int} (done : kernelReclaim id s = .ok (code, t)) :
    t.currPCB = s.currPCB := by
  unfold kernelReclaim at done
  obtain ⟨lock, _, done⟩ := Outcome.bind_eq_ok.mp done
  split at done
  · exact deleteLock_curr done
  obtain ⟨cvar, _, done⟩ := Outcome.bind_eq_ok.mp done
  split at done
  · exact deleteCvar_curr done
  obtain ⟨pipe, _, done⟩ := Outcome.bind_eq_ok.mp done
  split at done
  · exact deletePipe_curr done
  · exact (Prod.mk.inj (Except.ok.inj done)).2 ▸ rfl

theorem kernelLockInit_curr {code : Int} (done : kernelLockInit s = .ok (code, t)) :
    t.currPCB = s.currPCB := by
  unfold kernelLockInit at done
  obtain ⟨inserted, _, done⟩ := Outcome.bind_eq_ok.mp done
  cases inserted <;> exact (Prod.mk.inj (Except.ok.inj done)).2 ▸ rfl

theorem kernelCvarInit_curr {code : Int} (done : kernelCvarInit s = .ok (code, t)) :
    t.currPCB = s.currPCB := by
  unfold kernelCvarInit at done
  obtain ⟨inserted, _, done⟩ := Outcome.bind_eq_ok.mp done
  cases inserted <;> exact (Prod.mk.inj (Except.ok.inj done)).2 ▸ rfl

theorem kernelPipeInit_curr {oracle : Oracle} {code : Int}
    (done : kernelPipeInit oracle s = .ok (code, t)) : t.currPCB = s.currPCB := by
  unfold kernelPipeInit at done
  obtain ⟨inserted, _, done⟩ := Outcome.bind_eq_ok.mp done
  cases inserted <;> exact (Prod.mk.inj (Except.ok.inj done)).2 ▸ rfl

/-- A sync call leaves its process at a point of the sync calls. -/
theorem syncCall_pos {oracle : Oracle} {call : Call} (sync : call.isSync = true)
    (done : handleTrapKernel oracle call s = .ok t) : (t.pos s.currPCB).isSync = true := by
  cases call with
  | reclaim id =>
      obtain ⟨⟨code, u⟩, called, done⟩ := Outcome.bind_eq_ok.mp done
      exact Except.ok.inj done ▸ sysReturn_ends (kernelReclaim_curr called) _ _
  | lockInit =>
      obtain ⟨⟨code, u⟩, called, done⟩ := Outcome.bind_eq_ok.mp done
      exact Except.ok.inj done ▸ sysReturn_ends (kernelLockInit_curr called) _ _
  | acquire lockId =>
      obtain ⟨flow, called, done⟩ := Outcome.bind_eq_ok.mp done
      exact Except.ok.inj done ▸ (kernelAcquire_ends called).finish _
  | release lockId =>
      obtain ⟨⟨code, u⟩, called, done⟩ := Outcome.bind_eq_ok.mp done
      exact Except.ok.inj done ▸ sysReturn_ends (kernelRelease_curr called) _ _
  | cvarInit =>
      obtain ⟨⟨code, u⟩, called, done⟩ := Outcome.bind_eq_ok.mp done
      exact Except.ok.inj done ▸ sysReturn_ends (kernelCvarInit_curr called) _ _
  | cvarSignal cvarId =>
      obtain ⟨⟨code, u⟩, called, done⟩ := Outcome.bind_eq_ok.mp done
      exact Except.ok.inj done ▸ sysReturn_ends (kernelCvarSignal_curr called) _ _
  | cvarBroadcast cvarId =>
      obtain ⟨⟨code, u⟩, called, done⟩ := Outcome.bind_eq_ok.mp done
      exact Except.ok.inj done ▸ sysReturn_ends (kernelCvarBroadcast_curr called) _ _
  | cvarWait cvarId lockId =>
      obtain ⟨flow, called, done⟩ := Outcome.bind_eq_ok.mp done
      exact Except.ok.inj done ▸ (kernelCvarWait_ends called).finish _
  | pipeInit =>
      obtain ⟨⟨code, u⟩, called, done⟩ := Outcome.bind_eq_ok.mp done
      exact Except.ok.inj done ▸ sysReturn_ends (kernelPipeInit_curr called) _ _
  | pipeRead pipeId len =>
      obtain ⟨flow, called, done⟩ := Outcome.bind_eq_ok.mp done
      exact Except.ok.inj done ▸ (kernelPipeRead_ends called).finish _
  | pipeWrite pipeId len bytes =>
      obtain ⟨⟨code, u⟩, called, done⟩ := Outcome.bind_eq_ok.mp done
      exact Except.ok.inj done ▸ sysReturn_ends (kernelPipeWrite_curr called) _ _
  | _ => cases sync

theorem syncResume_pos {junk : PCB} (waits : s.cpu.isSyncWait = true)
    (done : resumeKernel junk s = .ok t) : (t.pos s.currPCB).isSync = true := by
  unfold resumeKernel at done
  cases point : s.cpu with
  | acquire lockp call =>
      rw [point] at done
      obtain ⟨flow, acquired, done⟩ := Outcome.bind_eq_ok.mp done
      exact Except.ok.inj done ▸ (acquireLoop_ends acquired).finish _
  | cvarWoken cvarId lockId =>
      rw [point] at done
      obtain ⟨flow, acquired, done⟩ := Outcome.bind_eq_ok.mp done
      exact Except.ok.inj done ▸ (kernelAcquire_ends acquired).finish _
  | pipeRead pipep pipeId len =>
      rw [point] at done
      obtain ⟨flow, read, done⟩ := Outcome.bind_eq_ok.mp done
      exact Except.ok.inj done ▸ (pipeReadLoop_ends read).finish _
  | _ =>
      rw [point] at waits
      cases waits

end

/-- `KernelWait` accepts its argument and goes on to the zombies. -/
structure Scheduler.AcceptsWait (s : Scheduler) (statusPtr : Nat) : Prop where
  region : getAddressRegion statusPtr = 1
  prot : getAddressProt s.curr.r1PageTable statusPtr = .ok protReadWrite
  children : 0 < s.curr.numChildren

/-- `KernelWait` rejects its argument, collects a zombie or blocks without one. -/
theorem kernelWait_cases {s : Scheduler} {statusPtr : Nat} {flow : Flow Scheduler}
    (done : kernelWait statusPtr s = .ok flow) :
    ¬ s.AcceptsWait statusPtr ∧ flow = .ret s errorCode ∨
      s.AcceptsWait statusPtr ∧ s.curr.zombieQ.getD makeQ ≠ [] ∧
        flow = .ret (kernelWaitCollect s).2 (kernelWaitCollect s).1 ∨
      s.AcceptsWait statusPtr ∧ s.curr.zombieQ.getD makeQ = [] ∧
        ∃ t, flow = .go t ∧ t.pos s.currPCB = .waitWoken statusPtr := by
  unfold kernelWait at done
  split at done
  · rename_i outside
    exact .inl ⟨fun accepts => outside accepts.region, (Except.ok.inj done).symm⟩
  rename_i inside
  obtain ⟨prot, read, done⟩ := Outcome.bind_eq_ok.mp done
  split at done
  · rename_i other
    refine .inl ⟨fun accepts => other ?_, (Except.ok.inj done).symm⟩
    exact Except.ok.inj (read.symm.trans accepts.prot)
  rename_i same
  split at done
  · rename_i none
    exact .inl ⟨fun accepts => by have := accepts.children; omega, (Except.ok.inj done).symm⟩
  rename_i some
  have accepts : s.AcceptsWait statusPtr :=
    ⟨not_not.mp inside, read.trans (congrArg _ (not_not.mp same)), by omega⟩
  split at done
  · rename_i empty
    refine .inr (.inr ⟨accepts, List.head?_eq_none_iff.mp empty, ?_⟩)
    obtain ⟨inner, blocked, done⟩ := Outcome.bind_eq_ok.mp done
    rcases blockProcess_pos blocked with ⟨t, rfl, -⟩ | ⟨t, rfl, pos⟩
    · cases done
    · exact ⟨t, (Except.ok.inj done).symm, pos⟩
  · rename_i present
    refine .inr (.inl ⟨accepts, fun empty => present (List.head?_eq_none_iff.mpr empty), ?_⟩)
    exact (Except.ok.inj done).symm

/-- Among the steps of the processes only a blocking wait leaves its process at a wait. -/
theorem Crowd.Step.waits {p next : Addr} {c d : Crowd} (step : c.Step p next d) (runs : p ∈ c.live)
    (stays : p ∈ d.live) {statusPtr : Nat} (point : (d.proc p).pos = .waitWoken statusPtr) :
    (c.proc p).pos = .user ∧ d = (c.move p (.waitWoken statusPtr)).block p := by
  have finished {e : Crowd} {call : Call} {code : Int}
      (same : ((e.finish p call code).proc p).pos = .waitWoken statusPtr) : False := by
    rw [Crowd.finish_pos, if_pos rfl] at same
    cases same
  cases step with
  | quiet _ after _ =>
      rw [Crowd.move_pos, if_pos rfl] at point
      rw [point] at after
      cases after
  | fork _ fresh _ =>
      rw [Family.fork_proc p (by rintro rfl; exact fresh runs)] at point
      dsimp only at point
      rw [if_pos rfl] at point
      cases point
  | exit _ _ => exact absurd stays (Finset.notMem_erase _ _)
  | waitBlock user _ =>
      rw [Crowd.block_proc, Crowd.move_pos, if_pos rfl] at point
      exact ⟨user, by rw [point]⟩
  | _ => exact (finished point).elim

theorem kernelWaitCollect_curr (s : Scheduler) : (kernelWaitCollect s).2.currPCB = s.currPCB := by
  unfold kernelWaitCollect
  split <;> rfl

/-- Only an accepted wait call without a zombie leaves its process at a wait. -/
theorem Sound.waits {s t : Kernel} {i : Input} (sound : Sound s) (next : yallnix.step s i t)
    (stays : s.currPCB ∈ t.live) {statusPtr : Nat}
    (point : t.pos s.currPCB = .waitWoken statusPtr) :
    ∃ oracle, i = .kernelCall (.wait statusPtr) oracle ∧ s.AcceptsWait statusPtr ∧
      s.curr.zombieQ.getD makeQ = [] := by
  obtain ⟨ready, done⟩ := next
  have outside : (t.pos s.currPCB).isSync ≠ true := by
    rw [point]
    exact Bool.false_ne_true
  by_cases waits : s.cpu.isSyncWait = true
  · cases i with
    | resume junk => exact absurd (syncResume_pos waits done) outside
    | _ =>
        have user : s.cpu.isUser = true := by
          simp only [enabled, Bool.and_eq_true, decide_eq_true_eq] at ready
          simp only [ready]
        rw [isUser_iff.mp user] at waits
        cases waits
  by_cases sync : ∃ call, i.act = some call ∧ call.isSync = true
  · obtain ⟨call, act, isSync⟩ := sync
    obtain ⟨oracle, rfl⟩ := Input.act_eq_some act
    exact absurd (syncCall_pos isSync done) outside
  have carries := sound.carries s.currPCB sound.placed.live
  have refines := handle_refinesCrowd sound.placed sound.family
    (by rwa [s.pos_curr] at carries) ready (fun call act => by
      by_contra isSync
      exact sync ⟨call, act, (Bool.not_eq_false _).mp isSync⟩) ((Bool.not_eq_true _).mp waits) done
  obtain ⟨user, after⟩ := refines.step.waits sound.placed.live stays point
  have blocked : s.currPCB ∈ t.crowd.blocked := by
    rw [after]
    exact Set.mem_insert _ _
  have called : ∃ other, i.act = some (.wait other) := by
    by_contra none
    rw [refines.blocks (s.pos_curr.symm.trans user) fun other act => none ⟨other, act⟩] at blocked
    exact (sound.resting.sleeper s.currPCB blocked).2.1 rfl
  obtain ⟨other, act⟩ := called
  obtain ⟨oracle, rfl⟩ := Input.act_eq_some act
  obtain ⟨flow, waited, done⟩ := Outcome.bind_eq_ok.mp done
  have returned {u : Scheduler} {code : Int} (curr : u.currPCB = s.currPCB)
      (same : t = finishScheduler (.wait other) s (.ret u code)) : False := by
    have ends := sysReturn_ends (t := s.withScheduler u) curr (.wait other) code
    change (((finishScheduler (.wait other) s (.ret u code)).pos s.currPCB).isSync = true) at ends
    rw [← same] at ends
    exact outside ends
  rcases kernelWait_cases waited with ⟨-, rfl⟩ | ⟨-, -, rfl⟩ | ⟨accepts, empty, u, rfl, pos⟩
  · exact (returned rfl (Except.ok.inj done).symm).elim
  · exact (returned (kernelWaitCollect_curr s.toScheduler) (Except.ok.inj done).symm).elim
  · have same : other = statusPtr := by
      cases Except.ok.inj done
      exact Pos.waitWoken.inj (pos.symm.trans point)
    subst same
    exact ⟨oracle, rfl, accepts, empty⟩

end

end Yallnix
