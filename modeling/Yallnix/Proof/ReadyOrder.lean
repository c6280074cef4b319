import Yallnix.ToMathlib.RoundRobin
import Yallnix.Proof.DelayTick

namespace Yallnix

section
variable [Hardware]

/-- Kernel code appends to `readyQ` only. -/
def Grows (s t : Scheduler) : Prop := s.readyQ <+: t.readyQ

/-- At its end kernel code may run the head of `readyQ`. -/
def Turns (s t : Scheduler) : Prop := Grows s t ∨ s.readyQ <+: t.currPCB :: t.readyQ

/-- Only code that goes on in another process runs the head. -/
def Flow.Turns (s : Scheduler) : Flow Scheduler → Prop
  | .ret t _ => Grows s t
  | .go t => Yallnix.Turns s t

section
variable {s t u : Scheduler} {flow : Flow Scheduler}

theorem Grows.same (same : t.readyQ = s.readyQ) : Grows s t := ⟨[], by rw [List.append_nil, same]⟩

theorem Grows.trans (one : Grows s u) (two : Grows u t) : Grows s t :=
  List.IsPrefix.trans one two

theorem Grows.after (grows : Grows u t) (same : u.readyQ = s.readyQ) : Grows s t :=
  (Grows.same same).trans grows

theorem Grows.enqQ {a : Addr} (queue : t.readyQ = enqQ s.readyQ a) : Grows s t :=
  ⟨[a], queue.symm⟩

theorem Grows.turns (grows : Grows s u) (turns : Turns u t) : Turns s t :=
  turns.imp grows.trans (List.IsPrefix.trans grows)

theorem Grows.before (grows : Grows s u) (turns : flow.Turns u) : flow.Turns s := by
  cases flow with
  | ret t code => exact grows.trans turns
  | go t => exact grows.turns turns

theorem Flow.Turns.finish (turns : flow.Turns s) (call : Call) :
    Yallnix.Turns s (flow.finish call) := by
  cases flow with
  | ret t code => exact Or.inl turns
  | go t => exact turns

theorem switchBetween_serves (k : Pos) (curr : Option Addr) {next : Addr} {rest : Queue Addr}
    (queue : s.readyQ = next :: rest) :
    s.readyQ <+: (switchBetween k curr next { s with readyQ := rest }).currPCB ::
      (switchBetween k curr next { s with readyQ := rest }).readyQ := by
  rw [queue]
  cases curr <;> exact List.prefix_rfl

theorem runReady_turns (k : Pos) (s : Scheduler) : (runReady k s).Turns s := by
  unfold runReady
  cases queue : s.readyQ with
  | nil => exact Grows.same rfl
  | cons next rest => exact Or.inr (switchBetween_serves k _ queue)

theorem blockProcess_turns {k : Pos} (done : blockProcess k s = .ok flow) : flow.Turns s := by
  unfold blockProcess at done
  obtain ⟨inserted, -, done⟩ := Outcome.bind_eq_ok.mp done
  cases inserted with
  | none =>
      cases done
      exact Grows.same rfl
  | some blockedMap =>
      cases done
      exact runReady_turns k { s with blockedMap := blockedMap }

theorem unblockProcess_grows {cause : Cause} {pid : Int}
    (done : unblockProcess cause pid s = .ok t) : Grows s t := by
  unfold unblockProcess at done
  obtain ⟨removed, -, done⟩ := Outcome.bind_eq_ok.mp done
  cases removed with
  | none =>
      cases done
      exact .same rfl
  | some found =>
      cases done
      exact .enqQ rfl

theorem sleepProcess_turns {ticks : Int} (done : sleepProcess ticks s = .ok flow) :
    flow.Turns s := by
  unfold sleepProcess at done
  split at done
  · cases done
    exact Grows.same rfl
  · obtain ⟨inserted, -, done⟩ := Outcome.bind_eq_ok.mp done
    cases inserted with
    | none =>
        cases done
        exact Grows.same rfl
    | some sleepingMap =>
        cases done
        exact Grows.before (.same rfl) (runReady_turns _ _)

theorem tickDownSleeper_grows {count result key : Int} {sleeper : Addr}
    (done : tickDownSleeper (.ok (count, s)) key sleeper = .ok (result, t)) : Grows s t := by
  unfold tickDownSleeper at done
  rw [Outcome.ok_bind] at done
  dsimp only at done
  split at done
  · obtain ⟨removed, -, done⟩ := Outcome.bind_eq_ok.mp done
    cases removed with
    | none =>
        cases done
        exact .same rfl
    | some found =>
        cases done
        exact .enqQ rfl
  · cases done
    exact .same rfl

theorem tickDownSleepers_grows {code : Int} (done : tickDownSleepers s = .ok (code, t)) :
    Grows s t := by
  unfold tickDownSleepers at done
  obtain ⟨⟨count, u⟩, ticked, done⟩ := Outcome.bind_eq_ok.mp done
  rw [HashMap.iterate_eq_foldl] at ticked
  have grows : Grows s u := tickDownSleepers_fold
    (fun _ _ _ _ _ _ earlier once => earlier.trans (tickDownSleeper_grows once)) (.same rfl) ticked
  dsimp only at done
  split at done
  · cases done
    exact grows
  · cases done
    exact grows

/-- A clock trap runs the head of `readyQ` and queues the old process behind it. -/
theorem handleTrapClock_serves (done : handleTrapClock s = .ok t) (ready : s.readyQ ≠ []) :
    s.readyQ <+: t.currPCB :: t.readyQ := by
  unfold handleTrapClock at done
  obtain ⟨⟨code, u⟩, ticked, done⟩ := Outcome.bind_eq_ok.mp done
  have grows := tickDownSleepers_grows ticked
  dsimp only at done
  split at done
  · cases done
  cases queue : u.readyQ with
  | nil => exact absurd (List.prefix_nil.mp (queue ▸ grows)) ready
  | cons next rest =>
      have kicked : kickProcess u = .go (switchBetween .trapReturn (some u.currPCB) next
          { u with readyQ := rest ++ [u.currPCB] }) := by
        unfold kickProcess runReady
        rw [queue]
        rfl
      rw [kicked] at done
      cases done
      refine List.IsPrefix.trans grows ?_
      rw [queue]
      exact List.prefix_append (next :: rest) [u.currPCB]

theorem handleTrapClock_turns (done : handleTrapClock s = .ok t) : Turns s t := by
  cases ready : s.readyQ with
  | nil =>
      refine Or.inl ?_
      rw [Grows, ready]
      exact List.nil_prefix
  | cons next rest =>
      exact Or.inr (handleTrapClock_serves done (ready ▸ List.cons_ne_nil next rest))

theorem handleTrapMemory_grows {addr : Nat} (done : handleTrapMemory addr s = .ok t) :
    Grows s t := by
  unfold handleTrapMemory at done
  dsimp only at done
  split at done
  · cases done
    exact .same rfl
  obtain ⟨⟨mapped, memory⟩, -, done⟩ := Outcome.bind_eq_ok.mp done
  dsimp only at done
  split at done
  · cases done
    exact .same rfl
  · cases done
    exact .same rfl

theorem kernelBrk_grows {addr : Nat} {code : Int} (done : kernelBrk addr s = .ok (code, t)) :
    Grows s t := by
  unfold kernelBrk at done
  split at done
  · cases done
    exact .same rfl
  obtain ⟨⟨mapped, memory⟩, -, done⟩ := Outcome.bind_eq_ok.mp done
  dsimp only at done
  split at done
  · cases done
    exact .same rfl
  · cases done
    exact .same rfl

theorem kernelExec_turns {request : ExecRequest} (done : kernelExec request s = .ok flow) :
    flow.Turns s := by
  unfold kernelExec at done
  split at done
  · cases done
    exact Grows.same rfl
  obtain ⟨⟨status, proc, frames⟩, -, done⟩ := Outcome.bind_eq_ok.mp done
  dsimp only at done
  split at done
  · cases done
    exact Or.inl (.same rfl)
  split at done
  · cases done
    exact Grows.same rfl
  · cases done
    exact Or.inl (.same rfl)

theorem kernelDelay_turns {clockTicks : Int} (done : kernelDelay clockTicks s = .ok flow) :
    flow.Turns s := by
  unfold kernelDelay at done
  split at done
  · cases done
    exact Grows.same rfl
  split at done
  · cases done
    exact Grows.same rfl
  · exact sleepProcess_turns done

theorem kernelWaitCollect_grows {code : Int} (done : kernelWaitCollect s = (code, t)) :
    Grows s t := by
  unfold kernelWaitCollect at done
  split at done
  · cases done
    exact .same rfl
  · cases done
    exact .same rfl

theorem kernelWait_turns {statusPtr : Nat} (done : kernelWait statusPtr s = .ok flow) :
    flow.Turns s := by
  unfold kernelWait at done
  split at done
  · cases done
    exact Grows.same rfl
  obtain ⟨prot, -, done⟩ := Outcome.bind_eq_ok.mp done
  split at done
  · cases done
    exact Grows.same rfl
  split at done
  · cases done
    exact Grows.same rfl
  split at done
  · obtain ⟨blocked, outcome, done⟩ := Outcome.bind_eq_ok.mp done
    have turns := blockProcess_turns outcome
    cases blocked with
    | ret u code => cases done
    | go u =>
        cases done
        exact turns
  · cases done
    exact kernelWaitCollect_grows rfl

theorem reportExit_grows {status : Int} (done : reportExit status s = .ok t) : Grows s t := by
  unfold reportExit at done
  split at done
  · cases done
    exact .same rfl
  · exact Grows.trans (.same rfl) (unblockProcess_grows (s := s.updatePcb _ _) done)

theorem kernelExit_turns {status : Int} {junk : PCB} (done : kernelExit status junk s = .ok t) :
    Turns s t := by
  obtain ⟨u, next, rest, reported, queue, rfl⟩ := kernelExit_cases done
  refine Grows.turns (reportExit_grows reported) (Or.inr ?_)
  rw [queue]
  exact List.prefix_rfl

theorem kernelFork_turns (placed : Placed s) (family : Family s.crowd) {oracle : Oracle}
    (fresh : oracle.pcb ∉ s.allocated) (done : kernelFork oracle s = .ok flow) : flow.Turns s := by
  rcases kernelFork_cases placed family fresh done with
    ⟨t, rfl, apart, -⟩ | ⟨w, childrenMap, new, -, rfl⟩
  · exact Grows.same apart.readyQ
  · exact Or.inl (Grows.trans (.same new.apart.readyQ) (.enqQ (a := w.currPCB) rfl))

theorem unblockTransmitter_grows (tty : Fin numTerminals) (s : Scheduler) :
    Grows s (unblockTransmitter tty s) := by
  unfold unblockTransmitter
  dsimp only
  split
  · exact .same rfl
  · exact .enqQ rfl

theorem unblockReader_grows (tty : Fin numTerminals) (s : Scheduler) :
    Grows s (unblockReader tty s) := by
  unfold unblockReader
  split
  · exact .same rfl
  · exact .enqQ rfl

theorem transmitLoop_turns (tty : Fin numTerminals) (call : Call) (r0Buf : List Byte)
    (bytesTransmitted : Nat) (s : Scheduler) :
    (transmitLoop tty call r0Buf bytesTransmitted s).Turns s := by
  unfold transmitLoop
  split
  · dsimp only
    generalize sent : Scheduler.record _ _ = u
    generalize Pos.ttyBatch tty call r0Buf _ = k
    have sends : Grows s u := sent ▸ .same rfl
    have waits : (waitTransmitter k tty u).Turns s := sends.before (runReady_turns k _)
    generalize waitTransmitter k tty u = flow at waits ⊢
    cases flow with
    | ret t code => exact Or.inl waits
    | go t => exact waits
  · exact unblockTransmitter_grows tty s

theorem ttyWriteLoop_turns (tty : Fin numTerminals) (call : Call) (r0Buf : List Byte)
    (s : Scheduler) : (ttyWriteLoop tty call r0Buf s).Turns s := by
  unfold ttyWriteLoop
  split
  · exact transmitLoop_turns tty call r0Buf 0 s
  · have waits : (blockTransmitter (.ttyWrite tty call r0Buf) tty s).Turns s :=
      Grows.before (.same rfl) (runReady_turns _ _)
    generalize blockTransmitter _ tty s = flow at waits ⊢
    cases flow with
    | ret t code => exact Or.inl waits
    | go t => exact waits

theorem kernelTtyWrite_turns {oracle : Oracle} {ttyId len : Int} {buf : Nat} {bytes : List Byte}
    (done : kernelTtyWrite oracle ttyId buf len bytes s = .ok flow) : flow.Turns s := by
  unfold kernelTtyWrite at done
  split at done
  · cases done
    exact Grows.same rfl
  split at done
  · cases done
    exact Grows.same rfl
  split at done
  · cases done
    exact Grows.same rfl
  split at done
  · cases done
    exact Grows.same rfl
  obtain ⟨tty, -, done⟩ := Outcome.bind_eq_ok.mp done
  cases done
  exact ttyWriteLoop_turns tty _ bytes s

/-- The end of a transmission runs the transmitter before all processes in `readyQ`. -/
theorem handleTtyTransmit_turns {tty : Fin numTerminals}
    (done : handleTtyTransmit tty s = .ok t) : Turns s t := by
  unfold handleTtyTransmit signalTransmitter at done
  dsimp only at done
  cases writer : s.currTransmitters tty with
  | none =>
      rw [writer] at done
      dsimp only at done
      split at done
      · cases done
      · cases done
        exact Or.inl (.enqQ rfl)
  | some next =>
      rw [writer] at done
      cases done
      exact Or.inl (.enqQ rfl)

end

section
variable {s t : Kernel} {flow : Flow Kernel}

/-- A rejected call returns at once. -/
theorem Turns.returns (s : Kernel) (call : Call) (code : Int) :
    Turns s.toScheduler (s.sysReturn call code).toScheduler :=
  Or.inl (.same rfl)

theorem writeBuffer_grows {tty : Fin numTerminals} {line : Option (List Byte)}
    (done : writeBuffer tty line s = .ok t) : Grows s.toScheduler t.toScheduler := by
  unfold writeBuffer at done
  cases line with
  | none =>
      cases done
      exact .same rfl
  | some bytes =>
      obtain ⟨base, -, done⟩ := Outcome.bind_eq_ok.mp done
      cases done
      exact unblockReader_grows tty s.toScheduler

theorem readBufferLoop_turns {tty : Fin numTerminals} {call : Call} {len : Int}
    (done : readBufferLoop tty call len s = .ok flow) (again : Call) :
    Turns s.toScheduler (finish again flow).toScheduler := by
  unfold readBufferLoop at done
  dsimp only at done
  split at done
  · have waits : (blockReader (.ttyRead tty call len) tty s.toScheduler).Turns s.toScheduler :=
      Grows.before (.same rfl) (runReady_turns _ _)
    cases done
    generalize blockReader (.ttyRead tty call len) tty s.toScheduler = flow at waits
    cases flow with
    | ret t code => exact Or.inl waits
    | go t => exact waits
  split at done
  · obtain ⟨bytes, -, done⟩ := Outcome.bind_eq_ok.mp done
    obtain ⟨rest, -, done⟩ := Outcome.bind_eq_ok.mp done
    obtain ⟨base, -, done⟩ := Outcome.bind_eq_ok.mp done
    cases done
    exact Or.inl (Grows.trans (.same rfl) (unblockReader_grows tty
      (s.toScheduler.record (.received tty s.curr.pid bytes))))
  · obtain ⟨bytes, -, done⟩ := Outcome.bind_eq_ok.mp done
    cases done
    exact Or.inl (.same rfl)

theorem kernelTtyRead_turns {oracle : Oracle} {ttyId len : Int} {buf : Nat}
    (done : kernelTtyRead oracle ttyId buf len s = .ok flow) (again : Call) :
    Turns s.toScheduler (finish again flow).toScheduler := by
  unfold kernelTtyRead at done
  split at done
  · cases done
    exact .returns s again _
  split at done
  · cases done
    exact .returns s again _
  split at done
  · cases done
    exact .returns s again _
  split at done
  · cases done
    exact .returns s again _
  obtain ⟨tty, -, done⟩ := Outcome.bind_eq_ok.mp done
  exact readBufferLoop_turns done again

theorem unblockWaiter_grows {cause : Cause} {waiter : Addr}
    (done : unblockWaiter cause waiter s = .ok t) : Grows s.toScheduler t.toScheduler := by
  unfold unblockWaiter at done
  obtain ⟨scheduler, woken, done⟩ := Outcome.bind_eq_ok.mp done
  cases done
  exact unblockProcess_grows woken

theorem blockCurrent_turns {k : Pos} (done : blockCurrent k s = .ok flow) (call : Call) :
    Turns s.toScheduler (finish call flow).toScheduler := by
  unfold blockCurrent at done
  obtain ⟨blocked, outcome, done⟩ := Outcome.bind_eq_ok.mp done
  have turns := blockProcess_turns outcome
  cases blocked with
  | ret u code =>
      cases done
      exact Or.inl turns
  | go u =>
      cases done
      exact turns

theorem acquireLoop_turns {lockp : ObjPtr} {call : Call}
    (done : acquireLoop lockp call s = .ok flow) (again : Call) :
    Turns s.toScheduler (finish again flow).toScheduler := by
  unfold acquireLoop at done
  obtain ⟨lock, -, done⟩ := Outcome.bind_eq_ok.mp done
  split at done
  · exact Grows.turns (.same rfl) (blockCurrent_turns done again)
  · cases done
    exact Or.inl (.same rfl)

theorem kernelAcquire_turns {call : Call} {lockId : Int}
    (done : kernelAcquire call lockId s = .ok flow) (again : Call) :
    Turns s.toScheduler (finish again flow).toScheduler := by
  unfold kernelAcquire at done
  obtain ⟨found, -, done⟩ := Outcome.bind_eq_ok.mp done
  cases found with
  | none =>
      cases done
      exact .returns s again _
  | some lockp => exact acquireLoop_turns done again

theorem kernelRelease_grows {lockId code : Int} (done : kernelRelease lockId s = .ok (code, t)) :
    Grows s.toScheduler t.toScheduler := by
  unfold kernelRelease at done
  obtain ⟨found, -, done⟩ := Outcome.bind_eq_ok.mp done
  cases found with
  | none =>
      cases done
      exact .same rfl
  | some lockp =>
      obtain ⟨lock, -, done⟩ := Outcome.bind_eq_ok.mp done
      split at done
      · cases done
        exact .same rfl
      · dsimp only at done
        split at done
        · cases done
          exact .same rfl
        · obtain ⟨u, woken, done⟩ := Outcome.bind_eq_ok.mp done
          cases done
          exact (unblockWaiter_grows woken).after rfl

theorem kernelCvarWait_turns {cvarId lockId : Int}
    (done : kernelCvarWait cvarId lockId s = .ok flow) (again : Call) :
    Turns s.toScheduler (finish again flow).toScheduler := by
  unfold kernelCvarWait at done
  obtain ⟨found, -, done⟩ := Outcome.bind_eq_ok.mp done
  cases found with
  | none =>
      cases done
      exact .returns s again _
  | some cvarp =>
      obtain ⟨cvarQ, -, done⟩ := Outcome.bind_eq_ok.mp done
      obtain ⟨⟨code, u⟩, released, done⟩ := Outcome.bind_eq_ok.mp done
      exact ((kernelRelease_grows released).after rfl).turns (blockCurrent_turns done again)

theorem kernelCvarSignal_grows {cvarId code : Int}
    (done : kernelCvarSignal cvarId s = .ok (code, t)) : Grows s.toScheduler t.toScheduler := by
  unfold kernelCvarSignal at done
  obtain ⟨found, -, done⟩ := Outcome.bind_eq_ok.mp done
  cases found with
  | none =>
      cases done
      exact .same rfl
  | some cvarp =>
      obtain ⟨cvarQ, -, done⟩ := Outcome.bind_eq_ok.mp done
      split at done
      · cases done
        exact .same rfl
      · obtain ⟨u, woken, done⟩ := Outcome.bind_eq_ok.mp done
        cases done
        exact (unblockWaiter_grows woken).after rfl

theorem broadcastLoop_grows {cvarp : ObjPtr} {cvarQ : Queue Addr}
    (done : broadcastLoop cvarp cvarQ s = .ok t) : Grows s.toScheduler t.toScheduler := by
  induction cvarQ generalizing s with
  | nil =>
      cases done
      exact .same rfl
  | cons waiter rest ih =>
      obtain ⟨u, woken, done⟩ := Outcome.bind_eq_ok.mp done
      exact ((unblockWaiter_grows woken).after rfl).trans (ih done)

theorem kernelCvarBroadcast_grows {cvarId code : Int}
    (done : kernelCvarBroadcast cvarId s = .ok (code, t)) :
    Grows s.toScheduler t.toScheduler := by
  unfold kernelCvarBroadcast at done
  obtain ⟨found, -, done⟩ := Outcome.bind_eq_ok.mp done
  cases found with
  | none =>
      cases done
      exact .same rfl
  | some cvarp =>
      obtain ⟨cvarQ, -, done⟩ := Outcome.bind_eq_ok.mp done
      obtain ⟨u, looped, done⟩ := Outcome.bind_eq_ok.mp done
      cases done
      exact broadcastLoop_grows looped

theorem unblockHead_grows {pipep : ObjPtr} {waitingQ : Queue Addr}
    (done : unblockHead pipep waitingQ s = .ok t) : Grows s.toScheduler t.toScheduler := by
  unfold unblockHead at done
  split at done
  · cases done
    exact .same rfl
  · exact unblockWaiter_grows done

theorem pipeReadLoop_turns {pipep : ObjPtr} {pipeId len : Int}
    (done : pipeReadLoop pipep pipeId len s = .ok flow) (again : Call) :
    Turns s.toScheduler (finish again flow).toScheduler := by
  unfold pipeReadLoop at done
  obtain ⟨pipe, -, done⟩ := Outcome.bind_eq_ok.mp done
  split at done
  · exact blockCurrent_turns done again
  split at done
  · cases done
    exact Or.inl (.same rfl)
  · obtain ⟨bytes, -, done⟩ := Outcome.bind_eq_ok.mp done
    dsimp only at done
    split at done
    · obtain ⟨rest, -, done⟩ := Outcome.bind_eq_ok.mp done
      obtain ⟨buffer, -, done⟩ := Outcome.bind_eq_ok.mp done
      obtain ⟨u, woken, done⟩ := Outcome.bind_eq_ok.mp done
      cases done
      exact Or.inl ((unblockHead_grows woken).after rfl)
    · cases done
      exact Or.inl (.same rfl)

theorem kernelPipeRead_turns {pipeId len : Int}
    (done : kernelPipeRead pipeId len s = .ok flow) (again : Call) :
    Turns s.toScheduler (finish again flow).toScheduler := by
  unfold kernelPipeRead at done
  split at done
  · cases done
    exact .returns s again _
  split at done
  · cases done
    exact .returns s again _
  obtain ⟨found, -, done⟩ := Outcome.bind_eq_ok.mp done
  cases found with
  | none =>
      cases done
      exact .returns s again _
  | some pipep =>
      obtain ⟨pipe, -, done⟩ := Outcome.bind_eq_ok.mp done
      dsimp only at done
      split at done
      · exact Grows.turns (.same rfl) (blockCurrent_turns done again)
      · exact Grows.turns (.same rfl) (pipeReadLoop_turns done again)

theorem kernelPipeWrite_grows {pipeId len code : Int} {bytes : List Byte}
    (done : kernelPipeWrite pipeId len bytes s = .ok (code, t)) :
    Grows s.toScheduler t.toScheduler := by
  unfold kernelPipeWrite at done
  split at done
  · cases done
    exact .same rfl
  split at done
  · cases done
    exact .same rfl
  obtain ⟨found, -, done⟩ := Outcome.bind_eq_ok.mp done
  cases found with
  | none =>
      cases done
      exact .same rfl
  | some pipep =>
      obtain ⟨pipe, -, done⟩ := Outcome.bind_eq_ok.mp done
      split at done
      · cases done
        exact .same rfl
      · obtain ⟨buffer, -, done⟩ := Outcome.bind_eq_ok.mp done
        obtain ⟨u, woken, done⟩ := Outcome.bind_eq_ok.mp done
        cases done
        exact (unblockHead_grows woken).after rfl

theorem kernelLockInit_grows {code : Int} (done : kernelLockInit s = .ok (code, t)) :
    Grows s.toScheduler t.toScheduler := by
  unfold kernelLockInit at done
  obtain ⟨inserted, -, done⟩ := Outcome.bind_eq_ok.mp done
  cases inserted with
  | none =>
      cases done
      exact .same rfl
  | some locks =>
      cases done
      exact .same rfl

theorem kernelCvarInit_grows {code : Int} (done : kernelCvarInit s = .ok (code, t)) :
    Grows s.toScheduler t.toScheduler := by
  unfold kernelCvarInit at done
  obtain ⟨inserted, -, done⟩ := Outcome.bind_eq_ok.mp done
  cases inserted with
  | none =>
      cases done
      exact .same rfl
  | some cvars =>
      cases done
      exact .same rfl

theorem kernelPipeInit_grows {oracle : Oracle} {code : Int}
    (done : kernelPipeInit oracle s = .ok (code, t)) : Grows s.toScheduler t.toScheduler := by
  unfold kernelPipeInit at done
  obtain ⟨inserted, -, done⟩ := Outcome.bind_eq_ok.mp done
  cases inserted with
  | none =>
      cases done
      exact .same rfl
  | some pipes =>
      cases done
      exact .same rfl

theorem deleteLock_grows {id code : Int} (done : deleteLock id s = .ok (code, t)) :
    Grows s.toScheduler t.toScheduler := by
  unfold deleteLock at done
  obtain ⟨removed, -, done⟩ := Outcome.bind_eq_ok.mp done
  cases removed with
  | none =>
      cases done
      exact .same rfl
  | some found =>
      obtain ⟨object, -, done⟩ := Outcome.bind_eq_ok.mp done
      dsimp only at done
      split at done <;> cases done <;> exact .same rfl

theorem deleteCvar_grows {id code : Int} (done : deleteCvar id s = .ok (code, t)) :
    Grows s.toScheduler t.toScheduler := by
  unfold deleteCvar at done
  obtain ⟨removed, -, done⟩ := Outcome.bind_eq_ok.mp done
  cases removed with
  | none =>
      cases done
      exact .same rfl
  | some found =>
      obtain ⟨object, -, done⟩ := Outcome.bind_eq_ok.mp done
      dsimp only at done
      split at done <;> cases done <;> exact .same rfl

theorem deletePipe_grows {id code : Int} (done : deletePipe id s = .ok (code, t)) :
    Grows s.toScheduler t.toScheduler := by
  unfold deletePipe at done
  obtain ⟨removed, -, done⟩ := Outcome.bind_eq_ok.mp done
  cases removed with
  | none =>
      cases done
      exact .same rfl
  | some found =>
      obtain ⟨object, -, done⟩ := Outcome.bind_eq_ok.mp done
      dsimp only at done
      split at done <;> cases done <;> exact .same rfl

theorem kernelReclaim_grows {id code : Int} (done : kernelReclaim id s = .ok (code, t)) :
    Grows s.toScheduler t.toScheduler := by
  unfold kernelReclaim at done
  obtain ⟨lock, -, done⟩ := Outcome.bind_eq_ok.mp done
  split at done
  · exact deleteLock_grows done
  obtain ⟨cvar, -, done⟩ := Outcome.bind_eq_ok.mp done
  split at done
  · exact deleteCvar_grows done
  obtain ⟨pipe, -, done⟩ := Outcome.bind_eq_ok.mp done
  split at done
  · exact deletePipe_grows done
  · cases done
    exact .same rfl

/-- A call that returns its result appends only. -/
theorem Grows.sysReturn (u : Kernel) (grows : Grows s.toScheduler u.toScheduler) (call : Call)
    (code : Int) : Turns s.toScheduler (u.sysReturn call code).toScheduler :=
  Or.inl grows

theorem handleTrapKernel_turns (placed : Placed s.toScheduler) (family : Family s.crowd)
    {oracle : Oracle} (fresh : oracle.pcb ∉ s.allocated) {call : Call}
    (done : handleTrapKernel oracle call s = .ok t) : Turns s.toScheduler t.toScheduler := by
  cases call with
  | fork =>
      obtain ⟨flow, forked, done⟩ := Outcome.bind_eq_ok.mp done
      cases done
      rw [finishScheduler_eq]
      exact (kernelFork_turns placed family fresh forked).finish _
  | exec request =>
      obtain ⟨flow, loaded, done⟩ := Outcome.bind_eq_ok.mp done
      cases done
      rw [finishScheduler_eq]
      exact (kernelExec_turns loaded).finish _
  | exit status =>
      cases done
      exact Or.inl (.same rfl)
  | wait statusPtr =>
      obtain ⟨flow, waited, done⟩ := Outcome.bind_eq_ok.mp done
      cases done
      rw [finishScheduler_eq]
      exact (kernelWait_turns waited).finish _
  | getPid =>
      cases done
      exact Or.inl (.same rfl)
  | brk addr =>
      obtain ⟨⟨code, u⟩, moved, done⟩ := Outcome.bind_eq_ok.mp done
      cases done
      have grows := kernelBrk_grows moved
      exact Or.inl grows
  | delay clockTicks =>
      obtain ⟨flow, slept, done⟩ := Outcome.bind_eq_ok.mp done
      cases done
      rw [finishScheduler_eq]
      exact (kernelDelay_turns slept).finish _
  | reclaim id =>
      obtain ⟨⟨code, u⟩, called, done⟩ := Outcome.bind_eq_ok.mp done
      cases done
      exact (kernelReclaim_grows called).sysReturn u _ _
  | ttyRead ttyId buf len =>
      obtain ⟨flow, read, done⟩ := Outcome.bind_eq_ok.mp done
      cases done
      exact kernelTtyRead_turns read _
  | ttyWrite ttyId buf len bytes =>
      obtain ⟨flow, written, done⟩ := Outcome.bind_eq_ok.mp done
      cases done
      rw [finishScheduler_eq]
      exact (kernelTtyWrite_turns written).finish _
  | lockInit =>
      obtain ⟨⟨code, u⟩, called, done⟩ := Outcome.bind_eq_ok.mp done
      cases done
      exact (kernelLockInit_grows called).sysReturn u _ _
  | acquire lockId =>
      obtain ⟨flow, called, done⟩ := Outcome.bind_eq_ok.mp done
      cases done
      exact kernelAcquire_turns called _
  | release lockId =>
      obtain ⟨⟨code, u⟩, called, done⟩ := Outcome.bind_eq_ok.mp done
      cases done
      exact (kernelRelease_grows called).sysReturn u _ _
  | cvarInit =>
      obtain ⟨⟨code, u⟩, called, done⟩ := Outcome.bind_eq_ok.mp done
      cases done
      exact (kernelCvarInit_grows called).sysReturn u _ _
  | cvarSignal cvarId =>
      obtain ⟨⟨code, u⟩, called, done⟩ := Outcome.bind_eq_ok.mp done
      cases done
      exact (kernelCvarSignal_grows called).sysReturn u _ _
  | cvarBroadcast cvarId =>
      obtain ⟨⟨code, u⟩, called, done⟩ := Outcome.bind_eq_ok.mp done
      cases done
      exact (kernelCvarBroadcast_grows called).sysReturn u _ _
  | cvarWait cvarId lockId =>
      obtain ⟨flow, called, done⟩ := Outcome.bind_eq_ok.mp done
      cases done
      exact kernelCvarWait_turns called _
  | pipeInit =>
      obtain ⟨⟨code, u⟩, called, done⟩ := Outcome.bind_eq_ok.mp done
      cases done
      exact (kernelPipeInit_grows called).sysReturn u _ _
  | pipeRead pipeId len =>
      obtain ⟨flow, called, done⟩ := Outcome.bind_eq_ok.mp done
      cases done
      exact kernelPipeRead_turns called _
  | pipeWrite pipeId len bytes =>
      obtain ⟨⟨code, u⟩, called, done⟩ := Outcome.bind_eq_ok.mp done
      cases done
      exact (kernelPipeWrite_grows called).sysReturn u _ _
  | unknown => cases done

theorem resumeKernel_turns {junk : PCB} (done : resumeKernel junk s = .ok t) :
    Turns s.toScheduler t.toScheduler := by
  unfold resumeKernel at done
  split at done
  · cases done
  · cases done
    exact Or.inl (.same rfl)
  · cases done
    exact Or.inl (.same rfl)
  · obtain ⟨u, exited, done⟩ := Outcome.bind_eq_ok.mp done
    cases done
    exact kernelExit_turns exited
  · cases done
    exact Or.inl (.same rfl)
  · cases done
    exact Or.inl (.same rfl)
  · cases collected : kernelWaitCollect s.toScheduler with
    | mk code u =>
        rw [collected] at done
        cases done
        have grows := kernelWaitCollect_grows collected
        exact Or.inl grows
  · obtain ⟨flow, called, done⟩ := Outcome.bind_eq_ok.mp done
    cases done
    exact acquireLoop_turns called _
  · obtain ⟨flow, called, done⟩ := Outcome.bind_eq_ok.mp done
    cases done
    exact kernelAcquire_turns called _
  · obtain ⟨flow, called, done⟩ := Outcome.bind_eq_ok.mp done
    cases done
    exact pipeReadLoop_turns called _
  · rename_i tty call r0Buf _
    cases done
    rw [finishScheduler_eq]
    exact (ttyWriteLoop_turns tty call r0Buf s.toScheduler).finish call
  · rename_i tty call r0Buf sent _
    cases done
    rw [finishScheduler_eq]
    exact (transmitLoop_turns tty call r0Buf sent s.toScheduler).finish call
  · obtain ⟨flow, read, done⟩ := Outcome.bind_eq_ok.mp done
    cases done
    exact readBufferLoop_turns read _

/-- Each input appends to `readyQ` or runs its head. -/
theorem handle_turns (placed : Placed s.toScheduler) (family : Family s.crowd) {i : Input}
    (ready : enabled s i = true) (done : handle s i = .ok t) :
    Turns s.toScheduler t.toScheduler := by
  cases i with
  | kernelCall call oracle =>
      simp only [enabled, Bool.and_eq_true, decide_eq_true_eq] at ready
      exact handleTrapKernel_turns placed family ready.1.2 done
  | clock =>
      obtain ⟨u, ticked, done⟩ := Outcome.bind_eq_ok.mp done
      cases done
      exact handleTrapClock_turns ticked
  | illegal =>
      cases done
      exact Or.inl (.same rfl)
  | math =>
      cases done
      exact Or.inl (.same rfl)
  | memory addr =>
      obtain ⟨u, handled, done⟩ := Outcome.bind_eq_ok.mp done
      cases done
      exact Or.inl (handleTrapMemory_grows handled)
  | ttyReceive tty line => exact Or.inl (writeBuffer_grows done)
  | ttyTransmit tty =>
      obtain ⟨u, handled, done⟩ := Outcome.bind_eq_ok.mp done
      cases done
      exact handleTtyTransmit_turns handled
  | disk => cases done
  | resume junk => exact resumeKernel_turns done

end

/-- The kernel serves `readyQ` round robin. -/
theorem yallnix_roundRobin :
    yallnix.RoundRobin (fun s => s.readyQ) (fun s => s.currPCB) Input.isClock where
  turns s i t reachable next :=
    handle_turns (reachable_sound reachable).placed (reachable_sound reachable).family next.1 next.2
  tick s i t reachable next clock ready := by
    cases i with
    | clock =>
        obtain ⟨u, ticked, done⟩ := Outcome.bind_eq_ok.mp next.2
        cases done
        exact handleTrapClock_serves ticked ready
    | _ => cases clock

/-- A ready process runs, or it waits behind some of the processes that were ahead of it, fewer by
one for each clock trap. -/
theorem yallnix_servesReady {s t : Kernel} {inputs : List Input} {before behind : Queue Addr}
    {a : Addr} (reachable : yallnix.Reachable s) (queued : s.readyQ = before ++ a :: behind)
    (trace : yallnix.Trace s inputs t) :
    (∃ first last u, inputs = first ++ last ∧ yallnix.Trace s first u ∧
      yallnix.Trace u last t ∧ u.currPCB = a) ∨
      ∃ ahead more, ahead <:+ before ∧ t.readyQ = ahead ++ a :: more ∧
        ahead.length + clockTicksIn inputs ≤ before.length :=
  yallnix_roundRobin.serves reachable queued trace

end

section
attribute [local instance] smallHardware

/-- `init` waits behind the idle process while its child runs. -/
theorem yallnix_servesReady_small : ∃ s t, yallnix.Reachable s ∧ s.readyQ = [0, 1] ∧
    yallnix.Trace s [.clock, goesOn, .clock] t ∧
      ((∃ first last u, [.clock, goesOn, .clock] = first ++ last ∧ yallnix.Trace s first u ∧
        yallnix.Trace u last t ∧ u.currPCB = 1) ∨
        ∃ ahead more, ahead <:+ [0] ∧ t.readyQ = ahead ++ 1 :: more ∧
          ahead.length + clockTicksIn [.clock, goesOn, .clock] ≤ [0].length) := by
  obtain ⟨s, t, reachable, trace, tested⟩ := exists_trace (fun s _ => decide (s.readyQ = [0, 1]))
    [forks 2, goesOn] [.clock, goesOn, .clock] (by decide +kernel)
  have queued : s.readyQ = [0] ++ 1 :: [] := of_decide_eq_true tested
  exact ⟨s, t, reachable, queued, trace, yallnix_servesReady reachable queued trace⟩

end

end Yallnix
