import Yallnix.Proof.Reachability

namespace Yallnix

section
variable [Hardware]

/-- These program points belong to terminal calls. -/
def Pos.isTty : Pos → Bool
  | .ttyWrite .. | .ttyBatch .. | .ttyRead .. => true
  | _ => false

/-- These events belong to the service of a terminal write. -/
def Event.isTty : Event → Bool
  | .transmitted .. => true
  | .returned _ (.ttyWrite _ _ len _) code => decide (0 < len ∧ code = len)
  | _ => false

/-- The terminals stay as they are, and no process comes to a terminal call. -/
structure Offline (s t : Scheduler) : Prop where
  currTransmitters : t.currTransmitters = s.currTransmitters
  transmittingQs : t.transmittingQs = s.transmittingQs
  readingQs : t.readingQs = s.readingQs
  transmitting : t.transmitting = s.transmitting
  log : ∃ events, t.log = events ++ s.log ∧ ∀ event ∈ events, event.isTty = false
  points : ∀ a ∈ t.live, (t.pos a).isTty = true → a ∈ s.live ∧ t.pos a = s.pos a

namespace Offline

variable {s t u : Scheduler}

theorem refl (s : Scheduler) : Offline s s :=
  ⟨rfl, rfl, rfl, rfl, ⟨[], rfl, by simp⟩, fun _ live _ => ⟨live, rfl⟩⟩

theorem trans (one : Offline s t) (two : Offline t u) : Offline s u where
  currTransmitters := two.currTransmitters.trans one.currTransmitters
  transmittingQs := two.transmittingQs.trans one.transmittingQs
  readingQs := two.readingQs.trans one.readingQs
  transmitting := two.transmitting.trans one.transmitting
  log := by
    obtain ⟨early, before, first⟩ := one.log
    obtain ⟨late, after, second⟩ := two.log
    refine ⟨late ++ early, by rw [after, before, List.append_assoc], fun event member => ?_⟩
    exact (List.mem_append.mp member).elim (second event) (first event)
  points a live tty := by
    obtain ⟨middle, same⟩ := two.points a live tty
    obtain ⟨old, point⟩ := one.points a middle (same ▸ tty)
    exact ⟨old, same.trans point⟩

/-- The new state has the terminals of the old one, and each process stays or goes elsewhere. -/
theorem of_pos (currTransmitters : t.currTransmitters = s.currTransmitters)
    (transmittingQs : t.transmittingQs = s.transmittingQs) (readingQs : t.readingQs = s.readingQs)
    (transmitting : t.transmitting = s.transmitting) (log : t.log = s.log) (live : t.live ⊆ s.live)
    (pos : ∀ a ∈ t.live, t.pos a = s.pos a ∨ (t.pos a).isTty = false) : Offline s t where
  currTransmitters := currTransmitters
  transmittingQs := transmittingQs
  readingQs := readingQs
  transmitting := transmitting
  log := ⟨[], log, by simp⟩
  points a inside tty := by
    refine ⟨live inside, (pos a inside).resolve_right fun elsewhere => ?_⟩
    rw [tty] at elsewhere
    cases elsewhere

theorem same (same : SameProcesses s t) : Offline s t :=
  .of_pos same.currTransmitters same.transmittingQs same.readingQs same.transmitting same.log
    same.live.subset fun a _ => .inl (same.pos a)

theorem record (s : Scheduler) (event : Event) (silent : event.isTty = false) :
    Offline s (s.record event) where
  currTransmitters := rfl
  transmittingQs := rfl
  readingQs := rfl
  transmitting := rfl
  log := ⟨[event], rfl, by simpa using silent⟩
  points _ live _ := ⟨live, rfl⟩

/-- The current process goes to a program point outside of the terminal calls. -/
theorem setCpu (s : Scheduler) {k : Pos} (outside : k.isTty = false) :
    Offline s { s with cpu := k } := by
  refine .of_pos rfl rfl rfl rfl rfl (Finset.Subset.refl _) fun a _ => ?_
  by_cases isCurr : a = s.currPCB
  · refine .inr ?_
    rw [Scheduler.pos, if_pos isCurr]
    exact outside
  · refine .inl ?_
    rw [Scheduler.pos, Scheduler.pos, if_neg isCurr, if_neg isCurr]

theorem sysReturn (s : Scheduler) {call : Call} {code : Int}
    (silent : (Event.returned s.curr.pid call code).isTty = false) :
    Offline s (s.sysReturn call code) :=
  (record s _ silent).trans (setCpu _ rfl)

/-- A PCB that keeps its saved context keeps its program point. -/
theorem updatePcb (s : Scheduler) (a : Addr) (f : PCB → PCB)
    (kctxt : (f (s.pcbs a)).kctxt = (s.pcbs a).kctxt) : Offline s (s.updatePcb a f) := by
  refine .of_pos rfl rfl rfl rfl rfl (Finset.Subset.refl _) fun b _ => .inl ?_
  have saved : ((s.updatePcb a f).pcbs b).kctxt = (s.pcbs b).kctxt := by
    by_cases same : b = a
    · subst same
      exact (congrArg PCB.kctxt (Function.update_self b _ s.pcbs)).trans kctxt
    · exact congrArg PCB.kctxt (Function.update_of_ne same _ s.pcbs)
  rw [Scheduler.pos, Scheduler.pos, saved]
  rfl

/-- A change of other containers keeps the terminals. -/
theorem containers (s : Scheduler) (readyQ : Queue Addr) (blockedMap sleepingMap : HashMap Addr) :
    Offline s { s with
      readyQ := readyQ
      blockedMap := blockedMap
      sleepingMap := sleepingMap } :=
  .of_pos rfl rfl rfl rfl rfl (Finset.Subset.refl _) fun _ _ => .inl rfl

theorem switchBetween (s : Scheduler) {k : Pos} (outside : k.isTty = false) (next : Addr) :
    Offline s (switchBetween k (some s.currPCB) next s) := by
  refine .of_pos rfl rfl rfl rfl rfl (Finset.Subset.refl _) fun a _ => ?_
  rw [switchBetween_pos]
  split
  · exact .inr outside
  · exact .inl rfl

theorem apart {child : Addr} (apart : Apart child s t) (fresh : child ∉ s.live) : Offline s t := by
  refine .of_pos apart.currTransmitters apart.transmittingQs apart.readingQs apart.transmitting
    apart.log apart.live.subset fun a live => .inl (apart.pos ?_)
  rintro rfl
  exact fresh (apart.live ▸ live)

end Offline

/-- A flow leaves the terminals as they are. -/
def Flow.Offline (s : Scheduler) : Flow Scheduler → Prop
  | .ret t _ => Yallnix.Offline s t
  | .go t => Yallnix.Offline s t

theorem Flow.Offline.after {s t : Scheduler} {flow : Flow Scheduler} (one : Yallnix.Offline s t)
    (two : flow.Offline t) : flow.Offline s := by
  cases flow with
  | ret u code => exact Yallnix.Offline.trans one two
  | go u => exact Yallnix.Offline.trans one two

/-- The return of a call other than a successful terminal write keeps the terminals. -/
theorem Flow.Offline.finish {s : Scheduler} {flow : Flow Scheduler} (offline : flow.Offline s)
    {call : Call} (silent : ∀ pid code, (Event.returned pid call code).isTty = false) :
    Yallnix.Offline s (flow.finish call) := by
  cases flow with
  | ret t code => exact Yallnix.Offline.trans offline (.sysReturn t (silent _ _))
  | go t => exact offline

section
variable {s t : Scheduler}

theorem runReady_offline (s : Scheduler) {k : Pos} (outside : k.isTty = false) :
    (runReady k s).Offline s := by
  unfold runReady
  cases s.readyQ with
  | nil => exact .refl s
  | cons next rest =>
      exact (Offline.containers s rest s.blockedMap s.sleepingMap).trans (.switchBetween _ outside next)

theorem blockProcess_offline {k : Pos} (outside : k.isTty = false) {flow : Flow Scheduler}
    (done : blockProcess k s = .ok flow) : flow.Offline s := by
  unfold blockProcess at done
  obtain ⟨inserted, _, done⟩ := Outcome.bind_eq_ok.mp done
  cases inserted with
  | none => exact Except.ok.inj done ▸ Offline.refl s
  | some blockedMap =>
      exact Except.ok.inj done ▸
        (runReady_offline _ outside).after (.containers s s.readyQ blockedMap s.sleepingMap)

theorem unblockProcess_offline {cause : Cause} {pid : Int}
    (done : unblockProcess cause pid s = .ok t) : Offline s t := by
  unfold unblockProcess at done
  obtain ⟨removed, _, done⟩ := Outcome.bind_eq_ok.mp done
  cases removed with
  | none => exact Except.ok.inj done ▸ .refl s
  | some found =>
      obtain ⟨a, blockedMap⟩ := found
      exact Except.ok.inj done ▸
        (Offline.containers s (enqQ s.readyQ a) blockedMap s.sleepingMap).trans (.record _ _ rfl)

theorem sleepProcess_offline {ticks : Int} {flow : Flow Scheduler}
    (done : sleepProcess ticks s = .ok flow) : flow.Offline s := by
  unfold sleepProcess at done
  split at done
  · exact Except.ok.inj done ▸ Offline.refl s
  · have updated := Offline.updatePcb s s.currPCB
      (fun pcb => { pcb with numRemainingDelayTicks := ticks }) rfl
    obtain ⟨inserted, _, done⟩ := Outcome.bind_eq_ok.mp done
    cases inserted with
    | none => exact Except.ok.inj done ▸ updated
    | some sleepingMap =>
        exact Except.ok.inj done ▸ Flow.Offline.after
          (updated.trans (.containers _ s.readyQ s.blockedMap sleepingMap)) (runReady_offline _ rfl)

/-- A tick moves a sleeper at most. -/
theorem tickDownSleeper_offline {count result key : Int} {sleeper : Addr}
    (done : tickDownSleeper (.ok (count, s)) key sleeper = .ok (result, t)) : Offline s t := by
  unfold tickDownSleeper at done
  rw [Outcome.ok_bind] at done
  dsimp only at done
  have updated := Offline.updatePcb s sleeper
    (fun pcb => { pcb with numRemainingDelayTicks := pcb.numRemainingDelayTicks - 1 }) rfl
  refine updated.trans ?_
  generalize s.updatePcb sleeper
    (fun pcb => { pcb with numRemainingDelayTicks := pcb.numRemainingDelayTicks - 1 }) = u at done ⊢
  split at done
  · obtain ⟨removed, _, done⟩ := Outcome.bind_eq_ok.mp done
    cases removed with
    | none =>
        obtain ⟨_, rfl⟩ := Prod.mk.inj (Except.ok.inj done)
        exact .refl u
    | some found =>
        obtain ⟨_, rfl⟩ := Prod.mk.inj (Except.ok.inj done)
        exact .containers u _ u.blockedMap _
  · obtain ⟨_, rfl⟩ := Prod.mk.inj (Except.ok.inj done)
    exact .refl u

theorem tickDownSleepers_offline {code : Int} (done : tickDownSleepers s = .ok (code, t)) :
    Offline s t := by
  unfold tickDownSleepers at done
  obtain ⟨⟨count, u⟩, ticked, done⟩ := Outcome.bind_eq_ok.mp done
  rw [HashMap.iterate_eq_foldl] at ticked
  have ticks : Offline s u := tickDownSleepers_fold
    (fun _ _ _ _ _ _ earlier tick => earlier.trans (tickDownSleeper_offline tick)) (.refl s) ticked
  dsimp only at done
  split at done
  · obtain ⟨_, rfl⟩ := Prod.mk.inj (Except.ok.inj done)
    exact ticks
  · obtain ⟨_, rfl⟩ := Prod.mk.inj (Except.ok.inj done)
    exact ticks

theorem kickProcess_offline (s : Scheduler) : (kickProcess s).Offline s := by
  unfold kickProcess
  split
  · exact Offline.refl s
  · exact (runReady_offline _ rfl).after (.containers s _ s.blockedMap s.sleepingMap)

theorem handleTrapClock_offline (done : handleTrapClock s = .ok t) : Offline s t := by
  unfold handleTrapClock at done
  obtain ⟨⟨code, u⟩, ticked, done⟩ := Outcome.bind_eq_ok.mp done
  have ticks := tickDownSleepers_offline ticked
  dsimp only at done
  split at done
  · cases done
  have kick := kickProcess_offline u
  cases kicked : kickProcess u with
  | ret v code =>
      rw [kicked] at done kick
      dsimp only at done
      split at done
      · cases done
      · exact Except.ok.inj done ▸ ticks.trans kick
  | go v =>
      rw [kicked] at done kick
      exact Except.ok.inj done ▸ ticks.trans kick

theorem handleTrapMemory_offline {addr : Nat} (done : handleTrapMemory addr s = .ok t) :
    Offline s t := by
  unfold handleTrapMemory at done
  dsimp only at done
  split at done
  · exact Except.ok.inj done ▸ .setCpu s rfl
  obtain ⟨⟨mapped, memory⟩, _, done⟩ := Outcome.bind_eq_ok.mp done
  have grown := Offline.same (setMemory_same s memory)
  dsimp only at done
  split at done
  · exact Except.ok.inj done ▸ grown.trans (.setCpu _ rfl)
  · exact Except.ok.inj done ▸ grown

theorem execTo_offline (s : Scheduler) : Offline s (execTo s) := by
  refine .of_pos rfl rfl rfl rfl rfl (Finset.Subset.refl _) fun a _ => ?_
  by_cases same : a = s.currPCB
  · subst same
    refine .inr ?_
    rw [Scheduler.pos, if_pos (by rfl)]
    rfl
  · refine .inl ?_
    rw [Scheduler.pos_of_ne same, Scheduler.pos_of_ne (by exact same)]
    exact congrArg (fun pcb : PCB => pcb.kctxt.getD .starter) (Function.update_of_ne same _ s.pcbs)

theorem kernelExec_offline {request : ExecRequest} {flow : Flow Scheduler}
    (done : kernelExec request s = .ok flow) : flow.Offline s := by
  unfold kernelExec at done
  split at done
  · exact Except.ok.inj done ▸ Offline.refl s
  obtain ⟨⟨status, proc, frames⟩, loaded, done⟩ := Outcome.bind_eq_ok.mp done
  have same : SameProcesses s { s.updatePcb s.currPCB fun _ => proc with frameList := frames } :=
    (SameProcess.update (f := fun _ => proc) (loadProgram_same loaded)).trans
      (sameProcesses_memory _ frames _)
  dsimp only at done
  split at done
  · exact Except.ok.inj done ▸ (Offline.same same).trans (.setCpu _ rfl)
  split at done
  · exact Except.ok.inj done ▸ Offline.same same
  · exact Except.ok.inj done ▸ (Offline.same same).trans (execTo_offline _)

theorem kernelDelay_offline {clockTicks : Int} {flow : Flow Scheduler}
    (done : kernelDelay clockTicks s = .ok flow) : flow.Offline s := by
  unfold kernelDelay at done
  split at done
  · exact Except.ok.inj done ▸ Offline.refl s
  split at done
  · exact Except.ok.inj done ▸ Offline.refl s
  · exact sleepProcess_offline done

theorem kernelWaitCollect_offline {code : Int} (done : kernelWaitCollect s = (code, t)) :
    Offline s t := by
  unfold kernelWaitCollect at done
  split at done
  · obtain ⟨_, rfl⟩ := Prod.mk.inj done
    exact .refl s
  · obtain ⟨_, rfl⟩ := Prod.mk.inj done
    exact (Offline.updatePcb s s.currPCB _ rfl).trans (.record _ _ rfl)

theorem kernelWait_offline {statusPtr : Nat} {flow : Flow Scheduler}
    (done : kernelWait statusPtr s = .ok flow) : flow.Offline s := by
  unfold kernelWait at done
  split at done
  · exact Except.ok.inj done ▸ Offline.refl s
  obtain ⟨prot, _, done⟩ := Outcome.bind_eq_ok.mp done
  split at done
  · exact Except.ok.inj done ▸ Offline.refl s
  split at done
  · exact Except.ok.inj done ▸ Offline.refl s
  split at done
  · obtain ⟨blocked, outcome, done⟩ := Outcome.bind_eq_ok.mp done
    have waits := blockProcess_offline rfl outcome
    cases blocked with
    | ret u code => cases done
    | go u => exact Except.ok.inj done ▸ waits
  · exact Except.ok.inj done ▸ kernelWaitCollect_offline rfl

theorem forkTo_offline {k : Pos} {child : Addr} (outside : k.isTty = false) :
    Offline s (forkTo k child { s with
      readyQ := enqQ s.readyQ s.currPCB
      live := insert child s.live }) where
  currTransmitters := rfl
  transmittingQs := rfl
  readingQs := rfl
  transmitting := rfl
  log := ⟨[], rfl, by simp⟩
  points a live tty := by
    rw [forkTo_pos] at tty ⊢
    split at tty
    · rw [outside] at tty
      cases tty
    · rename_i other
      rw [if_neg other]
      exact ⟨(Finset.mem_insert.mp live).resolve_left fun same => other (.inl same), rfl⟩

theorem kernelFork_offline (placed : Placed s) (family : Family s.crowd) {oracle : Oracle}
    (fresh : oracle.pcb ∉ s.allocated) {flow : Flow Scheduler}
    (done : kernelFork oracle s = .ok flow) : flow.Offline s := by
  have notLive : oracle.pcb ∉ s.live := fun live => fresh (placed.allocated live)
  rcases kernelFork_cases placed family fresh done with
    ⟨t, rfl, apart, _⟩ | ⟨w, childrenMap, new, _, rfl⟩
  · exact Offline.apart apart notLive
  · have made := Offline.apart new.apart notLive
    have adopted := made.trans (.updatePcb w w.currPCB (fun pcb =>
      { pcb with childrenMap := childrenMap, numChildren := pcb.numChildren + 1 }) rfl)
    exact (adopted.trans (.record _ (.forked s.curr.pid s.nextPid) rfl)).trans
      (forkTo_offline rfl)

theorem reportExit_offline {status : Int} (done : reportExit status s = .ok t) : Offline s t := by
  unfold reportExit at done
  split at done
  · exact Except.ok.inj done ▸ .refl s
  · rename_i parent isParent
    exact (Offline.updatePcb s parent (fun pcb => { pcb with
      zombieQ := some (enqQ (pcb.zombieQ.getD makeQ) ⟨s.curr.pid, status⟩) }) rfl).trans
        (unblockProcess_offline done)

theorem kernelExit_offline {status : Int} {junk : PCB} (done : kernelExit status junk s = .ok t) :
    Offline s t := by
  obtain ⟨u, next, rest, reported, queue, rfl⟩ := kernelExit_cases done
  refine (reportExit_offline reported).trans ?_
  obtain ⟨pcbs, iterated, each⟩ := removeParent_fold u.curr.childrenMap.entries u
  rw [HashMap.iterate_eq_foldl, iterated]
  refine (Offline.record u (.exited s.curr.pid status) rfl).trans ?_
  refine .of_pos rfl rfl rfl rfl rfl (Finset.erase_subset _ _) fun a live => .inl ?_
  have other : a ≠ u.currPCB := Finset.ne_of_mem_erase live
  have kctxt : (pcbs a).kctxt = (u.pcbs a).kctxt := by rw [each]
  rw [switchBetween_none_pos (by exact other), Scheduler.pos_of_ne (by exact other),
    Scheduler.pos_of_ne (by exact other)]
  exact congrArg (fun saved : Option Pos => saved.getD .starter)
    ((congrArg PCB.kctxt (Function.update_of_ne other _ pcbs)).trans kctxt)

end

/-- A kernel step leaves the terminals and their buffers as they are. -/
structure Away (s t : Kernel) : Prop where
  offline : Offline s.toScheduler t.toScheduler
  buffers : t.buffers = s.buffers

/-- A flow of the whole kernel leaves the terminals as they are. -/
def Flow.Away (s : Kernel) : Flow Kernel → Prop
  | .ret t _ => Yallnix.Away s t
  | .go t => Yallnix.Away s t

section
variable {s t u : Kernel}

theorem Away.refl (s : Kernel) : Away s s := ⟨.refl s.toScheduler, rfl⟩

theorem Away.trans (one : Away s t) (two : Away t u) : Away s u :=
  ⟨one.offline.trans two.offline, two.buffers.trans one.buffers⟩

theorem Away.withScheduler {scheduler : Scheduler} (offline : Offline s.toScheduler scheduler) :
    Away s (s.withScheduler scheduler) :=
  ⟨offline, rfl⟩

theorem Away.sysReturn {call : Call} {code : Int}
    (silent : ∀ pid code, (Event.returned pid call code).isTty = false) :
    Away s (s.sysReturn call code) :=
  ⟨.sysReturn s.toScheduler (silent _ _), rfl⟩

theorem Flow.Away.after {flow : Flow Kernel} (one : Yallnix.Away s t) (two : flow.Away t) :
    flow.Away s := by
  cases flow with
  | ret u code => exact Yallnix.Away.trans one two
  | go u => exact Yallnix.Away.trans one two

theorem Flow.Away.finish {flow : Flow Kernel} (away : flow.Away s) {call : Call}
    (silent : ∀ pid code, (Event.returned pid call code).isTty = false) :
    Yallnix.Away s (Yallnix.finish call flow) := by
  cases flow with
  | ret t code => exact Yallnix.Away.trans away (.sysReturn silent)
  | go t => exact away

theorem unblockWaiter_away {cause : Cause} {waiter : Addr}
    (done : unblockWaiter cause waiter s = .ok t) : Away s t := by
  unfold unblockWaiter at done
  obtain ⟨scheduler, woken, done⟩ := Outcome.bind_eq_ok.mp done
  exact Except.ok.inj done ▸ .withScheduler (unblockProcess_offline woken)

theorem blockCurrent_away {k : Pos} (outside : k.isTty = false) {flow : Flow Kernel}
    (done : blockCurrent k s = .ok flow) : flow.Away s := by
  unfold blockCurrent at done
  obtain ⟨blocked, outcome, done⟩ := Outcome.bind_eq_ok.mp done
  have waits := blockProcess_offline outside outcome
  cases blocked with
  | ret u code => exact Except.ok.inj done ▸ Away.withScheduler waits
  | go u => exact Except.ok.inj done ▸ Away.withScheduler waits

theorem Away.record (s : Kernel) (event : Event) (silent : event.isTty = false) :
    Away s (s.withScheduler (s.record event)) :=
  .withScheduler (.record s.toScheduler event silent)

/-- A change of the sync objects keeps the terminals. -/
theorem Away.objects {objects : SyncObjects} : Away s { s with toSyncObjects := objects } :=
  ⟨.refl s.toScheduler, rfl⟩

theorem kernelLockInit_away {code : Int} (done : kernelLockInit s = .ok (code, t)) : Away s t := by
  unfold kernelLockInit at done
  obtain ⟨inserted, _, done⟩ := Outcome.bind_eq_ok.mp done
  have created := Away.record s (.created s.curr.pid s.nextSyncId) rfl
  cases inserted with
  | none => exact (Prod.mk.inj (Except.ok.inj done)).2 ▸ created.trans .objects
  | some lockMap => exact (Prod.mk.inj (Except.ok.inj done)).2 ▸ created.trans .objects

theorem kernelCvarInit_away {code : Int} (done : kernelCvarInit s = .ok (code, t)) : Away s t := by
  unfold kernelCvarInit at done
  obtain ⟨inserted, _, done⟩ := Outcome.bind_eq_ok.mp done
  have created := Away.record s (.created s.curr.pid s.nextSyncId) rfl
  cases inserted with
  | none => exact (Prod.mk.inj (Except.ok.inj done)).2 ▸ created.trans .objects
  | some cvarMap => exact (Prod.mk.inj (Except.ok.inj done)).2 ▸ created.trans .objects

theorem kernelPipeInit_away {oracle : Oracle} {code : Int}
    (done : kernelPipeInit oracle s = .ok (code, t)) : Away s t := by
  unfold kernelPipeInit at done
  obtain ⟨inserted, _, done⟩ := Outcome.bind_eq_ok.mp done
  have created := Away.record s (.created s.curr.pid s.nextSyncId) rfl
  cases inserted with
  | none => exact (Prod.mk.inj (Except.ok.inj done)).2 ▸ created.trans .objects
  | some pipeMap => exact (Prod.mk.inj (Except.ok.inj done)).2 ▸ created.trans .objects

theorem acquireLoop_away {lockp : ObjPtr} {call : Call} {flow : Flow Kernel}
    (done : acquireLoop lockp call s = .ok flow) : flow.Away s := by
  unfold acquireLoop at done
  obtain ⟨lock, _, done⟩ := Outcome.bind_eq_ok.mp done
  split at done
  · exact Flow.Away.after .objects (blockCurrent_away rfl done)
  · exact Except.ok.inj done ▸ Away.objects

theorem kernelAcquire_away {call : Call} {lockId : Int} {flow : Flow Kernel}
    (done : kernelAcquire call lockId s = .ok flow) : flow.Away s := by
  unfold kernelAcquire at done
  obtain ⟨found, _, done⟩ := Outcome.bind_eq_ok.mp done
  cases found with
  | none => exact Except.ok.inj done ▸ Away.refl s
  | some lockp => exact acquireLoop_away done

theorem kernelRelease_away {lockId code : Int} (done : kernelRelease lockId s = .ok (code, t)) :
    Away s t := by
  unfold kernelRelease at done
  obtain ⟨found, _, done⟩ := Outcome.bind_eq_ok.mp done
  cases found with
  | none => exact (Prod.mk.inj (Except.ok.inj done)).2 ▸ Away.refl s
  | some lockp =>
      obtain ⟨lock, _, done⟩ := Outcome.bind_eq_ok.mp done
      split at done
      · exact (Prod.mk.inj (Except.ok.inj done)).2 ▸ Away.refl s
      · have freed := Away.record s (.released s.curr.pid lockId) rfl
        dsimp only at done
        split at done
        · exact (Prod.mk.inj (Except.ok.inj done)).2 ▸ freed.trans .objects
        · obtain ⟨u, woken, done⟩ := Outcome.bind_eq_ok.mp done
          have wakes := unblockWaiter_away woken
          exact (Prod.mk.inj (Except.ok.inj done)).2 ▸ (freed.trans .objects).trans wakes

theorem kernelCvarWait_away {cvarId lockId : Int} {flow : Flow Kernel}
    (done : kernelCvarWait cvarId lockId s = .ok flow) : flow.Away s := by
  unfold kernelCvarWait at done
  obtain ⟨found, _, done⟩ := Outcome.bind_eq_ok.mp done
  cases found with
  | none => exact Except.ok.inj done ▸ Away.refl s
  | some cvarp =>
      obtain ⟨cvarQ, _, done⟩ := Outcome.bind_eq_ok.mp done
      obtain ⟨⟨code, u⟩, released, done⟩ := Outcome.bind_eq_ok.mp done
      exact Flow.Away.after (Away.objects.trans (kernelRelease_away released))
        (blockCurrent_away rfl done)

theorem kernelCvarSignal_away {cvarId code : Int}
    (done : kernelCvarSignal cvarId s = .ok (code, t)) : Away s t := by
  unfold kernelCvarSignal at done
  obtain ⟨found, _, done⟩ := Outcome.bind_eq_ok.mp done
  cases found with
  | none => exact (Prod.mk.inj (Except.ok.inj done)).2 ▸ Away.refl s
  | some cvarp =>
      obtain ⟨cvarQ, _, done⟩ := Outcome.bind_eq_ok.mp done
      split at done
      · exact (Prod.mk.inj (Except.ok.inj done)).2 ▸ Away.refl s
      · obtain ⟨u, woken, done⟩ := Outcome.bind_eq_ok.mp done
        have wakes := unblockWaiter_away woken
        exact (Prod.mk.inj (Except.ok.inj done)).2 ▸ Away.objects.trans wakes

/-- Each turn of the loop wakes one waiter. -/
theorem broadcastLoop_away {cvarp : ObjPtr} {cvarQ : Queue Addr}
    (done : broadcastLoop cvarp cvarQ s = .ok t) : Away s t := by
  induction cvarQ generalizing s with
  | nil => exact Except.ok.inj done ▸ .refl s
  | cons waiter rest ih =>
      obtain ⟨u, woken, done⟩ := Outcome.bind_eq_ok.mp done
      exact (Away.objects.trans (unblockWaiter_away woken)).trans (ih done)

theorem kernelCvarBroadcast_away {cvarId code : Int}
    (done : kernelCvarBroadcast cvarId s = .ok (code, t)) : Away s t := by
  unfold kernelCvarBroadcast at done
  obtain ⟨found, _, done⟩ := Outcome.bind_eq_ok.mp done
  cases found with
  | none => exact (Prod.mk.inj (Except.ok.inj done)).2 ▸ Away.refl s
  | some cvarp =>
      obtain ⟨cvarQ, _, done⟩ := Outcome.bind_eq_ok.mp done
      obtain ⟨u, looped, done⟩ := Outcome.bind_eq_ok.mp done
      exact (Prod.mk.inj (Except.ok.inj done)).2 ▸ broadcastLoop_away looped

theorem unblockHead_away {pipep : ObjPtr} {waitingQ : Queue Addr}
    (done : unblockHead pipep waitingQ s = .ok t) : Away s t := by
  unfold unblockHead at done
  split at done
  · exact Except.ok.inj done ▸ .refl s
  · exact unblockWaiter_away done

theorem pipeReadLoop_away {pipep : ObjPtr} {pipeId len : Int} {flow : Flow Kernel}
    (done : pipeReadLoop pipep pipeId len s = .ok flow) : flow.Away s := by
  unfold pipeReadLoop at done
  obtain ⟨pipe, _, done⟩ := Outcome.bind_eq_ok.mp done
  split at done
  · exact blockCurrent_away rfl done
  split at done
  · exact Except.ok.inj done ▸ Away.refl s
  · obtain ⟨bytes, _, done⟩ := Outcome.bind_eq_ok.mp done
    have taken := Away.record s (.pipeRead pipep len bytes) rfl
    dsimp only at done
    split at done
    · obtain ⟨rest, _, done⟩ := Outcome.bind_eq_ok.mp done
      obtain ⟨buffer, _, done⟩ := Outcome.bind_eq_ok.mp done
      obtain ⟨u, woken, done⟩ := Outcome.bind_eq_ok.mp done
      exact Except.ok.inj done ▸ (taken.trans .objects).trans (unblockHead_away woken)
    · exact Except.ok.inj done ▸ taken.trans .objects

theorem kernelPipeRead_away {pipeId len : Int} {flow : Flow Kernel}
    (done : kernelPipeRead pipeId len s = .ok flow) : flow.Away s := by
  unfold kernelPipeRead at done
  split at done
  · exact Except.ok.inj done ▸ Away.refl s
  split at done
  · exact Except.ok.inj done ▸ Away.refl s
  obtain ⟨found, _, done⟩ := Outcome.bind_eq_ok.mp done
  cases found with
  | none => exact Except.ok.inj done ▸ Away.refl s
  | some pipep =>
      obtain ⟨pipe, _, done⟩ := Outcome.bind_eq_ok.mp done
      dsimp only at done
      split at done
      · exact Flow.Away.after .objects (blockCurrent_away rfl done)
      · exact Flow.Away.after .objects (pipeReadLoop_away done)

theorem kernelPipeWrite_away {pipeId len code : Int} {bytes : List Byte}
    (done : kernelPipeWrite pipeId len bytes s = .ok (code, t)) : Away s t := by
  unfold kernelPipeWrite at done
  split at done
  · exact (Prod.mk.inj (Except.ok.inj done)).2 ▸ Away.refl s
  split at done
  · exact (Prod.mk.inj (Except.ok.inj done)).2 ▸ Away.refl s
  obtain ⟨found, _, done⟩ := Outcome.bind_eq_ok.mp done
  cases found with
  | none => exact (Prod.mk.inj (Except.ok.inj done)).2 ▸ Away.refl s
  | some pipep =>
      obtain ⟨pipe, _, done⟩ := Outcome.bind_eq_ok.mp done
      split at done
      · exact (Prod.mk.inj (Except.ok.inj done)).2 ▸ Away.refl s
      · obtain ⟨buffer, _, done⟩ := Outcome.bind_eq_ok.mp done
        obtain ⟨u, woken, done⟩ := Outcome.bind_eq_ok.mp done
        have written := Away.record s (.pipeWritten pipep bytes) rfl
        exact (Prod.mk.inj (Except.ok.inj done)).2 ▸
          (written.trans .objects).trans (unblockHead_away woken)

theorem kernelReclaim_away {id code : Int} (done : kernelReclaim id s = .ok (code, t)) :
    Away s t := by
  have changes (objects : SyncObjects) : Away s { s with toSyncObjects := objects } := .objects
  unfold kernelReclaim at done
  obtain ⟨lock, _, done⟩ := Outcome.bind_eq_ok.mp done
  split at done
  · unfold deleteLock at done
    obtain ⟨removed, _, done⟩ := Outcome.bind_eq_ok.mp done
    cases removed with
    | none => exact (Prod.mk.inj (Except.ok.inj done)).2 ▸ Away.refl s
    | some found =>
        obtain ⟨object, _, done⟩ := Outcome.bind_eq_ok.mp done
        dsimp only at done
        split at done
        · exact (Prod.mk.inj (Except.ok.inj done)).2 ▸ changes _
        · exact (Prod.mk.inj (Except.ok.inj done)).2 ▸ changes _
  obtain ⟨cvar, _, done⟩ := Outcome.bind_eq_ok.mp done
  split at done
  · unfold deleteCvar at done
    obtain ⟨removed, _, done⟩ := Outcome.bind_eq_ok.mp done
    cases removed with
    | none => exact (Prod.mk.inj (Except.ok.inj done)).2 ▸ Away.refl s
    | some found =>
        obtain ⟨object, _, done⟩ := Outcome.bind_eq_ok.mp done
        dsimp only at done
        split at done
        · exact (Prod.mk.inj (Except.ok.inj done)).2 ▸ changes _
        · exact (Prod.mk.inj (Except.ok.inj done)).2 ▸ changes _
  obtain ⟨pipe, _, done⟩ := Outcome.bind_eq_ok.mp done
  split at done
  · unfold deletePipe at done
    obtain ⟨removed, _, done⟩ := Outcome.bind_eq_ok.mp done
    cases removed with
    | none => exact (Prod.mk.inj (Except.ok.inj done)).2 ▸ Away.refl s
    | some found =>
        obtain ⟨object, _, done⟩ := Outcome.bind_eq_ok.mp done
        dsimp only at done
        split at done
        · exact (Prod.mk.inj (Except.ok.inj done)).2 ▸ changes _
        · exact (Prod.mk.inj (Except.ok.inj done)).2 ▸ changes _
  · exact (Prod.mk.inj (Except.ok.inj done)).2 ▸ Away.refl s

end

end

end Yallnix
