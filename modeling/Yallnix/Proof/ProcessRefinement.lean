import Yallnix.Proof.TerminalRefinement

namespace Yallnix

section
variable [Hardware]

/-- Two PCBs describe the same process with possibly different memory. -/
structure SameProcess (p q : PCB) : Prop where
  pid : q.pid = p.pid
  kctxt : q.kctxt = p.kctxt
  parent : q.parent = p.parent
  childrenMap : q.childrenMap = p.childrenMap
  zombieQ : q.zombieQ = p.zombieQ
  numChildren : q.numChildren = p.numChildren

theorem SameProcess.refl (p : PCB) : SameProcess p p := ⟨rfl, rfl, rfl, rfl, rfl, rfl⟩

theorem SameProcess.update {s : Scheduler} {a : Addr} {f : PCB → PCB}
    (same : SameProcess (s.pcbs a) (f (s.pcbs a))) : SameProcesses s (s.updatePcb a f) :=
  sameProcesses_updatePcb s a f same.pid same.kctxt same.parent same.childrenMap same.zombieQ
    same.numChildren

/-- `LoadProgram` changes the memory of the process at most. -/
theorem loadProgram_same {request : ExecRequest} {proc result : PCB} {frames after : FrameList}
    {code : Int} (done : loadProgram request proc frames = .ok (code, result, after)) :
    SameProcess proc result := by
  unfold loadProgram at done
  split at done
  · cases done
    exact .refl proc
  split at done
  · cases done
    exact .refl proc
  split at done
  · cases done
    exact .refl proc
  unfold loadImage at done
  dsimp only at done
  split at done
  · cases done
    exact ⟨rfl, rfl, rfl, rfl, rfl, rfl⟩
  obtain ⟨⟨mapped, table, left⟩, _, done⟩ := Outcome.bind_eq_ok.mp done
  dsimp only at done
  split at done
  · cases done
    exact ⟨rfl, rfl, rfl, rfl, rfl, rfl⟩
  obtain ⟨⟨mapped, table, left⟩, _, done⟩ := Outcome.bind_eq_ok.mp done
  dsimp only at done
  split at done
  · cases done
    exact ⟨rfl, rfl, rfl, rfl, rfl, rfl⟩
  obtain ⟨⟨mapped, table, left⟩, _, done⟩ := Outcome.bind_eq_ok.mp done
  dsimp only at done
  split at done
  · cases done
    exact ⟨rfl, rfl, rfl, rfl, rfl, rfl⟩
  split at done
  · cases done
    exact ⟨rfl, rfl, rfl, rfl, rfl, rfl⟩
  obtain ⟨table, _, done⟩ := Outcome.bind_eq_ok.mp done
  cases done
  exact ⟨rfl, rfl, rfl, rfl, rfl, rfl⟩

theorem setMemory_same (s : Scheduler) (memory : PageTable × FrameList) :
    SameProcesses s (s.setMemory memory) :=
  (SameProcess.update (f := fun pcb => { pcb with r1PageTable := memory.1 })
    ⟨rfl, rfl, rfl, rfl, rfl, rfl⟩).trans (sameProcesses_memory _ memory.2 _)

/-- `KernelBrk` changes the memory of the process at most. -/
theorem kernelBrk_same {s t : Scheduler} {addr : Nat} {code : Int}
    (done : kernelBrk addr s = .ok (code, t)) : SameProcesses s t := by
  unfold kernelBrk at done
  split at done
  · cases done
    exact sameProcesses_memory s s.frameList s.r0PageTable
  obtain ⟨⟨mapped, memory⟩, _, done⟩ := Outcome.bind_eq_ok.mp done
  dsimp only at done
  split at done
  · cases done
    exact setMemory_same s memory
  · cases done
    exact (setMemory_same s memory).trans
      (SameProcess.update (f := fun pcb => { pcb with brk := addr }) ⟨rfl, rfl, rfl, rfl, rfl, rfl⟩)

/-- A quiet flow may follow a change of the memory. -/
theorem QuietFlow.of_same {s t : Scheduler} {flow : Flow Scheduler} (same : SameProcesses s t)
    (quiet : QuietFlow t flow) : QuietFlow s flow := by
  cases flow with
  | go u =>
      obtain ⟨placed, k, events, plain, silent, crowd⟩ := quiet
      rw [same.crowd, same.currPCB, same.log] at crowd
      exact ⟨placed, k, events, plain, silent, crowd⟩
  | ret u code =>
      obtain ⟨curr, placed, events, silent, crowd⟩ := quiet
      rw [same.crowd, same.currPCB, same.log] at crowd
      exact ⟨curr.trans same.currPCB, placed, events, silent, crowd⟩

theorem kernelBrk_refines {s t : Scheduler} (placed : Placed s) (user : s.cpu = .user)
    {addr : Nat} {code : Int} (done : kernelBrk addr s = .ok (code, t)) :
    QuietFlow s (.ret t code) := by
  have same := kernelBrk_same done
  exact .of_same same (.same (placed.sameProcesses same) (by rw [same.cpu, user]; rfl) code)

/-- The end of a process begins without a context switch. -/
theorem setExit_refines {s : Scheduler} (placed : Placed s) (user : s.cpu = .user)
    (notIdle : s.currPCB ≠ s.idlePCB) (status : Int) :
    QuietFlow s (.go { s with cpu := .exit status }) := by
  obtain ⟨moved, crowd⟩ := placed.setCpu (k := .exit status) (by rw [user]; rfl) rfl
    (fun same => absurd same notIdle)
  exact .suspended moved rfl crowd

/-- A memory trap grows the stack or begins the end of the process. -/
theorem handleTrapMemory_refines {s t : Scheduler} (placed : Placed s) (user : s.cpu = .user)
    (notIdle : s.currPCB ≠ s.idlePCB) {addr : Nat} (done : handleTrapMemory addr s = .ok t) :
    SameProcesses s t ∨ QuietFlow s (.go t) := by
  unfold handleTrapMemory at done
  dsimp only at done
  split at done
  · cases done
    exact .inr (setExit_refines placed user notIdle errorCode)
  obtain ⟨⟨mapped, memory⟩, _, done⟩ := Outcome.bind_eq_ok.mp done
  have same := setMemory_same s memory
  dsimp only at done
  split at done
  · cases done
    refine .inr (.of_same same (setExit_refines (placed.sameProcesses same)
      (same.cpu.trans user) ?_ errorCode))
    rw [same.currPCB, same.idlePCB]
    exact notIdle
  · cases done
    exact .inl same

theorem kernelDelay_refines {s : Scheduler} (placed : Placed s) (user : s.cpu = .user)
    (notIdle : s.currPCB ≠ s.idlePCB) {clockTicks : Int} {flow : Flow Scheduler}
    (done : kernelDelay clockTicks s = .ok flow) : QuietFlow s flow := by
  have busy : s.cpu.isBatch = false := by rw [user]; rfl
  unfold kernelDelay at done
  split at done
  · exact Except.ok.inj done ▸ .same placed busy _
  split at done
  · exact Except.ok.inj done ▸ .same placed busy _
  rcases sleepProcess_refines placed user notIdle done with rfl | ⟨t, rfl, result, crowd⟩
  · exact .same placed busy _
  · exact .suspended result rfl crowd

/-- `execTo` restores the starter kernel state of the current process. -/
theorem execTo_refines {s : Scheduler} (placed : Placed s) (user : s.cpu = .user) :
    QuietFlow s (.go (execTo s)) := by
  have pos (a : Addr) : (execTo s).pos a = if a = s.currPCB then .starter else s.pos a := by
    simp only [execTo, Scheduler.pos, Scheduler.updatePcb]
    by_cases same : a = s.currPCB
    · simp [same]
    · simp [same]
  have field {A : Type} (f : PCB → A) (keeps : ∀ pcb : PCB, f { pcb with kctxt := some .starter } = f pcb)
      (a : Addr) : f ((execTo s).pcbs a) = f (s.pcbs a) := by
    simp only [execTo, Scheduler.updatePcb]
    by_cases same : a = s.currPCB
    · subst same
      rw [Function.update_self, keeps]
    · rw [Function.update_of_ne same]
  have moved := Settled.point placed (k := .starter) (Finset.mem_singleton_self s.currPCB)
    (by rw [Scheduler.pos_curr, user]; rfl) rfl (fun _ => rfl)
  refine .suspended (k := .starter) (Placed.of (Function.update s.pos s.currPCB .starter)
    ?_ ?_) rfl ?_
  · exact moved.frame ⟨rfl, Finset.Subset.refl _, fun a _ => field PCB.pid (fun _ => rfl) a,
      le_refl _, rfl, rfl, rfl⟩ (by intro place a; cases place <;> rfl) (List.Subset.refl _)
      (List.Subset.refl _)
  · intro a
    rw [pos, update_pos]
  · exact Scheduler.crowd_move rfl rfl rfl rfl (field PCB.pid fun _ => rfl)
      (field PCB.parent fun _ => rfl) (field PCB.childrenMap fun _ => rfl)
      (field PCB.zombieQ fun _ => rfl) pos

theorem kernelExec_refines {s : Scheduler} (placed : Placed s) (user : s.cpu = .user)
    (notIdle : s.currPCB ≠ s.idlePCB) {request : ExecRequest} {flow : Flow Scheduler}
    (done : kernelExec request s = .ok flow) : QuietFlow s flow := by
  unfold kernelExec at done
  split at done
  · exact Except.ok.inj done ▸ .same placed (by rw [user]; rfl) _
  obtain ⟨⟨status, proc, frames⟩, loaded, done⟩ := Outcome.bind_eq_ok.mp done
  have same : SameProcesses s { s.updatePcb s.currPCB fun _ => proc with frameList := frames } :=
    (SameProcess.update (f := fun _ => proc) (loadProgram_same loaded)).trans
      (sameProcesses_memory _ frames _)
  have result := placed.sameProcesses same
  dsimp only at done
  split at done
  · exact Except.ok.inj done ▸ .of_same same (setExit_refines result user notIdle errorCode)
  split at done
  · exact Except.ok.inj done ▸ .of_same same (.same result (by rw [same.cpu, user]; rfl) _)
  · exact Except.ok.inj done ▸ .of_same same (execTo_refines result user)

/-- The head of the zombie queue leaves it. -/
theorem kernelWaitCollect_refines {s : Scheduler} (placed : Placed s) {statusPtr : Nat}
    (point : s.cpu = .user ∨ s.cpu = .waitWoken statusPtr)
    (woken : s.cpu = .user → peekQ (s.curr.zombieQ.getD makeQ) ≠ none) {code : Int}
    {t : Scheduler} (done : kernelWaitCollect s = (code, t)) :
    Placed (t.sysReturn (.wait statusPtr) code) ∧
      s.crowd.Step s.currPCB t.currPCB (t.sysReturn (.wait statusPtr) code).crowd := by
  have busy : s.cpu.isBatch = false := by rcases point with same | same <;> rw [same] <;> rfl
  have here : (s.crowd.proc s.currPCB).pos = s.cpu := s.pos_curr
  unfold kernelWaitCollect at done
  cases queue : s.curr.zombieQ.getD makeQ with
  | nil =>
      rw [queue] at done woken
      obtain ⟨rfl, rfl⟩ := Prod.mk.inj done
      obtain ⟨result, crowd⟩ := sysReturn_refines placed (.wait statusPtr) errorCode busy
      refine ⟨result, ?_⟩
      rw [crowd]
      refine .waitEmpty ?_ queue
      rw [here]
      exact point.resolve_left fun user => woken user rfl
  | cons zombie rest =>
      rw [queue] at done
      obtain ⟨rfl, rfl⟩ := Prod.mk.inj done
      let f : PCB → PCB := fun pcb => { pcb with zombieQ := pcb.zombieQ.map fun _ => rest }
      let event : Event := .waited s.curr.pid zombie.pid zombie.exitStatus
      have field {A : Type} (g : PCB → A) (keeps : ∀ pcb : PCB, g (f pcb) = g pcb) (a : Addr) :
          g ((s.updatePcb s.currPCB f).pcbs a) = g (s.pcbs a) := by
        simp only [Scheduler.updatePcb]
        by_cases same : a = s.currPCB
        · subst same
          rw [Function.update_self, keeps]
        · rw [Function.update_of_ne same]
      have pos (a : Addr) : (s.updatePcb s.currPCB f).pos a = s.pos a := by
        have kctxt := field PCB.kctxt (fun _ => rfl) a
        simp only [Scheduler.pos, kctxt]
        rfl
      have collected : Placed (s.updatePcb s.currPCB f) := by
        refine Placed.of s.pos ?_ pos
        exact Settled.frame placed
          ⟨rfl, Finset.Subset.refl _, fun a _ => field PCB.pid (fun _ => rfl) a, le_refl _, rfl,
            rfl, rfl⟩
          (by intro place a; cases place <;> rfl) (List.Subset.refl _) (List.Subset.refl _)
      obtain ⟨result, crowd⟩ := sysReturn_refines (collected.record event) (.wait statusPtr)
        zombie.pid busy
      refine ⟨result, ?_⟩
      have collectedCrowd : (s.updatePcb s.currPCB f).crowd =
          s.crowd.update s.currPCB fun proc => { proc with zombies := rest } := by
        have some : (s.curr.zombieQ.map fun _ => rest).getD makeQ = rest := by
          cases zombieQ : s.curr.zombieQ with
          | none =>
              rw [zombieQ] at queue
              cases queue
          | some _ => rfl
        have proc (a : Addr) : (s.updatePcb s.currPCB f).proc a =
            (s.crowd.update s.currPCB fun proc => { proc with zombies := rest }).proc a := by
          rw [Crowd.update_proc]
          by_cases same : a = s.currPCB
          · subst same
            rw [Function.update_self]
            simp only [Scheduler.proc, Scheduler.crowd, pos]
            simp only [Scheduler.updatePcb, Function.update_self]
            rw [← some]
            rfl
          · rw [Function.update_of_ne same]
            refine Scheduler.proc_congr ?_ ?_ ?_ ?_ _ (pos a)
            all_goals simp only [Scheduler.updatePcb, Function.update_of_ne same]
        rw [Scheduler.crowd, funext proc]
        rfl
      have whole : Scheduler.crowd (Scheduler.sysReturn
          ((s.updatePcb s.currPCB f).record event) (.wait statusPtr) zombie.pid) =
          ((s.crowd.update s.currPCB fun proc => { proc with zombies := rest }).record
            event).finish s.currPCB (.wait statusPtr) zombie.pid := by
        rw [crowd, record_crowd, collectedCrowd]
        rfl
      change s.crowd.Step s.currPCB s.currPCB (Scheduler.crowd (Scheduler.sysReturn
          ((s.updatePcb s.currPCB f).record event) (.wait statusPtr) zombie.pid))
      rw [whole]
      exact .waitCollect (here ▸ point) queue

/-- `KernelWait` rejects, blocks or collects. -/
theorem kernelWait_refines {s : Scheduler} (placed : Placed s) (user : s.cpu = .user)
    (notIdle : s.currPCB ≠ s.idlePCB) {statusPtr : Nat} {flow : Flow Scheduler}
    (done : kernelWait statusPtr s = .ok flow) :
    Placed (flow.finish (.wait statusPtr)) ∧
      s.crowd.Step s.currPCB (flow.finish (.wait statusPtr)).currPCB
        (flow.finish (.wait statusPtr)).crowd := by
  have busy : s.cpu.isBatch = false := by rw [user]; rfl
  have here : (s.crowd.proc s.currPCB).pos = .user := s.pos_curr.trans user
  have rejected : Placed ((Flow.ret s errorCode).finish (.wait statusPtr)) ∧
      s.crowd.Step s.currPCB s.currPCB ((Flow.ret s errorCode).finish (.wait statusPtr)).crowd :=
    (QuietFlow.same placed busy errorCode).step _ (by rw [user]; rfl) (fun _ _ _ => rfl)
  unfold kernelWait at done
  split at done
  · exact Except.ok.inj done ▸ rejected
  obtain ⟨prot, _, done⟩ := Outcome.bind_eq_ok.mp done
  split at done
  · exact Except.ok.inj done ▸ rejected
  split at done
  · exact Except.ok.inj done ▸ rejected
  split at done
  · rename_i empty
    obtain ⟨blocked, outcome, done⟩ := Outcome.bind_eq_ok.mp done
    obtain ⟨t, rfl, result, crowd⟩ := blockProcess_refines placed (k := .waitWoken statusPtr)
      busy rfl notIdle outcome
    have eq := Except.ok.inj done
    subst eq
    refine ⟨result, ?_⟩
    change s.crowd.Step s.currPCB t.currPCB t.crowd
    rw [crowd]
    exact .waitBlock here (List.head?_eq_none_iff.mp empty)
  · rename_i present
    cases collected : kernelWaitCollect s with
    | mk code t =>
        rw [collected] at done
        have eq := Except.ok.inj done
        subst eq
        exact kernelWaitCollect_refines placed (.inl user) (fun _ => present) collected

end

end Yallnix
