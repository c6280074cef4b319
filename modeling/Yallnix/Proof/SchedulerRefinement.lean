import Yallnix.Construction.View
import Yallnix.Proof.Residence

namespace Yallnix

section
variable [Hardware]

/-- The abstract process depends on these parts of the state. -/
theorem Scheduler.proc_congr {s t : Scheduler} {a b : Addr}
    (pid : (t.pcbs b).pid = (s.pcbs a).pid) (parent : (t.pcbs b).parent = (s.pcbs a).parent)
    (children : (t.pcbs b).childrenMap = (s.pcbs a).childrenMap)
    (zombies : (t.pcbs b).zombieQ = (s.pcbs a).zombieQ) (k : Pos) (pos : t.pos b = k) :
    t.proc b = { s.proc a with pos := k } := by
  simp only [Scheduler.proc, pid, parent, children, zombies, pos]

/-- The saved context does not belong to the family of a process. -/
theorem Scheduler.crowd_congr {s t : Scheduler} (live : t.live = s.live)
    (blocked : t.blockedMap = s.blockedMap) (nextPid : t.nextPid = s.nextPid)
    (log : t.log = s.log) (proc : ∀ a, t.proc a = s.proc a) : t.crowd = s.crowd := by
  simp only [Scheduler.crowd, live, blocked, nextPid, log, funext proc]

/-- Two states with the same processes differ by the program point of one process. -/
theorem Scheduler.crowd_move {s t : Scheduler} {p : Addr} {k : Pos} (live : t.live = s.live)
    (blocked : t.blockedMap = s.blockedMap) (nextPid : t.nextPid = s.nextPid)
    (log : t.log = s.log) (pid : ∀ a, (t.pcbs a).pid = (s.pcbs a).pid)
    (parent : ∀ a, (t.pcbs a).parent = (s.pcbs a).parent)
    (children : ∀ a, (t.pcbs a).childrenMap = (s.pcbs a).childrenMap)
    (zombies : ∀ a, (t.pcbs a).zombieQ = (s.pcbs a).zombieQ)
    (pos : ∀ a, t.pos a = if a = p then k else s.pos a) : t.crowd = s.crowd.move p k := by
  have proc (a : Addr) : t.proc a = (s.crowd.move p k).proc a := by
    rw [Crowd.move_proc]
    exact Scheduler.proc_congr (pid a) (parent a) (children a) (zombies a) _ (pos a)
  rw [Scheduler.crowd, funext proc, live, blocked, nextPid, log]
  rfl

theorem Scheduler.pos_curr (s : Scheduler) : s.pos s.currPCB = s.cpu := if_pos rfl

theorem Scheduler.pos_of_ne {s : Scheduler} {a : Addr} (differs : a ≠ s.currPCB) :
    s.pos a = ((s.pcbs a).kctxt).getD .starter := if_neg differs

/-- Memory, user contexts and remaining ticks do not place a process. -/
structure SameProcesses (s t : Scheduler) : Prop where
  currPCB : t.currPCB = s.currPCB
  cpu : t.cpu = s.cpu
  idlePCB : t.idlePCB = s.idlePCB
  nextPid : t.nextPid = s.nextPid
  readyQ : t.readyQ = s.readyQ
  blockedMap : t.blockedMap = s.blockedMap
  sleepingMap : t.sleepingMap = s.sleepingMap
  currTransmitters : t.currTransmitters = s.currTransmitters
  transmittingQs : t.transmittingQs = s.transmittingQs
  readingQs : t.readingQs = s.readingQs
  transmitting : t.transmitting = s.transmitting
  allocated : t.allocated = s.allocated
  live : t.live = s.live
  log : t.log = s.log
  pid : ∀ a, (t.pcbs a).pid = (s.pcbs a).pid
  kctxt : ∀ a, (t.pcbs a).kctxt = (s.pcbs a).kctxt
  parent : ∀ a, (t.pcbs a).parent = (s.pcbs a).parent
  childrenMap : ∀ a, (t.pcbs a).childrenMap = (s.pcbs a).childrenMap
  zombieQ : ∀ a, (t.pcbs a).zombieQ = (s.pcbs a).zombieQ
  numChildren : ∀ a, (t.pcbs a).numChildren = (s.pcbs a).numChildren

theorem SameProcesses.pos {s t : Scheduler} (same : SameProcesses s t) (a : Addr) :
    t.pos a = s.pos a := by
  simp only [Scheduler.pos, same.currPCB, same.cpu, same.kctxt]

theorem SameProcesses.crowd {s t : Scheduler} (same : SameProcesses s t) : t.crowd = s.crowd :=
  Scheduler.crowd_congr same.live same.blockedMap same.nextPid same.log fun a =>
    Scheduler.proc_congr (same.pid a) (same.parent a) (same.childrenMap a) (same.zombieQ a) _
      (same.pos a)

theorem SameProcesses.sameCrowd {s t : Scheduler} (same : SameProcesses s t) : SameCrowd s t where
  live := same.live
  allocated := same.allocated ▸ Finset.Subset.refl _
  pid a _ := same.pid a
  nextPid := same.nextPid.ge
  transmitter := same.currTransmitters
  transmission := same.transmitting
  idle := same.idlePCB

theorem SameProcesses.occurs {s t : Scheduler} (same : SameProcesses s t) (place : Place)
    (a : Addr) : t.occurs place a = s.occurs place a := by
  cases place <;> simp only [Scheduler.occurs, same.readyQ, same.blockedMap, same.sleepingMap,
    same.transmittingQs, same.readingQs]

theorem SameProcesses.trans {s t u : Scheduler} (one : SameProcesses s t)
    (two : SameProcesses t u) : SameProcesses s u where
  currPCB := two.currPCB.trans one.currPCB
  cpu := two.cpu.trans one.cpu
  idlePCB := two.idlePCB.trans one.idlePCB
  nextPid := two.nextPid.trans one.nextPid
  readyQ := two.readyQ.trans one.readyQ
  blockedMap := two.blockedMap.trans one.blockedMap
  sleepingMap := two.sleepingMap.trans one.sleepingMap
  currTransmitters := two.currTransmitters.trans one.currTransmitters
  transmittingQs := two.transmittingQs.trans one.transmittingQs
  readingQs := two.readingQs.trans one.readingQs
  transmitting := two.transmitting.trans one.transmitting
  allocated := two.allocated.trans one.allocated
  live := two.live.trans one.live
  log := two.log.trans one.log
  pid a := (two.pid a).trans (one.pid a)
  kctxt a := (two.kctxt a).trans (one.kctxt a)
  parent a := (two.parent a).trans (one.parent a)
  childrenMap a := (two.childrenMap a).trans (one.childrenMap a)
  zombieQ a := (two.zombieQ a).trans (one.zombieQ a)
  numChildren a := (two.numChildren a).trans (one.numChildren a)

/-- A changed PCB keeps the processes when its context and family stay. -/
theorem sameProcesses_updatePcb (s : Scheduler) (a : Addr) (f : PCB → PCB)
    (pid : (f (s.pcbs a)).pid = (s.pcbs a).pid) (kctxt : (f (s.pcbs a)).kctxt = (s.pcbs a).kctxt)
    (parent : (f (s.pcbs a)).parent = (s.pcbs a).parent)
    (childrenMap : (f (s.pcbs a)).childrenMap = (s.pcbs a).childrenMap)
    (zombieQ : (f (s.pcbs a)).zombieQ = (s.pcbs a).zombieQ)
    (numChildren : (f (s.pcbs a)).numChildren = (s.pcbs a).numChildren) :
    SameProcesses s (s.updatePcb a f) where
  currPCB := rfl
  cpu := rfl
  idlePCB := rfl
  nextPid := rfl
  readyQ := rfl
  blockedMap := rfl
  sleepingMap := rfl
  currTransmitters := rfl
  transmittingQs := rfl
  readingQs := rfl
  transmitting := rfl
  allocated := rfl
  live := rfl
  log := rfl
  pid b := by
    by_cases same : b = a
    · subst same
      simpa [Scheduler.updatePcb] using pid
    · simp [Scheduler.updatePcb, same]
  kctxt b := by
    by_cases same : b = a
    · subst same
      simpa [Scheduler.updatePcb] using kctxt
    · simp [Scheduler.updatePcb, same]
  parent b := by
    by_cases same : b = a
    · subst same
      simpa [Scheduler.updatePcb] using parent
    · simp [Scheduler.updatePcb, same]
  childrenMap b := by
    by_cases same : b = a
    · subst same
      simpa [Scheduler.updatePcb] using childrenMap
    · simp [Scheduler.updatePcb, same]
  zombieQ b := by
    by_cases same : b = a
    · subst same
      simpa [Scheduler.updatePcb] using zombieQ
    · simp [Scheduler.updatePcb, same]
  numChildren b := by
    by_cases same : b = a
    · subst same
      simpa [Scheduler.updatePcb] using numChildren
    · simp [Scheduler.updatePcb, same]

/-- The frame list and the region 0 table belong to no process. -/
theorem sameProcesses_memory (s : Scheduler) (frameList : FrameList) (r0PageTable : PageTable) :
    SameProcesses s { s with frameList := frameList, r0PageTable := r0PageTable } :=
  ⟨rfl, rfl, rfl, rfl, rfl, rfl, rfl, rfl, rfl, rfl, rfl, rfl, rfl, rfl, fun _ => rfl,
    fun _ => rfl, fun _ => rfl, fun _ => rfl, fun _ => rfl, fun _ => rfl⟩

theorem Placed.of {s : Scheduler} (pos : Addr → Pos) (settled : Settled s pos {s.currPCB})
    (agrees : ∀ a, s.pos a = pos a) : Placed s := by
  rw [Placed, funext agrees]
  exact settled

theorem Placed.sameProcesses {s t : Scheduler} (placed : Placed s) (same : SameProcesses s t) :
    Placed t := by
  refine Placed.of s.pos ?_ same.pos
  rw [same.currPCB]
  exact Settled.frame placed same.sameCrowd same.occurs
    (by rw [same.blockedMap]; exact List.Subset.refl _)
    (by rw [same.sleepingMap]; exact List.Subset.refl _)

theorem Placed.live {s : Scheduler} (placed : Placed s) : s.currPCB ∈ s.live :=
  placed.outLive (Finset.mem_singleton_self _)

theorem Placed.not_blocked {s : Scheduler} (placed : Placed s) :
    s.currPCB ∉ s.crowd.blocked := by
  intro inside
  obtain ⟨key, entry⟩ := HashMap.mem_items.mp inside
  exact (placed.mem_blocked entry).2.2.1 (Finset.mem_singleton_self _)

/-- Kernel code other than an interrupt return does not run in the idle process. -/
theorem Placed.not_idle {s : Scheduler} (placed : Placed s) (busy : s.cpu.isIdle = false) :
    s.currPCB ≠ s.idlePCB := by
  intro same
  have idle := placed.idlePos
  rw [← same, Scheduler.pos_curr, busy] at idle
  cases idle

theorem Placed.mem_blocked_iff {s : Scheduler} (placed : Placed s) {a : Addr} :
    a ∈ s.crowd.blocked ↔ ((s.pcbs a).pid, a) ∈ s.blockedMap.entries := by
  constructor
  · intro inside
    obtain ⟨key, entry⟩ := HashMap.mem_items.mp inside
    rwa [(placed.mem_blocked entry).1] at entry
  · intro entry
    exact HashMap.mem_items.mpr ⟨_, entry⟩

/-- A context switch saves one program point and keeps all others. -/
theorem switchBetween_pos (k : Pos) (next a : Addr) (s : Scheduler) :
    (switchBetween k (some s.currPCB) next s).pos a = if a = s.currPCB then k else s.pos a := by
  simp only [switchBetween, Scheduler.pos, Scheduler.updatePcb]
  by_cases isNext : a = next
  · subst isNext
    by_cases isCurr : a = s.currPCB
    · subst isCurr
      simp
    · simp [isCurr]
  · by_cases isCurr : a = s.currPCB
    · subst isCurr
      simp [isNext]
    · simp [isNext, isCurr]

/-- A context switch that saves nothing keeps the program points of all other processes. -/
theorem switchBetween_none_pos {k : Pos} {next a : Addr} {s : Scheduler} (other : a ≠ s.currPCB) :
    (switchBetween k none next s).pos a = s.pos a := by
  rw [Scheduler.pos_of_ne other]
  simp only [switchBetween, Scheduler.pos, Scheduler.updatePcb]
  by_cases isNext : a = next
  · simp [isNext]
  · simp [isNext]

/-- A context switch touches only the saved contexts. -/
theorem switchBetween_pcbs (k : Pos) (curr : Option Addr) (next a : Addr) (s : Scheduler) :
    ∃ kctxt, (switchBetween k curr next s).pcbs a = { s.pcbs a with kctxt := kctxt } := by
  cases curr with
  | none =>
      simp only [switchBetween, Scheduler.updatePcb]
      by_cases isNext : a = next
      · subst isNext
        exact ⟨_, by rw [Function.update_self]⟩
      · exact ⟨_, by rw [Function.update_of_ne isNext]⟩
  | some curr =>
      simp only [switchBetween, Scheduler.updatePcb]
      by_cases isNext : a = next
      · subst isNext
        by_cases isCurr : a = curr
        · subst isCurr
          exact ⟨_, by rw [Function.update_self, Function.update_self]⟩
        · exact ⟨_, by rw [Function.update_self, Function.update_of_ne isCurr]⟩
      · by_cases isCurr : a = curr
        · subst isCurr
          exact ⟨_, by rw [Function.update_of_ne isNext, Function.update_self]⟩
        · exact ⟨_, by rw [Function.update_of_ne isNext, Function.update_of_ne isCurr]⟩

theorem switchBetween_crowd (k : Pos) (next : Addr) (s : Scheduler) :
    (switchBetween k (some s.currPCB) next s).crowd = s.crowd.move s.currPCB k := by
  have pcbs (a : Addr) := switchBetween_pcbs k (some s.currPCB) next a s
  refine Scheduler.crowd_move rfl rfl rfl rfl (fun a => ?_) (fun a => ?_) (fun a => ?_)
    (fun a => ?_) (fun a => switchBetween_pos k next a s)
  all_goals
    obtain ⟨kctxt, same⟩ := pcbs a
    rw [same]

theorem switchBetween_same (k : Pos) (curr : Option Addr) (next : Addr) (s : Scheduler) :
    SameCrowd s (switchBetween k curr next s) where
  live := by cases curr <;> rfl
  allocated := by cases curr <;> exact Finset.Subset.refl _
  pid a _ := by
    obtain ⟨kctxt, same⟩ := switchBetween_pcbs k curr next a s
    rw [same]
  nextPid := by cases curr <;> exact le_refl _
  transmitter := by cases curr <;> rfl
  transmission := by cases curr <;> rfl
  idle := by cases curr <;> rfl

theorem switchBetween_settled {s : Scheduler} {pos : Addr → Pos} {out : Finset Addr}
    (settled : Settled s pos out) (k : Pos) (curr : Option Addr) (next : Addr) :
    Settled (switchBetween k curr next s) pos out :=
  settled.frame (switchBetween_same k curr next s)
    (by intro place a; cases curr <;> cases place <;> rfl)
    (by cases curr <;> exact List.Subset.refl _) (by cases curr <;> exact List.Subset.refl _)

/-- The dispatcher always finds a process, because the idle process is there. -/
theorem runReady_refines {s : Scheduler} {pos : Addr → Pos} {k : Pos}
    (settled : Settled s pos ∅) (agrees : ∀ a, pos a = if a = s.currPCB then k else s.pos a) :
    ∃ t, runReady k s = .go t ∧ Placed t ∧ t.crowd = s.crowd.move s.currPCB k := by
  have idle := settled.idle_ready (Finset.notMem_empty _)
  obtain ⟨next, rest, queue⟩ := List.exists_cons_of_ne_nil (List.ne_nil_of_mem idle)
  refine ⟨switchBetween k (some s.currPCB) next { s with readyQ := rest }, ?_, ?_, ?_⟩
  · simp [runReady, queue]
  · obtain ⟨dispatched, _, _⟩ := settled.dispatch queue
    refine Placed.of pos (switchBetween_settled dispatched k (some s.currPCB) next) ?_
    intro a
    rw [agrees]
    exact switchBetween_pos k next a { s with readyQ := rest }
  · exact switchBetween_crowd k next { s with readyQ := rest }

theorem update_pos (s : Scheduler) (k : Pos) (a : Addr) :
    Function.update s.pos s.currPCB k a = if a = s.currPCB then k else s.pos a := by
  rw [Function.update_apply]

/-- A process blocks under its own pid, which no blocked process has. -/
theorem blockProcess_refines {s : Scheduler} (placed : Placed s) {k : Pos} {flow : Flow Scheduler}
    (busy : s.cpu.isBatch = false) (blocking : k.isBlocking = true)
    (notIdle : s.currPCB ≠ s.idlePCB) (done : blockProcess k s = .ok flow) :
    ∃ t, flow = .go t ∧ Placed t ∧ t.crowd = (s.crowd.move s.currPCB k).block s.currPCB := by
  unfold blockProcess at done
  obtain ⟨inserted, outcome, done⟩ := Outcome.bind_eq_ok.mp done
  cases inserted with
  | none =>
      obtain ⟨a, entry⟩ := HashMap.mem_keys.mp (HashMap.insert_eq_none outcome)
      obtain ⟨same, live, notOut, _⟩ := placed.mem_blocked entry
      rw [placed.pidDistinct _ placed.live a live same] at notOut
      exact absurd (Finset.mem_singleton_self _) notOut
  | some blockedMap =>
      obtain ⟨_, perm, _⟩ := HashMap.insert_eq_some outcome
      have batch : k.isBatch = false := by
        cases k <;> simp_all [Pos.isBlocking, Pos.isBatch]
      have parked := placed.park (t := { s with blockedMap := blockedMap }) (k := k)
        ⟨rfl, Finset.Subset.refl _, fun _ _ => rfl, le_refl _, rfl, rfl, rfl⟩
        (gains_blocked perm) (Finset.mem_singleton_self _)
        (by
          intro node member
          rcases List.mem_cons.mp (perm.mem_iff.mp member) with new | old
          · exact .inr new
          · exact .inl old)
        (fun _ => Or.inl) (by rwa [Scheduler.pos_curr]) batch blocking
        (fun same => absurd same notIdle)
      rw [Finset.erase_singleton] at parked
      obtain ⟨t, ran, result, crowd⟩ := runReady_refines parked (update_pos s k)
      refine ⟨t, ?_, result, ?_⟩
      · have flowed := Except.ok.inj done
        rw [← flowed]
        exact ran
      · rw [crowd]
        have blocked : {a | a ∈ blockedMap.items} =
            insert s.currPCB {a | a ∈ s.blockedMap.items} := by
          ext a
          exact HashMap.mem_items_iff perm a
        simp only [Crowd.block, Crowd.move, Crowd.update, Scheduler.crowd, blocked]
        rfl

/-- A move of the program point without a context switch keeps the residence. -/
theorem Placed.setCpu {s : Scheduler} (placed : Placed s) {k : Pos}
    (before : s.cpu.isBatch = false) (after : k.isBatch = false)
    (idle : s.currPCB = s.idlePCB → k.isIdle = true) :
    Placed { s with cpu := k } ∧
      ({ s with cpu := k } : Scheduler).crowd = s.crowd.move s.currPCB k := by
  have pos (a : Addr) : ({ s with cpu := k } : Scheduler).pos a =
      if a = s.currPCB then k else s.pos a := by
    simp only [Scheduler.pos]
    split <;> rfl
  constructor
  · have moved := Settled.point placed (k := k) (Finset.mem_singleton_self _)
      (by rwa [Scheduler.pos_curr]) after idle
    refine Placed.of (Function.update s.pos s.currPCB k) ?_ ?_
    · exact moved.frame ⟨rfl, Finset.Subset.refl _, fun _ _ => rfl, le_refl _, rfl, rfl, rfl⟩
        (by intro place a; cases place <;> rfl) (List.Subset.refl _) (List.Subset.refl _)
    · intro a
      rw [pos, update_pos]
  · exact Scheduler.crowd_move rfl rfl rfl rfl (fun _ => rfl) (fun _ => rfl) (fun _ => rfl)
      (fun _ => rfl) pos

/-- The log places no process. -/
theorem Placed.record {s : Scheduler} (placed : Placed s) (event : Event) :
    Placed (s.record event) :=
  Settled.frame placed ⟨rfl, Finset.Subset.refl _, fun _ _ => rfl, le_refl _, rfl, rfl, rfl⟩
    (by intro place a; cases place <;> rfl) (List.Subset.refl _) (List.Subset.refl _)

theorem record_crowd (s : Scheduler) (event : Event) :
    (s.record event).crowd = s.crowd.record event := rfl

theorem sleepProcess_refines {s : Scheduler} (placed : Placed s) {ticks : Int}
    {flow : Flow Scheduler} (user : s.cpu = .user) (notIdle : s.currPCB ≠ s.idlePCB)
    (done : sleepProcess ticks s = .ok flow) :
    flow = .ret s successCode ∨
      ∃ t, flow = .go t ∧ Placed t ∧ t.crowd = s.crowd.move s.currPCB (.delay ticks) := by
  unfold sleepProcess at done
  split at done
  · exact .inl (Except.ok.inj done).symm
  · right
    have same := sameProcesses_updatePcb s s.currPCB
      (fun pcb => { pcb with numRemainingDelayTicks := ticks }) rfl rfl rfl rfl rfl rfl
    have placed := placed.sameProcesses same
    generalize s.updatePcb s.currPCB
      (fun pcb => { pcb with numRemainingDelayTicks := ticks }) = u at same placed done
    obtain ⟨inserted, outcome, done⟩ := Outcome.bind_eq_ok.mp done
    cases inserted with
    | none =>
        obtain ⟨a, entry⟩ := HashMap.mem_keys.mp (HashMap.insert_eq_none outcome)
        obtain ⟨equal, live, notOut, _⟩ := placed.mem_sleeping entry
        rw [placed.pidDistinct _ placed.live a live equal] at notOut
        exact absurd (Finset.mem_singleton_self _) notOut
    | some sleepingMap =>
        obtain ⟨_, perm, _⟩ := HashMap.insert_eq_some outcome
        have parked := placed.park (t := { u with sleepingMap := sleepingMap })
          (k := .delay ticks)
          ⟨rfl, Finset.Subset.refl _, fun _ _ => rfl, le_refl _, rfl, rfl, rfl⟩
          (gains_sleeping perm) (Finset.mem_singleton_self _) (fun _ => Or.inl)
          (by
            intro node member
            rcases List.mem_cons.mp (perm.mem_iff.mp member) with new | old
            · exact .inr new
            · exact .inl old)
          (by rw [Scheduler.pos_curr, same.cpu, user]; rfl) rfl ⟨ticks, rfl⟩
          (fun idle => absurd (same.currPCB ▸ same.idlePCB ▸ idle) notIdle)
        rw [Finset.erase_singleton] at parked
        obtain ⟨t, ran, result, crowd⟩ := runReady_refines parked (update_pos u (.delay ticks))
        refine ⟨t, ?_, result, ?_⟩
        · have flowed := Except.ok.inj done
          rw [← flowed]
          exact ran
        · rw [crowd]
          change u.crowd.move u.currPCB _ = _
          rw [same.crowd, same.currPCB]

/-- A clock interrupt preempts the current process when another one is ready. -/
theorem kickProcess_refines {s : Scheduler} (placed : Placed s) (user : s.cpu = .user) :
    kickProcess s = .ret s successCode ∨
      ∃ t, kickProcess s = .go t ∧ Placed t ∧ t.crowd = s.crowd.move s.currPCB .trapReturn := by
  unfold kickProcess
  split
  · exact .inl rfl
  · right
    have parked := placed.park (k := .trapReturn)
      (t := { s with readyQ := enqQ s.readyQ s.currPCB })
      ⟨rfl, Finset.Subset.refl _, fun _ _ => rfl, le_refl _, rfl, rfl, rfl⟩
      (gains_ready s s.currPCB) (Finset.mem_singleton_self _) (fun _ => Or.inl) (fun _ => Or.inl)
      (by rw [Scheduler.pos_curr, user]; rfl) rfl trivial (fun _ => rfl)
    rw [Finset.erase_singleton] at parked
    exact runReady_refines parked (update_pos s .trapReturn)

/-- A wake-up by pid moves the blocked process with this pid to `readyQ`. -/
theorem unblockProcess_refines {s t : Scheduler} (placed : Placed s) {cause : Cause} {pid : Int}
    (done : unblockProcess cause pid s = .ok t) :
    Placed t ∧ s.crowd.Wake cause pid t.crowd ∧ t.currPCB = s.currPCB ∧ t.cpu = s.cpu ∧
      t.idlePCB = s.idlePCB ∧ t.pcbs = s.pcbs ∧ t.live = s.live := by
  unfold unblockProcess at done
  obtain ⟨removed, outcome, done⟩ := Outcome.bind_eq_ok.mp done
  cases removed with
  | none =>
      have eq := Except.ok.inj done
      subst eq
      refine ⟨placed, .nobody ?_, rfl, rfl, rfl, rfl, rfl⟩
      intro a inside same
      apply HashMap.remove_eq_none outcome
      rw [← same]
      exact HashMap.mem_keys.mpr ⟨a, placed.mem_blocked_iff.mp inside⟩
  | some found =>
      obtain ⟨a, blockedMap⟩ := found
      have eq := Except.ok.inj done
      subst eq
      obtain ⟨perm, _⟩ := HashMap.remove_eq_some outcome
      have entry : (pid, a) ∈ s.blockedMap.entries := perm.mem_iff.mpr List.mem_cons_self
      obtain ⟨same, live, notOut, _⟩ := placed.mem_blocked entry
      obtain ⟨woken, _⟩ := placed.wake (t := { s with blockedMap := blockedMap })
        ⟨rfl, Finset.Subset.refl _, fun _ _ => rfl, le_refl _, rfl, rfl, rfl⟩
        (gains_blocked_removed perm)
        (fun node member => perm.mem_iff.mpr (List.mem_cons_of_mem _ member))
        (List.Subset.refl _)
      refine ⟨Placed.record (s := { s with
        blockedMap := blockedMap
        readyQ := enqQ s.readyQ a }) woken _, ?_, rfl, rfl, rfl, rfl, rfl⟩
      have blocked : {b | b ∈ blockedMap.items} = s.crowd.blocked \ {a} := by
        ext b
        have count := HashMap.count_items perm b
        have once := placed.occurs_le_one .blocked b
        simp only [Scheduler.occurs] at once
        change b ∈ blockedMap.items ↔ b ∈ s.blockedMap.items ∧ b ≠ a
        rw [← List.count_pos_iff, ← List.count_pos_iff]
        by_cases same : b = a
        · rw [if_pos same] at count
          simp only [same, ne_eq, not_true_eq_false, and_false, iff_false]
          rw [same] at count once
          omega
        · rw [if_neg same] at count
          simp only [ne_eq, same, not_false_eq_true, and_true]
          omega
      have inside : a ∈ s.crowd.blocked := HashMap.mem_items.mpr ⟨pid, entry⟩
      have crowd : Crowd.Wake cause pid s.crowd _ := .somebody inside same.symm
      rw [← blocked] at crowd
      exact crowd

/-- The containers changed while the processes and their program points stayed. -/
structure Steady (s t : Scheduler) : Prop where
  placed : Placed t
  crowd : t.crowd = s.crowd
  currPCB : t.currPCB = s.currPCB
  cpu : t.cpu = s.cpu
  idlePCB : t.idlePCB = s.idlePCB

theorem Steady.live {s t : Scheduler} (steady : Steady s t) : t.live = s.live :=
  congrArg Crowd.live steady.crowd

theorem Steady.trans {s t u : Scheduler} (one : Steady s t) (two : Steady t u) : Steady s u :=
  ⟨two.placed, two.crowd.trans one.crowd, two.currPCB.trans one.currPCB,
    two.cpu.trans one.cpu, two.idlePCB.trans one.idlePCB⟩

/-- A tick moves a sleeper to `readyQ` at most. -/
theorem tickDownSleeper_refines {s t : Scheduler} {count result key : Int} {sleeper : Addr}
    (placed : Placed s) (live : sleeper ∈ s.live)
    (done : tickDownSleeper (.ok (count, s)) key sleeper = .ok (result, t)) : Steady s t := by
  unfold tickDownSleeper at done
  rw [Outcome.ok_bind] at done
  dsimp only at done
  have same := sameProcesses_updatePcb s sleeper
    (fun pcb => { pcb with numRemainingDelayTicks := pcb.numRemainingDelayTicks - 1 })
    rfl rfl rfl rfl rfl rfl
  have steady : Steady s _ := ⟨placed.sameProcesses same, same.crowd, same.currPCB, same.cpu,
    same.idlePCB⟩
  refine steady.trans ?_
  rw [← same.live] at live
  generalize s.updatePcb sleeper
    (fun pcb => { pcb with numRemainingDelayTicks := pcb.numRemainingDelayTicks - 1 }) = u
    at steady live done
  have still : Steady u u := ⟨steady.placed, rfl, rfl, rfl, rfl⟩
  split at done
  · obtain ⟨removed, outcome, done⟩ := Outcome.bind_eq_ok.mp done
    cases removed with
    | none =>
        obtain ⟨_, rfl⟩ := Prod.mk.inj (Except.ok.inj done)
        exact still
    | some found =>
        obtain ⟨a, sleepingMap⟩ := found
        obtain ⟨_, rfl⟩ := Prod.mk.inj (Except.ok.inj done)
        obtain ⟨perm, _⟩ := HashMap.remove_eq_some outcome
        have entry : ((u.pcbs sleeper).pid, a) ∈ u.sleepingMap.entries :=
          perm.mem_iff.mpr List.mem_cons_self
        obtain ⟨equal, aLive, _⟩ := steady.placed.mem_sleeping entry
        obtain rfl := steady.placed.pidDistinct _ live a aLive equal
        obtain ⟨woken, _⟩ := steady.placed.wake (t := { u with sleepingMap := sleepingMap })
          ⟨rfl, Finset.Subset.refl _, fun _ _ => rfl, le_refl _, rfl, rfl, rfl⟩
          (gains_sleeping_removed perm) (List.Subset.refl _)
          (fun node member => perm.mem_iff.mpr (List.mem_cons_of_mem _ member))
        exact ⟨woken, rfl, rfl, rfl, rfl⟩
  · obtain ⟨_, rfl⟩ := Prod.mk.inj (Except.ok.inj done)
    exact still

/-- A property that every tick keeps holds after the iteration. -/
theorem tickDownSleepers_fold {sleepers : List (Int × Addr)} {keeps : Scheduler → Prop}
    (each : ∀ (u v : Scheduler) (count result : Int), ∀ node ∈ sleepers, keeps u →
      tickDownSleeper (.ok (count, u)) node.1 node.2 = .ok (result, v) → keeps v)
    {s t : Scheduler} {count result : Int} (first : keeps s)
    (done : sleepers.foldl (fun state node => tickDownSleeper state node.1 node.2)
      (.ok (count, s)) = .ok (result, t)) : keeps t := by
  induction sleepers generalizing s count with
  | nil =>
      obtain ⟨_, rfl⟩ := Prod.mk.inj (Except.ok.inj done)
      exact first
  | cons node rest ih =>
      rw [List.foldl_cons] at done
      cases ticked : tickDownSleeper (.ok (count, s)) node.1 node.2 with
      | error stop =>
          rw [ticked] at done
          have stuck (nodes : List (Int × Addr)) :
              nodes.foldl (fun state node => tickDownSleeper state node.1 node.2)
                (.error stop) = .error stop := by
            induction nodes with
            | nil => rfl
            | cons _ _ ih => exact ih
          rw [stuck] at done
          cases done
      | ok found =>
          rw [ticked] at done
          refine ih (fun u v count result other member => ?_)
            (each s found.2 count found.1 node List.mem_cons_self first ticked) done
          exact each u v count result other (List.mem_cons_of_mem _ member)

theorem tickDownSleepers_refines {s t : Scheduler} {code : Int} (placed : Placed s)
    (done : tickDownSleepers s = .ok (code, t)) : Steady s t := by
  unfold tickDownSleepers at done
  obtain ⟨⟨count, u⟩, ticked, done⟩ := Outcome.bind_eq_ok.mp done
  rw [HashMap.iterate_eq_foldl] at ticked
  have steady : Steady s u := by
    refine tickDownSleepers_fold (fun v w count result node member steady tick => ?_) ⟨placed, rfl, rfl, rfl, rfl⟩ ticked
    refine steady.trans (tickDownSleeper_refines steady.placed ?_ tick)
    rw [steady.live]
    exact (placed.mem_sleeping member).2.1
  dsimp only at done
  split at done
  · obtain ⟨_, rfl⟩ := Prod.mk.inj (Except.ok.inj done)
    exact steady
  · obtain ⟨_, rfl⟩ := Prod.mk.inj (Except.ok.inj done)
    exact steady

end

end Yallnix
