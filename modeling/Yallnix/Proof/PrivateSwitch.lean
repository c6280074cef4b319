import Yallnix.Proof.PrivateImage

namespace Yallnix

section
variable [Hardware]

namespace KernelMemory

variable {m n k : KernelMemory} {p : Addr} {kctxt : KernelContext}

/-- A switch writes entries and pages of the kernel stack and keeps the mode. -/
theorem setPageTableEntry_mode {ptep : PtePtr} {pte : Pte}
    (done : m.setPageTableEntry ptep pte = .ok n) : n.mode = m.mode := by
  obtain ⟨-, _, _, rfl⟩ := setPageTableEntry_eq_ok done
  rfl

theorem writePage_mode {vpn : Nat} {page : Page} (done : m.writePage vpn page = .ok n) :
    n.mode = m.mode := by
  unfold writePage at done
  split at done
  · cases done
  · split at done
    · cases done
      rfl
    · cases done

theorem mapStack_mode {slots : List (Fin kernelStackPages)} (done : m.mapStack slots = .ok n) :
    n.mode = m.mode := by
  induction slots generalizing m with
  | nil =>
      cases done
      rfl
  | cons i rest ih =>
      obtain ⟨k, wrote, done⟩ := Outcome.bind_eq_ok.mp done
      exact (ih done).trans (setPageTableEntry_mode wrote)

theorem loadStarterStack_mode {slots : List (Fin kernelStackPages)}
    (done : m.loadStarterStack slots = .ok n) : n.mode = m.mode := by
  induction slots generalizing m with
  | nil =>
      cases done
      rfl
  | cons i rest ih =>
      obtain ⟨k, wrote, done⟩ := Outcome.bind_eq_ok.mp done
      exact (ih done).trans (writePage_mode wrote)

theorem copyStack_mode {slots : List (Fin kernelStackPages)} (done : m.copyStack slots = .ok n) :
    n.mode = m.mode := by
  induction slots generalizing m with
  | nil =>
      cases done
      rfl
  | cons i rest ih =>
      obtain ⟨temp, wroteTemp, done⟩ := Outcome.bind_eq_ok.mp done
      obtain ⟨copied, copy, done⟩ := Outcome.bind_eq_ok.mp done
      obtain ⟨stored, wrote, done⟩ := Outcome.bind_eq_ok.mp done
      obtain ⟨page, -, copy⟩ := Outcome.bind_eq_ok.mp copy
      exact (ih done).trans ((setPageTableEntry_mode wrote).trans
        ((writePage_mode copy).trans (setPageTableEntry_mode wroteTemp)))

theorem startProcess_mode (quiet : m.Quiet) (done : m.startProcess = .ok n) :
    n.mode = m.mode := by
  unfold startProcess at done
  split at done
  · cases done
    rfl
  · obtain ⟨k, allocated, done⟩ := Outcome.bind_eq_ok.mp done
    obtain ⟨library, rfl⟩ := malloc_eq_ok quiet (orElse_eq_ok.mp allocated)
    have kept := loadStarterStack_mode done
    exact kept

theorem forkTo_mode {currKctxt : KernelContext} (done : m.forkTo currKctxt p = .ok (kctxt, n)) :
    n.mode = m.mode := by
  obtain ⟨saved, save, done⟩ := Outcome.bind_eq_ok.mp done
  obtain ⟨copied, copy, done⟩ := Outcome.bind_eq_ok.mp done
  obtain ⟨reset, wrote, done⟩ := Outcome.bind_eq_ok.mp done
  obtain ⟨given, give, done⟩ := Outcome.bind_eq_ok.mp done
  rw [(resumeContext_eq_ok done).2]
  have first : reset.mode = m.mode := by
    rw [setPageTableEntry_mode wrote, copyStack_mode copy, saveContext_eq_ok save]
    rfl
  rw [← first, saveContext_eq_ok give]
  rfl

/-- A saved context is no site. -/
theorem Spares.of_setKctxt {own written : Set Addr} {saved : Option KernelContext}
    (spares : Spares own written m n) : Spares own written (m.setKctxt p saved) n := by
  have same := LeavesSites.setKctxt m p saved
  exact ⟨spares.regPtbr0, spares.live, spares.idlePCB,
    fun q other =>
      (spares.r1PageTable q other).trans (same.r1PageTable q (Set.notMem_empty q)).symm,
    fun q other => (spares.stackPfns q other).trans (same.stackPfns q (Set.notMem_empty q)).symm,
    fun q other => (spares.brk q other).trans (same.brk q (Set.notMem_empty q)).symm,
    spares.entries, spares.quiet⟩

/-- A switch writes only to the stack frames of the process that it enters. -/
theorem Entered.kept (entered : Entered p kctxt m n) (sole : m.LiveSole) (alive : p ∈ m.live)
    {a : Site} (inside : a ∈ m.liveSites) (other : ∀ i, a ≠ .slot p i) {pfn : Nat}
    (held : m.references a = some pfn) : n.pages pfn = m.pages pfn := by
  refine entered.frames pfn fun i same => other i ?_
  exact sole.exclusive.alone a inside (.slot p i) alive pfn held (congrArg some same)

theorem Entered.others (entered : Entered p kctxt m n) (spares : Spares ∅ ∅ m n)
    (sole : m.LiveSole) (alive : p ∈ m.live) {q : Addr} (lives : q ∈ m.live) (other : q ≠ p) :
    n.privateProcess q = m.privateProcess q := by
  refine privateProcess_congr spares (Set.notMem_empty q) (Set.notMem_empty _) (sole.kernel q lives)
    (entered.saved q other) (fun i _ => entered.kept sole alive (a := .page q i) lives nofun)
    fun i => entered.kept sole alive (a := .slot q i) lives (fun j same => ?_) rfl
  cases same
  exact other rfl

theorem Entered.region1 (entered : Entered p kctxt m n) (spares : Spares ∅ ∅ m n)
    (sole : m.LiveSole) (alive : p ∈ m.live) : n.region1 p = m.region1 p :=
  region1_of_spares spares (Set.notMem_empty p) (Set.notMem_empty _) (sole.kernel p alive)
    fun i _ => entered.kept sole alive (a := .page p i) alive nofun

theorem Entered.settled (entered : Entered p kctxt m n) (room : 2 ≤ r0StackBase) : Settled n :=
  ⟨room, entered.brk, entered.mapped⟩

/-- A process that is entered by `switchBetween` goes on or starts. -/
theorem EnteredOwn.resumes (entered : EnteredOwn p kctxt m n) (spares : Spares ∅ ∅ m n)
    (sole : m.LiveSole) (alive : p ∈ m.live) :
    n.privateProcess p = m.privateMemory.resume (m.privateProcess p) := by
  have region1 := entered.region1 spares sole alive
  have brk := spares.brk p (Set.notMem_empty p)
  have stackPfns := spares.stackPfns p (Set.notMem_empty p)
  cases saved : (m.pcbs p).kctxt with
  | some old =>
      obtain ⟨same, pages⟩ := entered.resumed old saved
      have going : m.privateMemory.resume (m.privateProcess p) = m.privateProcess p := by
        rw [PrivateMemory.resume, privateProcess, saved]
      rw [going, privateProcess, privateProcess, region1, brk, stackPfns, pages, entered.running,
        same, saved]
  | none =>
      obtain ⟨same, starter⟩ := entered.started saved
      have starting : m.privateMemory.resume (m.privateProcess p) =
          ⟨(m.pcbs p).brk, m.region1 p, m.starterKernelStack, some m.starterKctxt⟩ := by
        rw [PrivateMemory.resume, privateProcess, saved]
        rfl
      rw [starting, privateProcess, region1, brk, stackPfns, entered.running, same]
      exact congrArg (PrivateProcess.mk _ _ · _) (funext starter)

/-- A private memory enters the process that the kernel enters. -/
theorem EnteredOwn.privateMemory (entered : EnteredOwn p kctxt m n) (spares : Spares ∅ ∅ m n)
    (sole : m.LiveSole) (alive : p ∈ m.live) : { n with mode := .kernel }.privateMemory =
      m.privateMemory.enter p (m.privateProcess p) := by
  refine PrivateMemory.ext entered.currPCB rfl ?_ entered.starter.1 entered.starter.2
  funext q
  dsimp only [PrivateMemory.enter, PrivateMemory.set]
  have view : { n with mode := .kernel }.privateMemory.processes q =
      n.privateMemory.processes q := rfl
  rw [view]
  by_cases same : q = p
  · subst same
    rw [Function.update_self, processes_of_mem (entered.live ▸ alive),
      entered.resumes spares sole alive]
  · rw [Function.update_of_ne same]
    by_cases lives : q ∈ m.live
    · rw [processes_of_mem (entered.live ▸ lives), processes_of_mem lives,
        entered.others spares sole alive lives same]
    · rw [processes_of_notMem (entered.live ▸ lives), processes_of_notMem lives]

/-- `switchBetween` without a process to save enters the next one. -/
theorem Sole.switchBetween_enters {currKctxt : KernelContext} (sole : m.LiveSole) (quiet : m.Quiet)
    (room : 2 ≤ r0StackBase) (brk : m.currKernelBrk ≤ kernelStackBase) (alive : p ∈ m.live)
    (done : m.switchBetween currKctxt none p = .ok (kctxt, n)) : Settled n ∧
      { n with mode := .kernel }.privateMemory = m.privateMemory.enter p (m.privateProcess p) := by
  have leaves := LeavesSites.switchBetween quiet done
  have entered := enter_eq_ok (stackPages_le room) brk (sole.stackPfns_injective alive) done
  exact ⟨entered.settled room, entered.privateMemory leaves.toSpares sole alive⟩

theorem switchBetween_mode {currKctxt : KernelContext} (quiet : m.Quiet)
    (done : m.switchBetween currKctxt none p = .ok (kctxt, n)) : n.mode = m.mode := by
  obtain ⟨_, same, done⟩ := Outcome.bind_eq_ok.mp done
  cases same
  obtain ⟨k, maps, done⟩ := Outcome.bind_eq_ok.mp done
  obtain ⟨l, start, done⟩ := Outcome.bind_eq_ok.mp done
  rw [(resumeContext_eq_ok done).2]
  have before : LeavesSites m k := (LeavesSites.run m p).trans (.mapStack maps)
  have mode := (startProcess_mode (before.quiet quiet) start).trans (mapStack_mode maps)
  exact mode

theorem privateMemory_of_mode (kernel : n.mode = .kernel) :
    n.privateMemory = { n with mode := .kernel }.privateMemory := by
  rw [← kernel]

/-- A switch saves the running process first. -/
theorem switchBetween_some {currKctxt : KernelContext} {q : Addr}
    (done : m.switchBetween currKctxt (some q) p = .ok (kctxt, n)) :
    (m.setKctxt q (some currKctxt)).switchBetween currKctxt none p = .ok (kctxt, n) := by
  obtain ⟨k, saved, done⟩ := Outcome.bind_eq_ok.mp done
  rw [saveContext_eq_ok saved] at done
  exact done

theorem privateProcess_setKctxt (m : KernelMemory) (q : Addr) (saved : Option KernelContext) :
    (m.setKctxt q saved).privateProcess q = { m.privateProcess q with kctxt := saved } := by
  have pcb : (m.setKctxt q saved).pcbs q = { m.pcbs q with kctxt := saved } :=
    Function.update_self _ _ _
  have region1 : (m.setKctxt q saved).region1 q = m.region1 q := by
    funext i
    rw [KernelMemory.region1, KernelMemory.region1, pcb]
    rfl
  rw [privateProcess, privateProcess, region1, pcb]
  rfl

/-- A saved context changes the private memory of one process. -/
theorem privateMemory_setKctxt {q : Addr} (alive : q ∈ m.live) (saved : Option KernelContext) :
    (m.setKctxt q saved).privateMemory =
      m.privateMemory.set q { m.privateProcess q with kctxt := saved } := by
  refine PrivateMemory.ext rfl rfl ?_ rfl rfl
  funext r
  dsimp only [PrivateMemory.set]
  by_cases same : r = q
  · subst same
    rw [Function.update_self, ← privateProcess_setKctxt]
    exact processes_of_mem (m := m.setKctxt r saved) alive
  · rw [Function.update_of_ne same]
    by_cases lives : r ∈ m.live
    · rw [processes_of_mem lives, ← privateProcess_updatePcb _ same]
      exact processes_of_mem (m := m.setKctxt q saved) lives
    · rw [processes_of_notMem lives]
      exact processes_of_notMem (m := m.setKctxt q saved) lives

/-- `switchBetween` saves the running process and enters the next one. -/
theorem Sole.switchBetween_switches {currKctxt : KernelContext} (sole : m.LiveSole)
    (quiet : m.Quiet) (settled : Settled m) (member : m.currPCB ∈ m.live) (alive : p ∈ m.live)
    (kernel : m.mode = .kernel)
    (done : m.switchBetween currKctxt (some m.currPCB) p = .ok (kctxt, n)) :
    Settled n ∧ ∃ q, (m.privateMemory.set m.currPCB
        { m.privateProcess m.currPCB with kctxt := some currKctxt }).processes p = some q ∧
      n.privateMemory = (m.privateMemory.set m.currPCB
        { m.privateProcess m.currPCB with kctxt := some currKctxt }).enter p q := by
  let k := m.setKctxt m.currPCB (some currKctxt)
  have switched : k.switchBetween currKctxt none p = .ok (kctxt, n) := switchBetween_some done
  obtain ⟨after, view⟩ := Sole.switchBetween_enters (m := k) (sole.of_leaves (.setKctxt m _ _))
    quiet settled.room settled.brk alive switched
  have mode : n.mode = .kernel := (switchBetween_mode (m := k) quiet switched).trans kernel
  rw [← privateMemory_setKctxt member]
  exact ⟨after, k.privateProcess p, processes_of_mem (m := k) alive,
    (privateMemory_of_mode mode).trans view⟩

/-- `delete_process` gives the table and the frames of the process back. -/
theorem deleteProcess_eq_ok {freedTable : PageTable} (quiet : m.Quiet)
    (done : m.deleteProcess p freedTable = .ok n) : ∃ library frames, n = { m with
      library := library
      frameList := frames
      tables := Function.update m.tables (m.pcbs p).r1PageTable freedTable } := by
  obtain ⟨k, freed, done⟩ := Outcome.bind_eq_ok.mp done
  have after : k.Quiet := (LeavesSites.free quiet freed).quiet quiet
  obtain ⟨first, rfl⟩ := free_eq_ok quiet freed
  obtain ⟨l, freedTwice, done⟩ := Outcome.bind_eq_ok.mp done
  have last : l.Quiet := (LeavesSites.free (by exact after) freedTwice).quiet after
  obtain ⟨second, rfl⟩ := free_eq_ok (by exact after) freedTwice
  obtain ⟨third, rfl⟩ := free_eq_ok (by exact last) done
  exact ⟨third, _, rfl⟩

/-- An exit removes the running process and enters the next one. -/
theorem Owned.kernelExit_removes {freedTable : PageTable} {nextPCB : Addr} (owned : Owned m)
    (quiet : m.Quiet) (member : m.currPCB ∈ m.live) (settled : Settled m)
    (alive : nextPCB ∈ m.live) (other : nextPCB ≠ m.currPCB)
    (done : m.kernelExit freedTable nextPCB = .ok n) : Settled n ∧
      { n with mode := .kernel }.privateMemory =
        (m.privateMemory.remove m.currPCB).enter nextPCB (m.privateProcess nextPCB) := by
  unfold KernelMemory.kernelExit at done
  split at done
  · cases done
  obtain ⟨⟨_, k⟩, allocated, done⟩ := Outcome.bind_eq_ok.mp done
  have before := LeavesSites.malloc quiet allocated
  obtain ⟨first, rfl⟩ := malloc_eq_ok quiet allocated
  obtain ⟨l, deleted, done⟩ := Outcome.bind_eq_ok.mp done
  obtain ⟨⟨kctxt, last⟩, switched, done⟩ := Outcome.bind_eq_ok.mp done
  cases done
  have owned := owned.leaves before
  have quiet' := before.quiet quiet
  have departs := owned.sole.deleteProcess quiet' member (fun _ => member) deleted
  have rest := owned.departs member departs
  obtain ⟨library, frames, eq⟩ := deleteProcess_eq_ok quiet' deleted
  have live : l.live = m.live := by rw [eq]
  have currPCB : l.currPCB = m.currPCB := by rw [eq]
  have remains : nextPCB ∈ l.live.erase m.currPCB := by
    rw [live]
    exact Finset.mem_erase.mpr ⟨other, alive⟩
  have processes : ∀ q ∈ m.live, q ≠ m.currPCB → l.privateProcess q = m.privateProcess q := by
    intro q lives away
    have same : l.privateProcess q = { m with library := first }.privateProcess q := by
      refine privateProcess_congr departs.toSpares (Set.notMem_empty q)
        (fun equal => away (owned.sole.apart q lives _ member equal)) (owned.sole.kernel q lives) ?_
        (fun i pfn _ => ?_) fun i => ?_
      all_goals rw [eq]
    exact same
  have removed : { l with live := l.live.erase m.currPCB }.privateMemory =
      m.privateMemory.remove m.currPCB := by
    refine PrivateMemory.ext currPCB (by rw [eq]; rfl) ?_ (by rw [eq]; rfl) (by rw [eq]; rfl)
    funext q
    dsimp only [PrivateMemory.remove]
    by_cases same : q = m.currPCB
    · subst same
      rw [Function.update_self]
      exact if_neg (Finset.notMem_erase _ _)
    · rw [Function.update_of_ne same]
      by_cases lives : q ∈ m.live
      · rw [processes_of_mem lives, ← processes q lives same]
        exact if_pos (Finset.mem_erase.mpr ⟨same, live ▸ lives⟩)
      · rw [processes_of_notMem lives]
        exact if_neg fun erased => lives (live ▸ (Finset.mem_erase.mp erased).2)
  rw [currPCB] at switched
  have switched : { l with live := l.live.erase m.currPCB }.switchBetween [] none nextPCB =
    .ok (kctxt, n) := switched
  obtain ⟨settled, view⟩ := rest.sole.switchBetween_enters (departs.quiet quiet') settled.room
    (by rw [eq]; exact settled.brk) remains switched
  refine ⟨settled, view.trans ?_⟩
  rw [removed]
  exact congrArg _ (processes nextPCB alive other)

end KernelMemory

end

end Yallnix
