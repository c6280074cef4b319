import Yallnix.Construction.SmallMemory
import Yallnix.Proof.StackMemory

namespace Yallnix

section
variable [Hardware]

/-- The saved context and the stack frames of a process stay. -/
structure KeepsProcess (m n : KernelMemory) (pcbp : Addr) : Prop where
  kctxt : (n.pcbs pcbp).kctxt = (m.pcbs pcbp).kctxt
  stackPfns : (n.pcbs pcbp).stackPfns = (m.pcbs pcbp).stackPfns
  frames : ∀ i, n.pages ((m.pcbs pcbp).stackPfns i) = m.pages ((m.pcbs pcbp).stackPfns i)

theorem KeepsProcess.trans {m k n : KernelMemory} {pcbp : Addr} (first : KeepsProcess m k pcbp)
    (second : KeepsProcess k n pcbp) : KeepsProcess m n pcbp where
  kctxt := second.kctxt.trans first.kctxt
  stackPfns := second.stackPfns.trans first.stackPfns
  frames i := by
    rw [← first.frames i, ← first.stackPfns]
    exact second.frames i

/-- A process that is switched out waits with its snapshot, and a new process has no context. -/
def Waits (m : KernelMemory) (pcbp : Addr) : Option Snapshot → Prop
  | none => (m.pcbs pcbp).kctxt = none
  | some snapshot => (m.pcbs pcbp).kctxt = some snapshot.kctxt ∧
      ∀ i, snapshot.stack i = some (m.pages ((m.pcbs pcbp).stackPfns i))

theorem Waits.of_keeps {m n : KernelMemory} {pcbp : Addr} {snapshot : Option Snapshot}
    (waits : Waits m pcbp snapshot) (keeps : KeepsProcess m n pcbp) : Waits n pcbp snapshot := by
  cases snapshot with
  | none => exact keeps.kctxt.trans waits
  | some snapshot =>
      refine ⟨keeps.kctxt.trans waits.1, fun i => (waits.2 i).trans ?_⟩
      rw [keeps.stackPfns, keeps.frames]

namespace Switching

/-- The running process uses its own stack, and all other processes wait. -/
structure Isolated (s : Switching) : Prop where
  fits : kernelStackPages ≤ maxPtLen
  brk : s.currKernelBrk ≤ kernelStackBase
  alive : s.currPCB ∈ s.live
  mapped : s.MapsStack
  apart : s.StacksApart
  waits : ∀ pcbp ∈ s.live, pcbp ≠ s.currPCB → Waits s.toKernelMemory pcbp (s.suspended pcbp)

/-- A process runs with this context, and the entries show this stack. -/
structure Runs (s : Switching) (pcbp : Addr) (snapshot : Snapshot) : Prop where
  currPCB : s.currPCB = pcbp
  kctxt : s.kctxt = snapshot.kctxt
  stack : s.stackView = snapshot.stack

/-- A new process starts with the starter context and the starter stack. -/
def starter (s : Switching) : Snapshot :=
  ⟨s.starterKctxt, fun i => some (s.starterKernelStack i)⟩

/-- A process that is switched out keeps its frames and saves the context of the call. -/
structure SwitchesOut (s t : Switching) (currKctxt : KernelContext) : Prop where
  kctxt : (t.pcbs s.currPCB).kctxt = some currKctxt
  stackPfns : (t.pcbs s.currPCB).stackPfns = s.curr.stackPfns
  frames : ∀ i, t.pages (s.curr.stackPfns i) = s.pages (s.curr.stackPfns i)

/-- A switch preserves the kernel state of all processes in this sense. -/
def Preserves (s t : Switching) : SwitchAct → Prop
  | .switchBetween currKctxt nextPcbp =>
      t.Runs nextPcbp ((t.suspended nextPcbp).getD s.starter) ∧ s.SwitchesOut t currKctxt ∧
        ∀ pcbp ∈ s.live, pcbp ≠ s.currPCB → pcbp ≠ nextPcbp ∨ s.suspended pcbp ≠ none →
          KeepsProcess s.toKernelMemory t.toKernelMemory pcbp
  | .leave nextPcbp =>
      t.Runs nextPcbp ((t.suspended nextPcbp).getD s.starter) ∧
        ∀ pcbp ∈ s.live, pcbp ≠ s.currPCB → pcbp ≠ nextPcbp ∨ s.suspended pcbp ≠ none →
          KeepsProcess s.toKernelMemory t.toKernelMemory pcbp
  | .forkTo currKctxt childPcbp _ =>
      t.Runs childPcbp ⟨currKctxt, s.stackView⟩ ∧ s.SwitchesOut t currKctxt ∧
        ∀ pcbp ∈ s.live, pcbp ≠ s.currPCB → pcbp ≠ childPcbp →
          KeepsProcess s.toKernelMemory t.toKernelMemory pcbp
  | .execTo =>
      t.Runs s.currPCB s.starter ∧
        ∀ pcbp ∈ s.live, pcbp ≠ s.currPCB → KeepsProcess s.toKernelMemory t.toKernelMemory pcbp
  | _ => True

variable {s t : Switching} {m n : KernelMemory}

theorem Isolated.injective (isolated : s.Isolated) {pcbp : Addr} (alive : pcbp ∈ s.live) :
    Function.Injective (s.pcbs pcbp).stackPfns :=
  fun i j same => (isolated.apart pcbp alive pcbp alive i j same).2

theorem Isolated.disjoint (isolated : s.Isolated) {p q : Addr} (first : p ∈ s.live)
    (second : q ∈ s.live) (other : p ≠ q) (i j : Fin kernelStackPages) :
    (s.pcbs p).stackPfns i ≠ (s.pcbs q).stackPfns j :=
  fun same => other (isolated.apart p first q second i j same).1

theorem suspend_self (s : Switching) (currKctxt : KernelContext) :
    (s.suspend currKctxt).suspended s.currPCB = some ⟨currKctxt, s.stackView⟩ :=
  Function.update_self _ _ _

theorem suspend_of_ne (s : Switching) (currKctxt : KernelContext) {pcbp : Addr}
    (other : pcbp ≠ s.currPCB) : (s.suspend currKctxt).suspended pcbp = s.suspended pcbp :=
  Function.update_of_ne other _ _

/-- The entries show the frames of the running process. -/
theorem Isolated.stackView (isolated : s.Isolated) (i : Fin kernelStackPages) :
    s.stackView i = some (s.pages (s.curr.stackPfns i)) :=
  KernelMemory.stackView_eq (isolated.mapped i)

/-- Equal stack frames of equal live processes stay apart. -/
theorem stacksApart_of_eq (apart : m.StacksApart) (live : n.live ⊆ m.live)
    (stackPfns : ∀ p, (n.pcbs p).stackPfns = (m.pcbs p).stackPfns) : n.StacksApart := by
  intro p first q second i j same
  rw [stackPfns, stackPfns] at same
  exact apart p (live first) q (live second) i j same

/-- A process that was entered runs on its own stack. -/
theorem runs_of_entered {nextPcbp : Addr} {kctxt : KernelContext} {snapshot : Snapshot}
    (suspended : Addr → Option Snapshot) (entered : KernelMemory.Entered nextPcbp kctxt m n)
    (same : kctxt = snapshot.kctxt)
    (stack : ∀ i, snapshot.stack i = some (n.pages ((m.pcbs nextPcbp).stackPfns i))) :
    Runs ⟨n, kctxt, suspended⟩ nextPcbp snapshot where
  currPCB := entered.currPCB
  kctxt := same
  stack := by
    funext i
    rw [stack i, ← entered.stackPfns, ← entered.currPCB]
    exact KernelMemory.stackView_eq (entered.mapped i)

/-- All waiting processes wait on after another process is entered. -/
theorem isolated_of_entered {nextPcbp : Addr} {kctxt : KernelContext}
    (suspended : Addr → Option Snapshot) (fits : kernelStackPages ≤ maxPtLen)
    (alive : nextPcbp ∈ m.live) (apart : m.StacksApart)
    (waits : ∀ pcbp ∈ m.live, pcbp ≠ nextPcbp → Waits m pcbp (suspended pcbp))
    (entered : KernelMemory.Entered nextPcbp kctxt m n) :
    Isolated ⟨n, kctxt, suspended⟩ ∧ ∀ pcbp ∈ m.live, pcbp ≠ nextPcbp → KeepsProcess m n pcbp := by
  have keeps : ∀ pcbp ∈ m.live, pcbp ≠ nextPcbp → KeepsProcess m n pcbp := fun pcbp living other =>
    ⟨entered.saved pcbp other, entered.stackPfns pcbp, fun i => entered.frames _ fun j same =>
      other (apart nextPcbp alive pcbp living j i same).1.symm⟩
  refine ⟨⟨fits, entered.brk, ?_, entered.mapped, ?_, fun pcbp living other => ?_⟩, keeps⟩
  · change n.currPCB ∈ n.live
    rw [entered.currPCB, entered.live]
    exact alive
  · exact stacksApart_of_eq apart entered.live.le entered.stackPfns
  · have older : pcbp ∈ m.live := entered.live ▸ living
    have away : pcbp ≠ nextPcbp := fun same => other (same.trans entered.currPCB.symm)
    exact (waits pcbp older away).of_keeps (keeps pcbp older away)

/-- A process that `switchBetween` enters goes on from its snapshot or starts. -/
theorem runs_of_enteredOwn {nextPcbp : Addr} {kctxt : KernelContext}
    (suspended : Addr → Option Snapshot) (waits : Waits m nextPcbp (suspended nextPcbp))
    (entered : KernelMemory.EnteredOwn nextPcbp kctxt m n) :
    Runs ⟨n, kctxt, suspended⟩ nextPcbp
        ((suspended nextPcbp).getD ⟨m.starterKctxt, fun i => some (m.starterKernelStack i)⟩) ∧
      (suspended nextPcbp ≠ none → KeepsProcess m n nextPcbp) := by
  cases found : suspended nextPcbp with
  | none =>
      rw [found] at waits
      obtain ⟨kctxtEq, pages⟩ := entered.started waits
      refine ⟨runs_of_entered suspended entered.toEntered kctxtEq fun i => ?_, fun some => absurd rfl some⟩
      exact congrArg some (pages i).symm
  | some snapshot =>
      rw [found] at waits
      obtain ⟨saved, stack⟩ := waits
      obtain ⟨kctxtEq, pages⟩ := entered.resumed _ saved
      refine ⟨runs_of_entered suspended entered.toEntered kctxtEq fun i => ?_, fun _ => ?_⟩
      · rw [pages]
        exact stack i
      · refine ⟨?_, entered.stackPfns nextPcbp, fun i => congrFun pages _⟩
        rw [entered.running, saved, kctxtEq]

theorem resume_eq_ok {result : Outcome (KernelContext × KernelMemory)}
    (done : s.resume result = .ok t) :
    ∃ kctxt n, result = .ok (kctxt, n) ∧ t = ⟨n, kctxt, s.suspended⟩ := by
  obtain ⟨⟨kctxt, n⟩, ran, done⟩ := Outcome.bind_eq_ok.mp done
  cases done
  exact ⟨kctxt, n, ran, rfl⟩

/-- The save of a context keeps all other processes and all frames. -/
theorem keepsProcess_setKctxt (m : KernelMemory) {pcbp other : Addr} (away : other ≠ pcbp)
    (kctxt : Option KernelContext) :
    KeepsProcess m (m.setKctxt pcbp kctxt) other where
  kctxt := (KernelMemory.setKctxt_kctxt _ _ _ _).trans (if_neg away)
  stackPfns := KernelMemory.setKctxt_stackPfns _ _ _ _
  frames _ := rfl

/-- After the save every process waits with its snapshot. -/
theorem Isolated.waits_saved (isolated : s.Isolated) (currKctxt : KernelContext) {pcbp : Addr}
    (alive : pcbp ∈ s.live) :
    Waits (s.setKctxt s.currPCB (some currKctxt)) pcbp
      ((s.suspend currKctxt).suspended pcbp) := by
  by_cases same : pcbp = s.currPCB
  · subst same
    rw [suspend_self]
    refine ⟨(KernelMemory.setKctxt_kctxt _ _ _ _).trans (if_pos rfl), fun i => ?_⟩
    rw [KernelMemory.setKctxt_stackPfns]
    exact isolated.stackView i
  · rw [suspend_of_ne _ _ same]
    exact (isolated.waits pcbp alive same).of_keeps (keepsProcess_setKctxt _ same _)

/-- A process that was saved and then left keeps its context and its frames. -/
theorem switchesOut_of_keeps {currKctxt : KernelContext}
    (keeps : KeepsProcess (s.setKctxt s.currPCB (some currKctxt))
      t.toKernelMemory s.currPCB) : s.SwitchesOut t currKctxt where
  kctxt := keeps.kctxt.trans ((KernelMemory.setKctxt_kctxt _ _ _ _).trans (if_pos rfl))
  stackPfns := keeps.stackPfns.trans (KernelMemory.setKctxt_stackPfns _ _ _ _)
  frames i := by
    have kept := keeps.frames i
    rw [KernelMemory.setKctxt_stackPfns] at kept
    exact kept

theorem Isolated.switchBetween (isolated : s.Isolated) {currKctxt : KernelContext}
    {nextPcbp : Addr} (alive : nextPcbp ∈ s.live)
    (done : s.perform (.switchBetween currKctxt nextPcbp) = .ok t) :
    t.Isolated ∧ s.Preserves t (.switchBetween currKctxt nextPcbp) := by
  obtain ⟨kctxt, n, ran, rfl⟩ := resume_eq_ok done
  obtain ⟨saved, save, ran⟩ := Outcome.bind_eq_ok.mp ran
  obtain rfl := KernelMemory.saveContext_eq_ok save
  have pfns := fun p => KernelMemory.setKctxt_stackPfns s.toKernelMemory s.currPCB p
    (some currKctxt)
  have apart := stacksApart_of_eq (n := s.setKctxt s.currPCB (some currKctxt)) isolated.apart
    (Finset.Subset.refl _) pfns
  have injective := isolated.injective alive
  rw [← pfns nextPcbp] at injective
  have entered := KernelMemory.enter_eq_ok (m := s.setKctxt s.currPCB (some currKctxt))
    isolated.fits isolated.brk injective ran
  obtain ⟨after, keeps⟩ := isolated_of_entered (m := s.setKctxt s.currPCB (some currKctxt))
    (s.suspend currKctxt).suspended isolated.fits alive apart (fun p living _ => isolated.waits_saved currKctxt living)
    entered.toEntered
  obtain ⟨runs, keepsNext⟩ := runs_of_enteredOwn (s.suspend currKctxt).suspended
    (isolated.waits_saved currKctxt alive) entered
  have recorded : (s.suspend currKctxt).suspended s.currPCB ≠ none := by
    rw [suspend_self]
    exact nofun
  have all : ∀ p ∈ s.live, p ≠ nextPcbp ∨ (s.suspend currKctxt).suspended p ≠ none →
      KeepsProcess (s.setKctxt s.currPCB (some currKctxt)) n p := by
    intro p living either
    by_cases same : p = nextPcbp
    · subst same
      exact keepsNext (either.resolve_left fun other => other rfl)
    · exact keeps p living same
  refine ⟨after, runs, switchesOut_of_keeps (all _ isolated.alive (Or.inr recorded)),
    fun p living other either => ?_⟩
  refine (keepsProcess_setKctxt _ other _).trans (all p living ?_)
  rw [suspend_of_ne _ _ other]
  exact either

theorem Isolated.leave (isolated : s.Isolated) {nextPcbp : Addr} (alive : nextPcbp ∈ s.live)
    (other : nextPcbp ≠ s.currPCB) (done : s.perform (.leave nextPcbp) = .ok t) :
    t.Isolated ∧ s.Preserves t (.leave nextPcbp) := by
  obtain ⟨kctxt, n, ran, rfl⟩ := resume_eq_ok done
  have remains : nextPcbp ∈ s.live.erase s.currPCB := Finset.mem_erase.mpr ⟨other, alive⟩
  have apart : KernelMemory.StacksApart { s.toKernelMemory with live := s.live.erase s.currPCB } :=
    stacksApart_of_eq isolated.apart (Finset.erase_subset _ _) fun _ => rfl
  have waits : ∀ p ∈ s.live.erase s.currPCB,
      Waits { s.toKernelMemory with live := s.live.erase s.currPCB } p (s.suspended p) := by
    intro p living
    obtain ⟨away, older⟩ := Finset.mem_erase.mp living
    exact (isolated.waits p older away).of_keeps ⟨rfl, rfl, fun _ => rfl⟩
  have entered := KernelMemory.enter_eq_ok
    (m := { s.toKernelMemory with live := s.live.erase s.currPCB })
    isolated.fits isolated.brk (isolated.injective alive) ran
  obtain ⟨after, keeps⟩ := isolated_of_entered s.suspended isolated.fits remains
    apart (fun p living _ => waits p living) entered.toEntered
  obtain ⟨runs, keepsNext⟩ := runs_of_enteredOwn s.suspended
    (waits nextPcbp remains) entered
  refine ⟨after, runs, fun p living away either => ?_⟩
  have kept : KeepsProcess { s.toKernelMemory with live := s.live.erase s.currPCB } n p := by
    by_cases same : p = nextPcbp
    · subst same
      exact keepsNext (either.resolve_left fun other => other rfl)
    · exact keeps p (Finset.mem_erase.mpr ⟨away, living⟩) same
  exact ⟨kept.kctxt, kept.stackPfns, kept.frames⟩

theorem Isolated.forkTo (isolated : s.Isolated) {currKctxt : KernelContext} {childPcbp : Addr}
    {childKctxt : Option KernelContext} (alive : childPcbp ∈ s.live)
    (other : childPcbp ≠ s.currPCB)
    (done : s.perform (.forkTo currKctxt childPcbp childKctxt) = .ok t) :
    t.Isolated ∧ s.Preserves t (.forkTo currKctxt childPcbp childKctxt) := by
  obtain ⟨kctxt, n, ran, rfl⟩ := resume_eq_ok done
  have given := fun p => KernelMemory.setKctxt_stackPfns s.toKernelMemory childPcbp p childKctxt
  have parent : KernelMemory.curr
      (s.setKctxt childPcbp childKctxt) = s.curr :=
    Function.update_of_ne other.symm _ _
  have mapped : KernelMemory.MapsStack
      (s.setKctxt childPcbp childKctxt) := fun i => by
    rw [parent]
    exact isolated.mapped i
  have injective := isolated.injective alive
  rw [← given childPcbp] at injective
  obtain ⟨entered, same, copies⟩ := KernelMemory.forkTo_eq_ok
    (m := s.setKctxt childPcbp childKctxt) isolated.fits isolated.brk mapped injective
    (fun i j => by
      rw [parent, given]
      exact isolated.disjoint isolated.alive alive other.symm i j) ran
  subst same
  have saved := fun p => (KernelMemory.setKctxt_stackPfns
    (s.setKctxt childPcbp childKctxt) s.currPCB p
    (some kctxt)).trans (given p)
  have keepsOther : ∀ p, p ≠ childPcbp → KeepsProcess
      (s.setKctxt s.currPCB (some kctxt))
      ((s.setKctxt childPcbp childKctxt).setKctxt s.currPCB (some kctxt)) p := by
    intro p away
    refine ⟨?_, (saved p).trans (KernelMemory.setKctxt_stackPfns _ _ _ _).symm, fun _ => rfl⟩
    rw [KernelMemory.setKctxt_kctxt, KernelMemory.setKctxt_kctxt,
      KernelMemory.setKctxt_kctxt, if_neg away]
  obtain ⟨after, keeps⟩ := isolated_of_entered
    (m := (s.setKctxt childPcbp childKctxt).setKctxt s.currPCB (some kctxt))
    (s.suspend kctxt).suspended isolated.fits alive
    (stacksApart_of_eq (n := (s.setKctxt childPcbp childKctxt).setKctxt s.currPCB (some kctxt))
      isolated.apart (Finset.Subset.refl _) saved)
    (fun p living away => (isolated.waits_saved kctxt living).of_keeps (keepsOther p away))
    entered
  refine ⟨after, runs_of_entered _ entered rfl fun i => ?_, ?_, fun p living running away => ?_⟩
  · refine (isolated.stackView i).trans (congrArg some ?_)
    have child : n.pages ((s.pcbs childPcbp).stackPfns i) = s.pages (s.curr.stackPfns i) := by
      rw [← given childPcbp, copies, parent]
      rfl
    exact child.symm.trans (congrArg (fun f => n.pages (f i)) (saved childPcbp).symm)
  · exact switchesOut_of_keeps ((keepsOther _ other.symm).trans
      (keeps _ isolated.alive other.symm))
  · exact (keepsProcess_setKctxt _ running _).trans ((keepsOther p away).trans
      (keeps p living away))

theorem Isolated.execTo (isolated : s.Isolated) (done : s.perform .execTo = .ok t) :
    t.Isolated ∧ s.Preserves t .execTo := by
  obtain ⟨kctxt, n, ran, rfl⟩ := resume_eq_ok done
  obtain ⟨pages, rfl, same, starter, frames⟩ :=
    KernelMemory.execTo_eq_ok isolated.mapped (isolated.injective isolated.alive) ran
  have pfns := fun p => KernelMemory.setKctxt_stackPfns s.toKernelMemory s.currPCB p
    (some s.starterKctxt)
  have keeps : ∀ p ∈ s.live, p ≠ s.currPCB → KeepsProcess s.toKernelMemory
      { s.setKctxt s.currPCB (some s.starterKctxt) with
        pages := pages } p := fun p living other =>
    ⟨(keepsProcess_setKctxt s.toKernelMemory other _).kctxt, pfns p, fun i =>
      frames _ fun j => isolated.disjoint isolated.alive living other.symm j i⟩
  have mapped : ∀ i : Fin kernelStackPages, s.entryOf (r0StackBase + i.val) =
      some ⟨true, protReadWrite, ((s.setKctxt s.currPCB (some s.starterKctxt)).pcbs s.currPCB).stackPfns i⟩ := fun i => by
    rw [pfns]
    exact isolated.mapped i
  refine ⟨⟨isolated.fits, isolated.brk, isolated.alive, mapped,
    stacksApart_of_eq isolated.apart (Finset.Subset.refl _) pfns,
    fun p living other => (isolated.waits p living other).of_keeps (keeps p living other)⟩,
    ⟨rfl, same, ?_⟩, keeps⟩
  funext i
  refine (KernelMemory.stackView_eq
    (m := { s.setKctxt s.currPCB (some s.starterKctxt) with pages := pages })
    (mapped i)).trans (congrArg some ?_)
  rw [pfns]
  exact starter i

/-- A write of pages that no waiting process uses keeps all waiting processes. -/
theorem Isolated.of_pages (isolated : s.Isolated) (pages : Nat → Page)
    (kept : ∀ pcbp ∈ s.live, pcbp ≠ s.currPCB →
      ∀ i, pages ((s.pcbs pcbp).stackPfns i) = s.pages ((s.pcbs pcbp).stackPfns i)) :
    Isolated { s with pages := pages } :=
  ⟨isolated.fits, isolated.brk, isolated.alive, isolated.mapped, isolated.apart,
    fun p living other =>
      (isolated.waits p living other).of_keeps ⟨rfl, rfl, kept p living other⟩⟩

/-- A move of the break of the kernel keeps all processes. -/
theorem Isolated.of_heapMoved (isolated : s.Isolated)
    (moved : KernelMemory.HeapMoved s.toKernelMemory n) :
    Isolated { s with toKernelMemory := n } := by
  have same := moved.processes
  have pcbs : ∀ p, n.pcbs p = s.pcbs p := congrFun same.pcbs
  refine ⟨isolated.fits, moved.brk, ?_, fun i => ?_, ?_, fun p living other => ?_⟩
  · change n.currPCB ∈ n.live
    rw [same.currPCB, same.live]
    exact isolated.alive
  · refine (moved.stack isolated.fits i).trans ((isolated.mapped i).trans ?_)
    rw [← same.curr]
  · exact stacksApart_of_eq isolated.apart same.live.le fun p => by rw [pcbs]
  · refine (isolated.waits p (same.live ▸ living) fun equal => other ?_).of_keeps ⟨?_, ?_, ?_⟩
    · exact equal.trans same.currPCB.symm
    · rw [pcbs]
    · rw [pcbs]
    · exact fun i => congrFun same.pages _

/-- A new process waits without a context. -/
theorem Isolated.create (isolated : s.Isolated) {pcb : Addr} {fields : MemoryPcb}
    (fresh : pcb ∉ s.live) (separate : ∀ i, s.freeOfStacks (fields.stackPfns i))
    (injective : ∀ i j, fields.stackPfns i = fields.stackPfns j → i = j) :
    Isolated { s with
      pcbs := Function.update s.pcbs pcb { fields with kctxt := none }
      live := insert pcb s.live
      suspended := Function.update s.suspended pcb none } := by
  have different : ∀ p ∈ s.live, p ≠ pcb := by
    rintro p living rfl
    exact fresh living
  have older : ∀ p ∈ s.live,
      Function.update s.pcbs pcb { fields with kctxt := none } p = s.pcbs p := fun p living =>
    Function.update_of_ne (different p living) _ _
  have own : Function.update s.pcbs pcb { fields with kctxt := none } pcb =
      { fields with kctxt := none } := Function.update_self _ _ _
  refine ⟨isolated.fits, isolated.brk, Finset.mem_insert_of_mem isolated.alive, fun i => ?_,
    fun p first q second i j same => ?_, fun p living other => ?_⟩
  · refine (isolated.mapped i).trans ?_
    rw [KernelMemory.curr, KernelMemory.curr]
    dsimp only
    rw [older _ isolated.alive]
  · dsimp only at same
    rcases Finset.mem_insert.mp first with newP | oldP
    · rcases Finset.mem_insert.mp second with newQ | oldQ
      · rw [newP, newQ, own] at same
        exact ⟨newP.trans newQ.symm, injective i j same⟩
      · rw [newP, own, older q oldQ] at same
        exact absurd same.symm (separate i q oldQ j)
    · rcases Finset.mem_insert.mp second with newQ | oldQ
      · rw [newQ, own, older p oldP] at same
        exact absurd same (separate j p oldP i)
      · rw [older p oldP, older q oldQ] at same
        exact isolated.apart p oldP q oldQ i j same
  · dsimp only
    rcases Finset.mem_insert.mp living with new | old
    · rw [new, Function.update_self]
      exact congrArg MemoryPcb.kctxt own
    · rw [Function.update_of_ne (different p old)]
      refine (isolated.waits p old other).of_keeps ⟨?_, ?_, fun _ => rfl⟩
      · exact congrArg MemoryPcb.kctxt (older p old)
      · exact congrArg MemoryPcb.stackPfns (older p old)

/-- Kernel code between two switches keeps all waiting processes. -/
theorem Isolated.perform {act : SwitchAct} (isolated : s.Isolated)
    (enabled : s.enabled ⟨act, s.fills, s.library⟩) (done : s.perform act = .ok t) :
    t.Isolated ∧ s.Preserves t act := by
  cases act with
  | create pcb fields =>
      cases done
      exact ⟨isolated.create enabled.1 enabled.2.1 enabled.2.2, trivial⟩
  | storeStack i page =>
      obtain ⟨n, wrote, done⟩ := Outcome.bind_eq_ok.mp done
      cases done
      obtain rfl := KernelMemory.writePage_eq_ok (isolated.mapped i) wrote
      refine ⟨isolated.of_pages _ fun p living other j => Function.update_of_ne ?_ _ _, trivial⟩
      exact isolated.disjoint living isolated.alive other j i
  | storeFrame pfn page =>
      cases done
      exact ⟨isolated.of_pages _ fun p living _ i =>
        Function.update_of_ne (enabled p living i) _ _, trivial⟩
  | allocate =>
      obtain ⟨⟨found, n⟩, allocated, done⟩ := Outcome.bind_eq_ok.mp done
      cases done
      exact ⟨isolated.of_heapMoved (KernelMemory.HeapMoved.malloc isolated.brk allocated), trivial⟩
  | getStarterKernelState currKctxt =>
      obtain ⟨kctxt, n, ran, rfl⟩ := resume_eq_ok done
      obtain ⟨k, saved, ran⟩ := Outcome.bind_eq_ok.mp ran
      cases ran
      obtain ⟨stack, rfl, -, -⟩ := KernelMemory.saveStarterStack_eq_ok isolated.mapped saved
      exact ⟨⟨isolated.fits, isolated.brk, isolated.alive, isolated.mapped, isolated.apart,
        fun p living other => (isolated.waits p living other).of_keeps ⟨rfl, rfl, fun _ => rfl⟩⟩,
        trivial⟩
  | switchBetween currKctxt nextPcbp => exact isolated.switchBetween enabled done
  | leave nextPcbp => exact isolated.leave enabled.1 enabled.2 done
  | forkTo currKctxt childPcbp childKctxt => exact isolated.forkTo enabled.1 enabled.2 done
  | execTo => exact isolated.execTo done

theorem Isolated.of_start (start : SwitchStart s) : s.Isolated where
  fits := start.fits
  brk := start.brk
  alive := start.alive
  mapped := start.mapped
  apart := start.apart
  waits pcbp living other := by
    rw [start.noSnapshot]
    exact start.fresh pcbp living other

end Switching

/-- Each step of a run keeps the contexts and the stacks of all processes apart. -/
theorem switchMachine_preserves {s t : Switching} {i : SwitchInput}
    (reachable : switchMachine.Reachable s) (step : switchMachine.step s i t) :
    s.Preserves t i.act := by
  have keeps : ∀ (s : Switching) (i : SwitchInput) (t : Switching), s.Isolated →
      switchMachine.step s i t → t.Isolated ∧ s.Preserves t i.act := by
    intro s i t isolated step
    have before : Switching.Isolated { s with fills := i.fills, library := i.library } :=
      ⟨isolated.fits, isolated.brk, isolated.alive, isolated.mapped, isolated.apart,
        fun p living other => (isolated.waits p living other).of_keeps ⟨rfl, rfl, fun _ => rfl⟩⟩
    obtain ⟨after, preserves⟩ := before.perform step.1 step.2
    have same : ∀ p, KeepsProcess { s with fills := i.fills, library := i.library }
        t.toKernelMemory p → KeepsProcess s.toKernelMemory t.toKernelMemory p :=
      fun p kept => ⟨kept.kctxt, kept.stackPfns, kept.frames⟩
    refine ⟨after, ?_⟩
    cases act : i.act with
    | create | storeStack | storeFrame | allocate | getStarterKernelState => trivial
    | switchBetween currKctxt nextPcbp =>
        rw [act] at preserves
        obtain ⟨runs, out, others⟩ := preserves
        exact ⟨runs, ⟨out.kctxt, out.stackPfns, out.frames⟩, fun p living other either =>
          same p (others p living other either)⟩
    | leave nextPcbp =>
        rw [act] at preserves
        obtain ⟨runs, others⟩ := preserves
        exact ⟨runs, fun p living other either => same p (others p living other either)⟩
    | forkTo currKctxt childPcbp childKctxt =>
        rw [act] at preserves
        obtain ⟨runs, out, others⟩ := preserves
        exact ⟨runs, ⟨out.kctxt, out.stackPfns, out.frames⟩, fun p living other away =>
          same p (others p living other away)⟩
    | execTo =>
        rw [act] at preserves
        obtain ⟨runs, others⟩ := preserves
        exact ⟨runs, fun p living other => same p (others p living other)⟩
  have first : ∀ s, switchMachine.start s → s.Isolated := fun _ => Switching.Isolated.of_start
  exact (keeps s i t (reachable.invariant first fun s i t isolated _ step =>
    (keeps s i t isolated step).1) step).2

end

section
attribute [local instance] smallHardware

/-- The idle process starts, and then `init` goes on with its context. -/
theorem smallMachine_preserves : ∃ s t,
    switchMachine.Reachable s ∧ switchMachine.step s ⟨.switchBetween [8] 1, [], []⟩ t ∧
      t.kctxt = [7] ∧ s.Preserves t (.switchBetween [8] 1) := by
  have ran : (KernelMemory.boot (smallMemoryBoot 32) >>= fun m =>
      Switching.handle ⟨m, [], fun _ => none⟩ ⟨.switchBetween [7] 0, [], []⟩ >>= fun s =>
        s.handle ⟨.switchBetween [8] 1, [], []⟩ >>= fun t => (pure (decide
          (m.currKernelBrk ≤ kernelStackBase ∧ m.currPCB ∈ m.live ∧ m.MapsStack ∧ m.StacksApart ∧
            (∀ p ∈ m.live, p ≠ m.currPCB → (m.pcbs p).kctxt = none) ∧ 0 ∈ m.live ∧ 1 ∈ s.live ∧
            t.kctxt = [7])) : Outcome Bool)) = .ok true := by
    decide +kernel
  obtain ⟨m, -, ran⟩ := Outcome.bind_eq_ok.mp ran
  obtain ⟨s, first, ran⟩ := Outcome.bind_eq_ok.mp ran
  obtain ⟨t, second, ran⟩ := Outcome.bind_eq_ok.mp ran
  obtain ⟨brk, alive, mapped, apart, fresh, idle, init, kctxt⟩ :=
    of_decide_eq_true (Except.ok.inj ran)
  have start : SwitchStart ⟨m, [], fun _ => none⟩ :=
    ⟨by decide, brk, alive, mapped, apart, fresh, rfl⟩
  have switched : switchMachine.step ⟨m, [], fun _ => none⟩ ⟨.switchBetween [7] 0, [], []⟩ s :=
    ⟨idle, first⟩
  have reachable : switchMachine.Reachable s := .step (.start start) trivial switched
  have step : switchMachine.step s ⟨.switchBetween [8] 1, [], []⟩ t := ⟨init, second⟩
  exact ⟨s, t, reachable, step, kctxt, switchMachine_preserves reachable step⟩

end

end Yallnix
