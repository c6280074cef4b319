import Yallnix.Proof.AccountBoot
import Yallnix.Proof.AccountFork

namespace Yallnix

section
variable [Hardware]

namespace KernelMemory

variable {m n k : KernelMemory} {procs : Set Addr} {slots : Set (Addr × Fin kernelStackPages)}
  {p : Addr}

namespace Accounts

/-- `delete_process` gives all frames of the process back. -/
theorem deleteProcess {freedTable : PageTable} (sole : Sole procs slots m)
    (accounts : Accounts procs slots m) (quiet : m.Quiet) (member : p ∈ procs)
    (done : m.deleteProcess p freedTable = .ok n) :
    Accounts (procs \ {p}) {slot ∈ slots | slot.1 ≠ p} n := by
  obtain ⟨k, freed, done⟩ := Outcome.bind_eq_ok.mp done
  obtain ⟨l, freedTwice, done⟩ := Outcome.bind_eq_ok.mp done
  have first := LeavesSites.free quiet freed
  have before := sole.of_leaves first
  have begun := accounts.of_leaves sole.tabled first
  have ended := before.freeTable member freedTable
  have second := LeavesSites.free (ended.quiet (first.quiet quiet)) freedTwice
  have spares : Spares ∅ {(k.pcbs p).r1PageTable} k l := ended.toSpares.trans second.spares
  let pfns := (k.tables (k.pcbs p).r1PageTable |>.filter Pte.valid).map Pte.pfn
  let stack := (List.finRange kernelStackPages).map (k.pcbs p).stackPfns
  have list : l.frameList = pfns.foldl freeFrame k.frameList :=
    second.frameList.trans (freeValidFrames_eq _ _)
  let frames := stack.foldl freeFrame l.frameList
  have numbers : frames.numbers = k.frameList.numbers := by
    simp only [frames, foldl_freeFrame_numbers, list]
  have free : ∀ pfn, pfn ∈ frames.freeNumbers ↔ pfn ∈ k.frameList.freeNumbers ∨
      (pfn ∈ pfns ∨ pfn ∈ stack) ∧ pfn ∈ k.frameList.numbers := by
    intro pfn
    simp only [frames, mem_foldl_freeFrame, list, foldl_freeFrame_numbers]
    tauto
  have left : Accounts (procs \ {p}) {slot ∈ slots | slot.1 ≠ p} { l with frameList := frames } := by
    rw [Accounts, show ({ l with frameList := frames } : KernelMemory).frameList.numbers = _ from
      numbers]
    refine Accounted.leave begun (fun a _ inside => ?_)
      (fun pfn listed => (free pfn).mpr (Or.inl listed)) fun a inside outside pfn known held => ?_
    · exact spares.references (fun _ _ => Set.notMem_empty _) (fun _ _ => Set.notMem_empty _)
        (fun q other => not_or.mpr ⟨before.kernel q other.1,
          fun same => other.2 (before.apart q other.1 p member same)⟩)
        (fun same => before.kernel p member same.symm) inside
    · refine (free pfn).mpr (Or.inr ⟨?_, known⟩)
      cases a with
      | page q i =>
          have same : q = p := by_contra fun other => outside ⟨inside, other⟩
          subst same
          cases found : (k.tables (k.pcbs q).r1PageTable)[i]? with
          | none =>
              rw [references, PageTable.reference, found] at held
              cases held
          | some pte =>
              rw [references, PageTable.reference_of_getElem? found] at held
              split at held
              · rename_i valid
                exact Or.inl (mem_validFrames.mpr ⟨pte, List.mem_of_getElem? found, valid,
                  Option.some.inj held⟩)
              · cases held
      | slot q i =>
          have same : q = p := by_contra fun other => outside ⟨inside, other⟩
          subst same
          exact Or.inr (List.mem_map.mpr ⟨i, List.mem_finRange i, Option.some.inj held⟩)
      | kernelPage i => exact absurd trivial outside
  have done : { l with frameList := frames }.free = .ok n := by
    simp only [frames, stack, List.foldl_map]
    exact done
  have tabled := (ended.sole.of_leaves second).tabled
  exact left.of_leaves ⟨tabled.kernel, tabled.apart⟩
    (.free (second.quiet (ended.quiet (first.quiet quiet))) done)

/-- The set of live processes is no site. -/
theorem setLive (accounts : Accounts procs slots m) (live : Finset Addr) :
    Accounts procs slots { m with live := live } :=
  Accounted.mono accounts subset_rfl (fun _ _ => rfl) fun _ => id

end Accounts

namespace AllAccounted

theorem leaves (all : AllAccounted m) (tabled : Tabled ↑m.live m) (leaves : LeavesSites m n) :
    AllAccounted n := by
  rw [AllAccounted, leaves.live, liveSlots_congr leaves.live]
  exact Accounts.of_leaves all tabled leaves

/-- Kernel code for one process starts and ends no process. -/
theorem works (accounts : Accounts ↑m.live m.liveSlots n) (live : n.live = m.live) :
    AllAccounted n := by
  rw [AllAccounted, live, liveSlots_congr live]
  exact accounts

/-- An exit loses no frame. -/
theorem exitProcess {freedTable : PageTable} {nextPCB : Addr} (sole : Sole ↑m.live m.liveSlots m)
    (all : AllAccounted m) (quiet : m.Quiet) (member : m.currPCB ∈ m.live)
    (done : m.exitProcess freedTable nextPCB = .ok n) : AllAccounted n := by
  obtain ⟨⟨_, k⟩, allocated, done⟩ := Outcome.bind_eq_ok.mp done
  obtain ⟨l, removed, done⟩ := Outcome.bind_eq_ok.mp done
  obtain ⟨⟨_, last⟩, switched, done⟩ := Outcome.bind_eq_ok.mp done
  cases done
  have first := LeavesSites.malloc quiet allocated
  have before := sole.of_leaves first
  have same : k.currPCB = m.currPCB := (CallsFrames.steadyHeap.malloc allocated).currPCB
  have after : l.currPCB = k.currPCB := (CallsFrames.steadyHeap.deleteProcess trivial removed).currPCB
  have live : l.live = m.live :=
    (CallsFrames.steadyHeap.deleteProcess trivial removed).live.trans first.live
  have inside : k.currPCB ∈ (↑m.live : Set Addr) := same ▸ member
  have departs := before.deleteProcess (first.quiet quiet) inside
    (fun i => show k.currPCB ∈ m.live from inside) removed
  have left := (Accounts.of_leaves all sole.tabled first).deleteProcess before (first.quiet quiet)
    inside removed
  have rest : (↑(l.live.erase l.currPCB) : Set Addr) = ↑m.live \ {k.currPCB} := by
    rw [after, live, Finset.coe_erase]
  have gone : AllAccounted { l with live := l.live.erase l.currPCB } := by
    refine Accounted.mono (Accounts.setLive left _) (sites_mono rest.ge ?_) (fun _ _ => rfl)
      fun _ => id
    rintro slot ⟨alive, other⟩
    exact rest.ge ⟨alive, other⟩
  have tabled := departs.sole.tabled
  exact gone.leaves ⟨fun q alive => tabled.kernel q (rest.le alive),
    fun q alive r also => tabled.apart q (rest.le alive) r (rest.le also)⟩
    (.switchBetween (departs.quiet (first.quiet quiet)) switched)

/-- A fork loses no frame. -/
theorem kernelFork {memory : ProcessMemory} {currKctxt : KernelContext}
    (sole : Sole ↑m.live m.liveSlots m) (all : AllAccounted m) (quiet : m.Quiet)
    (unclaimed : Unclaimed memory ↑m.live m.liveSlots m)
    (done : m.kernelFork memory currKctxt = .ok n) (fed : n.frameList.starved = false) :
    AllAccounted n := by
  rcases Accounts.kernelFork sole all quiet unclaimed done fed with
    leaves | ⟨l, kept, tabled, live, leaves⟩
  · exact all.leaves sole.tabled leaves
  · have joined : (↑(insert memory.pcb l.live) : Set Addr) = insert memory.pcb ↑m.live := by
      rw [live, Finset.coe_insert]
    have born : AllAccounted { l with live := insert memory.pcb l.live } := by
      refine Accounted.mono (kept.setLive _) (sites_mono joined.ge ?_) (fun _ _ => rfl) fun _ => id
      rintro slot (alive | same)
      · exact joined.ge (Or.inr alive)
      · exact joined.ge (Or.inl same)
    exact born.leaves ⟨fun q alive => tabled.kernel q (joined.le alive),
      fun q alive r also => tabled.apart q (joined.le alive) r (joined.le also)⟩ leaves

/-- Each input loses no frame while a free frame is found and no break moves over a mapped page. -/
theorem perform {act : MemoryAct} (owned : Owned m) (all : AllAccounted m)
    (alive : m.currPCB ∈ m.live) (quiet : m.Quiet)
    (contiguous : ∀ request, act = .exec request → ContiguousFile request)
    (clear : ∀ addr, act = .brk addr → m.BreakClear addr)
    (enabled : m.enabled ⟨act, m.fills, m.library⟩) (done : m.perform act = .ok n)
    (fed : n.frameList.starved = false) : AllAccounted n := by
  have tabled := owned.sole.tabled
  have entered : AllAccounted { m with mode := .kernel } := all.leaves tabled (.mode m .kernel)
  have begun : Owned { m with mode := .kernel } := owned.leaves (.mode m .kernel)
  cases act with
  | fork memory currKctxt =>
      obtain ⟨-, -, unused, free⟩ := enabled
      exact entered.kernelFork begun.sole quiet ⟨unused, fun slot inside same => unused (same ▸ inside),
        free.1, fun q alive => (free.2.2 q alive).symm⟩ done fed
  | exec request =>
      have calls : CallsFrames { m with mode := .kernel } n := CallsFrames.steadyHeap.kernelExec done
      exact works (Accounts.kernelExec entered begun.sole.tabled quiet alive (contiguous request rfl)
        done fed) calls.live
  | brk addr =>
      obtain ⟨⟨code, k⟩, moved, done⟩ := Outcome.bind_eq_ok.mp done
      cases done
      have calls : CallsFrames { m with mode := .kernel } n := CallsFrames.steadyHeap.kernelBrk moved
      exact works (Accounts.kernelBrk entered begun.sole.tabled alive (clear addr rfl) moved fed)
        calls.live
  | memoryTrap addr =>
      have calls : CallsFrames { m with mode := .kernel } n := CallsFrames.steadyHeap.handleTrapMemory done
      exact works (Accounts.handleTrapMemory entered begun.sole.tabled alive done fed) calls.live
  | exit =>
      cases done
      exact all.leaves tabled (.mode m _)
  | userStore vpn page =>
      have ticked : LeavesSites m { m with toMmu := m.toMmu.tick } := by
        obtain ⟨_, _, eq⟩ := m.toMmu.tick_eq
        refine .mmu _ ?_ ?_
        all_goals rw [eq]
      exact all.leaves tabled (ticked.trans (.writePage done))
  | ttyReceive page => exact entered.leaves begun.sole.tabled (.writePage done)
  | allocate => exact entered.leaves begun.sole.tabled (.free quiet done)
  | switch currKctxt nextPCB =>
      obtain ⟨⟨_, l⟩, switched, done⟩ := Outcome.bind_eq_ok.mp done
      cases done
      exact entered.leaves begun.sole.tabled (.switchBetween quiet switched)
  | kernelExit freedTable nextPCB =>
      obtain ⟨l, exited, done⟩ := Outcome.bind_eq_ok.mp done
      cases done
      have after : AllAccounted l := by
        have kept := exited
        unfold KernelMemory.kernelExit at exited
        split at exited
        · cases exited
        · exact all.exitProcess owned.sole quiet alive exited
      exact after.leaves (owned.kernelExit quiet alive exited).sole.tabled (.mode l _)
  | returnToUser =>
      cases done
      exact all.leaves tabled (.mode m _)

end AllAccounted

end KernelMemory

open KernelMemory

namespace KernelMemory

variable {m : KernelMemory}

end KernelMemory

end

section
attribute [local instance] smallHardware

open KernelMemory

end

end Yallnix
