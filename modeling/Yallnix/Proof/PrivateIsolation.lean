import Yallnix.Proof.PrivateRefinement

namespace Yallnix

section
variable [Hardware]

namespace PrivateMemory

variable {s t : PrivateMemory} {act : MemoryAct} {pcbp : Addr} {p : PrivateProcess}

/-- An entered process is there, and the others stay. -/
theorem enter_processes {next : Addr} {q : PrivateProcess} (other : pcbp ≠ next) :
    (s.enter next q).processes pcbp = s.processes pcbp :=
  Function.update_of_ne other _ _

theorem set_processes {next : Addr} {q : PrivateProcess} (other : pcbp ≠ next) :
    (s.set next q).processes pcbp = s.processes pcbp :=
  Function.update_of_ne other _ _

/-- A process that waits and is not entered stays as it is and waits. -/
theorem Step.waits (step : s.Step act t) (waits : s.running ≠ pcbp)
    (found : s.processes pcbp = some p) (other : act.enters ≠ some pcbp) :
    t.running ≠ pcbp ∧ t.processes pcbp = some p := by
  cases step with
  | forkFails => exact ⟨waits, found⟩
  | @fork memory _ _ _ _ fresh =>
      have child : pcbp ≠ memory.pcb := fun same => other (congrArg some same.symm)
      exact ⟨child.symm, ((set_processes child).trans (set_processes waits.symm)).trans found⟩
  | exec => exact ⟨waits, (set_processes waits.symm).trans found⟩
  | brk => exact ⟨waits, (set_processes waits.symm).trans found⟩
  | memoryTrap => exact ⟨waits, (set_processes waits.symm).trans found⟩
  | exit => exact ⟨waits, found⟩
  | userStore => exact ⟨waits, (set_processes waits.symm).trans found⟩
  | ttyReceive => exact ⟨waits, found⟩
  | allocate => exact ⟨waits, found⟩
  | @switch _ nextPCB =>
      have next : pcbp ≠ nextPCB := fun same => other (congrArg some same.symm)
      exact ⟨next.symm, ((enter_processes next).trans (set_processes waits.symm)).trans found⟩
  | @kernelExit _ nextPCB =>
      have next : pcbp ≠ nextPCB := fun same => other (congrArg some same.symm)
      exact ⟨next.symm, ((enter_processes next).trans (Function.update_of_ne waits.symm _ _)).trans
        found⟩
  | returnToUser => exact ⟨waits, found⟩

/-- A process has this break and this region 1. -/
def Shows (brk : Nat) (region1 : Nat → Option UserPage) (p : PrivateProcess) : Prop :=
  p.brk = brk ∧ p.region1 = region1

variable {brk : Nat} {region1 : Nat → Option UserPage}

theorem Shows.resume (shows : Shows brk region1 p) : Shows brk region1 (s.resume p) := by
  unfold PrivateMemory.resume
  split
  · exact shows
  · exact shows

/-- A process keeps its break and its region 1 when its own inputs spare them. -/
theorem Step.shows (step : s.Step act t) (spares : s.running = pcbp → act.sparesPages = true)
    (found : s.processes pcbp = some p) (shows : Shows brk region1 p) :
    ∃ q, t.processes pcbp = some q ∧ Shows brk region1 q := by
  have away : act.sparesPages = false → pcbp ≠ s.running := by
    rintro changes rfl
    rw [spares rfl] at changes
    cases changes
  have saves : ∀ {p' : PrivateProcess} (saved : Option KernelContext),
      s.processes s.running = some p' → ∃ q, (s.set s.running { p' with kctxt := saved }).processes
        pcbp = some q ∧ Shows brk region1 q := by
    intro p' saved runs
    by_cases same : pcbp = s.running
    · subst same
      cases Option.some.inj (found.symm.trans runs)
      exact ⟨_, Function.update_self _ _ _, shows⟩
    · exact ⟨p, (set_processes same).trans found, shows⟩
  cases step with
  | forkFails => exact ⟨p, found, shows⟩
  | @fork memory currKctxt p' _ runs fresh =>
      have child : pcbp ≠ memory.pcb := by
        rintro rfl
        rw [found] at fresh
        cases fresh
      obtain ⟨q, same, after⟩ := saves (some currKctxt) runs
      exact ⟨q, (set_processes child).trans same, after⟩
  | exec => exact ⟨p, (set_processes (away rfl)).trans found, shows⟩
  | brk => exact ⟨p, (set_processes (away rfl)).trans found, shows⟩
  | memoryTrap => exact ⟨p, (set_processes (away rfl)).trans found, shows⟩
  | exit => exact ⟨p, found, shows⟩
  | userStore => exact ⟨p, (set_processes (away rfl)).trans found, shows⟩
  | ttyReceive => exact ⟨p, found, shows⟩
  | allocate => exact ⟨p, found, shows⟩
  | @switch currKctxt nextPCB p' q' _ runs waits =>
      obtain ⟨q, same, after⟩ := saves (some currKctxt) runs
      by_cases next : pcbp = nextPCB
      · subst next
        cases Option.some.inj (same.symm.trans waits)
        exact ⟨_, Function.update_self _ _ _, after.resume⟩
      · exact ⟨q, (enter_processes next).trans same, after⟩
  | @kernelExit _ nextPCB q' _ waits =>
      have removed : (s.remove s.running).processes pcbp = some p :=
        (Function.update_of_ne (away rfl) _ _).trans found
      by_cases next : pcbp = nextPCB
      · subst next
        cases Option.some.inj (removed.symm.trans waits)
        exact ⟨_, Function.update_self _ _ _, shows.resume⟩
      · exact ⟨p, (enter_processes next).trans removed, shows⟩
  | returnToUser => exact ⟨p, found, shows⟩

/-- A store writes the page of the running process. -/
theorem Step.stores {vpn : Nat} {page : Page} (step : s.Step (.userStore vpn page) t) :
    ∃ (p : PrivateProcess) (old : UserPage), s.processes s.running = some p ∧
      old.prot.write = true ∧
      t.processes s.running = some { p with
        region1 :=
          Function.update p.region1 (vpn - maxPtLen) (some { old with bytes := page }) } := by
  cases step with
  | userStore user runs stores =>
      cases stores with
      | store mapped writable => exact ⟨_, _, runs, writable, Function.update_self _ _ _⟩

end PrivateMemory

open KernelMemory

end

section
attribute [local instance] smallHardware

open KernelMemory

end

end Yallnix
