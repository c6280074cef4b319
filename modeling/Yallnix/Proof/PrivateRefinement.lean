import Yallnix.Proof.PrivateBoot

namespace Yallnix

section
variable [Hardware]

open PrivateMemory (Step)

/-- `KernelExec` depends on the starter state only. -/
theorem PrivateProcess.Executes.congr {s t : PrivateMemory} {request : ImageRequest}
    {p q : PrivateProcess} {mode : Mode} (executes : p.Executes s request q mode)
    (kctxt : s.starterKctxt = t.starterKctxt)
    (stack : s.starterKernelStack = t.starterKernelStack) : p.Executes t request q mode := by
  cases executes with
  | refuses => exact .refuses
  | ends brk region1 => exact .ends brk region1
  | loads file =>
      rw [kctxt, stack]
      exact .loads file

/-- A process that stays as it is changes nothing. -/
theorem PrivateMemory.set_self {s : PrivateMemory} {pcbp : Addr} {p : PrivateProcess}
    (found : s.processes pcbp = some p) : s.set pcbp p = s := by
  rw [PrivateMemory.set, ← found, Function.update_eq_self]

namespace KernelMemory

variable {m n k : KernelMemory}

/-- The receive trap of a terminal writes to a page of the kernel. -/
theorem Sole.ttyReceive_serves {page : Page} (sole : m.LiveSole) (member : m.currPCB ∈ m.live)
    (settled : Settled m) (done : m.writePage (tempIndex - 1) page = .ok n) :
    Serves m n ∧ n.mode = m.mode ∧ n.privateProcess m.currPCB = m.privateProcess m.currPCB := by
  have leaves := LeavesSites.writePage done
  have mode := writePage_mode done
  have fits := stackPages_le settled.room
  have room := settled.room
  unfold writePage at done
  split at done
  · cases done
  rename_i pte found
  split at done
  · rename_i writable
    cases done
    obtain ⟨valid, -⟩ := Bool.and_eq_true_iff.mp writable
    have low : tempIndex - 1 < maxPtLen := by
      unfold tempIndex r0StackBase at *
      omega
    rw [Mmu.entryOf, if_pos low] at found
    have held : m.references (.kernelPage (tempIndex - 1)) = some pte.pfn := by
      rw [references, if_pos (by unfold tempIndex; omega)]
      exact (PageTable.reference_of_getElem? found).trans (if_pos valid)
    have kept : ∀ a ∈ m.liveSites, (∀ i, a ≠ .kernelPage i) → ∀ pfn, m.references a = some pfn →
        Function.update m.pages pte.pfn page pfn = m.pages pfn := by
      intro a inside other pfn also
      refine Function.update_of_ne (fun same => other (tempIndex - 1) ?_) _ _
      subst same
      exact sole.exclusive.alone a inside (.kernelPage _) trivial _ also held
    have processes : ∀ q ∈ m.live, { m with
        pages := Function.update m.pages pte.pfn page }.privateProcess q = m.privateProcess q :=
      fun q alive => privateProcess_congr leaves.toSpares (Set.notMem_empty q)
        (Set.notMem_empty _) (sole.kernel q alive) rfl
        (fun i => kept (.page q i) alive fun _ => by simp)
        fun i => kept (.slot q i) alive (fun _ => by simp) _ rfl
    exact ⟨⟨rfl, rfl, rfl, rfl, ⟨room, settled.brk, settled.mapped⟩,
      fun q alive _ => processes q alive⟩, mode, processes _ member⟩
  · cases done

/-- Each input is a step of the private memory. -/
theorem Owned.perform_private {act : MemoryAct} (owned : Owned m) (running : Running m)
    (settled : Settled m) (quiet : m.Quiet)
    (contiguous : ∀ request, act = .exec request → ContiguousFile request)
    (enabled : m.enabled ⟨act, m.fills, m.library⟩) (done : m.perform act = .ok n)
    (fed : n.frameList.starved = false) :
    Settled n ∧ m.privateMemory.Step act n.privateMemory := by
  have member : m.currPCB ∈ m.live := running.running
  have runs : m.privateMemory.processes m.privateMemory.running =
      some (m.privateProcess m.currPCB) := processes_of_mem member
  have entered : Owned { m with mode := .kernel } := owned.leaves (.mode m .kernel)
  have ready : Settled { m with mode := .kernel } := ⟨settled.room, settled.brk, settled.mapped⟩
  have register : m.regPtbr1 = (m.pcbs m.currPCB).r1PageTable := running.region1
  cases act with
  | fork memory currKctxt =>
      obtain ⟨user, active, unused, free⟩ := enabled
      have unclaimed : Unclaimed memory ↑m.live m.liveSlots { m with mode := .kernel } :=
        ⟨unused, fun slot inside same => unused (same ▸ inside), free.1,
          fun q alive => (free.2.2 q alive).symm⟩
      rcases entered.sole.kernelFork_births quiet member (stackPages_le settled.room) register
        unclaimed done fed with ⟨library, rfl⟩ | ⟨l, kctxt, born, forked⟩
      · exact ⟨⟨settled.room, settled.brk, settled.mapped⟩, .forkFails user⟩
      · obtain ⟨after, mode, view⟩ := born.forkTo_enters unused member ready forked
        rw [privateMemory_of_mode mode, view]
        exact ⟨after, .fork user runs (processes_of_notMem unused)⟩
  | exec request =>
      obtain ⟨user, -⟩ := enabled
      obtain ⟨serves, executes⟩ := entered.sole.kernelExec_serves quiet rfl member ready register
        (contiguous request rfl) done fed
      rw [serves.privateMemory member]
      exact ⟨serves.settled, .exec user runs (executes.congr rfl rfl)⟩
  | brk addr =>
      obtain ⟨user, active⟩ := enabled
      obtain ⟨⟨code, k⟩, moved, done⟩ := Outcome.bind_eq_ok.mp done
      cases done
      obtain ⟨tends, moves⟩ :=
        entered.sole.kernelBrk_tends member (entered.heap _ member active) moved fed
      have serves := tends.serves member ready
      rw [serves.privateMemory member, tends.stays.mode]
      exact ⟨serves.settled, .brk user runs moves⟩
  | memoryTrap addr =>
      obtain ⟨user, active⟩ := enabled
      obtain ⟨serves, grows⟩ := entered.sole.handleTrapMemory_serves rfl member ready
        (entered.heap _ member active) done fed
      rw [serves.privateMemory member]
      exact ⟨serves.settled, .memoryTrap user runs grows⟩
  | exit =>
      obtain ⟨user, -⟩ := enabled
      cases done
      exact ⟨⟨settled.room, settled.brk, settled.mapped⟩, .exit user⟩
  | userStore vpn page =>
      obtain ⟨user, high⟩ := enabled
      obtain ⟨tlb, fills, eq⟩ := m.toMmu.tick_eq
      have done : { m with toMmu := m.toMmu.tick }.writePage vpn page = .ok n := done
      rw [eq] at done
      let k := { m with toMmu := { m.toMmu with tlb := tlb, fills := fills } }
      have ticked : Owned k := owned.leaves (.mmu _ rfl rfl)
      obtain ⟨serves, mode, stores⟩ := ticked.sole.writeUser_serves member
        ⟨settled.room, settled.brk, settled.mapped⟩ register high done
      rw [serves.privateMemory member, mode]
      exact ⟨serves.settled, .userStore user runs stores⟩
  | ttyReceive page =>
      obtain ⟨serves, mode, same⟩ := entered.sole.ttyReceive_serves member ready done
      rw [serves.privateMemory member, mode, same]
      rw [PrivateMemory.set_self (processes_of_mem (m := { m with mode := .kernel }) member)]
      exact ⟨serves.settled, .ttyReceive enabled⟩
  | allocate =>
      obtain ⟨library, rfl⟩ := free_eq_ok (m := { m with mode := .kernel }) quiet done
      exact ⟨⟨settled.room, settled.brk, settled.mapped⟩, .allocate enabled⟩
  | switch currKctxt nextPCB =>
      obtain ⟨goesOn, alive⟩ := enabled
      obtain ⟨⟨kctxt, l⟩, switched, done⟩ := Outcome.bind_eq_ok.mp done
      cases done
      obtain ⟨after, q, waits, view⟩ := entered.sole.switchBetween_switches quiet ready member alive
        rfl switched
      rw [view]
      exact ⟨after, .switch goesOn runs waits⟩
  | kernelExit freedTable nextPCB =>
      obtain ⟨exits, alive, other⟩ := enabled
      obtain ⟨l, exited, done⟩ := Outcome.bind_eq_ok.mp done
      cases done
      obtain ⟨after, view⟩ := owned.kernelExit_removes quiet member settled alive other exited
      rw [view]
      refine ⟨⟨after.room, after.brk, after.mapped⟩, .kernelExit exits ?_⟩
      exact (Function.update_of_ne other _ _).trans (processes_of_mem alive)
  | returnToUser =>
      cases done
      exact ⟨⟨settled.room, settled.brk, settled.mapped⟩, .returnToUser enabled⟩

/-- The processes of a memory are separate, and one of them runs on its own stack. -/
structure Separate (m : KernelMemory) : Prop where
  running : m.Running
  owned : m.Owned
  settled : m.Settled

/-- Each input keeps the processes separate and is a step of the private memory. -/
theorem Separate.step {first : KernelMemory → Prop} {i : MemoryInput} (separate : m.Separate)
    (finds : FindsFrames m i) (step : (memoryMachine first).step m i n) :
    n.Separate ∧ m.privateMemory.Step i.act n.privateMemory := by
  obtain ⟨running, owned, settled⟩ := separate
  have stored : Coheres true m { m with fills := i.fills, library := i.library } :=
    ⟨rfl, rfl, rfl, rfl, rfl, fun _ => rfl, fun _ _ _ _ coherent => coherent⟩
  have leaves : LeavesSites m { m with fills := i.fills, library := i.library } :=
    ⟨⟨rfl, rfl, rfl, fun _ _ => rfl, fun _ _ => rfl, fun _ _ => rfl, fun _ _ _ _ => rfl,
      fun _ => finds.still⟩, rfl⟩
  have fed := finds.fed n step.2
  obtain ⟨after, view⟩ := (owned.leaves leaves).perform_private (running.of_coheres stored)
    ⟨settled.room, settled.brk, settled.mapped⟩ finds.still finds.contiguous step.1 step.2 fed
  exact ⟨⟨running.step step, (owned.leaves leaves).perform running.running finds.still
    finds.contiguous step.1 step.2 fed, after⟩, view⟩

end KernelMemory

open KernelMemory

end

end Yallnix
