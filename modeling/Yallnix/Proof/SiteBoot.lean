import Yallnix.Proof.BootMemory
import Yallnix.Proof.ImageHeap
import Yallnix.Proof.SiteLoops
import Yallnix.Proof.TlbCoherence

namespace Yallnix

section
variable [Hardware]

namespace KernelMemory

variable {boot : MemoryBoot} {m n k : KernelMemory}

/-- After the boot the idle process and `init` live, each with a table of its own. -/
structure Booted (boot : MemoryBoot) (m : KernelMemory) : Prop where
  order : FreeFirst m.frameList.frames
  idlePCB : m.idlePCB = boot.idle.pcb
  live : m.live = {boot.initPcbp, boot.idle.pcb}
  idleTable : (m.pcbs boot.idle.pcb).r1PageTable = boot.idle.r1PageTable
  initTable : (m.pcbs boot.initPcbp).r1PageTable = boot.initR1PageTable

/-- The copy of the running stack changes no process. -/
theorem LeavesSites.getStarterKernelState {currKctxt kctxt : KernelContext}
    (done : m.getStarterKernelState currKctxt = .ok (kctxt, n)) : LeavesSites m n := by
  have saves : ∀ {stack : List (Fin kernelStackPages)} {k l : KernelMemory},
      k.saveStarterStack stack = .ok l → LeavesSites k l := by
    intro stack k l saved
    induction stack generalizing k with
    | nil =>
        cases saved
        exact .refl _
    | cons i rest ih =>
        obtain ⟨page, -, saved⟩ := Outcome.bind_eq_ok.mp saved
        have stored : LeavesSites k { k with
            starterKernelStack := Function.update k.starterKernelStack i page } :=
          ⟨⟨rfl, rfl, rfl, fun _ _ => rfl, fun _ _ => rfl, fun _ _ => rfl, fun _ _ _ _ => rfl, id⟩,
            rfl⟩
        exact stored.trans (ih saved)
  obtain ⟨k, saved, done⟩ := Outcome.bind_eq_ok.mp done
  cases done
  exact (saves saved).trans ⟨⟨rfl, rfl, rfl, fun _ _ => rfl, fun _ _ => rfl, fun _ _ => rfl,
    fun _ _ _ _ => rfl, id⟩, rfl⟩

end KernelMemory

end

end Yallnix
