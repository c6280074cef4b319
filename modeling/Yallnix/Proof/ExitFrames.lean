import Yallnix.Proof.ImageFrames
import Yallnix.Proof.PcbFrame
import Yallnix.Proof.ReadyQueue

namespace Yallnix

section
variable [Hardware]

/-- The frames of a process are those of its valid pages and those of its kernel stack. -/
def PCB.holds (pcb : PCB) (pfn : Nat) : Prop :=
  (∃ pte ∈ pcb.r1PageTable, pte.valid = true ∧ pte.pfn = pfn) ∨ ∃ i, pcb.stackPfns i = pfn

end

end Yallnix
