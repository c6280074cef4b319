import Yallnix.Proof.PrivateFork

namespace Yallnix

section
variable [Hardware]

namespace KernelMemory

variable {boot : MemoryBoot} {m n k : KernelMemory} {p : Addr}

/-- The boot keeps the break below the stack, the entries of the stack and the frames of a PCB. -/
structure Climbs (p : Addr) (m n : KernelMemory) : Prop where
  brk : n.currKernelBrk ≤ kernelStackBase
  regPtbr0 : n.regPtbr0 = m.regPtbr0
  stack : ∀ i : Fin kernelStackPages, (n.tables m.regPtbr0)[r0StackBase + i.val]? =
    (m.tables m.regPtbr0)[r0StackBase + i.val]?
  currPCB : n.currPCB = m.currPCB
  tables : (n.pcbs p).r1PageTable = (m.pcbs p).r1PageTable
  stackPfns : (n.pcbs p).stackPfns = (m.pcbs p).stackPfns

namespace Climbs

theorem refl (below : m.currKernelBrk ≤ kernelStackBase) : Climbs p m m :=
  ⟨below, rfl, fun _ => rfl, rfl, rfl, rfl⟩

theorem trans (first : Climbs p m k) (second : Climbs p k n) : Climbs p m n where
  brk := second.brk
  regPtbr0 := second.regPtbr0.trans first.regPtbr0
  stack i := by
    have later := second.stack i
    rw [first.regPtbr0] at later
    exact later.trans (first.stack i)
  currPCB := second.currPCB.trans first.currPCB
  tables := second.tables.trans first.tables
  stackPfns := second.stackPfns.trans first.stackPfns

/-- The heap of the kernel moves below the stack. -/
theorem malloc {found : Bool} (below : m.currKernelBrk ≤ kernelStackBase)
    (done : m.malloc = .ok (found, n)) : Climbs p m n := by
  have moved := HeapMoved.malloc below done
  have pcbs : n.pcbs = m.pcbs := moved.processes.pcbs
  exact ⟨moved.brk, moved.regPtbr0, fun i => moved.entries _ _ fun _ => Nat.le_add_right _ _,
    moved.processes.currPCB, by rw [pcbs], by rw [pcbs]⟩

theorem of_writes {table : Addr} {low high : Int} (below : m.currKernelBrk ≤ kernelStackBase)
    (writes : Writes table low high m n) (away : table ≠ m.regPtbr0) : Climbs p m n := by
  have regPtbr0 := writes.regPtbr0
  have entries := writes.entries
  obtain ⟨mmu, frames, rfl⟩ := writes.rest
  exact ⟨below, regPtbr0, fun i => entries _ _ fun same => absurd same.symm away, rfl, rfl, rfl⟩

theorem updatePcb {f : MemoryPcb → MemoryPcb} (below : m.currKernelBrk ≤ kernelStackBase)
    (table : (f (m.pcbs p)).r1PageTable = (m.pcbs p).r1PageTable)
    (stack : (f (m.pcbs p)).stackPfns = (m.pcbs p).stackPfns) :
    Climbs p m (m.updatePcb p f) := by
  refine ⟨below, rfl, fun _ => rfl, rfl, ?_, ?_⟩
  · simpa only [KernelMemory.updatePcb, Function.update_self] using table
  · simpa only [KernelMemory.updatePcb, Function.update_self] using stack

theorem pages (below : m.currKernelBrk ≤ kernelStackBase) (pages : Nat → Page) :
    Climbs p m { m with pages := pages } :=
  ⟨below, rfl, fun _ => rfl, rfl, rfl, rfl⟩

theorem fillPages {image : Nat → Page} {count vpn : Nat}
    (below : m.currKernelBrk ≤ kernelStackBase) (done : m.fillPages image count vpn = .ok n) :
    Climbs p m n := by
  induction count generalizing m vpn with
  | zero =>
      cases done
      exact refl below
  | succ count ih =>
      obtain ⟨k, wrote, done⟩ := Outcome.bind_eq_ok.mp done
      have first : Climbs p m k := by
        unfold writePage at wrote
        split at wrote
        · cases wrote
        · split at wrote
          · cases wrote
            exact pages below _
          · cases wrote
      exact first.trans (ih first.brk done)

theorem writes {table : Addr} {low high : Int} (climbs : Climbs p m k)
    (writes : Writes table low high k n) (away : table ≠ m.regPtbr0) : Climbs p m n :=
  climbs.trans (.of_writes climbs.brk writes (climbs.regPtbr0.symm ▸ away))

/-- `LoadProgram` writes only to the table of its process. -/
theorem loadImage {li : LoadInfo} {request : ImageRequest} {code : Int}
    (below : m.currKernelBrk ≤ kernelStackBase) (away : (m.pcbs p).r1PageTable ≠ m.regPtbr0)
    (done : m.loadImage li request p = .ok (code, n)) : Climbs p m n := by
  obtain ⟨⟨found, first⟩, allocated, done⟩ := Outcome.bind_eq_ok.mp done
  have climbs : Climbs p m first := malloc below allocated
  have own : (first.pcbs p).r1PageTable ≠ m.regPtbr0 := climbs.tables.trans_ne away
  dsimp only at done
  split at done
  · cases done
    exact climbs
  obtain ⟨second, freed, done⟩ := Outcome.bind_eq_ok.mp done
  replace climbs := climbs.writes (.freeValidPages freed) own
  obtain ⟨⟨textMapped, third⟩, mappedText, done⟩ := Outcome.bind_eq_ok.mp done
  replace climbs := climbs.writes (.mapPages mappedText) own
  dsimp only at done
  split at done
  · cases done
    exact climbs
  obtain ⟨⟨dataMapped, fourth⟩, mappedData, done⟩ := Outcome.bind_eq_ok.mp done
  replace climbs := climbs.writes (.mapPages mappedData) own
  dsimp only at done
  split at done
  · cases done
    exact climbs
  obtain ⟨⟨stackMapped, fifth⟩, mappedStack, done⟩ := Outcome.bind_eq_ok.mp done
  replace climbs :=
    (climbs.trans (.updatePcb climbs.brk rfl rfl)).writes (.mapPages mappedStack) own
  dsimp only at done
  split at done
  · cases done
    exact climbs
  split at done
  · cases done
    exact climbs
  obtain ⟨sixth, readText, done⟩ := Outcome.bind_eq_ok.mp done
  replace climbs := climbs.trans (.fillPages climbs.brk readText)
  split at done
  · cases done
    exact climbs
  obtain ⟨seventh, readData, done⟩ := Outcome.bind_eq_ok.mp done
  obtain ⟨eighth, protectedText, done⟩ := Outcome.bind_eq_ok.mp done
  replace climbs :=
    (climbs.trans (.fillPages climbs.brk readData)).writes (.protectText protectedText) own
  obtain ⟨ninth, zeroed, done⟩ := Outcome.bind_eq_ok.mp done
  replace climbs := climbs.trans (.fillPages climbs.brk zeroed)
  obtain ⟨tenth, built, done⟩ := Outcome.bind_eq_ok.mp done
  replace climbs := climbs.trans (.fillPages climbs.brk built)
  obtain ⟨last, freedBuffer, done⟩ := Outcome.bind_eq_ok.mp done
  cases done
  obtain ⟨answer, allocated, freedBuffer⟩ := Outcome.bind_eq_ok.mp freedBuffer
  cases freedBuffer
  exact climbs.trans (.malloc climbs.brk allocated)

theorem loadProgram {request : ImageRequest} {code : Int}
    (below : m.currKernelBrk ≤ kernelStackBase) (away : (m.pcbs p).r1PageTable ≠ m.regPtbr0)
    (done : m.loadProgram request p = .ok (code, n)) : Climbs p m n := by
  unfold KernelMemory.loadProgram at done
  split at done
  · cases done
    exact .refl below
  split at done
  · cases done
    exact .refl below
  split at done
  · cases done
    exact .refl below
  · exact .loadImage below away done

/-- A new process gets a table that is not the table of the kernel. -/
theorem initPCB {memory : ProcessMemory} (below : m.currKernelBrk ≤ kernelStackBase)
    (kernel : memory.r1PageTable ≠ m.regPtbr0) (other : p ≠ memory.pcb)
    (done : m.initPCB memory = .ok (true, n)) : Climbs p m n := by
  obtain ⟨⟨found, first⟩, allocated, done⟩ := Outcome.bind_eq_ok.mp done
  have climbs : Climbs p m first := malloc below allocated
  cases found with
  | false => cases done
  | true =>
      obtain ⟨second, allocated, done⟩ := Outcome.bind_eq_ok.mp done
      replace climbs := climbs.trans (.malloc climbs.brk (orElse_eq_ok.mp allocated))
      obtain ⟨third, allocated, done⟩ := Outcome.bind_eq_ok.mp done
      obtain ⟨⟨found, k⟩, allocated, stored⟩ := Outcome.bind_eq_ok.mp (orElse_eq_ok.mp allocated)
      replace climbs := climbs.trans (.malloc climbs.brk allocated)
      cases found with
      | false => cases stored
      | true =>
          cases stored
          dsimp only at done
          split at done
          · rename_i took
            cases done
            obtain ⟨⟨frames, pcb, rfl⟩, -⟩ := takeStackFrames_rest took
            refine climbs.trans ⟨climbs.brk, rfl, fun i => ?_, rfl, ?_, ?_⟩
            · have other := climbs.regPtbr0.symm ▸ kernel.symm
              exact congrArg (·[_]?) (Function.update_of_ne other _ _)
            all_goals simp only [KernelMemory.updatePcb, Function.update_of_ne other]
          · obtain ⟨l, -, done⟩ := Outcome.bind_eq_ok.mp done
            cases done

end Climbs

end KernelMemory

end

end Yallnix
