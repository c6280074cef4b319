import Yallnix.Construction.PrivateMemory
import Yallnix.Proof.ValidPages

namespace Yallnix

section
variable [Hardware]

/-- The temporary page and the page of the terminals lie below the stack. -/
theorem stackPages_le (room : 2 ≤ r0StackBase) : kernelStackPages ≤ maxPtLen := by
  unfold r0StackBase at room
  omega

namespace KernelMemory

variable {m n k : KernelMemory} {own written : Set Addr} {table p : Addr} {i : Nat}

theorem region1_of_getElem? {pte : Pte} (low : i < maxPtLen)
    (found : (m.tables (m.pcbs p).r1PageTable)[i]? = some pte) :
    m.region1 p i = if pte.valid then some ⟨pte.prot, m.pages pte.pfn⟩ else none := by
  rw [region1, if_pos low, found]
  cases valid : pte.valid <;> simp [Option.filter, valid]

theorem region1_of_le (high : maxPtLen ≤ i) : m.region1 p i = none :=
  if_neg (Nat.not_lt_of_le high)

/-- A page that is not valid is not seen. -/
theorem region1_of_invalid (invalid : (m.tables (m.pcbs p).r1PageTable).maps i = false) :
    m.region1 p i = none := by
  by_cases low : i < maxPtLen
  · cases found : (m.tables (m.pcbs p).r1PageTable)[i]? with
    | none =>
        rw [region1, if_pos low, found]
        rfl
    | some pte =>
        rw [maps_of_getElem? found] at invalid
        rw [region1_of_getElem? low found, invalid]
        rfl
  · exact region1_of_le (Nat.le_of_not_lt low)

theorem region1_eq_none (low : i < maxPtLen) :
    m.region1 p i = none ↔ (m.tables (m.pcbs p).r1PageTable).maps i = false := by
  refine ⟨fun unseen => ?_, region1_of_invalid⟩
  cases found : (m.tables (m.pcbs p).r1PageTable)[i]? with
  | none =>
      rw [PageTable.maps, found]
      rfl
  | some pte =>
      rw [region1_of_getElem? low found] at unseen
      rw [maps_of_getElem? found]
      exact Bool.eq_false_iff.mpr fun valid => by simp [valid] at unseen

/-- A page is seen as before while its entry and its frame stay. -/
theorem region1_congr
    (entry : (n.tables (n.pcbs p).r1PageTable)[i]? = (m.tables (m.pcbs p).r1PageTable)[i]?)
    (pages : ∀ pfn, m.references (.page p i) = some pfn → n.pages pfn = m.pages pfn) :
    n.region1 p i = m.region1 p i := by
  by_cases low : i < maxPtLen
  · cases found : (m.tables (m.pcbs p).r1PageTable)[i]? with
    | none =>
        rw [region1, region1, entry, found, if_pos low, if_pos low]
        rfl
    | some pte =>
        rw [region1_of_getElem? low found, region1_of_getElem? low (entry.trans found)]
        split
        · rename_i valid
          rw [pages pte.pfn ((PageTable.reference_of_getElem? found).trans (if_pos valid))]
        · rfl
  · rw [region1_of_le (Nat.le_of_not_lt low), region1_of_le (Nat.le_of_not_lt low)]

/-- A spared process sees its region 1 as before while its frames stay. -/
theorem region1_of_spares (spares : Spares own written m n) (other : p ∉ own)
    (away : (m.pcbs p).r1PageTable ∉ written) (kernel : (m.pcbs p).r1PageTable ≠ m.regPtbr0)
    (region : ∀ i pfn, m.references (.page p i) = some pfn → n.pages pfn = m.pages pfn) :
    n.region1 p = m.region1 p := by
  funext i
  refine region1_congr ?_ (region i)
  rw [spares.r1PageTable p other]
  exact spares.entries _ away i fun same => absurd same kernel

/-- A spared process is as before while its context and its frames stay. -/
theorem privateProcess_congr (spares : Spares own written m n) (other : p ∉ own)
    (away : (m.pcbs p).r1PageTable ∉ written) (kernel : (m.pcbs p).r1PageTable ≠ m.regPtbr0)
    (kctxt : (n.pcbs p).kctxt = (m.pcbs p).kctxt)
    (region : ∀ i pfn, m.references (.page p i) = some pfn → n.pages pfn = m.pages pfn)
    (stack : ∀ i, n.pages ((m.pcbs p).stackPfns i) = m.pages ((m.pcbs p).stackPfns i)) :
    n.privateProcess p = m.privateProcess p := by
  rw [privateProcess, privateProcess, region1_of_spares spares other away kernel region, kctxt,
    spares.brk p other, spares.stackPfns p other]
  exact congrArg (PrivateProcess.mk _ _ · _) (funext stack)

theorem processes_of_mem (alive : p ∈ m.live) :
    m.privateMemory.processes p = some (m.privateProcess p) :=
  if_pos alive

theorem processes_of_notMem (dead : p ∉ m.live) : m.privateMemory.processes p = none :=
  if_neg dead

/-- A PCB belongs to one process. -/
theorem privateProcess_updatePcb {q : Addr} (f : MemoryPcb → MemoryPcb) (other : q ≠ p) :
    (m.updatePcb p f).privateProcess q = m.privateProcess q := by
  have same : (m.updatePcb p f).pcbs q = m.pcbs q := Function.update_of_ne other _ _
  have region1 : (m.updatePcb p f).region1 q = m.region1 q := by
    funext i
    rw [KernelMemory.region1, KernelMemory.region1, same]
    rfl
  rw [privateProcess, privateProcess, region1, same]
  rfl

/-- Kernel code goes on in the running process on its kernel stack. -/
structure Stays (m n : KernelMemory) : Prop where
  mode : n.mode = m.mode
  regPtbr0 : n.regPtbr0 = m.regPtbr0
  regPtbr1 : n.regPtbr1 = m.regPtbr1
  stack : ∀ i : Fin kernelStackPages, (n.tables m.regPtbr0)[r0StackBase + i.val]? =
    (m.tables m.regPtbr0)[r0StackBase + i.val]?
  live : n.live = m.live
  currPCB : n.currPCB = m.currPCB
  currKernelBrk : n.currKernelBrk = m.currKernelBrk
  kctxt : ∀ q ∈ m.live, (n.pcbs q).kctxt = (m.pcbs q).kctxt
  stackPfns : ∀ q ∈ m.live, (n.pcbs q).stackPfns = (m.pcbs q).stackPfns
  starterKctxt : n.starterKctxt = m.starterKctxt
  starterKernelStack : n.starterKernelStack = m.starterKernelStack

namespace Stays

theorem refl (m : KernelMemory) : Stays m m :=
  ⟨rfl, rfl, rfl, fun _ => rfl, rfl, rfl, rfl, fun _ _ => rfl, fun _ _ => rfl, rfl, rfl⟩

theorem trans (first : Stays m k) (second : Stays k n) : Stays m n where
  mode := second.mode.trans first.mode
  regPtbr0 := second.regPtbr0.trans first.regPtbr0
  regPtbr1 := second.regPtbr1.trans first.regPtbr1
  stack i := by
    have later := second.stack i
    rw [first.regPtbr0] at later
    exact later.trans (first.stack i)
  live := second.live.trans first.live
  currPCB := second.currPCB.trans first.currPCB
  currKernelBrk := second.currKernelBrk.trans first.currKernelBrk
  kctxt q alive := (second.kctxt q (first.live ▸ alive)).trans (first.kctxt q alive)
  stackPfns q alive := (second.stackPfns q (first.live ▸ alive)).trans (first.stackPfns q alive)
  starterKctxt := second.starterKctxt.trans first.starterKctxt
  starterKernelStack := second.starterKernelStack.trans first.starterKernelStack

/-- Entries of other tables are no entries of the kernel stack. -/
theorem of_writes {low high : Int} (writes : Writes table low high m n)
    (away : table ≠ m.regPtbr0) : Stays m n := by
  have regPtbr0 := writes.regPtbr0
  have regPtbr1 := writes.regPtbr1
  have entries := writes.entries
  obtain ⟨mmu, frames, rfl⟩ := writes.rest
  exact ⟨rfl, regPtbr0, regPtbr1, fun i => entries _ _ fun same => absurd same.symm away, rfl, rfl,
    rfl, fun _ _ => rfl, fun _ _ => rfl, rfl, rfl⟩

theorem pages (m : KernelMemory) (pages : Nat → Page) : Stays m { m with pages := pages } :=
  ⟨rfl, rfl, rfl, fun _ => rfl, rfl, rfl, rfl, fun _ _ => rfl, fun _ _ => rfl, rfl, rfl⟩

theorem library (m : KernelMemory) (library : List LibraryAnswer) :
    Stays m { m with library := library } :=
  ⟨rfl, rfl, rfl, fun _ => rfl, rfl, rfl, rfl, fun _ _ => rfl, fun _ _ => rfl, rfl, rfl⟩

/-- A PCB keeps its context and its frames when its other fields change. -/
theorem updatePcb (m : KernelMemory) (pcbp : Addr) {f : MemoryPcb → MemoryPcb}
    (kctxt : (f (m.pcbs pcbp)).kctxt = (m.pcbs pcbp).kctxt)
    (stack : (f (m.pcbs pcbp)).stackPfns = (m.pcbs pcbp).stackPfns) :
    Stays m (m.updatePcb pcbp f) := by
  refine ⟨rfl, rfl, rfl, fun _ => rfl, rfl, rfl, rfl, fun q _ => ?_, fun q _ => ?_, rfl, rfl⟩
  all_goals
    by_cases same : q = pcbp
    · subst same
      simpa only [KernelMemory.updatePcb, Function.update_self] using (by assumption)
    · simp only [KernelMemory.updatePcb, Function.update_of_ne same]

end Stays

/-- A quiet C library changes only its own state. -/
theorem malloc_eq_ok {found : Bool} (quiet : m.Quiet) (done : m.malloc = .ok (found, n)) :
    ∃ library, n = { m with library := library } := by
  unfold malloc at done
  split at done
  · cases done
    exact ⟨m.library, rfl⟩
  · rename_i answer library answers
    obtain ⟨k, moved, done⟩ := Outcome.bind_eq_ok.mp done
    cases done
    rw [quiet answer (answers ▸ List.mem_cons_self), moveBreaks] at moved
    cases moved
    exact ⟨library, rfl⟩

theorem free_eq_ok (quiet : m.Quiet) (done : m.free = .ok n) :
    ∃ library, n = { m with library := library } := by
  obtain ⟨answer, allocated, done⟩ := Outcome.bind_eq_ok.mp done
  cases done
  exact malloc_eq_ok quiet allocated

/-- The running process is on its own kernel stack, and the kernel break lies below it. -/
structure Settled (m : KernelMemory) : Prop where
  room : 2 ≤ r0StackBase
  brk : m.currKernelBrk ≤ kernelStackBase
  mapped : m.MapsStack

theorem Settled.of_stays (settled : Settled m) (alive : m.currPCB ∈ m.live) (stays : Stays m n) :
    Settled n where
  room := settled.room
  brk := by
    rw [stays.currKernelBrk]
    exact settled.brk
  mapped i := by
    have low := stackPage_lt (stackPages_le settled.room) i
    have before := settled.mapped i
    rw [Mmu.entryOf, if_pos low] at before ⊢
    rw [stays.regPtbr0, stays.stack, before, KernelMemory.curr, KernelMemory.curr, stays.currPCB,
      stays.stackPfns _ alive]

end KernelMemory

end

end Yallnix
