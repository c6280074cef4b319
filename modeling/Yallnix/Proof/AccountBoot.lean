import Yallnix.Proof.AccountCalls
import Yallnix.Proof.FrameParts
import Yallnix.Proof.PrivateBoot

namespace Yallnix

section
variable [Hardware]

namespace KernelMemory

variable {m n k : KernelMemory} {procs : Set Addr} {reserved : Set Nat}
  {slots : Set (Addr × Fin kernelStackPages)} {p : Addr} {boot : MemoryBoot}

namespace Parts

/-- The set of live processes is no site. -/
theorem setLive (parts : Parts reserved procs slots m) (live : Finset Addr) :
    Parts reserved procs slots { m with live := live } :=
  ⟨parts.exclusive, parts.accounted, parts.kept, parts.order, parts.tabled.kernel,
    parts.tabled.apart⟩

/-- An invalid page of a process gets the first free frame. -/
theorem mapEntry {index : Int} {prot : Prot} {pfn : Nat} {frames : FrameList}
    {tlb : Nat → Option Translation} {fills : List (List Nat)}
    (parts : Parts reserved procs slots m) (member : p ∈ procs)
    (inside : m.Holds ⟨(m.pcbs p).r1PageTable, index⟩)
    (invalid : (m.tables (m.pcbs p).r1PageTable).maps index.toNat = false)
    (got : getFrame m.frameList = (some pfn, frames)) (fed : frames.starved = false) :
    Parts reserved procs slots { m with
      toMmu := { m.toMmu.store ⟨(m.pcbs p).r1PageTable, index⟩ ⟨true, prot, pfn⟩ with
        tlb := tlb
        fills := fills }
      frameList := frames } := by
  obtain ⟨here, others⟩ :=
    parts.sole.references_store member inside ⟨true, prot, pfn⟩ tlb fills frames
  exact parts.take (a := .page p index.toNat) got fed rfl member (Set.subset_insert _ _) subset_rfl
    (fun _ => PageTable.reference_eq_none.mpr invalid) (here.trans (if_pos rfl)) others
    ⟨parts.tabled.kernel, parts.tabled.apart⟩

/-- `LoadIdle` maps the last page of an empty table. -/
theorem loadIdle (parts : Parts reserved procs slots m) (member : p ∈ procs)
    (empty : ∀ i, (m.tables (m.pcbs p).r1PageTable).maps i = false)
    (done : m.loadIdle p = .ok n) (fed : n.frameList.starved = false) :
    Parts reserved procs slots n ∧ Spares ∅ {(m.pcbs p).r1PageTable} m n := by
  unfold KernelMemory.loadIdle at done
  split at done
  · cases done
  · rename_i pfn frames got
    obtain ⟨inside, tlb, fills, rfl⟩ := setPageTableEntryNoFlush_eq_ok done
    have inside : m.Holds ⟨(m.pcbs p).r1PageTable, (maxPtLen : Int) - 1⟩ := inside
    exact ⟨parts.mapEntry member inside (empty _) got fed, .store inside⟩

/-- `initBuffers` maps the page below the temporary page. -/
theorem initBuffers (parts : Parts reserved procs slots m) (quiet : m.Quiet)
    (room : 2 ≤ r0StackBase) (empty : m.references (.kernelPage (r0StackBase - 2)) = none)
    (done : m.initBuffers = .ok n) (fed : n.frameList.starved = false) :
    Parts reserved procs slots n ∧ Spares ∅ {m.regPtbr0} m n := by
  unfold KernelMemory.initBuffers at done
  split at done
  · cases done
  · rename_i pfn frames got
    obtain ⟨k, wrote, done⟩ := Outcome.bind_eq_ok.mp done
    have calls : CallsFrames k n := CallsFrames.steadyHeap.mallocOrElse done
    obtain ⟨inside, tlb, fills, rfl⟩ := setPageTableEntry_eq_ok wrote
    have inside : m.Holds ⟨m.regPtbr0, (r0StackBase : Int) - 1 - 1⟩ := inside
    have stored := m.toMmu.store_tables ⟨true, protReadWrite, pfn⟩ inside
    have index : ((r0StackBase : Int) - 1 - 1).toNat = r0StackBase - 2 := by omega
    have leaves := LeavesSites.mallocOrElse (by exact quiet) done
    refine ⟨Parts.leaves ?_ leaves, ?_⟩
    · refine Parts.take (a := .kernelPage (r0StackBase - 2)) parts got (calls.fed fed) rfl trivial
        (Set.subset_insert _ _) subset_rfl (fun _ => empty) ?_ (fun a listed other => ?_)
        ⟨parts.tabled.kernel, parts.tabled.apart⟩
      · refine (if_pos (by omega)).trans ?_
        exact PageTable.reference_of_getElem? ((stored _ _).trans (if_pos ⟨rfl, index.symm⟩))
      · cases a with
        | page q i =>
            refine PageTable.reference_congr ((stored _ i).trans (if_neg ?_))
            rintro ⟨same, -⟩
            exact parts.tabled.kernel q listed same
        | slot q i => rfl
        | kernelPage i =>
            rw [references, references]
            split
            · refine PageTable.reference_congr ((stored _ i).trans (if_neg ?_))
              rintro ⟨-, same⟩
              exact other (congrArg Site.kernelPage (same.trans index))
            · rfl
    · refine Spares.trans ?_ leaves.spares
      exact .store inside

end Parts

/-- The break is a page boundary below the buffer page, and no answer of `malloc` moves it later. -/
structure WholeBoot (boot : MemoryBoot) : Prop where
  below : boot.currKernelBrk < kernelStackBase
  final : boot.finalBreak = boot.tableBreak
  aligned : pageSize ∣ boot.finalBreak
  room : boot.finalBreak + 2 * pageSize ≤ kernelStackBase
  data : boot.kernelDataStart ≤ boot.finalBreak
  still : ∀ answer ∈ boot.library, answer.breaks = []
  contiguous : ContiguousFile boot.request

/-- The frames of the kernel stack at boot. -/
def stackFrames : Set Nat := {pfn | ∃ i : Fin kernelStackPages, pfn = r0StackBase + i.val}

/-- The loop of `KernelStart` maps exactly the pages below the break and the stack. -/
theorem WholeBoot.startEntry_valid (whole : WholeBoot boot) {pages : Nat}
    (brk : boot.finalBreak = pages * pageSize) {i : Nat} (low : i + 1 < r0StackBase) :
    (startEntry boot.kernelDataStart boot.finalBreak i).valid = true ↔ i < pages := by
  have last := MemoryBoot.finalBreak_lt whole.below
  have small := kernelStackBase_le.trans_lt vmem1Base_lt
  have data := whole.data
  have cancel : ∀ a b, a * pageSize ≤ b * pageSize ↔ a ≤ b := fun a b =>
    Nat.mul_le_mul_right_iff pageSize_pos
  have stack : (i + 1) * pageSize ≤ kernelStackBase := (cancel _ _).mpr low.le
  have whole := cancel (i + 1) pages
  rw [← brk] at whole
  rw [KernelMemory.startEntry_valid last, intAddr_of_lt (by omega)]
  omega

/-- The first free frames have numbers above the break and outside of the stack. -/
theorem WholeBoot.frameAt_isFree (whole : WholeBoot boot) {pages i : Nat}
    (brk : boot.finalBreak = pages * pageSize) (listed : i < boot.numFrames) :
    (frameAt boot.tableBreak i).isFree = true ↔
      i * pageSize < 2 ^ 31 ∧ pages ≤ i ∧ ¬(r0StackBase ≤ i ∧ i < maxPtLen) := by
  have last := MemoryBoot.finalBreak_lt whole.below
  have small := kernelStackBase_le.trans_lt vmem1Base_lt
  have cancel : ∀ a b, a * pageSize ≤ b * pageSize ↔ a ≤ b := fun a b =>
    Nat.mul_le_mul_right_iff pageSize_pos
  rw [MemoryBoot.frameAt_isFree (whole.final ▸ last.trans small) (MemoryBoot.frame_lt listed),
    ← whole.final, brk, kernelStackBase, vmem1Base, cancel, cancel,
    Nat.mul_lt_mul_right pageSize_pos]

/-- The pages of the kernel below the break lie on the first frames. -/
theorem WholeBoot.references (whole : WholeBoot boot) {pages : Nat}
    (brk : boot.finalBreak = pages * pageSize) (room : pages + 2 ≤ r0StackBase)
    (done : enableMemory boot = .ok m) (i : Nat) :
    m.references (.kernelPage i) = if i < pages then some i else none := by
  obtain ⟨-, -, entries⟩ := enableMemory_eq_ok done
  have fits : kernelStackPages ≤ maxPtLen := stackPages_le (by omega)
  have top : r0StackBase + kernelStackPages = maxPtLen := by
    rw [r0StackBase]
    omega
  rw [KernelMemory.references]
  by_cases low : i + 1 < r0StackBase
  · have entry := entries i (by omega)
    rw [Mmu.entryOf, if_pos (by omega)] at entry
    rw [if_pos low, PageTable.reference_of_getElem? entry]
    by_cases inside : i < pages
    · have valid := (whole.startEntry_valid brk low).mpr inside
      rw [if_pos valid, startEntry_pfn valid, if_pos inside]
    · rw [if_neg fun valid => inside ((whole.startEntry_valid brk low).mp valid), if_neg inside]
  · rw [if_neg low, if_neg (by omega)]

/-- The frames of the pages below the break and of the stack are not free. -/
theorem WholeBoot.mem_freeNumbers (whole : WholeBoot boot) {pages : Nat}
    (brk : boot.finalBreak = pages * pageSize) (done : enableMemory boot = .ok m) (pfn : Nat) :
    pfn ∈ m.frameList.freeNumbers ↔ pfn < boot.numFrames ∧ pfn * pageSize < 2 ^ 31 ∧
      pages ≤ pfn ∧ ¬(r0StackBase ≤ pfn ∧ pfn < maxPtLen) := by
  obtain ⟨-, list, -⟩ := enableMemory_eq_ok done
  rw [FrameList.mem_freeNumbers, FrameList.Marks, list]
  simp only [List.mem_map, List.mem_range]
  constructor
  · rintro ⟨_, ⟨i, listed, rfl⟩, rfl, isFree⟩
    have range := (whole.frameAt_isFree brk listed).mp isFree
    rw [MemoryBoot.frameAt_pfn range.1]
    exact ⟨listed, range⟩
  · rintro ⟨listed, range⟩
    exact ⟨_, ⟨pfn, listed, rfl⟩, MemoryBoot.frameAt_pfn range.1,
      (whole.frameAt_isFree brk listed).mpr range⟩

/-- A table that is not written references the same frames. -/
theorem Spares.reference {own written : Set Addr} {table : Addr} (spares : Spares own written m n)
    (other : table ∉ written) (kernel : table ≠ m.regPtbr0) (i : Nat) :
    (n.tables table).reference i = (m.tables table).reference i :=
  PageTable.reference_congr (spares.entries table other i fun same => absurd same kernel)

/-- The loop of `KernelStart` writes only to the table of region 0. -/
theorem Spares.fillR0PageTable {table : Addr} {count addr : Nat} {index : Int}
    (done : m.fillR0PageTable count addr ⟨table, index⟩ = .ok n) : Spares ∅ {table} m n := by
  induction count generalizing m addr index with
  | zero =>
      cases done
      exact .refl _ _ _
  | succ count ih =>
      obtain ⟨k, wrote, done⟩ := Outcome.bind_eq_ok.mp done
      refine Spares.trans ?_ (ih done)
      unfold fillR0Entry at wrote
      split at wrote
      · cases wrote
        exact .refl _ _ _
      · obtain ⟨inside, tlb, fills, rfl⟩ := setPageTableEntryNoFlush_eq_ok wrote
        exact .store inside

/-- `initInitProcess` lets `init` take over the reserved frames of the stack. -/
theorem Parts.initInitProcess (parts : Parts stackFrames procs slots m) (quiet : m.Quiet)
    (unclaimed : boot.initPcbp ∉ procs ∧ (∀ slot ∈ slots, slot.1 ≠ boot.initPcbp) ∧
      boot.initR1PageTable ≠ m.regPtbr0 ∧
      ∀ q ∈ procs, (m.pcbs q).r1PageTable ≠ boot.initR1PageTable)
    (empty : ∀ i, (m.tables boot.initR1PageTable).reference i = none)
    (fits : kernelStackPages ≤ maxPtLen) (below : m.currKernelBrk ≤ kernelStackBase)
    (entries : ∀ i : Fin kernelStackPages, (m.tables m.regPtbr0)[r0StackBase + i.val]? =
      some ⟨true, protReadWrite, r0StackBase + i.val⟩)
    (done : m.initInitProcess boot = .ok n) :
    Sole (insert boot.initPcbp procs) (slots ∪ {slot | slot.1 = boot.initPcbp}) n ∧
      Accounts (insert boot.initPcbp procs) (slots ∪ {slot | slot.1 = boot.initPcbp}) n ∧
      n.Quiet := by
  obtain ⟨new, stack, kernel, apart⟩ := unclaimed
  obtain ⟨k, allocated, done⟩ := Outcome.bind_eq_ok.mp done
  have leaves := LeavesSites.mallocOrElse quiet allocated
  have climbs : Climbs boot.initPcbp m k := .malloc below (orElse_eq_ok.mp allocated)
  cases done
  have mapped : ∀ i : Fin kernelStackPages,
      k.entryOf (r0StackBase + i.val) = some ⟨true, protReadWrite, r0StackBase + i.val⟩ := by
    intro i
    rw [Mmu.entryOf, if_pos (stackPage_lt fits i), climbs.regPtbr0, climbs.stack]
    exact entries i
  let l := k.updatePcb boot.initPcbp fun pcb =>
    { pcb with
      kctxt := some boot.initKctxt
      r1PageTable := boot.initR1PageTable
      stackPfns := fun i =>
        ((k.entryOf (r0StackBase + i.val)).getD ⟨false, protNone, 0⟩).pfn }
  have own : (l.pcbs boot.initPcbp).r1PageTable = boot.initR1PageTable := by
    simp only [l, KernelMemory.updatePcb, Function.update_self]
  have frames : ∀ i, (l.pcbs boot.initPcbp).stackPfns i = r0StackBase + i.val := by
    intro i
    simp only [l, KernelMemory.updatePcb, Function.update_self, mapped i, Option.getD_some]
  have others : ∀ q ∈ procs, (l.pcbs q).r1PageTable = (m.pcbs q).r1PageTable := by
    intro q member
    have other : q ≠ boot.initPcbp := fun same => new (same ▸ member)
    refine Eq.trans ?_ (leaves.r1PageTable q (Set.notMem_empty q))
    simp only [l, KernelMemory.updatePcb, Function.update_of_ne other]
  have tabled : Tabled (insert boot.initPcbp procs) l := by
    refine ⟨fun q member => ?_, fun q first r second same => ?_⟩
    · change _ ≠ k.regPtbr0
      rw [leaves.regPtbr0]
      rcases member with rfl | member
      · rw [own]
        exact kernel
      · rw [others q member]
        exact parts.tabled.kernel q member
    · rcases first with rfl | first
      · rcases second with rfl | second
        · rfl
        · rw [own, others r second] at same
          exact absurd same.symm (apart r second)
      · rcases second with rfl | second
        · rw [own, others q first] at same
          exact absurd same (apart q first)
        · rw [others q first, others r second] at same
          exact parts.tabled.apart q first r second same
  have spares : Spares {boot.initPcbp} ∅ k l := .updatePcb k _ _
  have joined : Parts stackFrames (insert boot.initPcbp procs) slots l := by
    refine Parts.join ((parts.leaves leaves).of_spares spares
      (fun q member same => new (same ▸ member)) stack (fun _ _ => Set.notMem_empty _)
      (Set.notMem_empty _) rfl) (fun i => ?_) tabled
    rw [own]
    refine (PageTable.reference_congr ?_).trans (empty i)
    exact leaves.entries _ (Set.notMem_empty _) i fun same => absurd same kernel
  have slot : ∀ a ∈ Set.range (Site.slot boot.initPcbp), ∀ pfn, l.references a = some pfn →
      ∃ i : Fin kernelStackPages, a = .slot boot.initPcbp i ∧ pfn = r0StackBase + i.val := by
    rintro _ ⟨i, rfl⟩ pfn held
    exact ⟨i, rfl, (Option.some.inj held).symm.trans (frames i)⟩
  have cover : ∀ a, a ∈ sites (insert boot.initPcbp procs)
      (slots ∪ {slot | slot.1 = boot.initPcbp}) ↔
        a ∈ sites (insert boot.initPcbp procs) slots ∪ Set.range (Site.slot boot.initPcbp) := by
    intro a
    cases a with
    | page q i =>
        refine ⟨Or.inl, fun inside => inside.resolve_right ?_⟩
        rintro ⟨j, same⟩
        cases same
    | slot q i =>
        refine ⟨Or.imp id ?_, Or.imp id ?_⟩
        · rintro rfl
          exact ⟨i, rfl⟩
        · rintro ⟨j, same⟩
          cases same
          rfl
    | kernelPage i => exact ⟨fun _ => Or.inl trivial, fun _ => trivial⟩
  refine ⟨⟨?_, joined.order, tabled.kernel, tabled.apart⟩, ?_, leaves.quiet quiet⟩
  · have alone : ∀ a ∈ Set.range (Site.slot boot.initPcbp),
        ∀ b ∈ Set.range (Site.slot boot.initPcbp), ∀ pfn, l.references a = some pfn →
          l.references b = some pfn → a = b := by
      intro a first b second pfn held also
      obtain ⟨i, rfl, rfl⟩ := slot a first pfn held
      obtain ⟨j, rfl, same⟩ := slot b second _ also
      rw [Fin.ext (by omega : i.val = j.val)]
    refine (joined.exclusive.extend alone (fun a inside pfn held => ?_) joined.kept).mono
      (fun a => (cover a).mp) (fun _ _ => rfl) fun _ => id
    obtain ⟨i, -, same⟩ := slot a inside pfn held
    exact ⟨i, same⟩
  · have held : ∀ pfn, stackFrames pfn →
        ∃ a ∈ Set.range (Site.slot boot.initPcbp), l.references a = some pfn := by
      rintro _ ⟨i, rfl⟩
      exact ⟨.slot boot.initPcbp i, ⟨i, rfl⟩, congrArg some (frames i)⟩
    exact Accounted.mono (joined.accounted.extend held) (fun a => (cover a).mpr)
      (fun _ _ => rfl) fun _ => id

end KernelMemory

end

end Yallnix
