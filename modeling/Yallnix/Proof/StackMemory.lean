import Yallnix.Construction.SwitchMachine
import Yallnix.Proof.HeapMove

namespace Yallnix

section
variable [Hardware]

theorem stackPage_lt (fits : kernelStackPages ≤ maxPtLen) (i : Fin kernelStackPages) :
    r0StackBase + i.val < maxPtLen := by
  have inside := i.isLt
  unfold r0StackBase
  omega

namespace KernelMemory

variable {m n k : KernelMemory}

/-- A stored region 0 entry is found again, and all other pages of region 0 stay. -/
theorem entryOf_store {ptep : PtePtr} (pte : Pte) (inside : m.Holds ptep)
    (region0 : ptep.table = m.regPtbr0) {vpn : Nat} (low : vpn < maxPtLen) :
    (m.toMmu.store ptep pte).entryOf vpn =
      if vpn = ptep.index.toNat then some pte else m.entryOf vpn := by
  unfold Mmu.entryOf
  rw [if_pos low, if_pos low]
  refine (m.toMmu.store_tables pte inside m.regPtbr0 vpn).trans ?_
  simp only [region0, true_and]

/-- A write of one region 0 entry changes what one page number finds. -/
structure Maps (vpn : Nat) (pte : Pte) (m n : KernelMemory) : Prop where
  rest : ∃ mmu, n = { m with toMmu := mmu }
  regPtbr0 : n.regPtbr0 = m.regPtbr0
  same : n.entryOf vpn = some pte
  others : ∀ other < maxPtLen, other ≠ vpn → n.entryOf other = m.entryOf other

theorem setPageTableEntry_maps {vpn : Nat} {pte : Pte} (low : vpn < maxPtLen)
    (done : m.setPageTableEntry ⟨m.regPtbr0, vpn⟩ pte = .ok n) : Maps vpn pte m n := by
  obtain ⟨inside, tlb, fills, rfl⟩ := setPageTableEntry_eq_ok done
  have found : ∀ other < maxPtLen, (m.toMmu.store ⟨m.regPtbr0, vpn⟩ pte).entryOf other =
      if other = vpn then some pte else m.entryOf other :=
    fun other below => entryOf_store pte inside rfl below
  refine ⟨⟨_, rfl⟩, rfl, ?_, fun other below away => ?_⟩
  · exact (found vpn low).trans (if_pos rfl)
  · exact (found other below).trans (if_neg away)

/-- The temporary entry lies below the stack. -/
theorem setPageTableEntry_temp {pte : Pte} (fits : kernelStackPages ≤ maxPtLen)
    (done : m.setPageTableEntry m.tempPtep pte = .ok n) :
    0 < r0StackBase ∧ Maps tempIndex pte m n := by
  obtain ⟨inside, -⟩ := setPageTableEntry_eq_ok done
  have nonneg : (0 : Int) ≤ (r0StackBase : Int) - 1 := inside.1
  have positive : 0 < r0StackBase := by omega
  have index : (r0StackBase : Int) - 1 = (tempIndex : Nat) := by
    unfold tempIndex
    omega
  refine ⟨positive, setPageTableEntry_maps ?_ ?_⟩
  · unfold tempIndex r0StackBase at *
    omega
  · rw [← index]
    exact done

theorem readPage_eq_ok {vpn : Nat} {page : Page} {pte : Pte} (found : m.entryOf vpn = some pte)
    (done : m.readPage vpn = .ok page) : page = m.pages pte.pfn := by
  unfold readPage at done
  rw [found] at done
  dsimp only at done
  split at done
  · cases done
    rfl
  · cases done

theorem writePage_eq_ok {vpn : Nat} {page : Page} {pte : Pte} (found : m.entryOf vpn = some pte)
    (done : m.writePage vpn page = .ok n) :
    n = { m with pages := Function.update m.pages pte.pfn page } := by
  unfold writePage at done
  rw [found] at done
  dsimp only at done
  split at done
  · cases done
    rfl
  · cases done

/-- A mapped page shows the bytes of its frame. -/
theorem stackView_eq {i : Fin kernelStackPages} {pfn : Nat}
    (found : m.entryOf (r0StackBase + i.val) = some ⟨true, protReadWrite, pfn⟩) :
    m.stackView i = some (m.pages pfn) := by
  unfold stackView readPage
  rw [found]
  rfl

/-- Some entries of the stack name new frames. -/
structure StackMapped (slots : List (Fin kernelStackPages)) (m n : KernelMemory) : Prop where
  rest : ∃ mmu, n = { m with toMmu := mmu }
  regPtbr0 : n.regPtbr0 = m.regPtbr0
  mapped : ∀ i ∈ slots,
    n.entryOf (r0StackBase + i.val) = some ⟨true, protReadWrite, m.curr.stackPfns i⟩
  others : ∀ vpn < maxPtLen, (∀ i ∈ slots, vpn ≠ r0StackBase + i.val) →
    n.entryOf vpn = m.entryOf vpn

theorem mapStack_eq_ok {slots : List (Fin kernelStackPages)} (fits : kernelStackPages ≤ maxPtLen)
    (nodup : slots.Nodup) (done : m.mapStack slots = .ok n) : StackMapped slots m n := by
  induction slots generalizing m with
  | nil =>
      cases done
      exact ⟨⟨_, rfl⟩, rfl, nofun, fun _ _ _ => rfl⟩
  | cons i rest ih =>
      obtain ⟨fresh, nodup⟩ := List.nodup_cons.mp nodup
      obtain ⟨stored, wrote, done⟩ := Outcome.bind_eq_ok.mp done
      have first := setPageTableEntry_maps (stackPage_lt fits i) wrote
      have last := ih nodup done
      obtain ⟨mmu, rfl⟩ := first.rest
      obtain ⟨mmu', eq⟩ := last.rest
      refine ⟨⟨mmu', eq⟩, last.regPtbr0.trans first.regPtbr0, fun j listed => ?_,
        fun vpn low away => ?_⟩
      · rcases List.mem_cons.mp listed with rfl | later
        · refine (last.others _ (stackPage_lt fits j) fun i later same => ?_).trans first.same
          have equal : j = i := Fin.ext (Nat.add_left_cancel same)
          exact fresh (equal ▸ later)
        · exact last.mapped j later
      · refine (last.others vpn low fun j later => away j (List.mem_cons_of_mem _ later)).trans ?_
        exact first.others vpn low (away i List.mem_cons_self)

/-- The frames of the stack get the starter stack, and all other frames stay. -/
theorem loadStarterStack_eq_ok {slots : List (Fin kernelStackPages)}
    {pfns : Fin kernelStackPages → Nat} (injective : Function.Injective pfns)
    (mapped : ∀ i, m.entryOf (r0StackBase + i.val) = some ⟨true, protReadWrite, pfns i⟩)
    (nodup : slots.Nodup) (done : m.loadStarterStack slots = .ok n) :
    ∃ pages, n = { m with pages := pages } ∧
      (∀ i ∈ slots, pages (pfns i) = m.starterKernelStack i) ∧
      ∀ pfn, (∀ i ∈ slots, pfns i ≠ pfn) → pages pfn = m.pages pfn := by
  induction slots generalizing m with
  | nil =>
      cases done
      exact ⟨_, rfl, nofun, fun _ _ => rfl⟩
  | cons i rest ih =>
      obtain ⟨fresh, nodup⟩ := List.nodup_cons.mp nodup
      obtain ⟨stored, wrote, done⟩ := Outcome.bind_eq_ok.mp done
      have eq := writePage_eq_ok (mapped i) wrote
      subst eq
      obtain ⟨pages, rfl, loaded, others⟩ := ih
        (m := { m with pages := Function.update m.pages (pfns i) (m.starterKernelStack i) })
        mapped nodup done
      refine ⟨pages, rfl, fun j listed => ?_, fun pfn away => ?_⟩
      · rcases List.mem_cons.mp listed with rfl | later
        · refine (others _ fun i later same => ?_).trans (Function.update_self _ _ _)
          have equal : i = j := injective same
          exact fresh (equal ▸ later)
        · exact loaded j later
      · refine (others pfn fun j later => away j (List.mem_cons_of_mem _ later)).trans ?_
        exact Function.update_of_ne (away i List.mem_cons_self).symm _ _

/-- Some frames of the running process get a copy of other frames and replace them in the stack. -/
structure StackCopied (slots : List (Fin kernelStackPages))
    (parentPfns : Fin kernelStackPages → Nat) (m n : KernelMemory) : Prop where
  rest : ∃ mmu pages, n = { m with toMmu := mmu, pages := pages }
  regPtbr0 : n.regPtbr0 = m.regPtbr0
  mapped : ∀ i ∈ slots,
    n.entryOf (r0StackBase + i.val) = some ⟨true, protReadWrite, m.curr.stackPfns i⟩
  others : ∀ i ∉ slots, n.entryOf (r0StackBase + i.val) = m.entryOf (r0StackBase + i.val)
  copied : ∀ i ∈ slots, n.pages (m.curr.stackPfns i) = m.pages (parentPfns i)
  frames : ∀ pfn, (∀ i ∈ slots, m.curr.stackPfns i ≠ pfn) → n.pages pfn = m.pages pfn

/-- One turn of the loop in `forkTo` copies one page. -/
theorem copyStack_turn {i : Fin kernelStackPages} {pfn : Nat} {temp copied : KernelMemory}
    (fits : kernelStackPages ≤ maxPtLen)
    (mapped : m.entryOf (r0StackBase + i.val) = some ⟨true, protReadWrite, pfn⟩)
    (wroteTemp : m.setPageTableEntry m.tempPtep ⟨true, protWrite, m.curr.stackPfns i⟩ = .ok temp)
    (copy : temp.copyPage tempIndex (r0StackBase + i.val) = .ok copied)
    (wrote : copied.setPageTableEntry (copied.stackPtep i)
      ⟨true, protReadWrite, m.curr.stackPfns i⟩ = .ok n) :
    ∃ mmu : Mmu, n = { m with
        toMmu := mmu
        pages := Function.update m.pages (m.curr.stackPfns i) (m.pages pfn) } ∧
      mmu.regPtbr0 = m.regPtbr0 ∧
      mmu.entryOf (r0StackBase + i.val) = some ⟨true, protReadWrite, m.curr.stackPfns i⟩ ∧
      ∀ j, j ≠ i → mmu.entryOf (r0StackBase + j.val) = m.entryOf (r0StackBase + j.val) := by
  obtain ⟨page, read, write⟩ := Outcome.bind_eq_ok.mp copy
  obtain ⟨positive, tempMaps⟩ := setPageTableEntry_temp fits wroteTemp
  have stackNotTemp : ∀ j : Fin kernelStackPages, r0StackBase + j.val ≠ tempIndex := by
    intro j
    unfold tempIndex
    omega
  have kept : ∀ j : Fin kernelStackPages,
      temp.entryOf (r0StackBase + j.val) = m.entryOf (r0StackBase + j.val) :=
    fun j => tempMaps.others _ (stackPage_lt fits j) (stackNotTemp j)
  have pageEq := readPage_eq_ok ((kept i).trans mapped) read
  have copiedEq := writePage_eq_ok tempMaps.same write
  have region0 := tempMaps.regPtbr0
  obtain ⟨mmu, rfl⟩ := tempMaps.rest
  subst pageEq copiedEq
  have last := setPageTableEntry_maps (stackPage_lt fits i) wrote
  have region0' := last.regPtbr0
  have others := last.others
  have same := last.same
  obtain ⟨mmu', rfl⟩ := last.rest
  refine ⟨mmu', rfl, region0'.trans region0, same, fun j away => ?_⟩
  refine (others _ (stackPage_lt fits j) fun equal => ?_).trans (kept j)
  exact away (Fin.ext (Nat.add_left_cancel equal))

theorem copyStack_eq_ok {slots : List (Fin kernelStackPages)}
    {parentPfns : Fin kernelStackPages → Nat} (fits : kernelStackPages ≤ maxPtLen)
    (injective : Function.Injective m.curr.stackPfns)
    (apart : ∀ i j, parentPfns i ≠ m.curr.stackPfns j)
    (mapped : ∀ i ∈ slots,
      m.entryOf (r0StackBase + i.val) = some ⟨true, protReadWrite, parentPfns i⟩)
    (nodup : slots.Nodup) (done : m.copyStack slots = .ok n) :
    StackCopied slots parentPfns m n := by
  induction slots generalizing m with
  | nil =>
      cases done
      exact ⟨⟨_, _, rfl⟩, rfl, nofun, fun _ _ => rfl, nofun, fun _ _ => rfl⟩
  | cons i rest ih =>
      obtain ⟨fresh, nodup⟩ := List.nodup_cons.mp nodup
      obtain ⟨temp, wroteTemp, done⟩ := Outcome.bind_eq_ok.mp done
      obtain ⟨copied, copy, done⟩ := Outcome.bind_eq_ok.mp done
      obtain ⟨stored, wrote, done⟩ := Outcome.bind_eq_ok.mp done
      obtain ⟨mmu, rfl, region0, here, elsewhere⟩ :=
        copyStack_turn fits (mapped i List.mem_cons_self) wroteTemp copy wrote
      have last := ih (m := { m with
          toMmu := mmu
          pages := Function.update m.pages (m.curr.stackPfns i) (m.pages (parentPfns i)) })
        injective apart (fun j listed => (elsewhere j fun same => fresh (same ▸ listed)).trans
          (mapped j (List.mem_cons_of_mem _ listed))) nodup done
      refine ⟨?_, last.regPtbr0.trans region0, fun j listed => ?_, fun j away => ?_,
        fun j listed => ?_, fun pfn away => ?_⟩
      · obtain ⟨mmu', pages, eq⟩ := last.rest
        exact ⟨mmu', pages, eq⟩
      · by_cases later : j ∈ rest
        · exact last.mapped j later
        · obtain rfl := (List.mem_cons.mp listed).resolve_right later
          exact (last.others j later).trans here
      · obtain ⟨other, later⟩ := not_or.mp (mt List.mem_cons.mpr away)
        exact (last.others j later).trans (elsewhere j other)
      · by_cases later : j ∈ rest
        · refine (last.copied j later).trans ?_
          exact Function.update_of_ne (apart j i) _ _
        · obtain rfl := (List.mem_cons.mp listed).resolve_right later
          refine (last.frames _ fun k member same => ?_).trans (Function.update_self _ _ _)
          have equal : k = j := injective same
          exact later (equal ▸ member)
      · refine (last.frames pfn fun j later => away j (List.mem_cons_of_mem _ later)).trans ?_
        exact Function.update_of_ne (away i List.mem_cons_self).symm _ _

/-- The frames, the processes and the starter state stay. -/
structure SameProcesses (m n : KernelMemory) : Prop where
  pages : n.pages = m.pages
  pcbs : n.pcbs = m.pcbs
  live : n.live = m.live
  currPCB : n.currPCB = m.currPCB
  starterKctxt : n.starterKctxt = m.starterKctxt
  starterKernelStack : n.starterKernelStack = m.starterKernelStack

theorem SameProcesses.curr (same : SameProcesses m n) : n.curr = m.curr := by
  rw [KernelMemory.curr, same.pcbs, same.currPCB]
  rfl

theorem HeapMoved.processes (moved : HeapMoved m n) : SameProcesses m n := by
  obtain ⟨_, _, _, _, _, rfl⟩ := moved.rest
  exact ⟨rfl, rfl, rfl, rfl, rfl, rfl⟩

theorem StackMapped.processes {slots : List (Fin kernelStackPages)}
    (mapped : StackMapped slots m n) : SameProcesses m n := by
  obtain ⟨_, rfl⟩ := mapped.rest
  exact ⟨rfl, rfl, rfl, rfl, rfl, rfl⟩

/-- A move of the break below the stack keeps the entries of the stack. -/
theorem HeapMoved.stack (fits : kernelStackPages ≤ maxPtLen) (moved : HeapMoved m n)
    (i : Fin kernelStackPages) :
    n.entryOf (r0StackBase + i.val) = m.entryOf (r0StackBase + i.val) := by
  unfold Mmu.entryOf
  rw [if_pos (stackPage_lt fits i), if_pos (stackPage_lt fits i), moved.regPtbr0]
  exact moved.entries _ _ fun _ => Nat.le_add_right _ _

/-- The load of the region 1 register keeps the pages of region 0. -/
theorem switchRegion1_eq (m : KernelMemory) :
    ∃ mmu : Mmu, m.switchRegion1 = { m with toMmu := mmu } ∧
      ∀ vpn < maxPtLen, mmu.entryOf vpn = m.entryOf vpn := by
  obtain ⟨_, _, first⟩ := m.toMmu.tick_eq
  obtain ⟨_, _, second⟩ := (m.toMmu.writePtbr1 m.curr.r1PageTable).tick_eq
  refine ⟨_, rfl, fun vpn low => ?_⟩
  rw [Mmu.flushRegion1, second]
  unfold Mmu.writePtbr1
  rw [first]
  unfold Mmu.entryOf
  rw [if_pos low, if_pos low]

/-- The saved context of one process is replaced. -/
def setKctxt (m : KernelMemory) (pcbp : Addr) (kctxt : Option KernelContext) : KernelMemory :=
  m.updatePcb pcbp fun pcb => { pcb with kctxt := kctxt }

theorem saveContext_eq_ok {pcbp : Addr} {kctxt : KernelContext}
    (done : m.saveContext pcbp kctxt = .ok n) :
    n = m.setKctxt pcbp (some kctxt) := by
  unfold saveContext at done
  split at done
  · cases done
  · cases done
    rfl

/-- An update of the saved context of one PCB keeps all stack frames. -/
theorem setKctxt_stackPfns (m : KernelMemory) (pcbp p : Addr) (kctxt : Option KernelContext) :
    ((m.setKctxt pcbp kctxt).pcbs p).stackPfns =
      (m.pcbs p).stackPfns := by
  by_cases same : p = pcbp
  · subst same
    simp only [setKctxt, updatePcb, Function.update_self]
  · simp only [setKctxt, updatePcb, Function.update_of_ne same]

theorem setKctxt_kctxt (m : KernelMemory) (pcbp p : Addr) (kctxt : Option KernelContext) :
    ((m.setKctxt pcbp kctxt).pcbs p).kctxt =
      if p = pcbp then kctxt else (m.pcbs p).kctxt := by
  by_cases same : p = pcbp
  · subst same
    simp only [setKctxt, updatePcb, Function.update_self, if_true]
  · simp only [setKctxt, updatePcb, Function.update_of_ne same, if_neg same]

/-- A process starts with the starter context and stack, or goes on as it is. -/
structure Started (m n : KernelMemory) : Prop where
  live : n.live = m.live
  currPCB : n.currPCB = m.currPCB
  brk : n.currKernelBrk ≤ kernelStackBase
  stack : ∀ i : Fin kernelStackPages,
    n.entryOf (r0StackBase + i.val) = m.entryOf (r0StackBase + i.val)
  stackPfns : ∀ p, (n.pcbs p).stackPfns = (m.pcbs p).stackPfns
  saved : ∀ p, p ≠ m.currPCB → (n.pcbs p).kctxt = (m.pcbs p).kctxt
  resumed : ∀ kctxt, m.curr.kctxt = some kctxt → n.curr.kctxt = some kctxt ∧ n.pages = m.pages
  started : m.curr.kctxt = none → n.curr.kctxt = some m.starterKctxt ∧
    ∀ i, n.pages (m.curr.stackPfns i) = m.starterKernelStack i
  frames : ∀ pfn, (∀ i, m.curr.stackPfns i ≠ pfn) → n.pages pfn = m.pages pfn
  starter : n.starterKctxt = m.starterKctxt ∧ n.starterKernelStack = m.starterKernelStack

theorem startProcess_eq_ok (fits : kernelStackPages ≤ maxPtLen)
    (below : m.currKernelBrk ≤ kernelStackBase) (mapped : m.MapsStack)
    (injective : Function.Injective m.curr.stackPfns) (done : m.startProcess = .ok n) :
    Started m n := by
  unfold startProcess at done
  split at done
  · rename_i old found
    cases done
    exact {
      live := rfl
      currPCB := rfl
      brk := below
      stack := fun _ => rfl
      stackPfns := fun _ => rfl
      saved := fun _ _ => rfl
      resumed := fun kctxt same => ⟨same, rfl⟩
      started := fun none => by
        rw [found] at none
        cases none
      frames := fun _ _ => rfl
      starter := ⟨rfl, rfl⟩ }
  · rename_i none
    obtain ⟨k, allocated, done⟩ := Outcome.bind_eq_ok.mp done
    have moved := HeapMoved.malloc below (orElse_eq_ok.mp allocated)
    have stack := moved.stack fits
    have same := moved.processes
    have injective' : Function.Injective k.curr.stackPfns := by
      rw [same.curr]
      exact injective
    obtain ⟨pages, rfl, loaded, others⟩ := loadStarterStack_eq_ok
      (m := k.setKctxt k.currPCB (some k.starterKctxt))
      injective' (fun i => by
        refine (stack i).trans ((mapped i).trans ?_)
        rw [same.curr]) (List.nodup_finRange _) done
    exact {
      live := same.live
      currPCB := same.currPCB
      brk := moved.brk
      stack := stack
      stackPfns := fun p => by
        refine (setKctxt_stackPfns _ _ _ _).trans ?_
        rw [same.pcbs]
      saved := fun p other => by
        refine (setKctxt_kctxt _ _ _ _).trans ?_
        rw [same.pcbs, same.currPCB, if_neg other]
      resumed := fun kctxt found => by
        rw [none] at found
        cases found
      started := fun _ => by
        refine ⟨((setKctxt_kctxt _ _ _ _).trans (if_pos rfl)).trans ?_, fun i => ?_⟩
        · rw [same.starterKctxt]
        · rw [← same.curr]
          refine (loaded i (List.mem_finRange i)).trans ?_
          exact congrFun same.starterKernelStack i
      frames := fun pfn away => by
        rw [← same.curr] at away
        refine (others pfn fun i _ => away i).trans ?_
        exact congrFun same.pages pfn
      starter := ⟨same.starterKctxt, same.starterKernelStack⟩ }

/-- A switch enters a process. -/
structure Entered (nextPcbp : Addr) (kctxt : KernelContext) (m n : KernelMemory) : Prop where
  live : n.live = m.live
  currPCB : n.currPCB = nextPcbp
  brk : n.currKernelBrk ≤ kernelStackBase
  mapped : n.MapsStack
  stackPfns : ∀ p, (n.pcbs p).stackPfns = (m.pcbs p).stackPfns
  saved : ∀ p, p ≠ nextPcbp → (n.pcbs p).kctxt = (m.pcbs p).kctxt
  frames : ∀ pfn, (∀ i, (m.pcbs nextPcbp).stackPfns i ≠ pfn) → n.pages pfn = m.pages pfn
  running : (n.pcbs nextPcbp).kctxt = some kctxt
  starter : n.starterKctxt = m.starterKctxt ∧ n.starterKernelStack = m.starterKernelStack

/-- A process that is entered by `switchBetween` goes on or starts. -/
structure EnteredOwn (nextPcbp : Addr) (kctxt : KernelContext) (m n : KernelMemory) : Prop
    extends Entered nextPcbp kctxt m n where
  resumed : ∀ old, (m.pcbs nextPcbp).kctxt = some old → kctxt = old ∧ n.pages = m.pages
  started : (m.pcbs nextPcbp).kctxt = none → kctxt = m.starterKctxt ∧
    ∀ i, n.pages ((m.pcbs nextPcbp).stackPfns i) = m.starterKernelStack i

theorem enter_eq_ok {nextPcbp : Addr} {kctxt : KernelContext} (fits : kernelStackPages ≤ maxPtLen)
    (below : m.currKernelBrk ≤ kernelStackBase)
    (injective : Function.Injective (m.pcbs nextPcbp).stackPfns)
    (done : ({ m with currPCB := nextPcbp }.mapStack (List.finRange kernelStackPages) >>= fun m =>
      m.startProcess >>= fun m => m.switchRegion1.resumeContext) = .ok (kctxt, n)) :
    EnteredOwn nextPcbp kctxt m n := by
  obtain ⟨k, maps, done⟩ := Outcome.bind_eq_ok.mp done
  obtain ⟨l, start, done⟩ := Outcome.bind_eq_ok.mp done
  have stack := mapStack_eq_ok fits (List.nodup_finRange _) maps
  have same := stack.processes
  have below' : k.currKernelBrk ≤ kernelStackBase := by
    obtain ⟨_, rfl⟩ := stack.rest
    exact below
  have next : k.curr = m.pcbs nextPcbp := same.curr
  have mapped : k.MapsStack := fun i => by
    refine (stack.mapped i (List.mem_finRange i)).trans ?_
    rw [same.curr]
  have ran := startProcess_eq_ok fits below' mapped (by rwa [next]) start
  obtain ⟨mmu, switched, low⟩ := l.switchRegion1_eq
  rw [switched] at done
  unfold resumeContext at done
  split at done
  · cases done
  rename_i last found
  cases done
  have current : l.currPCB = nextPcbp := ran.currPCB.trans same.currPCB
  have curr : l.curr = l.pcbs nextPcbp := by
    rw [KernelMemory.curr, current]
  have pcbs : ∀ p, k.pcbs p = m.pcbs p := congrFun same.pcbs
  exact {
    live := ran.live.trans same.live
    currPCB := current
    brk := ran.brk
    mapped := fun i => by
      refine (low _ (stackPage_lt fits i)).trans ((ran.stack i).trans ((mapped i).trans ?_))
      change _ = some (Pte.mk true protReadWrite (l.curr.stackPfns i))
      rw [next, curr, ran.stackPfns, pcbs]
    stackPfns := fun p => by
      refine (ran.stackPfns p).trans ?_
      rw [pcbs]
    saved := fun p other => by
      refine (ran.saved p fun equal => other (equal.trans same.currPCB)).trans ?_
      rw [pcbs]
    frames := fun pfn away => by
      rw [← next] at away
      exact (ran.frames pfn away).trans (congrFun same.pages pfn)
    running := by
      rw [← curr]
      exact found
    starter := And.intro (ran.starter.1.trans same.starterKctxt)
      (ran.starter.2.trans same.starterKernelStack)
    resumed := fun old before => by
      rw [← next] at before
      obtain ⟨after, pages⟩ := ran.resumed old before
      have equal : some kctxt = some old := found.symm.trans after
      exact ⟨Option.some.inj equal, pages.trans same.pages⟩
    started := fun none => by
      rw [← next] at none ⊢
      obtain ⟨after, pages⟩ := ran.started none
      have equal : some kctxt = some k.starterKctxt := found.symm.trans after
      refine ⟨(Option.some.inj equal).trans same.starterKctxt, fun i => (pages i).trans ?_⟩
      exact congrFun same.starterKernelStack i }

/-- The reset of the temporary entry keeps the copied stack. -/
theorem StackCopied.resetTemp {parentPfns : Fin kernelStackPages → Nat} {pte : Pte}
    (fits : kernelStackPages ≤ maxPtLen)
    (stack : StackCopied (List.finRange kernelStackPages) parentPfns m k)
    (done : k.setPageTableEntry k.tempPtep pte = .ok n) :
    StackCopied (List.finRange kernelStackPages) parentPfns m n := by
  obtain ⟨positive, temp⟩ := setPageTableEntry_temp fits done
  have notTemp : ∀ i : Fin kernelStackPages, r0StackBase + i.val ≠ tempIndex := fun i => by
    unfold tempIndex
    omega
  have kept : ∀ i : Fin kernelStackPages,
      n.entryOf (r0StackBase + i.val) = k.entryOf (r0StackBase + i.val) :=
    fun i => temp.others _ (stackPage_lt fits i) (notTemp i)
  have samePages : n.pages = k.pages := by
    obtain ⟨_, rfl⟩ := temp.rest
    rfl
  refine ⟨?_, temp.regPtbr0.trans stack.regPtbr0, fun i listed => ?_, fun i away => ?_,
    fun i listed => ?_, fun pfn away => ?_⟩
  · obtain ⟨_, copied, first⟩ := stack.rest
    obtain ⟨mmu, second⟩ := temp.rest
    exact ⟨mmu, copied, by rw [second, first]⟩
  · exact (kept i).trans (stack.mapped i listed)
  · exact absurd (List.mem_finRange i) away
  · rw [samePages]
    exact stack.copied i listed
  · rw [samePages]
    exact stack.frames pfn away

/-- `forkTo` enters the child with the context and a copy of the stack of the parent. -/
theorem forkTo_eq_ok {childPcbp : Addr} {currKctxt kctxt : KernelContext}
    (fits : kernelStackPages ≤ maxPtLen) (below : m.currKernelBrk ≤ kernelStackBase)
    (mapped : m.MapsStack) (injective : Function.Injective (m.pcbs childPcbp).stackPfns)
    (apart : ∀ i j, m.curr.stackPfns i ≠ (m.pcbs childPcbp).stackPfns j)
    (done : m.forkTo currKctxt childPcbp = .ok (kctxt, n)) :
    Entered childPcbp kctxt
        (m.setKctxt m.currPCB (some currKctxt)) n ∧
      kctxt = currKctxt ∧
      ∀ i, n.pages ((m.pcbs childPcbp).stackPfns i) = m.pages (m.curr.stackPfns i) := by
  obtain ⟨saved, save, done⟩ := Outcome.bind_eq_ok.mp done
  obtain ⟨copied, copy, done⟩ := Outcome.bind_eq_ok.mp done
  obtain ⟨reset, wrote, done⟩ := Outcome.bind_eq_ok.mp done
  obtain ⟨given, give, done⟩ := Outcome.bind_eq_ok.mp done
  have pfns := fun p => setKctxt_stackPfns m m.currPCB p (some currKctxt)
  obtain rfl := saveContext_eq_ok save
  have stack := (copyStack_eq_ok
    (m := { m.setKctxt m.currPCB (some currKctxt) with
      currPCB := childPcbp })
    fits ((pfns childPcbp).symm ▸ injective) ((pfns childPcbp).symm ▸ apart) (fun i _ => mapped i)
    (List.nodup_finRange _) copy).resetTemp fits wrote
  have own := congrFun (pfns childPcbp)
  have entries : ∀ i : Fin kernelStackPages, reset.entryOf (r0StackBase + i.val) =
      some ⟨true, protReadWrite, (m.pcbs childPcbp).stackPfns i⟩ := fun i =>
    own i ▸ stack.mapped i (List.mem_finRange i)
  have copies : ∀ i, reset.pages ((m.pcbs childPcbp).stackPfns i) =
      m.pages (m.curr.stackPfns i) := fun i =>
    own i ▸ stack.copied i (List.mem_finRange i)
  have frames : ∀ pfn, (∀ i, (m.pcbs childPcbp).stackPfns i ≠ pfn) →
      reset.pages pfn = m.pages pfn := fun pfn away =>
    stack.frames pfn fun i _ same => away i ((own i).symm.trans same)
  obtain ⟨mmu, pages, rfl⟩ := stack.rest
  obtain rfl := saveContext_eq_ok give
  obtain ⟨mmu', switched, low⟩ := switchRegion1_eq _
  rw [switched] at done
  unfold resumeContext at done
  split at done
  · cases done
  rename_i last found
  cases done
  have own : some currKctxt = some kctxt :=
    ((setKctxt_kctxt _ _ _ _).trans (if_pos rfl)).symm.trans found
  have givenPfns := fun p => (setKctxt_stackPfns
    { m.setKctxt m.currPCB (some currKctxt) with
      currPCB := childPcbp } childPcbp p (some currKctxt)).trans (pfns p)
  refine ⟨?_, (Option.some.inj own).symm, copies⟩
  exact {
    live := rfl
    currPCB := rfl
    brk := below
    mapped := fun i => by
      refine (low _ (stackPage_lt fits i)).trans ((entries i).trans ?_)
      exact congrArg (fun f => some (Pte.mk true protReadWrite (f i))) (givenPfns childPcbp).symm
    stackPfns := fun p => (givenPfns p).trans (pfns p).symm
    saved := fun p other => (setKctxt_kctxt _ _ _ _).trans (if_neg other)
    frames := fun pfn away => by
      rw [pfns] at away
      exact frames pfn away
    running := found
    starter := ⟨rfl, rfl⟩ }

/-- `execTo` gives the running process the starter context and stack. -/
theorem execTo_eq_ok {kctxt : KernelContext} (mapped : m.MapsStack)
    (injective : Function.Injective m.curr.stackPfns) (done : m.execTo = .ok (kctxt, n)) :
    ∃ pages, n = { m.setKctxt m.currPCB (some m.starterKctxt) with
        pages := pages } ∧
      kctxt = m.starterKctxt ∧
      (∀ i, pages (m.curr.stackPfns i) = m.starterKernelStack i) ∧
      ∀ pfn, (∀ i, m.curr.stackPfns i ≠ pfn) → pages pfn = m.pages pfn := by
  obtain ⟨saved, save, done⟩ := Outcome.bind_eq_ok.mp done
  obtain ⟨loaded, load, done⟩ := Outcome.bind_eq_ok.mp done
  obtain rfl := saveContext_eq_ok save
  obtain ⟨pages, rfl, starter, others⟩ := loadStarterStack_eq_ok
    (m := m.setKctxt m.currPCB (some m.starterKctxt))
    injective mapped (List.nodup_finRange _) load
  unfold resumeContext at done
  split at done
  · cases done
  rename_i last found
  cases done
  have own : some m.starterKctxt = some kctxt :=
    ((setKctxt_kctxt _ _ _ _).trans (if_pos rfl)).symm.trans found
  exact ⟨pages, rfl, (Option.some.inj own).symm, fun i => starter i (List.mem_finRange i),
    fun pfn away => others pfn fun i _ => away i⟩

/-- The starter stack gets the pages that the entries show. -/
theorem saveStarterStack_eq_ok {slots : List (Fin kernelStackPages)}
    {pfns : Fin kernelStackPages → Nat}
    (mapped : ∀ i, m.entryOf (r0StackBase + i.val) = some ⟨true, protReadWrite, pfns i⟩)
    (done : m.saveStarterStack slots = .ok n) :
    ∃ stack, n = { m with starterKernelStack := stack } ∧
      (∀ i ∈ slots, stack i = m.pages (pfns i)) ∧
      ∀ i ∉ slots, stack i = m.starterKernelStack i := by
  induction slots generalizing m with
  | nil =>
      cases done
      exact ⟨_, rfl, nofun, fun _ _ => rfl⟩
  | cons i rest ih =>
      obtain ⟨page, read, done⟩ := Outcome.bind_eq_ok.mp done
      obtain rfl := readPage_eq_ok (mapped i) read
      obtain ⟨stack, rfl, saved, others⟩ := ih
        (m := { m with
          starterKernelStack := Function.update m.starterKernelStack i (m.pages (pfns i)) })
        mapped done
      refine ⟨stack, rfl, fun j listed => ?_, fun j away => ?_⟩
      · by_cases later : j ∈ rest
        · exact saved j later
        · obtain rfl := (List.mem_cons.mp listed).resolve_right later
          exact (others j later).trans (Function.update_self _ _ _)
      · obtain ⟨other, later⟩ := not_or.mp (mt List.mem_cons.mpr away)
        exact (others j later).trans (Function.update_of_ne other _ _)

end KernelMemory

end

end Yallnix
